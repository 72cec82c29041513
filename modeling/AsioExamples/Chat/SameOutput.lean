import AsioExamples.Chat.Conversation
import AsioExamples.Theory.Packets

/-!
# Both clients print the same

`chat_client` prints a message in the handler that has read it, `posix_chat_client` writes it to
its output with an operation of its own and reads on when that is done. Whatever the bytes are
that the server sends, and whatever the other side of the clients does, they print the same.
-/

namespace AsioExamples.Chat

set_option autoImplicit false

/-- The bytes of the reads without an error. -/
def PosixEvent.received : PosixEvent → Bytes
  | .readHeader transferred false => transferred
  | .readBody transferred false => transferred
  | _ => []

def ClientEvent.received : ClientEvent → Bytes
  | .readHeader transferred false => transferred
  | .readBody transferred false => transferred
  | _ => []

/-- What a message that is being written waits for is a header. -/
def ReceiveOp.awaited : ReceiveOp → ReadOp
  | .header => .header
  | .body => .body
  | .output => .header

def contents (packets : List (Packet UInt8)) : List Bytes := packets.map Packet.body

/-- The packets of a stream that have been taken, and the header of one more where its body of
`length` is waited for. -/
structure Reads (waits : Option ReadOp) (length : Nat) (stream : Bytes)
    (packets : List (Packet UInt8)) : Prop where
  fit : ∀ p ∈ packets, p.Fits headerLength headerValue
  taken : packets.flatMap Packet.bytes <+: stream
  header : waits = some .header → stream = packets.flatMap Packet.bytes
  body : waits = some .body → ∃ header, header.length = headerLength ∧
    length = headerValue header ∧ stream = packets.flatMap Packet.bytes ++ header

section Reads
variable {waits : Option ReadOp} {length : Nat} {stream piece : Bytes}
  {packets : List (Packet UInt8)}

theorem reads_nil (waits : Option ReadOp) (length : Nat) (hwaits : waits ≠ some .body) :
    Reads waits length [] [] where
  fit := List.forall_mem_nil _
  taken := List.prefix_rfl
  header := fun _ => rfl
  body := fun h => absurd h hwaits

theorem Reads.stop (h : Reads waits length stream packets) (length' : Nat) (extra : Bytes) :
    Reads none length' (stream ++ extra) packets :=
  ⟨h.fit, h.taken.trans (List.prefix_append _ _), nofun, nofun⟩

theorem Reads.readHeader (h : Reads (some .header) length stream packets)
    (hpiece : piece.length = headerLength) :
    Reads (some .body) (headerValue piece) (stream ++ piece) packets := by
  refine ⟨h.fit, h.taken.trans (List.prefix_append _ _), nofun, fun _ => ⟨piece, hpiece, rfl, ?_⟩⟩
  rw [h.header rfl]

theorem Reads.readBody (h : Reads (some .body) length stream packets)
    (hpiece : piece.length = length) (length' : Nat) :
    ∃ p : Packet UInt8, p.body = piece ∧
      Reads (some .header) length' (stream ++ piece) (packets ++ [p]) := by
  obtain ⟨header, hheader, rfl, rfl⟩ := h.body rfl
  have hbytes : packets.flatMap Packet.bytes ++ header ++ piece =
      (packets ++ [Packet.mk header piece]).flatMap Packet.bytes := by
    rw [List.flatMap_append, List.append_assoc]
    simp [Packet.bytes]
  refine ⟨⟨header, piece⟩, rfl, fun p hp => ?_, ?_, fun _ => hbytes, nofun⟩
  · rcases List.mem_append.mp hp with hp | hp
    · exact h.fit p hp
    · rw [List.mem_singleton.mp hp]
      exact ⟨hheader, hpiece⟩
  · exact hbytes ▸ List.prefix_rfl

end Reads

theorem printed_concat (packets : List (Packet UInt8)) (p : Packet UInt8) :
    printed (contents (packets ++ [p])) = printed (contents packets) ++ p.body ++ str "\n" := by
  unfold printed contents
  simp

theorem printed_mono {packets packets' : List (Packet UInt8)} (h : packets <+: packets') :
    printed (contents packets) <+: printed (contents packets') := by
  obtain ⟨rest, rfl⟩ := h
  unfold printed contents
  rw [List.map_append, List.flatMap_append]
  exact List.prefix_append _ _

/-! `chat_client` -/

section Client
variable {trace : List ClientEvent} {st : ClientState} {packets : List (Packet UInt8)}

structure ClientPrints (trace : List ClientEvent) (st : ClientState)
    (packets : List (Packet UInt8)) : Prop where
  reads : Reads st.client.reader.reading st.client.reader.readMsg.bodyLength
    (trace.flatMap ClientEvent.received) packets
  out : st.client.out = printed (contents packets)
  connecting : st.connecting = true → trace.flatMap ClientEvent.received = [] ∧ packets = [] ∧
    st.client.reader.reading = none

/-- What leaves the reader alone. -/
theorem ClientPrints.same (h : ClientPrints trace st packets) {e : ClientEvent} {st' : ClientState}
    (he : e.received = []) (hreader : st'.client.reader = st.client.reader)
    (hout : st'.client.out = st.client.out) (hconnecting : st'.connecting = st.connecting) :
    ClientPrints (trace ++ [e]) st' packets := by
  have hreceived : (trace ++ [e]).flatMap ClientEvent.received =
      trace.flatMap ClientEvent.received := by
    rw [List.flatMap_append, List.flatMap_singleton, he, List.append_nil]
  refine ⟨?_, hout.trans h.out, ?_⟩
  · rw [hreceived, hreader]
    exact h.reads
  · rw [hreceived, hreader, hconnecting]
    exact h.connecting

theorem ClientPrints.connected (h : ClientPrints trace st packets)
    (hreading : st.client.reader.reading ≠ none) : st.connecting ≠ true :=
  fun hc => hreading (h.connecting hc).2.2

/-- An error ends the reading; what has been read stays. -/
theorem ClientPrints.stop (h : ClientPrints trace st packets) {e : ClientEvent} {c : ChatClient}
    (hconnected : st.connecting ≠ true) (hreading : c.reader.reading = none)
    (hout : c.out = st.client.out) :
    ClientPrints (trace ++ [e]) { st with client := c } packets := by
  refine ⟨?_, hout.trans h.out, fun hc => absurd hc hconnected⟩
  rw [hreading, List.flatMap_append]
  exact h.reads.stop _ _

theorem clientPrints_readHeader (h : ClientPrints trace st packets) {transferred : Bytes}
    {error : Bool} (he : (clientMachine true).enabled st (.readHeader transferred error)) :
    ClientPrints (trace ++ [.readHeader transferred error])
      { st with client := st.client.handleReadHeader transferred error } packets := by
  obtain ⟨hreading, hlength, -⟩ := he
  have hconnected := h.connected (by rw [hreading]; exact Option.some_ne_none _)
  have hreads := h.reads
  rw [hreading] at hreads
  rcases st.client.reader.handleReadHeader_cases error hlength.2 with
    ⟨rfl, -, msg, hread, -, hbody⟩ | ⟨-, msg, hread⟩
  · have hnext : st.client.handleReadHeader transferred false =
        { st.client with reader := ⟨msg, some .body⟩ } := by
      rw [ChatClient.handleReadHeader, hread]
      rfl
    rw [hnext]
    refine ⟨?_, h.out, fun hc => absurd hc hconnected⟩
    change Reads (some .body) msg.bodyLength _ _
    rw [hbody, List.flatMap_append, List.flatMap_singleton]
    exact hreads.readHeader (hlength.2 rfl)
  · have hnext : st.client.handleReadHeader transferred error =
        { st.client with reader := ⟨msg, none⟩ }.doClose := by
      rw [ChatClient.handleReadHeader, hread]
      rfl
    rw [hnext]
    exact h.stop hconnected rfl rfl

theorem clientPrints_readBody (h : ClientPrints trace st packets) {transferred : Bytes}
    {error : Bool} (he : (clientMachine true).enabled st (.readBody transferred error)) :
    ∃ packets', ClientPrints (trace ++ [.readBody transferred error])
      { st with client := st.client.handleReadBody transferred error } packets' := by
  obtain ⟨hreading, hlength, -⟩ := he
  have hconnected := h.connected (by rw [hreading]; exact Option.some_ne_none _)
  have hreads := h.reads
  rw [hreading] at hreads
  cases error with
  | true => exact ⟨packets, h.stop hconnected rfl rfl⟩
  | false =>
    obtain ⟨msg, hread, hbody, -⟩ := st.client.reader.handleReadBody_ok (hlength.2 rfl)
    have hnext : st.client.handleReadBody transferred false =
        { st.client with
          reader := ⟨msg, some .header⟩
          out := st.client.out ++ msg.body ++ str "\n" } := by
      rw [ChatClient.handleReadBody, hread]
      rfl
    obtain ⟨p, hp, hreads'⟩ := hreads.readBody (hlength.2 rfl) msg.bodyLength
    rw [hnext]
    refine ⟨packets ++ [p], ?_, ?_, fun hc => absurd hc hconnected⟩
    · rw [List.flatMap_append, List.flatMap_singleton]
      exact hreads'
    · rw [printed_concat, hp, ← hbody, ← h.out]

theorem clientPrints_next (h : ClientPrints trace st packets) {e : ClientEvent}
    (he : (clientMachine true).enabled st e) :
    ∃ packets', ClientPrints (trace ++ [e]) ((clientMachine true).next st e) packets' := by
  cases e with
  | call => exact ⟨packets, h.same rfl rfl rfl rfl⟩
  | sent => exact ⟨packets, h.same rfl rfl rfl rfl⟩
  | fail => exact ⟨packets, h.same rfl rfl rfl rfl⟩
  | runPosted =>
    obtain ⟨hreader, hout, hconnecting⟩ := reader_runPosted st
    exact ⟨packets, h.same rfl hreader hout hconnecting⟩
  | write error =>
    obtain ⟨hreader, hout⟩ := reader_clientHandleWrite st.client error
    exact ⟨packets, h.same rfl hreader hout rfl⟩
  | connect error =>
    obtain ⟨hreceived, rfl, hreading⟩ := h.connecting he.1
    have hreceived' : (trace ++ [ClientEvent.connect error]).flatMap ClientEvent.received = [] := by
      rw [List.flatMap_append, hreceived]
      rfl
    cases error with
    | true =>
      refine ⟨[], ?_, h.out, fun hc => absurd hc Bool.false_ne_true⟩
      rw [hreceived']
      exact hreceived ▸ h.reads
    | false =>
      refine ⟨[], ?_, h.out, fun hc => absurd hc Bool.false_ne_true⟩
      rw [hreceived']
      exact reads_nil (some .header) _ (by decide)
  | readHeader transferred error => exact ⟨packets, clientPrints_readHeader h he⟩
  | readBody transferred error => exact clientPrints_readBody h he

theorem run_clientPrints {fill : Fill} {calls : List Posted}
    (h : (clientMachine true).Run (ClientState.init fill calls) trace st) :
    ∃ packets, ClientPrints trace st packets := by
  refine h.invariant (I := fun trace st => ∃ packets, ClientPrints trace st packets) ?_ ?_
  · exact ⟨[], reads_nil _ _ nofun, rfl, fun _ => ⟨rfl, rfl, rfl⟩⟩
  · rintro trace st e ⟨packets, hprints⟩ he
    exact clientPrints_next hprints he

end Client

/-! `posix_chat_client` -/

section Posix
variable {trace : List PosixEvent} {st : PosixState} {packets : List (Packet UInt8)}

/-- The message that is being written is the last one read. A part of it may be all that is
printed in the end. -/
structure PosixPrints (trace : List PosixEvent) (st : PosixState)
    (packets : List (Packet UInt8)) : Prop where
  reads : Reads (st.client.receiving.map ReceiveOp.awaited) st.client.readMsg.bodyLength
    (trace.flatMap PosixEvent.received) packets
  out : st.client.out <+: printed (contents packets)
  reading : st.client.receiving = some .header ∨ st.client.receiving = some .body →
    st.client.out = printed (contents packets)
  writing : st.client.receiving = some .output → ∃ shown p, packets = shown ++ [p] ∧
    p.body = st.client.readMsg.body ∧ st.client.out = printed (contents shown)
  connecting : st.connecting = true → trace.flatMap PosixEvent.received = [] ∧
    packets = [] ∧ st.client.receiving = none

/-- What reading and printing go on with. -/
structure SameOutput (c c' : PosixClient) : Prop where
  readMsg : c'.readMsg = c.readMsg
  receiving : c'.receiving = c.receiving
  out : c'.out = c.out

theorem sameOutput_handleReadInput (c : PosixClient) (error : InputError) (length : Nat) :
    SameOutput c (c.handleReadInput error length) := by
  cases error with
  | none => exact ⟨rfl, rfl, rfl⟩
  | notFound => exact ⟨rfl, rfl, rfl⟩
  | other => exact ⟨rfl, rfl, rfl⟩

theorem sameOutput_handleWrite (c : PosixClient) (error : Bool) :
    SameOutput c (c.handleWrite error) := by
  cases error with
  | true => exact ⟨rfl, rfl, rfl⟩
  | false => exact ⟨rfl, rfl, rfl⟩

theorem PosixPrints.same (h : PosixPrints trace st packets) {e : PosixEvent}
    {c : PosixClient} (he : e.received = []) (hc : SameOutput st.client c) :
    PosixPrints (trace ++ [e]) { st with client := c } packets := by
  have hreceived : (trace ++ [e]).flatMap PosixEvent.received =
      trace.flatMap PosixEvent.received := by
    rw [List.flatMap_append, List.flatMap_singleton, he, List.append_nil]
  obtain ⟨hmsg, hreceiving, hout⟩ := hc
  refine ⟨?_, ?_, ?_, ?_, ?_⟩
  · rw [hreceived, hreceiving, hmsg]
    exact h.reads
  · rw [hout]
    exact h.out
  · rw [hreceiving, hout]
    exact h.reading
  · rw [hreceiving, hmsg, hout]
    exact h.writing
  · rw [hreceived, hreceiving]
    exact h.connecting

theorem PosixPrints.connected (h : PosixPrints trace st packets)
    (hreceiving : st.client.receiving ≠ none) : st.connecting ≠ true :=
  fun hc => hreceiving (h.connecting hc).2.2

/-- An error ends the reading; what has been read stays. -/
theorem PosixPrints.stop (h : PosixPrints trace st packets) {e : PosixEvent}
    {c : PosixClient} (hconnected : st.connecting ≠ true) (hreceiving : c.receiving = none)
    (hout : c.out <+: printed (contents packets)) :
    PosixPrints (trace ++ [e]) { st with client := c } packets := by
  refine ⟨?_, hout, ?_, ?_, fun hc => absurd hc hconnected⟩
  · rw [hreceiving, List.flatMap_append]
    exact h.reads.stop _ _
  · rintro (hr | hr)
    · cases hreceiving.symm.trans hr
    · cases hreceiving.symm.trans hr
  · intro hwriting
    cases hreceiving.symm.trans hwriting

/-- The header is read as the other client reads it. -/
theorem posix_handleReadHeader (c : PosixClient) {transferred : Bytes} {error : Bool}
    (h : error = false → transferred.length = headerLength) :
    (c.handleReadHeader transferred error).out = c.out ∧
      ((error = false ∧ (c.handleReadHeader transferred error).receiving = some .body ∧
          (c.handleReadHeader transferred error).readMsg.bodyLength = headerValue transferred) ∨
        (c.handleReadHeader transferred error).receiving = none) := by
  have hcases := (⟨c.readMsg, some .header⟩ : Reader).handleReadHeader_cases error h
  cases error with
  | true => exact ⟨rfl, .inr rfl⟩
  | false =>
    unfold Reader.handleReadHeader at hcases
    unfold PosixClient.handleReadHeader
    rcases hd : (c.readMsg.storeHeader transferred).decodeHeader with ⟨ok, msg⟩
    cases ok with
    | true =>
      simp only [hd, Bool.not_false, if_true] at hcases ⊢
      rcases hcases with ⟨-, -, msg', hmsg, -, hbody⟩ | ⟨-, msg', hmsg⟩
      · cases hmsg
        exact ⟨trivial, .inl ⟨trivial, trivial, hbody⟩⟩
      · cases hmsg
    | false =>
      simp only [hd, Bool.not_false, if_true]
      exact ⟨rfl, .inr rfl⟩

theorem posixPrints_connect (h : PosixPrints trace st packets) {error : Bool}
    (he : (posixMachine true).enabled st (.connect error)) :
    PosixPrints (trace ++ [.connect error]) ((posixMachine true).next st (.connect error)) [] := by
  obtain ⟨hreceived, rfl, hreceiving⟩ := h.connecting he.1
  have hout : st.client.out = [] := List.prefix_nil.mp h.out
  have hreceived' : (trace ++ [PosixEvent.connect error]).flatMap PosixEvent.received = [] := by
    rw [List.flatMap_append, hreceived]
    rfl
  cases error with
  | true =>
    refine ⟨?_, h.out, fun _ => hout, fun hwriting => ?_, fun hc => absurd hc Bool.false_ne_true⟩
    · rw [hreceived']
      exact hreceived ▸ h.reads
    · cases hreceiving.symm.trans hwriting
  | false =>
    refine ⟨?_, h.out, fun _ => hout, fun hwriting => ?_, fun hc => absurd hc Bool.false_ne_true⟩
    · rw [hreceived']
      exact reads_nil (some .header) _ (by decide)
    · cases hwriting

theorem posixPrints_readHeader (h : PosixPrints trace st packets) {transferred : Bytes}
    {error : Bool} (he : (posixMachine true).enabled st (.readHeader transferred error)) :
    PosixPrints (trace ++ [.readHeader transferred error])
      { st with client := st.client.handleReadHeader transferred error } packets := by
  obtain ⟨hreceiving, hlength, -⟩ := he
  have hconnected := h.connected (by rw [hreceiving]; exact Option.some_ne_none _)
  have hreads := h.reads
  rw [hreceiving] at hreads
  obtain ⟨hout, ⟨rfl, hbody, hvalue⟩ | hnone⟩ := posix_handleReadHeader st.client hlength.2
  · have hprinted := hout.trans (h.reading (.inl hreceiving))
    refine ⟨?_, hout ▸ h.out, fun _ => hprinted, fun hwriting => ?_,
      fun hc => absurd hc hconnected⟩
    · change Reads ((st.client.handleReadHeader transferred false).receiving.map
        ReceiveOp.awaited) (st.client.handleReadHeader transferred false).readMsg.bodyLength _ _
      rw [hbody, hvalue, List.flatMap_append, List.flatMap_singleton]
      exact hreads.readHeader (hlength.2 rfl)
    · cases hbody.symm.trans hwriting
  · exact h.stop hconnected hnone (hout ▸ h.out)

theorem posixPrints_readBody (h : PosixPrints trace st packets) {transferred : Bytes}
    {error : Bool} (he : (posixMachine true).enabled st (.readBody transferred error)) :
    ∃ packets', PosixPrints (trace ++ [.readBody transferred error])
      { st with client := st.client.handleReadBody transferred error } packets' := by
  obtain ⟨hreceiving, hlength, -⟩ := he
  have hconnected := h.connected (by rw [hreceiving]; exact Option.some_ne_none _)
  have hreads := h.reads
  rw [hreceiving] at hreads
  cases error with
  | true => exact ⟨packets, h.stop hconnected rfl h.out⟩
  | false =>
    have hprinted := h.reading (.inr hreceiving)
    obtain ⟨p, hp, hreads'⟩ := hreads.readBody (hlength.2 rfl) st.client.readMsg.bodyLength
    have hbody := ChatMessage.body_storeBody (hlength.2 rfl)
    refine ⟨packets ++ [p], ?_, h.out.trans (printed_mono (List.prefix_append _ _)), ?_,
      fun _ => ⟨packets, p, rfl, hp.trans hbody.symm, hprinted⟩, fun hc => absurd hc hconnected⟩
    · rw [List.flatMap_append, List.flatMap_singleton]
      exact hreads'
    · rintro (hr | hr)
      · cases hr
      · cases hr

/-- What reaches the output goes on with what was printed before. -/
theorem posixPrints_writeOutput (h : PosixPrints trace st packets) {written : Bytes}
    {error : Bool} (he : (posixMachine true).enabled st (.writeOutput written error)) :
    PosixPrints (trace ++ [.writeOutput written error])
      { st with client := st.client.handleWriteOutput written error } packets := by
  obtain ⟨hreceiving, ⟨hpart, hwhole⟩, -⟩ := he
  have hconnected := h.connected (by rw [hreceiving]; exact Option.some_ne_none _)
  obtain ⟨shown, p, rfl, hbody, hout⟩ := h.writing hreceiving
  have hline : printed (contents (shown ++ [p])) =
      st.client.out ++ (st.client.readMsg.body ++ str "\n") := by
    rw [printed_concat, hbody, hout, List.append_assoc]
  have hout' : st.client.out ++ written <+: printed (contents (shown ++ [p])) := by
    rw [hline]
    exact (List.prefix_append_right_inj _).mpr hpart
  cases error with
  | true => exact h.stop hconnected rfl hout'
  | false =>
    have hreads := h.reads
    rw [hreceiving] at hreads
    refine ⟨?_, hout', fun _ => ?_, fun hwriting => ?_, fun hc => absurd hc hconnected⟩
    · rw [List.flatMap_append, List.flatMap_singleton]
      change Reads (some .header) st.client.readMsg.bodyLength _ _
      rw [show PosixEvent.received (.writeOutput written false) = [] from rfl, List.append_nil]
      exact hreads
    · rw [hline, ← hwhole rfl]
      rfl
    · cases hwriting

theorem posixPrints_next (h : PosixPrints trace st packets) {e : PosixEvent}
    (he : (posixMachine true).enabled st e) :
    ∃ packets', PosixPrints (trace ++ [e]) ((posixMachine true).next st e) packets' := by
  cases e with
  | typed piece => exact ⟨packets, h.same rfl ⟨rfl, rfl, rfl⟩⟩
  | readInput error => exact ⟨packets, h.same rfl (sameOutput_handleReadInput ..)⟩
  | write error => exact ⟨packets, h.same rfl (sameOutput_handleWrite ..)⟩
  | connect error => exact ⟨[], posixPrints_connect h he⟩
  | readHeader transferred error => exact ⟨packets, posixPrints_readHeader h he⟩
  | readBody transferred error => exact posixPrints_readBody h he
  | writeOutput written error => exact ⟨packets, posixPrints_writeOutput h he⟩

theorem run_posixPrints {readFill writeFill : Fill}
    (h : (posixMachine true).Run (PosixState.init readFill writeFill) trace st) :
    ∃ packets, PosixPrints trace st packets := by
  refine h.invariant (I := fun trace st => ∃ packets, PosixPrints trace st packets) ?_ ?_
  · exact ⟨[], reads_nil _ _ nofun, List.prefix_rfl, fun _ => rfl, nofun,
      fun _ => ⟨rfl, rfl, rfl⟩⟩
  · rintro trace st e ⟨packets, hprints⟩ he
    exact posixPrints_next hprints he

end Posix

/-- On the same bytes one client prints the beginning of what the other prints, and all of it when
both wait for the next header. -/
theorem clients_print_the_same {readFill writeFill fill : Fill} {calls : List Posted}
    {stream : Bytes} {trace : List PosixEvent} {st : PosixState} {trace' : List ClientEvent}
    {st' : ClientState}
    (h : (posixMachine true).Run (PosixState.init readFill writeFill) trace st)
    (h' : (clientMachine true).Run (ClientState.init fill calls) trace' st')
    (hstream : trace.flatMap PosixEvent.received <+: stream)
    (hstream' : trace'.flatMap ClientEvent.received <+: stream) :
    (st.client.out <+: st'.client.out ∨ st'.client.out <+: st.client.out) ∧
      (trace.flatMap PosixEvent.received = trace'.flatMap ClientEvent.received →
        st.client.receiving = some .header → st'.client.reader.reading = some .header →
          st.client.out = st'.client.out) := by
  obtain ⟨packets, hposix⟩ := run_posixPrints h
  obtain ⟨packets', hclient⟩ := run_clientPrints h'
  have hfit := hposix.reads.fit
  have hfit' := hclient.reads.fit
  constructor
  · rw [hclient.out]
    rcases Packet.comparable hfit hfit' (hposix.reads.taken.trans hstream)
      (hclient.reads.taken.trans hstream') with hle | hle
    · exact .inl (hposix.out.trans (printed_mono hle))
    · exact List.prefix_or_prefix_of_prefix hposix.out (printed_mono hle)
  · intro hsame hreceiving hreading
    have hbytes := hposix.reads.header (by rw [hreceiving]; rfl)
    have hbytes' := hclient.reads.header hreading
    rw [hposix.reading (.inl hreceiving), hclient.out, Packet.eq_of_flatMap
      (k := headerLength) (by decide) hfit hfit' (hbytes.symm.trans (hsame.trans hbytes'))]

/-- A message whose header has a sign, while something is typed at one of the clients. -/
theorem clients_print_the_same_signed :
    let trace : List PosixEvent := [.connect false, .readHeader (str " +2x") false,
      .typed (str "a"), .readBody (str "hi") false, .writeOutput (str "hi\n") false]
    let trace' : List ClientEvent := [.connect false, .readHeader (str " +2x") false,
      .readBody (str "hi") false]
    ∃ st st', (posixMachine true).Run (PosixState.init Fill.zero Fill.zero) trace st ∧
      (clientMachine true).Run (ClientState.init Fill.zero []) trace' st' ∧
      st.client.out = st'.client.out ∧ st'.client.out = str "hi\n" := by
  intro trace trace'
  have hposix : (posixMachine true).Admits (PosixState.init Fill.zero Fill.zero) trace := by
    decide +kernel
  have hclient : (clientMachine true).Admits (ClientState.init Fill.zero []) trace' := by
    decide +kernel
  have hrun := hposix.run
  have hrun' := hclient.run
  generalize hst : List.foldl (posixMachine true).next _ trace = st at hrun
  generalize hst' : List.foldl (clientMachine true).next _ trace' = st' at hrun'
  have hreceiving : st.client.receiving = some .header := by
    rw [← hst]
    decide +kernel
  have hreading : st'.client.reader.reading = some .header := by
    rw [← hst']
    decide +kernel
  have hout : st'.client.out = str "hi\n" := by
    rw [← hst']
    decide +kernel
  obtain ⟨-, hsame⟩ := clients_print_the_same hrun hrun' List.prefix_rfl (by decide)
  exact ⟨st, st', hrun, hrun', hsame (by decide) hreceiving hreading, hout⟩

end AsioExamples.Chat
