import AsioExamples.Chat.Conversation

/-!
# Nothing gets stuck

Where no socket of a connection has bytes to take and no read or write of it can be over, all
has arrived: the client has printed everything its session is to hear, and the room has read
every message that the client has written.
-/

namespace AsioExamples.Chat

set_option autoImplicit false

section Arrival
variable {ι : Type} [DecidableEq ι] {peers : Peers ι} {trace : List (NetworkEvent ι)}
  {st : Network ι}

/-- The steps that bring something on its way between client `s` and the room; none of them
is a failure. -/
def NetworkEvent.moves (s : ι) : NetworkEvent ι → Prop
  | .room (.readHeader t _ false) => t = s
  | .room (.readBody t _ false) => t = s
  | .room (.write t false) => t = s
  | .client t (.connect false) => t = s
  | .client t (.readHeader _ false) => t = s
  | .client t (.readBody _ false) => t = s
  | .sendDown t piece => t = s ∧ piece ≠ []
  | _ => False

/-- A connection on which nothing moves any more. -/
def Idle (st : Network ι) (s : ι) : Prop :=
  ∀ e : NetworkEvent ι, e.moves s → ¬ networkMachine.enabled st e

/-- A reader that could take nothing more has taken all frames there are. -/
theorem Aligned.all_taken {r : Reader} {p : Pipe UInt8} {all bodies : List Bytes}
    (h : Aligned r p.received bodies) (hreading : r.reading ≠ none)
    (hall : ∀ b ∈ all, b.length ≤ maxBodyLength) (hbodies : bodies <+: all)
    (hsent : all.flatMap frame <+: p.sent)
    (hheader : ∀ piece : Bytes, r.reading = some .header → piece.length = headerLength →
      ¬ piece <+: p.waiting)
    (hbody : ∀ piece : Bytes, r.reading = some .body → piece.length = r.readMsg.bodyLength →
      ¬ piece <+: p.waiting) : bodies = all := by
  obtain ⟨rest, rfl⟩ := hbodies
  cases rest with
  | nil => rw [List.append_nil]
  | cons b rest =>
    exfalso
    have hb : b.length ≤ maxBodyLength := hall b (by simp)
    have hpadded := length_padded hb
    rw [← p.received_append_waiting, List.flatMap_append, List.flatMap_cons, frame] at hsent
    unfold Aligned at h
    cases hr : r.reading with
    | none => exact hreading hr
    | some op =>
      rw [hr] at h
      cases op with
      | header =>
        have h : p.received = bodies.flatMap frame := h
        rw [h, List.append_assoc, List.prefix_append_right_inj] at hsent
        exact hheader _ hr hpadded ((List.prefix_append _ _).trans hsent)
      | body =>
        have h : p.received = bodies.flatMap frame ++ padded r.readMsg.bodyLength := h.2
        simp only [h, List.append_assoc, List.prefix_append_right_inj] at hsent
        -- The header taken is the one of `b`.
        have hsame : padded r.readMsg.bodyLength = padded b.length := by
          obtain ⟨more, hmore⟩ := hsent
          rw [List.append_assoc] at hmore
          apply List.append_inj_left hmore.symm
          rw [length_padded r.readMsg.bodyLength_le, hpadded]
        have hlength : b.length = r.readMsg.bodyLength := by
          rw [← headerValue_padded hb, ← hsame, headerValue_padded r.readMsg.bodyLength_le]
        rw [hsame, List.prefix_append_right_inj] at hsent
        exact hbody b hr hlength ((List.prefix_append _ _).trans hsent)

theorem not_writing_of_idle (h : networkMachine.Run (Network.init peers) trace st) {s : ι}
    (hidle : Idle st s) : (st.room.sessions s).writing = 0 := by
  by_contra hne
  have hwriting : 0 < (st.room.sessions s).writing := Nat.pos_of_ne_zero hne
  obtain ⟨more, hmore⟩ := (takes_of_run h).sent s
  cases more with
  | nil =>
    rw [List.append_nil] at hmore
    refine hidle (.room (.write s false)) rfl ⟨hwriting, List.nil_prefix, fun _ => hmore⟩
  | cons c more =>
    refine hidle (.sendDown s (c :: more)) ⟨rfl, List.cons_ne_nil _ _⟩ ⟨hwriting, ?_⟩
    rw [hmore]

/-- With no write outstanding and none failed, all that a session is due is on its way. -/
theorem sent_eq_of_idle (h : networkMachine.Run (Network.init peers) trace st) {s : ι}
    {before rest : List (ChatEvent ι)} (hcut : roomTrace trace = before ++ .start s :: rest)
    (hwrite : .write s true ∉ roomTrace trace) (hidle : Idle st s) :
    (st.room.sessions s).bodies = (heard s before rest).map Prod.snd ∧
      (st.down s).sent = (st.room.sessions s).bodies.flatMap frame := by
  have hinv := (readsOn_of_run (room_run h)).toInv
  have hspeaks := speaks_of_run h
  have htakes := takes_of_run h
  obtain ⟨hhanded, -, hheard⟩ := handed_eq h s
  obtain ⟨o, hqueue, hall, hdone, hfailed⟩ := hinv.queues s before rest hcut
  have hzero := not_writing_of_idle h hidle
  rw [hqueue.writing] at hzero
  have hwaiting : o.waiting = [] := by
    by_contra hne
    have hno : ¬ (o.failed = true ∨ o.waiting = []) := by
      rintro (hf | hnil)
      · exact hwrite (hfailed.mp hf)
      · exact hne hnil
    rw [Outbox.sending, if_neg hno] at hzero
    exact absurd hzero Nat.one_ne_zero
  have hbegun : (st.room.sessions s).handed = o.done := by
    rw [hqueue.handed, Outbox.begun, hwaiting]
    exact List.append_nil _
  have hdue : (st.room.sessions s).handed = due s before rest := by
    rw [hbegun, ← hall, Outbox.all, hwaiting, List.append_nil]
  constructor
  · apply (hheard before rest hcut).eq_of_length
    rw [due_eq (hcut ▸ hspeaks.plain)] at hdue
    have hlength := congrArg List.length hdue
    rw [List.length_map] at hlength
    rw [Session.bodies, List.length_map, List.length_map, hlength]
  · have hsent := htakes.done s
    have hwritten : written s (roomTrace trace) = (st.room.sessions s).handed.length := by
      rw [← hdone, hbegun]
    rw [hwritten, List.take_length] at hsent
    have heq := (htakes.sent s).eq_of_length_le hsent.length_le
    rw [hhanded, ← List.flatMap_def] at heq
    exact heq

theorem printed_of_idle (h : networkMachine.Run (Network.init peers) trace st) {s : ι}
    {before rest : List (ChatEvent ι)} (hcut : roomTrace trace = before ++ .start s :: rest)
    (hwrite : .write s true ∉ roomTrace trace)
    (hreads : (st.clients s).connecting = true ∨ (st.clients s).client.reader.reading ≠ none)
    (hidle : Idle st s) :
    (st.clients s).client.out = printed ((heard s before rest).map Prod.snd) := by
  obtain ⟨hbodies, hsent⟩ := sent_eq_of_idle h hcut hwrite hidle
  obtain ⟨bodies, hprints⟩ := prints_of_run h s
  have hreading : (st.clients s).client.reader.reading ≠ none := by
    rcases hreads with hconnecting | hreading
    · refine absurd ⟨⟨hconnecting, fun hf => by cases hf⟩, List.nil_prefix, ?_⟩
        (hidle (.client s (.connect false)) rfl)
      intro hf
      cases hf
    · exact hreading
  rw [hprints.out, ← hbodies]
  congr 1
  refine hprints.aligned.all_taken hreading (handed_eq h s).2.1 hprints.isPrefix
    (hsent ▸ List.prefix_rfl) ?_ ?_
  · intro piece hr hlen hpiece
    refine hidle (.client s (.readHeader piece false)) rfl ⟨⟨hr, ⟨?_, fun _ => hlen⟩, ?_⟩,
      hpiece, ?_⟩
    · exact Nat.le_of_eq hlen
    · intro hf
      cases hf
    · intro hf
      cases hf
  · intro piece hr hlen hpiece
    refine hidle (.client s (.readBody piece false)) rfl ⟨⟨hr, ⟨?_, fun _ => hlen⟩, ?_⟩,
      hpiece, ?_⟩
    · exact Nat.le_of_eq hlen
    · intro hf
      cases hf
    · intro hf
      cases hf

theorem written_doWrite (c : ChatClient) (msg : ChatMessage) :
    (c.doWrite msg).written = c.written := by
  unfold ChatClient.doWrite
  simp only
  split <;> rfl

theorem written_handleWrite (c : ChatClient) (error : Bool) :
    (c.handleWrite error).written = c.written := by
  unfold ChatClient.handleWrite
  simp only
  split
  · split <;> rfl
  · rfl

theorem written_act (c : ChatClient) (a : Reader × Action) : (c.act a).written = c.written := by
  obtain ⟨r, a⟩ := a
  cases a <;> rfl

/-- Only a write that is over adds to what has been written. -/
theorem written_client {c : ClientState} {e : ClientEvent} (h : e ≠ .sent) :
    ((clientMachine true).next c e).client.written = c.client.written := by
  cases e with
  | connect error => cases error <;> rfl
  | call => rfl
  | runPosted =>
    change c.runPosted.client.written = _
    unfold ClientState.runPosted
    split
    · rfl
    · exact written_doWrite _ _
    · rfl
  | sent => exact absurd rfl h
  | fail => rfl
  | write error => exact written_handleWrite _ _
  | readHeader transferred error => exact written_act _ _
  | readBody transferred error => exact written_act _ _

/-- The messages a client has written are the first of those typed, and its socket has taken
them. -/
theorem client_written (h : networkMachine.Run (Network.init peers) trace st) (s : ι) :
    (st.clients s).client.written <+: (typedBodies (peers.text s)).map frame ∧
      (st.clients s).client.written.flatten <+: (st.up s).sent := by
  refine h.invariant_along (I := fun _ st =>
    (st.clients s).client.written <+: (typedBodies (peers.text s)).map frame ∧
      (st.clients s).client.written.flatten <+: (st.up s).sent)
    ⟨List.nil_prefix, List.nil_prefix⟩ ?_
  intro trace st e hrun hi he
  obtain ⟨htyped, hsent⟩ := hi
  cases e with
  | room e =>
    refine ⟨htyped, ?_⟩
    by_cases hs : s = e.actor
    · subst hs
      simpa [networkMachine] using hsent
    · simpa [networkMachine, hs] using hsent
  | client t e =>
    by_cases hs : s = t
    · subst hs
      by_cases hover : e = .sent
      · subst hover
        obtain ⟨⟨hopen, hpending⟩, -, hall⟩ := he
        have hall := hall rfl
        have hbegun := begun_isPrefix (client_inv hrun hopen) hpending
        rw [typedMessages_bytes] at hbegun
        constructor
        · simpa [networkMachine, clientMachine, ChatClient.sent, ChatClient.begun] using hbegun
        · simp [networkMachine, clientMachine, ChatClient.sent, hall, ChatClient.begun]
      · have hsame := written_client (c := st.clients s) hover
        simpa [networkMachine, hsame] using ⟨htyped, hsent⟩
    · simpa [networkMachine, hs] using ⟨htyped, hsent⟩
  | sendUp t piece =>
    refine ⟨htyped, ?_⟩
    by_cases hs : s = t
    · subst hs
      simpa [networkMachine] using hsent.trans (List.prefix_append _ _)
    · simpa [networkMachine, hs] using hsent
  | sendDown t piece => exact ⟨htyped, hsent⟩

theorem said_of_idle (h : networkMachine.Run (Network.init peers) trace st) {s : ι}
    (hreading : (st.room.sessions s).reader.reading ≠ none) (hidle : Idle st s) :
    (st.clients s).client.written <+: (spokenBy s (roomTrace trace)).map frame := by
  have hspeaks := speaks_of_run h
  obtain ⟨htyped, hsent⟩ := client_written h s
  obtain ⟨bodies, hbodies, hwritten⟩ : ∃ bodies, bodies <+: typedBodies (peers.text s) ∧
      (st.clients s).client.written = bodies.map frame := by
    refine ⟨(typedBodies (peers.text s)).take (st.clients s).client.written.length,
      List.take_prefix _ _, ?_⟩
    rw [List.map_take]
    exact List.prefix_iff_eq_take.mp htyped
  rw [hwritten, ← List.flatMap_def] at hsent
  rw [hwritten]
  rcases List.prefix_or_prefix_of_prefix hbodies (hspeaks.typed s) with hle | hle
  · exact hle.map frame
  · have hall := (hspeaks.aligned s).all_taken hreading
      (fun b hb => length_typedBodies (hbodies.subset hb)) hle hsent
      (fun piece hr hlen hpiece => hidle (.room (.readHeader s piece false)) rfl
        ⟨⟨hr, Nat.le_of_eq hlen, fun _ => hlen⟩, hpiece, fun hf => by cases hf⟩)
      (fun piece hr hlen hpiece => hidle (.room (.readBody s piece false)) rfl
        ⟨⟨hr, Nat.le_of_eq hlen, fun _ => hlen⟩, hpiece, fun hf => by cases hf⟩)
    rw [hall]

/-- On an idle connection everything has arrived: what the client is to hear has been printed,
unless a write to it has failed or it has stopped to read, and what it has written has been
said, unless the room has stopped to read. -/
theorem idle_connection_has_delivered (h : networkMachine.Run (Network.init peers) trace st)
    {s : ι} (hidle : Idle st s) :
    (∀ before rest, roomTrace trace = before ++ .start s :: rest →
      .write s true ∉ roomTrace trace →
      ((st.clients s).connecting = true ∨ (st.clients s).client.reader.reading ≠ none) →
      (st.clients s).client.out = printed ((heard s before rest).map Prod.snd)) ∧
    ((st.room.sessions s).reader.reading ≠ none →
      (st.clients s).client.written <+: (spokenBy s (roomTrace trace)).map frame) :=
  ⟨fun _ _ hcut hwrite hreads => printed_of_idle h hcut hwrite hreads hidle,
    fun hreading => said_of_idle h hreading hidle⟩

/-- A connection with nothing on its way is idle when both sides wait for a header. -/
theorem idle_of_empty {s : ι} (hup : (st.up s).waiting = []) (hdown : (st.down s).waiting = [])
    (hroom : (st.room.sessions s).reader.reading = some .header)
    (hclient : (st.clients s).client.reader.reading = some .header)
    (hwriting : (st.room.sessions s).writing = 0)
    (hconnecting : (st.clients s).connecting = false) : Idle st s := by
  have hshort : ∀ piece : Bytes, Transferred headerLength piece false → ¬ piece <+: [] := by
    intro piece hlen hpiece
    rw [List.eq_nil_of_prefix_nil hpiece] at hlen
    exact absurd (hlen.2 rfl) (by decide)
  intro e hmoves he
  match e with
  | .room (.readHeader t piece false) =>
    obtain rfl : t = s := hmoves
    exact hshort piece he.1.2 (hup ▸ he.2.1)
  | .room (.readBody t piece false) =>
    obtain rfl : t = s := hmoves
    cases hroom.symm.trans he.1.1
  | .room (.write t false) =>
    obtain rfl : t = s := hmoves
    have hpos : 0 < (st.room.sessions t).writing := he.1
    omega
  | .client t (.connect false) =>
    obtain rfl : t = s := hmoves
    exact absurd (hconnecting.symm.trans he.1.1) Bool.false_ne_true
  | .client t (.readHeader piece false) =>
    obtain rfl : t = s := hmoves
    exact hshort piece he.1.2.1 (hdown ▸ he.2.1)
  | .client t (.readBody piece false) =>
    obtain rfl : t = s := hmoves
    cases hclient.symm.trans he.1.1
  | .sendDown t piece =>
    obtain rfl : t = s := hmoves.1
    have hpos : 0 < (st.room.sessions t).writing := he.1
    omega

/-- A word that has been typed and has come back. -/
theorem idle_connection_has_delivered_one :
    let peers : Peers Unit := ⟨fun _ => Fill.zero, fun _ => Fill.zero, fun _ _ => Fill.zero,
      fun _ => str "hi\n"⟩
    let trace : List (NetworkEvent Unit) := [.room (.start ()), .client () (.connect false),
      .client () .call, .client () .runPosted, .sendUp () (str "   2hi"), .client () .sent,
      .room (.readHeader () (str "   2") false), .room (.readBody () (str "hi") false),
      .sendDown () (str "   2hi"), .room (.write () false),
      .client () (.readHeader (str "   2") false), .client () (.readBody (str "hi") false)]
    ∃ st, networkMachine.Run (Network.init peers) trace st ∧
      (st.clients ()).client.out = printed [str "hi"] ∧
      (st.clients ()).client.written <+: [frame (str "hi")] := by
  intro peers trace
  have hadmits : networkMachine.Admits (Network.init peers) trace := by decide +kernel
  have hidle : Idle (trace.foldl networkMachine.next (Network.init peers)) () := by
    apply idle_of_empty
    all_goals decide +kernel
  obtain ⟨hprinted, hsaid⟩ := idle_connection_has_delivered hadmits.run hidle
  exact ⟨_, hadmits.run, hprinted [] _ rfl (by decide +kernel) (.inr (by decide +kernel)),
    hsaid (by decide +kernel)⟩

end Arrival

end AsioExamples.Chat
