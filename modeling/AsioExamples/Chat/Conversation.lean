import AsioExamples.Chat.Spoken

/-!
# What the clients print

What a client prints is the beginning of what was said in the room, from a hundred messages
before its session joined until that left: in the order of the room, without a gap and nothing
twice. It does not matter how the events of all parties fall or what fails.
-/

namespace AsioExamples.Chat

set_option autoImplicit false

section Handed
variable {ι : Type} [DecidableEq ι]

theorem handed_asyncWrite (x : Session) : x.handed <+: x.asyncWrite.handed := by
  unfold Session.asyncWrite
  split
  · exact List.prefix_rfl
  · exact List.prefix_append _ _

theorem handed_deliver (x : Session) (msg : ChatMessage) :
    x.handed <+: (x.deliver msg).handed := by
  unfold Session.deliver
  simp only
  split
  · exact handed_asyncWrite { x with writeMsgs := x.writeMsgs ++ [msg] }
  · exact List.prefix_rfl

theorem handed_foldl_deliver (msgs : List ChatMessage) (x : Session) :
    x.handed <+: (msgs.foldl Session.deliver x).handed := by
  induction msgs generalizing x with
  | nil => exact List.prefix_rfl
  | cons msg msgs ih => exact (handed_deliver x msg).trans (ih _)

theorem handed_handleWritten (x : Session) : x.handed <+: x.handleWritten.handed := by
  unfold Session.handleWritten
  simp only
  split
  · exact handed_asyncWrite { x with writing := x.writing - 1, writeMsgs := x.writeMsgs.tail }
  · exact List.prefix_rfl

theorem handed_update (st : ChatState ι) {f : Session → Session}
    (hf : ∀ x, x.handed <+: (f x).handed) (s t : ι) :
    (st.sessions t).handed <+: ((st.update s f).sessions t).handed := by
  rw [ChatState.sessions_update]
  split
  · exact hf _
  · exact List.prefix_rfl

theorem handed_act (st : ChatState ι) (s t : ι) (a : Reader × Action) :
    (st.sessions t).handed <+: ((st.act s a).sessions t).handed := by
  have hset : (st.sessions t).handed <+: ((st.setReader s a.1).sessions t).handed :=
    handed_update st (f := fun x => { x with reader := a.1 }) (fun _ => List.prefix_rfl) s t
  obtain ⟨r, a⟩ := a
  cases a with
  | proceed => exact hset
  | stop => exact hset
  | accept msg =>
    refine hset.trans ?_
    change _ <+: (((st.setReader s r).deliver msg).sessions t).handed
    rw [ChatState.deliver_eq]
    change _ <+: (if t ∈ (st.setReader s r).room.participants then _ else _ : Session).handed
    split
    · exact handed_deliver _ msg
    · exact List.prefix_rfl

/-- A buffer once given to `async_write` stays on record. -/
theorem handed_next (st : ChatState ι) (e : ChatEvent ι) (t : ι) :
    (st.sessions t).handed <+: ((chatMachine.next st e).sessions t).handed := by
  cases e with
  | start s =>
    change _ <+: ((st.start s).sessions t).handed
    unfold ChatState.start ChatState.join
    simp only [ChatState.foldl_update_self, ChatState.sessions_update]
    by_cases h : t = s
    · simp only [h, if_true]
      exact handed_foldl_deliver _ _
    · simp only [h, if_false]
      exact List.prefix_rfl
  | readHeader s transferred error => exact handed_act st s t _
  | readBody s transferred error => exact handed_act st s t _
  | write s error =>
    cases error with
    | false => exact handed_update st handed_handleWritten s t
    | true =>
      exact handed_update st (f := fun x => { x with writing := x.writing - 1 })
        (fun _ => List.prefix_rfl) s t

theorem take_of_isPrefix {α : Type} {l l' : List α} (h : l <+: l') {n : Nat}
    (hn : n ≤ l.length) : l'.take n = l.take n := by
  obtain ⟨rest, rfl⟩ := h
  exact List.take_append_of_le_length hn

variable {fills : ι → Fill} {trace : List (ChatEvent ι)} {st : ChatState ι}

/-- As many writes are over as have been handed over, but for one that is outstanding. -/
theorem written_add_writing_le (h : Inv fills trace st) (s : ι) :
    written s trace + (st.sessions s).writing ≤ (st.sessions s).handed.length := by
  by_cases hstart : .start s ∈ trace
  · obtain ⟨before, rest, hcut⟩ := List.append_of_mem hstart
    obtain ⟨o, hqueue, -, hdone, -⟩ := h.queues s before rest hcut
    rw [← hdone, hqueue.writing, hqueue.handed]
    unfold Outbox.begun Outbox.sending
    split
    · simp
    · rename_i hno
      obtain ⟨a, w, hw⟩ := List.exists_cons_of_ne_nil fun hnil => hno (.inr hnil)
      simp [hw]
  · obtain ⟨hnew, -, hwrites⟩ := h.unstarted s hstart
    rw [hnew, written, List.count_eq_zero.mpr (hwrites false)]
    exact Nat.le_refl _

theorem handed_isPrefix_due (h : Inv fills trace st) {s : ι} {before rest : List (ChatEvent ι)}
    (hcut : trace = before ++ .start s :: rest) :
    (st.sessions s).handed <+: due s before rest := by
  obtain ⟨o, hqueue, hall, -⟩ := h.queues s before rest hcut
  rw [hqueue.handed, ← hall]
  exact Outbox.begun_isPrefix_all

end Handed

section Downstream
variable {ι : Type} [DecidableEq ι] {peers : Peers ι} {trace : List (NetworkEvent ι)}
  {st : Network ι}

/-- The sockets of the room have taken the messages written, and part of the one being
written. -/
structure Takes (trace : List (ChatEvent ι)) (st : Network ι) : Prop where
  sent : ∀ s, (st.down s).sent <+: (st.room.sessions s).handed.flatten
  done : ∀ s, ((st.room.sessions s).handed.take (written s trace)).flatten <+: (st.down s).sent

theorem written_concat (s : ι) (trace : List (ChatEvent ι)) (e : ChatEvent ι) :
    written s (trace ++ [e]) = written s trace + if e = .write s false then 1 else 0 := by
  simp [written, List.count_singleton]

theorem takes_room {rt : List (ChatEvent ι)} (hinv : Inv peers.sessionFill rt st.room)
    (h : Takes rt st) {e : ChatEvent ι} (he : networkMachine.enabled st (.room e)) :
    Takes (rt ++ [e]) (networkMachine.next st (.room e)) := by
  obtain ⟨he, -, hover⟩ := he
  have hhanded := handed_next st.room e
  refine ⟨fun s => (h.sent s).trans (flatten_isPrefix (hhanded s)), fun s => ?_⟩
  have hle := written_add_writing_le hinv s
  rw [written_concat]
  change (((chatMachine.next st.room e).sessions s).handed.take _).flatten <+: (st.down s).sent
  by_cases hwrite : e = .write s false
  · subst hwrite
    have hwriting : 0 < (st.room.sessions s).writing := he
    have hall : (st.down s).sent = (st.room.sessions s).handed.flatten := hover rfl
    rw [if_pos rfl, take_of_isPrefix (hhanded s) (by omega), hall]
    exact flatten_isPrefix (List.take_prefix _ _)
  · rw [if_neg hwrite, Nat.add_zero, take_of_isPrefix (hhanded s) (by omega)]
    exact h.done s

theorem takes_of_run (h : networkMachine.Run (Network.init peers) trace st) :
    Takes (roomTrace trace) st := by
  refine h.invariant_along (I := fun trace st => Takes (roomTrace trace) st)
    ⟨fun _ => List.nil_prefix, fun _ => List.nil_prefix⟩ ?_
  intro trace st e hrun hi he
  rw [roomTrace_concat]
  cases e with
  | room e => exact takes_room (readsOn_of_run (room_run hrun)).toInv hi he
  | client t e =>
    rw [show (NetworkEvent.client t e).inRoom.toList = [] from rfl, List.append_nil]
    have hsame : ∀ s, ((networkMachine.next st (.client t e)).down s).sent =
        (st.down s).sent := by
      intro s
      by_cases hs : s = t
      · subst hs
        simp [networkMachine]
      · simp [networkMachine, hs]
    refine ⟨fun s => ?_, fun s => ?_⟩
    · rw [hsame]
      exact hi.sent s
    · rw [hsame]
      exact hi.done s
  | sendUp t piece =>
    rw [show (NetworkEvent.sendUp t piece).inRoom.toList = [] from rfl, List.append_nil]
    exact ⟨hi.sent, hi.done⟩
  | sendDown t piece =>
    rw [show (NetworkEvent.sendDown t piece).inRoom.toList = [] from rfl, List.append_nil]
    refine ⟨fun s => ?_, fun s => ?_⟩
    · by_cases hs : s = t
      · subst hs
        simpa [networkMachine] using he.2
      · simpa [networkMachine, hs] using hi.sent s
    · by_cases hs : s = t
      · subst hs
        simpa [networkMachine] using (hi.done s).trans (List.prefix_append _ _)
      · simpa [networkMachine, hs] using hi.done s

theorem length_spoken {rt : List (ChatEvent ι)} (h : Speaks peers rt st) {p : ι × Bytes}
    (hp : p ∈ spoken rt) : p.2.length ≤ maxBodyLength := by
  have hmem : p.2 ∈ typedBodies (peers.text p.1) := by
    apply (h.typed p.1).subset
    unfold spokenBy
    exact List.mem_map_of_mem (List.mem_filter.mpr ⟨hp, by simp⟩)
  exact length_typedBodies hmem

theorem heard_subset {s : ι} {before rest : List (ChatEvent ι)} {p : ι × Bytes}
    (hp : p ∈ heard s before rest) : p ∈ spoken (before ++ .start s :: rest) := by
  rw [spoken_append]
  rcases List.mem_append.mp hp with hp | hp
  · exact List.mem_append_left _ (List.mem_of_mem_drop hp)
  · apply List.mem_append_right
    have hsub : spoken (rest.takeWhile fun e => !leaves s e) <+: spoken rest :=
      (List.takeWhile_prefix _).filterMap _
    exact hsub.subset hp

/-- The bodies of the buffers handed over. -/
def Session.bodies (x : Session) : List Bytes :=
  x.handed.map fun bytes => bytes.drop headerLength

/-- Whatever is handed over is a body with its frame, and was said. -/
theorem handed_eq (h : networkMachine.Run (Network.init peers) trace st) (s : ι) :
    (st.room.sessions s).handed = ((st.room.sessions s).bodies).map frame ∧
      (∀ b ∈ (st.room.sessions s).bodies, b.length ≤ maxBodyLength) ∧
      ∀ before rest, roomTrace trace = before ++ .start s :: rest →
        (st.room.sessions s).bodies <+: (heard s before rest).map Prod.snd := by
  have hinv := (readsOn_of_run (room_run h)).toInv
  have hspeaks := speaks_of_run h
  have hheard : ∀ before rest, roomTrace trace = before ++ .start s :: rest →
      ∃ bodies, bodies <+: (heard s before rest).map Prod.snd ∧
        (st.room.sessions s).handed = bodies.map frame := by
    intro before rest hcut
    obtain ⟨more, hmore⟩ := handed_isPrefix_due hinv hcut
    rw [due_eq (hcut ▸ hspeaks.plain)] at hmore
    refine ⟨((heard s before rest).map Prod.snd).take (st.room.sessions s).handed.length,
      List.take_prefix _ _, ?_⟩
    rw [List.map_take, List.map_map]
    have htake := congrArg (List.take (st.room.sessions s).handed.length) hmore
    rw [List.take_left] at htake
    exact htake
  have hdrop : ∀ bodies : List Bytes, (∀ b ∈ bodies, b.length ≤ maxBodyLength) →
      (bodies.map frame).map (fun bytes => bytes.drop headerLength) = bodies := by
    intro bodies hbodies
    rw [List.map_map]
    refine (List.map_congr_left fun b hb => ?_).trans (List.map_id _)
    exact List.drop_left' (length_padded (hbodies b hb))
  by_cases hstart : .start s ∈ roomTrace trace
  · obtain ⟨before, rest, hcut⟩ := List.append_of_mem hstart
    obtain ⟨bodies, hbodies, hhanded⟩ := hheard before rest hcut
    have hle : ∀ b ∈ bodies, b.length ≤ maxBodyLength := by
      intro b hb
      obtain ⟨p, hp, rfl⟩ := List.mem_map.mp (hbodies.subset hb)
      exact length_spoken hspeaks (hcut ▸ heard_subset hp)
    have heq : (st.room.sessions s).bodies = bodies := by
      unfold Session.bodies
      rw [hhanded, hdrop bodies hle]
    rw [heq]
    refine ⟨hhanded, hle, fun before' rest' hcut' => ?_⟩
    obtain ⟨bodies', hbodies', hhanded'⟩ := hheard before' rest' hcut'
    have hle' : ∀ b ∈ bodies', b.length ≤ maxBodyLength := by
      intro b hb
      obtain ⟨p, hp, rfl⟩ := List.mem_map.mp (hbodies'.subset hb)
      exact length_spoken hspeaks (hcut' ▸ heard_subset hp)
    have hsame : bodies = bodies' := by
      rw [← hdrop bodies hle, ← hhanded, hhanded', hdrop bodies' hle']
    rw [hsame]
    exact hbodies'
  · have hnil : (st.room.sessions s).handed = [] := by
      rw [(hinv.unstarted s hstart).1]
      rfl
    unfold Session.bodies
    rw [hnil]
    refine ⟨rfl, by simp, fun before rest hcut => ?_⟩
    exact absurd (by rw [hcut]; simp) hstart

end Downstream

section Printing
variable {ι : Type} [DecidableEq ι] {peers : Peers ι} {trace : List (NetworkEvent ι)}
  {st : Network ι}

def printed (bodies : List Bytes) : Bytes := bodies.flatMap (· ++ str "\n")

/-- The client has printed the bodies of the frames it has taken. -/
structure Prints (st : ClientState) (received : Bytes) (all bodies : List Bytes) : Prop where
  isPrefix : bodies <+: all
  aligned : Aligned st.client.reader received bodies
  out : st.client.out = printed bodies
  connecting : st.connecting = true →
    received = [] ∧ bodies = [] ∧ st.client.reader.reading = none

theorem Prints.congr {st st' : ClientState} {received : Bytes} {all bodies : List Bytes}
    (h : Prints st received all bodies) (hreader : st'.client.reader = st.client.reader)
    (hout : st'.client.out = st.client.out) (hconnecting : st'.connecting = st.connecting) :
    Prints st' received all bodies := by
  obtain ⟨hbegins, haligned, hbodies, hnone⟩ := h
  exact ⟨hbegins, hreader ▸ haligned, hout.trans hbodies, by rw [hconnecting, hreader]; exact hnone⟩

theorem Prints.mono {st : ClientState} {received : Bytes} {all all' bodies : List Bytes}
    (h : Prints st received all bodies) (hall : all <+: all') : Prints st received all' bodies :=
  ⟨h.isPrefix.trans hall, h.aligned, h.out, h.connecting⟩

theorem reader_doWrite (c : ChatClient) (msg : ChatMessage) :
    (c.doWrite msg).reader = c.reader ∧ (c.doWrite msg).out = c.out := by
  unfold ChatClient.doWrite
  simp only
  split
  · exact ⟨rfl, rfl⟩
  · exact ⟨rfl, rfl⟩

theorem reader_clientHandleWrite (c : ChatClient) (error : Bool) :
    (c.handleWrite error).reader = c.reader ∧ (c.handleWrite error).out = c.out := by
  unfold ChatClient.handleWrite
  simp only
  split
  · split
    · exact ⟨rfl, rfl⟩
    · exact ⟨rfl, rfl⟩
  · exact ⟨rfl, rfl⟩

theorem reader_runPosted (st : ClientState) :
    st.runPosted.client.reader = st.client.reader ∧ st.runPosted.client.out = st.client.out ∧
      st.runPosted.connecting = st.connecting := by
  unfold ClientState.runPosted
  split
  · exact ⟨rfl, rfl, rfl⟩
  · obtain ⟨hreader, hout⟩ := reader_doWrite st.client _
    exact ⟨hreader, hout, rfl⟩
  · exact ⟨rfl, rfl, rfl⟩

theorem prints_next {st : ClientState} {received sent : Bytes} {all bodies : List Bytes}
    (hall : ∀ b ∈ all, b.length ≤ maxBodyLength) (hsent : sent <+: all.flatMap frame)
    (h : Prints st received all bodies) {e : ClientEvent}
    (he : (clientMachine true).enabled st e) (hpiece : received ++ e.transferred <+: sent) :
    ∃ bodies', Prints ((clientMachine true).next st e) (received ++ e.transferred) all bodies' := by
  have hsent := hpiece.trans hsent
  have hopened : st.client.reader.reading ≠ none → st.connecting = false := by
    intro hreading
    by_contra hconnecting
    exact hreading (h.connecting (by simpa using hconnecting)).2.2
  have hquiet : ∀ received', received' = received ++ [] → Prints st received' all bodies := by
    rintro received' rfl
    rw [List.append_nil]
    exact h
  cases e with
  | connect error =>
    obtain ⟨hreceived, hbodies, hnone⟩ := h.connecting he.1
    refine ⟨bodies, ?_⟩
    change Prints _ (received ++ []) all bodies
    rw [List.append_nil]
    refine ⟨h.isPrefix, ?_, ?_, fun hfalse => Bool.noConfusion hfalse⟩
    · cases error with
      | true => exact Aligned.of_none hnone _ _
      | false =>
        change received = bodies.flatMap frame
        rw [hreceived, hbodies]
        rfl
    · cases error with
      | true => exact h.out
      | false => exact h.out
  | call => exact ⟨bodies, (hquiet _ rfl).congr rfl rfl rfl⟩
  | runPosted =>
    obtain ⟨hreader, hout, hconnecting⟩ := reader_runPosted st
    exact ⟨bodies, (hquiet _ rfl).congr hreader hout hconnecting⟩
  | sent => exact ⟨bodies, (hquiet _ rfl).congr rfl rfl rfl⟩
  | fail => exact ⟨bodies, (hquiet _ rfl).congr rfl rfl rfl⟩
  | write error =>
    obtain ⟨hreader, hout⟩ := reader_clientHandleWrite st.client error
    exact ⟨bodies, (hquiet _ rfl).congr hreader hout rfl⟩
  | readHeader piece error =>
    obtain ⟨hreading, ⟨-, hlen⟩, -⟩ := he
    have hconnected := hopened (by rw [hreading]; exact Option.some_ne_none _)
    refine ⟨bodies, h.isPrefix, ?_, ?_, fun htrue => ?_⟩
    · cases error with
      | true => exact Aligned.of_none rfl _ _
      | false =>
        obtain ⟨msg, hread, -, haligned⟩ :=
          h.aligned.readHeader hreading hall h.isPrefix (hlen rfl) hsent
        change Aligned (st.client.handleReadHeader piece false).reader _ _
        rw [ChatClient.handleReadHeader, hread]
        exact haligned
    · cases error with
      | true => exact h.out
      | false =>
        obtain ⟨msg, hread, -, -⟩ :=
          h.aligned.readHeader hreading hall h.isPrefix (hlen rfl) hsent
        change (st.client.handleReadHeader piece false).out = _
        rw [ChatClient.handleReadHeader, hread]
        exact h.out
    · exact absurd (hconnected.symm.trans htrue) Bool.false_ne_true
  | readBody piece error =>
    obtain ⟨hreading, ⟨-, hlen⟩, -⟩ := he
    have hconnected := hopened (by rw [hreading]; exact Option.some_ne_none _)
    cases error with
    | true =>
      refine ⟨bodies, h.isPrefix, Aligned.of_none rfl _ _, h.out, fun htrue => ?_⟩
      exact absurd (hconnected.symm.trans htrue) Bool.false_ne_true
    | false =>
      obtain ⟨msg, hread, hbody, -, hbegins, haligned⟩ :=
        h.aligned.readBody hreading hall h.isPrefix (hlen rfl) hsent
      refine ⟨bodies ++ [piece], hbegins, ?_, ?_, fun htrue => ?_⟩
      · change Aligned (st.client.handleReadBody piece false).reader _ _
        rw [ChatClient.handleReadBody, hread]
        exact haligned
      · change (st.client.handleReadBody piece false).out = _
        rw [ChatClient.handleReadBody, hread]
        change st.client.out ++ msg.body ++ str "\n" = _
        rw [hbody, h.out]
        simp [printed]
      · exact absurd (hconnected.symm.trans htrue) Bool.false_ne_true

theorem prints_of_run (h : networkMachine.Run (Network.init peers) trace st) (s : ι) :
    ∃ bodies, Prints (st.clients s) (st.down s).received ((st.room.sessions s).bodies) bodies := by
  refine h.invariant_along (I := fun _ st =>
    ∃ bodies, Prints (st.clients s) (st.down s).received ((st.room.sessions s).bodies) bodies) ?_ ?_
  · exact ⟨[], List.nil_prefix, Aligned.of_none rfl _ _, rfl, fun _ => ⟨rfl, rfl, rfl⟩⟩
  intro trace st e hrun hi he
  obtain ⟨bodies, hi⟩ := hi
  cases e with
  | room e => exact ⟨bodies, hi.mono ((handed_next st.room e s).map _)⟩
  | client t e =>
    by_cases hs : s = t
    · subst hs
      obtain ⟨hframes, hle, -⟩ := handed_eq hrun s
      have hsent := (takes_of_run hrun).sent s
      rw [hframes, ← List.flatMap_def] at hsent
      have hnext := prints_next hle hsent hi he.1 (Pipe.append_isPrefix he.2.1)
      rw [← Pipe.received_receive he.2.1] at hnext
      simpa [networkMachine] using hnext
    · refine ⟨bodies, ?_⟩
      simpa [networkMachine, hs] using hi
  | sendUp t piece => exact ⟨bodies, hi⟩
  | sendDown t piece =>
    refine ⟨bodies, ?_⟩
    by_cases hs : s = t
    · subst hs
      simpa [networkMachine] using hi
    · simpa [networkMachine, hs] using hi

theorem hears_of_run (h : networkMachine.Run (Network.init peers) trace st) {s : ι}
    {before rest : List (ChatEvent ι)} (hcut : roomTrace trace = before ++ .start s :: rest) :
    ∃ bodies, bodies <+: (heard s before rest).map Prod.snd ∧
      (st.clients s).client.out = printed bodies := by
  obtain ⟨bodies, hprints⟩ := prints_of_run h s
  obtain ⟨-, -, hheard⟩ := handed_eq h s
  exact ⟨bodies, hprints.isPrefix.trans (hheard before rest hcut), hprints.out⟩

theorem silent_of_run (h : networkMachine.Run (Network.init peers) trace st) {s : ι}
    (hstart : .start s ∉ roomTrace trace) : (st.clients s).client.out = [] := by
  obtain ⟨bodies, hprints⟩ := prints_of_run h s
  have hnil : (st.room.sessions s).handed = [] := by
    rw [((readsOn_of_run (room_run h)).unstarted s hstart).1]
    rfl
  have hbegins := hprints.isPrefix
  rw [Session.bodies, hnil] at hbegins
  rw [hprints.out, List.eq_nil_of_prefix_nil hbegins]
  rfl

/-- In every run: the room reads from a client the lines typed at it, in order, and a client
prints, line by line, the beginning of what its session is to hear. -/
theorem conversation_is_printed (h : networkMachine.Run (Network.init peers) trace st) :
    (∀ s, spokenBy s (roomTrace trace) <+: typedBodies (peers.text s)) ∧
    ∀ s, (.start s ∉ roomTrace trace → (st.clients s).client.out = []) ∧
      ∀ before rest, roomTrace trace = before ++ .start s :: rest →
        ∃ bodies, bodies <+: (heard s before rest).map Prod.snd ∧
          (st.clients s).client.out = printed bodies :=
  ⟨(speaks_of_run h).typed,
    fun _ => ⟨fun hstart => silent_of_run h hstart, fun _ _ hcut => hears_of_run h hcut⟩⟩

/-- One client says a word that the other prints. -/
theorem conversation_is_printed_two :
    let peers : Peers Bool := ⟨fun _ => Fill.zero, fun _ => Fill.zero, fun _ _ => Fill.zero,
      fun s => if s then str "hi\n" else []⟩
    let trace : List (NetworkEvent Bool) := [.room (.start true), .room (.start false),
      .client true (.connect false), .client false (.connect false), .client true .call,
      .client true .runPosted, .sendUp true (str "   2hi"), .client true .sent,
      .room (.readHeader true (str "   2") false), .room (.readBody true (str "hi") false),
      .sendDown false (str "   2h"), .client false (.readHeader (str "   2") false),
      .sendDown false (str "i"), .client false (.readBody (str "hi") false)]
    ∃ st, networkMachine.Run (Network.init peers) trace st ∧
      spokenBy true (roomTrace trace) <+: [str "hi"] ∧
      (st.clients false).client.out = str "hi\n" ∧
      ∃ bodies, bodies <+: [str "hi"] ∧ (st.clients false).client.out = printed bodies := by
  intro peers trace
  have hadmits : networkMachine.Admits (Network.init peers) trace := by decide +kernel
  obtain ⟨htyped, hprints⟩ := conversation_is_printed hadmits.run
  have hlines : typedBodies (peers.text true) = [str "hi"] := by decide +kernel
  have hheard : (heard false [.start true] [.readHeader true (str "   2") false,
      .readBody true (str "hi") false]).map Prod.snd = [str "hi"] := by decide +kernel
  have hprinted := (hprints false).2 [.start true] [.readHeader true (str "   2") false,
    .readBody true (str "hi") false] rfl
  rw [hheard] at hprinted
  exact ⟨_, hadmits.run, hlines ▸ htyped true, by decide +kernel, hprinted⟩

end Printing

end AsioExamples.Chat
