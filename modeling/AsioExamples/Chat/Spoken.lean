import AsioExamples.Chat.FrameReading
import AsioExamples.Chat.Speaking
import AsioExamples.Chat.Upstream

/-!
# What is said in a room

The bodies that the room reads from a client are the lines typed at it, in their order, and
every message it hands out is a body with its frame.
-/

namespace AsioExamples.Chat

set_option autoImplicit false

section Spoken
variable {ι : Type}

/-- A body read without an error, and whose it is. -/
def ChatEvent.said : ChatEvent ι → Option (ι × Bytes)
  | .readBody s transferred false => some (s, transferred)
  | _ => none

def spoken (trace : List (ChatEvent ι)) : List (ι × Bytes) := trace.filterMap ChatEvent.said

theorem spoken_concat (trace : List (ChatEvent ι)) (e : ChatEvent ι) :
    spoken (trace ++ [e]) = spoken trace ++ e.said.toList := filterMap_concat _ trace e

theorem spoken_append (before rest : List (ChatEvent ι)) :
    spoken (before ++ rest) = spoken before ++ spoken rest := List.filterMap_append

variable [DecidableEq ι]

def spokenBy (s : ι) (trace : List (ChatEvent ι)) : List Bytes :=
  ((spoken trace).filter fun p => p.1 = s).map Prod.snd

/-- What session `s` is to hear when `before` happened before it joined and `rest` since. -/
def heard (s : ι) (before rest : List (ChatEvent ι)) : List (ι × Bytes) :=
  (spoken before).rtake maxRecentMsgs ++ spoken (rest.takeWhile fun e => !leaves s e)

/-- What is posted are the frames of what is said. -/
def Plain (trace : List (ChatEvent ι)) : Prop :=
  posted trace = (spoken trace).map fun p => frame p.2

theorem spokenBy_concat (s : ι) (trace : List (ChatEvent ι)) (e : ChatEvent ι) :
    spokenBy s (trace ++ [e]) =
      spokenBy s trace ++ (e.said.toList.filter fun p => p.1 = s).map Prod.snd := by
  unfold spokenBy
  rw [spoken_concat, List.filter_append, List.map_append]

theorem spokenBy_other {s : ι} {e : ChatEvent ι} (h : s ≠ e.actor)
    (trace : List (ChatEvent ι)) : spokenBy s (trace ++ [e]) = spokenBy s trace := by
  rw [spokenBy_concat]
  cases e with
  | start t => simp [ChatEvent.said]
  | readHeader t transferred error => simp [ChatEvent.said]
  | readBody t transferred error =>
    have hne : t ≠ s := Ne.symm h
    cases error with
    | true => simp [ChatEvent.said]
    | false => simp [ChatEvent.said, hne]
  | write t error => simp [ChatEvent.said]

theorem spokenBy_silent (s : ι) {e : ChatEvent ι} (h : e.said = none)
    (trace : List (ChatEvent ι)) : spokenBy s (trace ++ [e]) = spokenBy s trace := by
  rw [spokenBy_concat, h]
  simp

theorem spokenBy_eq_nil {s : ι} {trace : List (ChatEvent ι)} (h : ∀ e ∈ trace, e.actor ≠ s) :
    spokenBy s trace = [] := by
  induction trace using List.reverseRecOn with
  | nil => rfl
  | append_singleton trace e ih =>
    rw [spokenBy_other (Ne.symm (h e (by simp)))]
    exact ih fun x hx => h x (List.mem_append_left _ hx)

theorem length_posted (trace : List (ChatEvent ι)) :
    (posted trace).length = (spoken trace).length := by
  induction trace using List.reverseRecOn with
  | nil => rfl
  | append_singleton trace e ih =>
    rw [posted_concat, spoken_concat, List.length_append, List.length_append, ih]
    congr 1
    cases e with
    | readBody s transferred error => cases error <;> rfl
    | _ => rfl

theorem posted_isPrefix (before rest : List (ChatEvent ι)) :
    posted before <+: posted (before ++ rest) := by
  induction rest using List.reverseRecOn with
  | nil => simp
  | append_singleton rest e ih =>
    rw [← List.append_assoc, posted_concat]
    exact ih.trans (List.prefix_append _ _)

theorem Plain.of_append {before rest : List (ChatEvent ι)} (h : Plain (before ++ rest)) :
    Plain before := by
  obtain ⟨more, hmore⟩ := posted_isPrefix before rest
  unfold Plain at h
  rw [← hmore, spoken_append, List.map_append] at h
  apply List.append_inj_left h
  rw [length_posted, List.length_map]

/-- Where all is plain, a session is due the frames of what it is to hear. -/
theorem due_eq {s : ι} {before rest : List (ChatEvent ι)}
    (h : Plain (before ++ .start s :: rest)) :
    due s before rest = (heard s before rest).map fun p => frame p.2 := by
  have hbefore : Plain before := h.of_append
  have hrest : Plain (before ++ .start s :: rest.takeWhile fun e => !leaves s e) := by
    obtain ⟨more, hmore⟩ := List.takeWhile_prefix (l := rest) fun e => !leaves s e
    rw [← hmore, ← List.cons_append, ← List.append_assoc] at h
    exact h.of_append
  have hspoken : spoken (before ++ .start s :: rest.takeWhile fun e => !leaves s e) =
      spoken before ++ spoken (rest.takeWhile fun e => !leaves s e) := spoken_append _ _
  unfold Plain at hbefore hrest
  unfold due heard
  rw [hrest, hbefore, hspoken, List.map_append, List.map_append, map_rtake,
    List.drop_left' (by rw [List.length_map])]

end Spoken

section Speakers
variable {ι : Type} [DecidableEq ι] {peers : Peers ι} {trace : List (NetworkEvent ι)}
  {st : Network ι}

/-- Every session has read whole frames of what was typed at its client. -/
structure Speaks (peers : Peers ι) (trace : List (ChatEvent ι)) (st : Network ι) : Prop where
  fresh : ∀ s, .start s ∉ trace → (st.up s).received = []
  aligned : ∀ s, Aligned (st.room.sessions s).reader (st.up s).received (spokenBy s trace)
  typed : ∀ s, spokenBy s trace <+: typedBodies (peers.text s)
  plain : Plain trace

theorem speaks_init (peers : Peers ι) : Speaks peers [] (Network.init peers) where
  fresh := fun _ _ => rfl
  aligned := fun _ => trivial
  typed := fun _ => List.nil_prefix
  plain := rfl

theorem plain_concat {trace : List (ChatEvent ι)} (h : Plain trace) {e : ChatEvent ι}
    (hpost : (posts trace).post e = e.said.map fun p => frame p.2) : Plain (trace ++ [e]) := by
  unfold Plain
  rw [posted_concat, spoken_concat, List.map_append, h, hpost]
  cases e.said <;> rfl

/-- What has to be shown of an event of the room: all about its own session. -/
theorem Speaks.room {rt : List (ChatEvent ι)} (h : Speaks peers rt st) {e : ChatEvent ι}
    (hstarted : e = .start e.actor ∨ .start e.actor ∈ rt)
    (hreceived : (st.up e.actor).received ++ e.transferred =
      ((st.up e.actor).receive e.transferred.length).received)
    (hpost : (posts rt).post e = e.said.map fun p => frame p.2)
    (haligned : Aligned ((chatMachine.next st.room e).sessions e.actor).reader
      ((st.up e.actor).received ++ e.transferred) (spokenBy e.actor (rt ++ [e])))
    (htyped : spokenBy e.actor (rt ++ [e]) <+: typedBodies (peers.text e.actor)) :
    Speaks peers (rt ++ [e]) (networkMachine.next st (.room e)) := by
  have hup : ∀ s, s ≠ e.actor → (networkMachine.next st (.room e)).up s = st.up s :=
    fun s hs => Function.update_of_ne hs _ _
  have hself : (networkMachine.next st (.room e)).up e.actor =
      (st.up e.actor).receive e.transferred.length := Function.update_self _ _ _
  refine ⟨?_, ?_, ?_, plain_concat h.plain hpost⟩
  · intro s hs
    by_cases hactor : s = e.actor
    · subst hactor
      rcases hstarted with hstart | hstart
      · rw [← hstart] at hs
        exact absurd (List.mem_append_right _ (List.mem_singleton_self _)) hs
      · exact absurd (List.mem_append_left _ hstart) hs
    · rw [hup s hactor]
      exact h.fresh s fun hmem => hs (List.mem_append_left _ hmem)
  · intro s
    by_cases hactor : s = e.actor
    · subst hactor
      rw [hself, ← hreceived]
      exact haligned
    · have hreader : ((chatMachine.next st.room e).sessions s).reader =
          (st.room.sessions s).reader := reader_next_other (Ne.symm hactor)
      change Aligned ((chatMachine.next st.room e).sessions s).reader _ _
      rw [hup s hactor, hreader, spokenBy_other hactor]
      exact h.aligned s
  · intro s
    by_cases hactor : s = e.actor
    · subst hactor
      exact htyped
    · rw [spokenBy_other hactor]
      exact h.typed s

theorem speaks_next (hrun : networkMachine.Run (Network.init peers) trace st)
    (h : Speaks peers (roomTrace trace) st) {e : ChatEvent ι}
    (he : networkMachine.enabled st (.room e)) :
    Speaks peers (roomTrace trace ++ [e]) (networkMachine.next st (.room e)) := by
  obtain ⟨he, hpiece, -⟩ := he
  have hreads := readsOn_of_run (room_run hrun)
  have hreceived := (Pipe.received_receive hpiece).symm
  have hsent := (Pipe.append_isPrefix hpiece).trans (up_isPrefix hrun e.actor)
  have hstarted : e = .start e.actor ∨ .start e.actor ∈ roomTrace trace := by
    by_cases hmem : .start e.actor ∈ roomTrace trace
    · exact .inr hmem
    · exact .inl (eq_start_of_unstarted hreads.toInv he hmem)
  cases e with
  | start s =>
    have hno := not_mem_of_start hreads.toInv he
    have hreader : ((chatMachine.next st.room (.start s)).sessions s).reader.reading =
        some .header := by
      change ((st.room.start s).sessions s).reader.reading = _
      unfold ChatState.start ChatState.join
      simp only [ChatState.foldl_update_self, ChatState.sessions_update, if_pos]
    have hnil : spokenBy s (roomTrace trace) = [] := spokenBy_eq_nil (hreads.quiet s hno)
    refine h.room hstarted hreceived rfl ?_ ?_
    · rw [spokenBy_silent _ rfl, ChatEvent.actor, hnil, h.fresh s hno]
      unfold Aligned
      rw [hreader]
      rfl
    · rw [spokenBy_silent _ rfl]
      exact h.typed s
  | readHeader s piece error =>
    obtain ⟨hreading, -, hlen⟩ := he
    have hreader : ((chatMachine.next st.room (.readHeader s piece error)).sessions s).reader =
        ((st.room.sessions s).reader.handleReadHeader piece error).1 := by
      refine (reader_act st.room s s _).trans ?_
      rw [if_pos rfl]
    refine h.room hstarted hreceived rfl ?_ ?_
    · rw [spokenBy_silent _ rfl]
      cases error with
      | true =>
        apply Aligned.of_none
        exact congrArg Reader.reading hreader
      | false =>
        obtain ⟨msg, hread, -, haligned⟩ := (h.aligned s).readHeader hreading
          (fun b hb => length_typedBodies hb) (h.typed s) (hlen rfl) hsent
        change Aligned ((chatMachine.next st.room (.readHeader s piece false)).sessions s).reader
          _ _
        rw [hreader, hread]
        exact haligned
    · rw [spokenBy_silent _ rfl]
      exact h.typed s
  | readBody s piece error =>
    obtain ⟨hreading, -, hlen⟩ := he
    have hreader : ((chatMachine.next st.room (.readBody s piece error)).sessions s).reader =
        ((st.room.sessions s).reader.handleReadBody piece error).1 := by
      refine (reader_act st.room s s _).trans ?_
      rw [if_pos rfl]
    cases error with
    | true =>
      refine h.room hstarted hreceived rfl ?_ ?_
      · apply Aligned.of_none
        exact congrArg Reader.reading hreader
      · rw [spokenBy_silent _ rfl]
        exact h.typed s
    | false =>
      obtain ⟨msg, hread, -, hheader, hbegins, haligned⟩ := (h.aligned s).readBody hreading
        (fun b hb => length_typedBodies hb) (h.typed s) (hlen rfl) hsent
      have hspoken : spokenBy s (roomTrace trace ++ [.readBody s piece false]) =
          spokenBy s (roomTrace trace) ++ [piece] := by
        rw [spokenBy_concat]
        simp [ChatEvent.said]
      refine h.room hstarted hreceived ?_ ?_ ?_
      · have hposts := hreads.headers s hreading
        rw [hheader] at hposts
        change some ((posts (roomTrace trace)).headers s ++ piece) = some (frame piece)
        rw [← hposts]
        rfl
      · change Aligned ((chatMachine.next st.room (.readBody s piece false)).sessions s).reader
          _ (spokenBy s _)
        rw [hreader, hread, hspoken]
        exact haligned
      · change spokenBy s _ <+: _
        rw [hspoken]
        exact hbegins
  | write s error =>
    have hreader : ((chatMachine.next st.room (.write s error)).sessions s).reader =
        (st.room.sessions s).reader := reader_handleWrite st.room s s error
    refine h.room hstarted hreceived rfl ?_ ?_
    · rw [spokenBy_silent _ rfl]
      change Aligned ((chatMachine.next st.room (.write s error)).sessions s).reader
        ((st.up s).received ++ []) _
      rw [hreader, List.append_nil]
      exact h.aligned s
    · rw [spokenBy_silent _ rfl]
      exact h.typed s

theorem speaks_of_run (h : networkMachine.Run (Network.init peers) trace st) :
    Speaks peers (roomTrace trace) st := by
  refine h.invariant_along (I := fun trace st => Speaks peers (roomTrace trace) st)
    (speaks_init peers) ?_
  intro trace st e hrun hi he
  rw [roomTrace_concat]
  cases e with
  | room e => exact speaks_next hrun hi he
  | client t e =>
    rw [show (NetworkEvent.client t e).inRoom.toList = [] from rfl, List.append_nil]
    exact ⟨hi.fresh, hi.aligned, hi.typed, hi.plain⟩
  | sendUp t piece =>
    rw [show (NetworkEvent.sendUp t piece).inRoom.toList = [] from rfl, List.append_nil]
    have hsame : ∀ s, ((networkMachine.next st (.sendUp t piece)).up s).received =
        (st.up s).received := by
      intro s
      by_cases hs : s = t
      · subst hs
        simp [networkMachine]
      · simp [networkMachine, hs]
    refine ⟨fun s hs => (hsame s).trans (hi.fresh s hs), fun s => ?_, hi.typed, hi.plain⟩
    rw [hsame]
    exact hi.aligned s
  | sendDown t piece =>
    rw [show (NetworkEvent.sendDown t piece).inRoom.toList = [] from rfl, List.append_nil]
    exact ⟨hi.fresh, hi.aligned, hi.typed, hi.plain⟩

end Speakers

end AsioExamples.Chat
