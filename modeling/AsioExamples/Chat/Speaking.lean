import AsioExamples.Chat.Delivery

/-!
# Who speaks in a chat room

A session that leaves on a failed read reads no more. One that leaves on a failed write has its
read outstanding still, and what it reads is posted.
-/

namespace AsioExamples.Chat

set_option autoImplicit false

section Readers
variable {ι : Type} [DecidableEq ι] (st : ChatState ι) {s t : ι}

theorem reader_update {f : Session → Session} (hf : ∀ x, (f x).reader = x.reader) (s t : ι) :
    ((st.update s f).sessions t).reader = (st.sessions t).reader := by
  rw [ChatState.sessions_update]
  split
  · exact hf _
  · rfl

/-- A handler of a read changes the reader of its own session alone. -/
theorem reader_act (s t : ι) (a : Reader × Action) :
    ((st.act s a).sessions t).reader = if t = s then a.1 else (st.sessions t).reader := by
  have hset : ((st.setReader s a.1).sessions t).reader =
      if t = s then a.1 else (st.sessions t).reader := by
    rw [ChatState.sessions_setReader]
    split <;> rfl
  obtain ⟨r, a⟩ := a
  cases a with
  | proceed => exact hset
  | accept msg => exact (reader_chatDeliver _ msg t).trans hset
  | stop => exact hset

theorem reader_start_other (h : t ≠ s) :
    ((st.start s).sessions t).reader = (st.sessions t).reader := by
  unfold ChatState.start ChatState.join
  simp only [ChatState.foldl_update_self, ChatState.sessions_update, if_neg h]

theorem reader_handleWrite (s t : ι) (error : Bool) :
    ((st.handleWrite s error).sessions t).reader = (st.sessions t).reader := by
  cases error with
  | false => exact reader_update st reader_handleWritten s t
  | true =>
    exact reader_update st (f := fun x => { x with writing := x.writing - 1 }) (fun _ => rfl) s t

variable {st}

theorem reader_next_other {e : ChatEvent ι} (h : e.actor ≠ t) :
    ((chatMachine.next st e).sessions t).reader = (st.sessions t).reader := by
  cases e with
  | start s => exact reader_start_other st (Ne.symm h)
  | readHeader s transferred error => exact (reader_act st s t _).trans (if_neg (Ne.symm h))
  | readBody s transferred error => exact (reader_act st s t _).trans (if_neg (Ne.symm h))
  | write s error => exact reader_handleWrite st s t error

/-- A session that leaves, other than by a failed write, reads no more. -/
theorem reading_next_of_leaves {e : ChatEvent ι} (he : chatMachine.enabled st e)
    (hleaves : leaves s e = true) (hwrite : e ≠ .write s true) :
    ((chatMachine.next st e).sessions s).reader.reading = none := by
  cases e with
  | start t => cases hleaves
  | readHeader t transferred error =>
    simp only [leaves, Bool.and_eq_true, beq_iff_eq] at hleaves
    obtain ⟨rfl, hbad⟩ := hleaves
    have hreader := reader_act st t t ((st.sessions t).reader.handleReadHeader transferred error)
    rw [if_pos rfl] at hreader
    change ((st.act t _).sessions t).reader.reading = none
    rw [hreader]
    rcases (st.sessions t).reader.handleReadHeader_cases error he.2.2 with
      ⟨rfl, hle, -⟩ | ⟨-, msg, hread⟩
    · simp only [Bool.false_or, decide_eq_true_eq] at hbad
      exact absurd hle (Nat.not_le.mpr hbad)
    · rw [hread]
  | readBody t transferred error =>
    simp only [leaves, Bool.and_eq_true, beq_iff_eq] at hleaves
    obtain ⟨rfl, rfl⟩ := hleaves
    have hreader := reader_act st t t ((st.sessions t).reader.handleReadBody transferred true)
    rw [if_pos rfl] at hreader
    exact congrArg Reader.reading hreader
  | write t error =>
    simp only [leaves, Bool.and_eq_true, beq_iff_eq] at hleaves
    obtain ⟨rfl, rfl⟩ := hleaves
    exact absurd rfl hwrite

theorem reading_of_next {e : ChatEvent ι} (he : chatMachine.enabled st e) (hstart : e ≠ .start s)
    (h : ((chatMachine.next st e).sessions s).reader.reading ≠ none) :
    (st.sessions s).reader.reading ≠ none := by
  by_cases hactor : e.actor = s
  · subst hactor
    cases e with
    | start t => exact absurd rfl hstart
    | readHeader t transferred error =>
      have hreading : (st.sessions t).reader.reading = some .header := he.1
      exact fun hnone => by cases hreading.symm.trans hnone
    | readBody t transferred error =>
      have hreading : (st.sessions t).reader.reading = some .body := he.1
      exact fun hnone => by cases hreading.symm.trans hnone
    | write t error =>
      have hreader := reader_handleWrite st t t error
      exact fun hnone => h ((congrArg Reader.reading hreader).trans hnone)
  · rw [reader_next_other hactor] at h
    exact h

end Readers

section Runs
variable {ι : Type} [DecidableEq ι] {fills : ι → Fill} {trace : List (ChatEvent ι)}
  {st : ChatState ι}

/-- Nothing happens to a session before it starts, and while one reads, only a failed write can
have made it leave. -/
structure ReadsOn (fills : ι → Fill) (trace : List (ChatEvent ι)) (st : ChatState ι) : Prop
    extends Inv fills trace st where
  quiet : ∀ s, .start s ∉ trace → ∀ e ∈ trace, e.actor ≠ s
  stays : ∀ s, (st.sessions s).reader.reading ≠ none →
    ∀ e ∈ trace, leaves s e = true → e = .write s true

theorem actor_of_leaves {s : ι} {e : ChatEvent ι} (h : leaves s e = true) : e.actor = s := by
  cases e with
  | start t => cases h
  | readHeader t transferred error =>
    simp only [leaves, Bool.and_eq_true, beq_iff_eq] at h
    exact h.1
  | readBody t transferred error =>
    simp only [leaves, Bool.and_eq_true, beq_iff_eq] at h
    exact h.1
  | write t error =>
    simp only [leaves, Bool.and_eq_true, beq_iff_eq] at h
    exact h.1

theorem readsOn_init : ReadsOn fills [] (ChatState.init fills) where
  toInv := inv_init
  quiet := fun _ _ _ he => absurd he List.not_mem_nil
  stays := fun _ _ _ he => absurd he List.not_mem_nil

theorem readsOn_next (h : ReadsOn fills trace st) {e : ChatEvent ι}
    (he : chatMachine.enabled st e) : ReadsOn fills (trace ++ [e]) (chatMachine.next st e) := by
  refine ⟨inv_next h.toInv he, ?_, ?_⟩
  · intro s hs x hx
    obtain ⟨hs, hse⟩ := not_or.mp (fun hm => hs (List.mem_append.mpr hm))
    rcases List.mem_append.mp hx with hx | hx
    · exact h.quiet s hs x hx
    · rw [List.mem_singleton.mp hx]
      rintro rfl
      exact hse (List.mem_singleton.mpr (eq_start_of_unstarted h.toInv he hs).symm)
  · intro s hreading x hx hleaves
    rcases List.mem_append.mp hx with hpast | hnow
    · by_cases hstart : e = .start s
      · subst hstart
        have hquiet := h.quiet s (not_mem_of_start h.toInv he) x hpast
        exact absurd (actor_of_leaves hleaves) hquiet
      · exact h.stays s (reading_of_next he hstart hreading) x hpast hleaves
    · rw [List.mem_singleton.mp hnow] at hleaves ⊢
      by_contra hwrite
      exact hreading (reading_next_of_leaves he hleaves hwrite)

theorem readsOn_of_run (h : chatMachine.Run (ChatState.init fills) trace st) :
    ReadsOn fills trace st :=
  h.invariant readsOn_init fun _ _ _ hi he => readsOn_next hi he

/-- A session that posts is in the room unless one of its writes has failed. -/
theorem mem_participants_iff (h : chatMachine.Run (ChatState.init fills) trace st) {s : ι}
    (hreading : (st.sessions s).reader.reading ≠ none) :
    s ∈ st.room.participants ↔ ChatEvent.write s true ∉ trace := by
  have hreads := readsOn_of_run h
  have hstart : .start s ∈ trace := by
    by_contra hno
    apply hreading
    rw [(hreads.unstarted s hno).1]
    rfl
  obtain ⟨before, rest, hcut⟩ := List.append_of_mem hstart
  rw [hreads.participants s before rest hcut]
  constructor
  · intro hstayed hmem
    rw [hcut] at hmem
    rcases List.mem_append.mp hmem with hmem | hmem
    · -- Before it started nothing happened to it.
      obtain ⟨hrun, he⟩ := (hcut ▸ h).at
      have hbefore := readsOn_of_run hrun
      exact hbefore.quiet s (not_mem_of_start hbefore.toInv he) _ hmem rfl
    · rcases List.mem_cons.mp hmem with heq | hmem
      · cases heq
      · have hno := hstayed _ hmem
        simp [leaves] at hno
  · intro hno e he
    by_contra hleaves
    have hmem : e ∈ trace := by
      rw [hcut]
      exact List.mem_append_right _ (List.mem_cons_of_mem _ he)
    have hwrite := hreads.stays s hreading e hmem (by simpa using hleaves)
    exact hno (hwrite ▸ hmem)

/-- In every run of a room: all who post are in it at that moment exactly if none of them has
had a write fail before. -/
theorem speakers_are_present_iff (fills : ι → Fill)
    (h : chatMachine.Run (ChatState.init fills) trace st) :
    (∀ before s transferred rest, trace = before ++ .readBody s transferred false :: rest →
      s ∈ (before.foldl chatMachine.next (ChatState.init fills)).room.participants) ↔
    ∀ before s transferred rest, trace = before ++ .readBody s transferred false :: rest →
      ChatEvent.write s true ∉ before := by
  have hiff : ∀ before s transferred rest,
      trace = before ++ .readBody s transferred false :: rest →
      (s ∈ (before.foldl chatMachine.next (ChatState.init fills)).room.participants ↔
        ChatEvent.write s true ∉ before) := by
    intro before s transferred rest hcut
    obtain ⟨hrun, he⟩ := (hcut ▸ h).at
    apply mem_participants_iff hrun
    rw [he.1]
    exact Option.some_ne_none _
  constructor
  · intro hpresent before s transferred rest hcut
    exact (hiff before s transferred rest hcut).mp (hpresent before s transferred rest hcut)
  · intro hno before s transferred rest hcut
    exact (hiff before s transferred rest hcut).mpr (hno before s transferred rest hcut)

theorem speakers_are_present_iff_two :
    let trace : List (ChatEvent Nat) := [.start 0, .start 1, .readHeader 0 (str "   1") false,
      .readBody 0 (str "a") false, .write 1 true, .readHeader 0 (str "   1") false,
      .readBody 0 (str "b") false]
    (∀ before s transferred rest, trace = before ++ .readBody s transferred false :: rest →
      s ∈ (before.foldl chatMachine.next (ChatState.init fun _ => Fill.zero)).room.participants) ↔
    ∀ before s transferred rest, trace = before ++ .readBody s transferred false :: rest →
      ChatEvent.write s true ∉ before := by
  intro trace
  have hadmits : chatMachine.Admits (ChatState.init fun _ => Fill.zero) trace := by decide +kernel
  exact speakers_are_present_iff (fun _ => Fill.zero) hadmits.run

/-- The write of its own message fails; the session leaves, reads on and posts. -/
theorem absent_speaker :
    let before : List (ChatEvent Nat) := [.start 0, .readHeader 0 (str "   1") false,
      .readBody 0 (str "a") false, .readHeader 0 (str "   1") false, .write 0 true]
    (∃ st, chatMachine.Run (ChatState.init fun _ => Fill.zero)
        (before ++ [.readBody 0 (str "b") false]) st) ∧
      0 ∉ (before.foldl chatMachine.next
        (ChatState.init fun _ => Fill.zero)).room.participants := by
  intro before
  have hadmits : chatMachine.Admits (ChatState.init fun _ => Fill.zero)
      (before ++ [.readBody 0 (str "b") false]) := by decide +kernel
  exact ⟨⟨_, hadmits.run⟩, by decide +kernel⟩

end Runs

end AsioExamples.Chat
