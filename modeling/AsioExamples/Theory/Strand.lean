import AsioExamples.Theory.Machine

/-!
# Handlers on a strand

The threads of a pool run handlers action by action, and their actions interleave. A strand lets
one handler in at a time, in the order in which the handlers became ready. The same handlers run
one after the other by nobody in particular are `serialMachine`, and to it the threads come down:
a run of the strand is one of it, and where it can go on so can the strand.
-/

namespace AsioExamples

set_option autoImplicit false

/-- What an action does. `starts` are the operations that it begins and `cancels` those that it
ends, each named by its handler. The handler goes on at `next`, or returns. -/
structure Effect (σ κ η : Type) where
  shared : σ
  starts : List η
  cancels : List η
  next : Option κ

/-- Handlers that share a state and look at a world that goes on by itself. -/
structure Handlers (σ κ η ω : Type) where
  entry : η → κ
  act : ω → κ → σ → Effect σ κ η
  /-- The operation may complete. -/
  due : ω → σ → η → Prop
  later : ω → ω → Prop

/-- What the handlers and the world have come to, whoever runs the handlers. -/
structure Loop (σ η ω : Type) where
  world : ω
  shared : σ
  started : List η
  ready : List η

inductive LoopEvent (η ω : Type) where
  | pass (w : ω)
  | complete (e : η)
  | enter
  | act
deriving DecidableEq

namespace LoopEvent
variable {η ω : Type}

def isPass : LoopEvent η ω → Bool
  | .pass _ => true
  | _ => false

end LoopEvent

/-- The strand is locked while a handler is inside. -/
structure Strand (σ κ η ω : Type) where
  loop : Loop σ η ω
  locked : Bool
  inside : Nat → Option κ

section Inside
variable {σ κ η ω : Type}

def Strand.init (l : Loop σ η ω) : Strand σ κ η ω := ⟨l, false, fun _ => none⟩

/-- The strand with the handler that is inside, if one is. -/
inductive Strand.Shows (st : Strand σ κ η ω) : Option κ → Prop where
  | nobody (hlocked : st.locked = false) (hinside : ∀ t, st.inside t = none) : Shows st none
  | one (t : Nat) (k : κ) (hlocked : st.locked = true) (hinside : st.inside t = some k)
      (hothers : ∀ t', t' ≠ t → st.inside t' = none) : Shows st (some k)

variable {st : Strand σ κ η ω} {inside : Option κ}

/-- A thread that is inside is the one that is shown. -/
theorem Strand.Shows.of_inside (hshows : st.Shows inside) {t : Nat} {k : κ}
    (hk : st.inside t = some k) :
    inside = some k ∧ st.locked = true ∧ ∀ t', t' ≠ t → st.inside t' = none := by
  cases hshows with
  | nobody hlocked hinside =>
    rw [hinside t] at hk
    cases hk
  | one t' k' hlocked hinside hothers =>
    by_cases ht : t = t'
    · subst ht
      exact ⟨hinside.symm.trans hk, hlocked, hothers⟩
    · rw [hothers t ht] at hk
      cases hk

theorem Strand.Shows.of_unlocked (hshows : st.Shows inside) (hlocked : st.locked = false) :
    inside = none ∧ ∀ t, st.inside t = none := by
  cases hshows with
  | nobody _ hinside => exact ⟨rfl, hinside⟩
  | one t k hl _ _ =>
    rw [hlocked] at hl
    cases hl

theorem Strand.Shows.update {l : Loop σ η ω} {t : Nat} {k : Option κ}
    (hothers : ∀ t', t' ≠ t → st.inside t' = none) :
    Strand.Shows ⟨l, k.isSome, Function.update st.inside t k⟩ k := by
  have hfree : ∀ t', t' ≠ t → Function.update st.inside t k t' = none := by
    intro t' ht
    rw [Function.update_of_ne ht]
    exact hothers t' ht
  cases k with
  | none =>
    refine .nobody rfl fun t' => ?_
    by_cases ht : t' = t
    · subst ht
      exact Function.update_self ..
    · exact hfree t' ht
  | some k => exact .one t k rfl (Function.update_self ..) hfree

end Inside

section Machines
variable {σ κ η ω : Type} [DecidableEq η] (h : Handlers σ κ η ω)

/-- An operation that is cancelled completes at once, unless it has. -/
def Loop.perform (l : Loop σ η ω) (f : Effect σ κ η) : Loop σ η ω where
  world := l.world
  shared := f.shared
  started := l.started.filter (· ∉ f.cancels) ++ f.starts
  ready := l.ready ++ l.started.filter (· ∈ f.cancels)

def Loop.complete (l : Loop σ η ω) (e : η) : Loop σ η ω :=
  { l with started := l.started.erase e, ready := l.ready ++ [e] }

theorem Loop.perform_eq {l : Loop σ η ω} {f : Effect σ κ η} (hf : ∀ e ∈ f.cancels, e ∉ l.started) :
    l.perform f = ⟨l.world, f.shared, l.started ++ f.starts, l.ready⟩ := by
  have hkept : l.started.filter (· ∉ f.cancels) = l.started := by
    rw [List.filter_eq_self]
    intro e he
    exact decide_eq_true fun hc => hf e hc he
  have hnone : l.started.filter (· ∈ f.cancels) = [] := by
    rw [List.filter_eq_nil_iff]
    intro e he hc
    exact hf e (of_decide_eq_true hc) he
  rw [Loop.perform, hkept, hnone, List.append_nil]

/-- One handler after the other. -/
def Handlers.serialMachine : Machine (Loop σ η ω × Option κ) (LoopEvent η ω) where
  enabled st
    | .pass w => h.later st.1.world w
    | .complete e => e ∈ st.1.started ∧ h.due st.1.world st.1.shared e
    | .enter => st.2 = none ∧ st.1.ready ≠ []
    | .act => st.2.isSome
  next st
    | .pass w => ({ st.1 with world := w }, st.2)
    | .complete e => (st.1.complete e, st.2)
    | .enter => ({ st.1 with ready := st.1.ready.tail }, st.1.ready.head?.map h.entry)
    | .act =>
      match st.2 with
      | none => st
      | some k =>
        let f := h.act st.1.world k st.1.shared
        (st.1.perform f, f.next)

inductive StrandEvent (η ω : Type) where
  | pass (w : ω)
  | complete (e : η)
  | enter (thread : Nat)
  | act (thread : Nat)
deriving DecidableEq

def Handlers.strandMachine (threads : Nat) : Machine (Strand σ κ η ω) (StrandEvent η ω) where
  enabled st
    | .pass w => h.later st.loop.world w
    | .complete e => e ∈ st.loop.started ∧ h.due st.loop.world st.loop.shared e
    | .enter t => t < threads ∧ st.inside t = none ∧ st.locked = false ∧ st.loop.ready ≠ []
    | .act t => t < threads ∧ (st.inside t).isSome
  next st
    | .pass w => { st with loop := { st.loop with world := w } }
    | .complete e => { st with loop := st.loop.complete e }
    | .enter t =>
      { loop := { st.loop with ready := st.loop.ready.tail }
        locked := true
        inside := Function.update st.inside t (st.loop.ready.head?.map h.entry) }
    | .act t =>
      match st.inside t with
      | none => st
      | some k =>
        let f := h.act st.loop.world k st.loop.shared
        { loop := st.loop.perform f
          locked := f.next.isSome
          inside := Function.update st.inside t f.next }

instance [∀ w s e, Decidable (h.due w s e)] [∀ w w', Decidable (h.later w w')] (threads : Nat) :
    ∀ st e, Decidable ((h.strandMachine threads).enabled st e)
  | _, .pass _ => inferInstanceAs (Decidable (h.later _ _))
  | _, .complete _ => inferInstanceAs (Decidable (_ ∧ h.due _ _ _))
  | _, .enter _ => inferInstanceAs (Decidable (_ ∧ _ ∧ _ ∧ _ ≠ []))
  | _, .act _ => inferInstanceAs (Decidable (_ ∧ _))

/-- Which thread it was is forgotten. -/
def StrandEvent.forget : StrandEvent η ω → LoopEvent η ω
  | .pass w => .pass w
  | .complete e => .complete e
  | .enter _ => .enter
  | .act _ => .act

variable {h} {threads : Nat} {st : Strand σ κ η ω} {inside : Option κ}

/-- What a thread does, the one handler inside does. -/
theorem shows_next (hshows : st.Shows inside) {e : StrandEvent η ω}
    (he : (h.strandMachine threads).enabled st e) :
    h.serialMachine.enabled (st.loop, inside) e.forget ∧
      ∃ inside', ((h.strandMachine threads).next st e).Shows inside' ∧
        h.serialMachine.next (st.loop, inside) e.forget =
          (((h.strandMachine threads).next st e).loop, inside') := by
  cases e with
  | pass w =>
    refine ⟨he, inside, ?_, rfl⟩
    cases hshows with
    | nobody hlocked hinside => exact .nobody hlocked hinside
    | one t k hlocked hinside hothers => exact .one t k hlocked hinside hothers
  | complete e =>
    refine ⟨he, inside, ?_, rfl⟩
    cases hshows with
    | nobody hlocked hinside => exact .nobody hlocked hinside
    | one t k hlocked hinside hothers => exact .one t k hlocked hinside hothers
  | enter t =>
    obtain ⟨-, -, hlocked, hready⟩ := he
    obtain ⟨hnone, hfree⟩ := hshows.of_unlocked hlocked
    obtain ⟨e, rest, hcons⟩ := List.exists_cons_of_ne_nil hready
    have hshows' := Strand.Shows.update (l := { st.loop with ready := st.loop.ready.tail })
      (k := some (h.entry e)) (t := t) fun t' _ => hfree t'
    refine ⟨⟨hnone, hready⟩, some (h.entry e), ?_, ?_⟩
    · simpa [Handlers.strandMachine, hcons] using hshows'
    · simp [Handlers.serialMachine, Handlers.strandMachine, StrandEvent.forget, hcons]
  | act t =>
    obtain ⟨k, hk⟩ := Option.isSome_iff_exists.mp he.2
    obtain ⟨hinside, -, hothers⟩ := hshows.of_inside hk
    have hshows' := Strand.Shows.update
      (l := st.loop.perform (h.act st.loop.world k st.loop.shared))
      (k := (h.act st.loop.world k st.loop.shared).next) hothers
    subst hinside
    refine ⟨rfl, (h.act st.loop.world k st.loop.shared).next, ?_, ?_⟩
    · simpa [Handlers.strandMachine, hk] using hshows'
    · simp [Handlers.serialMachine, Handlers.strandMachine, StrandEvent.forget, hk]

/-- Whatever the threads do, a run of the strand is one of its handlers, one after the other. -/
theorem Strand.serial {l : Loop σ η ω} {trace : List (StrandEvent η ω)}
    (hrun : (h.strandMachine threads).Run (.init l) trace st) :
    ∃ inside, st.Shows inside ∧
      h.serialMachine.Run (l, none) (trace.map StrandEvent.forget) (st.loop, inside) := by
  refine hrun.invariant (I := fun trace st => ∃ inside, st.Shows inside ∧
    h.serialMachine.Run (l, none) (trace.map StrandEvent.forget) (st.loop, inside))
    ⟨none, .nobody rfl fun _ => rfl, .start⟩ ?_
  rintro trace st e ⟨inside, hshows, hserial⟩ he
  obtain ⟨henabled, inside', hshows', hnext⟩ := shows_next hshows he
  refine ⟨inside', hshows', ?_⟩
  rw [List.map_append, ← hnext]
  exact hserial.step _ henabled

/-- No two threads are inside. -/
theorem Strand.exclusive {l : Loop σ η ω} {trace : List (StrandEvent η ω)}
    (hrun : (h.strandMachine threads).Run (.init l) trace st) {t t' : Nat}
    (ht : (st.inside t).isSome) (ht' : (st.inside t').isSome) : t = t' := by
  obtain ⟨inside, hshows, -⟩ := Strand.serial hrun
  obtain ⟨k, hk⟩ := Option.isSome_iff_exists.mp ht
  obtain ⟨k', hk'⟩ := Option.isSome_iff_exists.mp ht'
  obtain ⟨-, -, hothers⟩ := hshows.of_inside hk
  by_contra hne
  rw [hothers t' (Ne.symm hne)] at hk'
  cases hk'

/-- Only a thread of the pool is ever inside. -/
theorem Strand.inside_lt {l : Loop σ η ω} {trace : List (StrandEvent η ω)}
    (hrun : (h.strandMachine threads).Run (.init l) trace st) {t : Nat}
    (ht : (st.inside t).isSome) : t < threads := by
  refine hrun.invariant (I := fun _ st => ∀ t, (st.inside t).isSome → t < threads)
    (fun _ ht => by cases ht) ?_ t ht
  intro _ st e hi he t ht
  cases e with
  | pass w => exact hi t ht
  | complete e => exact hi t ht
  | enter t' =>
    by_cases hne : t = t'
    · exact hne ▸ he.1
    · apply hi t
      have hsame : ((h.strandMachine threads).next st (.enter t')).inside t = st.inside t :=
        Function.update_of_ne hne ..
      rwa [hsame] at ht
  | act t' =>
    by_cases hne : t = t'
    · exact hne ▸ he.1
    · obtain ⟨k, hk⟩ := Option.isSome_iff_exists.mp he.2
      apply hi t
      have hsame : ((h.strandMachine threads).next st (.act t')).inside t = st.inside t := by
        simp [Handlers.strandMachine, hk, Function.update_of_ne hne]
      rwa [hsame] at ht

/-- Where the handlers can go on, a thread of the pool can. -/
theorem Strand.goes_on {l : Loop σ η ω} {trace : List (StrandEvent η ω)} (hthreads : 0 < threads)
    (hrun : (h.strandMachine threads).Run (.init l) trace st) (hshows : st.Shows inside)
    {e : LoopEvent η ω} (he : h.serialMachine.enabled (st.loop, inside) e) :
    ∃ e', e'.forget = e ∧ (h.strandMachine threads).enabled st e' := by
  cases e with
  | pass w => exact ⟨.pass w, rfl, he⟩
  | complete e => exact ⟨.complete e, rfl, he⟩
  | enter =>
    obtain ⟨hnone, hready⟩ := he
    cases hshows with
    | nobody hlocked hinside => exact ⟨.enter 0, rfl, hthreads, hinside 0, hlocked, hready⟩
    | one => cases hnone
  | act =>
    cases hshows with
    | nobody => cases he
    | one t k _ hinside _ =>
      have hsome : (st.inside t).isSome := by
        rw [hinside]
        rfl
      exact ⟨.act t, rfl, Strand.inside_lt hrun hsome, hsome⟩

end Machines

end AsioExamples
