import Mathlib.Data.List.Induction
import Mathlib.Logic.Function.Basic

/-!
# Machines that take events

A machine says which events may come in a state and what they do. A run is known by its
events, so what holds of a run may speak of its past: `Run.invariant` is the induction on
events with the past at hand.
-/

namespace AsioExamples

set_option autoImplicit false

universe u v

theorem concat_eq_append_cons {ε : Type u} {trace before rest : List ε} {e x : ε}
    (h : trace ++ [e] = before ++ x :: rest) :
    (rest = [] ∧ before = trace ∧ e = x) ∨
      ∃ rest', rest = rest' ++ [e] ∧ trace = before ++ x :: rest' := by
  rcases List.eq_nil_or_concat rest with rfl | ⟨rest', a, rfl⟩
  · obtain ⟨rfl, he⟩ := List.append_inj' h rfl
    exact .inl ⟨rfl, rfl, (List.cons.inj he).1⟩
  · rw [List.concat_eq_append] at h ⊢
    have h : trace ++ [e] = (before ++ x :: rest') ++ [a] := by simpa using h
    obtain ⟨rfl, he⟩ := List.append_inj' h rfl
    exact .inr ⟨rest', by rw [(List.cons.inj he).1], rfl⟩

theorem filterMap_concat {α : Type u} {β : Type v} (f : α → Option β) (l : List α) (a : α) :
    (l ++ [a]).filterMap f = l.filterMap f ++ (f a).toList := by
  rw [List.filterMap_append]
  cases h : f a <;> simp [h]

structure Machine (σ : Type u) (ε : Type v) where
  enabled : σ → ε → Prop
  next : σ → ε → σ

namespace Machine
variable {σ : Type u} {ε : Type v} (m : Machine σ ε)

/-- From `init`, the events of `trace`, in this order, lead to the state. -/
inductive Run (init : σ) : List ε → σ → Prop where
  | start : Run init [] init
  | step {trace : List ε} {s : σ} (run : Run init trace s) (e : ε) (h : m.enabled s e) :
      Run init (trace ++ [e]) (m.next s e)

variable {m}

/-- What holds at the start and is kept by every event, with its past, holds of every run. -/
theorem Run.invariant {init : σ} {I : List ε → σ → Prop} (hinit : I [] init)
    (hstep : ∀ trace s e, I trace s → m.enabled s e → I (trace ++ [e]) (m.next s e))
    {trace : List ε} {s : σ} (h : m.Run init trace s) : I trace s := by
  induction h with
  | start => exact hinit
  | step run e he ih => exact hstep _ _ e ih he

/-- The same where a step may use all that is known of runs. -/
theorem Run.invariant_along {init : σ} {I : List ε → σ → Prop} (hinit : I [] init)
    (hstep : ∀ trace s e, m.Run init trace s → I trace s → m.enabled s e →
      I (trace ++ [e]) (m.next s e))
    {trace : List ε} {s : σ} (h : m.Run init trace s) : I trace s := by
  induction h with
  | start => exact hinit
  | step run e he ih => exact hstep _ _ e run ih he

/-- Where the events of a kind lower a measure and the others do not raise it, a run has no more
of them than the measure was. -/
theorem Run.countP_add_le {init : σ} {I : σ → Prop} {μ : σ → Nat} {P : ε → Bool}
    (hinit : I init)
    (hstep : ∀ s e, I s → m.enabled s e → I (m.next s e) ∧ [e].countP P + μ (m.next s e) ≤ μ s)
    {trace : List ε} {s : σ} (h : m.Run init trace s) :
    I s ∧ trace.countP P + μ s ≤ μ init := by
  induction h with
  | start => exact ⟨hinit, by simp⟩
  | step run e he ih =>
    obtain ⟨hi, hcount⟩ := ih
    obtain ⟨hnext, hle⟩ := hstep _ e hi he
    refine ⟨hnext, ?_⟩
    rw [List.countP_append]
    omega

/-- A run of events that all lower a measure is no longer than the measure was. -/
theorem Run.length_add_le {init : σ} {I : σ → Prop} {μ : σ → Nat} (hinit : I init)
    (hstep : ∀ s e, I s → m.enabled s e → I (m.next s e) ∧ μ (m.next s e) < μ s)
    {trace : List ε} {s : σ} (h : m.Run init trace s) :
    I s ∧ trace.length + μ s ≤ μ init := by
  rw [← List.countP_true]
  refine h.countP_add_le hinit fun s e hi he => ?_
  obtain ⟨hnext, hlt⟩ := hstep s e hi he
  rw [List.countP_true, List.length_singleton]
  exact ⟨hnext, by omega⟩

theorem Run.eq_foldl {init : σ} {trace : List ε} {s : σ} (h : m.Run init trace s) :
    s = trace.foldl m.next init := by
  induction h with
  | start => rfl
  | step run e he ih =>
    rw [List.foldl_append, ← ih]
    rfl

theorem Run.of_append {init s : σ} {before rest : List ε} (h : m.Run init (before ++ rest) s) :
    m.Run (before.foldl m.next init) rest s := by
  induction rest using List.reverseRecOn generalizing s with
  | nil =>
    rw [List.append_nil] at h
    rw [← h.eq_foldl]
    exact .start
  | append_singleton rest e ih =>
    rw [← List.append_assoc] at h
    generalize htrace : before ++ rest ++ [e] = trace at h
    cases h with
    | start => simp at htrace
    | step run e' he =>
      obtain ⟨rfl, hlast⟩ := List.append_inj' htrace rfl
      cases hlast
      exact Run.step (ih run) e he

/-- What comes at some point of a run may come there. -/
theorem Run.at {init s : σ} {before rest : List ε} {e : ε}
    (h : m.Run init (before ++ e :: rest) s) :
    m.Run init before (before.foldl m.next init) ∧ m.enabled (before.foldl m.next init) e := by
  induction rest using List.reverseRecOn generalizing s with
  | nil =>
    generalize htrace : before ++ [e] = trace at h
    cases h with
    | start => simp at htrace
    | step run e' he =>
      obtain ⟨rfl, hlast⟩ := List.append_inj' htrace rfl
      cases hlast
      rw [← run.eq_foldl]
      exact ⟨run, he⟩
  | append_singleton rest x ih =>
    rw [← List.cons_append, ← List.append_assoc] at h
    generalize htrace : before ++ e :: rest ++ [x] = trace at h
    cases h with
    | start => simp at htrace
    | step run e' he =>
      obtain ⟨rfl, -⟩ := List.append_inj' htrace rfl
      exact ih run

theorem Run.after {init s : σ} {before rest : List ε} {e : ε}
    (h : m.Run init (before ++ e :: rest) s) :
    m.Run (m.next (before.foldl m.next init) e) rest s := by
  rw [← List.singleton_append, ← List.append_assoc] at h
  have hrest := h.of_append
  rw [List.foldl_append] at hrest
  exact hrest

theorem Run.cons {s : σ} {e : ε} (he : m.enabled s e) {trace : List ε} {s' : σ}
    (h : m.Run (m.next s e) trace s') : m.Run s (e :: trace) s' := by
  induction h with
  | start => exact Run.step .start e he
  | step run e' he' ih => exact Run.step ih e' he'

/-- A run of a system is a run of each of its components: what does not concern the component
leaves it alone, and everything else is an event that may come in it. -/
theorem Run.project {σ' : Type u} {ε' : Type v} {m' : Machine σ' ε'} {f : σ → σ'}
    {g : ε → Option ε'} {init : σ}
    (hnone : ∀ trace s e, m.Run init trace s → m.enabled s e → g e = none → f (m.next s e) = f s)
    (hsome : ∀ trace s e e', m.Run init trace s → m.enabled s e → g e = some e' →
      m'.enabled (f s) e' ∧ f (m.next s e) = m'.next (f s) e')
    {trace : List ε} {s : σ} (h : m.Run init trace s) :
    m'.Run (f init) (trace.filterMap g) (f s) := by
  induction h with
  | start => exact .start
  | step run e he ih =>
    rw [filterMap_concat]
    cases hg : g e with
    | none =>
      rw [hnone _ _ e run he hg, Option.toList_none, List.append_nil]
      exact ih
    | some e' =>
      obtain ⟨he', hnext⟩ := hsome _ _ e e' run he hg
      rw [hnext]
      exact ih.step e' he'

section Indexed
variable {κ : Type} [DecidableEq κ]

/-- One machine for each index, none of which knows of the others. -/
def indexed (κ : Type) [DecidableEq κ] (m : Machine σ ε) : Machine (κ → σ) (κ × ε) where
  enabled st e := m.enabled (st e.1) e.2
  next st e := Function.update st e.1 (m.next (st e.1) e.2)

instance [∀ s e, Decidable (m.enabled s e)] (st : κ → σ) (e : κ × ε) :
    Decidable ((indexed κ m).enabled st e) := inferInstanceAs (Decidable (m.enabled _ _))

/-- The events of one of the machines. -/
def eventsAt (k : κ) (trace : List (κ × ε)) : List ε :=
  trace.filterMap fun e => if e.1 = k then some e.2 else none

theorem Run.indexed_at {init st : κ → σ} {trace : List (κ × ε)}
    (h : (indexed κ m).Run init trace st) (k : κ) :
    m.Run (init k) (eventsAt k trace) (st k) := by
  apply h.project (f := fun st => st k)
  · intro trace st e _ _ hnone
    by_cases hk : e.1 = k
    · simp [hk] at hnone
    · exact Function.update_of_ne (Ne.symm hk) _ _
  · intro trace st e e' _ he hsome
    by_cases hk : e.1 = k
    · subst hk
      obtain rfl : e.2 = e' := by simpa using hsome
      exact ⟨he, Function.update_self _ _ _⟩
    · simp [hk] at hsome

end Indexed

variable (m)

def Admits (s : σ) : List ε → Prop
  | [] => True
  | e :: trace => m.enabled s e ∧ Admits (m.next s e) trace

instance decidableAdmits [∀ s e, Decidable (m.enabled s e)] :
    ∀ (s : σ) (trace : List ε), Decidable (m.Admits s trace)
  | _, [] => .isTrue trivial
  | s, e :: trace =>
    haveI := decidableAdmits (m.next s e) trace
    inferInstanceAs (Decidable (_ ∧ _))

variable {m}

theorem Admits.run {s : σ} {trace : List ε} (h : m.Admits s trace) :
    m.Run s trace (trace.foldl m.next s) := by
  induction trace generalizing s with
  | nil => exact .start
  | cons e trace ih => exact Run.cons h.1 (ih h.2)

/-- `P` holds of every event and the state it comes in. -/
def EachStep (m : Machine σ ε) (P : σ → ε → Prop) (s : σ) : List ε → Prop
  | [] => True
  | e :: trace => P s e ∧ EachStep m P (m.next s e) trace

instance decidableEachStep {P : σ → ε → Prop} [∀ s e, Decidable (P s e)] :
    ∀ (s : σ) (trace : List ε), Decidable (m.EachStep P s trace)
  | _, [] => .isTrue trivial
  | s, e :: trace =>
    haveI := decidableEachStep (P := P) (m.next s e) trace
    inferInstanceAs (Decidable (_ ∧ _))

theorem eachStep_concat {P : σ → ε → Prop} {s : σ} {trace : List ε} {e : ε} :
    m.EachStep P s (trace ++ [e]) ↔ m.EachStep P s trace ∧ P (trace.foldl m.next s) e := by
  induction trace generalizing s with
  | nil => simp [EachStep]
  | cons x trace ih => simp [EachStep, ih, and_assoc]

/-- Two conditions on steps that are the same in every state of a run. -/
theorem Run.eachStep_congr {init s : σ} {trace : List ε} {P Q : σ → ε → Prop}
    (h : m.Run init trace s)
    (hPQ : ∀ trace s e, m.Run init trace s → m.enabled s e → (P s e ↔ Q s e)) :
    m.EachStep P init trace ↔ m.EachStep Q init trace := by
  induction h with
  | start => exact Iff.rfl
  | step run e he ih =>
    rw [eachStep_concat, eachStep_concat, ih, ← run.eq_foldl, hPQ _ _ e run he]

end Machine

end AsioExamples
