import Mathlib.Data.Nat.Init
import Mathlib.Order.Basic

/-!
# Unrolled loops

A step that may fail is repeated a number of times. A loop whose body holds `u` copies of the
step is entered in the middle of the body, so that what is left is a number of full rounds.
-/

namespace AsioExamples.Unrolled

set_option autoImplicit false

universe w

variable {σ : Type w} {step : σ → Option σ}

def repeated (step : σ → Option σ) : Nat → σ → Option σ
  | 0, s => some s
  | k + 1, s => (step s).bind (repeated step k)

@[simp] theorem repeated_zero (s : σ) : repeated step 0 s = some s := rfl

theorem repeated_succ (k : Nat) (s : σ) :
    repeated step (k + 1) s = (step s).bind (repeated step k) := rfl

theorem repeated_add (j k : Nat) (s : σ) :
    repeated step (j + k) s = (repeated step j s).bind (repeated step k) := by
  induction j generalizing s with
  | zero => rw [Nat.zero_add, repeated_zero, Option.bind_some]
  | succ j ih =>
    rw [Nat.add_right_comm, repeated_succ, repeated_succ, Option.bind_assoc]
    congr 1
    funext s'
    exact ih s'

/-- What every successful step keeps, every successful repetition keeps. -/
theorem repeated_invariant {P : σ → Prop} (hstep : ∀ s s', step s = some s' → P s → P s') {k : Nat}
    {s s' : σ} (h : repeated step k s = some s') (hs : P s) : P s' := by
  induction k generalizing s with
  | zero =>
    obtain rfl := Option.some.inj h
    exact hs
  | succ k ih =>
    obtain ⟨t, ht, hrest⟩ := Option.bind_eq_some_iff.mp h
    exact ih hrest (hstep s t ht hs)

/-- Along a numbered path that the step follows up to `limit`, the path says where a repetition
leads. -/
theorem repeated_path {path : Nat → σ} {limit : Nat}
    (hstep : ∀ i < limit, step (path i) = some (path (i + 1))) {i k : Nat} (h : i + k ≤ limit) :
    repeated step k (path i) = some (path (i + k)) := by
  induction k generalizing i with
  | zero => rfl
  | succ k ih =>
    rw [repeated_succ, hstep i (by omega), Option.bind_some, ih (by omega)]
    congr 2
    omega

section Counts
variable {u count : Nat}

/-- The copies of the step that the first, partial, round runs. -/
def entry (u count : Nat) : Nat := if count % u = 0 then u else count % u

def rounds (u count : Nat) : Nat := (count + (u - 1)) / u

theorem rounds_pos (hu : 0 < u) (hc : 0 < count) : 0 < rounds u count := by
  unfold rounds
  apply Nat.div_pos
  · omega
  · exact hu

/-- The first round and the full ones after it make up the count. -/
theorem entry_add_rounds (hu : 0 < u) (hc : 0 < count) :
    entry u count + u * (rounds u count - 1) = count := by
  have hdiv := Nat.div_add_mod count u
  have hmod := Nat.mod_lt count hu
  unfold entry rounds
  by_cases h : count % u = 0
  · have hpos : 0 < count / u := by
      apply Nat.div_pos _ hu
      exact Nat.le_of_dvd hc (Nat.dvd_of_mod_eq_zero h)
    have hr : (count + (u - 1)) / u = count / u := by
      apply Nat.div_eq_of_lt_le
      · rw [Nat.mul_comm]
        omega
      · rw [Nat.succ_mul, Nat.mul_comm]
        omega
    rw [if_pos h, hr]
    obtain ⟨q, hq⟩ : ∃ q, count / u = q + 1 := ⟨count / u - 1, by omega⟩
    rw [hq] at hdiv ⊢
    rw [Nat.mul_add] at hdiv
    rw [Nat.add_sub_cancel]
    omega
  · have hr : (count + (u - 1)) / u = count / u + 1 := by
      apply Nat.div_eq_of_lt_le
      · rw [Nat.add_mul, Nat.mul_comm]
        omega
      · rw [Nat.succ_mul, Nat.add_mul, Nat.mul_comm]
        omega
    rw [if_neg h, hr, Nat.add_sub_cancel]
    omega

end Counts

end AsioExamples.Unrolled
