import Mathlib.Data.List.Basic

/-!
# Tables that give out their lowest free number

What is opened gets the lowest number that is not in use, so a number that is closed is given out
again before any above it.
-/

namespace AsioExamples

set_option autoImplicit false

universe u

abbrev Descriptors (α : Type u) := List (Option α)

namespace Descriptors
variable {α : Type u}

def get (t : Descriptors α) (n : Nat) : Option α := (t[n]?).join

/-- The number that the next one gets. -/
def lowest : Descriptors α → Nat
  | [] => 0
  | none :: _ => 0
  | some _ :: t => lowest t + 1

def insert (x : α) : Descriptors α → Descriptors α
  | [] => [some x]
  | none :: t => some x :: t
  | some y :: t => some y :: insert x t

def remove (n : Nat) (t : Descriptors α) : Descriptors α := t.set n none

variable {t : Descriptors α} {x : α} {n m : Nat}

theorem get_insert_lowest (x : α) (t : Descriptors α) : (t.insert x).get t.lowest = some x := by
  induction t with
  | nil => rfl
  | cons y t ih =>
    cases y with
    | none => rfl
    | some y => exact ih

theorem get_insert_of_ne (h : n ≠ t.lowest) : (t.insert x).get n = t.get n := by
  induction t generalizing n with
  | nil =>
    cases n with
    | zero => exact absurd rfl h
    | succ n => rfl
  | cons y t ih =>
    cases n with
    | zero =>
      cases y with
      | none => exact absurd rfl h
      | some y => rfl
    | succ n =>
      cases y with
      | none => rfl
      | some y => exact ih fun hn => h (congrArg (· + 1) hn)

theorem get_lowest (t : Descriptors α) : t.get t.lowest = none := by
  induction t with
  | nil => rfl
  | cons y t ih =>
    cases y with
    | none => rfl
    | some y => exact ih

theorem isSome_of_lt_lowest (h : n < t.lowest) : (t.get n).isSome := by
  induction t generalizing n with
  | nil => exact absurd h (Nat.not_lt_zero n)
  | cons y t ih =>
    cases y with
    | none => exact absurd h (Nat.not_lt_zero n)
    | some y =>
      cases n with
      | zero => rfl
      | succ n => exact ih (Nat.lt_of_succ_lt_succ h)

theorem lowest_eq (hfree : t.get n = none) (hbelow : ∀ m < n, (t.get m).isSome) :
    t.lowest = n := by
  rcases Nat.lt_trichotomy t.lowest n with hlt | heq | hgt
  · have hsome := hbelow _ hlt
    rw [get_lowest] at hsome
    cases hsome
  · exact heq
  · have hsome := isSome_of_lt_lowest hgt
    rw [hfree] at hsome
    cases hsome

/-- What is in use stays when others are opened. -/
theorem get_insert_of_some {y : α} (h : t.get n = some y) : (t.insert x).get n = some y := by
  rw [get_insert_of_ne, h]
  rintro rfl
  rw [get_lowest] at h
  cases h

theorem get_remove_self (n : Nat) (t : Descriptors α) : (t.remove n).get n = none := by
  unfold get remove
  rw [List.getElem?_set]
  by_cases h : n < t.length
  · simp [h]
  · simp [h]

theorem get_remove_of_ne (h : n ≠ m) : (t.remove n).get m = t.get m := by
  unfold get remove
  rw [List.getElem?_set_ne h]

end Descriptors

end AsioExamples
