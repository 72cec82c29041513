import Mathlib.Algebra.Group.Nat.Defs
import Mathlib.Data.List.Basic
import Mathlib.Data.List.Induction

/-!
# Decimal numerals

`decimal n` is the numeral of `n` in ASCII, without leading zeros, and `valueOf` reads a run
of digits. Printing and reading undo each other.
-/

namespace AsioExamples.Decimal

set_option autoImplicit false

def decimal (n : Nat) : List UInt8 := (Nat.toDigits 10 n).map Char.toUInt8

def isDecimalDigit (c : UInt8) : Bool := 48 ≤ c && c ≤ 57

def valueOf (w : List UInt8) : Nat := w.foldl (fun v c => 10 * v + (c.toNat - 48)) 0

theorem decimal_ne_nil (n : Nat) : decimal n ≠ [] := by
  intro h
  exact Nat.toDigits_ne_nil (List.map_eq_nil_iff.mp h)

theorem toNat_toUInt8_of_isDigit {c : Char} (h : c.isDigit = true) :
    c.toUInt8.toNat = c.toNat ∧ 48 ≤ c.toNat ∧ c.toNat ≤ 57 := by
  simp only [Char.isDigit, Bool.and_eq_true, decide_eq_true_eq] at h
  have hlo : 48 ≤ c.toNat := h.1
  have hhi : c.toNat ≤ 57 := h.2
  refine ⟨?_, hlo, hhi⟩
  change c.toNat % 256 = c.toNat
  omega

theorem isDecimalDigit_of_mem {n : Nat} {c : UInt8} (h : c ∈ decimal n) :
    isDecimalDigit c = true := by
  obtain ⟨d, hd, rfl⟩ := List.mem_map.mp h
  obtain ⟨he, hlo, hhi⟩ :=
    toNat_toUInt8_of_isDigit (Nat.isDigit_of_mem_toDigits (by decide) (by decide) hd)
  simp only [isDecimalDigit, Bool.and_eq_true, decide_eq_true_eq, UInt8.le_iff_toNat_le, he]
  exact ⟨hlo, hhi⟩

theorem valueOf_decimal (n : Nat) : valueOf (decimal n) = n := by
  have hfold : ∀ (l : List Char) (v : Nat), (∀ c ∈ l, c.isDigit = true) →
      (l.map Char.toUInt8).foldl (fun v c => 10 * v + (c.toNat - 48)) v =
        Nat.ofDigitChars 10 l v := by
    intro l
    induction l with
    | nil => exact fun _ _ => rfl
    | cons c l ih =>
      intro v hl
      obtain ⟨hc, hl⟩ := List.forall_mem_cons.mp hl
      rw [List.map_cons, List.foldl_cons, ih _ hl, Nat.ofDigitChars_cons,
        (toNat_toUInt8_of_isDigit hc).1]
      rfl
  unfold valueOf decimal
  rw [hfold _ 0 fun c hc => Nat.isDigit_of_mem_toDigits (by decide) (by decide) hc]
  exact Nat.ofDigitChars_ten_toDigits

theorem length_decimal_le {n k : Nat} (hk : 0 < k) (h : n < 10 ^ k) : (decimal n).length ≤ k := by
  rw [decimal, List.length_map]
  exact (Nat.length_toDigits_le_iff (by decide) hk).mpr h

theorem valueOf_lt {ds : List UInt8} (h : ∀ c ∈ ds, isDecimalDigit c = true) :
    valueOf ds < 10 ^ ds.length := by
  induction ds using List.reverseRecOn with
  | nil => exact Nat.one_pos
  | append_singleton ds c ih =>
    have hds := ih fun d hd => h d (List.mem_append_left _ hd)
    have hc := h c (List.mem_append_right _ (List.mem_singleton_self c))
    simp only [isDecimalDigit, Bool.and_eq_true, decide_eq_true_eq, UInt8.le_iff_toNat_le] at hc
    have hhi : c.toNat ≤ 57 := hc.2
    have hvalue : valueOf (ds ++ [c]) = 10 * valueOf ds + (c.toNat - 48) := by
      unfold valueOf
      rw [List.foldl_append]
      rfl
    rw [hvalue, List.length_append, List.length_singleton, Nat.pow_succ]
    omega

end AsioExamples.Decimal
