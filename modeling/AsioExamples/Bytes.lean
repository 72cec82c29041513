import AsioExamples.Theory.Decimal
import Mathlib.Data.List.TakeWhile

/-! Bytes, character literals and string literals of the C++ sources. -/

namespace AsioExamples

set_option autoImplicit false

/-- A `std::string`, or any other run of `char`s. -/
abbrev Bytes := List UInt8

def chr (c : Char) : UInt8 := c.toUInt8

/-- A string literal, without the NUL the compiler adds. -/
def str (s : String) : Bytes := s.toList.map chr

/-- A `char` promoted to `int`; `char` is signed, so bytes from 128 on are negative. -/
def toInt (c : UInt8) : Int := if c.toNat < 128 then c.toNat else (c.toNat : Int) - 256

/-- `std::isspace` in the "C" locale. -/
def isSpace (c : UInt8) : Bool := c == 32 || (9 ≤ c && c ≤ 13)

/-- A string as code that takes a `const char *` sees it: up to the first NUL. -/
def cStr (s : Bytes) : Bytes := s.takeWhile (· != 0)

theorem cStr_eq_self {s : Bytes} (h : 0 ∉ s) : cStr s = s := by
  unfold cStr
  rw [List.takeWhile_eq_self_iff]
  intro c hc
  have : c ≠ 0 := fun h0 => h (h0 ▸ hc)
  simpa using this

theorem toInt_of_lt {c : UInt8} (h : c.toNat < 128) : toInt c = c.toNat := by simp [toInt, h]

theorem toInt_of_ge {c : UInt8} (h : 128 ≤ c.toNat) : toInt c < 0 := by
  have := c.toNat_lt
  simp only [toInt, if_neg (Nat.not_lt.mpr h)]
  omega

section Digits
open Decimal

theorem decimal_cons (n : Nat) : ∃ c s, decimal n = c :: s ∧ isDecimalDigit c = true ∧
    (∀ d ∈ decimal n, isDecimalDigit d = true) := by
  obtain ⟨c, s, he⟩ := List.exists_cons_of_ne_nil (decimal_ne_nil n)
  have hdigit : ∀ d ∈ decimal n, isDecimalDigit d = true := fun d hd => isDecimalDigit_of_mem hd
  exact ⟨c, s, he, hdigit c (by simp [he]), hdigit⟩

theorem digit_facts {c : UInt8} (h : isDecimalDigit c = true) :
    isSpace c = false ∧ c ≠ chr '-' ∧ c ≠ chr '+' ∧ c ≠ 0 := by
  simp only [isDecimalDigit, Bool.and_eq_true, decide_eq_true_eq, UInt8.le_iff_toNat_le] at h
  have hne : ∀ d : UInt8, (d.toNat < 48 ∨ 57 < d.toNat) → c ≠ d := by
    rintro d hd rfl
    have hlo : 48 ≤ c.toNat := h.1
    have hhi : c.toNat ≤ 57 := h.2
    omega
  refine ⟨?_, hne _ (by decide), hne _ (by decide), hne _ (by decide)⟩
  have hlo : 48 ≤ c.toNat := h.1
  simp only [isSpace, Bool.or_eq_false_iff, Bool.and_eq_false_iff, beq_eq_false_iff_ne,
    decide_eq_false_iff_not, UInt8.le_iff_toNat_le]
  refine ⟨hne 32 (by decide), .inr ?_⟩
  change ¬ c.toNat ≤ 13
  omega

end Digits

/-- Write over a stretch of an array, not past its end. -/
def writeAt (data : Bytes) (offset : Nat) (bytes : Bytes) : Bytes :=
  data.take offset ++ bytes.take (data.length - offset) ++ data.drop (offset + bytes.length)

theorem length_writeAt {data bytes : Bytes} {offset : Nat} (h : offset ≤ data.length) :
    (writeAt data offset bytes).length = data.length := by
  simp only [writeAt, List.length_append, List.length_take, List.length_drop]
  omega

theorem take_writeAt {data bytes : Bytes} (h : bytes.length ≤ data.length) :
    (writeAt data 0 bytes).take bytes.length = bytes := by
  have hfits : bytes.take (data.length - 0) = bytes := List.take_of_length_le h
  unfold writeAt
  rw [hfits]
  exact List.take_left

/-- A `boost::array<char, 8192>` that reads put characters into. -/
structure Buffer where
  data : Bytes
  length_data : data.length = 8192
deriving DecidableEq

namespace Buffer

def zero : Buffer := ⟨List.replicate 8192 0, List.length_replicate⟩

def store (b : Buffer) (transferred : Bytes) : Buffer :=
  ⟨writeAt b.data 0 transferred, by rw [length_writeAt (Nat.zero_le _), b.length_data]⟩

@[simp] theorem store_nil (b : Buffer) : b.store [] = b := by
  simp [store, writeAt]

theorem take_store (b : Buffer) {transferred : Bytes} (h : transferred.length ≤ 8192) :
    (b.store transferred).data.take transferred.length = transferred := by
  apply take_writeAt
  rw [b.length_data]
  exact h

end Buffer

end AsioExamples
