import AsioExamples.Bytes

/-! The character classes of the request parsers. The three parsers declare the same four
static functions; they take an `int`, to which the `char` is promoted at the call. -/

namespace AsioExamples.Http

set_option autoImplicit false

def isChar (c : Int) : Bool := 0 ≤ c && c ≤ 127

def isCtl (c : Int) : Bool := (0 ≤ c && c ≤ 31) || c == 127

def tspecials : List Char :=
  ['(', ')', '<', '>', '@', ',', ';', ':', '\\', '"', '/', '[', ']', '?', '=', '\x7b', '\x7d',
    ' ', '\t']

def isTspecial (c : Int) : Bool := tspecials.any fun t => c == (t.toNat : Int)

def isDigit (c : Int) : Bool := ('0'.toNat : Int) ≤ c && c ≤ ('9'.toNat : Int)

/-- A byte of a token: the test made on method names and header names. -/
def isToken (c : UInt8) : Bool := isChar (toInt c) && !isCtl (toInt c) && !isTspecial (toInt c)

def isBlank (c : UInt8) : Bool := c == chr ' ' || c == chr '\t'

theorem isChar_iff (c : UInt8) : isChar (toInt c) = true ↔ c.toNat < 128 := by
  by_cases h : c.toNat < 128
  · simp only [isChar, toInt_of_lt h, Bool.and_eq_true, decide_eq_true_eq]
    omega
  · have := toInt_of_ge (Nat.le_of_not_lt h)
    simp only [isChar, Bool.and_eq_true, decide_eq_true_eq]
    omega

theorem isCtl_iff (c : UInt8) : isCtl (toInt c) = true ↔ c.toNat ≤ 31 ∨ c.toNat = 127 := by
  by_cases h : c.toNat < 128
  · simp only [isCtl, toInt_of_lt h, Bool.or_eq_true, Bool.and_eq_true, decide_eq_true_eq,
      beq_iff_eq]
    omega
  · have := toInt_of_ge (Nat.le_of_not_lt h)
    simp only [isCtl, Bool.or_eq_true, Bool.and_eq_true, decide_eq_true_eq, beq_iff_eq]
    omega

theorem not_token_eq (c : UInt8) :
    (!isChar (toInt c) || isCtl (toInt c) || isTspecial (toInt c)) = !isToken c := by
  simp [isToken, Bool.not_and]

end AsioExamples.Http
