import AsioExamples.Http.RequestHandler
import Mathlib.Data.List.Forall2

/-!
# Percent-encoding

`urlDecode` undoes every percent-encoding of a string. It also takes some that are none: the
two characters after a `%` are read as a stream would read a number, so a blank or a sign may
stand for the first of them and anything for the second.
-/

namespace AsioExamples.Http.RequestHandler

set_option autoImplicit false

inductive Spells : UInt8 → Bytes → Prop where
  | escape {c hi lo : UInt8} (hhi : hexDigit hi = some (c.toNat / 16))
      (hlo : hexDigit lo = some (c.toNat % 16)) : Spells c [chr '%', hi, lo]
  | plus : Spells (chr ' ') [chr '+']
  | self {c : UInt8} (hpercent : c ≠ chr '%') (hplus : c ≠ chr '+') : Spells c [c]

/-- `e` is an encoding of `s`: each byte is spelled in one of its ways. -/
def Encodes (s e : Bytes) : Prop := ∃ pieces, List.Forall₂ Spells s pieces ∧ pieces.flatten = e

section Extraction
variable {a b : UInt8} {x y : Nat}

theorem hexDigit_bounds (h : hexDigit a = some x) : 48 ≤ a.toNat ∧ x < 16 := by
  have hle : ∀ {c d : UInt8}, c ≤ d → c.toNat ≤ d.toNat := UInt8.le_iff_toNat_le.mp
  unfold hexDigit at h
  split at h
  · rename_i hd
    obtain rfl := Option.some.inj h
    have hlo : 48 ≤ a.toNat := hle hd.1
    have hhi : a.toNat ≤ 57 := hle hd.2
    omega
  · split at h
    · rename_i hd
      obtain rfl := Option.some.inj h
      have hlo : 97 ≤ a.toNat := hle hd.1
      have hhi : a.toNat ≤ 102 := hle hd.2
      omega
    · split at h
      · rename_i hd
        obtain rfl := Option.some.inj h
        have hlo : 65 ≤ a.toNat := hle hd.1
        have hhi : a.toNat ≤ 70 := hle hd.2
        omega
      · cases h

def isLead (c : UInt8) : Bool := isSpace c || c == chr '-' || c == chr '+'

def isHexDigit (c : UInt8) : Bool := (hexDigit c).isSome

theorem isLead_lt (h : isLead a = true) : a.toNat < 48 := by
  simp only [isLead, isSpace, Bool.or_eq_true, Bool.and_eq_true, beq_iff_eq, decide_eq_true_eq,
    UInt8.le_iff_toNat_le] at h
  rcases h with ((rfl | ⟨-, h⟩) | rfl) | rfl
  · decide
  · have h : a.toNat ≤ 13 := h
    omega
  · decide
  · decide

theorem not_isLead_of_hexDigit (h : hexDigit a = some x) : isLead a = false := by
  cases hl : isLead a with
  | false => rfl
  | true =>
    have := isLead_lt hl
    have := (hexDigit_bounds h).1
    omega

theorem not_hexDigit_of_isLead (h : isLead a = true) : hexDigit a = none := by
  cases hd : hexDigit a with
  | none => rfl
  | some x =>
    rw [not_isLead_of_hexDigit hd] at h
    cases h

theorem extractHex_space (h : isSpace a = true) (s : Bytes) :
    extractHex (a :: s) = extractHex s := by
  unfold extractHex
  rw [List.dropWhile_cons_of_pos h]

theorem extractHex_of_not_isLead (h : isLead a = false) (s : Bytes) :
    extractHex (a :: s) =
      let digits :=
        match s with
        | c :: t => if a = chr '0' ∧ (c = chr 'x' ∨ c = chr 'X') then hexDigits t
          else hexDigits (a :: s)
        | [] => hexDigits (a :: s)
      if digits = [] then none else some (digits.foldl (fun v d => v * 16 + (d : Int)) 0) := by
  simp only [isLead, Bool.or_eq_false_iff, beq_eq_false_iff_ne] at h
  obtain ⟨⟨hspace, hminus⟩, hplus⟩ := h
  unfold extractHex
  rw [List.dropWhile_cons_of_neg (by simp [hspace])]
  simp only [hminus, hplus, if_false, Bool.false_eq_true]
  cases s <;> rfl

theorem hexDigits_eq_nil_iff (s : Bytes) : hexDigits (a :: s) = [] ↔ isHexDigit a = false := by
  unfold hexDigits isHexDigit
  cases hexDigit a <;> simp

theorem extractHex_singleton : (extractHex [a]).isSome = isHexDigit a := by
  cases hl : isLead a with
  | true =>
    have hd : isHexDigit a = false := by rw [isHexDigit, not_hexDigit_of_isLead hl]; rfl
    simp only [isLead, Bool.or_eq_true, beq_iff_eq] at hl
    rw [hd]
    rcases hl with (hspace | rfl) | rfl
    · rw [extractHex_space hspace]
      rfl
    · rfl
    · rfl
  | false =>
    rw [extractHex_of_not_isLead hl]
    simp only [hexDigits_eq_nil_iff]
    cases isHexDigit a <;> rfl

theorem extractHex_sign (h : a = chr '-' ∨ a = chr '+') :
    (extractHex [a, b]).isSome = isHexDigit b := by
  have hfirst : ([a, b].dropWhile isSpace) = [a, b] := by
    rcases h with rfl | rfl <;> rfl
  unfold extractHex
  rw [hfirst]
  rcases h with rfl | rfl
  · simp only [if_true, hexDigits_eq_nil_iff]
    cases isHexDigit b <;> rfl
  · simp only [show ¬ chr '+' = chr '-' by decide, if_true, if_false, hexDigits_eq_nil_iff]
    cases isHexDigit b <;> rfl

theorem extractHex_of_hexDigits (ha : hexDigit a = some x) (hb : hexDigit b = some y) :
    extractHex [a, b] = some ((x : Int) * 16 + y) := by
  have hstart : ¬ (b = chr 'x' ∨ b = chr 'X') := by
    intro hx
    rcases hx with rfl | rfl
    · cases hb
    · cases hb
  rw [extractHex_of_not_isLead (not_isLead_of_hexDigit ha)]
  simp [hstart, hexDigits, ha, hb]

/-- The two characters hold a number that is not written in two hexadecimal digits. The prefix
of a hexadecimal number is none without a digit after it. -/
def tolerated (a b : UInt8) : Bool :=
  (isHexDigit a && !isHexDigit b && !(a == chr '0' && (b == chr 'x' || b == chr 'X'))) ||
    (isLead a && isHexDigit b)

theorem extractHex_isSome :
    (extractHex [a, b]).isSome = (isHexDigit a && isHexDigit b || tolerated a b) := by
  unfold tolerated
  cases hl : isLead a with
  | true =>
    have hd : isHexDigit a = false := by rw [isHexDigit, not_hexDigit_of_isLead hl]; rfl
    have heq : (extractHex [a, b]).isSome = isHexDigit b := by
      simp only [isLead, Bool.or_eq_true, beq_iff_eq] at hl
      rcases hl with (hspace | hminus) | hplus
      · rw [extractHex_space hspace, extractHex_singleton]
      · exact extractHex_sign (.inl hminus)
      · exact extractHex_sign (.inr hplus)
    rw [heq, hd]
    simp
  | false =>
    rw [extractHex_of_not_isLead hl]
    by_cases hstart : a = chr '0' ∧ (b = chr 'x' ∨ b = chr 'X')
    · obtain ⟨rfl, rfl | rfl⟩ := hstart
      · decide
      · decide
    · simp only [hstart, if_false, hexDigits_eq_nil_iff]
      have hno : (a == chr '0' && (b == chr 'x' || b == chr 'X')) = false := by
        simpa using hstart
      rw [hno]
      cases isHexDigit a <;> cases isHexDigit b <;> rfl

end Extraction

/-- The escapes that a scan from the left reaches, each by the two bytes after the `%`; `none`
for one that is cut short by the end. -/
def escapes : Bytes → List (Option (UInt8 × UInt8))
  | [] => []
  | c :: rest =>
    if c = chr '%' then
      match rest with
      | a :: b :: rest => some (a, b) :: escapes rest
      | _ => [none]
    else escapes rest

def IsStrict : Option (UInt8 × UInt8) → Prop
  | some (a, b) => isHexDigit a = true ∧ isHexDigit b = true
  | none => False

def IsTolerated : Option (UInt8 × UInt8) → Prop
  | some (a, b) => tolerated a b = true
  | none => False

/-- An escape that is cut short, or in which no number can be read. -/
def IsRefused (x : Option (UInt8 × UInt8)) : Prop := ¬ IsStrict x ∧ ¬ IsTolerated x

section Decoding

theorem toChar_hex (c : UInt8) :
    toChar (((c.toNat / 16 : Nat) : Int) * 16 + (c.toNat % 16 : Nat)) = c := by
  have hlt := c.toNat_lt
  have hvalue : (((c.toNat / 16 : Nat) : Int) * 16 + (c.toNat % 16 : Nat)) % 256 = c.toNat := by
    omega
  unfold toChar
  rw [hvalue, Int.toNat_natCast]
  exact UInt8.ofNat_toNat

theorem not_isTolerated_of_isStrict {x : Option (UInt8 × UInt8)} (h : IsStrict x) :
    ¬ IsTolerated x := by
  rcases x with _ | ⟨a, b⟩
  · exact h.elim
  · obtain ⟨ha, hb⟩ := h
    obtain ⟨n, hn⟩ := Option.isSome_iff_exists.mp ha
    simp [IsTolerated, tolerated, ha, hb, not_isLead_of_hexDigit hn]

theorem urlDecode_escape (a b : UInt8) (rest : Bytes) :
    urlDecode (chr '%' :: a :: b :: rest) =
      (extractHex [a, b]).bind fun value => (urlDecode rest).map (toChar value :: ·) := by
  rw [urlDecode, if_pos rfl]
  cases extractHex [a, b] <;> rfl

@[simp] theorem escapes_escape (a b : UInt8) (rest : Bytes) :
    escapes (chr '%' :: a :: b :: rest) = some (a, b) :: escapes rest := rfl

theorem escapes_short {rest : Bytes} (h : ∀ a b t, rest ≠ a :: b :: t) :
    escapes (chr '%' :: rest) = [none] := by
  match rest with
  | [] => rfl
  | [_] => rfl
  | a :: b :: t => exact absurd rfl (h a b t)

theorem escapes_other {c : UInt8} (h : c ≠ chr '%') (rest : Bytes) :
    escapes (c :: rest) = escapes rest := by
  rw [escapes.eq_def]
  simp only [h, if_false]

theorem urlDecode_short {rest : Bytes} (h : ∀ a b t, rest ≠ a :: b :: t) :
    urlDecode (chr '%' :: rest) = none := by
  match rest with
  | [] => rfl
  | [_] => rfl
  | a :: b :: t => exact absurd rfl (h a b t)

theorem urlDecode_other {c : UInt8} (h : c ≠ chr '%') (rest : Bytes) :
    urlDecode (c :: rest) =
      (urlDecode rest).map ((if c = chr '+' then chr ' ' else c) :: ·) := by
  rw [urlDecode.eq_def]
  simp only [h, if_false]
  split <;> rfl

theorem urlDecode_spells {c : UInt8} {piece : Bytes} (h : Spells c piece) (rest : Bytes) :
    urlDecode (piece ++ rest) = (urlDecode rest).map (c :: ·) := by
  cases h with
  | escape hhi hlo =>
    change urlDecode (chr '%' :: _ :: _ :: rest) = _
    rw [urlDecode_escape, extractHex_of_hexDigits hhi hlo, Option.bind_some, toChar_hex]
  | plus =>
    change urlDecode (chr '+' :: rest) = _
    rw [urlDecode_other (by decide), if_pos rfl]
  | self hpercent hplus =>
    change urlDecode (c :: rest) = _
    rw [urlDecode_other hpercent, if_neg hplus]

theorem urlDecode_flatten {s : Bytes} {pieces : List Bytes} (h : List.Forall₂ Spells s pieces) :
    urlDecode pieces.flatten = some s := by
  induction h with
  | nil => rfl
  | cons hc _ ih =>
    rw [List.flatten_cons, urlDecode_spells hc, ih]
    rfl

theorem isStrict_of_spells {s : Bytes} {pieces : List Bytes} (h : List.Forall₂ Spells s pieces) :
    ∀ x ∈ escapes pieces.flatten, IsStrict x := by
  induction h with
  | nil =>
    intro x hx
    cases hx
  | @cons c piece s pieces hc _ ih =>
    intro x hx
    rw [List.flatten_cons] at hx
    cases hc with
    | escape hhi hlo =>
      change x ∈ escapes (chr '%' :: _ :: _ :: pieces.flatten) at hx
      rw [escapes_escape] at hx
      rcases List.mem_cons.mp hx with rfl | hx
      · exact ⟨by rw [isHexDigit, hhi]; rfl, by rw [isHexDigit, hlo]; rfl⟩
      · exact ih x hx
    | plus =>
      change x ∈ escapes (chr '+' :: pieces.flatten) at hx
      rw [escapes_other (by decide)] at hx
      exact ih x hx
    | self hpercent _ =>
      change x ∈ escapes (c :: pieces.flatten) at hx
      rw [escapes_other hpercent] at hx
      exact ih x hx

theorem Encodes.cons {c : UInt8} {piece s e : Bytes} (hc : Spells c piece) (h : Encodes s e) :
    Encodes (c :: s) (piece ++ e) := by
  obtain ⟨pieces, hs, rfl⟩ := h
  exact ⟨piece :: pieces, .cons hc hs, rfl⟩

theorem exists_spells_escape {a b : UInt8} (ha : isHexDigit a = true) (hb : isHexDigit b = true) :
    ∃ c, Spells c [chr '%', a, b] := by
  obtain ⟨x, hx⟩ := Option.isSome_iff_exists.mp ha
  obtain ⟨y, hy⟩ := Option.isSome_iff_exists.mp hb
  have hxlt := (hexDigit_bounds hx).2
  have hylt := (hexDigit_bounds hy).2
  have hvalue : (UInt8.ofNat (x * 16 + y)).toNat = x * 16 + y := by
    rw [UInt8.toNat_ofNat']
    omega
  refine ⟨UInt8.ofNat (x * 16 + y), .escape ?_ ?_⟩
  · rw [hx, hvalue]
    congr 1
    omega
  · rw [hy, hvalue]
    congr 1
    omega

theorem exists_encodes {e : Bytes} (h : ∀ x ∈ escapes e, IsStrict x) : ∃ s, Encodes s e := by
  induction e using escapes.induct with
  | case1 => exact ⟨[], [], .nil, rfl⟩
  | case2 a b rest ih =>
    rw [escapes_escape] at h
    obtain ⟨⟨ha, hb⟩, hrest⟩ := List.forall_mem_cons.mp h
    obtain ⟨c, hc⟩ := exists_spells_escape ha hb
    obtain ⟨s, hs⟩ := ih hrest
    exact ⟨c :: s, hs.cons hc⟩
  | case3 rest hshort =>
    rw [escapes_short fun a b t he => hshort a b t he] at h
    exact (h none (List.mem_singleton.mpr rfl)).elim
  | case4 c rest hc ih =>
    rw [escapes_other hc] at h
    obtain ⟨s, hs⟩ := ih h
    by_cases hplus : c = chr '+'
    · subst c
      exact ⟨chr ' ' :: s, hs.cons .plus⟩
    · exact ⟨c :: s, hs.cons (.self hc hplus)⟩

/-- The encodings are the strings whose escapes are all of two digits. -/
theorem exists_encodes_iff (e : Bytes) : (∃ s, Encodes s e) ↔ ∀ x ∈ escapes e, IsStrict x := by
  constructor
  · rintro ⟨s, pieces, hs, rfl⟩
    exact isStrict_of_spells hs
  · exact exists_encodes

/-- The decoder gives up at an escape that is refused, and at no other. -/
theorem urlDecode_isSome_iff (e : Bytes) :
    (urlDecode e).isSome = true ↔ ∀ x ∈ escapes e, ¬ IsRefused x := by
  induction e using escapes.induct with
  | case1 => simp [urlDecode, escapes]
  | case2 a b rest ih =>
    rw [urlDecode_escape, escapes_escape, List.forall_mem_cons, ← ih]
    have htaken : ¬ IsRefused (some (a, b)) ↔ (extractHex [a, b]).isSome = true := by
      rw [extractHex_isSome, Bool.or_eq_true, Bool.and_eq_true, IsRefused, ← not_or, not_not]
      rfl
    rw [htaken]
    cases extractHex [a, b] with
    | none => simp
    | some value => simp
  | case3 rest hshort =>
    rw [urlDecode_short fun a b t he => hshort a b t he,
      escapes_short fun a b t he => hshort a b t he]
    constructor
    · intro h
      cases h
    · intro h
      exact absurd ⟨id, id⟩ (h none (List.mem_singleton.mpr rfl))
  | case4 c rest hc ih =>
    rw [urlDecode_other hc, escapes_other hc, Option.isSome_map]
    exact ih

/-- The decoder takes exactly the strings whose escapes are all of two hexadecimal digits, and
what it returns is the string that is encoded. -/
def DecodesExactly (e : Bytes) : Prop :=
  ((urlDecode e).isSome = true ↔ ∀ x ∈ escapes e, IsStrict x) ∧
    ∀ s, urlDecode e = some s → Encodes s e

/-- Every encoding is decoded to the string it was made from. -/
theorem urlDecode_encodes (s e : Bytes) (h : Encodes s e) : urlDecode e = some s := by
  obtain ⟨pieces, hs, rfl⟩ := h
  exact urlDecode_flatten hs

theorem urlDecode_encodes_mixed :
    urlDecode (str "%00%e5+%25%4a/") = some [0, 229, chr ' ', chr '%', chr 'J', chr '/'] := by
  apply urlDecode_encodes
  refine ⟨[str "%00", str "%e5", str "+", str "%25", str "%4a", str "/"], ?_, by decide⟩
  refine .cons (.escape rfl rfl) (.cons (.escape rfl rfl) (.cons .plus (.cons (.escape rfl rfl)
    (.cons (.escape rfl rfl) (.cons (.self ?_ ?_) .nil)))))
  · decide
  · decide

/-- The decoder is exact where no escape is tolerated, and where some escape is refused. -/
theorem decodesExactly_iff (e : Bytes) :
    DecodesExactly e ↔
      (∀ x ∈ escapes e, ¬ IsTolerated x) ∨ ∃ x ∈ escapes e, IsRefused x := by
  constructor
  · intro h
    by_contra hno
    obtain ⟨htolerated, hrefused⟩ := not_or.mp hno
    have hsome : (urlDecode e).isSome = true := by
      rw [urlDecode_isSome_iff]
      intro x hx hr
      exact hrefused ⟨x, hx, hr⟩
    apply htolerated
    intro x hx
    exact not_isTolerated_of_isStrict (h.1.mp hsome x hx)
  · intro h
    have hstrict : (urlDecode e).isSome = true → ∀ x ∈ escapes e, IsStrict x := by
      intro hsome x hx
      have hno := (urlDecode_isSome_iff e).mp hsome
      rcases h with htolerated | ⟨y, hy, hr⟩
      · by_contra hs
        exact hno x hx ⟨hs, htolerated x hx⟩
      · exact absurd hr (hno y hy)
    refine ⟨⟨hstrict, ?_⟩, ?_⟩
    · intro hall
      rw [urlDecode_isSome_iff]
      intro x hx hr
      exact hr.1 (hall x hx)
    · intro s hs
      obtain ⟨t, ht⟩ := (exists_encodes_iff e).mpr (hstrict (by rw [hs]; rfl))
      obtain ⟨pieces, hpieces, rfl⟩ := ht
      rw [urlDecode_flatten hpieces] at hs
      obtain rfl := Option.some.inj hs
      exact ⟨pieces, hpieces, rfl⟩

/-- `%4g` is taken for an escape of one digit. -/
theorem not_decodesExactly : ¬ ∀ e, DecodesExactly e := by
  intro h
  have hstrict := (h (str "%4g")).1.mp (by decide) (some (chr '4', chr 'g')) (by decide)
  exact absurd hstrict.2 (by decide)

end Decoding

end AsioExamples.Http.RequestHandler
