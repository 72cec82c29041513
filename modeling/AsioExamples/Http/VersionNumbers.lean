import AsioExamples.Http.HeadReader
import AsioExamples.Theory.Decimal
import Mathlib.Data.List.Induction

/-!
# Version numbers in a reader of heads

The two numbers after `HTTP/` are gathered digit by digit in an `int`. No digit overflows it
exactly if the numbers themselves leave room for a character above them.
-/

namespace AsioExamples.Http

set_option autoImplicit false

open Recogniser Decimal

def FitsInt (v : Int) : Prop := -2147483648 ≤ v ∧ v ≤ 2147483647

/-- The steps of `version * 10 + c - '0'` all stay in the range of `int`. -/
def Evaluates (v : Int32) (c : UInt8) : Prop :=
  FitsInt (v.toInt * 10) ∧ FitsInt (v.toInt * 10 + toInt c) ∧
    FitsInt (v.toInt * 10 + toInt c - 48)

/-- The largest number that is gathered in range: the last character, up to 9, is added before
'0' is taken off. -/
def versionLimit : Nat := 2147483599

section Arithmetic
variable {v : Int32} {c : UInt8} {ds : Bytes}

theorem isDigit_iff : isDigit (toInt c) = true ↔ 48 ≤ c.toNat ∧ c.toNat ≤ 57 := by
  have hlo : (('0'.toNat : Int)) = 48 := rfl
  have hhi : (('9'.toNat : Int)) = 57 := rfl
  by_cases h : c.toNat < 128
  · simp only [isDigit, toInt_of_lt h, Bool.and_eq_true, decide_eq_true_eq, hlo, hhi]
    omega
  · have := toInt_of_ge (Nat.le_of_not_lt h)
    simp only [isDigit, Bool.and_eq_true, decide_eq_true_eq, hlo, hhi]
    omega

theorem toInt_of_isDigit (h : isDigit (toInt c) = true) : toInt c = c.toNat :=
  toInt_of_lt (by have := isDigit_iff.mp h; omega)

@[simp] theorem valueOf_concat (ds : Bytes) (c : UInt8) :
    valueOf (ds ++ [c]) = 10 * valueOf ds + (c.toNat - 48) := by
  simp [valueOf, List.foldl_append]

theorem evaluates_iff (hv : v.toInt = valueOf ds) (hc : isDigit (toInt c) = true) :
    Evaluates v c ↔ valueOf (ds ++ [c]) ≤ versionLimit := by
  obtain ⟨hlo, hhi⟩ := isDigit_iff.mp hc
  unfold Evaluates FitsInt versionLimit
  rw [hv, toInt_of_isDigit hc, valueOf_concat]
  omega

/-- In range the wrapping arithmetic is that of the integers. -/
theorem toInt_digitInto (hv : v.toInt = valueOf ds) (hc : isDigit (toInt c) = true)
    (h : Evaluates v c) : (Request.digitInto v c).toInt = valueOf (ds ++ [c]) := by
  obtain ⟨⟨h₁, h₁'⟩, ⟨h₂, h₂'⟩, h₃, h₃'⟩ := h
  obtain ⟨hlo, hhi⟩ := isDigit_iff.mp hc
  have hten : (10 : Int32).toInt = 10 := rfl
  have hzero : (48 : Int32).toInt = 48 := rfl
  have hchar : (Int32.ofInt (toInt c)).toInt = toInt c := by
    rw [toInt_of_isDigit hc]
    apply Int32.toInt_ofInt_of_le
    · omega
    · omega
  unfold Request.digitInto
  rw [Int32.toInt_sub, Int32.toInt_add, Int32.toInt_mul, hten, hzero, hchar,
    Int.bmod_eq_of_le (n := v.toInt * 10) (by omega) (by omega),
    Int.bmod_eq_of_le (n := v.toInt * 10 + toInt c) (by omega) (by omega),
    Int.bmod_eq_of_le (by omega) (by omega), hv, toInt_of_isDigit hc, valueOf_concat]
  omega

theorem valueOf_le_concat (ds : Bytes) (c : UInt8) : valueOf ds ≤ valueOf (ds ++ [c]) := by
  rw [valueOf_concat]
  omega

theorem version_concat (ds : Bytes) (c : UInt8) :
    RequestHead.version (ds ++ [c]) = Request.digitInto (RequestHead.version ds) c := by
  simp [RequestHead.version, List.foldl_append]

theorem toInt_version (hds : ∀ c ∈ ds, isDigit (toInt c) = true)
    (h : valueOf ds ≤ versionLimit) : (RequestHead.version ds).toInt = valueOf ds := by
  induction ds using List.reverseRecOn with
  | nil => rfl
  | append_singleton ds c ih =>
    obtain ⟨hds, hc⟩ := List.forall_mem_append.mp hds
    have hc := hc c (List.mem_singleton.mpr rfl)
    have hv := ih hds (Nat.le_trans (valueOf_le_concat ds c) h)
    rw [version_concat]
    exact toInt_digitInto hv hc ((evaluates_iff hv hc).mpr h)

theorem valueOf_le_of_evaluates {p : Bytes → Prop} (hp : ∀ ds c, p (ds ++ [c]) → p ds)
    (h : ∀ ds c, p (ds ++ [c]) → (∀ c ∈ ds, isDigit (toInt c) = true) →
      isDigit (toInt c) = true → Evaluates (RequestHead.version ds) c)
    (hds : ∀ c ∈ ds, isDigit (toInt c) = true) (hpd : p ds) : valueOf ds ≤ versionLimit := by
  induction ds using List.reverseRecOn with
  | nil => exact Nat.zero_le _
  | append_singleton ds c ih =>
    obtain ⟨hds, hc⟩ := List.forall_mem_append.mp hds
    have hc := hc c (List.mem_singleton.mpr rfl)
    have hv := toInt_version hds (ih hds (hp ds c hpd))
    exact (evaluates_iff hv hc).mp (h ds c hpd hds hc)

end Arithmetic

def Stage.versionField : Stage → Option (Request → Option Int32)
  | .majorStart | .major => some Request.httpVersionMajor
  | .minorStart | .minor => some Request.httpVersionMinor
  | _ => none

/-- A digit that goes into `field` is gathered in range. -/
def InRange (field : Option (Request → Option Int32)) (r : Request) (c : UInt8) : Prop :=
  isDigit (toInt c) = true → ∀ f ∈ field, ∃ v, f r = some v ∧ Evaluates v c

theorem inRange_none (r : Request) (c : UInt8) : InRange none r c := by
  intro _ f hf
  cases hf

section Grammar
variable (d : Dialect)

def Digits (ds : Bytes) : Prop := ∀ c ∈ ds, isDigit (toInt c) = true

/-- A method, a uri and the bytes `u` after them. -/
def AfterUri (u w : Bytes) : Prop :=
  ∃ method uri, method ≠ [] ∧ (∀ c ∈ method, isToken c = true) ∧
    (d.emptyUri = false → uri ≠ []) ∧ (∀ c ∈ uri, isUriByte c = true) ∧
    w = method ++ chr ' ' :: (uri ++ chr ' ' :: u)

/-- The part of a head before its version numbers. -/
def Opening (w : Bytes) : Prop := AfterUri d (str "HTTP/") w

/-- The digits of a version received so far are a number up to the limit. -/
structure VersionsFit (w : Bytes) : Prop where
  major : ∀ o ds, Opening d o → Digits ds → o ++ ds <+: w → valueOf ds ≤ versionLimit
  minor : ∀ o ds ds', Opening d o → ds ≠ [] → Digits ds → Digits ds' →
    o ++ (ds ++ chr '.' :: ds') <+: w → valueOf ds' ≤ versionLimit

variable {d} {u w : Bytes}

theorem AfterUri.concat (h : AfterUri d u w) (c : UInt8) : AfterUri d (u ++ [c]) (w ++ [c]) := by
  obtain ⟨method, uri, hne, hm, hu, hub, rfl⟩ := h
  exact ⟨method, uri, hne, hm, hu, hub, by simp⟩

theorem Digits.concat {ds : Bytes} {c : UInt8} (h : Digits ds) (hc : isDigit (toInt c) = true) :
    Digits (ds ++ [c]) := by
  unfold Digits
  rw [List.forall_mem_append, List.forall_mem_singleton]
  exact ⟨h, hc⟩

theorem opening_of_head (m : RequestHead) (hm : m.WellFormed d) :
    ∃ o t, Opening d o ∧ m.bytes = o ++ (m.major ++ chr '.' :: (m.minor ++ t)) := by
  refine ⟨m.method ++ chr ' ' :: (m.uri ++ chr ' ' :: str "HTTP/"),
    crlf ++ (m.lines.flatMap Line.bytes ++ crlf), ?_, by simp [RequestHead.bytes]⟩
  exact ⟨m.method, m.uri, hm.method_ne, hm.method_token, hm.uri_ne, hm.uri_byte, rfl⟩

theorem VersionsFit.of_head (h : VersionsFit d w) {m : RequestHead} (hm : m.WellFormed d)
    (hw : m.bytes <+: w) : valueOf m.major ≤ versionLimit ∧ valueOf m.minor ≤ versionLimit := by
  obtain ⟨o, t, ho, hbytes⟩ := opening_of_head m hm
  constructor
  · apply h.major o m.major ho hm.major_digit
    refine List.IsPrefix.trans ?_ hw
    rw [hbytes, ← List.append_assoc]
    exact List.prefix_append _ _
  · apply h.minor o m.major m.minor ho hm.major_ne hm.major_digit hm.minor_digit
    refine List.IsPrefix.trans ?_ hw
    refine ⟨t, ?_⟩
    rw [hbytes]
    simp

end Grammar

section Reader
variable {d : Dialect}

/-- The major digits `ds` have been read, and the minor number is not begun. -/
def InMajor (d : Dialect) (u : Bytes) (r : Request) (ds : Bytes) : Prop :=
  ∃ o, Opening d o ∧ Digits ds ∧ u = o ++ ds ∧
    r.httpVersionMajor = some (RequestHead.version ds) ∧ r.httpVersionMinor = some 0

/-- The minor digits `ds'` have been read. -/
def InMinor (d : Dialect) (u : Bytes) (r : Request) (ds' : Bytes) : Prop :=
  ∃ o ds, Opening d o ∧ ds ≠ [] ∧ Digits ds ∧ Digits ds' ∧ u = o ++ (ds ++ chr '.' :: ds') ∧
    r.httpVersionMinor = some (RequestHead.version ds')

/-- What has been read of the input at each stage up to the versions. -/
def Position (d : Dialect) (u : Bytes) (q : Stage × Request) : Prop :=
  match q.1 with
  | .methodStart => u = [] ∧ q.2.uri = []
  | .method => u ≠ [] ∧ (∀ c ∈ u, isToken c = true) ∧ q.2.uri = []
  | .uri => ∃ method, method ≠ [] ∧ (∀ c ∈ method, isToken c = true) ∧
      (∀ c ∈ q.2.uri, isUriByte c = true) ∧ u = method ++ chr ' ' :: q.2.uri
  | .h => AfterUri d [] u
  | .t1 => AfterUri d (str "H") u
  | .t2 => AfterUri d (str "HT") u
  | .p => AfterUri d (str "HTT") u
  | .slash => AfterUri d (str "HTTP") u
  | .majorStart => InMajor d u q.2 []
  | .major => ∃ ds, ds ≠ [] ∧ InMajor d u q.2 ds
  | .minorStart => InMinor d u q.2 []
  | .minor => ∃ ds', InMinor d u q.2 ds'
  | _ => True

section Branches
variable {p p' : Prop} [Decidable p] [Decidable p'] {a b x t : Stage × Request}

theorem of_test (h : (if p then (Tribool.indeterminate, a) else (.no, x)) = (.indeterminate, t)) :
    p ∧ t = a := by
  split at h
  · exact ⟨‹_›, (Prod.mk.inj h).2.symm⟩
  · cases h

/-- A loop is left, or goes round once more. -/
theorem of_loop (h : (if p then (Tribool.indeterminate, a) else
      if p' then (.indeterminate, b) else (.no, x)) = (.indeterminate, t)) :
    p ∧ t = a ∨ p' ∧ t = b := by
  split at h
  · exact .inl ⟨‹_›, (Prod.mk.inj h).2.symm⟩
  · exact .inr (of_test h)

end Branches

theorem InMajor.push {u ds : Bytes} {r : Request} {c : UInt8} (h : InMajor d u r ds)
    (hc : isDigit (toInt c) = true) : InMajor d (u ++ [c]) (r.pushMajor c) (ds ++ [c]) := by
  obtain ⟨o, ho, hds, rfl, hmajor, hminor⟩ := h
  refine ⟨o, ho, hds.concat hc, List.append_assoc .., ?_, hminor⟩
  simp [Request.pushMajor, hmajor, version_concat]

theorem InMinor.push {u ds : Bytes} {r : Request} {c : UInt8} (h : InMinor d u r ds)
    (hc : isDigit (toInt c) = true) : InMinor d (u ++ [c]) (r.pushMinor c) (ds ++ [c]) := by
  obtain ⟨o, ds₁, ho, hne, hds₁, hds, rfl, hminor⟩ := h
  refine ⟨o, ds₁, ho, hne, hds₁, hds.concat hc, by simp, ?_⟩
  simp [Request.pushMinor, hminor, version_concat]

theorem InMajor.inRange {u v ds : Bytes} {r : Request} {c : UInt8} (h : InMajor d u r ds)
    (hfit : VersionsFit d (u ++ c :: v)) (hc : isDigit (toInt c) = true) :
    ∃ x, r.httpVersionMajor = some x ∧ Evaluates x c := by
  obtain ⟨o, ho, hds, rfl, hmajor, -⟩ := h
  have hle := hfit.major o (ds ++ [c]) ho (hds.concat hc) ⟨v, by simp⟩
  have hv := toInt_version hds (Nat.le_trans (valueOf_le_concat ds c) hle)
  exact ⟨_, hmajor, (evaluates_iff hv hc).mpr hle⟩

theorem InMinor.inRange {u v ds : Bytes} {r : Request} {c : UInt8} (h : InMinor d u r ds)
    (hfit : VersionsFit d (u ++ c :: v)) (hc : isDigit (toInt c) = true) :
    ∃ x, r.httpVersionMinor = some x ∧ Evaluates x c := by
  obtain ⟨o, ds₁, ho, hne, hds₁, hds, rfl, hminor⟩ := h
  have hle := hfit.minor o ds₁ (ds ++ [c]) ho hne hds₁ (hds.concat hc) ⟨v, by simp⟩
  have hv := toInt_version hds (Nat.le_trans (valueOf_le_concat ds c) hle)
  exact ⟨_, hminor, (evaluates_iff hv hc).mpr hle⟩

theorem position_method {u : Bytes} {r : Request} {c : UInt8} {t : Stage × Request}
    (h : Position d u (.method, r)) (hc : advance d (.method, r) c = (.indeterminate, t)) :
    Position d (u ++ [c]) t := by
  obtain ⟨hne, htoken, huri⟩ := h
  have huri : r.uri = [] := huri
  rcases of_loop hc with ⟨rfl, rfl⟩ | ⟨hmore, rfl⟩
  · refine ⟨u, hne, htoken, ?_, ?_⟩ <;> simp [huri]
  · refine ⟨by simp, ?_, huri⟩
    rw [List.forall_mem_append, List.forall_mem_singleton]
    exact ⟨htoken, hmore⟩

theorem position_uri {u : Bytes} {r : Request} {c : UInt8} {t : Stage × Request}
    (h : Position d u (.uri, r)) (hc : advance d (.uri, r) c = (.indeterminate, t)) :
    Position d (u ++ [c]) t := by
  obtain ⟨method, hne, htoken, hbytes, rfl⟩ := h
  by_cases hblank : c = chr ' '
  · subst c
    simp only [advance, if_true] at hc
    obtain ⟨hempty, rfl⟩ := of_test hc
    refine ⟨method, r.uri, hne, htoken, ?_, hbytes, by simp⟩
    intro hd
    simpa [hd] using hempty
  · simp only [advance, if_neg hblank] at hc
    obtain ⟨hbyte, rfl⟩ := of_test hc
    refine ⟨method, hne, htoken, ?_, by simp [Request.pushUri]⟩
    unfold Request.pushUri
    rw [List.forall_mem_append, List.forall_mem_singleton]
    exact ⟨hbytes, hbyte⟩

theorem advance_position {u : Bytes} {q t : Stage × Request} {c : UInt8} (h : Position d u q)
    (hc : advance d q c = (.indeterminate, t)) : Position d (u ++ [c]) t := by
  obtain ⟨s, r⟩ := q
  cases s with
  | methodStart =>
    obtain ⟨rfl, huri⟩ := h
    obtain ⟨htoken, rfl⟩ := of_test hc
    exact ⟨by simp, by simpa, huri⟩
  | method => exact position_method h hc
  | uri => exact position_uri h hc
  | h | t1 | t2 | p =>
    obtain ⟨rfl, rfl⟩ := of_test hc
    exact AfterUri.concat h _
  | slash =>
    obtain ⟨rfl, rfl⟩ := of_test hc
    have ho : Opening d (u ++ [chr '/']) := AfterUri.concat h _
    exact ⟨_, ho, by simp [Digits], (List.append_nil _).symm, rfl, rfl⟩
  | majorStart =>
    obtain ⟨hdigit, rfl⟩ := of_test hc
    exact ⟨[c], by simp, InMajor.push h hdigit⟩
  | major =>
    obtain ⟨ds, hne, hmajor⟩ := h
    rcases of_loop hc with ⟨rfl, rfl⟩ | ⟨hdigit, rfl⟩
    · obtain ⟨o, ho, hds, rfl, -, hminor⟩ := hmajor
      exact ⟨o, ds, ho, hne, hds, by simp [Digits], by simp, hminor⟩
    · exact ⟨ds ++ [c], by simp, hmajor.push hdigit⟩
  | minorStart =>
    obtain ⟨hdigit, rfl⟩ := of_test hc
    exact ⟨[c], InMinor.push h hdigit⟩
  | minor =>
    obtain ⟨ds, hminor⟩ := h
    rcases of_loop hc with ⟨-, rfl⟩ | ⟨hdigit, rfl⟩
    · trivial
    · exact ⟨ds ++ [c], hminor.push hdigit⟩
  | newline1 | space | newline2 =>
    obtain ⟨-, rfl⟩ := of_test hc
    trivial
  | lineStart | lws | name | value | newline3 =>
    simp only [advance, advanceValue] at hc
    repeat' split at hc
    all_goals cases hc <;> trivial

theorem run_position {r : Request} (hr : r.uri = []) {u : Bytes}
    (hu : (run (advance d) (.methodStart, r) u).verdict = .indeterminate) :
    Position d u (run (advance d) (.methodStart, r) u).state :=
  run_invariant (advance d) (I := Position d) (fun _ _ _ _ => advance_position) (u := [])
    (s := (.methodStart, r)) ⟨rfl, hr⟩ hu

theorem reaches_opening {r : Request} (hr : r.uri = []) {o : Bytes} (ho : Opening d o) :
    ∃ q, Reaches (advance d) (.methodStart, r) o (.majorStart, q) ∧
      q.httpVersionMajor = some 0 ∧ q.httpVersionMinor = some 0 := by
  obtain ⟨method, uri, hne, hm, hu, hub, rfl⟩ := ho
  obtain ⟨c, method, rfl⟩ := List.exists_cons_of_ne_nil hne
  obtain ⟨hc, hm⟩ := List.forall_mem_cons.mp hm
  have hmethod : ∀ r, ∀ b ∈ method,
      advance d (.method, r) b = (.indeterminate, .method, r.pushMethod b) := by
    intro r b hb
    have hblank : b ≠ chr ' ' := by
      rintro rfl
      exact absurd (hm _ hb) (by decide)
    simp [advance, hblank, hm b hb]
  have huri : ∀ r, ∀ b ∈ uri, advance d (.uri, r) b = (.indeterminate, .uri, r.pushUri b) := by
    intro r b hb
    have hblank : b ≠ chr ' ' := by
      rintro rfl
      exact absurd (hub _ hb) (by decide)
    simp [advance, hblank, hub b hb]
  let r₁ := method.foldl Request.pushMethod (r.pushMethod c)
  let r₂ := uri.foldl Request.pushUri r₁
  have hstart : advance d (.methodStart, r) c = (.indeterminate, .method, r.pushMethod c) :=
    if_pos hc
  have hend : advance d (.uri, r₂) (chr ' ') = (.indeterminate, .h, r₂) := by
    have hurieq : r₂.uri = uri := by
      simp only [r₂, r₁, foldl_pushUri, foldl_pushMethod, Request.pushMethod, hr, List.nil_append]
    cases hd : d.emptyUri with
    | true => simp [advance, hd]
    | false => simp [advance, hd, hurieq, hu hd]
  have hversion : Reaches (advance d) (.h, r₂) (str "HTTP/") (.majorStart, r₂.resetVersion) := by
    exact .cons rfl (.cons rfl (.cons rfl (.cons rfl (.cons rfl .nil))))
  refine ⟨r₂.resetVersion, ?_, rfl, rfl⟩
  refine .cons hstart ?_
  refine (Reaches.loop (f := fun r => (Stage.method, r)) hmethod).append ?_
  refine .cons (t := (.uri, r₁)) rfl ?_
  exact (Reaches.loop (f := fun r => (Stage.uri, r)) huri).append (.cons hend hversion)

/-- A run of digits, of which the first is taken at another stage than the others. -/
theorem reaches_digits {start loop : Stage} {push : Request → UInt8 → Request} {ds : Bytes}
    (hstart : ∀ r c, isDigit (toInt c) = true →
      advance d (start, r) c = (.indeterminate, loop, push r c))
    (hloop : ∀ r c, isDigit (toInt c) = true →
      advance d (loop, r) c = (.indeterminate, loop, push r c))
    (hds : Digits ds) (r : Request) :
    Reaches (advance d) (start, r) ds (if ds = [] then start else loop, ds.foldl push r) := by
  cases ds with
  | nil => exact .nil
  | cons c ds =>
    obtain ⟨hc, hds⟩ := List.forall_mem_cons.mp hds
    refine .cons (hstart r c hc) ?_
    exact Reaches.loop (f := fun r => (loop, r)) fun r b hb => hloop r b (hds b hb)

theorem digit_ne {c t : UInt8} (ht : isDigit (toInt t) = false) (hc : isDigit (toInt c) = true) :
    c ≠ t := by
  rintro rfl
  rw [ht] at hc
  cases hc

theorem reaches_major {r : Request} (hr : r.uri = []) {o ds : Bytes} (ho : Opening d o)
    (hds : Digits ds) :
    ∃ q, Reaches (advance d) (.methodStart, r) (o ++ ds)
        (if ds = [] then .majorStart else .major, q) ∧
      q.httpVersionMajor = some (RequestHead.version ds) ∧ q.httpVersionMinor = some 0 := by
  obtain ⟨q, hq, hmajor, hminor⟩ := reaches_opening hr ho
  refine ⟨ds.foldl Request.pushMajor q, hq.append (reaches_digits ?_ ?_ hds q), ?_, ?_⟩
  · exact fun r c hc => if_pos hc
  · exact fun r c hc => (if_neg (digit_ne (by decide) hc)).trans (if_pos hc)
  · rw [foldl_pushMajor, hmajor]
    rfl
  · rw [foldl_pushMajor]
    exact hminor

theorem reaches_minor {r : Request} (hr : r.uri = []) {o ds ds' : Bytes} (ho : Opening d o)
    (hne : ds ≠ []) (hds : Digits ds) (hds' : Digits ds') :
    ∃ q, Reaches (advance d) (.methodStart, r) (o ++ (ds ++ chr '.' :: ds'))
        (if ds' = [] then .minorStart else .minor, q) ∧
      q.httpVersionMinor = some (RequestHead.version ds') := by
  obtain ⟨q, hq, -, hminor⟩ := reaches_major hr ho hds
  rw [if_neg hne] at hq
  have hdot : advance d (.major, q) (chr '.') = (.indeterminate, .minorStart, q) := rfl
  rw [← List.append_assoc]
  refine ⟨ds'.foldl Request.pushMinor q,
    hq.append (.cons hdot (reaches_digits ?_ ?_ hds' q)), ?_⟩
  · exact fun r c hc => if_pos hc
  · exact fun r c hc => (if_neg (digit_ne (by decide) hc)).trans (if_pos hc)
  · rw [foldl_pushMinor, hminor]
    rfl

/-- A reader of heads gathers every digit in range exactly if the versions fit. -/
theorem fed_inRange_iff {r : Request} (hr : r.uri = []) (w : Bytes) :
    Fed (advance d) (fun q => InRange q.1.versionField q.2) (.methodStart, r) w ↔
      VersionsFit d w := by
  constructor
  · intro h
    constructor
    · intro o ds ho hds hw
      refine valueOf_le_of_evaluates (p := fun ds => o ++ ds <+: w) ?_ ?_ hds hw
      · intro ds c hc
        exact List.IsPrefix.trans (by simp) hc
      · rintro ds c ⟨v, rfl⟩ hds hc
        obtain ⟨q, ⟨hi, hs⟩, hmajor, -⟩ := reaches_major hr ho hds
        have hin := h (o ++ ds) c v (by simp) hi hc Request.httpVersionMajor
        rw [hs] at hin
        obtain ⟨x, hx, hev⟩ := hin (by split <;> rfl)
        obtain rfl := Option.some.inj (hmajor.symm.trans hx)
        exact hev
    · intro o ds ds' ho hne hds hds' hw
      refine valueOf_le_of_evaluates (p := fun ds' => o ++ (ds ++ chr '.' :: ds') <+: w)
        ?_ ?_ hds' hw
      · intro ds' c hc
        exact List.IsPrefix.trans (by simp) hc
      · rintro ds' c ⟨v, rfl⟩ hds' hc
        obtain ⟨q, ⟨hi, hs⟩, hminor⟩ := reaches_minor hr ho hne hds hds'
        have hin := h (o ++ (ds ++ chr '.' :: ds')) c v (by simp) hi hc Request.httpVersionMinor
        rw [hs] at hin
        obtain ⟨x, hx, hev⟩ := hin (by split <;> rfl)
        obtain rfl := Option.some.inj (hminor.symm.trans hx)
        exact hev
  · rintro h u c v rfl hu hc f hf
    have hp := run_position hr hu
    rcases hs : (run (advance d) (.methodStart, r) u).state with ⟨s, q⟩
    rw [hs] at hp hf
    cases s with
    | majorStart =>
      obtain rfl := Option.some.inj hf
      exact hp.inRange h hc
    | major =>
      obtain rfl := Option.some.inj hf
      obtain ⟨ds, -, hp⟩ := hp
      exact hp.inRange h hc
    | minorStart =>
      obtain rfl := Option.some.inj hf
      exact hp.inRange h hc
    | minor =>
      obtain rfl := Option.some.inj hf
      obtain ⟨ds, hp⟩ := hp
      exact hp.inRange h hc
    | _ => cases hf

end Reader

end AsioExamples.Http
