import AsioExamples.Http.VersionFields

/-!
# The parser under any use

A parser may be fed on after its verdict and be reset anywhere. What its request holds, and what
its state needs of the request, survives all of it.
-/

namespace AsioExamples.Http

set_option autoImplicit false

def Header.Clean (h : Header) : Prop :=
  h.name ≠ [] ∧ (∀ c ∈ h.name, isToken c = true) ∧ ∀ c ∈ h.value, isCtl (toInt c) = false

/-- The bytes of a request are those that the parser lets through. -/
structure Request.Clean (r : Request) : Prop where
  method_token : ∀ c ∈ r.method, isToken c = true
  uri_byte : ∀ c ∈ r.uri, isUriByte c = true
  header_clean : ∀ h ∈ r.headers, h.Clean

theorem forall_mem_modifyBack {α : Type} {P : α → Prop} {f : α → α} (hf : ∀ a, P a → P (f a))
    {l : List α} (h : ∀ a ∈ l, P a) : ∀ a ∈ modifyBack f l, P a := by
  rcases List.eq_nil_or_concat l with rfl | ⟨l, a, rfl⟩
  · exact h
  · rw [List.concat_eq_append] at h ⊢
    rw [modifyBack_concat]
    intro b hb
    rcases List.mem_append.mp hb with hb | hb
    · exact h b (List.mem_append_left _ hb)
    · rw [List.mem_singleton.mp hb]
      exact hf a (h a (List.mem_append_right _ (List.mem_singleton_self a)))

namespace Request.Clean
variable {r : Request} {c : UInt8}

theorem fresh : Request.fresh.Clean where
  method_token := fun _ h => absurd h List.not_mem_nil
  uri_byte := fun _ h => absurd h List.not_mem_nil
  header_clean := fun _ h => absurd h List.not_mem_nil

theorem pushMethod (h : r.Clean) (hc : isToken c = true) : (r.pushMethod c).Clean where
  method_token := List.forall_mem_append.mpr ⟨h.method_token, List.forall_mem_singleton.mpr hc⟩
  uri_byte := h.uri_byte
  header_clean := h.header_clean

theorem pushUri (h : r.Clean) (hc : isUriByte c = true) : (r.pushUri c).Clean where
  method_token := h.method_token
  uri_byte := List.forall_mem_append.mpr ⟨h.uri_byte, List.forall_mem_singleton.mpr hc⟩
  header_clean := h.header_clean

/-- The versions are not text. -/
theorem of_versions (h : r.Clean) (major minor : Option Int32) :
    { r with httpVersionMajor := major, httpVersionMinor := minor : Request }.Clean where
  method_token := h.method_token
  uri_byte := h.uri_byte
  header_clean := h.header_clean

theorem pushHeader_pushName (h : r.Clean) (hc : isToken c = true) :
    (r.pushHeader.pushName c).Clean where
  method_token := h.method_token
  uri_byte := h.uri_byte
  header_clean := by
    have hheaders : (r.pushHeader.pushName c).headers = r.headers ++ [⟨[c], []⟩] :=
      modifyBack_concat _ _ _
    rw [hheaders]
    refine List.forall_mem_append.mpr ⟨h.header_clean, ?_⟩
    refine List.forall_mem_singleton.mpr ⟨List.cons_ne_nil _ _, ?_, ?_⟩
    · exact List.forall_mem_singleton.mpr hc
    · exact fun _ hb => absurd hb List.not_mem_nil

theorem pushName (h : r.Clean) (hc : isToken c = true) : (r.pushName c).Clean where
  method_token := h.method_token
  uri_byte := h.uri_byte
  header_clean := by
    apply forall_mem_modifyBack _ h.header_clean
    rintro header ⟨hne, htoken, hvalue⟩
    refine ⟨by simp, ?_, hvalue⟩
    exact List.forall_mem_append.mpr ⟨htoken, List.forall_mem_singleton.mpr hc⟩

theorem pushValue (h : r.Clean) (hc : isCtl (toInt c) = false) : (r.pushValue c).Clean where
  method_token := h.method_token
  uri_byte := h.uri_byte
  header_clean := by
    apply forall_mem_modifyBack _ h.header_clean
    rintro header ⟨hne, htoken, hvalue⟩
    refine ⟨hne, htoken, ?_⟩
    exact List.forall_mem_append.mpr ⟨hvalue, List.forall_mem_singleton.mpr hc⟩

theorem not_isCtl_of_isToken (h : isToken c = true) : isCtl (toInt c) = false := by
  unfold isToken at h
  simp only [Bool.and_eq_true, Bool.not_eq_true'] at h
  exact h.1.2

theorem isUriByte_iff : isUriByte c = true ↔ isCtl (toInt c) = false ∧ c ≠ chr ' ' := by
  unfold isUriByte
  simp

/-- No control byte is in a text field. -/
theorem not_mem (h : r.Clean) (hc : isCtl (toInt c) = true) :
    c ∉ r.method ∧ c ∉ r.uri ∧ ∀ header ∈ r.headers, c ∉ header.name ∧ c ∉ header.value := by
  have hno : ∀ {l : Bytes}, (∀ b ∈ l, isCtl (toInt b) = false) → c ∉ l := by
    intro l hl hmem
    rw [hl c hmem] at hc
    cases hc
  refine ⟨?_, ?_, ?_⟩
  · exact hno fun b hb => not_isCtl_of_isToken (h.method_token b hb)
  · exact hno fun b hb => (isUriByte_iff.mp (h.uri_byte b hb)).1
  · intro header hheader
    obtain ⟨-, htoken, hvalue⟩ := h.header_clean header hheader
    exact ⟨hno fun b hb => not_isCtl_of_isToken (htoken b hb), hno hvalue⟩

end Request.Clean

namespace Server.RequestParser

open Recogniser

inductive Call where
  | consume (input : UInt8)
  | reset
deriving DecidableEq

def next (p : State × Request) : Call → State × Request
  | .consume input => (consume p input).2
  | .reset => (reset, p.2)

/-- The states with a header under way. -/
def InHeader (s : State) : Prop :=
  s ∈ [.headerLws, .headerName, .spaceBeforeHeaderValue, .headerValue, .expectingNewline2]

instance (s : State) : Decidable (InHeader s) := inferInstanceAs (Decidable (s ∈ _))

structure Inv (p : State × Request) : Prop where
  clean : p.2.Clean
  headers_ne : InHeader p.1 → p.2.headers ≠ []
  versions_set : (versionField p.1).isSome →
    p.2.httpVersionMajor.isSome ∧ p.2.httpVersionMinor.isSome

section Steps
variable {s s' : State} {r r' : Request} {c : UInt8}

theorem not_reading_version (hv : versionField s = none) : ¬ (versionField s).isSome = true := by
  rw [hv]
  exact Bool.false_ne_true

/-- In most states nothing is needed of the request. -/
theorem Inv.of_clean (h : r.Clean) (hs : ¬ InHeader s) (hv : versionField s = none) :
    Inv (s, r) :=
  ⟨h, fun hin => absurd hin hs, fun hsome => absurd hsome (not_reading_version hv)⟩

theorem Inv.of_headers (h : r.Clean) (hne : r.headers ≠ []) (hv : versionField s = none) :
    Inv (s, r) :=
  ⟨h, fun _ => hne, fun hsome => absurd hsome (not_reading_version hv)⟩

theorem Inv.of_versions (h : r.Clean) (hs : ¬ InHeader s)
    (hv : r.httpVersionMajor.isSome ∧ r.httpVersionMinor.isSome) : Inv (s, r) :=
  ⟨h, fun hin => absurd hin hs, fun _ => hv⟩

/-- Both ways out of a test. -/
theorem Inv.ite {P : Prop} [Decidable P] {a b : Tribool × State × Request} (ha : P → Inv a.2)
    (hb : ¬ P → Inv b.2) : Inv (if P then a else b).2 := by
  split
  · exact ha ‹_›
  · exact hb ‹_›

/-- A byte that is refused leaves everything as it is. -/
theorem Inv.refused_or (h : Inv (s, r)) {P : Prop} [Decidable P] {b : Tribool × State × Request}
    (hb : ¬ P → Inv b.2) : Inv (if P then (.no, s, r) else b).2 :=
  .ite (fun _ => h) hb

theorem Inv.or_refused (h : Inv (s, r)) {P : Prop} [Decidable P] {a : Tribool × State × Request}
    (ha : P → Inv a.2) : Inv (if P then a else (.no, s, r)).2 :=
  .ite ha fun _ => h

theorem isToken_of_not
    (h : ¬ (!isChar (toInt c) || isCtl (toInt c) || isTspecial (toInt c)) = true) :
    isToken c = true := by
  rw [not_token_eq] at h
  simpa using h

theorem isUriByte_of_not (hspace : ¬ c = chr ' ') (hctl : ¬ isCtl (toInt c) = true) :
    isUriByte c = true :=
  Request.Clean.isUriByte_iff.mpr ⟨by simpa using hctl, hspace⟩

theorem pushName_headers_ne (h : r.headers ≠ []) (c : UInt8) : (r.pushName c).headers ≠ [] :=
  fun hnil => h ((modifyBack_eq_nil _ _).mp hnil)

theorem pushValue_headers_ne (h : r.headers ≠ []) (c : UInt8) : (r.pushValue c).headers ≠ [] :=
  fun hnil => h ((modifyBack_eq_nil _ _).mp hnil)

theorem pushMajor_set (h : r.httpVersionMajor.isSome ∧ r.httpVersionMinor.isSome) (c : UInt8) :
    (r.pushMajor c).httpVersionMajor.isSome ∧ (r.pushMajor c).httpVersionMinor.isSome :=
  ⟨by simpa [Request.pushMajor] using h.1, h.2⟩

theorem pushMinor_set (h : r.httpVersionMajor.isSome ∧ r.httpVersionMinor.isSome) (c : UInt8) :
    (r.pushMinor c).httpVersionMajor.isSome ∧ (r.pushMinor c).httpVersionMinor.isSome :=
  ⟨h.1, by simpa [Request.pushMinor] using h.2⟩

theorem Inv.consume {p : State × Request} (h : Inv p) (c : UInt8) :
    Inv (consume p c).2 := by
  obtain ⟨s, r⟩ := p
  have hr := h.clean
  -- The first byte of a version or of a header sets up what the next states need.
  cases s with
  | methodStart =>
    apply h.refused_or
    exact fun hc => .of_clean (hr.pushMethod (isToken_of_not hc)) (by decide) rfl
  | method =>
    apply Inv.ite
    · exact fun _ => .of_clean hr (by decide) rfl
    · intro _
      apply h.refused_or
      exact fun hc => .of_clean (hr.pushMethod (isToken_of_not hc)) (by decide) rfl
  | uri =>
    apply Inv.ite
    · exact fun _ => .of_clean hr (by decide) rfl
    · intro hspace
      apply h.refused_or
      exact fun hc => .of_clean (hr.pushUri (isUriByte_of_not hspace hc)) (by decide) rfl
  | httpVersionH | httpVersionT1 | httpVersionT2 | httpVersionP | expectingNewline1 |
      expectingNewline2 =>
    apply h.or_refused
    exact fun _ => .of_clean hr (by decide) rfl
  | httpVersionSlash =>
    apply h.or_refused
    exact fun _ => .of_versions (hr.of_versions _ _) (by decide) ⟨rfl, rfl⟩
  | httpVersionMajorStart =>
    have hset := h.versions_set rfl
    apply h.or_refused
    exact fun _ => .of_versions (hr.of_versions _ _) (by decide) (pushMajor_set hset c)
  | httpVersionMajor =>
    have hset := h.versions_set rfl
    apply Inv.ite
    · exact fun _ => .of_versions hr (by decide) hset
    · intro _
      apply h.or_refused
      exact fun _ => .of_versions (hr.of_versions _ _) (by decide) (pushMajor_set hset c)
  | httpVersionMinorStart =>
    have hset := h.versions_set rfl
    apply h.or_refused
    exact fun _ => .of_versions (hr.of_versions _ _) (by decide) (pushMinor_set hset c)
  | httpVersionMinor =>
    have hset := h.versions_set rfl
    apply Inv.ite
    · exact fun _ => .of_clean hr (by decide) rfl
    · intro _
      apply h.or_refused
      exact fun _ => .of_versions (hr.of_versions _ _) (by decide) (pushMinor_set hset c)
  | headerLineStart =>
    apply Inv.ite
    · exact fun _ => .of_clean hr (by decide) rfl
    · intro _
      apply Inv.ite
      · intro hblank
        refine .of_headers hr ?_ rfl
        rintro hnil
        rw [show (State.headerLineStart, r).2.headers = [] from hnil] at hblank
        cases hblank
      · intro _
        apply h.refused_or
        intro hc
        refine .of_headers (hr.pushHeader_pushName (isToken_of_not hc)) ?_ rfl
        exact pushName_headers_ne (by simp [Request.pushHeader]) c
  | headerLws =>
    have hne := h.headers_ne (show InHeader .headerLws by decide)
    apply Inv.ite
    · exact fun _ => .of_headers hr hne rfl
    · intro _
      apply Inv.ite
      · exact fun _ => h
      · intro _
        apply h.refused_or
        intro hc
        refine .of_headers (hr.pushValue (by simpa using hc)) ?_ rfl
        exact pushValue_headers_ne hne c
  | headerName =>
    have hne := h.headers_ne (show InHeader .headerName by decide)
    apply Inv.ite
    · exact fun _ => .of_headers hr hne rfl
    · intro _
      apply h.refused_or
      intro hc
      exact .of_headers (hr.pushName (isToken_of_not hc)) (pushName_headers_ne hne c) rfl
  | spaceBeforeHeaderValue =>
    have hne := h.headers_ne (show InHeader .spaceBeforeHeaderValue by decide)
    apply h.or_refused
    exact fun _ => .of_headers hr hne rfl
  | headerValue =>
    have hne := h.headers_ne (show InHeader .headerValue by decide)
    apply Inv.ite
    · exact fun _ => .of_headers hr hne rfl
    · intro _
      apply h.refused_or
      intro hc
      exact .of_headers (hr.pushValue (by simpa using hc)) (pushValue_headers_ne hne c) rfl
  | expectingNewline3 =>
    apply Inv.ite
    · exact fun _ => h
    · exact fun _ => h

theorem Inv.next {p : State × Request} (h : Inv p) (call : Call) : Inv (next p call) := by
  cases call with
  | consume input => exact h.consume input
  | reset => exact .of_clean h.clean (by decide) rfl

theorem Inv.of_calls (calls : List Call) :
    Inv (calls.foldl RequestParser.next (reset, Request.fresh)) := by
  induction calls using List.reverseRecOn with
  | nil => exact .of_clean .fresh (by decide) rfl
  | append_singleton calls call ih =>
    rw [List.foldl_append]
    exact ih.next call

/-- A version is set in the states that read it. -/
theorem Inv.field_set {p : State × Request} (h : Inv p) {field : Request → Option Int32}
    (hfield : versionField p.1 = some field) : (field p.2).isSome := by
  have hset := h.versions_set (by rw [hfield]; rfl)
  obtain ⟨s, r⟩ := p
  cases s with
  | httpVersionMajorStart | httpVersionMajor =>
    obtain rfl := Option.some.inj hfield
    exact hset.1
  | httpVersionMinorStart | httpVersionMinor =>
    obtain rfl := Option.some.inj hfield
    exact hset.2
  | _ => cases hfield

theorem consume_refused {p : State × Request} (h : (RequestParser.consume p c).1 = .no) :
    (RequestParser.consume p c).2 = p := by
  obtain ⟨s, r⟩ := p
  -- Every branch that answers false returns what it was given.
  cases s
  all_goals
    simp only [RequestParser.consume] at h ⊢
    split_ifs at h ⊢
  all_goals rfl

end Steps

/-- Parser and request stay consistent, whatever is fed and whenever the parser is reset. -/
theorem any_use_is_consistent (calls : List Call) :
    let p := calls.foldl next (reset, Request.fresh)
    (InHeader p.1 → p.2.headers ≠ []) ∧
      (∀ field, versionField p.1 = some field → (field p.2).isSome) ∧
      (∀ c ∈ p.2.method, isToken c = true) ∧
      (∀ c ∈ p.2.uri, isCtl (toInt c) = false ∧ c ≠ chr ' ') ∧
      (∀ h ∈ p.2.headers, h.name ≠ [] ∧ (∀ c ∈ h.name, isToken c = true) ∧
        ∀ c ∈ h.value, isCtl (toInt c) = false) ∧
      (∀ c ∈ [chr '\r', chr '\n', 0], c ∉ p.2.method ∧ c ∉ p.2.uri ∧
        ∀ h ∈ p.2.headers, c ∉ h.name ∧ c ∉ h.value) ∧
      ∀ c, (consume p c).1 = .no → (consume p c).2 = p := by
  intro p
  have hinv : Inv p := Inv.of_calls calls
  have hctl : ∀ c ∈ [chr '\r', chr '\n', 0], isCtl (toInt c) = true := by decide +kernel
  refine ⟨hinv.headers_ne, ?_, hinv.clean.method_token, ?_, hinv.clean.header_clean, ?_, ?_⟩
  · exact fun field hfield => hinv.field_set hfield
  · exact fun c hc => Request.Clean.isUriByte_iff.mp (hinv.clean.uri_byte c hc)
  · exact fun c hc => hinv.clean.not_mem (hctl c hc)
  · exact fun c hno => consume_refused hno

end Server.RequestParser

end AsioExamples.Http
