import AsioExamples.Http.Server4.RequestFraming
import AsioExamples.Theory.Decimal

/-!
# Requests with several lengths

The scan lets every Content-Length overwrite the one before, so a body has the length that the
last of them says. The others say the same only where all of them are cast alike.
-/

namespace AsioExamples.Http.Server4.RequestParser

set_option autoImplicit false

open Recogniser

section Lengths
variable (cast : Bytes → Option Nat)

theorem mem_contentLengths {hs : List Header} {v : Bytes} :
    v ∈ contentLengths hs ↔ ∃ h ∈ hs, SameName h.name contentLengthName ∧ h.value = v := by
  simp [contentLengths, and_assoc]

/-- Every Content-Length of a request is cast to the length of its content. -/
def LengthsMatch (req : Request) : Prop :=
  ∀ h ∈ req.headers, SameName h.name contentLengthName → cast h.value = some req.content.length

def OneLength (hs : List Header) : Prop :=
  ∀ u ∈ contentLengths hs, ∀ v ∈ contentLengths hs, cast u = cast v

theorem cast_of_oneLength {hs : List Header} (hcast : Castable cast hs) (h : OneLength cast hs)
    {v : Bytes} (hv : v ∈ contentLengths hs) : cast v = some (bodyLength cast hs) := by
  unfold bodyLength lastLength
  cases hl : (contentLengths hs).getLast? with
  | none =>
    rw [List.getLast?_eq_none_iff.mp hl] at hv
    cases hv
  | some l =>
    have hmem : l ∈ contentLengths hs := List.mem_of_getLast? hl
    obtain ⟨k, hk⟩ := Option.isSome_iff_exists.mp (hcast l hmem)
    rw [h v hv l hmem, hk]
    simp [hk]

theorem lengthsMatch_iff {req : Request} (hcast : Castable cast req.headers)
    (hlen : req.content.length = bodyLength cast req.headers) :
    LengthsMatch cast req ↔ OneLength cast req.headers := by
  constructor
  · intro h u hu v hv
    obtain ⟨x, hx, hname, rfl⟩ := mem_contentLengths.mp hu
    obtain ⟨y, hy, hname', rfl⟩ := mem_contentLengths.mp hv
    rw [h x hx hname, h y hy hname']
  · intro h x hx hname
    rw [hlen]
    exact cast_of_oneLength cast hcast h (mem_contentLengths.mpr ⟨x, hx, hname, rfl⟩)

end Lengths

def decimalCast (value : Bytes) : Option Nat :=
  if value ≠ [] ∧ value.all Decimal.isDecimalDigit then some (Decimal.valueOf value) else none

/-- Of an accepted request every Content-Length matches the body that was framed exactly if
all the Content-Lengths of the head that was received are cast alike. -/
theorem content_lengths_match_iff (cast : Bytes → Option Nat) (n : Nat) (req : Request)
    (w : Bytes) (h : (parse cast (Parser.fresh n, req) w).verdict = .yes) :
    (∃ m : RequestHead, m.WellFormed dialect ∧ m.bytes <+: w) ∧
      ∀ m : RequestHead, m.WellFormed dialect → m.bytes <+: w →
        (LengthsMatch cast (parse cast (Parser.fresh n, req) w).state.2 ↔
          OneLength cast m.headers) := by
  obtain ⟨m, body, hm, hstart, hcast, hlen, hstate⟩ := head_of_parse cast h
  refine ⟨⟨m, hm, hstart⟩, fun m' hm' hstart' => ?_⟩
  have hsame : m'.headers = m.headers :=
    congrArg Request.headers (request_unique hm' hm hstart' hstart)
  have hmatch : LengthsMatch cast ⟨m.request, body⟩ ↔ OneLength cast m.headers :=
    lengthsMatch_iff cast hcast hlen
  rw [hstate, hsame]
  exact hmatch

theorem content_lengths_match_iff_twice :
    let w := str "PUT / HTTP/1.0\r\nContent-Length: 1\r\ncontent-length: 01\r\n\r\n!"
    (∃ m : RequestHead, m.WellFormed dialect ∧ m.bytes <+: w) ∧
      ∀ m : RequestHead, m.WellFormed dialect → m.bytes <+: w →
        (LengthsMatch decimalCast
            (parse decimalCast (Parser.fresh 0, Request.fresh) w).state.2 ↔
          OneLength decimalCast m.headers) :=
  content_lengths_match_iff decimalCast 0 Request.fresh _ (by decide +kernel)

/-- Two lengths, of which the first is the body for another reader. -/
theorem not_lengthsMatch_twice :
    ¬ ∀ (cast : Bytes → Option Nat) (n : Nat) (req : Request) (w : Bytes),
      (parse cast (Parser.fresh n, req) w).verdict = .yes →
        LengthsMatch cast (parse cast (Parser.fresh n, req) w).state.2 := by
  intro h
  have hmatch := h decimalCast 0 Request.fresh
    (str "PUT / HTTP/1.0\r\nContent-Length: 1\r\nContent-Length: 0\r\n\r\n!") (by decide +kernel)
    ⟨str "Content-Length", str "1"⟩ (by decide +kernel) (by decide +kernel)
  revert hmatch
  decide +kernel

end AsioExamples.Http.Server4.RequestParser
