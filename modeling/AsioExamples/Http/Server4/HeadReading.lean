import AsioExamples.Http.HeadReader
import AsioExamples.Http.Server4.RequestParser

/-!
# The coroutine parser reads request heads

Up to its scan for Content-Length the coroutine is a reader of request heads: every yield is
a stage. Its dialect takes no empty uri and only ASCII in header values.
-/

namespace AsioExamples.Http.Server4.RequestParser

set_option autoImplicit false

open Recogniser

def dialect : Dialect where
  emptyUri := false
  valueByte := fun c => isChar (toInt c) && !isCtl (toInt c)
  valueByte_cr := by decide

def stageOf : HeadYield → Stage
  | .start => .methodStart
  | .method => .method
  | .methodSpace => .uri
  | .uri => .uri
  | .uriSpace => .h
  | .h => .t1
  | .t1 => .t2
  | .t2 => .p
  | .p => .slash
  | .slash => .majorStart
  | .major => .major
  | .dot => .minorStart
  | .minor => .minor
  | .cr => .newline1
  | .newline => .lineStart
  | .lws => .lws
  | .name => .name
  | .colon => .space
  | .space => .value
  | .value => .value
  | .valueCr => .newline2
  | .valueNewline => .lineStart
  | .lastCr => .newline3

def Zeroed (r : Http.Request) : Prop := r.httpVersionMajor = some 0 ∧ r.httpVersionMinor = some 0

/-- The versions are zero until the slash, and the method loop is left only once it has run. -/
def Started (r : Http.Request) : HeadYield → Prop
  | .method => r.method ≠ [] ∧ Zeroed r
  | .methodSpace | .uri | .uriSpace | .h | .t1 | .t2 | .p => Zeroed r
  | _ => True

/-- The request as the rest of the code sees it: the first call clears what was there. -/
def seen (r : Http.Request) (y : HeadYield) : Http.Request := if y = .start then cleared else r

/-- An exit of the coroutine and an answer of the reader that amount to the same. -/
def Exit.Matches (e : Exit) (a : Tribool × Stage × Http.Request) : Prop :=
  match e with
  | .yield y r => a = (.indeterminate, stageOf y, r) ∧ Started r y ∧ y ≠ .start
  | .returnFalse _ => a.1 = .no
  | .scan r => a = (.yes, .newline3, r)

theorem token_and_ne {t : Char} (ht : isToken (chr t) = false) (c : UInt8) :
    (isChar (toInt c) && !isCtl (toInt c) && !isTspecial (toInt c) && c != chr t) = isToken c := by
  change (isToken c && c != chr t) = isToken c
  by_cases hc : c = chr t
  · simp [hc, ht]
  · simp [hc]

section Loops
variable (c : UInt8) (r : Http.Request) (s : Stage)

attribute [local simp] Exit.Matches stageOf Started

theorem expect_matches {y : HeadYield} {want : Char} {next : Stage} (hy : stageOf y = next)
    (hs : Started r y) (hne : y ≠ .start) :
    (expect c r want y).Matches (Http.expect r c (chr want) s next) := by
  subst next
  unfold expect Http.expect
  split
  · exact ⟨rfl, hs, hne⟩
  · rfl

theorem methodLoop_matches (hr : r.method ≠ []) (hz : Zeroed r) :
    (methodLoop c r).Matches (advance dialect (.method, r) c) := by
  unfold methodLoop advance expect
  rw [token_and_ne (by decide)]
  by_cases hc : c = chr ' '
  · simp [hc, show isToken (chr ' ') = false by decide, hr, hz]
  · cases ht : isToken c with
    | true => exact ⟨by simp [hc], ⟨by simp [Request.pushMethod], hz⟩, by decide⟩
    | false => simp [hc, hr]

theorem methodLoop_cleared :
    (methodLoop c cleared).Matches (advance dialect (.methodStart, cleared) c) := by
  unfold methodLoop advance
  rw [token_and_ne (by decide)]
  cases ht : isToken c with
  | true => exact ⟨by simp, ⟨by simp [Request.pushMethod], rfl, rfl⟩, by decide⟩
  | false => simp [cleared]

theorem uriLoop_matches (hz : Zeroed r) :
    (uriLoop c r).Matches (advance dialect (.uri, r) c) := by
  unfold uriLoop advance expect
  change Exit.Matches (if isUriByte c = true then _ else _) _
  by_cases hc : c = chr ' '
  · cases hr : r.uri <;>
      simp [hc, show isUriByte (chr ' ') = false by decide, hr, dialect, hz]
  · cases hu : isUriByte c with
    | true => exact ⟨by simp [hc], hz, by decide⟩
    | false => cases hr : r.uri <;> simp [hc]

theorem valueLoop_matches : (valueLoop c r).Matches (advanceValue dialect s r c) := by
  unfold valueLoop advanceValue expect
  by_cases hc : c = chr '\r'
  · simp [hc]
  · cases hv : isChar (toInt c) && !isCtl (toInt c) with
    | true => simp [hc, hv, dialect]
    | false => simp [hc, hv, dialect]

theorem lwsLoop_matches : (lwsLoop c r).Matches (advance dialect (.lws, r) c) := by
  unfold lwsLoop advance isBlank
  cases hb : c == chr ' ' || c == chr '\t' with
  | true => exact ⟨rfl, trivial, by decide⟩
  | false => exact valueLoop_matches c r .lws

theorem nameLoop_matches : (nameLoop c r).Matches (advance dialect (.name, r) c) := by
  unfold nameLoop advance expect
  rw [token_and_ne (by decide)]
  by_cases hc : c = chr ':'
  · simp [hc, show isToken (chr ':') = false by decide]
  · cases ht : isToken c <;> simp [hc]

theorem headersLoop_matches : (headersLoop c r).Matches (advance dialect (.lineStart, r) c) := by
  unfold headersLoop
  rw [token_and_ne (by decide)]
  change Exit.Matches (if (isToken c || isBlank c) = true then
    if isBlank c = true then _ else _ else _) _
  by_cases hc : c = chr '\r'
  · subst c
    exact ⟨rfl, trivial, by decide⟩
  cases hb : isBlank c with
  | true =>
    have ht : isToken c = false := by
      simp only [isBlank, Bool.or_eq_true, beq_iff_eq] at hb
      rcases hb with rfl | rfl <;> decide
    cases hr : r.headers with
    | nil => simp [advance, hc, ht, hr, hb]
    | cons h hs =>
      have hl : lwsLoop c r = .yield .lws r := by
        unfold lwsLoop
        exact if_pos hb
      simp [advance, hc, hr, hb, hl]
  | false =>
    cases ht : isToken c with
    | true =>
      have hn : nameLoop c r.pushHeader = .yield .name (r.pushHeader.pushName c) := by
        unfold nameLoop
        rw [token_and_ne (by decide)]
        exact if_pos ht
      simp [advance, hc, hb, ht, hn]
    | false => simp [advance, hc, hb, ht, expect]

theorem majorLoop_matches : (majorLoop c r).Matches (advance dialect (.major, r) c) := by
  unfold majorLoop advance expect
  by_cases hc : c = chr '.'
  · simp [hc, show isDigit (toInt (chr '.')) = false by decide]
  · cases hd : isDigit (toInt c) <;> simp [hc]

theorem minorLoop_matches : (minorLoop c r).Matches (advance dialect (.minor, r) c) := by
  unfold minorLoop advance expect
  by_cases hc : c = chr '\r'
  · simp [hc, show isDigit (toInt (chr '\r')) = false by decide]
  · cases hd : isDigit (toInt c) <;> simp [hc]

/-- Each resumption answers as the reader does at the stage of its yield. -/
theorem resumeHead_matches {y : HeadYield} (hy : Started r y) :
    (resumeHead c r y).Matches (advance dialect (stageOf y, seen r y) c) := by
  cases y with
  | start => exact methodLoop_cleared c
  | method => exact methodLoop_matches c r hy.1 hy.2
  | methodSpace | uri => exact uriLoop_matches c r hy
  | uriSpace | h | t1 | t2 => exact expect_matches c r _ rfl hy (by decide)
  | p =>
    have hz : r.resetVersion = r := by
      obtain ⟨hmajor, hminor⟩ := hy
      cases r
      simp_all [Request.resetVersion]
    unfold resumeHead advance expect
    simp only [stageOf, seen]
    split <;> simp [hz]
  | slash =>
    unfold resumeHead majorLoop advance
    cases hd : isDigit (toInt c) <;> simp [seen]
  | major => exact majorLoop_matches c r
  | dot =>
    unfold resumeHead minorLoop advance
    cases hd : isDigit (toInt c) <;> simp [seen]
  | minor => exact minorLoop_matches c r
  | cr | colon | valueCr => exact expect_matches c r _ rfl trivial (by decide)
  | newline | valueNewline => exact headersLoop_matches c r
  | lws => exact lwsLoop_matches c r
  | name => exact nameLoop_matches c r
  | space | value => exact valueLoop_matches c r _
  | lastCr =>
    unfold resumeHead advance
    simp only [stageOf, seen]
    split <;> simp

end Loops

end AsioExamples.Http.Server4.RequestParser
