import AsioExamples.Http.HeadReader
import AsioExamples.Http.Server.RequestParser

/-!
# The language of the first server's parser

Each state of the parser is a stage of the reader of request heads, so the parser decides the
language of its dialect: an empty uri is taken, and a header value holds any bytes that are
not control bytes.
-/

namespace AsioExamples.Http.Server.RequestParser

set_option autoImplicit false

open Recogniser

def dialect : Dialect where
  emptyUri := true
  valueByte := fun c => !isCtl (toInt c)
  valueByte_cr := by decide

def stageOf : State → Stage
  | .methodStart => .methodStart
  | .method => .method
  | .uri => .uri
  | .httpVersionH => .h
  | .httpVersionT1 => .t1
  | .httpVersionT2 => .t2
  | .httpVersionP => .p
  | .httpVersionSlash => .slash
  | .httpVersionMajorStart => .majorStart
  | .httpVersionMajor => .major
  | .httpVersionMinorStart => .minorStart
  | .httpVersionMinor => .minor
  | .expectingNewline1 => .newline1
  | .headerLineStart => .lineStart
  | .headerLws => .lws
  | .headerName => .name
  | .spaceBeforeHeaderValue => .space
  | .headerValue => .value
  | .expectingNewline2 => .newline2
  | .expectingNewline3 => .newline3

/-- The two loops that end at a carriage return ask the same questions in another order. -/
theorem advanceValue_dialect (s : Stage) (r : Request) (c : UInt8) :
    advanceValue dialect s r c =
      if c = chr '\r' then (.indeterminate, .newline2, r)
      else if isCtl (toInt c) then (.no, s, r)
      else (.indeterminate, .value, r.pushValue c) := by
  unfold advanceValue dialect
  cases h : isCtl (toInt c) <;> simp [h]

theorem consume_eq_advance (s : State) (r : Request) (c : UInt8) :
    advance dialect (stageOf s, r) c =
      ((consume (s, r) c).1, stageOf (consume (s, r) c).2.1, (consume (s, r) c).2.2) := by
  cases s with
  | methodStart =>
    simp only [stageOf, advance, consume, not_token_eq]
    cases isToken c <;> rfl
  | method =>
    simp only [stageOf, advance, consume, not_token_eq]
    cases isToken c <;> split <;> rfl
  | uri =>
    by_cases hc : c = chr ' '
    · simp [stageOf, advance, consume, dialect, hc]
    · cases h : isCtl (toInt c) <;>
        simp [stageOf, advance, consume, isUriByte, hc, h]
  | httpVersionH | httpVersionT1 | httpVersionT2 | httpVersionP | httpVersionSlash
  | httpVersionMajorStart | httpVersionMinorStart | expectingNewline1 | spaceBeforeHeaderValue
  | expectingNewline2 | expectingNewline3 =>
    simp only [stageOf, advance, consume, expect]
    split <;> rfl
  | httpVersionMajor | httpVersionMinor =>
    simp only [stageOf, advance, consume]
    split
    · rfl
    · split <;> rfl
  | headerLineStart =>
    simp only [stageOf, advance, consume, not_token_eq, isBlank]
    by_cases hcr : c = chr '\r'
    · simp [hcr]
    · simp only [hcr, if_false]
      by_cases hb : (!r.headers.isEmpty && (c == chr ' ' || c == chr '\t')) = true
      · simp only [hb, if_true]
      · simp only [hb]
        cases isToken c <;> rfl
  | headerLws =>
    simp only [stageOf, advance, consume, advanceValue_dialect, isBlank]
    by_cases hcr : c = chr '\r'
    · subst c
      rfl
    · simp only [hcr, if_false]
      split
      · rfl
      · split <;> rfl
  | headerName =>
    simp only [stageOf, advance, consume, not_token_eq]
    cases isToken c <;> split <;> rfl
  | headerValue =>
    simp only [stageOf, advance, consume, advanceValue_dialect]
    split
    · rfl
    · split <;> rfl

/-- A parser state and the reader state it stands for. -/
def Reads (p : State × Request) (q : Stage × Request) : Prop := q = (stageOf p.1, p.2)

theorem consume_reads {p : State × Request} {q : Stage × Request} (c : UInt8) (h : Reads p q) :
    StepAgrees consume (advance dialect) Reads Reads p q c := by
  obtain ⟨s, r⟩ := p
  obtain rfl := h
  unfold StepAgrees Reads
  rw [consume_eq_advance]
  exact ⟨rfl, fun _ => rfl, fun _ => rfl⟩

theorem parse_reads (p : State × Request) (w : Bytes) :
    (parse p w).verdict = (run (advance dialect) (stageOf p.1, p.2) w).verdict ∧
      (parse p w).consumed = (run (advance dialect) (stageOf p.1, p.2) w).consumed ∧
      ((parse p w).verdict = .yes →
        (run (advance dialect) (stageOf p.1, p.2) w).state.2 = (parse p w).state.2) := by
  obtain ⟨hv, hk, -, hy⟩ := run_simulates Reads Reads (P := fun _ _ => True)
    (fun _ _ c h _ => consume_reads c h) (rfl : Reads p _) w fun _ _ _ _ _ => trivial
  exact ⟨hv, hk, fun h => congrArg Prod.snd (hy h)⟩

theorem parse_undecided {p : State × Request} {w : Bytes}
    (h : (parse p w).verdict = .indeterminate) :
    Reads (parse p w).state (run (advance dialect) (stageOf p.1, p.2) w).state := by
  obtain ⟨-, -, hi, -⟩ := run_simulates Reads Reads (P := fun _ _ => True)
    (fun _ _ c h _ => consume_reads c h) (rfl : Reads p _) w fun _ _ _ _ _ => trivial
  exact hi h

/-- A head that the input starts with is taken, and its parts are the request. -/
theorem parse_of_head {m : RequestHead} {w : Bytes} {k : Nat}
    (hm : m.WellFormed dialect) (hk : k ≤ w.length)
    (hw : w.take k = m.bytes) :
    (parse (reset, Request.fresh) w).verdict = .yes ∧
      (parse (reset, Request.fresh) w).consumed = k ∧
      (parse (reset, Request.fresh) w).state.2 = m.request := by
  obtain ⟨hverdict, hconsumed, hrequest⟩ := parse_reads (reset, Request.fresh) w
  have hr : Request.fresh.headers = [] := rfl
  have hu : dialect.emptyUri = false → Request.fresh.uri = [] := fun _ => rfl
  obtain ⟨hyes, hcons, hstate⟩ := reader_of_head dialect hr hu hm hk hw
  refine ⟨hverdict.trans hyes, hconsumed.trans hcons, ?_⟩
  rw [← hrequest (hverdict.trans hyes)]
  exact hstate

theorem head_of_parse {w : Bytes}
    (h : (parse (reset, Request.fresh) w).verdict = .yes) :
    ∃ m : RequestHead, m.WellFormed dialect ∧
      w.take (parse (reset, Request.fresh) w).consumed = m.bytes := by
  obtain ⟨hverdict, hconsumed, -⟩ := parse_reads (reset, Request.fresh) w
  have hr : Request.fresh.headers = [] := rfl
  obtain ⟨-, m, hm, hw⟩ := (reader_accepts_iff _ hr (fun _ => rfl) w _).mp
    ⟨hverdict.symm.trans h, hconsumed.symm⟩
  exact ⟨m, hm, hw.symm⟩

/-- A fresh parser decides exactly the heads of its dialect, answers no at the first byte
after which no head is possible, and leaves in the request the parts of the head it took. -/
theorem parse_decides_language (r : Request) (w : Bytes) :
    let o := parse (reset, { r with headers := [] }) w
    (∀ k, o.verdict = .yes ∧ o.consumed = k ↔
      k ≤ w.length ∧ RequestHead.Language dialect (w.take k)) ∧
    (o.verdict = .indeterminate ∧ o.consumed = w.length ↔
      ProperPrefix (RequestHead.Language dialect) w) ∧
    (∀ k, o.verdict = .no ∧ o.consumed = k ↔
      0 < k ∧ k ≤ w.length ∧ ProperPrefix (RequestHead.Language dialect) (w.take (k - 1)) ∧
        Dead (RequestHead.Language dialect) (w.take k)) ∧
    (∀ m : RequestHead, m.WellFormed dialect → o.verdict = .yes → w.take o.consumed = m.bytes →
      o.state.2 = { m.request with method := r.method ++ m.method, uri := r.uri ++ m.uri }) := by
  intro o
  have hu : dialect.emptyUri = false → r.uri = [] := fun h => Bool.noConfusion h
  obtain ⟨hv, hk, hy⟩ := parse_reads (reset, { r with headers := [] }) w
  change o.verdict = _ at hv
  change o.consumed = _ at hk
  change o.verdict = _ → _ = o.state.2 at hy
  refine ⟨fun k => ?_, ?_, fun k => ?_, ?_⟩
  · rw [hv, hk]
    exact reader_accepts_iff dialect (r := { r with headers := [] }) rfl hu w k
  · rw [← reader_indeterminate_iff dialect (r := { r with headers := [] }) rfl hu, hv]
    exact ⟨fun h => h.1, fun h => ⟨h, hk.trans (consumed_of_indeterminate _ h)⟩⟩
  · rw [hv, hk]
    exact reader_rejects_iff dialect (r := { r with headers := [] }) rfl hu w k
  · intro m hm hyes hw
    rw [← hy hyes]
    rw [hk] at hw
    exact reader_request dialect (r := { r with headers := [] }) rfl hu hm hw

end AsioExamples.Http.Server.RequestParser
