import Mathlib.Data.List.Infix

/-!
# Loops that read a stream piece by piece

A loop says how many symbols it waits for and what it does with them when they have come.
`feed` gives it a stream, a piece at a time, until it waits for more than is left.
-/

namespace AsioExamples

set_option autoImplicit false

universe u v w
variable {β : Type u} {σ : Type v} {ω : Type w}

/-- `awaits` is the length of the piece waited for, if any; `handle` takes a piece of that
length and gives the next state and what the loop puts out. -/
structure ReadLoop (β : Type u) (σ : Type v) (ω : Type w) where
  awaits : σ → Option Nat
  handle : σ → List β → σ × List ω

/-- The state of the loop, all it has put out and the part of the stream it has not taken. -/
structure ReadLoop.Result (β : Type u) (σ : Type v) (ω : Type w) where
  state : σ
  output : List ω
  rest : List β

namespace ReadLoop
variable (l : ReadLoop β σ ω)

/-- At most so many pieces; a loop may wait for an empty one for ever. -/
def feed : Nat → σ → List β → Result β σ ω
  | 0, s, stream => ⟨s, [], stream⟩
  | n + 1, s, stream =>
    match l.awaits s with
    | none => ⟨s, [], stream⟩
    | some k =>
      if k ≤ stream.length then
        let (t, o) := l.handle s (stream.take k)
        let r := feed n t (stream.drop k)
        ⟨r.state, o ++ r.output, r.rest⟩
      else ⟨s, [], stream⟩

variable {l}

theorem feed_piece {s : σ} {piece : List β} (h : l.awaits s = some piece.length) (n : Nat)
    (stream : List β) :
    l.feed (n + 1) s (piece ++ stream) =
      ⟨(l.feed n (l.handle s piece).1 stream).state,
        (l.handle s piece).2 ++ (l.feed n (l.handle s piece).1 stream).output,
        (l.feed n (l.handle s piece).1 stream).rest⟩ := by
  simp [feed, h]

theorem feed_short {s : σ} {k : Nat} (h : l.awaits s = some k) {stream : List β}
    (hk : stream.length < k) (n : Nat) : l.feed n s stream = ⟨s, [], stream⟩ := by
  cases n with
  | zero => rfl
  | succ n =>
    simp only [feed, h]
    rw [if_neg (Nat.not_le.mpr hk)]

end ReadLoop

section Delimiter
variable [DecidableEq β] {delim buf : List β} {pieces : List (List β)}

/-- Append pieces of a stream to a buffer until the delimiter is in it: the buffer and the pieces
left, or `none` where the stream ends before. -/
def readUntil (delim buf : List β) : List (List β) → Option (List β × List (List β))
  | [] => if delim <:+: buf then some (buf, []) else none
  | piece :: pieces =>
    if delim <:+: buf then some (buf, piece :: pieces)
    else readUntil delim (buf ++ piece) pieces

/-- A delimiter that is in the stream is found, and nothing of the stream is lost. -/
theorem exists_readUntil (h : delim <:+: buf ++ pieces.flatten) :
    ∃ buf' pieces', readUntil delim buf pieces = some (buf', pieces') ∧
      buf' ++ pieces'.flatten = buf ++ pieces.flatten ∧ delim <:+: buf' ∧ pieces' <:+ pieces := by
  induction pieces generalizing buf with
  | nil =>
    rw [List.flatten_nil, List.append_nil] at h
    exact ⟨buf, [], if_pos h, rfl, h, List.suffix_rfl⟩
  | cons piece pieces ih =>
    by_cases hb : delim <:+: buf
    · exact ⟨buf, piece :: pieces, if_pos hb, rfl, hb, List.suffix_rfl⟩
    · rw [List.flatten_cons, ← List.append_assoc] at h
      obtain ⟨buf', pieces', hread, hstream, hdelim, hsuffix⟩ := ih h
      refine ⟨buf', pieces', (if_neg hb).trans hread, ?_, hdelim,
        hsuffix.trans (List.suffix_cons piece pieces)⟩
      rw [hstream, List.flatten_cons, List.append_assoc]

end Delimiter

end AsioExamples
