import AsioExamples.Theory.Recogniser

/-!
# Exchanges

One side of an exchange reads what arrives, piece after piece, until a recogniser has decided
on it, and answers once. What it has started by then depends on the stream, not on the cuts.
-/

namespace AsioExamples.Exchange

set_option autoImplicit false

open Recogniser

universe u v w
variable {σ : Type u} {α : Type v} {β : Type w} (step : σ → β → Tribool × σ) (s : σ)

/-- No piece has been read after the recogniser had decided. -/
def Prompt (pieces : List (List β)) : Prop :=
  (run step s pieces.dropLast.flatten).verdict = .indeterminate

/-- The operations started: a read before every piece, and once more or the answer. -/
def operations (read : α) (answer : Outcome σ → α) (pieces : List (List β)) : List α :=
  let o := run step s pieces.flatten
  if o.verdict = .indeterminate then List.replicate (pieces.length + 1) read
  else List.replicate pieces.length read ++ [answer o]

/-- What has been started when `pieces` have been read of a stream with outcome `o`: reads
only, as long as the deciding symbol has not been read, and the answer right after the piece
that it is in. -/
structure Answers (o : Outcome σ) (read answer : α) (pieces : List (List β))
    (started : List α) : Prop where
  waiting : o.verdict = .indeterminate ∨ pieces.flatten.length < o.consumed →
    started = List.replicate (pieces.length + 1) read
  answered : o.verdict ≠ .indeterminate → o.consumed ≤ pieces.flatten.length →
    started = List.replicate pieces.length read ++ [answer] ∧
      pieces.dropLast.flatten.length < o.consumed

variable {step s}

theorem prompt_nil : Prompt step s [] := rfl

theorem prompt_concat {pieces : List (List β)}
    (h : (run step s pieces.flatten).verdict = .indeterminate) (piece : List β) :
    Prompt step s (pieces ++ [piece]) := by
  unfold Prompt
  rw [List.dropLast_concat]
  exact h

theorem run_flatten_concat {pieces : List (List β)}
    (h : (run step s pieces.flatten).verdict = .indeterminate) (piece : List β) :
    (run step s (pieces ++ [piece]).flatten).verdict =
        (run step (run step s pieces.flatten).state piece).verdict ∧
      (run step s (pieces ++ [piece]).flatten).state =
        (run step (run step s pieces.flatten).state piece).state := by
  rw [List.flatten_append, List.flatten_singleton, run_append_of_indeterminate step h]
  exact ⟨rfl, rfl⟩

section Operations
variable (read : α) (answer : Outcome σ → α)

theorem operations_nil : operations step s read answer [] = [read] := rfl

theorem operations_of_undecided {pieces : List (List β)}
    (h : (run step s pieces.flatten).verdict = .indeterminate) :
    operations step s read answer pieces = List.replicate (pieces.length + 1) read := by
  simp [operations, h]

theorem operations_concat {pieces : List (List β)}
    (h : (run step s pieces.flatten).verdict = .indeterminate) (piece : List β) :
    operations step s read answer (pieces ++ [piece]) =
      operations step s read answer pieces ++
        [if (run step s (pieces ++ [piece]).flatten).verdict = .indeterminate then read
          else answer (run step s (pieces ++ [piece]).flatten)] := by
  rw [operations_of_undecided read answer h]
  unfold operations
  rw [List.length_append, List.length_singleton]
  by_cases hv : (run step s (pieces ++ [piece]).flatten).verdict = .indeterminate
  · simp only [if_pos hv]
    exact List.replicate_succ'
  · simp only [if_neg hv]

end Operations

variable {pieces : List (List β)} {stream : List β}

theorem run_eq_of_decided (h : pieces.flatten <+: stream)
    (hv : (run step s pieces.flatten).verdict ≠ .indeterminate) :
    run step s pieces.flatten = run step s stream := by
  obtain ⟨rest, rfl⟩ := h
  exact (run_append_of_decided step hv rest).symm

/-- What has been read is decided on exactly if it holds the symbol that decides the stream. -/
theorem decided_iff (h : pieces.flatten <+: stream) :
    (run step s pieces.flatten).verdict ≠ .indeterminate ↔
      (run step s stream).verdict ≠ .indeterminate ∧
        (run step s stream).consumed ≤ pieces.flatten.length := by
  constructor
  · intro hv
    rw [← run_eq_of_decided h hv]
    exact ⟨hv, consumed_le step s _⟩
  · rintro ⟨hv, hle⟩ hu
    obtain ⟨rest, rfl⟩ := h
    have hrun := run_append_of_indeterminate step hu rest
    rw [hrun] at hv hle
    have hpos := consumed_pos step hv
    have : pieces.flatten.length + (run step (run step s pieces.flatten).state rest).consumed ≤
        pieces.flatten.length := hle
    exact absurd (Nat.le_of_add_le_add_left (a := pieces.flatten.length) this)
      (Nat.not_le_of_lt hpos)

/-- The operations of a prompt exchange answer the stream. -/
theorem answers_of_prompt (hp : Prompt step s pieces) (h : pieces.flatten <+: stream) (read : α)
    (answer : Outcome σ → α) :
    Answers (run step s stream) read (answer (run step s stream)) pieces
      (operations step s read answer pieces) where
  waiting hw := by
    refine operations_of_undecided read answer ?_
    by_contra hv
    obtain ⟨hdecided, hle⟩ := (decided_iff h).mp hv
    rcases hw with hw | hw
    · exact hdecided hw
    · exact Nat.not_lt_of_le hle hw
  answered hv hle := by
    have hpieces := (decided_iff h).mpr ⟨hv, hle⟩
    refine ⟨?_, ?_⟩
    · unfold operations
      rw [if_neg hpieces, run_eq_of_decided h hpieces]
    · have hsub : pieces.dropLast.flatten <+: stream := by
        refine List.IsPrefix.trans ?_ h
        obtain ⟨rest, hrest⟩ := List.dropLast_prefix pieces
        exact ⟨rest.flatten, by rw [← List.flatten_append, hrest]⟩
      by_contra hnot
      exact (decided_iff hsub).mpr ⟨hv, Nat.le_of_not_lt hnot⟩ hp

end AsioExamples.Exchange
