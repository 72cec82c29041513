import Mathlib.Data.List.Basic

/-!
# Attributed grammars read from the left

A rule `Rule ρ β` relates the attributes gathered so far and a word to the attributes after
the word. The combinators build rules from the right, each one taking the rule of what
follows, and every combinator comes with the equation that removes the first symbol.
-/

namespace AsioExamples.Grammar

set_option autoImplicit false

universe u v
variable {ρ : Type u} {β : Type v}

abbrev Rule (ρ : Type u) (β : Type v) := ρ → List β → ρ → Prop

/-- The literal symbol `c`. -/
def lit (c : β) (K : Rule ρ β) : Rule ρ β := fun r w out => ∃ rest, w = c :: rest ∧ K r rest out

/-- One symbol of the class `p`, gathered by `push`. -/
def one (p : β → Bool) (push : ρ → β → ρ) (K : Rule ρ β) : Rule ρ β := fun r w out =>
  ∃ c rest, w = c :: rest ∧ p c = true ∧ K (push r c) rest out

/-- Any number of symbols of the class `p`, gathered by `push`, and the terminator `t`. -/
def field (p : β → Bool) (t : β) (push : ρ → β → ρ) (K : Rule ρ β) : Rule ρ β := fun r w out =>
  ∃ v rest, w = v ++ t :: rest ∧ (∀ b ∈ v, p b = true) ∧ K (v.foldl push r) rest out

/-- As many symbols of the class `p` as there are, not gathered. -/
def skip (p : β → Bool) (K : Rule ρ β) : Rule ρ β := fun r w out =>
  ∃ v rest, w = v ++ rest ∧ (∀ b ∈ v, p b = true) ∧ (∀ b ∈ rest.head?, p b = false) ∧ K r rest out

def guard (P : ρ → Prop) (K : Rule ρ β) : Rule ρ β := fun r w out => P r ∧ K r w out

def Live (K : Rule ρ β) : Prop := ∀ r, ∃ w out, K r w out

section Derivative
variable {K : Rule ρ β} {p : β → Bool} {push : ρ → β → ρ} {c b : β} {r out : ρ} {w : List β}

@[simp] theorem not_lit_nil : ¬ lit c K r [] out := by simp [lit]

@[simp] theorem lit_cons : lit c K r (b :: w) out ↔ b = c ∧ K r w out := by
  constructor
  · rintro ⟨rest, he, hK⟩
    obtain ⟨rfl, rfl⟩ := List.cons.inj he
    exact ⟨rfl, hK⟩
  · rintro ⟨rfl, hK⟩
    exact ⟨w, rfl, hK⟩

@[simp] theorem not_one_nil : ¬ one p push K r [] out := by simp [one]

@[simp] theorem one_cons : one p push K r (b :: w) out ↔ p b = true ∧ K (push r b) w out := by
  constructor
  · rintro ⟨c, rest, he, hp, hK⟩
    obtain ⟨rfl, rfl⟩ := List.cons.inj he
    exact ⟨hp, hK⟩
  · rintro ⟨hp, hK⟩
    exact ⟨b, w, rfl, hp, hK⟩

@[simp] theorem not_field_nil : ¬ field p c push K r [] out := by
  rintro ⟨v, rest, he, -⟩
  cases v <;> simp at he

/-- The terminator is not of the class, so the first symbol settles which part it belongs to. -/
theorem field_cons (hc : p c = false) :
    field p c push K r (b :: w) out ↔
      (b = c ∧ K r w out) ∨ (p b = true ∧ field p c push K (push r b) w out) := by
  constructor
  · rintro ⟨v, rest, he, hv, hK⟩
    cases v with
    | nil =>
      obtain ⟨rfl, rfl⟩ := List.cons.inj he
      exact Or.inl ⟨rfl, hK⟩
    | cons a v =>
      obtain ⟨rfl, rfl⟩ := List.cons.inj he
      exact Or.inr ⟨hv b List.mem_cons_self, v, rest, rfl,
        fun x hx => hv x (List.mem_cons_of_mem b hx), hK⟩
  · intro h
    rcases h with ⟨rfl, hK⟩ | ⟨hp, v, rest, rfl, hv, hK⟩
    · exact ⟨[], w, rfl, by simp, hK⟩
    · refine ⟨b :: v, rest, rfl, ?_, hK⟩
      intro x hx
      rcases List.mem_cons.mp hx with rfl | hx
      · exact hp
      · exact hv x hx

theorem skip_nil : skip p K r [] out ↔ K r [] out := by
  constructor
  · rintro ⟨v, rest, he, -, -, hK⟩
    obtain ⟨rfl, rfl⟩ := List.append_eq_nil_iff.mp he.symm
    exact hK
  · intro hK
    exact ⟨[], [], rfl, by simp, by simp, hK⟩

theorem skip_cons_of_pos (hb : p b = true) : skip p K r (b :: w) out ↔ skip p K r w out := by
  constructor
  · rintro ⟨v, rest, he, hv, hrest, hK⟩
    cases v with
    | nil =>
      obtain rfl : b :: w = rest := he
      exact absurd (hrest b (by simp)) (by simp [hb])
    | cons a v =>
      obtain ⟨rfl, rfl⟩ := List.cons.inj he
      exact ⟨v, rest, rfl, fun x hx => hv x (List.mem_cons_of_mem b hx), hrest, hK⟩
  · rintro ⟨v, rest, rfl, hv, hrest, hK⟩
    refine ⟨b :: v, rest, rfl, ?_, hrest, hK⟩
    intro x hx
    rcases List.mem_cons.mp hx with rfl | hx
    · exact hb
    · exact hv x hx

theorem skip_cons_of_neg (hb : p b = false) : skip p K r (b :: w) out ↔ K r (b :: w) out := by
  constructor
  · rintro ⟨v, rest, he, hv, -, hK⟩
    cases v with
    | nil =>
      obtain rfl : b :: w = rest := he
      exact hK
    | cons a v =>
      obtain ⟨rfl, -⟩ := List.cons.inj he
      exact absurd (hv b List.mem_cons_self) (by simp [hb])
  · intro hK
    exact ⟨[], b :: w, rfl, by simp, by simpa using hb, hK⟩

end Derivative

section Live
variable {K : Rule ρ β} {p : β → Bool} {push : ρ → β → ρ}

theorem Live.lit (hK : Live K) (c : β) : Live (lit c K) := by
  intro r
  obtain ⟨w, out, hw⟩ := hK r
  exact ⟨c :: w, out, w, rfl, hw⟩

theorem Live.one (hK : Live K) {c : β} (hc : p c = true) : Live (one p push K) := by
  intro r
  obtain ⟨w, out, hw⟩ := hK (push r c)
  exact ⟨c :: w, out, c, w, rfl, hc, hw⟩

theorem Live.field (hK : Live K) (t : β) : Live (field p t push K) := by
  intro r
  obtain ⟨w, out, hw⟩ := hK r
  exact ⟨t :: w, out, [], w, rfl, by simp, hw⟩

end Live

end AsioExamples.Grammar
