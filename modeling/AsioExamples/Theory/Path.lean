import Mathlib.Data.List.DropRight
import Mathlib.Data.List.Infix

/-!
# Paths as sequences of components

A path is split at its separators and walked component by component. A path without a
component that goes up stays below the place it starts from. Its extension is the text after
the last dot of the last component.
-/

namespace AsioExamples.Path

set_option autoImplicit false

universe u
variable {α : Type u}

theorem infix_of_mem_intercalate {sep c : List α} {cs : List (List α)} (h : c ∈ cs) :
    c <:+: sep.intercalate cs := by
  induction cs with
  | nil => cases h
  | cons d cs ih =>
    cases cs with
    | nil =>
      rw [List.intercalate_singleton]
      exact List.mem_singleton.mp h ▸ List.infix_rfl
    | cons e cs =>
      rw [List.intercalate_cons_cons]
      rcases List.mem_cons.mp h with rfl | h
      · rw [List.append_assoc]
        exact (List.prefix_append _ _).isInfix
      · exact (ih h).trans (List.suffix_append _ _).isInfix

/-- A pair of equal symbols in two words put together is in one of them, or is the last of the
first and the first of the second. -/
theorem pair_infix_append {d : α} {u v : List α} (h : [d, d] <:+: u ++ v) :
    [d, d] <:+: u ∨ [d, d] <:+: v ∨ (u.getLast? = some d ∧ v.head? = some d) := by
  obtain ⟨s, t, he⟩ := h
  rw [List.append_assoc] at he
  rcases List.append_eq_append_iff.mp he with ⟨x, rfl, hx⟩ | ⟨x, rfl, hx⟩
  · match x with
    | [] => exact .inr (.inl ⟨[], t, by simpa using hx⟩)
    | [a] =>
      obtain ⟨rfl, hv⟩ := List.cons.inj hx
      have hv : d :: t = v := hv
      exact .inr (.inr ⟨by simp, by rw [← hv]; rfl⟩)
    | a :: b :: x =>
      obtain ⟨rfl, hb⟩ := List.cons.inj hx
      obtain ⟨rfl, -⟩ := List.cons.inj hb
      exact .inl ⟨s, x, by simp⟩
  · exact .inr (.inl ⟨x, t, by rw [hx, List.append_assoc]⟩)

theorem exists_last_of_mem {a : α} {p : List α} (h : a ∈ p) :
    ∃ u v, p = u ++ a :: v ∧ a ∉ v := by
  obtain ⟨v, u, hp, hv⟩ := List.eq_append_cons_of_mem (List.mem_reverse.mpr h)
  refine ⟨u.reverse, v.reverse, ?_, by simpa using hv⟩
  rw [← List.reverse_reverse p, hp]
  simp

theorem suffix_append_iff {sep : α} {r p e : List α} (hp : sep ∈ p) (he : sep ∉ e) :
    e <:+ r ++ p ↔ e <:+ p := by
  constructor
  · intro h
    rcases List.suffix_or_suffix_of_suffix h (List.suffix_append r p) with h | h
    · exact h
    · exact absurd (h.subset hp) he
  · intro h
    exact h.trans (List.suffix_append r p)

variable [DecidableEq α]

theorem infix_of_mem_splitOn {sep : α} {p c : List α} (h : c ∈ p.splitOn sep) : c <:+: p := by
  have hp : [sep].intercalate (p.splitOn sep) = p := List.intercalate_splitOn ..
  exact hp ▸ infix_of_mem_intercalate h

/-- Walk the components from a place below the root, given by its names, the deepest first.
`none` means that the walk went up from the root. -/
def walk (dot : α) : List (List α) → List (List α) → Option (List (List α))
  | at_, [] => some at_
  | at_, c :: cs =>
    if c = [] ∨ c = [dot] then walk dot at_ cs
    else if c = [dot, dot] then
      match at_ with
      | [] => none
      | _ :: above => walk dot above cs
    else walk dot (c :: at_) cs

/-- Without a component that goes up, the walk ends at or below the place it starts from. -/
theorem walk_below (dot : α) {cs : List (List α)} (h : [dot, dot] ∉ cs) (at_ : List (List α)) :
    ∃ below, walk dot at_ cs = some (below ++ at_) := by
  induction cs generalizing at_ with
  | nil => exact ⟨[], rfl⟩
  | cons c cs ih =>
    obtain ⟨hc, hcs⟩ := not_or.mp (fun hm => h (List.mem_cons.mpr hm))
    unfold walk
    by_cases hstay : c = [] ∨ c = [dot]
    · rw [if_pos hstay]
      exact ih hcs at_
    · rw [if_neg hstay, if_neg (Ne.symm hc)]
      obtain ⟨below, hb⟩ := ih hcs (c :: at_)
      exact ⟨below ++ [c], by rw [hb, List.append_assoc, List.singleton_append]⟩

section Extension
variable {dot sep : α} {p e : List α}

/-- The text after the last dot, unless a separator comes after that dot. -/
def extension (dot sep : α) (p : List α) : List α :=
  let text := p.rtakeWhile (· != dot)
  if dot ∈ p ∧ sep ∉ text then text else []

theorem rtakeWhile_of_not_mem {u v : List α} (h : dot ∉ v) :
    (u ++ dot :: v).rtakeWhile (· != dot) = v := by
  have hv : ∀ c ∈ v.reverse, (c != dot) = true := by
    intro c hc
    have : c ≠ dot := by
      rintro rfl
      exact h (List.mem_reverse.mp hc)
    simpa using this
  unfold List.rtakeWhile
  rw [List.reverse_append, List.reverse_cons, List.append_assoc,
    List.takeWhile_append_of_pos hv]
  simp

theorem extension_of_last {u v : List α} (h : dot ∉ v) :
    extension dot sep (u ++ dot :: v) = if sep ∈ v then [] else v := by
  unfold extension
  rw [rtakeWhile_of_not_mem h]
  by_cases hsep : sep ∈ v
  · simp [hsep]
  · simp [hsep]

/-- A path has the extension exactly if it ends in a dot and the extension. -/
theorem extension_eq_iff (he : e ≠ []) (hdot : dot ∉ e) (hsep : sep ∉ e) :
    extension dot sep p = e ↔ dot :: e <:+ p := by
  constructor
  · intro h
    by_cases hp : dot ∈ p
    · obtain ⟨u, v, rfl, hv⟩ := exists_last_of_mem hp
      rw [extension_of_last hv] at h
      split at h
      · exact absurd h.symm he
      · exact ⟨u, by rw [h]⟩
    · unfold extension at h
      rw [if_neg (fun hx => hp hx.1)] at h
      exact absurd h.symm he
  · rintro ⟨u, rfl⟩
    rw [extension_of_last hdot, if_neg hsep]

end Extension

end AsioExamples.Path
