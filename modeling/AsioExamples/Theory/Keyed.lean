import Mathlib.Data.List.Nodup
import Mathlib.Data.List.Perm.Basic

/-!
# Entries under keys

A list of entries, no two of which are to share a key: entries come in under new keys and are
taken out by key.
-/

namespace AsioExamples.Keyed

set_option autoImplicit false

universe u v

variable {α : Type u} {κ : Type v} (key : α → κ)

def Distinct (l : List α) : Prop := (l.map key).Nodup

def Used (k : κ) (l : List α) : Prop := ∃ x ∈ l, key x = k

instance [DecidableEq κ] (k : κ) (l : List α) : Decidable (Used key k l) :=
  inferInstanceAs (Decidable (∃ x ∈ l, key x = k))

/-- Takes the first entry under the key out. -/
def without [DecidableEq κ] (k : κ) (l : List α) : List α := l.eraseP fun x => key x = k

variable {key}

@[simp] theorem distinct_nil : Distinct key ([] : List α) := List.nodup_nil

@[simp] theorem not_used_nil {k : κ} : ¬ Used key k ([] : List α) := by
  rintro ⟨x, hx, -⟩
  exact List.not_mem_nil hx

@[simp] theorem used_concat {k : κ} {l : List α} {x : α} :
    Used key k (l ++ [x]) ↔ Used key k l ∨ key x = k := by
  constructor
  · rintro ⟨y, hy, rfl⟩
    rcases List.mem_append.mp hy with hy | hy
    · exact .inl ⟨y, hy, rfl⟩
    · exact .inr (by rw [List.mem_singleton.mp hy])
  · rintro (⟨y, hy, rfl⟩ | rfl)
    · exact ⟨y, List.mem_append_left _ hy, rfl⟩
    · exact ⟨x, List.mem_append_right _ (List.mem_singleton_self x), rfl⟩

theorem Distinct.concat {l : List α} {x : α} (h : Distinct key l) (hx : ¬ Used key (key x) l) :
    Distinct key (l ++ [x]) := by
  unfold Distinct
  rw [List.map_append]
  apply h.append (List.nodup_singleton _)
  intro k hk hk'
  obtain ⟨y, hy, rfl⟩ := List.mem_map.mp hk
  exact hx ⟨y, hy, List.mem_singleton.mp hk'⟩

theorem Distinct.eq {l : List α} (h : Distinct key l) {x y : α} (hx : x ∈ l) (hy : y ∈ l)
    (hkey : key x = key y) : x = y :=
  List.inj_on_of_nodup_map h hx hy hkey

section Without
variable [DecidableEq κ]

theorem Distinct.without {l : List α} (h : Distinct key l) (k : κ) :
    Distinct key (Keyed.without key k l) :=
  h.sublist (List.eraseP_sublist.map key)

theorem Distinct.mem_without {l : List α} (h : Distinct key l) {k : κ} {x : α} :
    x ∈ Keyed.without key k l ↔ x ∈ l ∧ key x ≠ k := by
  induction l with
  | nil => simp [Keyed.without]
  | cons y l ih =>
    have hl : Distinct key l := List.Nodup.of_cons h
    have hy : ∀ z ∈ l, key z ≠ key y := by
      intro z hz hzy
      apply (List.nodup_cons.mp h).1
      rw [← hzy]
      exact List.mem_map_of_mem hz
    by_cases hk : key y = k
    · have hout : Keyed.without key k (y :: l) = l := List.eraseP_cons_of_pos (by simpa using hk)
      rw [hout]
      constructor
      · intro hx
        exact ⟨List.mem_cons_of_mem _ hx, hk ▸ hy x hx⟩
      · rintro ⟨hx, hne⟩
        rcases List.mem_cons.mp hx with rfl | hx
        · exact absurd hk hne
        · exact hx
    · have hout : Keyed.without key k (y :: l) = y :: Keyed.without key k l :=
        List.eraseP_cons_of_neg (by simpa using hk)
      rw [hout, List.mem_cons, List.mem_cons, ih hl]
      constructor
      · rintro (rfl | ⟨hx, hne⟩)
        · exact ⟨.inl rfl, hk⟩
        · exact ⟨.inr hx, hne⟩
      · rintro ⟨rfl | hx, hne⟩
        · exact .inl rfl
        · exact .inr ⟨hx, hne⟩

theorem Distinct.used_without {l : List α} (h : Distinct key l) {k k' : κ} :
    Used key k' (Keyed.without key k l) ↔ Used key k' l ∧ k' ≠ k := by
  constructor
  · rintro ⟨x, hx, rfl⟩
    obtain ⟨hx, hne⟩ := h.mem_without.mp hx
    exact ⟨⟨x, hx, rfl⟩, hne⟩
  · rintro ⟨⟨x, hx, rfl⟩, hne⟩
    exact ⟨x, h.mem_without.mpr ⟨hx, hne⟩, rfl⟩

end Without

end AsioExamples.Keyed
