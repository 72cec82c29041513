import Mathlib.Data.List.Perm.Basic
import Mathlib.Order.Interval.Finset.Nat

/-!
# Taking turns

The items of a list are taken in turn, over and over. As many turns as there are items take each
of them once, from wherever one starts; so no item is ever more than one turn ahead of another.
-/

namespace AsioExamples.Rotation

set_option autoImplicit false

universe u

variable {α : Type u} {items : List α}

/-- The place after `i`, among `n`. -/
def nextPlace (n i : Nat) : Nat := if i + 1 = n then 0 else i + 1

theorem nextPlace_mod {n : Nat} (h : 0 < n) (k : Nat) : nextPlace n (k % n) = (k + 1) % n := by
  have hlt : k % n < n := Nat.mod_lt k h
  rw [← Nat.mod_add_mod]
  unfold nextPlace
  split
  · next hend => rw [hend, Nat.mod_self]
  · next hend => exact (Nat.mod_eq_of_lt (by omega)).symm

/-- Whose turn it is. -/
def turn (items : List α) (k : Nat) : Option α := items[k % items.length]?

/-- The items of `m` turns. -/
def turns (items : List α) (first m : Nat) : List α :=
  (List.range' first m).filterMap (turn items)

theorem turns_add (first m m' : Nat) :
    turns items first (m + m') = turns items first m ++ turns items (first + m) m' := by
  unfold turns
  rw [← List.range'_append_1, List.filterMap_append]

theorem turns_isPrefix (first : Nat) {m m' : Nat} (h : m ≤ m') :
    turns items first m <+: turns items first m' := by
  obtain ⟨r, rfl⟩ := Nat.exists_eq_add_of_le h
  rw [turns_add]
  exact List.prefix_append _ _

theorem turns_succ (first m : Nat) :
    turns items first (m + 1) = turns items first m ++ (turn items (first + m)).toList := by
  rw [turns_add]
  cases h : turn items (first + m) <;> simp [turns, h]

theorem turns_eq_map (h : items ≠ []) :
    ∃ f : Nat → α, (∀ k, turn items k = some (f k)) ∧
      ∀ first m, turns items first m = (List.range' first m).map f := by
  have hlt : ∀ k, k % items.length < items.length :=
    fun k => Nat.mod_lt k (List.length_pos_iff.mpr h)
  have hturn : turn items = some ∘ fun k => items.get ⟨k % items.length, hlt k⟩ :=
    funext fun k => List.getElem?_eq_getElem (hlt k)
  refine ⟨fun k => items.get ⟨k % items.length, hlt k⟩, congrFun hturn, fun first m => ?_⟩
  unfold turns
  rw [hturn, List.filterMap_eq_map]

theorem length_turns (h : items ≠ []) (first m : Nat) : (turns items first m).length = m := by
  obtain ⟨f, -, hf⟩ := turns_eq_map h
  rw [hf, List.length_map, List.length_range']

theorem getElem?_turns (h : items ≠ []) (first : Nat) {k m : Nat} (hk : k < m) :
    (turns items first m)[k]? = turn items (first + k) := by
  obtain ⟨f, hturn, hf⟩ := turns_eq_map h
  rw [hf, List.getElem?_map, List.getElem?_range' hk, Nat.one_mul, hturn]
  rfl

/-- Turns out of the middle of others. -/
theorem take_drop_turns (h : items ≠ []) (first : Nat) {k l m : Nat} (hle : k + l ≤ m) :
    ((turns items first m).drop k).take l = turns items (first + k) l := by
  obtain ⟨r, rfl⟩ := Nat.exists_eq_add_of_le hle
  rw [turns_add, turns_add, List.append_assoc, List.drop_left' (length_turns h _ _),
    List.take_left' (length_turns h _ _)]

theorem filterMap_getElem?_range (items : List α) :
    (List.range items.length).filterMap (fun i => items[i]?) = items := by
  induction items with
  | nil => rfl
  | cons a items ih =>
    rw [List.length_cons, List.range_succ_eq_map, List.filterMap_cons, List.filterMap_map]
    exact congrArg (List.cons a) ih

/-- A round takes each item once, wherever it starts. -/
theorem turns_round_perm (items : List α) (first : Nat) :
    (turns items first items.length).Perm items := by
  have hplaces : ((List.range' first items.length).map (· % items.length)).Perm
      (List.range items.length) := by
    have hplace : Multiset.Ico first (first + items.length) =
        (List.range' first items.length : Multiset Nat) := by
      rw [Multiset.Ico, Nat.Ico_eq_range', Nat.add_sub_cancel_left]
    have hmod := Nat.multiset_Ico_map_mod first items.length
    rw [hplace] at hmod
    exact Multiset.coe_eq_coe.mp hmod
  have hround := hplaces.filterMap fun i => items[i]?
  rw [List.filterMap_map, filterMap_getElem?_range] at hround
  exact hround

section Counts
variable [DecidableEq α]

theorem count_turns_rounds (hnodup : items.Nodup) {a : α} (ha : a ∈ items) (first q r : Nat) :
    (turns items first (q * items.length + r)).count a =
      q + (turns items (first + q * items.length) r).count a := by
  induction q generalizing first with
  | zero => simp
  | succ q ih =>
    have hsplit : (q + 1) * items.length + r = items.length + (q * items.length + r) := by
      rw [Nat.succ_mul]
      omega
    have hround : (turns items first items.length).count a = 1 := by
      rw [(turns_round_perm items first).count_eq]
      exact List.count_eq_one_of_mem hnodup ha
    have hfirst : first + items.length + q * items.length = first + (q + 1) * items.length := by
      rw [Nat.succ_mul]
      omega
    rw [hsplit, turns_add, List.count_append, hround, ih, hfirst]
    omega

/-- Each item has had as many turns as there were rounds, and perhaps one in the last. -/
theorem count_turns (hnodup : items.Nodup) {a : α} (ha : a ∈ items) (first m : Nat) :
    m / items.length ≤ (turns items first m).count a ∧
      (turns items first m).count a ≤ m / items.length + 1 := by
  have hpos : 0 < items.length := List.length_pos_of_mem ha
  have hm : m / items.length * items.length + m % items.length = m := Nat.div_add_mod' m _
  have hcount := count_turns_rounds hnodup ha first (m / items.length) (m % items.length)
  have hlast : (turns items (first + m / items.length * items.length)
      (m % items.length)).count a ≤ 1 := by
    have hround := turns_round_perm items (first + m / items.length * items.length)
    apply ((turns_isPrefix _ (Nat.mod_lt m hpos).le).sublist.count_le a).trans
    exact List.nodup_iff_count_le_one.mp (hround.nodup_iff.mpr hnodup) a
  rw [hm] at hcount
  omega

/-- Items are taken in turn from the first on. -/
structure Fair (items taken : List α) : Prop where
  in_turn : ∀ k < taken.length, taken[k]? = items[k % items.length]?
  window : ∀ k, k + items.length ≤ taken.length →
    ((taken.drop k).take items.length).Perm items
  even : ∀ a ∈ items, ∀ b ∈ items, taken.count a ≤ taken.count b + 1

theorem fair_turns (hnodup : items.Nodup) (h : items ≠ []) (m : Nat) :
    Fair items (turns items 0 m) where
  in_turn := by
    intro k hk
    rw [length_turns h] at hk
    rw [getElem?_turns h 0 hk, Nat.zero_add]
    rfl
  window := by
    intro k hk
    rw [length_turns h] at hk
    rw [take_drop_turns h 0 hk]
    exact turns_round_perm items _
  even := by
    intro a ha b hb
    exact (count_turns hnodup ha 0 m).2.trans
      (Nat.succ_le_succ (count_turns hnodup hb 0 m).1)

end Counts

end AsioExamples.Rotation
