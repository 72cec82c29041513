import Mathlib.Data.List.Perm.Basic
import Mathlib.Logic.Function.Basic

/-!
# Objects with several owners

An object lives as long as it has an owner: who copies a pointer to it is one more, and with the
last the object goes. `Owned` says that the owners are those of a list, in which a pointer
stands as often as there are copies of it.
-/

namespace AsioExamples

set_option autoImplicit false

universe u

/-- The objects, each with the number of its owners. -/
structure Heap (α : Type u) where
  cells : Nat → Option (α × Nat)
  next : Nat

namespace Heap
variable {α : Type u}

def empty : Heap α := ⟨fun _ => none, 0⟩

def get (h : Heap α) (p : Nat) : Option α := (h.cells p).map Prod.fst

def owners (h : Heap α) (p : Nat) : Nat := (h.cells p).elim 0 Prod.snd

/-- The new object is at `h.next`. -/
def make (h : Heap α) (x : α) : Heap α :=
  ⟨Function.update h.cells h.next (some (x, 1)), h.next + 1⟩

def copy (h : Heap α) (p : Nat) : Heap α :=
  ⟨Function.update h.cells p ((h.cells p).map fun c => (c.1, c.2 + 1)), h.next⟩

def drop (h : Heap α) (p : Nat) : Heap α :=
  let cell := (h.cells p).bind fun c => if c.2 ≤ 1 then none else some (c.1, c.2 - 1)
  ⟨Function.update h.cells p cell, h.next⟩

def modify (h : Heap α) (p : Nat) (f : α → α) : Heap α :=
  ⟨Function.update h.cells p ((h.cells p).map fun c => (f c.1, c.2)), h.next⟩

structure Owned (h : Heap α) (pointers : List Nat) : Prop where
  counted : ∀ p, h.owners p = pointers.count p
  positive : ∀ p, (h.cells p).isSome → 0 < h.owners p
  fresh : ∀ p, h.next ≤ p → h.cells p = none

variable {h : Heap α} {pointers : List Nat} {p q : Nat} {x : α}

theorem owned_empty : (empty : Heap α).Owned [] := ⟨fun _ => rfl, nofun, fun _ _ => rfl⟩

theorem Owned.perm (ho : h.Owned pointers) {pointers' : List Nat}
    (hp : pointers.Perm pointers') : h.Owned pointers' :=
  ⟨fun p => (ho.counted p).trans (hp.count_eq p), ho.positive, ho.fresh⟩

/-- Whatever has an owner is there, and nothing else is. -/
theorem Owned.alive_iff (ho : h.Owned pointers) : (h.get p).isSome ↔ p ∈ pointers := by
  rw [← List.count_pos_iff, ← ho.counted]
  unfold get
  rw [Option.isSome_map]
  refine ⟨ho.positive p, fun hpos => ?_⟩
  cases hc : h.cells p with
  | none => simp [owners, hc] at hpos
  | some c => rfl

theorem Owned.lt_next (ho : h.Owned pointers) (hp : p ∈ pointers) : p < h.next := by
  by_contra hge
  have halive := ho.alive_iff.mpr hp
  rw [get, ho.fresh p (Nat.le_of_not_lt hge)] at halive
  cases halive

theorem cells_make (h : Heap α) (x : α) : (h.make x).cells h.next = some (x, 1) :=
  Function.update_self ..

theorem cells_make_of_ne (hp : p ≠ h.next) : (h.make x).cells p = h.cells p :=
  Function.update_of_ne hp ..

theorem get_make (h : Heap α) (x : α) : (h.make x).get h.next = some x := by
  unfold get
  rw [cells_make]
  rfl

theorem get_make_of_ne (hp : p ≠ h.next) : (h.make x).get p = h.get p := by
  unfold get
  rw [cells_make_of_ne hp]

theorem Owned.make (ho : h.Owned pointers) (x : α) :
    (h.make x).Owned (h.next :: pointers) := by
  have hnone : h.cells h.next = none := ho.fresh _ (Nat.le_refl _)
  refine ⟨fun p => ?_, fun p hp => ?_, fun p hp => ?_⟩
  · by_cases hne : p = h.next
    · subst hne
      have hzero := ho.counted h.next
      rw [owners, hnone] at hzero
      rw [owners, cells_make, List.count_cons_self, ← hzero]
      rfl
    · rw [owners, cells_make_of_ne hne, List.count_cons_of_ne (Ne.symm hne)]
      exact ho.counted p
  · by_cases hne : p = h.next
    · subst hne
      rw [owners, cells_make]
      exact Nat.one_pos
    · rw [cells_make_of_ne hne] at hp
      rw [owners, cells_make_of_ne hne]
      exact ho.positive p hp
  · have hlt : h.next < p := hp
    rw [cells_make_of_ne (Nat.ne_of_gt hlt)]
    exact ho.fresh p (Nat.le_of_lt hlt)

theorem get_copy (h : Heap α) (p q : Nat) : (h.copy p).get q = h.get q := by
  unfold get copy
  by_cases hq : q = p
  · subst hq
    simp [Function.comp_def]
  · simp [Function.update_of_ne hq]

theorem Owned.copy (ho : h.Owned pointers) (hp : p ∈ pointers) :
    (h.copy p).Owned (p :: pointers) := by
  obtain ⟨c, hc⟩ : ∃ c, h.cells p = some c := by
    have halive := ho.alive_iff.mpr hp
    unfold get at halive
    rw [Option.isSome_map] at halive
    exact Option.isSome_iff_exists.mp halive
  have hself : (h.copy p).cells p = some (c.1, c.2 + 1) := by simp [Heap.copy, hc]
  have hother : ∀ q, q ≠ p → (h.copy p).cells q = h.cells q :=
    fun q hq => Function.update_of_ne hq ..
  refine ⟨fun q => ?_, fun q hq => ?_, fun q hq => ?_⟩
  · by_cases hne : q = p
    · subst hne
      have hcount := ho.counted q
      rw [owners, hc] at hcount
      rw [owners, hself, List.count_cons_self, ← hcount]
      rfl
    · rw [owners, hother q hne, List.count_cons_of_ne (Ne.symm hne)]
      exact ho.counted q
  · by_cases hne : q = p
    · subst hne
      rw [owners, hself]
      exact Nat.succ_pos _
    · rw [hother q hne] at hq
      rw [owners, hother q hne]
      exact ho.positive q hq
  · have hne : q ≠ p := by
      rintro rfl
      rw [ho.fresh q hq] at hc
      cases hc
    rw [hother q hne]
    exact ho.fresh q hq

theorem get_drop_of_ne (hq : q ≠ p) : (h.drop p).get q = h.get q := by
  unfold get drop
  simp [Function.update_of_ne hq]

/-- An object that keeps an owner stays as it was. -/
theorem Owned.get_drop (ho : h.Owned pointers) (hq : q ∈ pointers.erase p) :
    (h.drop p).get q = h.get q := by
  by_cases hne : q = p
  · subst hne
    have hcount := ho.counted q
    have hpos := List.count_pos_iff.mpr hq
    rw [List.count_erase_self] at hpos
    unfold get drop
    cases hc : h.cells q with
    | none => simp
    | some c =>
      rw [owners, hc] at hcount
      have hmany : ¬ c.2 ≤ 1 := by
        have hcount : c.2 = pointers.count q := hcount
        omega
      simp [hmany]
  · exact get_drop_of_ne hne

theorem Owned.drop (ho : h.Owned pointers) (hp : p ∈ pointers) :
    (h.drop p).Owned (pointers.erase p) := by
  have hother : ∀ q, q ≠ p → (h.drop p).cells q = h.cells q :=
    fun q hq => Function.update_of_ne hq ..
  obtain ⟨c, hc⟩ : ∃ c, h.cells p = some c := by
    have halive := ho.alive_iff.mpr hp
    unfold get at halive
    rw [Option.isSome_map] at halive
    exact Option.isSome_iff_exists.mp halive
  have hself : (h.drop p).cells p = if c.2 ≤ 1 then none else some (c.1, c.2 - 1) := by
    simp [Heap.drop, hc]
  have hcount : c.2 = pointers.count p := by
    have hcount := ho.counted p
    rw [owners, hc] at hcount
    exact hcount
  have hpos : 0 < pointers.count p := List.count_pos_iff.mpr hp
  refine ⟨fun q => ?_, fun q hq => ?_, fun q hq => ?_⟩
  · by_cases hne : q = p
    · subst hne
      rw [List.count_erase_self, owners, hself]
      by_cases hone : c.2 ≤ 1
      · rw [if_pos hone]
        change 0 = _
        omega
      · rw [if_neg hone]
        change c.2 - 1 = _
        omega
    · rw [owners, hother q hne, List.count_erase_of_ne hne]
      exact ho.counted q
  · by_cases hne : q = p
    · subst hne
      rw [hself] at hq
      rw [owners, hself]
      by_cases hone : c.2 ≤ 1
      · rw [if_pos hone] at hq
        cases hq
      · rw [if_neg hone]
        change 0 < c.2 - 1
        omega
    · rw [hother q hne] at hq
      rw [owners, hother q hne]
      exact ho.positive q hq
  · have hne : q ≠ p := by
      rintro rfl
      rw [ho.fresh q hq] at hc
      cases hc
    rw [hother q hne]
    exact ho.fresh q hq

/-- The first pointer of the list goes. -/
theorem Owned.drop_head (ho : h.Owned (p :: pointers)) :
    (h.drop p).Owned pointers ∧ ∀ q ∈ pointers, (h.drop p).get q = h.get q := by
  have herase : (p :: pointers).erase p = pointers := List.erase_cons_head ..
  have hdrop := ho.drop List.mem_cons_self
  rw [herase] at hdrop
  refine ⟨hdrop, fun q hq => ho.get_drop ?_⟩
  rw [herase]
  exact hq

theorem Owned.drop_all {ps : List Nat} (ho : h.Owned (ps ++ pointers)) :
    (ps.foldl Heap.drop h).Owned pointers ∧
      ∀ q ∈ pointers, (ps.foldl Heap.drop h).get q = h.get q := by
  induction ps generalizing h with
  | nil => exact ⟨ho, fun _ _ => rfl⟩
  | cons p ps ih =>
    obtain ⟨hdrop, hkept⟩ := ho.drop_head
    obtain ⟨hrest, hkept'⟩ := ih hdrop
    exact ⟨hrest, fun q hq => (hkept' q hq).trans (hkept q (List.mem_append_right _ hq))⟩

theorem next_foldl_drop (h : Heap α) (ps : List Nat) : (ps.foldl Heap.drop h).next = h.next := by
  induction ps generalizing h with
  | nil => rfl
  | cons p ps ih => exact ih (h.drop p)

theorem get_make_of_mem (ho : h.Owned pointers) (hp : p ∈ pointers) :
    (h.make x).get p = h.get p := get_make_of_ne (Nat.ne_of_lt (ho.lt_next hp))

theorem get_modify_self {f : α → α} : (h.modify p f).get p = (h.get p).map f := by
  unfold get modify
  simp [Function.comp_def]

theorem get_modify_of_ne {f : α → α} (hq : q ≠ p) : (h.modify p f).get q = h.get q := by
  unfold get modify
  simp [Function.update_of_ne hq]

theorem Owned.modify (ho : h.Owned pointers) (p : Nat) (f : α → α) :
    (h.modify p f).Owned pointers := by
  have howners : ∀ q, (h.modify p f).owners q = h.owners q := by
    intro q
    unfold owners Heap.modify
    by_cases hq : q = p
    · subst hq
      cases h.cells q <;> simp
    · simp [Function.update_of_ne hq]
  have hsome : ∀ q, ((h.modify p f).cells q).isSome = (h.cells q).isSome := by
    intro q
    unfold Heap.modify
    by_cases hq : q = p
    · subst hq
      simp
    · simp [Function.update_of_ne hq]
  refine ⟨fun q => (howners q).trans (ho.counted q), fun q hq => ?_, fun q hq => ?_⟩
  · rw [howners]
    exact ho.positive q (hsome q ▸ hq)
  · have hnone := hsome q
    rw [ho.fresh q hq] at hnone
    exact Option.isNone_iff_eq_none.mp (Option.isSome_eq_false_iff.mp hnone)

/-- `h` has become `h'`, with the pointers of the list; the objects of `kept` are as they were. -/
structure Becomes (h : Heap α) (kept : List Nat) (h' : Heap α) (pointers : List Nat) : Prop where
  owned : h'.Owned pointers
  mem : ∀ r ∈ kept, r ∈ pointers
  same : ∀ r ∈ kept, h'.get r = h.get r

section Becomes
variable {h' : Heap α} {kept : List Nat}

theorem Owned.becomes (ho : h.Owned pointers) (hmem : ∀ r ∈ kept, r ∈ pointers) :
    h.Becomes kept h pointers := ⟨ho, hmem, fun _ _ => rfl⟩

theorem Becomes.perm (hb : h.Becomes kept h' pointers) {pointers' : List Nat}
    (hp : pointers.Perm pointers') : h.Becomes kept h' pointers' :=
  ⟨hb.owned.perm hp, fun r hr => hp.mem_iff.mp (hb.mem r hr), hb.same⟩

theorem Becomes.make (hb : h.Becomes kept h' pointers) (x : α) :
    h.Becomes kept (h'.make x) (h'.next :: pointers) :=
  ⟨hb.owned.make x, fun r hr => List.mem_cons_of_mem _ (hb.mem r hr),
    fun r hr => (get_make_of_mem hb.owned (hb.mem r hr)).trans (hb.same r hr)⟩

theorem Becomes.copy (hb : h.Becomes kept h' pointers) (hp : p ∈ pointers) :
    h.Becomes kept (h'.copy p) (p :: pointers) :=
  ⟨hb.owned.copy hp, fun r hr => List.mem_cons_of_mem _ (hb.mem r hr),
    fun r hr => (get_copy h' p r).trans (hb.same r hr)⟩

theorem Becomes.drop (hb : h.Becomes kept h' (p :: pointers)) (hmem : ∀ r ∈ kept, r ∈ pointers) :
    h.Becomes kept (h'.drop p) pointers := by
  obtain ⟨hdrop, hsame⟩ := hb.owned.drop_head
  exact ⟨hdrop, hmem, fun r hr => (hsame r (hmem r hr)).trans (hb.same r hr)⟩

theorem Becomes.modify (hb : h.Becomes kept h' pointers) (hp : p ∉ kept) (f : α → α) :
    h.Becomes kept (h'.modify p f) pointers :=
  ⟨hb.owned.modify p f, hb.mem, fun r hr =>
    (get_modify_of_ne (ne_of_mem_of_not_mem hr hp)).trans (hb.same r hr)⟩

end Becomes

end Heap

end AsioExamples
