import AsioExamples.Duff.Copy

/-!
# What a copy leaves at its destination

`from` moves and `to` does not, so every byte goes to the first place of the destination. The
destination holds a copy afterwards only if it nearly did before.
-/

namespace AsioExamples.Duff

set_option autoImplicit false

open Unrolled

/-- The destination after the stores, if all of them are inside it. -/
def applyStores (dest : Bytes) (stores : List (Nat × UInt8)) : Option Bytes :=
  stores.foldlM (fun d store => if store.1 < d.length then some (d.set store.1 store.2) else none)
    dest

/-- The first `n` bytes of the destination are those of the source, the others are as they were,
and nothing else is read. -/
def Copies (source dest : Bytes) (n : Nat) (result : Option Effects) : Prop :=
  ∃ e, result = some e ∧ applyStores dest e.stores = some (source.take n ++ dest.drop n) ∧
    ∀ i ∈ e.reads, i < n

section Stores

theorem applyStores_first (d : UInt8) (ds cs : Bytes) :
    applyStores (d :: ds) (cs.map fun c => (0, c)) = some (cs.getLast?.getD d :: ds) := by
  induction cs generalizing d with
  | nil => rfl
  | cons c cs ih =>
    have hstore : applyStores (d :: ds) ((c :: cs).map fun c => (0, c)) =
        applyStores (c :: ds) (cs.map fun c => (0, c)) := by
      unfold applyStores
      rw [List.map_cons, List.foldlM_cons, if_pos (by simp)]
      rfl
    rw [hstore, ih, List.getLast?_cons]
    rfl

theorem getLast?_take_succ {source : Bytes} {m : Nat} (h : m < source.length) :
    (source.take (m + 1)).getLast? = source[m]? := by
  rw [List.take_succ_eq_append_getElem h, List.getLast?_concat, List.getElem?_eq_getElem h]

theorem take_append_drop_eq_iff {as ds : Bytes} {m : Nat} (ha : m ≤ as.length) :
    as.take m ++ ds.drop m = ds ↔ ∀ i < m, ds[i]? = as[i]? := by
  constructor
  · intro h i hi
    rw [← h, List.getElem?_append_left (by rw [List.length_take]; omega),
      List.getElem?_take_of_lt hi]
  · intro h
    apply List.ext_getElem?
    intro i
    by_cases hi : i < m
    · rw [List.getElem?_append_left (by rw [List.length_take]; omega),
        List.getElem?_take_of_lt hi, h i hi]
    · rw [List.getElem?_append_right (by rw [List.length_take]; omega), List.length_take,
        List.getElem?_drop]
      congr 1
      omega

/-- The plain loop copies if the last byte is the first and the rest is there already. -/
theorem copies_plainLoop_iff {source dest : Bytes} {n : Nat} (hpos : 0 < n)
    (hsource : n ≤ source.length) (hdest : n ≤ dest.length) :
    Copies source dest n (plainLoop source n) ↔
      source[n - 1]? = source[0]? ∧ ∀ i, 1 ≤ i → i < n → dest[i]? = source[i]? := by
  obtain ⟨m, rfl⟩ : ∃ m, n = m + 1 := ⟨n - 1, by omega⟩
  cases source with
  | nil => exact absurd hsource (by simp)
  | cons a as =>
    cases dest with
    | nil => exact absurd hdest (by simp)
    | cons d ds =>
      have has : m ≤ as.length := Nat.le_of_succ_le_succ hsource
      have hlast : ((a :: as).take (m + 1)).getLast? = (a :: as)[m]? :=
        getLast?_take_succ (Nat.lt_succ_of_le has)
      have hsome : (a :: as)[m]?.getD d = a ↔ (a :: as)[m]? = some a := by
        rw [List.getElem?_eq_getElem (Nat.lt_succ_of_le has)]
        simp
      have hrest : (∀ i, 1 ≤ i → i < m + 1 → (d :: ds)[i]? = (a :: as)[i]?) ↔
          ∀ i < m, ds[i]? = as[i]? := by
        constructor
        · intro h i hi
          exact h (i + 1) (by omega) (by omega)
        · intro h i hi him
          obtain ⟨j, rfl⟩ : ∃ j, i = j + 1 := ⟨i - 1, by omega⟩
          exact h j (by omega)
      have hdone : Copies (a :: as) (d :: ds) (m + 1) (plainLoop (a :: as) (m + 1)) ↔
          applyStores (d :: ds) (((a :: as).take (m + 1)).map fun c => (0, c)) =
            some (a :: (as.take m ++ ds.drop m)) := by
        rw [plainLoop_eq, if_pos hsource]
        constructor
        · rintro ⟨e, he, hstores, -⟩
          obtain rfl := Option.some.inj he
          exact hstores
        · intro hstores
          exact ⟨_, rfl, hstores, fun i hi => List.mem_range.mp hi⟩
      rw [hdone, applyStores_first, hlast, hrest, Option.some.injEq, List.cons.injEq, hsome,
        eq_comm (a := ds), take_append_drop_eq_iff has]
      rfl

end Stores

section Boundaries
variable {source : Bytes}

theorem reads_subset_of_repeated {k : Nat} {s s' : State}
    (h : repeated (statement source) k s = some s') : s.reads ⊆ s'.reads := by
  apply repeated_invariant (P := fun x => s.reads ⊆ x.reads) ?_ h (List.Subset.refl _)
  intro x x' hx hsub
  obtain ⟨c, -, rfl⟩ := Option.map_eq_some_iff.mp hx
  exact List.subset_append_of_subset_left _ hsub

theorem reads_subset_of_loop {again : Int → Bool} {n : Int} {s s' : State}
    (h : loop again source n s = some s') : s.reads ⊆ s'.reads := by
  induction n, s using loop.induct again source with
  | case1 n s hn =>
    rw [loop, hn] at h
    cases h
  | case2 n s n' hn hagain hround =>
    rw [loop, hn] at h
    simp only [hagain, if_true] at h
    split at h
    · cases h
    · rename_i heq
      rw [hround] at heq
      cases heq
  | case3 n s n' hn hagain t hround ih =>
    rw [loop, hn] at h
    simp only [hagain, if_true] at h
    split at h
    · cases h
    · rename_i heq
      obtain rfl := Option.some.inj (hround.symm.trans heq)
      exact List.Subset.trans (reads_subset_of_repeated hround) (ih h)
  | case4 n s n' hn hagain =>
    rw [loop, hn] at h
    simp only [hagain] at h
    obtain rfl := Option.some.inj h
    exact List.Subset.refl _

/-- Once the switch is entered, the first byte is read. -/
theorem zero_mem_reads {again : Int → Bool} {k : Nat} {n : Int} {t s : State}
    (hentered : repeated (statement source) (k + 1) State.start = some t)
    (hloop : loop again source n t = some s) : 0 ∈ s.reads := by
  apply reads_subset_of_loop hloop
  rw [repeated_start] at hentered
  split at hentered
  · obtain rfl := Option.some.inj hentered
    exact List.mem_range.mpr (Nat.succ_pos k)
  · cases hentered

theorem zero_mem_reads_copy {e : Effects} (h : copy source 0 = some e) : 0 ∈ e.reads := by
  unfold copy at h
  obtain ⟨sum, -, h⟩ := Option.bind_eq_some_iff.mp h
  obtain ⟨t, ht, h⟩ := Option.bind_eq_some_iff.mp h
  obtain ⟨s, hs, h⟩ := Option.bind_eq_some_iff.mp h
  obtain rfl := Option.some.inj h
  exact zero_mem_reads ht hs

theorem zero_mem_reads_copy2 {e : Effects} (h : copy2 source 0 = some e) : 0 ∈ e.reads := by
  unfold copy2 at h
  obtain ⟨sum, -, h⟩ := Option.bind_eq_some_iff.mp h
  obtain ⟨t, ht, h⟩ := Option.bind_eq_some_iff.mp h
  obtain ⟨s, hs, h⟩ := Option.bind_eq_some_iff.mp h
  obtain rfl := Option.some.inj h
  exact zero_mem_reads ht hs

theorem not_copies_zero {dest : Bytes} {result : Option Effects}
    (h : ∀ e, result = some e → 0 ∈ e.reads) : ¬ Copies source dest 0 result := by
  rintro ⟨e, he, -, hreads⟩
  exact Nat.not_lt_zero 0 (hreads 0 (h e he))

theorem copies_none {dest : Bytes} {n : Nat} : ¬ Copies source dest n none := by
  rintro ⟨e, he, -⟩
  cases he

theorem sum_overflows {count : Int} (h : ¬ count ≤ intMax - 7) : checkedInt (count + 7) = none := by
  apply if_neg
  omega

theorem copy_overflows {count : Int} (h : ¬ count ≤ intMax - 7) : copy source count = none := by
  unfold copy
  rw [sum_overflows h]
  rfl

theorem copy2_overflows {count : Int} (h : ¬ count ≤ intMax - 7) : copy2 source count = none := by
  unfold copy2
  rw [sum_overflows h]
  rfl

end Boundaries

/-- The last byte that goes to the first place is the right one, and the other places hold their
bytes before the call. -/
def HeldAlready (source dest : Bytes) (count : Int) : Prop :=
  1 ≤ count ∧ count ≤ intMax - 7 ∧ source[count.toNat - 1]? = source[0]? ∧
    ∀ i, 1 ≤ i → i < count.toNat → dest[i]? = source[i]?

/-- What holds of both copies: they agree with the plain loop inside the range of `int`, have no
result beyond it, and read a byte even for a count of 0. -/
theorem copies_iff_heldAlready {source dest : Bytes} {count : Int} {result : Option Effects}
    (hnonneg : 0 ≤ count) (hsource : count ≤ source.length) (hdest : count ≤ dest.length)
    (hplain : 0 < count → count ≤ intMax - 7 → result = plainLoop source count.toNat)
    (hover : ¬ count ≤ intMax - 7 → result = none)
    (hzero : count = 0 → ∀ e, result = some e → 0 ∈ e.reads) :
    Copies source dest count.toNat result ↔ HeldAlready source dest count := by
  unfold HeldAlready
  by_cases hmax : count ≤ intMax - 7
  · by_cases hpos : 0 < count
    · rw [hplain hpos hmax, copies_plainLoop_iff (by omega) (by omega) (by omega)]
      constructor
      · exact fun h => ⟨hpos, hmax, h⟩
      · exact fun h => h.2.2
    · obtain rfl : count = 0 := by omega
      constructor
      · exact fun h => absurd h (not_copies_zero (hzero rfl))
      · exact fun h => absurd h.1 hpos
  · rw [hover hmax]
    constructor
    · exact fun h => absurd h copies_none
    · exact fun h => absurd h.2.1 hmax

/-- Neither copy copies but what its destination nearly held. -/
theorem copies_only_what_is_held (source dest : Bytes) {count : Int} (hnonneg : 0 ≤ count)
    (hsource : count ≤ source.length) (hdest : count ≤ dest.length) :
    (Copies source dest count.toNat (copy source count) ↔ HeldAlready source dest count) ∧
      (Copies source dest count.toNat (copy2 source count) ↔ HeldAlready source dest count) := by
  obtain ⟨n, rfl⟩ := Int.eq_ofNat_of_zero_le hnonneg
  constructor
  · apply copies_iff_heldAlready hnonneg hsource hdest
    · exact fun hpos hmax => copy_eq_plainLoop (by omega) hmax
    · exact copy_overflows
    · intro hzero e he
      rw [hzero] at he
      exact zero_mem_reads_copy he
  · apply copies_iff_heldAlready hnonneg hsource hdest
    · exact fun hpos hmax => copy2_eq_plainLoop (by omega) hmax
    · exact copy2_overflows
    · intro hzero e he
      rw [hzero] at he
      exact zero_mem_reads_copy2 he

theorem copies_only_what_is_held_three :
    (Copies (str "aba") [0, 98, 97, 1] 3 (copy (str "aba") 3) ↔
        HeldAlready (str "aba") [0, 98, 97, 1] 3) ∧
      (Copies (str "aba") [0, 98, 97, 1] 3 (copy2 (str "aba") 3) ↔
        HeldAlready (str "aba") [0, 98, 97, 1] 3) :=
  copies_only_what_is_held (str "aba") [0, 98, 97, 1] (by decide) (by decide) (by decide)

/-- Two different bytes over a blank destination. -/
theorem copies_lose_bytes :
    ¬ Copies (str "ab") [0, 0] 2 (copy (str "ab") 2) ∧
      ¬ Copies (str "ab") [0, 0] 2 (copy2 (str "ab") 2) := by
  have hplain : ¬ Copies (str "ab") [0, 0] 2 (plainLoop (str "ab") 2) := by
    rw [copies_plainLoop_iff (by decide) (by decide) (by decide)]
    rintro ⟨hlast, -⟩
    revert hlast
    decide
  have hcopy : copy (str "ab") (2 : Nat) = plainLoop (str "ab") 2 :=
    copy_eq_plainLoop (by decide) (by decide)
  have hcopy2 : copy2 (str "ab") (2 : Nat) = plainLoop (str "ab") 2 :=
    copy2_eq_plainLoop (by decide) (by decide)
  rw [← hcopy] at hplain
  refine ⟨hplain, ?_⟩
  rw [hcopy, ← hcopy2] at hplain
  exact hplain

end AsioExamples.Duff
