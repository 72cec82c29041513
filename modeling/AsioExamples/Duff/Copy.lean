import AsioExamples.Bytes
import AsioExamples.Theory.Unrolled
import Mathlib.Data.List.TakeDrop

/-!
# Copies in eight steps a round

Both copies enter a body of eight equal statements in its middle. What is undefined in the
source, a read past the buffer or an `int` out of range, has no result here.
-/

namespace AsioExamples.Duff

set_option autoImplicit false

open Unrolled

/-- The largest `int`. -/
def intMax : Int := 2147483647

def checkedInt (v : Int) : Option Int :=
  if -2147483648 ≤ v ∧ v ≤ intMax then some v else none

theorem checkedInt_of_nat {v : Nat} (h : (v : Int) ≤ intMax) : checkedInt v = some (v : Int) := by
  apply if_pos
  omega

/-- The bytes of `from` that are read and what is stored, where `to` counts as offset 0. -/
structure Effects where
  reads : List Nat
  stores : List (Nat × UInt8)
deriving DecidableEq

namespace Effects

def none : Effects := ⟨[], []⟩

def record (e : Effects) (i : Nat) (c : UInt8) : Effects :=
  ⟨e.reads ++ [i], e.stores ++ [(0, c)]⟩

end Effects

structure State extends Effects where
  /-- How far `from` has come. -/
  pos : Nat
deriving DecidableEq

def State.start : State := ⟨Effects.none, 0⟩

/-- `*to = *from++` -/
def statement (source : Bytes) (s : State) : Option State :=
  source[s.pos]?.map fun c => ⟨s.toEffects.record s.pos c, s.pos + 1⟩

/-- The labels of the switch, one before each of its statements. -/
def labels : List Int := [0, 7, 6, 5, 4, 3, 2, 1]

/-- The statements from the label on, none if there is no such label. -/
def fallThrough (label : Int) : Nat := (labels.dropWhile (· != label)).length

theorem lt_pos_of_repeated {source : Bytes} {k : Nat} {s s' : State}
    (h : repeated (statement source) (k + 1) s = some s') :
    s.pos < s'.pos ∧ s.pos < source.length := by
  obtain ⟨t, ht, hrest⟩ := Option.bind_eq_some_iff.mp h
  obtain ⟨c, hc, rfl⟩ := Option.map_eq_some_iff.mp ht
  refine ⟨?_, (List.getElem?_eq_some_iff.mp hc).1⟩
  apply repeated_invariant (P := fun x => s.pos < x.pos) ?_ hrest
  · exact Nat.lt_succ_self _
  · intro x x' hx hlt
    obtain ⟨_, -, rfl⟩ := Option.map_eq_some_iff.mp hx
    exact Nat.lt_succ_of_lt hlt

/-- From the test at the end of a round: `n` is counted down, and while `again` holds of it, eight
more statements are run. -/
def loop (again : Int → Bool) (source : Bytes) (n : Int) (s : State) : Option State :=
  match checkedInt (n - 1) with
  | none => none
  | some n =>
    if again n then
      match _h : repeated (statement source) 8 s with
      | none => none
      | some s => loop again source n s
    else
      some s
termination_by source.length - s.pos
decreasing_by
  have := lt_pos_of_repeated _h
  omega

/-- The switch is before `while (--n)`. -/
def copy (source : Bytes) (count : Int) : Option Effects := do
  let sum ← checkedInt (count + 7)
  let n := sum.tdiv 8
  let s ← repeated (statement source) (fallThrough (count.tmod 8)) State.start
  let s ← loop (· != 0) source n s
  some s.toEffects

/-- The switch enters the body of `do … while (--n > 0)`, or jumps past it. -/
def copy2 (source : Bytes) (count : Int) : Option Effects := do
  let sum ← checkedInt (count + 7)
  let n := sum.tdiv 8
  if fallThrough (count.tmod 8) = 0 then
    some State.start.toEffects
  else
    let s ← repeated (statement source) (fallThrough (count.tmod 8)) State.start
    let s ← loop (0 < ·) source n s
    some s.toEffects

/-- `for i in 0..count: *to = from[i]` -/
def plainLoop (source : Bytes) (count : Nat) : Option Effects :=
  (List.range count).foldlM (fun e i => source[i]?.map (e.record i)) Effects.none

section Path
variable (source : Bytes)

/-- After `k` statements. -/
def after (k : Nat) : State :=
  ⟨⟨List.range k, (source.take k).map fun c => (0, c)⟩, k⟩

theorem statement_after {k : Nat} (h : k < source.length) :
    statement source (after source k) = some (after source (k + 1)) := by
  unfold statement after Effects.record
  rw [List.getElem?_eq_getElem h, List.range_succ, List.take_succ_eq_append_getElem h,
    List.map_append]
  rfl

theorem repeated_start (k : Nat) :
    repeated (statement source) k State.start =
      if k ≤ source.length then some (after source k) else none := by
  have hpath {i : Nat} (hi : i ≤ source.length) :
      repeated (statement source) i State.start = some (after source i) := by
    have hsteps := repeated_path (fun _ => statement_after source) (Nat.zero_add i ▸ hi)
    rwa [Nat.zero_add] at hsteps
  by_cases hk : k ≤ source.length
  · rw [if_pos hk, hpath hk]
  · -- The statement after the last byte of the source fails.
    obtain ⟨j, rfl⟩ : ∃ j, k = source.length + (j + 1) := ⟨k - source.length - 1, by omega⟩
    have hend : statement source (after source source.length) = none := by
      simp [statement, after]
    rw [if_neg hk, repeated_add, hpath (Nat.le_refl _), Option.bind_some, repeated_succ, hend,
      Option.bind_none]

theorem plainLoop_eq (count : Nat) :
    plainLoop source count =
      if count ≤ source.length then some (after source count).toEffects else none := by
  induction count with
  | zero => simp [plainLoop, after, Effects.none]
  | succ k ih =>
    have hlast : plainLoop source (k + 1) =
        (plainLoop source k).bind fun e => source[k]?.map (e.record k) := by
      unfold plainLoop
      rw [List.range_succ, List.foldlM_append]
      simp
    rw [hlast, ih]
    by_cases hk : k < source.length
    · have hstep := statement_after source hk
      rw [if_pos (by omega), if_pos (by omega), Option.bind_some]
      rw [List.getElem?_eq_getElem hk]
      unfold statement at hstep
      rw [show (after source k).pos = k from rfl, List.getElem?_eq_getElem hk] at hstep
      simpa using congrArg (Option.map State.toEffects) hstep
    · rw [if_neg (show ¬ k + 1 ≤ source.length by omega), List.getElem?_eq_none (by omega)]
      simp

theorem plainLoop_eq_repeated (count : Nat) :
    plainLoop source count =
      (repeated (statement source) count State.start).map State.toEffects := by
  rw [plainLoop_eq, repeated_start]
  split <;> rfl

end Path

section Rounds
variable {source : Bytes}

/-- From the test on, all but one of the rounds are run. -/
theorem loop_eq {again : Int → Bool} (hgo : ∀ n, 0 < n → again n = true) (hstop : again 0 = false)
    {r : Nat} (hr : (r : Int) ≤ intMax) (s : State) :
    loop again source (r + 1 : Nat) s = repeated (statement source) (8 * r) s := by
  induction r generalizing s with
  | zero =>
    have hn : checkedInt (((0 + 1 : Nat) : Int) - 1) = some 0 := by decide
    rw [loop, hn]
    simp only [hstop, Bool.false_eq_true, if_false]
    rfl
  | succ r ih =>
    have hn : checkedInt (((r + 1 + 1 : Nat) : Int) - 1) = some ((r + 1 : Nat) : Int) := by
      rw [← checkedInt_of_nat hr]
      congr 1
      omega
    have hagain : again ((r + 1 : Nat) : Int) = true := hgo _ (by omega)
    rw [loop, hn, Nat.mul_succ, Nat.add_comm (8 * r), repeated_add]
    simp only [hagain, if_true]
    split
    · rename_i heq
      rw [heq, Option.bind_none]
    · rename_i s' heq
      rw [heq, Option.bind_some]
      exact ih (by omega) s'

theorem fallThrough_entry (count : Nat) : fallThrough ((count : Int).tmod 8) = entry 8 count := by
  have hall : ∀ r < 8, fallThrough (r : Nat) = if r = 0 then 8 else r := by decide
  have hcast : (count : Int).tmod 8 = ((count % 8 : Nat) : Int) := (Int.ofNat_tmod count 8).symm
  rw [hcast, hall _ (Nat.mod_lt _ (by decide))]
  rfl

variable {count : Nat}

theorem sum_eq (hmax : (count : Int) ≤ intMax - 7) :
    checkedInt ((count : Int) + 7) = some ((count + 7 : Nat) : Int) := by
  rw [← checkedInt_of_nat (v := count + 7) (by omega)]
  rfl

theorem rounds_eq (hpos : 0 < count) :
    ((count + 7 : Nat) : Int).tdiv 8 = ((rounds 8 count - 1 + 1 : Nat) : Int) := by
  rw [Nat.sub_add_cancel (rounds_pos (by decide) hpos)]
  exact (Int.ofNat_tdiv (count + 7) 8).symm

theorem rounds_le (hmax : (count : Int) ≤ intMax - 7) :
    ((rounds 8 count - 1 : Nat) : Int) ≤ intMax := by
  have : rounds 8 count ≤ count + 7 := Nat.div_le_self _ _
  omega

/-- The part of a body and the full bodies after it. -/
theorem entered_eq (source : Bytes) (again : Int → Bool) (hgo : ∀ n, 0 < n → again n = true)
    (hstop : again 0 = false) (hpos : 0 < count) (hmax : (count : Int) ≤ intMax - 7) :
    (repeated (statement source) (fallThrough ((count : Int).tmod 8)) State.start).bind
        (loop again source (((count + 7 : Nat) : Int).tdiv 8)) =
      repeated (statement source) count State.start := by
  rw [fallThrough_entry, rounds_eq hpos, funext (loop_eq hgo hstop (rounds_le hmax)),
    ← repeated_add, entry_add_rounds (by decide) hpos]

theorem copy_eq_plainLoop (hpos : 0 < count) (hmax : (count : Int) ≤ intMax - 7) :
    copy source count = plainLoop source count := by
  have hentered := entered_eq source (· != 0)
    (fun n hn => by simpa using (by omega : n ≠ 0)) rfl hpos hmax
  rw [plainLoop_eq_repeated, ← hentered, Option.map_bind]
  unfold copy
  rw [sum_eq hmax]
  simp only [Option.bind_eq_bind, Option.bind_some]
  congr 1
  funext s
  exact Option.map_eq_bind.symm

theorem copy2_eq_plainLoop (hpos : 0 < count) (hmax : (count : Int) ≤ intMax - 7) :
    copy2 source count = plainLoop source count := by
  have hentered := entered_eq source (0 < ·)
    (fun n hn => by simpa using hn) rfl hpos hmax
  have hlabel : fallThrough ((count : Int).tmod 8) ≠ 0 := by
    rw [fallThrough_entry]
    unfold entry
    split <;> omega
  rw [plainLoop_eq_repeated, ← hentered, Option.map_bind]
  unfold copy2
  rw [sum_eq hmax]
  simp only [Option.bind_eq_bind, Option.bind_some, if_neg hlabel]
  congr 1
  funext s
  exact Option.map_eq_bind.symm

end Rounds

/-- Both copies are the plain loop: they read the bytes up to `count`, each once and in order, and
store each when it is read. -/
theorem copies_are_plain_loops (source : Bytes) {count : Int} (hpos : 1 ≤ count)
    (hmax : count ≤ intMax - 7) (hlength : count ≤ source.length) :
    ∃ e, copy source count = some e ∧ copy2 source count = some e ∧
      plainLoop source count.toNat = some e ∧ e.stores.length = count.toNat ∧
      e.stores = (source.take count.toNat).map (fun c => (0, c)) ∧
      e.reads = List.range count.toNat := by
  obtain ⟨n, rfl⟩ := Int.eq_ofNat_of_zero_le (by omega : 0 ≤ count)
  rw [Int.toNat_natCast]
  have hplain : plainLoop source n = some (after source n).toEffects := by
    rw [plainLoop_eq, if_pos (by omega)]
  refine ⟨(after source n).toEffects, ?_, ?_, hplain, ?_, rfl, rfl⟩
  · rw [copy_eq_plainLoop (by omega) hmax, hplain]
  · rw [copy2_eq_plainLoop (by omega) hmax, hplain]
  · simp only [after, List.length_map, List.length_take]
    omega

/-- Eleven bytes: three in the entered body and eight in the round after it. -/
theorem copies_are_plain_loops_eleven :
    ∃ e, copy (str "hello world") 11 = some e ∧ copy2 (str "hello world") 11 = some e ∧
      plainLoop (str "hello world") 11 = some e ∧ e.stores.length = 11 ∧
      e.stores = (str "hello world").map (fun c => (0, c)) ∧ e.reads = List.range 11 :=
  copies_are_plain_loops (str "hello world") (by decide) (by decide) (by decide)

end AsioExamples.Duff
