import AsioExamples.Timer.Printer

/-!
# What the printers count

Every handler adds one to the count, as long as it may, and waits again. On a strand no increment
is lost and no number is printed twice, whichever threads run the handlers.
-/

namespace AsioExamples.Timer

set_option autoImplicit false

variable {ι : Type}

/-- What a handler does next, of what is essential. -/
inductive Stage where
  | check
  | output
  | load
  | store
  | expires
  | wait
  | done
deriving DecidableEq

def Code.remaining (c : Code ι) (i : ι) : Stage → List (Action ι)
  | .check => [.countLess c.limit, .output (c.label i), .loadCount, .storeCount,
      .expiresAt i (c.period i), .asyncWait i]
  | .output => [.output (c.label i), .loadCount, .storeCount, .expiresAt i (c.period i),
      .asyncWait i]
  | .load => [.loadCount, .storeCount, .expiresAt i (c.period i), .asyncWait i]
  | .store => [.storeCount, .expiresAt i (c.period i), .asyncWait i]
  | .expires => [.expiresAt i (c.period i), .asyncWait i]
  | .wait => [.asyncWait i]
  | .done => []

/-- The handler that is inside and where it is. -/
inductive Inside (c : Code ι) (count : Nat) : Option (Frame ι) → Option (ι × Stage) → Prop where
  | nobody : Inside c count none none
  | frame (f : Frame ι) (stage : Stage)
      (hrest : f.rest.filter Action.Essential = c.remaining f.timer stage)
      (hloaded : stage = .store → f.loaded = count) :
      Inside c count (some f) (some (f.timer, stage))

def counted : Line ι → Option (ι × Nat)
  | .count i _ n => some (i, n)
  | _ => none

/-- The counts that were printed, each with its timer. -/
def counts (out : List (Line ι)) : List (ι × Nat) := out.filterMap counted

/-- The handler has passed its check and has not counted. -/
def passed : Option (ι × Stage) → Nat
  | some (_, .output) | some (_, .load) | some (_, .store) => 1
  | _ => 0

/-- What is printed is not counted yet. -/
def uncounted : Option (ι × Stage) → Nat
  | some (_, .load) | some (_, .store) => 1
  | _ => 0

/-- The timer that waits in the handler. -/
def held : Option (ι × Stage) → List ι
  | none | some (_, .done) => []
  | some (i, _) => [i]

/-- The handler has counted and is to wait. -/
def owed : Option (ι × Stage) → Nat
  | some (_, .expires) | some (_, .wait) => 1
  | _ => 0

theorem counts_output (i : ι) (out : List (Line ι)) (label : String) (n : Nat) :
    counts (out ++ [.count i label n]) = counts out ++ [(i, n)] := by
  rw [counts, List.filterMap_append]
  rfl

section Counting
variable [DecidableEq ι]

/-- The lines of timer `i`. -/
def linesOf (i : ι) (out : List (Line ι)) : Nat := (counts out).countP (·.1 = i)

/-- Timer `i` has printed and its expiry is the old one. -/
def unset (i : ι) : Option (ι × Stage) → Nat
  | some (j, .load) | some (j, .store) | some (j, .expires) => if j = i then 1 else 0
  | _ => 0

/-- The timers that are to come. -/
def waiting (l : Loop (Printer ι) ι World) (place : Option (ι × Stage)) : List ι :=
  l.started ++ l.ready ++ held place

/-- The number of the next line is how many there are, and every timer knows when its next line
is due. -/
structure Counting (c : Code ι) (constructed : ι → Nat) (l : Loop (Printer ι) ι World)
    (place : Option (ι × Stage)) : Prop where
  numbers : (counts l.shared.out).map Prod.snd = List.range (l.shared.count + uncounted place)
  below : l.shared.count + passed place ≤ c.limit
  expiry : ∀ i, l.shared.expiry i + unset i place * c.period i =
    constructed i + seconds 1 + c.period i * linesOf i l.shared.out
  nodup : (waiting l place).Nodup
  alive : l.shared.count < c.limit → ∀ i, i ∈ waiting l place
  due : ∀ i, i ∉ l.started → place ≠ some (i, .wait) → l.shared.expiry i ≤ l.world.steady
  timed : ∀ i, 0 < linesOf i l.shared.out →
    constructed i + seconds 1 + c.period i * (linesOf i l.shared.out - 1) ≤ l.world.steady

variable {c : Code ι} {constructed : ι → Nat} {l : Loop (Printer ι) ι World}
  {place : Option (ι × Stage)} {i : ι}

theorem counting_init (c : Code ι) (constructed : ι → Nat) (w : World) :
    Counting c constructed (c.init constructed w) none where
  numbers := rfl
  below := Nat.zero_le _
  expiry i := by
    change constructed i + seconds 1 + 0 * c.period i = constructed i + seconds 1 + c.period i * 0
    rw [Nat.zero_mul, Nat.mul_zero]
  nodup := by simpa [waiting, held, Code.init] using c.nodup_timers
  alive _ i := by simpa [waiting, held, Code.init] using c.mem_timers i
  due i hi := absurd (c.mem_timers i) hi
  timed _ h := absurd h (Nat.lt_irrefl 0)

theorem Counting.pass (h : Counting c constructed l place) {w : World}
    (hw : l.world.steady ≤ w.steady) : Counting c constructed { l with world := w } place :=
  ⟨h.numbers, h.below, h.expiry, h.nodup, h.alive,
    fun i hi hplace => Nat.le_trans (h.due i hi hplace) hw,
    fun i hi => Nat.le_trans (h.timed i hi) hw⟩

theorem Counting.complete (h : Counting c constructed l place) (hi : i ∈ l.started)
    (hdue : l.shared.expiry i ≤ l.world.steady) : Counting c constructed (l.complete i) place := by
  have hperm : (waiting (l.complete i) place).Perm (waiting l place) := by
    apply List.perm_iff_count.mpr
    intro a
    have hcount : 0 < l.started.count i := List.count_pos_iff.mpr hi
    by_cases ha : a = i
    · subst ha
      simp [waiting, Loop.complete]
      omega
    · simp [waiting, Loop.complete, ha, Ne.symm ha]
  refine ⟨h.numbers, h.below, h.expiry, hperm.nodup_iff.mpr h.nodup,
    fun hlt j => hperm.mem_iff.mpr (h.alive hlt j), fun j hj hplace => ?_, h.timed⟩
  by_cases hji : j = i
  · exact hji ▸ hdue
  · exact h.due j (fun hmem => hj ((List.mem_erase_of_ne hji).mpr hmem)) hplace

theorem Counting.enter (h : Counting c constructed l none) {rest : List ι}
    (hready : l.ready = i :: rest) :
    Counting c constructed { l with ready := rest } (some (i, .check)) := by
  have hperm : (waiting { l with ready := rest } (some (i, .check))).Perm (waiting l none) := by
    simp only [waiting, held, hready, List.append_nil, List.append_assoc]
    have hswap : (rest ++ [i]).Perm (i :: rest) := List.perm_append_singleton i rest
    exact hswap.append_left _
  exact ⟨h.numbers, h.below, h.expiry, hperm.nodup_iff.mpr h.nodup,
    fun hlt j => hperm.mem_iff.mpr (h.alive hlt j), fun j hj _ => h.due j hj nofun, h.timed⟩

theorem Counting.quiet (h : Counting c constructed l place) {extra : List (Line ι)}
    (hextra : counts extra = []) :
    Counting c constructed { l with shared := { l.shared with out := l.shared.out ++ extra } }
      place := by
  have hcounts : counts (l.shared.out ++ extra) = counts l.shared.out := by
    rw [counts, List.filterMap_append]
    exact (congrArg _ hextra).trans (List.append_nil _)
  have hlines : ∀ j, linesOf j (l.shared.out ++ extra) = linesOf j l.shared.out := by
    intro j
    unfold linesOf
    rw [hcounts]
  refine ⟨hcounts ▸ h.numbers, h.below, fun j => ?_, h.nodup, h.alive, h.due, fun j hj => ?_⟩
  · change _ = _ + c.period j * linesOf j (l.shared.out ++ extra)
    rw [hlines]
    exact h.expiry j
  · change 0 < linesOf j (l.shared.out ++ extra) at hj
    change _ + c.period j * (linesOf j (l.shared.out ++ extra) - 1) ≤ _
    rw [hlines] at hj ⊢
    exact h.timed j hj

theorem Counting.check (h : Counting c constructed l (some (i, .check)))
    (hlt : l.shared.count < c.limit) : Counting c constructed l (some (i, .output)) :=
  ⟨h.numbers, hlt, h.expiry, h.nodup, h.alive, fun j hj _ => h.due j hj nofun, h.timed⟩

/-- The last run of the handler. -/
theorem Counting.stop (h : Counting c constructed l (some (i, .check)))
    (hge : ¬ l.shared.count < c.limit) : Counting c constructed l none := by
  refine ⟨h.numbers, h.below, h.expiry, ?_, fun hlt => absurd hlt hge,
    fun j hj _ => h.due j hj nofun, h.timed⟩
  have hnodup : (l.started ++ l.ready).Nodup := h.nodup.of_append_left
  simpa [waiting, held] using hnodup

theorem Counting.not_started {stage : Stage} (h : Counting c constructed l (some (i, stage)))
    (hstage : stage ≠ .done) : i ∉ l.started := by
  have hheld : held (some (i, stage)) = [i] := by
    cases stage <;> first | rfl | exact absurd rfl hstage
  have hnodup := h.nodup
  rw [waiting, hheld, List.append_assoc] at hnodup
  intro hi
  exact List.disjoint_of_nodup_append hnodup hi
    (List.mem_append_right _ (List.mem_singleton_self i))

theorem linesOf_output (out : List (Line ι)) (label : String) (n : Nat) (j : ι) :
    linesOf j (out ++ [.count i label n]) = linesOf j out + if i = j then 1 else 0 := by
  unfold linesOf
  rw [counts_output, List.countP_append, List.countP_singleton]
  simp

theorem Counting.output (h : Counting c constructed l (some (i, .output))) (label : String) :
    Counting c constructed { l with shared := { l.shared with
      out := l.shared.out ++ [.count i label l.shared.count] } } (some (i, .load)) := by
  have hexpiry := h.expiry i
  refine ⟨?_, h.below, fun j => ?_, h.nodup, h.alive, fun j hj _ => h.due j hj nofun,
    fun j hj => ?_⟩
  · have hcounts : (counts l.shared.out).map Prod.snd = List.range l.shared.count := h.numbers
    change (counts (l.shared.out ++ [_])).map Prod.snd = List.range (l.shared.count + 1)
    rw [counts_output, List.map_append, hcounts, List.range_succ]
    rfl
  · have hexpiry : l.shared.expiry j + 0 * c.period j = _ := h.expiry j
    change l.shared.expiry j + (if i = j then 1 else 0) * c.period j =
      _ + c.period j * linesOf j (l.shared.out ++ [_])
    rw [linesOf_output, Nat.mul_add, ← Nat.add_assoc, ← hexpiry, Nat.mul_comm (c.period j)]
    omega
  · change 0 < linesOf j (l.shared.out ++ [_]) at hj
    change _ + c.period j * (linesOf j (l.shared.out ++ [_]) - 1) ≤ l.world.steady
    rw [linesOf_output] at hj ⊢
    by_cases hij : i = j
    · subst hij
      have hdue := h.due i (h.not_started nofun) nofun
      have hexpiry : l.shared.expiry i + 0 * c.period i = _ := h.expiry i
      rw [if_pos rfl, Nat.add_sub_cancel]
      omega
    · rw [if_neg hij] at hj ⊢
      exact h.timed j hj

theorem Counting.load (h : Counting c constructed l (some (i, .load))) :
    Counting c constructed l (some (i, .store)) :=
  ⟨h.numbers, h.below, h.expiry, h.nodup, h.alive, fun j hj _ => h.due j hj nofun, h.timed⟩

theorem Counting.store (h : Counting c constructed l (some (i, .store))) :
    Counting c constructed { l with shared := { l.shared with count := l.shared.count + 1 } }
      (some (i, .expires)) :=
  ⟨h.numbers, h.below, h.expiry, h.nodup, fun hlt => h.alive (Nat.lt_of_succ_lt hlt),
    fun j hj _ => h.due j hj nofun, h.timed⟩

theorem Counting.expires (h : Counting c constructed l (some (i, .expires))) :
    Counting c constructed { l with shared := { l.shared with
      expiry := Function.update l.shared.expiry i (l.shared.expiry i + c.period i) } }
      (some (i, .wait)) := by
  refine ⟨h.numbers, h.below, fun j => ?_, h.nodup, h.alive, fun j hj hplace => ?_, h.timed⟩
  · have hexpiry : _ + (if i = j then 1 else 0) * c.period j = _ := h.expiry j
    rw [← hexpiry]
    change Function.update l.shared.expiry i _ j + 0 * c.period j = _
    by_cases hij : i = j
    · subst hij
      simp
    · simp [hij, Function.update_of_ne (Ne.symm hij)]
  · have hij : j ≠ i := by
      rintro rfl
      exact hplace rfl
    change Function.update l.shared.expiry i _ j ≤ _
    rw [Function.update_of_ne hij]
    exact h.due j hj nofun

theorem Counting.wait (h : Counting c constructed l (some (i, .wait))) :
    Counting c constructed { l with started := l.started ++ [i] } (some (i, .done)) := by
  have hperm : (waiting { l with started := l.started ++ [i] } (some (i, .done))).Perm
      (waiting l (some (i, .wait))) := by
    simp only [waiting, held, List.append_nil, List.append_assoc]
    have hswap : (i :: l.ready).Perm (l.ready ++ [i]) := (List.perm_append_singleton i l.ready).symm
    exact hswap.append_left _
  refine ⟨h.numbers, h.below, h.expiry, hperm.nodup_iff.mpr h.nodup,
    fun hlt j => hperm.mem_iff.mpr (h.alive hlt j), fun j hj _ => ?_, h.timed⟩
  have hj := List.mem_append.not.mp hj
  rw [not_or] at hj
  refine h.due j hj.1 fun hplace => hj.2 ?_
  cases hplace
  exact List.mem_singleton_self i

theorem Counting.leave (h : Counting c constructed l (some (i, .done))) :
    Counting c constructed l none :=
  ⟨h.numbers, h.below, h.expiry, h.nodup, h.alive, fun j hj _ => h.due j hj nofun, h.timed⟩

end Counting

section Weight
variable {c : Code ι} {l : Loop (Printer ι) ι World} {place : Option (ι × Stage)} {f : Frame ι}

/-- The actions of a handler that are to come, with its return. -/
def left : Option (Frame ι) → Nat
  | none => 0
  | some f => f.rest.length + 1

/-- A wait is paid for by an increment, and pays for the run of its handler. -/
def Code.weight (c : Code ι) (l : Loop (Printer ι) ι World) (inside : Option (Frame ι))
    (place : Option (ι × Stage)) : Nat :=
  (c.limit - l.shared.count + l.started.length + owed place) * (c.longest + 3) +
    l.ready.length * (c.longest + 2) + left inside

theorem weight_lt {l' : Loop (Printer ι) ι World} {inside inside' : Option (Frame ι)}
    {place' : Option (ι × Stage)}
    (hcredit : c.limit - l'.shared.count + l'.started.length + owed place' ≤
      c.limit - l.shared.count + l.started.length + owed place)
    (hready : l'.ready = l.ready) (hleft : left inside' < left inside) :
    c.weight l' inside' place' < c.weight l inside place := by
  have hmul := Nat.mul_le_mul_right (c.longest + 3) hcredit
  unfold Code.weight
  rw [hready]
  omega

theorem rest_cases {stage : Stage}
    (hrest : f.rest.filter Action.Essential = c.remaining f.timer stage) :
    (f.rest = [] ∧ stage = .done) ∨
      (∃ a rest, f.rest = a :: rest ∧ a.Essential = false ∧
        rest.filter Action.Essential = c.remaining f.timer stage) ∨
      ∃ a rest, f.rest = a :: rest ∧
        c.remaining f.timer stage = a :: rest.filter Action.Essential := by
  cases hlist : f.rest with
  | nil =>
    rw [hlist] at hrest
    refine .inl ⟨rfl, ?_⟩
    cases stage <;> first | rfl | cases hrest
  | cons a rest =>
    rw [hlist] at hrest
    cases ha : a.Essential with
    | true =>
      rw [List.filter_cons_of_pos ha] at hrest
      exact .inr (.inr ⟨a, rest, rfl, hrest.symm⟩)
    | false =>
      rw [List.filter_cons_of_neg (by simp [ha])] at hrest
      exact .inr (.inl ⟨a, rest, rfl, ha, hrest⟩)

end Weight

section Acting
variable [DecidableEq ι] {c : Code ι} {constructed : ι → Nat} {l : Loop (Printer ι) ι World}
  {place : Option (ι × Stage)} {f : Frame ι}

/-- The handler goes on as it should, and it comes closer to its end. -/
def Acts (c : Code ι) (constructed : ι → Nat) (l : Loop (Printer ι) ι World)
    (inside : Option (Frame ι)) (place : Option (ι × Stage))
    (e : Effect (Printer ι) (Frame ι) ι) : Prop :=
  ∃ place', Inside c e.shared.count e.next place' ∧ Counting c constructed (l.perform e) place' ∧
    c.weight (l.perform e) e.next place' < c.weight l inside place

/-- An action that cancels nothing. -/
theorem acts_of {e : Effect (Printer ι) (Frame ι) ι} (hcancels : ∀ i ∈ e.cancels, i ∉ l.started)
    {place' : Option (ι × Stage)} (hinside : Inside c e.shared.count e.next place')
    (h : Counting c constructed ⟨l.world, e.shared, l.started ++ e.starts, l.ready⟩ place')
    (hcredit : c.limit - e.shared.count + (l.started ++ e.starts).length + owed place' ≤
      c.limit - l.shared.count + l.started.length + owed place)
    {inside : Option (Frame ι)} (hleft : left e.next < left inside) :
    Acts c constructed l inside place e := by
  unfold Acts
  rw [Loop.perform_eq hcancels]
  exact ⟨place', hinside, h, weight_lt hcredit rfl hleft⟩

theorem acts_quietly {stage : Stage} (h : Counting c constructed l (some (f.timer, stage)))
    (hloaded : stage = .store → f.loaded = l.shared.count) {a : Action ι} {rest : List (Action ι)}
    (hlist : f.rest = a :: rest) (ha : a.Essential = false)
    (hrest : rest.filter Action.Essential = c.remaining f.timer stage) :
    Acts c constructed l (some f) (some (f.timer, stage)) (f.act l.world l.shared) := by
  obtain ⟨extra, f', hextra, hact, htimer, hrest', hloaded'⟩ : ∃ (extra : List (Line ι))
      (f' : Frame ι), counts extra = [] ∧
      f.act l.world l.shared = ⟨{ l.shared with out := l.shared.out ++ extra }, [], [], some f'⟩ ∧
      f'.timer = f.timer ∧ f'.rest = rest ∧ f'.loaded = f.loaded := by
    cases a with
    | begin =>
      exact ⟨[], { f with rest, begin := l.world.universalTime }, rfl, by simp [Frame.act, hlist],
        rfl, rfl, rfl⟩
    | current =>
      exact ⟨[], { f with rest, timeElapse := l.world.universalTime - f.begin }, rfl,
        by simp [Frame.act, hlist], rfl, rfl, rfl⟩
    | outputElapse =>
      exact ⟨[.timeElapse f.timeElapse], { f with rest }, rfl, by simp [Frame.act, hlist], rfl, rfl,
        rfl⟩
    | _ => cases ha
  rw [hact]
  apply acts_of (List.forall_mem_nil _)
  · exact .frame f' stage (by rw [hrest', htimer, hrest]) fun hs => hloaded'.trans (hloaded hs)
  · rw [List.append_nil, htimer]
    exact h.quiet hextra
  · exact Nat.le_of_eq (by rw [List.append_nil, htimer])
  · simp [left, hrest', hlist]

/-- The actions that the count and the timers are about, in their order. -/
theorem acts_essentially {stage : Stage} (h : Counting c constructed l (some (f.timer, stage)))
    (hloaded : stage = .store → f.loaded = l.shared.count) {a : Action ι} {rest : List (Action ι)}
    (hlist : f.rest = a :: rest)
    (hstage : c.remaining f.timer stage = a :: rest.filter Action.Essential) :
    Acts c constructed l (some f) (some (f.timer, stage)) (f.act l.world l.shared) := by
  have hleft : rest.length + 1 < left (some f) := by simp [left, hlist]
  cases stage with
  | check =>
    obtain ⟨rfl, hrest⟩ := List.cons.inj hstage
    by_cases hlt : l.shared.count < c.limit
    · have hact : f.act l.world l.shared = ⟨l.shared, [], [], some { f with rest }⟩ := by
        simp [Frame.act, hlist, hlt]
      rw [hact]
      apply acts_of (List.forall_mem_nil _) (.frame { f with rest } .output hrest.symm nofun)
      · rw [List.append_nil]
        exact h.check hlt
      · rw [List.append_nil]
        exact Nat.le_refl _
      · exact hleft
    · have hact : f.act l.world l.shared = ⟨l.shared, [], [], none⟩ := by
        simp [Frame.act, hlist, hlt]
      rw [hact]
      apply acts_of (List.forall_mem_nil _) .nobody
      · rw [List.append_nil]
        exact h.stop hlt
      · rw [List.append_nil]
        exact Nat.le_refl _
      · exact Nat.succ_pos _
  | output =>
    obtain ⟨rfl, hrest⟩ := List.cons.inj hstage
    have hact : f.act l.world l.shared = ⟨{ l.shared with
        out := l.shared.out ++ [.count f.timer (c.label f.timer) l.shared.count] }, [], [],
        some { f with rest }⟩ := by
      simp [Frame.act, hlist]
    rw [hact]
    apply acts_of (List.forall_mem_nil _) (.frame { f with rest } .load hrest.symm nofun)
    · rw [List.append_nil]
      exact h.output _
    · rw [List.append_nil]
      exact Nat.le_refl _
    · exact hleft
  | load =>
    obtain ⟨rfl, hrest⟩ := List.cons.inj hstage
    have hact : f.act l.world l.shared =
        ⟨l.shared, [], [], some { f with rest, loaded := l.shared.count }⟩ := by
      simp [Frame.act, hlist]
    rw [hact]
    apply acts_of (List.forall_mem_nil _)
      (.frame { f with rest, loaded := l.shared.count } .store hrest.symm fun _ => rfl)
    · rw [List.append_nil]
      exact h.load
    · rw [List.append_nil]
      exact Nat.le_refl _
    · exact hleft
  | store =>
    obtain ⟨rfl, hrest⟩ := List.cons.inj hstage
    have hact : f.act l.world l.shared =
        ⟨{ l.shared with count := l.shared.count + 1 }, [], [], some { f with rest }⟩ := by
      simp [Frame.act, hlist, hloaded rfl]
    have hbelow : l.shared.count + 1 ≤ c.limit := h.below
    rw [hact]
    apply acts_of (List.forall_mem_nil _) (.frame { f with rest } .expires hrest.symm nofun)
    · rw [List.append_nil]
      exact h.store
    · rw [List.append_nil]
      simp only [owed]
      omega
    · exact hleft
  | expires =>
    obtain ⟨rfl, hrest⟩ := List.cons.inj hstage
    have hact : f.act l.world l.shared = ⟨{ l.shared with
        expiry := Function.update l.shared.expiry f.timer
          (l.shared.expiry f.timer + c.period f.timer) }, [], [f.timer],
        some { f with rest }⟩ := by
      simp [Frame.act, hlist]
    rw [hact]
    apply acts_of _ (.frame { f with rest } .wait hrest.symm nofun)
    · rw [List.append_nil]
      exact h.expires
    · rw [List.append_nil]
      exact Nat.le_refl _
    · exact hleft
    · intro i hi
      rw [List.mem_singleton.mp hi]
      exact h.not_started nofun
  | wait =>
    obtain ⟨rfl, hrest⟩ := List.cons.inj hstage
    have hact : f.act l.world l.shared =
        ⟨l.shared, [f.timer], [], some { f with rest }⟩ := by
      simp [Frame.act, hlist]
    rw [hact]
    apply acts_of (List.forall_mem_nil _) (.frame { f with rest } .done hrest.symm nofun) h.wait
    · simp only [owed, List.length_append, List.length_singleton]
      omega
    · exact hleft
  | done => cases hstage

theorem acts (h : Counting c constructed l place)
    (hinside : Inside c l.shared.count (some f) place) :
    Acts c constructed l (some f) place (f.act l.world l.shared) := by
  cases hinside with
  | frame f stage hrest hloaded =>
    rcases rest_cases hrest with ⟨hnil, rfl⟩ | ⟨a, rest, hlist, ha, hrest⟩ |
      ⟨a, rest, hlist, hstage⟩
    · have hact : f.act l.world l.shared = ⟨l.shared, [], [], none⟩ := by simp [Frame.act, hnil]
      rw [hact]
      apply acts_of (List.forall_mem_nil _) .nobody
      · rw [List.append_nil]
        exact h.leave
      · rw [List.append_nil]
        exact Nat.le_refl _
      · exact Nat.succ_pos _
    · exact acts_quietly h hloaded hlist ha hrest
    · exact acts_essentially h hloaded hlist hstage

theorem counting_next {inside : Option (Frame ι)} (h : Counting c constructed l place)
    (hinside : Inside c l.shared.count inside place) {e : LoopEvent ι World}
    (he : c.handlers.serialMachine.enabled (l, inside) e) :
    let st' := c.handlers.serialMachine.next (l, inside) e
    ∃ place', Inside c st'.1.shared.count st'.2 place' ∧ Counting c constructed st'.1 place' ∧
      c.weight st'.1 st'.2 place' + (if e.isPass then 0 else 1) ≤ c.weight l inside place := by
  cases e with
  | pass w => exact ⟨place, hinside, h.pass he, Nat.le_refl _⟩
  | complete i =>
    refine ⟨place, hinside, h.complete he.1 he.2, ?_⟩
    have hlength : (l.started.erase i).length + 1 = l.started.length :=
      List.length_erase_add_one he.1
    change (c.limit - l.shared.count + (l.started.erase i).length + owed place) * (c.longest + 3) +
      (l.ready ++ [i]).length * (c.longest + 2) + left inside + 1 ≤
      (c.limit - l.shared.count + l.started.length + owed place) * (c.longest + 3) +
        l.ready.length * (c.longest + 2) + left inside
    have hmore : c.limit - l.shared.count + l.started.length + owed place =
        c.limit - l.shared.count + (l.started.erase i).length + owed place + 1 := by omega
    have hready : (l.ready.length + 1) * (c.longest + 2) =
        l.ready.length * (c.longest + 2) + (c.longest + 2) := Nat.succ_mul _ _
    rw [hmore, Nat.succ_mul, List.length_append, List.length_singleton]
    omega
  | enter =>
    obtain ⟨hnone, hready⟩ := he
    obtain ⟨i, rest, hcons⟩ := List.exists_cons_of_ne_nil hready
    have hnone : inside = none := hnone
    subst hnone
    cases hinside
    have hbody := c.length_body i
    have hnext : c.handlers.serialMachine.next (l, none) .enter =
        ({ l with ready := rest }, some (c.handlers.entry i)) := by
      have hcons : l.ready = i :: rest := hcons
      simp [Handlers.serialMachine, hcons]
    rw [hnext]
    refine ⟨some (i, .check), .frame (c.handlers.entry i) .check (c.essentials i) ?_,
      h.enter hcons, ?_⟩
    · intro hs
      cases hs
    have hready : l.ready.length = rest.length + 1 := congrArg List.length hcons
    change _ + rest.length * (c.longest + 2) + ((c.body i).length + 1) + 1 ≤
      _ + l.ready.length * (c.longest + 2) + 0
    rw [hready, Nat.succ_mul]
    simp only [owed]
    omega
  | act =>
    obtain ⟨f, hf⟩ := Option.isSome_iff_exists.mp he
    have hf : inside = some f := hf
    subst hf
    exact acts h hinside

/-- What holds of the printers in every run, with the events that the run has taken. -/
theorem counting_of_run {w : World} {trace : List (LoopEvent ι World)} {inside : Option (Frame ι)}
    (h : c.handlers.serialMachine.Run (c.init constructed w, none) trace (l, inside)) :
    ∃ place, Inside c l.shared.count inside place ∧ Counting c constructed l place ∧
      trace.countP (!·.isPass) + c.weight l inside place ≤
        (c.limit + c.timers.length) * (c.longest + 3) := by
  refine h.invariant (I := fun trace st => ∃ place, Inside c st.1.shared.count st.2 place ∧
    Counting c constructed st.1 place ∧ trace.countP (!·.isPass) + c.weight st.1 st.2 place ≤
      (c.limit + c.timers.length) * (c.longest + 3)) ?_ ?_
  · refine ⟨none, .nobody, counting_init c constructed w, ?_⟩
    simp [Code.weight, Code.init, Printer.new, owed, left]
  · rintro trace ⟨l, inside⟩ e ⟨place, hinside, hcounting, hweight⟩ he
    obtain ⟨place', hinside', hcounting', hweight'⟩ := counting_next hcounting hinside he
    refine ⟨place', hinside', hcounting', ?_⟩
    change _ + c.weight l inside place ≤ _ at hweight
    rw [List.countP_append, List.countP_singleton]
    cases hpass : e.isPass with
    | true =>
      rw [hpass] at hweight'
      simp only [Bool.not_true, Bool.false_eq_true, if_false, if_true] at hweight' ⊢
      omega
    | false =>
      rw [hpass] at hweight'
      simp only [Bool.not_false, Bool.false_eq_true, if_false, if_true] at hweight' ⊢
      omega

end Acting

section Runs
variable [DecidableEq ι]

/-- What the threads have left to do, one of them can begin, or can when a timer has expired. -/
theorem goes_on {c : Code ι} {l : Loop (Printer ι) ι World} {threads : Nat}
    {trace : List (StrandEvent ι World)} {st : Strand (Printer ι) (Frame ι) ι World}
    (h : (c.handlers.strandMachine threads).Run (.init l) trace st) (hthreads : 0 < threads)
    (hgoing : ¬ Finished threads st) :
    ∃ w, st.loop.world.steady ≤ w.steady ∧ ∃ e, e.forget.isPass = false ∧
      (c.handlers.strandMachine threads).enabled { st with loop := { st.loop with world := w } }
        e := by
  obtain ⟨inside, hshows, -⟩ := Strand.serial h
  cases inside with
  | some f =>
    obtain ⟨e, he, henabled⟩ := Strand.goes_on (e := .act) hthreads h hshows rfl
    exact ⟨st.loop.world, Nat.le_refl _, e, by rw [he]; rfl, henabled⟩
  | none =>
    by_cases hready : st.loop.ready = []
    · obtain ⟨i, hi⟩ : ∃ i, i ∈ st.loop.started := by
        apply List.exists_mem_of_ne_nil
        intro hstarted
        refine hgoing ⟨hstarted, hready, fun t _ => ?_⟩
        cases hshows with
        | nobody _ hinside => rw [hinside t]; rfl
      have hdue : st.loop.shared.expiry i ≤
          max st.loop.world.steady (st.loop.shared.expiry i) := Nat.le_max_right _ _
      exact ⟨⟨max st.loop.world.steady (st.loop.shared.expiry i), 0⟩, Nat.le_max_left _ _,
        .complete i, rfl, hi, hdue⟩
    · obtain ⟨e, he, henabled⟩ := Strand.goes_on (e := .enter) hthreads h hshows ⟨rfl, hready⟩
      exact ⟨st.loop.world, Nat.le_refl _, e, by rw [he]; rfl, henabled⟩

/-- At the end every timer has found the count at its limit. -/
theorem finished {c : Code ι} {constructed : ι → Nat} {w : World} {threads : Nat}
    {trace : List (StrandEvent ι World)} {st : Strand (Printer ι) (Frame ι) ι World}
    (h : (c.handlers.strandMachine threads).Run (.init (c.init constructed w)) trace st)
    (htimers : c.timers ≠ []) (hfinished : Finished threads st) :
    st.loop.shared.count = c.limit ∧
      (counts st.loop.shared.out).map Prod.snd = List.range c.limit ∧
      ∀ i, constructed i + seconds 1 + c.period i * linesOf i st.loop.shared.out ≤
        st.loop.world.steady := by
  obtain ⟨inside, hshows, hserial⟩ := Strand.serial h
  obtain ⟨place, hinside, hcounting, -⟩ := counting_of_run hserial
  obtain ⟨hstarted, hready, hnobody⟩ := hfinished
  obtain rfl : inside = none := by
    cases hshows with
    | nobody => rfl
    | one t k _ hk _ =>
      have hsome : (st.inside t).isSome := by
        rw [hk]
        rfl
      have hnone := hnobody t (Strand.inside_lt h hsome)
      rw [hk] at hnone
      cases hnone
  cases hinside
  have hcount : st.loop.shared.count = c.limit := by
    apply Nat.le_antisymm hcounting.below
    by_contra hlt
    obtain ⟨i, -⟩ := List.exists_mem_of_ne_nil _ htimers
    have hmem := hcounting.alive (Nat.lt_of_not_le hlt) i
    simp [waiting, held, hstarted, hready] at hmem
  refine ⟨hcount, hcount ▸ hcounting.numbers, fun i => ?_⟩
  have hdue := hcounting.due i (by simp [hstarted]) nofun
  have hexpiry : st.loop.shared.expiry i + 0 * c.period i = _ := hcounting.expiry i
  omega

/-- The second timer comes every two seconds: ten lines take eight. -/
theorem timer4_lasts {constructed : Timers → Nat} {w : World} {threads : Nat}
    {trace : List (StrandEvent Timers World)}
    {st : Strand (Printer Timers) (Frame Timers) Timers World}
    (h : (timer4.handlers.strandMachine threads).Run (.init (timer4.init constructed w)) trace st)
    (hfinished : Finished threads st) (start : Nat) (hstart : ∀ i, start ≤ constructed i) :
    start + seconds 8 ≤ st.loop.world.steady := by
  obtain ⟨-, hnumbers, hlast⟩ := finished h (by decide) hfinished
  have hlines : linesOf .timer1 st.loop.shared.out + linesOf .timer2 st.loop.shared.out = 10 := by
    have hlength := congrArg List.length hnumbers
    rw [List.length_map, List.length_range] at hlength
    have hsplit : ∀ ps : List (Timers × Nat),
        ps.countP (·.1 = .timer1) + ps.countP (·.1 = .timer2) = ps.length := by
      intro ps
      induction ps with
      | nil => rfl
      | cons p ps ih =>
        rcases p with ⟨_ | _, n⟩ <;> simp <;> omega
    exact (hsplit _).trans hlength
  have hfirst : constructed .timer1 + seconds 1 + seconds 1 * linesOf .timer1 st.loop.shared.out ≤
      st.loop.world.steady := hlast .timer1
  have hsecond : constructed .timer2 + seconds 1 + seconds 2 * linesOf .timer2 st.loop.shared.out ≤
      st.loop.world.steady := hlast .timer2
  have h₁ := hstart .timer1
  have h₂ := hstart .timer2
  unfold seconds at hfirst hsecond ⊢
  omega

/-- No handler comes between another's actions, the numbers are printed in turn, none of them
before its time, and after so many events and enough time all threads return from `run`. Then
the last number is the limit. The strand and the two threads are those of timer4.cpp; timer3.cpp
and timer5.cpp have one thread and no strand, which is put in here to say the same of all. -/
theorem printers_count_in_turn (c : Code ι) (constructed : ι → Nat) (w : World) (threads : Nat)
    {trace : List (StrandEvent ι World)} {st : Strand (Printer ι) (Frame ι) ι World}
    (h : (c.handlers.strandMachine threads).Run (.init (c.init constructed w)) trace st) :
    (∀ t t', (st.inside t).isSome → (st.inside t').isSome → t = t') ∧
      (∃ n ≤ c.limit, (counts st.loop.shared.out).map Prod.snd = List.range n) ∧
      (∀ i, 0 < linesOf i st.loop.shared.out → constructed i + seconds 1 +
        c.period i * (linesOf i st.loop.shared.out - 1) ≤ st.loop.world.steady) ∧
      trace.countP (!·.forget.isPass) ≤ (c.limit + c.timers.length) * (c.longest + 3) ∧
      (0 < threads → ¬ Finished threads st → ∃ w, st.loop.world.steady ≤ w.steady ∧
        ∃ e, e.forget.isPass = false ∧ (c.handlers.strandMachine threads).enabled
          { st with loop := { st.loop with world := w } } e) ∧
      (c.timers ≠ [] → Finished threads st →
        (counts st.loop.shared.out).map Prod.snd = List.range c.limit ∧
        st.loop.shared.destroy = st.loop.shared.out ++ [.finalCount c.limit] ∧
        ∀ i, constructed i + seconds 1 + c.period i * linesOf i st.loop.shared.out ≤
          st.loop.world.steady) := by
  obtain ⟨inside, hshows, hserial⟩ := Strand.serial h
  obtain ⟨place, hinside, hcounting, hweight⟩ := counting_of_run hserial
  refine ⟨fun t t' => Strand.exclusive h, ⟨_, ?_, hcounting.numbers⟩, hcounting.timed, ?_,
    goes_on h, fun htimers hfinished => ?_⟩
  · have hle : uncounted place ≤ passed place := by
      rcases place with _ | ⟨i, stage⟩
      · exact Nat.le_refl 0
      · cases stage <;> simp [uncounted, passed]
    exact Nat.le_trans (Nat.add_le_add_left hle _) hcounting.below
  · rw [List.countP_map] at hweight
    exact Nat.le_trans (Nat.le_add_right _ _) hweight
  · obtain ⟨hcount, hnumbers, hlast⟩ := finished h htimers hfinished
    refine ⟨hnumbers, ?_, hlast⟩
    rw [Printer.destroy, hcount]

/-- timer4.cpp, when its timers have long expired. The second expires while the first thread
prints. -/
theorem printers_count_in_turn_ten :
    let round : List (StrandEvent Timers World) :=
      [.complete .timer1, .enter 0, .act 0, .complete .timer2] ++ List.replicate 6 (.act 0) ++
        .enter 1 :: List.replicate 12 (.act 1)
    let last : List (StrandEvent Timers World) :=
      [.complete .timer1, .enter 1, .complete .timer2, .act 1, .enter 0, .act 0]
    let trace := .pass ⟨seconds 20, 0⟩ :: (List.replicate 5 round).flatten ++ last
    ∃ st, (timer4.handlers.strandMachine 2).Run (.init (timer4.init (fun _ => 0) ⟨0, 0⟩)) trace st ∧
      Finished 2 st ∧ (counts st.loop.shared.out).map Prod.snd = List.range 10 ∧
      st.loop.shared.destroy = st.loop.shared.out ++ [.finalCount 10] := by
  intro round last trace
  have hadmits : (timer4.handlers.strandMachine 2).Admits
      (.init (timer4.init (fun _ => 0) ⟨0, 0⟩)) trace := by decide +kernel
  have hrun := hadmits.run
  generalize hst : List.foldl _ _ trace = st at hrun
  have hfinished : Finished 2 st := by
    rw [← hst]
    decide +kernel
  obtain ⟨-, -, -, -, -, hlast⟩ := printers_count_in_turn timer4 (fun _ => 0) ⟨0, 0⟩ 2 hrun
  obtain ⟨hnumbers, hfinal, -⟩ := hlast (by decide) hfinished
  exact ⟨st, hrun, hfinished, hnumbers, hfinal⟩

end Runs

end AsioExamples.Timer
