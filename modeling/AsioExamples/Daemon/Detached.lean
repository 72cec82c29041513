import AsioExamples.Daemon.Process
import Mathlib.Data.List.Nodup

/-!
# What becomes of the daemon

Of the processes of the program one goes on and the others have only to exit. The one that goes
on to run the context belongs to nobody's terminal, and its standard streams are not those of who
started it.
-/

namespace AsioExamples.Daemon

set_option autoImplicit false

/-- The standard streams of a table that was `T`. -/
structure Standard (T t : Descriptors Description) (stdin stdout stderr : Option Description) :
    Prop where
  stdin : t.get 0 = stdin
  stdout : t.get 1 = stdout
  stderr : t.get 2 = stderr
  rest : ∀ n, 3 ≤ n → t.get n = T.get n

section Standard
variable {T t : Descriptors Description} {a b c : Option Description} {x y z : Description}

theorem standard_self (T : Descriptors Description) :
    Standard T T (T.get 0) (T.get 1) (T.get 2) := ⟨rfl, rfl, rfl, fun _ _ => rfl⟩

theorem Standard.remove_zero (h : Standard T t a b c) : Standard T (t.remove 0) none b c where
  stdin := Descriptors.get_remove_self ..
  stdout := (Descriptors.get_remove_of_ne (by decide)).trans h.stdout
  stderr := (Descriptors.get_remove_of_ne (by decide)).trans h.stderr
  rest n hn := (Descriptors.get_remove_of_ne (by omega)).trans (h.rest n hn)

theorem Standard.remove_one (h : Standard T t a b c) : Standard T (t.remove 1) a none c where
  stdin := (Descriptors.get_remove_of_ne (by decide)).trans h.stdin
  stdout := Descriptors.get_remove_self ..
  stderr := (Descriptors.get_remove_of_ne (by decide)).trans h.stderr
  rest n hn := (Descriptors.get_remove_of_ne (by omega)).trans (h.rest n hn)

theorem Standard.remove_two (h : Standard T t a b c) : Standard T (t.remove 2) a b none where
  stdin := (Descriptors.get_remove_of_ne (by decide)).trans h.stdin
  stdout := (Descriptors.get_remove_of_ne (by decide)).trans h.stdout
  stderr := Descriptors.get_remove_self ..
  rest n hn := (Descriptors.get_remove_of_ne (by omega)).trans (h.rest n hn)

theorem Standard.insert_zero (h : Standard T t none b c) :
    Standard T (t.insert x) (some x) b c := by
  have hlowest : t.lowest = 0 := Descriptors.lowest_eq h.stdin nofun
  have hother : ∀ n, n ≠ 0 → (t.insert x).get n = t.get n := by
    intro n hn
    exact Descriptors.get_insert_of_ne (hlowest ▸ hn)
  refine ⟨?_, (hother 1 (by decide)).trans h.stdout, (hother 2 (by decide)).trans h.stderr,
    fun n hn => (hother n (by omega)).trans (h.rest n hn)⟩
  have hself := Descriptors.get_insert_lowest x t
  rwa [hlowest] at hself

theorem Standard.insert_one (h : Standard T t (some y) none c) :
    Standard T (t.insert x) (some y) (some x) c := by
  have hlowest : t.lowest = 1 := by
    apply Descriptors.lowest_eq h.stdout
    intro m hm
    obtain rfl : m = 0 := by omega
    rw [h.stdin]
    rfl
  have hother : ∀ n, n ≠ 1 → (t.insert x).get n = t.get n := by
    intro n hn
    exact Descriptors.get_insert_of_ne (hlowest ▸ hn)
  refine ⟨(hother 0 (by decide)).trans h.stdin, ?_, (hother 2 (by decide)).trans h.stderr,
    fun n hn => (hother n (by omega)).trans (h.rest n hn)⟩
  have hself := Descriptors.get_insert_lowest x t
  rwa [hlowest] at hself

theorem Standard.insert_two (h : Standard T t (some y) (some z) none) :
    Standard T (t.insert x) (some y) (some z) (some x) := by
  have hlowest : t.lowest = 2 := by
    apply Descriptors.lowest_eq h.stderr
    intro m hm
    obtain rfl | rfl : m = 0 ∨ m = 1 := by omega
    · rw [h.stdin]
      rfl
    · rw [h.stdout]
      rfl
  have hother : ∀ n, n ≠ 2 → (t.insert x).get n = t.get n := by
    intro n hn
    exact Descriptors.get_insert_of_ne (hlowest ▸ hn)
  refine ⟨(hother 0 (by decide)).trans h.stdin, (hother 1 (by decide)).trans h.stdout, ?_,
    fun n hn => (hother n (by omega)).trans (h.rest n hn)⟩
  have hself := Descriptors.get_insert_lowest x t
  rwa [hlowest] at hself

end Standard

/-- The library knows nothing of the descriptor. -/
def Spared (n : Nat) (d : Description) (proc : Process) : Prop :=
  proc.descriptors.get n = some d ∧ n ∉ proc.own

/-- What the library has for itself is in use. -/
structure Held (proc : Process) : Prop where
  nodup : proc.own.Nodup
  inUse : ∀ n ∈ proc.own, (proc.descriptors.get n).isSome

section Library
variable {proc : Process} {call : LibraryCall} {calls : List LibraryCall}
  {n : Nat} {d : Description}

theorem Spared.next (h : Spared n d proc) (hcall : libraryMachine.enabled proc call) :
    Spared n d (libraryMachine.next proc call) := by
  obtain ⟨hget, hown⟩ := h
  cases call with
  | opened m =>
    refine ⟨Descriptors.get_insert_of_some hget, fun hmem => ?_⟩
    rcases List.mem_append.mp hmem with hold | hnew
    · exact hown hold
    · rw [List.mem_singleton.mp hnew, Descriptors.get_lowest] at hget
      cases hget
  | closed m =>
    have hne : m ≠ n := by
      rintro rfl
      exact hown hcall
    exact ⟨(Descriptors.get_remove_of_ne hne).trans hget,
      fun hmem => hown (List.mem_of_mem_erase hmem)⟩

theorem Spared.after_calls (h : Spared n d proc) (hcalls : libraryMachine.Admits proc calls) :
    Spared n d (calls.foldl libraryMachine.next proc) :=
  hcalls.run.invariant (I := fun _ => Spared n d) h fun _ _ _ hi he => hi.next he

theorem Held.next (h : Held proc) : Held (libraryMachine.next proc call) := by
  cases call with
  | opened m =>
    have hfree : proc.descriptors.lowest ∉ proc.own := by
      intro hmem
      have hsome := h.inUse _ hmem
      rw [Descriptors.get_lowest] at hsome
      cases hsome
    refine ⟨?_, fun n hn => ?_⟩
    · exact List.nodup_append.mpr ⟨h.nodup, List.nodup_singleton _, fun a ha b hb hab =>
        hfree (List.mem_singleton.mp hb ▸ hab ▸ ha)⟩
    · rcases List.mem_append.mp hn with hold | hnew
      · obtain ⟨d, hd⟩ := Option.isSome_iff_exists.mp (h.inUse n hold)
        exact Option.isSome_iff_exists.mpr ⟨d, Descriptors.get_insert_of_some hd⟩
      · rw [List.mem_singleton.mp hnew]
        exact Option.isSome_iff_exists.mpr ⟨_, Descriptors.get_insert_lowest ..⟩
  | closed m =>
    refine ⟨h.nodup.erase m, fun n hn => ?_⟩
    obtain ⟨hne, hmem⟩ := h.nodup.mem_erase_iff.mp hn
    have hget : (proc.descriptors.remove m).get n = proc.descriptors.get n :=
      Descriptors.get_remove_of_ne hne.symm
    change ((proc.descriptors.remove m).get n).isSome
    rw [hget]
    exact h.inUse n hmem

theorem Held.after_calls (h : Held proc) (hcalls : libraryMachine.Admits proc calls) :
    Held (calls.foldl libraryMachine.next proc) :=
  hcalls.run.invariant (I := fun _ => Held) h fun _ _ _ hi _ => hi.next

theorem calls_eq (proc : Process) (calls : List LibraryCall) :
    ∃ t own, calls.foldl libraryMachine.next proc =
      { proc with descriptors := t, own := own } := by
  induction calls generalizing proc with
  | nil => exact ⟨_, _, rfl⟩
  | cons call calls ih =>
    obtain ⟨t, own, h⟩ := ih (libraryMachine.next proc call)
    refine ⟨t, own, h.trans ?_⟩
    cases call <;> rfl

theorem group_unwind (proc : Process) : proc.unwind.group = proc.group := by
  unfold Process.unwind
  generalize proc.own ++ proc.socket.toList = numbers
  induction numbers generalizing proc with
  | nil => rfl
  | cons n numbers ih => exact ih (proc.close n)

end Library

def devNull (n : Nat) : Description := .file "/dev/null" [.readOnly] 0 n

def outputFile (n : Nat) : Description := .file output openFlags openMode n

/-- The session and the group of who started the program. -/
def Alike (launcher proc : Process) : Prop :=
  proc.session = launcher.session ∧ proc.group = launcher.group

structure Apart (leader : Nat) (proc : Process) : Prop where
  session : proc.session = leader
  group : proc.group = leader
  terminal : proc.terminal = none

theorem Apart.of_eq {leader : Nat} {proc proc' : Process} (h : Apart leader proc)
    (hsession : proc'.session = proc.session) (hgroup : proc'.group = proc.group)
    (hterminal : proc'.terminal = proc.terminal) : Apart leader proc' :=
  ⟨hsession.trans h.session, hgroup.trans h.group, hterminal.trans h.terminal⟩

/-- The table that the constructors left. -/
def Made (launcher proc : Process) (T : Descriptors Description) : Prop :=
  (∃ s, proc.socket = some s ∧ T.get s = some .socket ∧ s ∉ proc.own ∧
    launcher.descriptors.get s = none) ∧
  ∀ n d, launcher.descriptors.get n = some d → T.get n = some d ∧ n ∉ proc.own

theorem made_construct {launcher : Process} {before after : List LibraryCall}
    (hbefore : libraryMachine.Admits launcher.launched before)
    (hafter : libraryMachine.Admits
      (before.foldl libraryMachine.next launcher.launched).openSocket after) :
    Made launcher (launcher.launched.construct before after)
      (launcher.launched.construct before after).descriptors := by
  have hheld : Held launcher.launched := ⟨List.nodup_nil, List.forall_mem_nil _⟩
  have hheld := hheld.after_calls hbefore
  have hspared : ∀ n d, launcher.descriptors.get n = some d →
      Spared n d (before.foldl libraryMachine.next launcher.launched) := by
    intro n d hd
    have hspared : Spared n d launcher.launched := ⟨hd, List.not_mem_nil⟩
    exact hspared.after_calls hbefore
  obtain ⟨t, own, hafters⟩ := calls_eq
    (before.foldl libraryMachine.next launcher.launched).openSocket after
  unfold Process.construct
  generalize before.foldl libraryMachine.next launcher.launched = proc at *
  have hsocket : Spared proc.descriptors.lowest .socket proc.openSocket := by
    refine ⟨Descriptors.get_insert_lowest .., fun hmem => ?_⟩
    have hsome := hheld.inUse _ hmem
    rw [Descriptors.get_lowest] at hsome
    cases hsome
  constructor
  · obtain ⟨hget, hown⟩ := hsocket.after_calls hafter
    refine ⟨proc.descriptors.lowest, ?_, hget, hown, ?_⟩
    · rw [hafters]
      rfl
    · cases hd : launcher.descriptors.get proc.descriptors.lowest with
      | none => rfl
      | some d =>
        have hget := (hspared _ d hd).1
        rw [Descriptors.get_lowest] at hget
        cases hget
  · intro n d hd
    have hopened : Spared n d proc.openSocket :=
      ⟨Descriptors.get_insert_of_some (hspared n d hd).1, (hspared n d hd).2⟩
    exact hopened.after_calls hafter

/-- The descriptors of a daemon, none of which are the library's own. -/
structure Equipped (launcher proc : Process) : Prop where
  stdin : ∃ n, Spared 0 (devNull n) proc
  output : ∃ n, Spared 1 (outputFile n) proc ∧ Spared 2 (outputFile n) proc
  socket : ∃ s, 3 ≤ s ∧ proc.socket = some s ∧ Spared s .socket proc
  inherited : ∀ n d, 3 ≤ n → launcher.descriptors.get n = some d → Spared n d proc

/-- The library makes its own descriptors anew and leaves the others alone. -/
theorem Equipped.after_calls {launcher proc : Process} {calls : List LibraryCall}
    (h : Equipped launcher proc) (hcalls : libraryMachine.Admits proc calls) :
    Equipped launcher (calls.foldl libraryMachine.next proc) := by
  obtain ⟨⟨n, hstdin⟩, ⟨m, hstdout, hstderr⟩, ⟨s, hthree, hsocket, hspared⟩, hinherited⟩ := h
  refine ⟨⟨n, hstdin.after_calls hcalls⟩,
    ⟨m, hstdout.after_calls hcalls, hstderr.after_calls hcalls⟩,
    ⟨s, hthree, ?_, hspared.after_calls hcalls⟩,
    fun k d hk hd => (hinherited k d hk hd).after_calls hcalls⟩
  obtain ⟨t, own, hsame⟩ := calls_eq proc calls
  rw [hsame]
  exact hsocket

structure Third (launcher : Process) (pid : Nat) (pids : List Nat) (p : Nat) (proc : Process)
    (a b c : Option Description) : Prop where
  apart : ∃ leader, pids = [pid, leader, p] ∧ Apart leader proc
  umask : proc.umask = 0
  table : ∃ T, Made launcher proc T ∧ Standard T proc.descriptors a b c

/-- What is true of the process that goes on, by the call that comes next. -/
def Stands (launcher : Process) (pid : Nat) (pids : List Nat) (p : Nat) (proc : Process) :
    Point → Prop
  | .construct => pids = [pid] ∧ p = pid ∧ proc = launcher.launched
  | .firstFork => pids = [pid] ∧ p = pid ∧ Alike launcher proc ∧
      Made launcher proc proc.descriptors
  | .setsid => pids = [pid, p] ∧ Alike launcher proc ∧ Made launcher proc proc.descriptors
  | .chdir | .umask => pids = [pid, p] ∧ Apart p proc ∧ Made launcher proc proc.descriptors
  | .secondFork => pids = [pid, p] ∧ Apart p proc ∧ proc.umask = 0 ∧
      Made launcher proc proc.descriptors
  | .closeStdin => ∃ a b c, Third launcher pid pids p proc a b c
  | .closeStdout => ∃ b c, Third launcher pid pids p proc none b c
  | .closeStderr => ∃ c, Third launcher pid pids p proc none none c
  | .openNull => Third launcher pid pids p proc none none none
  | .openOutput => ∃ n, Third launcher pid pids p proc (some (devNull n)) none none
  | .dup => ∃ n m, Third launcher pid pids p proc (some (devNull n)) (some (outputFile m)) none
  | .notifyChild => ∃ n m, Third launcher pid pids p proc (some (devNull n))
      (some (outputFile m)) (some (outputFile m))
  | .run => (∃ leader, pids = [pid, leader, p] ∧ Apart leader proc) ∧ proc.umask = 0 ∧
      Equipped launcher proc
  | .exit _ | .exited _ => True

/-- The calls that are left, in the process itself and in those that it makes. -/
def Point.rank : Point → Nat
  | .construct => 17
  | .firstFork => 16
  | .setsid => 14
  | .chdir => 13
  | .umask => 12
  | .secondFork => 11
  | .closeStdin => 9
  | .closeStdout => 8
  | .closeStderr => 7
  | .openNull => 6
  | .openOutput => 5
  | .dup => 4
  | .notifyChild => 3
  | .run => 2
  | .exit _ => 1
  | .exited _ => 0

section Becoming
variable (pid : Nat) (launcher : Process) (others : List Nat)

/-- Process `p` goes on, `leaving` have to exit and `left` have exited. -/
structure Becoming (st : System) (leaving left : List Nat) (p : Nat) (proc : Process) : Prop where
  same : st.others = others
  pids : st.pids.Perm (p :: (leaving ++ left))
  launched : pid ∈ st.pids
  nodup : st.pids.Nodup
  fresh : ∀ q ∈ st.pids, q ≠ pid → q ∉ others
  unused : ∀ q, q ∉ st.pids → st.processes q = none
  here : st.processes p = some proc
  exiting : ∀ q ∈ leaving, ∃ proc', st.processes q = some proc' ∧ proc'.point = .exit 0
  exited : ∀ q ∈ left, ∃ proc', st.processes q = some proc' ∧ proc'.point = .exited 0
  first : ∀ proc', st.processes pid = some proc' → proc'.group = launcher.group
  stands : Stands launcher pid st.pids p proc proc.point
  told : ∀ status, proc.point = .exit status ∨ proc.point = .exited status →
    ∃ message, (p, message) ∈ st.syslog
  alone : p = pid → st.pids = [pid]

variable {pid launcher others} {st : System} {leaving left : List Nat} {p : Nat} {proc : Process}

theorem becoming_launch (pid : Nat) (launcher : Process) (others : List Nat) :
    Becoming pid launcher others (launch pid launcher others) [] [] pid launcher.launched where
  same := rfl
  pids := .refl _
  launched := List.mem_singleton_self _
  nodup := List.nodup_singleton _
  fresh q hq hne := absurd (List.mem_singleton.mp hq) hne
  unused q hq := by
    have hne : q ≠ pid := fun he => hq (he ▸ List.mem_singleton_self pid)
    simp [launch, hne]
  here := by simp [launch]
  exiting := List.forall_mem_nil _
  exited := List.forall_mem_nil _
  first proc' h := by
    simp only [launch, Function.update_self, Option.some.injEq] at h
    rw [← h]
    rfl
  stands := ⟨rfl, rfl, rfl⟩
  told _ h := by rcases h with h | h <;> cases h
  alone _ := rfl

/-- The process that goes on makes a call that makes no process. -/
theorem Becoming.goOn (h : Becoming pid launcher others st leaving left p proc) {st' : System}
    {proc' : Process} (hothers : st'.others = st.others) (hpids : st'.pids = st.pids)
    (hprocesses : st'.processes = Function.update st.processes p (some proc'))
    (hgroup : p = pid → proc'.group = proc.group)
    (hstands : Stands launcher pid st.pids p proc' proc'.point)
    (htold : ∀ status, proc'.point = .exit status ∨ proc'.point = .exited status →
      ∃ message, (p, message) ∈ st'.syslog) :
    Becoming pid launcher others st' leaving left p proc' := by
  have hnodup := h.pids.nodup_iff.mp h.nodup
  obtain ⟨hp, -⟩ := List.nodup_cons.mp hnodup
  have hmem : p ∈ st.pids := h.pids.mem_iff.mpr List.mem_cons_self
  have hsame : ∀ q, q ≠ p → st'.processes q = st.processes q := by
    intro q hq
    rw [hprocesses]
    exact Function.update_of_ne hq ..
  have hself : st'.processes p = some proc' := by
    rw [hprocesses]
    exact Function.update_self ..
  refine ⟨hothers.trans h.same, hpids ▸ h.pids, hpids ▸ h.launched, hpids ▸ h.nodup,
    hpids ▸ h.fresh, fun q hq => ?_, hself, fun q hq => ?_, fun q hq => ?_, fun proc'' hproc => ?_,
    hpids ▸ hstands, htold, hpids ▸ h.alone⟩
  · rw [hpids] at hq
    rw [hsame q fun he => hq (he ▸ hmem)]
    exact h.unused q hq
  · rw [hsame q fun he => hp (he ▸ List.mem_append_left _ hq)]
    exact h.exiting q hq
  · rw [hsame q fun he => hp (he ▸ List.mem_append_right _ hq)]
    exact h.exited q hq
  · by_cases hpid : p = pid
    · subst hpid
      rw [hself] at hproc
      cases hproc
      exact (hgroup rfl).trans (h.first _ h.here)
    · rw [hsame pid (Ne.symm hpid)] at hproc
      exact h.first _ hproc

theorem Becoming.leave (h : Becoming pid launcher others st leaving left p proc) {q : Nat}
    (hq : q ∈ leaving) {proc' : Process} (hproc : st.processes q = some proc') :
    Becoming pid launcher others (st.put q { proc' with point := .exited 0 }) (leaving.erase q)
      (q :: left) p proc := by
  have hnodup := h.pids.nodup_iff.mp h.nodup
  obtain ⟨hp, hnodup⟩ := List.nodup_cons.mp hnodup
  have hne : q ≠ p := fun he => hp (he ▸ List.mem_append_left _ hq)
  have hmem : q ∈ st.pids :=
    h.pids.mem_iff.mpr (List.mem_cons_of_mem _ (List.mem_append_left _ hq))
  have hsame : ∀ r, r ≠ q → (st.put q { proc' with point := .exited 0 }).processes r =
      st.processes r := fun r hr => Function.update_of_ne hr ..
  have hself : (st.put q { proc' with point := .exited 0 }).processes q =
      some { proc' with point := .exited 0 } := Function.update_self ..
  have hperm : (leaving ++ left).Perm (leaving.erase q ++ q :: left) := by
    refine ((List.perm_cons_erase hq).append_right left).trans ?_
    exact List.perm_middle.symm
  refine ⟨h.same, h.pids.trans (hperm.cons p), h.launched, h.nodup, h.fresh, fun r hr => ?_, ?_,
    fun r hr => ?_, fun r hr => ?_, fun proc'' hproc'' => ?_, h.stands, h.told,
    h.alone⟩
  · rw [hsame r fun he => hr (he ▸ hmem)]
    exact h.unused r hr
  · rw [hsame p hne.symm]
    exact h.here
  · have hrq : r ≠ q := by
      rintro rfl
      exact List.Nodup.not_mem_erase hnodup.of_append_left hr
    rw [hsame r hrq]
    exact h.exiting r (List.mem_of_mem_erase hr)
  · by_cases hrq : r = q
    · subst hrq
      exact ⟨_, hself, rfl⟩
    · rw [hsame r hrq]
      exact h.exited r ((List.mem_cons.mp hr).resolve_left hrq)
  · by_cases hpid : pid = q
    · subst hpid
      rw [hself] at hproc''
      cases hproc''
      exact h.first proc' hproc
    · rw [hsame pid hpid] at hproc''
      exact h.first _ hproc''

theorem Becoming.fork (h : Becoming pid launcher others st leaving left p proc) {next : Point}
    {child : Nat} (hothers : child ∉ st.others) (hpids : child ∉ st.pids)
    (hnext : ∀ status, next ≠ .exit status ∧ next ≠ .exited status)
    (hstands : Stands launcher pid (st.pids ++ [child]) child
      { proc with parent := p, point := next } next) :
    Becoming pid launcher others (st.fork p proc next child) (p :: leaving) left child
      { proc with parent := p, point := next } := by
  have hmem : p ∈ st.pids := h.pids.mem_iff.mpr List.mem_cons_self
  have hne : child ≠ p := fun he => hpids (he ▸ hmem)
  have hchild : (st.fork p proc next child).processes child =
      some { proc with parent := p, point := next } := Function.update_self ..
  have hparent : (st.fork p proc next child).processes p =
      some { proc with point := .exit 0 } :=
    (Function.update_of_ne hne.symm ..).trans (Function.update_self ..)
  have hsame : ∀ q, q ≠ p → q ≠ child →
      (st.fork p proc next child).processes q = st.processes q := fun q hp hc =>
    (Function.update_of_ne hc ..).trans (Function.update_of_ne hp ..)
  have hp : p ∉ leaving ++ left := (List.nodup_cons.mp (h.pids.nodup_iff.mp h.nodup)).1
  have hold : ∀ q ∈ leaving ++ left, q ≠ p ∧ q ≠ child := by
    intro q hq
    refine ⟨fun he => hp (he ▸ hq), fun he => hpids ?_⟩
    rw [← he]
    exact h.pids.mem_iff.mpr (List.mem_cons_of_mem _ hq)
  refine ⟨h.same, ?_, List.mem_append_left _ h.launched, ?_, fun q hq hqp => ?_,
    fun q hq => ?_, hchild, fun q hq => ?_,
    fun q hq => ?_, fun proc' hproc => ?_, hstands, fun status hs => ?_,
    fun hc => absurd h.launched (hc ▸ hpids)⟩
  · exact (List.perm_append_singleton child st.pids).trans (h.pids.cons child)
  · exact List.nodup_append.mpr ⟨h.nodup, List.nodup_singleton _, fun a ha b hb hab =>
      hpids (List.mem_singleton.mp hb ▸ hab ▸ ha)⟩
  · rcases List.mem_append.mp hq with hq | hq
    · exact h.fresh q hq hqp
    · rw [List.mem_singleton.mp hq, ← h.same]
      exact hothers
  · have hq := List.mem_append.not.mp hq
    rw [not_or, List.mem_singleton] at hq
    rw [hsame q (fun he => hq.1 (he ▸ hmem)) hq.2]
    exact h.unused q hq.1
  · rcases List.mem_cons.mp hq with rfl | hq
    · exact ⟨_, hparent, rfl⟩
    · obtain ⟨hqp, hqc⟩ := hold q (List.mem_append_left _ hq)
      rw [hsame q hqp hqc]
      exact h.exiting q hq
  · obtain ⟨hqp, hqc⟩ := hold q (List.mem_append_right _ hq)
    rw [hsame q hqp hqc]
    exact h.exited q hq
  · have hpid : pid ≠ child := fun he => hpids (he ▸ h.launched)
    by_cases hpp : pid = p
    · subst hpp
      rw [hparent] at hproc
      cases hproc
      exact h.first proc h.here
    · rw [hsame pid hpp hpid] at hproc
      exact h.first _ hproc
  · obtain ⟨hexit, hexited⟩ := hnext status
    rcases hs with hs | hs
    · exact absurd hs hexit
    · exact absurd hs hexited

theorem ne_of_pids {pids : List Nat} (hnodup : pids.Nodup) (hpids : pids = [pid, p]) : p ≠ pid := by
  rw [hpids] at hnodup
  rintro rfl
  simp at hnodup

/-- The first child is in no group but that of the launcher, and nobody is in its own. -/
theorem Becoming.setsid (h : Becoming pid launcher others st leaving left p proc)
    (hgroup : launcher.group ∈ pid :: others) (hpids : st.pids = [pid, p])
    (halike : Alike launcher proc) :
    st.setsid p proc = { proc with session := p, group := p, terminal := none } := by
  have hne : p ≠ pid := ne_of_pids h.nodup hpids
  have hfresh : p ∉ others := h.fresh p (h.pids.mem_iff.mpr List.mem_cons_self) hne
  have hnot : launcher.group ≠ p := by
    rintro rfl
    rcases List.mem_cons.mp hgroup with he | hmem
    · exact hne he
    · exact hfresh hmem
  refine if_neg ?_
  rintro (hmem | ⟨q, hq, hany⟩)
  · exact hfresh (h.same ▸ hmem)
  · obtain ⟨proc', hproc, hp⟩ := (Option.any_eq_true _ _).mp hany
    have hp : proc'.group = p := of_decide_eq_true hp
    rw [hpids] at hq
    rcases List.mem_cons.mp hq with rfl | hq
    · exact hnot ((h.first proc' hproc).symm.trans hp)
    · rw [List.mem_singleton.mp hq, h.here] at hproc
      cases hproc
      exact hnot (halike.2.symm.trans hp)

/-- One process goes on, and fewer calls are left. -/
def GoesOn (pid : Nat) (launcher : Process) (others : List Nat) (point : Point) (exits : Nat)
    (st : System) : Prop :=
  ∃ leaving left p proc, Becoming pid launcher others st leaving left p proc ∧
    proc.point.rank + leaving.length < point.rank + exits

theorem Becoming.next (h : Becoming pid launcher others st leaving left p proc) {st' : System}
    {proc' : Process} {point : Point} (hothers : st'.others = st.others)
    (hpids : st'.pids = st.pids)
    (hprocesses : st'.processes = Function.update st.processes p (some proc'))
    (hgroup : p = pid → proc'.group = proc.group)
    (hstands : Stands launcher pid st.pids p proc' proc'.point)
    (htold : ∀ status, proc'.point = .exit status ∨ proc'.point = .exited status →
      ∃ message, (p, message) ∈ st'.syslog)
    (hrank : proc'.point.rank < point.rank) :
    GoesOn pid launcher others point leaving.length st' :=
  ⟨leaving, left, p, proc', h.goOn hothers hpids hprocesses hgroup hstands htold,
    Nat.add_lt_add_right hrank _⟩

theorem Becoming.stop (h : Becoming pid launcher others st leaving left p proc) {st' : System}
    {proc' : Process} {point : Point} {message : String} {status : Nat}
    (hothers : st'.others = st.others) (hpids : st'.pids = st.pids)
    (hprocesses : st'.processes =
      Function.update st.processes p (some { proc' with point := .exit status }))
    (hgroup : proc'.group = proc.group) (hlog : st'.syslog = st.syslog ++ [(p, message)])
    (hrank : 1 < point.rank) : GoesOn pid launcher others point leaving.length st' := by
  refine h.next hothers hpids hprocesses (fun _ => hgroup) trivial (fun _ _ => ⟨message, ?_⟩)
    hrank
  rw [hlog]
  exact List.mem_append_right _ (List.mem_singleton_self _)

theorem Becoming.forks (h : Becoming pid launcher others st leaving left p proc)
    {point next : Point}
    {child : Nat} (hothers : child ∉ st.others) (hpids : child ∉ st.pids)
    (hnext : ∀ status, next ≠ .exit status ∧ next ≠ .exited status)
    (hstands : Stands launcher pid (st.pids ++ [child]) child
      { proc with parent := p, point := next } next)
    (hrank : next.rank + 1 < point.rank) :
    GoesOn pid launcher others point leaving.length (st.fork p proc next child) := by
  refine ⟨_, left, child, _, h.fork hothers hpids hnext hstands, ?_⟩
  simp only [List.length_cons]
  omega

theorem first_step (h : Becoming pid launcher others st leaving left p proc)
    (hpoint : proc.point = .construct ∨ proc.point = .firstFork) {o : Outcome}
    (ho : Allowed st proc proc.point o) :
    GoesOn pid launcher others proc.point leaving.length (st.step p proc proc.point o) := by
  have hstands := h.stands
  rcases hpoint with hpoint | hpoint
  · rw [hpoint] at ho hstands ⊢
    obtain ⟨hpids, rfl, hproc⟩ := hstands
    cases o with
    | constructed before after =>
      subst hproc
      have hmade := made_construct ho.1 ho.2
      have halike : Alike launcher (launcher.launched.construct before after) := by
        unfold Process.construct
        obtain ⟨t, own, hbefore⟩ := calls_eq launcher.launched before
        obtain ⟨t', own', hafter⟩ := calls_eq
          (before.foldl libraryMachine.next launcher.launched).openSocket after
        rw [hafter, hbefore]
        exact ⟨rfl, rfl⟩
      exact h.next rfl rfl rfl (fun _ => halike.2) ⟨hpids, rfl, halike, hmade⟩ nofun
        (by simp [Point.rank])
    | failed what => exact h.stop rfl rfl rfl (group_unwind _) rfl (by decide)
    | _ => cases ho
  · rw [hpoint] at ho hstands ⊢
    obtain ⟨hpids, rfl, halike, hmade⟩ := hstands
    cases o with
    | child c =>
      refine h.forks ho.1 ho.2 (fun _ => ⟨nofun, nofun⟩) ⟨?_, halike, hmade⟩ (by decide)
      rw [hpids]
      rfl
    | failed m => exact h.stop rfl rfl rfl rfl rfl (by decide)
    | _ => cases ho

/-- The next call of the process that makes a session of its own. -/
theorem second_step (h : Becoming pid launcher others st leaving left p proc)
    (hgroup : launcher.group ∈ pid :: others) (hpoint : proc.point = .setsid ∨
      proc.point = .chdir ∨ proc.point = .umask ∨ proc.point = .secondFork) {o : Outcome}
    (ho : Allowed st proc proc.point o) :
    GoesOn pid launcher others proc.point leaving.length (st.step p proc proc.point o) := by
  have hstands := h.stands
  rcases hpoint with hpoint | hpoint | hpoint | hpoint
  · rw [hpoint] at ho hstands ⊢
    obtain ⟨hpids, halike, hmade⟩ := hstands
    cases o with
    | done =>
      have hsetsid := h.setsid hgroup hpids halike
      have hne : p ≠ pid := ne_of_pids h.nodup hpids
      have hprocesses : (st.step p proc .setsid .done).processes = Function.update st.processes p
          (some { proc with session := p, group := p, terminal := none, point := .chdir }) := by
        change Function.update st.processes p (some { st.setsid p proc with point := .chdir }) = _
        rw [hsetsid]
      exact h.next rfl rfl hprocesses (fun hp => absurd hp hne) ⟨hpids, ⟨rfl, rfl, rfl⟩, hmade⟩
        nofun (by simp [Point.rank])
    | _ => cases ho
  · rw [hpoint] at ho hstands ⊢
    obtain ⟨hpids, hapart, hmade⟩ := hstands
    cases o with
    | done =>
      exact h.next rfl rfl rfl (fun _ => rfl) ⟨hpids, hapart.of_eq rfl rfl rfl, hmade⟩ nofun
        (by simp [Point.rank])
    | failed m =>
      exact h.next rfl rfl rfl (fun _ => rfl) ⟨hpids, hapart.of_eq rfl rfl rfl, hmade⟩ nofun
        (by simp [Point.rank])
    | _ => cases ho
  · rw [hpoint] at ho hstands ⊢
    obtain ⟨hpids, hapart, hmade⟩ := hstands
    cases o with
    | done =>
      exact h.next rfl rfl rfl (fun _ => rfl) ⟨hpids, hapart.of_eq rfl rfl rfl, rfl, hmade⟩ nofun
        (by simp [Point.rank])
    | _ => cases ho
  · rw [hpoint] at ho hstands ⊢
    obtain ⟨hpids, hapart, humask, hmade⟩ := hstands
    cases o with
    | child c =>
      refine h.forks ho.1 ho.2 (fun _ => ⟨nofun, nofun⟩) ⟨_, _, _, ⟨p, ?_,
        hapart.of_eq rfl rfl rfl⟩, humask, proc.descriptors, hmade, standard_self _⟩ (by decide)
      rw [hpids]
      rfl
    | failed m => exact h.stop rfl rfl rfl rfl rfl (by decide)
    | _ => cases ho

theorem Third.descriptors {pids : List Nat} {a b c a' b' c' : Option Description}
    (h : Third launcher pid pids p proc a b c) {t : Descriptors Description} {next : Point}
    (ht : ∀ T, Standard T proc.descriptors a b c → Standard T t a' b' c') :
    Third launcher pid pids p { proc with descriptors := t, point := next } a' b' c' := by
  obtain ⟨⟨leader, hpids, hapart⟩, humask, T, hmade, htable⟩ := h
  exact ⟨⟨leader, hpids, hapart.of_eq rfl rfl rfl⟩, humask, T, hmade, ht T htable⟩

/-- Where the standard streams were open, the library has none of their descriptors. -/
theorem Third.equipped {pids : List Nat} {n m : Nat}
    (h : Third launcher pid pids p proc (some (devNull n)) (some (outputFile m))
      (some (outputFile m)))
    (hstandard : ∀ n < 3, (launcher.descriptors.get n).isSome) : Equipped launcher proc := by
  obtain ⟨-, -, T, ⟨⟨s, hsocket, hget, hown, hfree⟩, hinherited⟩, htable⟩ := h
  have hnot : ∀ k < 3, k ∉ proc.own := by
    intro k hk
    obtain ⟨d, hd⟩ := Option.isSome_iff_exists.mp (hstandard k hk)
    exact (hinherited k d hd).2
  have hthree : 3 ≤ s := by
    by_contra hlt
    have hsome := hstandard s (Nat.lt_of_not_le hlt)
    rw [hfree] at hsome
    cases hsome
  refine ⟨⟨n, htable.stdin, hnot 0 (by decide)⟩, ⟨m, ⟨htable.stdout, hnot 1 (by decide)⟩,
    htable.stderr, hnot 2 (by decide)⟩, ⟨s, hthree, hsocket, ?_, hown⟩, fun k d hk hd => ?_⟩
  · exact (htable.rest s hthree).trans hget
  · obtain ⟨hget, hown⟩ := hinherited k d hd
    exact ⟨(htable.rest k hk).trans hget, hown⟩

/-- The next call of the process that is to be the daemon. -/
theorem third_step (h : Becoming pid launcher others st leaving left p proc)
    (hstandard : ∀ n < 3, (launcher.descriptors.get n).isSome) {o : Outcome}
    (ho : Allowed st proc proc.point o) (hrank : proc.point.rank ≤ 9) :
    GoesOn pid launcher others proc.point leaving.length (st.step p proc proc.point o) := by
  have hstands := h.stands
  cases hpoint : proc.point with
  | closeStdin =>
    rw [hpoint] at ho hstands
    obtain ⟨a, b, c, hthird⟩ := hstands
    cases o with
    | done =>
      exact h.next rfl rfl rfl (fun _ => rfl)
        ⟨b, c, hthird.descriptors fun _ ht => ht.remove_zero⟩ nofun (by simp [Point.rank])
    | _ => cases ho
  | closeStdout =>
    rw [hpoint] at ho hstands
    obtain ⟨b, c, hthird⟩ := hstands
    cases o with
    | done =>
      exact h.next rfl rfl rfl (fun _ => rfl)
        ⟨c, hthird.descriptors fun _ ht => ht.remove_one⟩ nofun (by simp [Point.rank])
    | _ => cases ho
  | closeStderr =>
    rw [hpoint] at ho hstands
    obtain ⟨c, hthird⟩ := hstands
    cases o with
    | done =>
      exact h.next rfl rfl rfl (fun _ => rfl) (hthird.descriptors fun _ ht => ht.remove_two) nofun
        (by simp [Point.rank])
    | _ => cases ho
  | openNull =>
    rw [hpoint] at ho hstands
    have hthird : Third launcher pid st.pids p proc none none none := hstands
    cases o with
    | done =>
      refine h.next rfl rfl rfl (fun _ => rfl)
        ⟨st.opened, hthird.descriptors fun _ ht => ?_⟩ nofun (by simp [Point.rank])
      unfold System.openFile
      rw [hthird.umask]
      exact ht.insert_zero
    | failed m => exact h.stop rfl rfl rfl rfl rfl (by decide)
    | _ => cases ho
  | openOutput =>
    rw [hpoint] at ho hstands
    obtain ⟨n, hthird⟩ := hstands
    cases o with
    | done =>
      refine h.next rfl rfl rfl (fun _ => rfl)
        ⟨n, st.opened, hthird.descriptors fun _ ht => ?_⟩ nofun (by simp [Point.rank])
      unfold System.openFile
      rw [hthird.umask]
      exact ht.insert_one
    | failed m => exact h.stop rfl rfl rfl rfl rfl (by decide)
    | _ => cases ho
  | dup =>
    rw [hpoint] at ho hstands
    obtain ⟨n, m, hthird⟩ := hstands
    cases o with
    | done =>
      have hstdout : proc.descriptors.get 1 = some (outputFile m) := by
        obtain ⟨-, -, T, -, htable⟩ := hthird
        exact htable.stdout
      have hstep : st.step p proc .dup .done = st.put p { proc with
          descriptors := proc.descriptors.insert (outputFile m), point := .notifyChild } := by
        simp only [System.step, hstdout]
      rw [hstep]
      exact h.next rfl rfl rfl (fun _ => rfl)
        ⟨n, m, hthird.descriptors fun _ ht => ht.insert_two⟩ nofun (by simp [Point.rank])
    | failed m => exact h.stop rfl rfl rfl rfl rfl (by decide)
    | _ => cases ho
  | notifyChild =>
    rw [hpoint] at ho hstands
    obtain ⟨n, m, hthird⟩ := hstands
    cases o with
    | recreated calls =>
      obtain ⟨t, own, hcalls⟩ := calls_eq proc calls
      have hgroup : (calls.foldl libraryMachine.next proc).group = proc.group := by rw [hcalls]
      have humask : (calls.foldl libraryMachine.next proc).umask = 0 := by
        rw [hcalls]
        exact hthird.umask
      have hequipped := (hthird.equipped hstandard).after_calls ho
      obtain ⟨leader, hpids, hapart⟩ := hthird.apart
      have hapart : Apart leader (calls.foldl libraryMachine.next proc) := by
        rw [hcalls]
        exact hapart.of_eq rfl rfl rfl
      exact h.next rfl rfl rfl (fun _ => hgroup)
        ⟨⟨leader, hpids, hapart.of_eq rfl rfl rfl⟩, humask, hequipped.stdin, hequipped.output,
          hequipped.socket, hequipped.inherited⟩ nofun (by simp [Point.rank])
    | failed what => exact h.stop rfl rfl rfl (group_unwind _) rfl (by decide)
    | _ => cases ho
  | run =>
    rw [hpoint] at ho
    cases o with
    | done => exact h.stop rfl rfl rfl rfl rfl (by decide)
    | failed what => exact h.stop rfl rfl rfl (group_unwind _) rfl (by decide)
    | _ => cases ho
  | exit status =>
    rw [hpoint] at ho
    cases o with
    | done =>
      exact h.next rfl rfl rfl (fun _ => rfl) trivial (fun _ _ => h.told status (.inl hpoint))
        (by simp [Point.rank])
    | _ => cases ho
  | exited status =>
    rw [hpoint] at ho
    cases ho
  | _ =>
    rw [hpoint] at hrank
    exact absurd hrank (by decide)

theorem becoming_next (h : Becoming pid launcher others st leaving left p proc)
    (hgroup : launcher.group ∈ pid :: others)
    (hstandard : ∀ n < 3, (launcher.descriptors.get n).isSome) {e : Nat × Outcome}
    (he : daemonMachine.enabled st e) :
    GoesOn pid launcher others proc.point leaving.length (daemonMachine.next st e) := by
  obtain ⟨q, o⟩ := e
  obtain ⟨proc', hproc, ho⟩ := he
  have hproc : st.processes q = some proc' := hproc
  have hnext : daemonMachine.next st (q, o) = st.step q proc' proc'.point o := by
    simp only [daemonMachine, hproc]
  have hmem : q ∈ st.pids := by
    by_contra hq
    rw [h.unused q hq] at hproc
    cases hproc
  rw [hnext]
  rcases List.mem_cons.mp (h.pids.mem_iff.mp hmem) with rfl | hother
  · rw [h.here] at hproc
    cases hproc
    cases hpoint : proc.point with
    | construct => exact hpoint ▸ first_step h (.inl hpoint) ho
    | firstFork => exact hpoint ▸ first_step h (.inr hpoint) ho
    | setsid => exact hpoint ▸ second_step h hgroup (.inl hpoint) ho
    | chdir => exact hpoint ▸ second_step h hgroup (.inr (.inl hpoint)) ho
    | umask => exact hpoint ▸ second_step h hgroup (.inr (.inr (.inl hpoint))) ho
    | secondFork => exact hpoint ▸ second_step h hgroup (.inr (.inr (.inr hpoint))) ho
    | _ => exact hpoint ▸ third_step h hstandard ho (by simp [hpoint, Point.rank])
  · rcases List.mem_append.mp hother with hleaving | hleft
    · obtain ⟨proc'', hproc', hexit⟩ := h.exiting q hleaving
      rw [hproc] at hproc'
      cases hproc'
      rw [hexit] at ho ⊢
      cases o with
      | done =>
        refine ⟨_, _, p, proc, h.leave hleaving hproc, ?_⟩
        have hlength := List.length_erase_add_one hleaving
        omega
      | _ => cases ho
    · obtain ⟨proc'', hproc', hexited⟩ := h.exited q hleft
      rw [hproc] at hproc'
      cases hproc'
      rw [hexited] at ho
      cases ho

theorem becoming_of_run (hgroup : launcher.group ∈ pid :: others)
    (hstandard : ∀ n < 3, (launcher.descriptors.get n).isSome) {trace : List (Nat × Outcome)}
    (h : daemonMachine.Run (launch pid launcher others) trace st) :
    ∃ leaving left p proc, Becoming pid launcher others st leaving left p proc ∧
      trace.length + (proc.point.rank + leaving.length) ≤ 17 := by
  refine h.invariant (I := fun trace st => ∃ leaving left p proc,
    Becoming pid launcher others st leaving left p proc ∧
      trace.length + (proc.point.rank + leaving.length) ≤ 17)
    ⟨_, _, _, _, becoming_launch pid launcher others, Nat.le_refl _⟩ ?_
  rintro trace st e ⟨leaving, left, p, proc, hbecoming, hlength⟩ he
  obtain ⟨leaving', left', p', proc', hbecoming', hless⟩ :=
    becoming_next hbecoming hgroup hstandard he
  refine ⟨leaving', left', p', proc', hbecoming', ?_⟩
  rw [List.length_append, List.length_singleton]
  omega

end Becoming

/-- It leads no session, so that no terminal may become its own, and its session is a new one.
Nothing of what the launcher had is lost but the standard streams. -/
structure Detached (launcher : Process) (others : List Nat) (p : Nat) (proc : Process) : Prop
    extends Equipped launcher proc where
  session : proc.session ≠ p ∧ proc.session ≠ launcher.session ∧ proc.session ∉ others
  group : proc.group = proc.session
  terminal : proc.terminal = none
  umask : proc.umask = 0

theorem Becoming.detached {pid : Nat} {launcher : Process} {others : List Nat} {st : System}
    {leaving left : List Nat} {p : Nat} {proc : Process}
    (h : Becoming pid launcher others st leaving left p proc)
    (hsession : launcher.session ∈ pid :: others) (hrun : proc.point = .run) :
    Detached launcher others p proc := by
  have hstands := h.stands
  rw [hrun] at hstands
  obtain ⟨⟨leader, hpids, hapart⟩, humask, hequipped⟩ := hstands
  have hnodup := h.nodup
  rw [hpids] at hnodup
  obtain ⟨hpid, hnodup⟩ := List.nodup_cons.mp hnodup
  have hleader : leader ≠ p := by
    rintro rfl
    simp at hnodup
  have hfirst : leader ≠ pid := fun he => hpid (he ▸ List.mem_cons_self)
  have hfresh : leader ∉ others := by
    apply h.fresh leader _ hfirst
    simp [hpids]
  refine ⟨hequipped, ⟨hapart.session ▸ hleader, ?_, hapart.session ▸ hfresh⟩,
    hapart.group.trans hapart.session.symm, hapart.terminal, humask⟩
  rw [hapart.session]
  rintro rfl
  rcases List.mem_cons.mp hsession with he | hmem
  · exact hfirst he
  · exact hfresh hmem

theorem exists_allowed (st : System) (proc : Process) :
    (∃ o, Allowed st proc proc.point o) ∨ ∃ status, proc.point = .exited status := by
  cases proc.point with
  | exited status => exact .inr ⟨status, rfl⟩
  | setsid | umask | closeStdin | closeStdout | closeStderr | exit => exact .inl ⟨.done, trivial⟩
  | _ => exact .inl ⟨.failed "", trivial⟩

end AsioExamples.Daemon
