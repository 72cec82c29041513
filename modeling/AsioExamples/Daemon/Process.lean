import AsioExamples.Theory.Descriptors
import AsioExamples.Theory.Machine

/-!
# `main` of daemon.cpp

The program forks twice, so it is up to three processes at a time. An event is the next call of
one of them, with what the call comes to.
-/

namespace AsioExamples.Daemon

set_option autoImplicit false

inductive Flag where
  | readOnly
  | writeOnly
  | create
  | append
deriving DecidableEq

/-- What a descriptor refers to. Descriptors that are duplicates refer to the same. -/
inductive Description where
  | inherited (n : Nat)
  | internal (n : Nat)
  | socket
  | file (path : String) (flags : List Flag) (mode : Nat) (n : Nat)
deriving DecidableEq

inductive Point where
  | construct
  | firstFork
  | setsid
  | chdir
  | umask
  | secondFork
  | closeStdin
  | closeStdout
  | closeStderr
  | openNull
  | openOutput
  | dup
  | notifyChild
  | run
  | exit (status : Nat)
  | exited (status : Nat)
deriving DecidableEq

structure Process where
  parent : Nat
  session : Nat
  group : Nat
  terminal : Option String
  directory : String
  umask : Nat
  descriptors : Descriptors Description
  socket : Option Nat
  /-- The descriptors that the library has for itself. -/
  own : List Nat
  point : Point
deriving DecidableEq

/-- Process ids are not used twice; those of other processes, groups and sessions are `others`. -/
structure System where
  processes : Nat → Option Process
  pids : List Nat
  others : List Nat
  opened : Nat
  syslog : List (Nat × String)
  errors : List (Option Description × String)

inductive LibraryCall where
  | opened (n : Nat)
  | closed (n : Nat)
deriving DecidableEq

/-- A failure comes with its reason: what stands for `%m`, or `e.what()`. -/
inductive Outcome where
  | done
  | constructed (before after : List LibraryCall)
  | child (pid : Nat)
  | recreated (calls : List LibraryCall)
  | failed (why : String)
deriving DecidableEq

def output : String := "/tmp/asio.daemon.out"

def openFlags : List Flag := [.writeOnly, .create, .append]

/-- `S_IRUSR | S_IWUSR | S_IRGRP | S_IROTH` -/
def openMode : Nat := 0o644

def masked (mode umask : Nat) : Nat := mode ^^^ (mode &&& umask)

namespace Process

def close (proc : Process) (n : Nat) : Process :=
  { proc with descriptors := proc.descriptors.remove n }

def openOwn (proc : Process) (n : Nat) : Process :=
  { proc with
    descriptors := proc.descriptors.insert (.internal n)
    own := proc.own ++ [proc.descriptors.lowest] }

def openSocket (proc : Process) : Process :=
  { proc with
    descriptors := proc.descriptors.insert .socket
    socket := some proc.descriptors.lowest }

/-- The descriptors that the destructors close when an exception leaves the block. -/
def unwind (proc : Process) : Process :=
  (proc.own ++ proc.socket.toList).foldl close proc

end Process

/-- The library closes nothing but what it has for itself. -/
def libraryMachine : Machine Process LibraryCall where
  enabled proc
    | .opened _ => True
    | .closed n => n ∈ proc.own
  next proc
    | .opened n => proc.openOwn n
    | .closed n => { proc.close n with own := proc.own.erase n }

instance : ∀ (proc : Process) (call : LibraryCall), Decidable (libraryMachine.enabled proc call)
  | _, .opened _ => inferInstanceAs (Decidable True)
  | proc, .closed n => inferInstanceAs (Decidable (n ∈ proc.own))

/-- The calls of the library before the socket is opened, and those after it up to the fork. -/
def Process.construct (proc : Process) (before after : List LibraryCall) : Process :=
  after.foldl libraryMachine.next (before.foldl libraryMachine.next proc).openSocket

namespace System

def put (st : System) (p : Nat) (proc : Process) : System :=
  { st with processes := Function.update st.processes p (some proc) }

def log (st : System) (p : Nat) (message : String) : System :=
  { st with syslog := st.syslog ++ [(p, message)] }

def fail (st : System) (p : Nat) (proc : Process) (message : String) : System :=
  (st.log p message).put p { proc with point := .exit 1 }

def catchException (st : System) (p : Nat) (proc : Process) (what : String) : System :=
  let proc := proc.unwind
  let st := st.log p ("Exception: " ++ what)
  { st with errors := st.errors ++ [(proc.descriptors.get 2, "Exception: " ++ what)] }.put p
    { proc with point := .exit 0 }

/-- The child goes on at `next`. The parent has to exit. -/
def fork (st : System) (p : Nat) (proc : Process) (next : Point) (child : Nat) : System :=
  { (st.put p { proc with point := .exit 0 }).put child
      { proc with parent := p, point := next } with
    pids := st.pids ++ [child] }

/-- A process whose id is that of a group may not have a session of its own. -/
def setsid (st : System) (p : Nat) (proc : Process) : Process :=
  if p ∈ st.others ∨ ∃ q ∈ st.pids, (st.processes q).any (·.group = p) then proc
  else { proc with session := p, group := p, terminal := none }

def openFile (st : System) (proc : Process) (path : String) (flags : List Flag) (mode : Nat) :
    Process :=
  { proc with descriptors :=
      proc.descriptors.insert (.file path flags (masked mode proc.umask) st.opened) }

end System

def Allowed (st : System) (proc : Process) : Point → Outcome → Prop
  | .construct, .constructed before after => libraryMachine.Admits proc before ∧
      libraryMachine.Admits (before.foldl libraryMachine.next proc).openSocket after
  | .construct, .failed _ => True
  | .firstFork, .child c | .secondFork, .child c => c ∉ st.others ∧ c ∉ st.pids
  | .firstFork, .failed _ | .secondFork, .failed _ => True
  | .setsid, .done | .chdir, .done | .chdir, .failed _ | .umask, .done => True
  | .closeStdin, .done | .closeStdout, .done | .closeStderr, .done => True
  | .openNull, .done | .openNull, .failed _ | .openOutput, .done | .openOutput, .failed _ => True
  | .dup, .done => (proc.descriptors.get 1).isSome
  | .dup, .failed _ => True
  | .notifyChild, .recreated calls => libraryMachine.Admits proc calls
  | .notifyChild, .failed _ | .run, .done | .run, .failed _ => True
  | .exit _, .done => True
  | _, _ => False

instance (st : System) (proc : Process) (point : Point) (o : Outcome) :
    Decidable (Allowed st proc point o) := by
  unfold Allowed
  split <;> infer_instance

def System.step (st : System) (p : Nat) (proc : Process) : Point → Outcome → System
  | .construct, .constructed before after =>
    st.put p { proc.construct before after with point := .firstFork }
  | .construct, .failed what => st.catchException p proc what
  | .firstFork, .child c => st.fork p proc .setsid c
  | .firstFork, .failed m => st.fail p proc ("First fork failed: " ++ m)
  | .setsid, .done => st.put p { st.setsid p proc with point := .chdir }
  | .chdir, .done => st.put p { proc with directory := "/", point := .umask }
  | .chdir, .failed _ => st.put p { proc with point := .umask }
  | .umask, .done => st.put p { proc with umask := 0, point := .secondFork }
  | .secondFork, .child c => st.fork p proc .closeStdin c
  | .secondFork, .failed m => st.fail p proc ("Second fork failed: " ++ m)
  | .closeStdin, .done => st.put p { proc.close 0 with point := .closeStdout }
  | .closeStdout, .done => st.put p { proc.close 1 with point := .closeStderr }
  | .closeStderr, .done => st.put p { proc.close 2 with point := .openNull }
  | .openNull, .done =>
    { st with opened := st.opened + 1 }.put p
      { st.openFile proc "/dev/null" [.readOnly] 0 with point := .openOutput }
  | .openNull, .failed m => st.fail p proc ("Unable to open /dev/null: " ++ m)
  | .openOutput, .done =>
    { st with opened := st.opened + 1 }.put p
      { st.openFile proc output openFlags openMode with point := .dup }
  | .openOutput, .failed m =>
    st.fail p proc ("Unable to open output file " ++ output ++ ": " ++ m)
  | .dup, .done =>
    match proc.descriptors.get 1 with
    | none => st
    | some d =>
      st.put p { proc with descriptors := proc.descriptors.insert d, point := .notifyChild }
  | .dup, .failed m => st.fail p proc ("Unable to dup output descriptor: " ++ m)
  | .notifyChild, .recreated calls =>
    (st.log p "Daemon started").put p
      { calls.foldl libraryMachine.next proc with point := .run }
  | .notifyChild, .failed what => st.catchException p proc what
  | .run, .done => (st.log p "Daemon stopped").put p { proc with point := .exit 0 }
  | .run, .failed what => st.catchException p proc what
  | .exit status, .done => st.put p { proc with point := .exited status }
  | _, _ => st

def daemonMachine : Machine System (Nat × Outcome) where
  enabled st e := ∃ proc ∈ st.processes e.1, Allowed st proc proc.point e.2
  next st e :=
    match st.processes e.1 with
    | none => st
    | some proc => st.step e.1 proc proc.point e.2

instance (st : System) (e : Nat × Outcome) : Decidable (daemonMachine.enabled st e) :=
  match h : st.processes e.1 with
  | none => .isFalse fun ⟨_, hproc, _⟩ => by
      rw [h] at hproc
      cases hproc
  | some proc =>
    if ha : Allowed st proc proc.point e.2 then .isTrue ⟨proc, h, ha⟩
    else .isFalse fun ⟨proc', hproc, ha'⟩ => by
      rw [h] at hproc
      cases hproc
      exact ha ha'

def Process.launched (launcher : Process) : Process :=
  { launcher with socket := none, own := [], point := .construct }

def launch (pid : Nat) (launcher : Process) (others : List Nat) : System where
  processes := Function.update (fun _ => none) pid (some launcher.launched)
  pids := [pid]
  others := others
  opened := 0
  syslog := []
  errors := []

end AsioExamples.Daemon
