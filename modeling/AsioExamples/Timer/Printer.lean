import AsioExamples.Theory.Strand
import Mathlib.Data.List.Nodup

/-!
# The printers

`print` of timer3.cpp and timer5.cpp, `print1` and `print2` of timer4.cpp. A handler is run
action by action, and `++count_` is a load and a store, between which another thread might come.
-/

namespace AsioExamples.Timer

set_option autoImplicit false

/-- The clocks. The steady one counts nanoseconds; the other may be set. -/
structure World where
  steady : Nat
  universalTime : Int
deriving DecidableEq

def seconds (n : Nat) : Nat := n * 1000000000

inductive Line (ι : Type) where
  | count (timer : ι) (label : String) (count : Nat)
  | timeElapse (totalMicroseconds : Int)
  | finalCount (count : Nat)
deriving DecidableEq

structure Printer (ι : Type) where
  count : Nat
  expiry : ι → Nat
  out : List (Line ι)

inductive Action (ι : Type) where
  | countLess (limit : Nat)
  | begin
  | output (label : String)
  | loadCount
  | storeCount
  | expiresAt (timer : ι) (duration : Nat)
  | current
  | outputElapse
  | asyncWait (timer : ι)
deriving DecidableEq

namespace Action
variable {ι : Type}

/-- The rest only looks at the clock and tells what it has seen. -/
def Essential : Action ι → Bool
  | .begin | .current | .outputElapse => false
  | _ => true

end Action

/-- The handler of `timer`, its local variables and what it has still to do. -/
structure Frame (ι : Type) where
  timer : ι
  rest : List (Action ι)
  loaded : Nat
  begin : Int
  timeElapse : Int

/-- A printer in the source. -/
structure Code (ι : Type) where
  limit : Nat
  label : ι → String
  period : ι → Nat
  body : ι → List (Action ι)
  /-- In the order in which the constructor waits for them. -/
  timers : List ι
  longest : Nat
  essentials : ∀ i, (body i).filter Action.Essential = [.countLess limit, .output (label i),
    .loadCount, .storeCount, .expiresAt i (period i), .asyncWait i]
  length_body : ∀ i, (body i).length ≤ longest
  nodup_timers : timers.Nodup
  mem_timers : ∀ i, i ∈ timers

/-- `print` of timer3.cpp, whose arguments point to the timer and the count, and of timer5.cpp. -/
def print : List (Action Unit) :=
  [.countLess 5, .output "", .loadCount, .storeCount, .expiresAt () (seconds 1), .asyncWait ()]

inductive Timers where
  | timer1
  | timer2
deriving DecidableEq

def print1 : List (Action Timers) :=
  [.countLess 10, .output "Timer 1: ", .loadCount, .storeCount, .expiresAt .timer1 (seconds 1),
    .asyncWait .timer1]

def print2 : List (Action Timers) :=
  [.countLess 10, .begin, .output "Timer 2: ", .loadCount, .storeCount,
    .expiresAt .timer2 (seconds 2), .current, .outputElapse, .asyncWait .timer2, .current,
    .outputElapse]

def timer5 : Code Unit where
  limit := 5
  label _ := ""
  period _ := seconds 1
  body _ := print
  timers := [()]
  longest := 6
  essentials _ := rfl
  length_body _ := Nat.le_refl _
  nodup_timers := List.nodup_singleton _
  mem_timers _ := List.mem_singleton_self _

def timer4 : Code Timers where
  limit := 10
  label
    | .timer1 => "Timer 1: "
    | .timer2 => "Timer 2: "
  period
    | .timer1 => seconds 1
    | .timer2 => seconds 2
  body
    | .timer1 => print1
    | .timer2 => print2
  timers := [.timer1, .timer2]
  longest := 11
  essentials i := by cases i <;> rfl
  length_body i := by cases i <;> decide
  nodup_timers := by decide
  mem_timers i := by cases i <;> decide

section Printing
variable {ι : Type} [DecidableEq ι]

/-- The constructor, at the times at which it makes its timers. -/
def Printer.new (constructed : ι → Nat) : Printer ι where
  count := 0
  expiry i := constructed i + seconds 1
  out := []

/-- The destructor; in timer3.cpp the end of `main`. -/
def Printer.destroy (p : Printer ι) : List (Line ι) := p.out ++ [.finalCount p.count]

/-- `expires_at` cancels what waits for the timer. -/
def Frame.act (w : World) (f : Frame ι) (p : Printer ι) : Effect (Printer ι) (Frame ι) ι :=
  match f.rest with
  | [] => ⟨p, [], [], none⟩
  | a :: rest =>
    let f := { f with rest }
    match a with
    | .countLess limit => ⟨p, [], [], if p.count < limit then some f else none⟩
    | .begin => ⟨p, [], [], some { f with begin := w.universalTime }⟩
    | .output label =>
      ⟨{ p with out := p.out ++ [.count f.timer label p.count] }, [], [], some f⟩
    | .loadCount => ⟨p, [], [], some { f with loaded := p.count }⟩
    | .storeCount => ⟨{ p with count := f.loaded + 1 }, [], [], some f⟩
    | .expiresAt timer duration =>
      ⟨{ p with expiry := Function.update p.expiry timer (p.expiry timer + duration) }, [],
        [timer], some f⟩
    | .current => ⟨p, [], [], some { f with timeElapse := w.universalTime - f.begin }⟩
    | .outputElapse => ⟨{ p with out := p.out ++ [.timeElapse f.timeElapse] }, [], [], some f⟩
    | .asyncWait timer => ⟨p, [timer], [], some f⟩

variable (c : Code ι)

/-- A wait is named by its timer. It completes when the timer has expired. -/
def Code.handlers : Handlers (Printer ι) (Frame ι) ι World where
  entry i := ⟨i, c.body i, 0, 0, 0⟩
  act := Frame.act
  due w p i := p.expiry i ≤ w.steady
  later w w' := w.steady ≤ w'.steady

def Code.init (constructed : ι → Nat) (w : World) : Loop (Printer ι) ι World :=
  ⟨w, .new constructed, c.timers, []⟩

/-- Every `run` of the context returns. -/
def Finished (threads : Nat) (st : Strand (Printer ι) (Frame ι) ι World) : Prop :=
  st.loop.started = [] ∧ st.loop.ready = [] ∧ ∀ t < threads, (st.inside t).isNone

instance (w : World) (p : Printer ι) (i : ι) : Decidable (c.handlers.due w p i) :=
  inferInstanceAs (Decidable (_ ≤ _))

instance (w w' : World) : Decidable (c.handlers.later w w') :=
  inferInstanceAs (Decidable (_ ≤ _))

instance (threads : Nat) (st : Strand (Printer ι) (Frame ι) ι World) :
    Decidable (Finished threads st) := inferInstanceAs (Decidable (_ ∧ _ ∧ _))

end Printing

end AsioExamples.Timer
