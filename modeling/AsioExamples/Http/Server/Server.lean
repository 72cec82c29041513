import AsioExamples.Http.Server.Connection
import AsioExamples.Theory.Machine
import Mathlib.Data.Finset.Basic

/-!
`http::server::server` and its `connection_manager`. Connections are numbered in the order in
which they are made. An event is the completion of an operation or the run of a handler; the
calls of `async_accept` and of `connection::start` are recorded.
-/

namespace AsioExamples.Http.Server

set_option autoImplicit false

structure Accept where
  connection : Nat
  completion : Option ErrorCode
deriving DecidableEq, Repr

/-- What closing the acceptor does to an accept, unless its completion is queued already. -/
def Accept.abort (a : Accept) : Accept :=
  match a.completion with
  | none => { a with completion := some .operationAborted }
  | some _ => a

inductive Call where
  | asyncAccept (connection : Nat)
  | start (connection : Nat)
deriving DecidableEq, Repr

structure ServerState where
  acceptorOpen : Bool
  signalWait : Bool
  accepts : List Accept
  newConnection : Nat
  connections : Finset Nat
  peers : Nat → Peer
  made : Nat
  calls : List Call

namespace ServerState

def update (st : ServerState) (c : Nat) (f : Peer → Peer) : ServerState :=
  { st with peers := Function.update st.peers c (f (st.peers c)) }

def startAccept (st : ServerState) : ServerState :=
  { st with
    newConnection := st.made
    made := st.made + 1
    accepts := st.accepts ++ [⟨st.made, if st.acceptorOpen then none else some .other⟩]
    calls := st.calls ++ [Call.asyncAccept st.made] }

/-- `connection_manager::start`. -/
def managerStart (st : ServerState) (c : Nat) : ServerState :=
  let st := { st with
    connections := insert c st.connections
    calls := st.calls ++ [Call.start c] }
  st.update c Peer.start

/-- `connection_manager::stop`. -/
def managerStop (st : ServerState) (c : Nat) : ServerState :=
  let st := { st with connections := st.connections.erase c }
  st.update c Peer.close

/-- `connection_manager::stop_all`. -/
def stopAll (st : ServerState) : ServerState :=
  { st with
    peers := fun c => if c ∈ st.connections then (st.peers c).close else st.peers c
    connections := ∅ }

def perform (c : Nat) (st : ServerState) : Action → ServerState
  | .stop => st.managerStop c
  | a => st.update c (·.perform a)

def handleAccept (st : ServerState) (e : ErrorCode) : ServerState :=
  if !st.acceptorOpen then st
  else
    let st := if e = .success then st.managerStart st.newConnection else st
    st.startAccept

def handleStop (st : ServerState) : ServerState :=
  let st := { st with
    acceptorOpen := false
    accepts := st.accepts.map Accept.abort }
  st.stopAll

section Handlers
variable (docRoot : Bytes) (files : Bytes → Option Bytes)

def handle (st : ServerState) (c : Nat) (kind : OpKind) (e : ErrorCode) (transferred : Bytes) :
    ServerState :=
  let (p, actions) := (st.peers c).dispatch docRoot files kind e transferred
  actions.foldl (perform c) (st.update c fun _ => p)

end Handlers

end ServerState

inductive ServerEvent where
  | accepted (c : Nat) (e : ErrorCode)
  | handleAccept (c : Nat) (e : ErrorCode)
  | completed (c : Nat) (kind : OpKind) (e : ErrorCode) (transferred : Bytes)
  | handle (c : Nat) (kind : OpKind) (e : ErrorCode) (transferred : Bytes)
  | handleStop
deriving DecidableEq

section Machine
variable (docRoot : Bytes) (files : Bytes → Option Bytes)

/-- An operation completes when it is pending, a handler runs when its operation is complete.
An accept that succeeds opens the socket it was given. -/
def serverMachine : Machine ServerState ServerEvent where
  enabled st
    | .accepted c e => ⟨c, none⟩ ∈ st.accepts ∧ e ≠ .operationAborted
    | .handleAccept c e => ⟨c, some e⟩ ∈ st.accepts
    | .completed c kind e transferred =>
      ⟨kind, none⟩ ∈ (st.peers c).outstanding ∧ Completes kind e transferred
    | .handle c kind e transferred => ⟨kind, some (e, transferred)⟩ ∈ (st.peers c).outstanding
    | .handleStop => st.signalWait = true
  next st
    | .accepted c e =>
      let st := { st with accepts := st.accepts.erase ⟨c, none⟩ ++ [⟨c, some e⟩] }
      if e = .success then st.update c fun p => { p with isOpen := true } else st
    | .handleAccept c e =>
      let st := { st with accepts := st.accepts.erase ⟨c, some e⟩ }
      st.handleAccept e
    | .completed c kind e transferred => st.update c (·.complete kind e transferred)
    | .handle c kind e transferred => st.handle docRoot files c kind e transferred
    | .handleStop =>
      let st := { st with signalWait := false }
      st.handleStop

instance : ∀ (st : ServerState) (e : ServerEvent),
    Decidable ((serverMachine docRoot files).enabled st e)
  | _, .accepted .. => inferInstanceAs (Decidable (_ ∧ _))
  | st, .handleAccept c e => inferInstanceAs (Decidable (⟨c, some e⟩ ∈ st.accepts))
  | _, .completed .. => inferInstanceAs (Decidable (_ ∧ Completes ..))
  | st, .handle c kind e transferred =>
    inferInstanceAs (Decidable (⟨kind, some (e, transferred)⟩ ∈ (st.peers c).outstanding))
  | st, .handleStop => inferInstanceAs (Decidable (st.signalWait = true))

end Machine

/-- The server as its constructor leaves it; what is not set in a new connection is given. -/
def ServerState.init (fills : Nat → Buffer × Nat) : ServerState :=
  ServerState.startAccept
    ⟨true, true, [], 0, ∅, fun c => Peer.new (Connection.new (fills c).1 (fills c).2), 0, []⟩

section Effects
variable (st : ServerState) (c d : Nat)

namespace ServerState

theorem peers_update (f : Peer → Peer) :
    (st.update c f).peers d = if d = c then f (st.peers c) else st.peers d := by
  unfold update
  exact Function.update_apply ..

theorem peers_managerStart :
    (st.managerStart c).peers d = if d = c then (st.peers c).start else st.peers d :=
  st.peers_update c d Peer.start

theorem perform_of_ne_stop {a : Action} (h : a ≠ .stop) :
    perform c st a = st.update c fun p => p.perform a := by
  cases a with
  | stop => exact absurd rfl h
  | _ => rfl

theorem foldl_perform (actions : List Action) :
    actions.foldl (perform c) st =
      let st := { st with connections :=
        if Action.stop ∈ actions then st.connections.erase c else st.connections }
      st.update c fun p => actions.foldl Peer.perform p := by
  induction actions generalizing st with
  | nil => simp [update]
  | cons a actions ih =>
    rw [List.foldl_cons, ih]
    by_cases ha : a = .stop
    · subst a
      simp [perform, managerStop, update, Peer.perform]
    · rw [perform_of_ne_stop st c ha]
      simp [update, Ne.symm ha]

section Handlers
variable (docRoot : Bytes) (files : Bytes → Option Bytes)

def handled (kind : OpKind) (e : ErrorCode) (transferred : Bytes) (p : Peer) : Peer :=
  let (p, actions) := p.dispatch docRoot files kind e transferred
  actions.foldl Peer.perform p

theorem handle_eq (kind : OpKind) (e : ErrorCode) (transferred : Bytes) :
    st.handle docRoot files c kind e transferred =
      let stops := Action.stop ∈ ((st.peers c).dispatch docRoot files kind e transferred).2
      let st := { st with connections := if stops then st.connections.erase c else st.connections }
      st.update c (handled docRoot files kind e transferred) := by
  unfold handle
  simp [foldl_perform, update, handled]

end Handlers

end ServerState

end Effects

end AsioExamples.Http.Server
