import AsioExamples.Http.Server2.IoContextPool
import AsioExamples.Theory.Machine

/-!
`http::server2::server` and the contexts that its objects are on. Connections are numbered in the
order in which they are made. A handler begins on the context of the object that it was given
to, while that context runs.
-/

namespace AsioExamples.Http.Server2

set_option autoImplicit false

open Rotation

structure ServerState where
  ioContextPool : IoContextPool
  /-- The context of `signals_`. -/
  signals : Nat
  /-- The context of `acceptor_`. -/
  acceptor : Nat
  newConnection : Option Nat
  connections : List Nat
  started : List Nat
  /-- The connections with whose sockets an accept is outstanding. -/
  accepts : List Nat
  signalWait : Bool
  running : List Nat
deriving DecidableEq

namespace ServerState

def startAccept (st : ServerState) : Except Fault ServerState := do
  let (ioContext, pool) ← st.ioContextPool.getIoContext
  .ok { st with
    ioContextPool := pool
    newConnection := some st.connections.length
    connections := st.connections ++ [ioContext]
    accepts := st.accepts ++ [st.connections.length] }

/-- The constructor. The members are initialised in the order of their declarations. -/
def new (ioContextPoolSize : Nat) : Except Fault ServerState := do
  let pool ← IoContextPool.new ioContextPoolSize
  let (signals, pool) ← pool.getIoContext
  let (acceptor, pool) ← pool.getIoContext
  startAccept ⟨pool, signals, acceptor, none, [], [], [], true, []⟩

def run (st : ServerState) : ServerState := { st with running := st.ioContextPool.run }

/-- `new_connection_->start()` -/
def startConnection (st : ServerState) : Except Fault ServerState :=
  match st.newConnection with
  | none => .error .nullPointer
  | some c => .ok { st with started := st.started ++ [c] }

def handleAccept (st : ServerState) (e : Bool) : Except Fault ServerState := do
  let st ← if !e then st.startConnection else .ok st
  st.startAccept

def handleStop (st : ServerState) : ServerState :=
  { st with running := st.ioContextPool.stop st.running }

end ServerState

inductive ServerEvent where
  | handleAccept (c : Nat) (e : Bool)
  | handleStop
deriving DecidableEq

def ServerState.step (st : ServerState) : ServerEvent → Except Fault ServerState
  | .handleAccept c e => { st with accepts := st.accepts.erase c }.handleAccept e
  | .handleStop => .ok { st with signalWait := false }.handleStop

/-- An accept completes with or without an error. -/
def serverMachine : Machine ServerState ServerEvent where
  enabled st
    | .handleAccept c _ => c ∈ st.accepts ∧ st.acceptor ∈ st.running
    | .handleStop => st.signalWait = true ∧ st.signals ∈ st.running
  next st e :=
    match st.step e with
    | .ok st => st
    | .error _ => st

instance : ∀ (st : ServerState) (e : ServerEvent), Decidable (serverMachine.enabled st e)
  | st, .handleAccept c _ => inferInstanceAs (Decidable (c ∈ st.accepts ∧ st.acceptor ∈ st.running))
  | st, .handleStop =>
    inferInstanceAs (Decidable (st.signalWait = true ∧ st.signals ∈ st.running))

/-- Two contexts are taken before those of the connections, and the connection waited for is the
last that was made. -/
structure Placed (n : Nat) (st : ServerState) : Prop where
  pool : st.ioContextPool.Called n (2 + st.connections.length)
  signals : st.signals = 0
  acceptor : st.acceptor = 1 % n
  connections : st.connections = turns (List.range n) 2 st.connections.length
  waiting : ∃ c, st.newConnection = some c ∧ c + 1 = st.connections.length ∧ st.accepts = [c]

/-- Another connection is waited for. -/
structure Extends (st st' : ServerState) : Prop where
  signals : st'.signals = st.signals
  acceptor : st'.acceptor = st.acceptor
  signalWait : st'.signalWait = st.signalWait
  running : st'.running = st.running
  connections : ∃ ioContext, st'.connections = st.connections ++ [ioContext]

section Steps
variable {n : Nat} {st : ServerState}

theorem startAccept_placed (hn : 0 < n) (st : ServerState)
    (hpool : st.ioContextPool.Called n (2 + st.connections.length)) (hsignals : st.signals = 0)
    (hacceptor : st.acceptor = 1 % n)
    (hconnections : st.connections = turns (List.range n) 2 st.connections.length)
    (hnone : st.accepts = []) :
    ∃ st', st.startAccept = .ok st' ∧ Placed n st' ∧ Extends st st' := by
  obtain ⟨pool, hget, hcalled⟩ := hpool.getIoContext hn
  have hstart : st.startAccept = .ok { st with
      ioContextPool := pool
      newConnection := some st.connections.length
      connections := st.connections ++ [(2 + st.connections.length) % n]
      accepts := st.accepts ++ [st.connections.length] } := by
    unfold ServerState.startAccept
    rw [hget]
    rfl
  have hlength : (st.connections ++ [(2 + st.connections.length) % n]).length =
      st.connections.length + 1 := List.length_append
  refine ⟨_, hstart, ⟨?_, hsignals, hacceptor, ?_, st.connections.length, rfl, hlength.symm, ?_⟩,
    rfl, rfl, rfl, rfl, _, rfl⟩
  · rw [hlength]
    exact hcalled
  · rw [hlength, turns_succ, IoContextPool.turn_range hn, ← hconnections]
    rfl
  · rw [hnone]
    rfl

theorem new_placed (hn : 0 < n) : ∃ st, ServerState.new n = .ok st ∧ Placed n st := by
  obtain ⟨pool₁, hsignals, hcalled₁⟩ := (IoContextPool.called_zero n).getIoContext hn
  obtain ⟨pool₂, hacceptor, hcalled₂⟩ := hcalled₁.getIoContext hn
  have hnew : ServerState.new n =
      ServerState.startAccept ⟨pool₂, 0 % n, 1 % n, none, [], [], [], true, []⟩ := by
    unfold ServerState.new
    rw [IoContextPool.new_eq hn]
    simp only [bind, Except.bind, hsignals, hacceptor]
  obtain ⟨st, hstart, hplaced, -⟩ := startAccept_placed hn
    ⟨pool₂, 0 % n, 1 % n, none, [], [], [], true, []⟩ hcalled₂ (Nat.zero_mod n) rfl rfl rfl
  exact ⟨st, hnew.trans hstart, hplaced⟩

/-- The handler of an accept, which may be one that the stop has not waited for. -/
theorem Placed.handleAccept (h : Placed n st) (hn : 0 < n) {c : Nat} (hc : c ∈ st.accepts)
    (e : Bool) : ∃ st', st.step (.handleAccept c e) = .ok st' ∧ Placed n st' ∧ Extends st st' := by
  obtain ⟨hpool, hsignals, hacceptor, hconnections, d, hnew, hlast, haccepts⟩ := h
  obtain rfl : c = d := List.mem_singleton.mp (haccepts ▸ hc)
  have hnone : st.accepts.erase c = [] := by
    rw [haccepts]
    exact List.erase_cons_head c []
  cases e with
  | true =>
    obtain ⟨st', hstep, hplaced, hsame⟩ := startAccept_placed hn
      { st with accepts := st.accepts.erase c } hpool hsignals hacceptor hconnections hnone
    exact ⟨st', hstep, hplaced, hsame.signals, hsame.acceptor, hsame.signalWait, hsame.running,
      hsame.connections⟩
  | false =>
    have hstart : { st with accepts := st.accepts.erase c }.startConnection =
        .ok { st with accepts := st.accepts.erase c, started := st.started ++ [c] } := by
      unfold ServerState.startConnection
      rw [hnew]
    have hstep : st.step (.handleAccept c false) =
        { st with
          accepts := st.accepts.erase c
          started := st.started ++ [c] : ServerState }.startAccept := by
      change Except.bind (ServerState.startConnection _) _ = _
      rw [hstart]
      rfl
    obtain ⟨st', hnext, hplaced, hsame⟩ := startAccept_placed hn
      { st with accepts := st.accepts.erase c, started := st.started ++ [c] } hpool hsignals
      hacceptor hconnections hnone
    exact ⟨st', hstep.trans hnext, hplaced, hsame.signals, hsame.acceptor, hsame.signalWait,
      hsame.running, hsame.connections⟩

theorem Placed.step (h : Placed n st) (hn : 0 < n) {e : ServerEvent}
    (he : serverMachine.enabled st e) : ∃ st', st.step e = .ok st' ∧ Placed n st' := by
  cases e with
  | handleAccept c e =>
    obtain ⟨st', hstep, hplaced, -⟩ := h.handleAccept hn he.1 e
    exact ⟨st', hstep, hplaced⟩
  | handleStop =>
    exact ⟨_, rfl, h.pool, h.signals, h.acceptor, h.connections, h.waiting⟩

theorem next_of_step {st' : ServerState} {e : ServerEvent} (h : st.step e = .ok st') :
    serverMachine.next st e = st' := by
  unfold serverMachine
  simp only [h]

theorem Placed.next (h : Placed n st) (hn : 0 < n) {e : ServerEvent}
    (he : serverMachine.enabled st e) : Placed n (serverMachine.next st e) := by
  obtain ⟨st', hstep, hplaced⟩ := h.step hn he
  rw [next_of_step hstep]
  exact hplaced

theorem placed_of_run {init : ServerState} {trace : List ServerEvent} (hn : 0 < n)
    (hinit : Placed n init) (h : serverMachine.Run init trace st) : Placed n st :=
  h.invariant (I := fun _ => Placed n) hinit fun _ _ _ hplaced he => hplaced.next hn he

theorem Placed.run (h : Placed n st) : Placed n st.run :=
  ⟨h.pool, h.signals, h.acceptor, h.connections, h.waiting⟩

theorem Placed.context (h : Placed n st) (hn : 0 < n) {j : Nat} (hj : j < st.connections.length) :
    st.connections[j]? = some ((j + 2) % n) := by
  rw [h.connections, getElem?_turns (IoContextPool.range_ne_nil hn) 2 hj,
    IoContextPool.turn_range hn, Nat.add_comm]

end Steps

/-- A pool gives its contexts out in turn, and so each as often as any other, but for one turn.
The server's connections come after its signals and its acceptor. -/
theorem contexts_are_balanced {n : Nat} (hn : 1 ≤ n) :
    (∃ pool, IoContextPool.new n = .ok pool ∧ pool.ioContexts = List.range n ∧
      ∀ m, ∃ returned pool', pool.calls m = .ok (returned, pool') ∧ returned.length = m ∧
        pool'.ioContexts = List.range n ∧ pool'.nextIoContext < n ∧
        (∀ k < m, returned[k]? = some (k % n)) ∧
        (∀ k, k + n ≤ m → ((returned.drop k).take n).Perm (List.range n)) ∧
        ∀ c < n, ∀ d < n, returned.count c ≤ returned.count d + 1) ∧
    ∃ server, ServerState.new n = .ok server ∧
      ∀ trace st, serverMachine.Run server.run trace st →
        (∀ j < st.connections.length, st.connections[j]? = some ((j + 2) % n)) ∧
          st.signals = 0 % n ∧ st.acceptor = 1 % n ∧
          ∀ e, serverMachine.enabled st e → (st.step e).toOption.isSome := by
  have hne := IoContextPool.range_ne_nil hn
  have hlength : (List.range n).length = n := List.length_range
  constructor
  · refine ⟨_, IoContextPool.new_eq hn, rfl, fun m => ?_⟩
    obtain ⟨pool, hcalls, hcalled⟩ := (IoContextPool.called_zero n).calls hn m
    have hfair := fair_turns List.nodup_range hne m
    have hm : (turns (List.range n) 0 m).length = m := length_turns hne 0 m
    refine ⟨_, pool, hcalls, hm, hcalled.ioContexts, ?_, fun k hk => ?_, fun k hk => ?_,
      fun c hc d hd => ?_⟩
    · rw [hcalled.nextIoContext]
      exact Nat.mod_lt _ hn
    · rw [hfair.in_turn k (hm.symm ▸ hk), hlength]
      exact List.getElem?_range (Nat.mod_lt k hn)
    · have hwindow := hfair.window k
      rw [hlength, hm] at hwindow
      exact hwindow hk
    · exact hfair.even c (List.mem_range.mpr hc) d (List.mem_range.mpr hd)
  · obtain ⟨server, hnew, hplaced⟩ := new_placed hn
    refine ⟨server, hnew, fun trace st h => ?_⟩
    have hst := placed_of_run hn hplaced.run h
    refine ⟨fun j hj => hst.context hn hj, ?_, hst.acceptor, fun e he => ?_⟩
    · rw [hst.signals, Nat.zero_mod]
    · obtain ⟨st', hstep, -⟩ := hst.step hn he
      rw [hstep]
      rfl

/-- Three contexts: the seventh call is back at the first of them, and so is the second
connection. -/
theorem contexts_are_balanced_three :
    (∃ pool, IoContextPool.new 3 = .ok pool ∧
      ∃ returned pool', pool.calls 7 = .ok (returned, pool') ∧ pool'.nextIoContext < 3 ∧
        returned[6]? = some 0 ∧ ((returned.drop 2).take 3).Perm (List.range 3) ∧
        returned.count 0 ≤ returned.count 1 + 1) ∧
    ∃ server, ServerState.new 3 = .ok server ∧
      ∃ st, serverMachine.Run server.run [.handleAccept 0 false, .handleAccept 1 true] st ∧
        st.connections.length = 3 ∧ st.connections[1]? = some 0 := by
  obtain ⟨⟨pool, hpool, -, hcalls⟩, server, hserver, hruns⟩ :=
    contexts_are_balanced (show 1 ≤ 3 by decide)
  constructor
  · obtain ⟨returned, pool', h, -, -, hnext, hturns, hwindows, heven⟩ := hcalls 7
    exact ⟨pool, hpool, returned, pool', h, hnext, hturns 6 (by decide), hwindows 2 (by decide),
      heven 0 (by decide) 1 (by decide)⟩
  · have hnew : ServerState.new 3 =
        .ok ⟨⟨[0, 1, 2], [0, 1, 2], 0⟩, 0, 1, some 0, [2], [], [0], true, []⟩ := rfl
    obtain rfl := Except.ok.inj (hserver.symm.trans hnew)
    have hadmits : serverMachine.Admits
        (ServerState.run ⟨⟨[0, 1, 2], [0, 1, 2], 0⟩, 0, 1, some 0, [2], [], [0], true, []⟩)
        [.handleAccept 0 false, .handleAccept 1 true] := by decide
    exact ⟨_, hserver, _, hadmits.run, rfl, (hruns _ _ hadmits.run).1 1 (by decide)⟩

end AsioExamples.Http.Server2
