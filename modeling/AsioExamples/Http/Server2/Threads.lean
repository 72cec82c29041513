import AsioExamples.Http.Server2.Connection
import AsioExamples.Http.Server2.Server

/-!
# The threads of the pooled server

Every context has a thread of its own, which runs one handler after the other, each to its end.
A context that is stopped begins no other handler, but nobody waits for the one that its thread
is in.
-/

namespace AsioExamples.Http.Server2

set_option autoImplicit false

open Server (ErrorCode Connection OpKind Operation Peer Completes)

inductive Handler where
  | handleAccept (c : Nat) (e : Bool)
  | handleStop
  | connection (c : Nat) (kind : OpKind) (e : ErrorCode) (transferred : Bytes)
deriving DecidableEq

def Handler.about : Handler → Option Nat
  | .connection c _ _ _ => some c
  | _ => none

/-- The handler that a thread is in, before and after it has done what it does. -/
inductive Progress where
  | begun (h : Handler)
  | acted (h : Handler)
deriving DecidableEq

def Progress.handler : Progress → Handler
  | .begun h => h
  | .acted h => h

/-- The server and its connections, each from before it is made. -/
structure PooledServer where
  server : ServerState
  peers : Nat → Peer
  /-- What the thread of each context is in. -/
  current : Nat → Option Progress
  /-- The contexts that `handle_stop` has still to stop. -/
  stopping : List Nat

inductive PooledEvent where
  | completed (c : Nat) (kind : OpKind) (e : ErrorCode) (transferred : Bytes)
  | enter (ioContext : Nat) (h : Handler)
  | act (ioContext : Nat) (h : Handler)
  | stop (ioContext : Nat)
  | leave (ioContext : Nat) (h : Handler)
deriving DecidableEq

def PooledEvent.acts (ioContext : Nat) : PooledEvent → Bool
  | .act k _ => k = ioContext
  | _ => false

namespace PooledServer

/-- What is not set in a new connection is given. -/
def new (ioContextPoolSize : Nat) (fills : Nat → Buffer × Nat) : Except Fault PooledServer := do
  let server ← ServerState.new ioContextPoolSize
  .ok ⟨server.run, fun c => Peer.new (Connection.new (fills c).1 (fills c).2), fun _ => none, []⟩

def update (st : PooledServer) (c : Nat) (f : Peer → Peer) : PooledServer :=
  { st with peers := Function.update st.peers c (f (st.peers c)) }

/-- An accept without an error has opened the socket it was given, and the connection that is the
new one is started. -/
def startNew (st : PooledServer) (c : Nat) : PooledServer :=
  let st := st.update c fun p => { p with isOpen := true }
  match st.server.newConnection with
  | none => st
  | some d => st.update d Peer.start

def turn (st : PooledServer) (ioContext : Nat) (p : Option Progress) : PooledServer :=
  { st with current := Function.update st.current ioContext p }

/-- `io_contexts_[i]->stop()` -/
def stop (st : PooledServer) (ioContext : Nat) : PooledServer :=
  { st with
    server := { st.server with running := st.server.running.filter (· != ioContext) }
    stopping := st.stopping.tail }

/-- What the handler is called for has happened. -/
def Due (st : PooledServer) : Handler → Prop
  | .handleAccept c _ => c ∈ st.server.accepts
  | .handleStop => st.server.signalWait = true
  | .connection c kind e transferred =>
    ⟨kind, some (e, transferred)⟩ ∈ (st.peers c).outstanding

/-- The object that the handler was given to is on the context. -/
def On (st : PooledServer) (ioContext : Nat) : Handler → Prop
  | .handleAccept _ _ => ioContext = st.server.acceptor
  | .handleStop => ioContext = st.server.signals
  | .connection c _ _ _ => st.server.connections[c]? = some ioContext

instance (st : PooledServer) : ∀ h, Decidable (st.Due h)
  | .handleAccept c _ => inferInstanceAs (Decidable (c ∈ st.server.accepts))
  | .handleStop => inferInstanceAs (Decidable (st.server.signalWait = true))
  | .connection _ _ _ _ => inferInstanceAs (Decidable (_ ∈ _))

instance (st : PooledServer) (ioContext : Nat) : ∀ h, Decidable (st.On ioContext h)
  | .handleAccept _ _ => inferInstanceAs (Decidable (_ = _))
  | .handleStop => inferInstanceAs (Decidable (_ = _))
  | .connection _ _ _ _ => inferInstanceAs (Decidable (_ = _))

/-- What a handler does. It shares nothing that another one may change at the same time. -/
def handle (docRoot : Bytes) (files : Bytes → Option Bytes) (st : PooledServer) :
    Handler → PooledServer
  | .handleAccept c e =>
    let server := serverMachine.next st.server (.handleAccept c e)
    { (if !e then st.startNew c else st) with server := server }
  | .handleStop =>
    -- The loop over the contexts goes on, stop by stop, until the handler is left.
    { st with
      server := { st.server with signalWait := false }
      stopping := st.server.ioContextPool.ioContexts }
  | .connection c kind e transferred => st.update c (handled docRoot files kind e transferred)

end PooledServer

section Machine
variable (docRoot : Bytes) (files : Bytes → Option Bytes)

def pooledMachine : Machine PooledServer PooledEvent where
  enabled st
    | .completed c kind e transferred =>
      ⟨kind, none⟩ ∈ (st.peers c).outstanding ∧ Completes kind e transferred
    | .enter ioContext h => ioContext ∈ st.server.running ∧ st.current ioContext = none ∧
        st.Due h ∧ st.On ioContext h
    | .act ioContext h => st.current ioContext = some (.begun h)
    | .stop ioContext => st.stopping.head? = some ioContext
    | .leave ioContext h => st.current ioContext = some (.acted h) ∧
        (h = .handleStop → st.stopping = [])
  next st
    | .completed c kind e transferred => st.update c (·.complete kind e transferred)
    | .enter ioContext h => st.turn ioContext (some (.begun h))
    | .act ioContext h => (st.handle docRoot files h).turn ioContext (some (.acted h))
    | .stop ioContext => st.stop ioContext
    | .leave ioContext _ => st.turn ioContext none

instance : ∀ (st : PooledServer) (e : PooledEvent),
    Decidable ((pooledMachine docRoot files).enabled st e)
  | _, .completed _ _ _ _ => inferInstanceAs (Decidable (_ ∧ Completes _ _ _))
  | st, .enter ioContext h => inferInstanceAs (Decidable (_ ∧ _ ∧ st.Due h ∧ st.On ioContext h))
  | _, .act _ _ => inferInstanceAs (Decidable (_ = _))
  | _, .stop _ => inferInstanceAs (Decidable (_ = _))
  | _, .leave _ _ => inferInstanceAs (Decidable (_ ∧ (_ → _)))

end Machine

section Handle
variable {docRoot : Bytes} {files : Bytes → Option Bytes} {n : Nat} {st : PooledServer}
  {h h' : Handler}

theorem mem_update {c d : Nat} {f : Peer → Peer} {op : Operation}
    (hf : op ∈ (st.peers c).outstanding → op ∈ (f (st.peers c)).outstanding)
    (hop : op ∈ (st.peers d).outstanding) : op ∈ ((st.update c f).peers d).outstanding := by
  change op ∈ (Function.update st.peers c (f (st.peers c)) d).outstanding
  by_cases hd : d = c
  · subst hd
    rw [Function.update_self]
    exact hf hop
  · rw [Function.update_of_ne hd]
    exact hop

theorem startNew_eq (st : PooledServer) (c : Nat) :
    ∃ peers, st.startNew c = { st with peers := peers } ∧
      ∀ d, ∀ op ∈ (st.peers d).outstanding, op ∈ (peers d).outstanding := by
  have hopened : ∀ d, ∀ op ∈ (st.peers d).outstanding,
      op ∈ ((st.update c fun p => { p with isOpen := true }).peers d).outstanding :=
    fun d op hop => mem_update id hop
  cases hnew : st.server.newConnection with
  | none =>
    have hstart : st.startNew c = st.update c fun p => { p with isOpen := true } := by
      simp [PooledServer.startNew, PooledServer.update, hnew]
    exact ⟨_, hstart, hopened⟩
  | some x =>
    have hstart : st.startNew c =
        (st.update c fun p => { p with isOpen := true }).update x Peer.start := by
      simp [PooledServer.startNew, PooledServer.update, hnew]
    exact ⟨_, hstart, fun d op hop => mem_update (List.mem_append_left _) (hopened d op hop)⟩

theorem handleAccept_eq (docRoot : Bytes) (files : Bytes → Option Bytes) (st : PooledServer)
    (c : Nat) (e : Bool) :
    ∃ peers, st.handle docRoot files (.handleAccept c e) =
        { st with server := serverMachine.next st.server (.handleAccept c e), peers := peers } ∧
      ∀ d, ∀ op ∈ (st.peers d).outstanding, op ∈ (peers d).outstanding := by
  cases e with
  | true => exact ⟨st.peers, rfl, fun _ _ hop => hop⟩
  | false =>
    obtain ⟨peers, hpeers, hkeeps⟩ := startNew_eq st c
    refine ⟨peers, ?_, hkeeps⟩
    simp [PooledServer.handle, hpeers]

theorem current_handle : (st.handle docRoot files h).current = st.current := by
  cases h with
  | handleAccept c e =>
    obtain ⟨peers, heq, -⟩ := handleAccept_eq docRoot files st c e
    rw [heq]
  | handleStop => rfl
  | connection c kind e transferred => rfl

theorem handle_server (docRoot : Bytes) (files : Bytes → Option Bytes)
    (hplaced : Placed n st.server) (hn : 0 < n) (hdue : st.Due h) :
    Placed n (st.handle docRoot files h).server ∧
      (st.handle docRoot files h).server.running = st.server.running ∧
      ∀ i h', st.On i h' → (st.handle docRoot files h).On i h' := by
  cases h with
  | handleAccept c e =>
    obtain ⟨peers, heq, -⟩ := handleAccept_eq docRoot files st c e
    obtain ⟨server, hstep, hplaced', hsame⟩ := hplaced.handleAccept hn hdue e
    rw [heq, next_of_step hstep]
    refine ⟨hplaced', hsame.running, fun i h' hon => ?_⟩
    cases h' with
    | handleAccept d e => exact Eq.trans hon hsame.acceptor.symm
    | handleStop => exact Eq.trans hon hsame.signals.symm
    | connection d kind e transferred =>
      obtain ⟨x, hx⟩ := hsame.connections
      have hon : st.server.connections[d]? = some i := hon
      obtain ⟨hlt, -⟩ := List.getElem?_eq_some_iff.mp hon
      change server.connections[d]? = some i
      rw [hx, List.getElem?_append_left hlt]
      exact hon
  | handleStop =>
    refine ⟨⟨hplaced.pool, hplaced.signals, hplaced.acceptor, hplaced.connections,
      hplaced.waiting⟩, rfl, fun i h' hon => ?_⟩
    cases h' <;> exact hon
  | connection c kind e transferred =>
    refine ⟨hplaced, rfl, fun i h' hon => ?_⟩
    cases h' <;> exact hon

/-- What one thread does takes nothing from the handlers that the others have begun. -/
theorem due_handle (hplaced : Placed n st.server) (hn : 0 < n) {i k : Nat} (hne : i ≠ k)
    (hon : st.On i h) (hdue : st.Due h) (hon' : st.On k h') (hdue' : st.Due h') :
    (st.handle docRoot files h').Due h := by
  cases h' with
  | handleAccept c e =>
    obtain ⟨peers, heq, hkeeps⟩ := handleAccept_eq docRoot files st c e
    obtain ⟨server, hstep, -, hsame⟩ := hplaced.handleAccept hn hdue' e
    rw [heq, next_of_step hstep]
    cases h with
    | handleAccept d e => exact absurd (Eq.trans hon (Eq.symm hon')) hne
    | handleStop => exact hsame.signalWait.trans hdue
    | connection d kind e transferred => exact hkeeps d _ hdue
  | handleStop =>
    cases h with
    | handleAccept d e => exact hdue
    | handleStop => exact absurd (Eq.trans hon (Eq.symm hon')) hne
    | connection d kind e transferred => exact hdue
  | connection c kind e transferred =>
    cases h with
    | handleAccept d e => exact hdue
    | handleStop => exact hdue
    | connection d kind' e' transferred' =>
      have hdc : d ≠ c := by
        rintro rfl
        exact hne (Option.some.inj (Eq.trans (Eq.symm hon) hon'))
      change _ ∈ (Function.update st.peers c _ d).outstanding
      rw [Function.update_of_ne hdc]
      exact hdue

end Handle

/-- Every thread is in a handler of an object on its context, and what the handler is called for
is there until it acts. -/
structure Threaded (n : Nat) (trace : List PooledEvent) (st : PooledServer) : Prop where
  placed : Placed n st.server
  place : ∀ i p, st.current i = some p → st.On i p.handler
  due : ∀ i h, st.current i = some (.begun h) → st.Due h
  stopped : ∀ i, .stop i ∈ trace → i ∉ st.server.running
  stopping : ∀ i, st.current i = some (.acted .handleStop) →
    ∀ k < n, k ∈ st.stopping ∨ .stop k ∈ trace
  left : ∀ i, .leave i .handleStop ∈ trace → ∀ k < n, .stop k ∈ trace

section Runs
variable {docRoot : Bytes} {files : Bytes → Option Bytes} {fills : Nat → Buffer × Nat} {n : Nat}
  {trace : List PooledEvent} {st : PooledServer}

/-- The stops of `handle_stop` come to what the pool does to all of its contexts at once. -/
theorem running_stops (st : PooledServer) (pool : IoContextPool) :
    (pool.ioContexts.foldl PooledServer.stop st).server.running = pool.stop st.server.running := by
  unfold IoContextPool.stop
  generalize pool.ioContexts = ioContexts
  induction ioContexts generalizing st with
  | nil => rfl
  | cons ioContext ioContexts ih => exact ih (st.stop ioContext)

theorem Threaded.next (ht : Threaded n trace st) {e : PooledEvent} {st' : PooledServer}
    (hplaced : Placed n st'.server) (hplace : ∀ i p, st'.current i = some p → st'.On i p.handler)
    (hdue : ∀ i h, st'.current i = some (.begun h) → st'.Due h)
    (hrunning : ∀ i ∈ st'.server.running, i ∈ st.server.running ∧ e ≠ .stop i)
    (hstopping : ∀ i, st'.current i = some (.acted .handleStop) →
      ∀ k < n, k ∈ st'.stopping ∨ .stop k ∈ trace ++ [e])
    (hleft : ∀ i, e = .leave i .handleStop → ∀ k < n, .stop k ∈ trace) :
    Threaded n (trace ++ [e]) st' := by
  refine ⟨hplaced, hplace, hdue, fun i hmem hi => ?_, hstopping, fun i hmem k hk => ?_⟩
  · obtain ⟨hi, hne⟩ := hrunning i hi
    rcases List.mem_append.mp hmem with hold | hnew
    · exact ht.stopped i hold hi
    · exact hne (List.mem_singleton.mp hnew).symm
  · apply List.mem_append_left
    rcases List.mem_append.mp hmem with hold | hnew
    · exact ht.left i hold k hk
    · exact hleft i (List.mem_singleton.mp hnew).symm k hk

theorem threaded_completed (ht : Threaded n trace st) (c : Nat) (kind : OpKind) (e : ErrorCode)
    (transferred : Bytes) : Threaded n (trace ++ [.completed c kind e transferred])
      (st.update c (·.complete kind e transferred)) := by
  refine ht.next ht.placed ht.place (fun i h hcurrent => ?_) (fun i hi => ⟨hi, by simp⟩)
    (fun i hcurrent k hk => ?_) (by simp)
  · have hdue := ht.due i h hcurrent
    cases h with
    | handleAccept d e => exact hdue
    | handleStop => exact hdue
    | connection d kind' e' transferred' =>
      exact mem_update (fun hop => List.mem_append_left _
        ((List.mem_erase_of_ne (by simp)).mpr hop)) hdue
  · exact (ht.stopping i hcurrent k hk).imp_right (List.mem_append_left _)

theorem current_turn {i k : Nat} {p q : Option Progress} (h : (st.turn i p).current k = q) :
    (k = i ∧ p = q) ∨ (k ≠ i ∧ st.current k = q) := by
  have h : Function.update st.current i p k = q := h
  by_cases hk : k = i
  · rw [hk, Function.update_self] at h
    exact .inl ⟨hk, h⟩
  · rw [Function.update_of_ne hk] at h
    exact .inr ⟨hk, h⟩

theorem threaded_enter (ht : Threaded n trace st) {i : Nat} {h : Handler} (hdue : st.Due h)
    (hon : st.On i h) : Threaded n (trace ++ [.enter i h]) (st.turn i (some (.begun h))) := by
  refine ht.next ht.placed (fun k p hcurrent => ?_) (fun k h' hcurrent => ?_)
    (fun k hk => ⟨hk, by simp⟩) (fun k hcurrent => ?_) (by simp)
  · rcases current_turn hcurrent with ⟨rfl, hp⟩ | ⟨-, hold⟩
    · obtain rfl := Option.some.inj hp
      exact hon
    · exact ht.place k p hold
  · rcases current_turn hcurrent with ⟨rfl, hp⟩ | ⟨-, hold⟩
    · cases hp
      exact hdue
    · exact ht.due k h' hold
  · rcases current_turn hcurrent with ⟨rfl, hp⟩ | ⟨-, hold⟩
    · cases hp
    · exact fun j hj => (ht.stopping k hold j hj).imp_right (List.mem_append_left _)

theorem threaded_act (ht : Threaded n trace st) (hn : 0 < n) {i : Nat} {h : Handler}
    (hbegun : st.current i = some (.begun h)) :
    Threaded n (trace ++ [.act i h]) ((st.handle docRoot files h).turn i (some (.acted h))) := by
  have hon : st.On i h := ht.place i _ hbegun
  have hdue := ht.due i h hbegun
  obtain ⟨hplaced, hrunning, hkeeps⟩ := handle_server docRoot files ht.placed hn hdue
  have hturn : ∀ {k q}, ((st.handle docRoot files h).turn i (some (.acted h))).current k = q →
      (k = i ∧ some (.acted h) = q) ∨ (k ≠ i ∧ st.current k = q) := by
    intro k q hcurrent
    have hcurrent := current_turn hcurrent
    rwa [current_handle] at hcurrent
  refine ht.next hplaced (fun k p hcurrent => ?_) (fun k h' hcurrent => ?_)
    (fun k hk => ⟨hrunning ▸ hk, by simp⟩) (fun k hcurrent j hj => ?_) (by simp)
  · rcases hturn hcurrent with ⟨rfl, hp⟩ | ⟨-, hold⟩
    · obtain rfl := Option.some.inj hp
      exact hkeeps k h hon
    · exact hkeeps k p.handler (ht.place k p hold)
  · rcases hturn hcurrent with ⟨rfl, hp⟩ | ⟨hk, hold⟩
    · cases hp
    · exact due_handle ht.placed hn hk (ht.place k _ hold) (ht.due k h' hold) hon hdue
  · change j ∈ (st.handle docRoot files h).stopping ∨ _
    cases h with
    | handleStop =>
      have hall : st.server.ioContextPool.ioContexts = List.range n := ht.placed.pool.ioContexts
      left
      change j ∈ st.server.ioContextPool.ioContexts
      rw [hall]
      exact List.mem_range.mpr hj
    | handleAccept c e =>
      obtain ⟨peers, heq, -⟩ := handleAccept_eq docRoot files st c e
      rw [heq]
      rcases hturn hcurrent with ⟨-, hp⟩ | ⟨-, hold⟩
      · cases hp
      · exact (ht.stopping k hold j hj).imp_right (List.mem_append_left _)
    | connection c kind e transferred =>
      rcases hturn hcurrent with ⟨-, hp⟩ | ⟨-, hold⟩
      · cases hp
      · exact (ht.stopping k hold j hj).imp_right (List.mem_append_left _)

theorem threaded_stop (ht : Threaded n trace st) {i : Nat} (hi : st.stopping.head? = some i) :
    Threaded n (trace ++ [.stop i]) (st.stop i) := by
  have hp := ht.placed
  obtain ⟨rest, hrest⟩ : ∃ rest, st.stopping = i :: rest := List.head?_eq_some_iff.mp hi
  refine ht.next ⟨hp.pool, hp.signals, hp.acceptor, hp.connections, hp.waiting⟩
    (fun k p hcurrent => ?_) (fun k h hcurrent => ?_) (fun k hk => ?_)
    (fun k hcurrent j hj => ?_) (by simp)
  · have hon := ht.place k p hcurrent
    generalize p.handler = h at hon ⊢
    cases h <;> exact hon
  · have hdue := ht.due k h hcurrent
    cases h <;> exact hdue
  · obtain ⟨hk, hne⟩ := List.mem_filter.mp hk
    refine ⟨hk, fun he => ?_⟩
    cases he
    simp at hne
  · change j ∈ st.stopping.tail ∨ _
    rcases ht.stopping k hcurrent j hj with hmem | hold
    · rw [hrest] at hmem ⊢
      rcases List.mem_cons.mp hmem with rfl | hmem
      · exact .inr (List.mem_append_right _ (List.mem_singleton_self _))
      · exact .inl hmem
    · exact .inr (List.mem_append_left _ hold)

theorem threaded_leave (ht : Threaded n trace st) {i : Nat} {h : Handler}
    (hacted : st.current i = some (.acted h)) (hdone : h = .handleStop → st.stopping = []) :
    Threaded n (trace ++ [.leave i h]) (st.turn i none) := by
  refine ht.next ht.placed (fun k p hcurrent => ?_) (fun k h' hcurrent => ?_)
    (fun k hk => ⟨hk, by simp⟩) (fun k hcurrent j hj => ?_) (fun k he j hj => ?_)
  · rcases current_turn hcurrent with ⟨-, hp⟩ | ⟨-, hold⟩
    · cases hp
    · exact ht.place k p hold
  · rcases current_turn hcurrent with ⟨-, hp⟩ | ⟨-, hold⟩
    · cases hp
    · exact ht.due k h' hold
  · rcases current_turn hcurrent with ⟨-, hp⟩ | ⟨-, hold⟩
    · cases hp
    · exact (ht.stopping k hold j hj).imp_right (List.mem_append_left _)
  · cases he
    rcases ht.stopping i hacted j hj with hmem | hold
    · rw [hdone rfl] at hmem
      cases hmem
    · exact hold

theorem threaded_next (ht : Threaded n trace st) (hn : 0 < n) {e : PooledEvent}
    (he : (pooledMachine docRoot files).enabled st e) :
    Threaded n (trace ++ [e]) ((pooledMachine docRoot files).next st e) := by
  cases e with
  | completed c kind e transferred => exact threaded_completed ht c kind e transferred
  | enter i h => exact threaded_enter ht he.2.2.1 he.2.2.2
  | act i h => exact threaded_act ht hn he
  | stop i => exact threaded_stop ht he
  | leave i h => exact threaded_leave ht he.1 he.2

theorem new_threaded (fills : Nat → Buffer × Nat) (hn : 0 < n) :
    ∃ server, Placed n server ∧ PooledServer.new n fills = .ok ⟨server,
      fun c => Peer.new (Connection.new (fills c).1 (fills c).2), fun _ => none, []⟩ := by
  obtain ⟨server, hnew, hplaced⟩ := new_placed hn
  refine ⟨server.run, hplaced.run, ?_⟩
  unfold PooledServer.new
  rw [hnew]
  rfl

theorem threaded_of_run {init : PooledServer} (hn : 0 < n)
    (hinit : PooledServer.new n fills = .ok init)
    (h : (pooledMachine docRoot files).Run init trace st) : Threaded n trace st := by
  obtain ⟨server, hplaced, hnew⟩ := new_threaded fills hn
  obtain rfl := Except.ok.inj (hinit.symm.trans hnew)
  have hstart : Threaded n [] ⟨server, fun c => Peer.new (Connection.new (fills c).1 (fills c).2),
      fun _ => none, []⟩ := by
    refine ⟨hplaced, fun i p hcurrent => ?_, fun i h hcurrent => ?_, fun i hmem => ?_,
      fun i hcurrent => ?_, fun i hmem => ?_⟩
    · cases hcurrent
    · cases hcurrent
    · cases hmem
    · cases hcurrent
    · cases hmem
  exact h.invariant hstart fun _ _ _ ht he => threaded_next ht hn he

theorem Threaded.context (ht : Threaded n trace st) (hn : 0 < n) {i c : Nat} {h : Handler}
    (hc : h.about = some c) (hon : st.On i h) : i = (c + 2) % n := by
  cases h with
  | handleAccept d e => cases hc
  | handleStop => cases hc
  | connection d kind e transferred =>
    obtain rfl := Option.some.inj hc
    have hget : st.server.connections[d]? = some i := hon
    obtain ⟨hlt, -⟩ := List.getElem?_eq_some_iff.mp hget
    rw [ht.placed.context hn hlt] at hget
    exact (Option.some.inj hget).symm

theorem context_of_run {init : PooledServer} (hn : 0 < n)
    (hinit : PooledServer.new n fills = .ok init)
    (hrun : (pooledMachine docRoot files).Run init trace st) {i c : Nat} {h : Handler}
    (hc : h.about = some c) (hmem : .enter i h ∈ trace ∨ .act i h ∈ trace) :
    i = (c + 2) % n := by
  refine hrun.invariant_along (I := fun trace _ => .enter i h ∈ trace ∨ .act i h ∈ trace →
    i = (c + 2) % n) (fun hmem => by simp at hmem) ?_ hmem
  intro trace st e hrun hi he hmem
  have ht := threaded_of_run hn hinit hrun
  simp only [List.mem_append, List.mem_singleton] at hmem
  rcases hmem with (hold | rfl) | (hold | rfl)
  · exact hi (.inl hold)
  · exact ht.context hn hc he.2.2.2
  · exact hi (.inr hold)
  · exact ht.context hn hc (ht.place i _ he)

/-- How many handlers a thread has begun that have still to act. -/
def toAct : Option Progress → Nat
  | some (.begun _) => 1
  | _ => 0

theorem toAct_le (p : Option Progress) : toAct p ≤ 1 := by
  unfold toAct
  split
  · exact Nat.le_refl 1
  · exact Nat.zero_le 1

/-- A thread that begins nothing acts in what it has begun. -/
theorem toAct_next {e : PooledEvent} (he : (pooledMachine docRoot files).enabled st e) {i : Nat}
    (hne : ∀ h, e ≠ .enter i h) : [e].countP (PooledEvent.acts i) +
      toAct (((pooledMachine docRoot files).next st e).current i) ≤ toAct (st.current i) := by
  cases e with
  | completed c kind e transferred => exact Nat.le_of_eq (Nat.zero_add _)
  | stop k => exact Nat.le_of_eq (Nat.zero_add _)
  | enter k h =>
    have hki : i ≠ k := by
      rintro rfl
      exact hne h rfl
    have hsame : (st.turn k (some (.begun h))).current i = st.current i :=
      Function.update_of_ne hki ..
    change 0 + toAct ((st.turn k (some (.begun h))).current i) ≤ _
    rw [hsame, Nat.zero_add]
  | act k h =>
    change _ + toAct (((st.handle docRoot files h).turn k (some (.acted h))).current i) ≤ _
    by_cases hki : i = k
    · subst hki
      have hself : ((st.handle docRoot files h).turn i (some (.acted h))).current i =
          some (.acted h) := Function.update_self ..
      have hbegun : st.current i = some (.begun h) := he
      rw [hself, hbegun]
      exact List.countP_le_length
    · have hsame : ((st.handle docRoot files h).turn k (some (.acted h))).current i =
          (st.handle docRoot files h).current i := Function.update_of_ne hki ..
      have hnot : [PooledEvent.act k h].countP (PooledEvent.acts i) = 0 := by
        simp [PooledEvent.acts, Ne.symm hki]
      rw [hsame, current_handle, hnot, Nat.zero_add]
  | leave k h =>
    change 0 + toAct ((st.turn k none).current i) ≤ _
    by_cases hki : i = k
    · subst hki
      have hself : (st.turn i none).current i = none := Function.update_self ..
      rw [hself]
      exact Nat.zero_le _
    · have hsame : (st.turn k none).current i = st.current i := Function.update_of_ne hki ..
      rw [hsame, Nat.zero_add]

/-- Of a context that has been stopped there is only the handler left that its thread is in. -/
theorem after_stop {init : PooledServer} (hn : 0 < n)
    (hinit : PooledServer.new n fills = .ok init)
    (hrun : (pooledMachine docRoot files).Run init trace st) {i : Nat}
    {before rest : List PooledEvent} (htrace : trace = before ++ .stop i :: rest) :
    (∀ h, .enter i h ∉ rest) ∧ rest.countP (PooledEvent.acts i) + toAct (st.current i) ≤ 1 := by
  refine hrun.invariant_along (I := fun trace st => ∀ before rest,
    trace = before ++ .stop i :: rest → (∀ h, .enter i h ∉ rest) ∧
      rest.countP (PooledEvent.acts i) + toAct (st.current i) ≤ 1) ?_ ?_ before rest htrace
  · intro before rest htrace
    simp at htrace
  · intro trace st e hrun hi he before rest htrace
    rcases concat_eq_append_cons htrace with ⟨rfl, -, -⟩ | ⟨rest, rfl, hold⟩
    · refine ⟨fun h => List.not_mem_nil, ?_⟩
      rw [List.countP_nil, Nat.zero_add]
      exact toAct_le _
    · obtain ⟨hnone, hcount⟩ := hi before rest hold
      have hne : ∀ h, e ≠ .enter i h := by
        rintro h rfl
        have hstop : PooledEvent.stop i ∈ trace := by simp [hold]
        exact (threaded_of_run hn hinit hrun).stopped i hstop he.1
      have hnext := toAct_next he hne
      refine ⟨fun h hmem => ?_, ?_⟩
      · rcases List.mem_append.mp hmem with hmem | hlast
        · exact hnone h hmem
        · exact hne h (List.mem_singleton.mp hlast).symm
      · rw [List.countP_append]
        omega

/-- What a run has of the handlers of connection `c`: they are on its context, the one that is
begun is that of an operation, and once the context has been stopped at most that one acts. -/
structure Confined (n c : Nat) (trace : List PooledEvent) (st : PooledServer) : Prop where
  history : ∀ i h, h.about = some c → .enter i h ∈ trace ∨ .act i h ∈ trace → i = (c + 2) % n
  place : ∀ i p, st.current i = some p → p.handler.about = some c → i = (c + 2) % n
  due : ∀ i kind e transferred,
    st.current i = some (.begun (.connection c kind e transferred)) →
    ⟨kind, some (e, transferred)⟩ ∈ (st.peers c).outstanding
  stopped : ∀ before rest, trace = before ++ .stop ((c + 2) % n) :: rest →
    (∀ h, .enter ((c + 2) % n) h ∉ rest) ∧ rest.countP (PooledEvent.acts ((c + 2) % n)) ≤ 1
  stops : ∀ i, .leave i .handleStop ∈ trace → .stop ((c + 2) % n) ∈ trace

theorem confined_of_run {init : PooledServer} (hn : 0 < n)
    (hinit : PooledServer.new n fills = .ok init)
    (hrun : (pooledMachine docRoot files).Run init trace st) (c : Nat) :
    Confined n c trace st := by
  have ht := threaded_of_run hn hinit hrun
  refine ⟨fun i h hc hmem => context_of_run hn hinit hrun hc hmem,
    fun i p hcurrent hc => ht.context hn hc (ht.place i p hcurrent),
    fun i kind e transferred hcurrent => ht.due i _ hcurrent, fun before rest htrace => ?_,
    fun i hleave => ht.left i hleave _ (Nat.mod_lt _ hn)⟩
  obtain ⟨hnone, hcount⟩ := after_stop hn hinit hrun htrace
  exact ⟨hnone, by omega⟩

end Runs

end AsioExamples.Http.Server2
