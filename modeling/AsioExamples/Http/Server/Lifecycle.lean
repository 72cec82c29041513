import AsioExamples.Http.Server.PeerExchange
import AsioExamples.Http.Server.Server

/-!
# The lifecycle of the connections of a server

In every run the set of connections is that of the connections which have started and whose
sockets are open; each of them has one operation outstanding. Until the server is stopped
there is one accept outstanding, and from then on nothing new begins.
-/

namespace AsioExamples.Http.Server

set_option autoImplicit false

section Effects
variable (st : ServerState) (c : Nat)

theorem connection_abort (a : Accept) : a.abort.connection = a.connection := by
  unfold Accept.abort
  split <;> rfl

theorem abort_eq_success {a : Accept} (h : a.abort = ⟨c, some .success⟩) :
    a = ⟨c, some .success⟩ := by
  unfold Accept.abort at h
  split at h
  · cases h
  · exact h

theorem hasStarted_perform (p : Peer) (actions : List Action) :
    (actions.foldl Peer.perform p).hasStarted = p.hasStarted := by
  induction actions generalizing p with
  | nil => rfl
  | cons a actions ih =>
    rw [List.foldl_cons, ih]
    cases a <;> rfl

theorem isOpen_perform (p : Peer) (actions : List Action) :
    (actions.foldl Peer.perform p).isOpen = (p.isOpen && !actions.contains .stop) := by
  induction actions generalizing p with
  | nil => simp
  | cons a actions ih =>
    rw [List.foldl_cons, ih]
    cases a <;> simp [Peer.perform, Peer.launch, Peer.close]

variable (docRoot : Bytes) (files : Bytes → Option Bytes)

theorem dispatch_socket (p : Peer) (kind : OpKind) (e : ErrorCode) (transferred : Bytes) :
    (p.dispatch docRoot files kind e transferred).1.hasStarted = p.hasStarted ∧
      (p.dispatch docRoot files kind e transferred).1.isOpen = p.isOpen := by
  cases kind with
  | read => exact ⟨rfl, rfl⟩
  | write buffers => exact ⟨rfl, rfl⟩

theorem hasStarted_handled (kind : OpKind) (e : ErrorCode) (transferred : Bytes) (p : Peer) :
    (ServerState.handled docRoot files kind e transferred p).hasStarted = p.hasStarted := by
  unfold ServerState.handled
  rw [hasStarted_perform, (dispatch_socket ..).1]

theorem isOpen_handled (kind : OpKind) (e : ErrorCode) (transferred : Bytes) (p : Peer) :
    (ServerState.handled docRoot files kind e transferred p).isOpen =
      (p.isOpen && !(p.dispatch docRoot files kind e transferred).2.contains .stop) := by
  unfold ServerState.handled
  rw [isOpen_perform, (dispatch_socket ..).2]

end Effects

section Invariant
variable (docRoot : Bytes) (files : Bytes → Option Bytes) (fills : Nat → Buffer × Nat)

def piece (c : Nat) : ServerEvent → Option Bytes
  | .handle d kind e transferred =>
    if d = c ∧ kind = .read ∧ e = .success then some transferred else none
  | _ => none

def pieces (c : Nat) (trace : List ServerEvent) : List Bytes := trace.filterMap (piece c)

theorem pieces_concat (c : Nat) (trace : List ServerEvent) (e : ServerEvent) :
    pieces c (trace ++ [e]) = pieces c trace ++ (piece c e).toList :=
  filterMap_concat _ trace e

structure Lifecycle (trace : List ServerEvent) (st : ServerState) : Prop where
  kept : ∀ c, Kept docRoot files (fills c).2 (st.peers c) (pieces c trace)
  members : ∀ c, c ∈ st.connections ↔
    (st.peers c).hasStarted = true ∧ (st.peers c).isOpen = true
  unmade : ∀ c, st.made ≤ c → (st.peers c).hasStarted = false
  next_lt : st.newConnection < st.made
  next_new : (st.peers st.newConnection).hasStarted = false
  accepts : ∀ a ∈ st.accepts, a.connection = st.newConnection
  opened : ⟨st.newConnection, some .success⟩ ∈ st.accepts →
    (st.peers st.newConnection).isOpen = true
  running : .handleStop ∉ trace → st.acceptorOpen = true ∧ st.signalWait = true ∧
    st.accepts.length = 1
  stopped : .handleStop ∈ trace → st.acceptorOpen = false ∧ st.signalWait = false ∧
    st.connections = ∅

variable {docRoot files fills}

theorem lifecycle_init : Lifecycle docRoot files fills [] (.init fills) where
  kept c := kept_new (fills c).1
  members c := by simp [ServerState.init, ServerState.startAccept, Peer.new]
  unmade c _ := rfl
  next_lt := Nat.zero_lt_one
  next_new := rfl
  accepts a ha := by
    rw [List.mem_singleton.mp ha]
    rfl
  opened h := by simp [ServerState.init, ServerState.startAccept] at h
  running _ := ⟨rfl, rfl, rfl⟩
  stopped h := nomatch h

variable {trace : List ServerEvent} {st st' : ServerState}

/-- What every event but those of the acceptor and of the signals leaves alone. -/
structure Quiet (st st' : ServerState) : Prop where
  acceptorOpen : st'.acceptorOpen = st.acceptorOpen
  signalWait : st'.signalWait = st.signalWait
  newConnection : st'.newConnection = st.newConnection
  made : st'.made = st.made
  length_accepts : st'.accepts.length = st.accepts.length
  connections : st'.connections ⊆ st.connections
  hasStarted : ∀ c, (st'.peers c).hasStarted = (st.peers c).hasStarted

theorem handleStop_mem_concat {e : ServerEvent} (he : e ≠ .handleStop) :
    .handleStop ∈ trace ++ [e] ↔ .handleStop ∈ trace := by
  rw [List.mem_append, List.mem_singleton]
  exact or_iff_left (Ne.symm he)

theorem lifecycle_quiet (h : Lifecycle docRoot files fills trace st)
    (hq : Quiet st st') {e : ServerEvent} (he : e ≠ .handleStop)
    (kept : ∀ c, Kept docRoot files (fills c).2 (st'.peers c) (pieces c (trace ++ [e])))
    (members : ∀ c, c ∈ st'.connections ↔
      (st'.peers c).hasStarted = true ∧ (st'.peers c).isOpen = true)
    (accepts : ∀ a ∈ st'.accepts, a.connection = st.newConnection)
    (opened : ⟨st.newConnection, some .success⟩ ∈ st'.accepts →
      (st'.peers st.newConnection).isOpen = true) :
    Lifecycle docRoot files fills (trace ++ [e]) st' where
  kept := kept
  members := members
  unmade c hc := by
    rw [hq.hasStarted]
    exact h.unmade c (hq.made ▸ hc)
  next_lt := by
    rw [hq.newConnection, hq.made]
    exact h.next_lt
  next_new := by
    rw [hq.newConnection, hq.hasStarted]
    exact h.next_new
  accepts := by
    rw [hq.newConnection]
    exact accepts
  opened := by
    rw [hq.newConnection]
    exact opened
  running hstop := by
    rw [hq.acceptorOpen, hq.signalWait, hq.length_accepts]
    exact h.running (mt (handleStop_mem_concat he).mpr hstop)
  stopped hstop := by
    obtain ⟨hacceptor, hsignal, hempty⟩ := h.stopped ((handleStop_mem_concat he).mp hstop)
    rw [hq.acceptorOpen, hq.signalWait]
    exact ⟨hacceptor, hsignal, Finset.subset_empty.mp (hempty ▸ hq.connections)⟩

/-- An event of connection `c` alone, which leaves it started and its socket as it was. -/
theorem update_quiet (st : ServerState) (c : Nat) {f : Peer → Peer}
    (hstarted : ∀ p, (f p).hasStarted = p.hasStarted) : Quiet st (st.update c f) := by
  refine ⟨rfl, rfl, rfl, rfl, rfl, subset_rfl, fun d => ?_⟩
  rw [st.peers_update]
  by_cases hd : d = c
  · subst d
    rw [if_pos rfl, hstarted]
  · rw [if_neg hd]

/-- What holds of a connection and what has been read on it, after an event of one of them. -/
theorem kept_update (st : ServerState) (h : Lifecycle docRoot files fills trace st) {c : Nat}
    {f : Peer → Peer} {e : ServerEvent} (he : ∀ d, d ≠ c → piece d e = none)
    (hkept : Kept docRoot files (fills c).2 (f (st.peers c)) (pieces c trace ++ (piece c e).toList))
    (d : Nat) :
    Kept docRoot files (fills d).2 ((st.update c f).peers d) (pieces d (trace ++ [e])) := by
  rw [pieces_concat, st.peers_update]
  by_cases hd : d = c
  · subst d
    rw [if_pos rfl]
    exact hkept
  · rw [if_neg hd, he d hd]
    simpa using h.kept d

theorem lifecycle_completed (h : Lifecycle docRoot files fills trace st) {c : Nat}
    {kind : OpKind} {e : ErrorCode} {transferred : Bytes}
    (hop : ⟨kind, none⟩ ∈ (st.peers c).outstanding) (hc : Completes kind e transferred) :
    Lifecycle docRoot files fills (trace ++ [.completed c kind e transferred])
      (st.update c (·.complete kind e transferred)) := by
  have hq : Quiet st (st.update c (·.complete kind e transferred)) := update_quiet st c fun _ => rfl
  have hopen : ∀ d, ((st.update c (·.complete kind e transferred)).peers d).isOpen =
      (st.peers d).isOpen := by
    intro d
    rw [st.peers_update]
    by_cases hd : d = c
    · subst d
      rw [if_pos rfl]
      rfl
    · rw [if_neg hd]
  refine lifecycle_quiet h hq ServerEvent.noConfusion ?_ (fun d => ?_) h.accepts fun hmem => ?_
  · refine kept_update st h (fun _ _ => rfl) ?_
    simpa [piece] using kept_complete (h.kept c) hop hc
  · rw [hq.hasStarted, hopen]
    exact h.members d
  · rw [hopen]
    exact h.opened hmem

theorem lifecycle_handle (h : Lifecycle docRoot files fills trace st) {c : Nat}
    {kind : OpKind} {e : ErrorCode} {transferred : Bytes}
    (hop : ⟨kind, some (e, transferred)⟩ ∈ (st.peers c).outstanding) :
    Lifecycle docRoot files fills (trace ++ [.handle c kind e transferred])
      (st.handle docRoot files c kind e transferred) := by
  have hs := hasStarted_of_mem (h.kept c) hop
  have hstarted := hasStarted_handled docRoot files kind e transferred
  have hopen := isOpen_handled docRoot files kind e transferred
  rw [ServerState.handle_eq]
  refine lifecycle_quiet h ?_ ServerEvent.noConfusion ?_ (fun d => ?_) h.accepts fun hmem => ?_
  · refine { update_quiet st c hstarted with connections := ?_ }
    change (if _ then st.connections.erase c else st.connections) ⊆ st.connections
    split
    · exact Finset.erase_subset _ _
    · exact subset_rfl
  · refine kept_update st h (fun d hd => if_neg fun hc => hd hc.1.symm) ?_
    have hkept := kept_handle (h.kept c) hs hop
    by_cases hread : kind = .read ∧ e = .success
    · rw [if_pos hread] at hkept
      rw [show piece c (.handle c kind e transferred) = some transferred from if_pos ⟨rfl, hread⟩]
      exact hkept
    · rw [if_neg hread] at hkept
      rw [show piece c (.handle c kind e transferred) = none from if_neg fun hc => hread hc.2]
      exact hkept
  · rw [ServerState.peers_update]
    by_cases hd : d = c
    · subst d
      rw [if_pos rfl, hstarted, hopen]
      by_cases hstop :
          Action.stop ∈ ((st.peers c).dispatch docRoot files kind e transferred).2
      · simp [ServerState.update, hstop]
      · simp [ServerState.update, hstop, h.members]
    · rw [if_neg hd, ← h.members]
      change d ∈ (if _ then st.connections.erase c else st.connections) ↔ _
      split
      · rw [Finset.mem_erase, and_iff_right hd]
      · exact Iff.rfl
  · rw [ServerState.peers_update]
    have hne : st.newConnection ≠ c := by
      rintro rfl
      rw [h.next_new] at hs
      cases hs
    rw [if_neg hne]
    exact h.opened hmem

/-- An accept that completes; the socket it opens has not been used. -/
theorem lifecycle_accepted (h : Lifecycle docRoot files fills trace st) {c : Nat} {e : ErrorCode}
    (hop : ⟨c, none⟩ ∈ st.accepts) :
    Lifecycle docRoot files fills (trace ++ [.accepted c e])
      ((serverMachine docRoot files).next st (.accepted c e)) := by
  obtain rfl : c = st.newConnection := h.accepts _ hop
  have hlen : (st.accepts.erase ⟨st.newConnection, none⟩ ++
      [(⟨st.newConnection, some e⟩ : Accept)]).length = st.accepts.length := by
    rw [List.length_append, List.length_erase_of_mem hop, List.length_singleton]
    exact Nat.sub_add_cancel (List.length_pos_of_mem hop)
  have haccepts : ∀ a ∈ st.accepts.erase ⟨st.newConnection, none⟩ ++
      [(⟨st.newConnection, some e⟩ : Accept)], a.connection = st.newConnection := by
    intro a ha
    rcases List.mem_append.mp ha with ha | ha
    · exact h.accepts a (List.mem_of_mem_erase ha)
    · rw [List.mem_singleton.mp ha]
  by_cases he : e = .success
  · have hq := update_quiet st st.newConnection (f := fun p => { p with isOpen := true })
      fun _ => rfl
    simp only [serverMachine, if_pos he]
    refine lifecycle_quiet h ?_ ServerEvent.noConfusion ?_ (fun d => ?_) haccepts fun _ => ?_
    · exact { hq with length_accepts := hlen }
    · refine kept_update st (f := fun p => { p with isOpen := true })
        (e := .accepted st.newConnection e) h (fun _ _ => rfl) ?_
      simpa [piece] using kept_open (h.kept _) h.next_new
    · rw [ServerState.peers_update]
      by_cases hd : d = st.newConnection
      · rw [if_pos hd]
        subst d
        exact (h.members _).trans (by simp [h.next_new])
      · rw [if_neg hd]
        exact h.members d
    · rw [ServerState.peers_update, if_pos rfl]
  · simp only [serverMachine, if_neg he]
    refine lifecycle_quiet h ?_ ServerEvent.noConfusion (fun d => ?_) h.members haccepts
      fun hmem => ?_
    · exact ⟨rfl, rfl, rfl, rfl, hlen, subset_rfl, fun _ => rfl⟩
    · rw [pieces_concat]
      simpa [piece] using h.kept d
    · refine h.opened ?_
      rcases List.mem_append.mp hmem with hmem | hmem
      · exact List.mem_of_mem_erase hmem
      · cases List.mem_singleton.mp hmem
        exact absurd rfl he

theorem lifecycle_startAccept {e : ServerEvent} (hstop : .handleStop ∉ trace ++ [e])
    (hacceptor : st.acceptorOpen = true) (hsignal : st.signalWait = true)
    (hnone : st.accepts = [])
    (kept : ∀ c, Kept docRoot files (fills c).2 (st.peers c) (pieces c (trace ++ [e])))
    (members : ∀ c, c ∈ st.connections ↔
      (st.peers c).hasStarted = true ∧ (st.peers c).isOpen = true)
    (unmade : ∀ c, st.made ≤ c → (st.peers c).hasStarted = false) :
    Lifecycle docRoot files fills (trace ++ [e]) st.startAccept := by
  have haccepts : st.startAccept.accepts = [⟨st.made, none⟩] := by
    simp [ServerState.startAccept, hnone, hacceptor]
  refine ⟨kept, members, fun c hc => ?_, Nat.lt_succ_self _, unmade _ (Nat.le_refl _), ?_, ?_,
    fun _ => ⟨hacceptor, hsignal, ?_⟩, fun hmem => absurd hmem hstop⟩
  · exact unmade c (Nat.le_of_succ_le hc)
  · rw [haccepts]
    intro a ha
    rw [List.mem_singleton.mp ha]
    rfl
  · rw [haccepts]
    intro hmem
    cases List.mem_singleton.mp hmem
  · rw [haccepts]
    rfl

theorem kept_handleAccept (h : Lifecycle docRoot files fills trace st) (c : Nat) (e : ErrorCode)
    (d : Nat) :
    Kept docRoot files (fills d).2 (st.peers d) (pieces d (trace ++ [.handleAccept c e])) := by
  rw [pieces_concat]
  simpa [piece] using h.kept d

/-- The handler of an accept finds the acceptor closed by `handle_stop`. -/
theorem lifecycle_acceptDropped (h : Lifecycle docRoot files fills trace st)
    (hacceptor : st.acceptorOpen = false) (e : ErrorCode) :
    Lifecycle docRoot files fills (trace ++ [.handleAccept st.newConnection e])
      ((serverMachine docRoot files).next st (.handleAccept st.newConnection e)) := by
  have hstop : .handleStop ∈ trace := by
    by_contra hstop
    rw [(h.running hstop).1] at hacceptor
    cases hacceptor
  have hnext : (serverMachine docRoot files).next st (.handleAccept st.newConnection e) =
      { st with accepts := st.accepts.erase ⟨st.newConnection, some e⟩ } := by
    simp [serverMachine, ServerState.handleAccept, hacceptor]
  rw [hnext]
  refine ⟨kept_handleAccept h _ e, h.members, h.unmade, h.next_lt, h.next_new, fun a ha => ?_,
    fun ha => ?_, fun hnot => ?_, fun _ => h.stopped hstop⟩
  · exact h.accepts a (List.mem_of_mem_erase ha)
  · exact h.opened (List.mem_of_mem_erase ha)
  · exact absurd (List.mem_append_left _ hstop) hnot

/-- The connection that was accepted, if any, is started, and a new one is waited for. -/
theorem lifecycle_acceptHandled (h : Lifecycle docRoot files fills trace st)
    (hacceptor : st.acceptorOpen = true) {e : ErrorCode}
    (hop : ⟨st.newConnection, some e⟩ ∈ st.accepts) :
    Lifecycle docRoot files fills (trace ++ [.handleAccept st.newConnection e])
      ((serverMachine docRoot files).next st (.handleAccept st.newConnection e)) := by
  have hstop : .handleStop ∉ trace := by
    intro hstop
    rw [(h.stopped hstop).1] at hacceptor
    cases hacceptor
  have hstop' : .handleStop ∉ trace ++ [.handleAccept st.newConnection e] :=
    mt (handleStop_mem_concat ServerEvent.noConfusion).mp hstop
  obtain ⟨-, hsignal, hlen⟩ := h.running hstop
  have hnone : st.accepts.erase ⟨st.newConnection, some e⟩ = [] := by
    apply List.eq_nil_of_length_eq_zero
    rw [List.length_erase_of_mem hop, hlen]
  by_cases he : e = .success
  · subst e
    have hnext : (serverMachine docRoot files).next st (.handleAccept st.newConnection .success) =
        (({ st with accepts := st.accepts.erase ⟨st.newConnection, some .success⟩
          } : ServerState).managerStart st.newConnection).startAccept := by
      simp [serverMachine, ServerState.handleAccept, hacceptor]
    rw [hnext]
    refine lifecycle_startAccept hstop' hacceptor hsignal hnone ?_ (fun d => ?_) fun d hd => ?_
    · refine kept_update st (e := .handleAccept _ .success) h (fun _ _ => rfl) ?_
      simpa [piece] using kept_start (h.kept _) h.next_new
    · change d ∈ insert st.newConnection st.connections ↔ _
      rw [Finset.mem_insert, ServerState.peers_managerStart]
      by_cases hd : d = st.newConnection
      · rw [if_pos hd]
        exact iff_of_true (.inl hd) ⟨rfl, h.opened hop⟩
      · rw [if_neg hd, or_iff_right hd]
        exact h.members d
    · have hne : d ≠ st.newConnection := Nat.ne_of_gt (Nat.lt_of_lt_of_le h.next_lt hd)
      rw [ServerState.peers_managerStart, if_neg hne]
      exact h.unmade d hd
  · have hnext : (serverMachine docRoot files).next st (.handleAccept st.newConnection e) =
        ({ st with accepts := st.accepts.erase ⟨st.newConnection, some e⟩
          } : ServerState).startAccept := by
      simp [serverMachine, ServerState.handleAccept, hacceptor, he]
    rw [hnext]
    exact lifecycle_startAccept hstop' hacceptor hsignal hnone (kept_handleAccept h _ e) h.members
      h.unmade

/-- The handler of an accept; from the stop of the server on it does nothing. -/
theorem lifecycle_handleAccept (h : Lifecycle docRoot files fills trace st) {c : Nat}
    {e : ErrorCode} (hop : ⟨c, some e⟩ ∈ st.accepts) :
    Lifecycle docRoot files fills (trace ++ [.handleAccept c e])
      ((serverMachine docRoot files).next st (.handleAccept c e)) := by
  obtain rfl : c = st.newConnection := h.accepts _ hop
  cases hacceptor : st.acceptorOpen with
  | false => exact lifecycle_acceptDropped h hacceptor e
  | true => exact lifecycle_acceptHandled h hacceptor hop

theorem lifecycle_handleStop (h : Lifecycle docRoot files fills trace st) :
    Lifecycle docRoot files fills (trace ++ [.handleStop])
      ((serverMachine docRoot files).next st .handleStop) := by
  have hpeers : ∀ d, ((serverMachine docRoot files).next st .handleStop).peers d =
      if d ∈ st.connections then (st.peers d).close else st.peers d := fun _ => rfl
  have hstarted : ∀ d, (((serverMachine docRoot files).next st .handleStop).peers d).hasStarted =
      (st.peers d).hasStarted := by
    intro d
    rw [hpeers]
    split <;> rfl
  refine ⟨fun d => ?_, fun d => ?_, fun d hd => ?_, h.next_lt, ?_, fun a ha => ?_, fun hmem => ?_,
    fun hstop => ?_, fun _ => ⟨rfl, rfl, rfl⟩⟩
  · rw [pieces_concat, hpeers]
    simp only [piece, Option.toList_none, List.append_nil]
    split
    · exact kept_close (h.kept d)
    · exact h.kept d
  · rw [hstarted, hpeers]
    refine iff_of_false (Finset.notMem_empty d) ?_
    split
    · exact fun hopen => Bool.false_ne_true hopen.2
    · next hd => exact fun hopen => hd ((h.members d).mpr hopen)
  · rw [hstarted]
    exact h.unmade d hd
  · exact (hstarted st.newConnection).trans h.next_new
  · obtain ⟨a', ha', rfl⟩ := List.mem_map.mp ha
    exact (connection_abort a').trans (h.accepts a' ha')
  · obtain ⟨a', ha', heq⟩ := List.mem_map.mp hmem
    obtain rfl := abort_eq_success _ heq
    have hnew : st.newConnection ∉ st.connections := by
      rw [h.members, h.next_new]
      exact fun hfalse => Bool.false_ne_true hfalse.1
    exact (congrArg Peer.isOpen (if_neg hnew)).trans (h.opened ha')
  · exact absurd (List.mem_append_right _ (List.mem_singleton_self _)) hstop

theorem lifecycle_next (h : Lifecycle docRoot files fills trace st) {e : ServerEvent}
    (he : (serverMachine docRoot files).enabled st e) :
    Lifecycle docRoot files fills (trace ++ [e]) ((serverMachine docRoot files).next st e) := by
  cases e with
  | accepted c e => exact lifecycle_accepted h he.1
  | handleAccept c e => exact lifecycle_handleAccept h he
  | completed c kind e transferred => exact lifecycle_completed h he.1 he.2
  | handle c kind e transferred => exact lifecycle_handle h he
  | handleStop => exact lifecycle_handleStop h

/-- With the acceptor closed nothing is accepted and nothing started any more. -/
theorem closed_next (docRoot : Bytes) (files : Bytes → Option Bytes)
    (h : st.acceptorOpen = false) (e : ServerEvent) :
    ((serverMachine docRoot files).next st e).acceptorOpen = false ∧
      ((serverMachine docRoot files).next st e).calls = st.calls := by
  cases e with
  | accepted c e =>
    simp only [serverMachine]
    split
    · exact ⟨h, rfl⟩
    · exact ⟨h, rfl⟩
  | handleAccept c e => simp [serverMachine, ServerState.handleAccept, h]
  | completed c kind e transferred => exact ⟨h, rfl⟩
  | handle c kind e transferred =>
    simp only [serverMachine, ServerState.handle_eq]
    exact ⟨h, rfl⟩
  | handleStop => exact ⟨rfl, rfl⟩

theorem run_lifecycle (h : (serverMachine docRoot files).Run (.init fills) trace st) :
    Lifecycle docRoot files fills trace st :=
  h.invariant lifecycle_init fun _ _ _ hi he => lifecycle_next hi he

theorem run_closed (h : (serverMachine docRoot files).Run st trace st')
    (hclosed : st.acceptorOpen = false) :
    st'.acceptorOpen = false ∧ st'.calls = st.calls := by
  refine h.invariant (I := fun _ s => s.acceptorOpen = false ∧ s.calls = st.calls)
    ⟨hclosed, rfl⟩ fun _ s e hi _ => ?_
  obtain ⟨hacceptor, hcalls⟩ := closed_next docRoot files hi.1 e
  exact ⟨hacceptor, hcalls.trans hi.2⟩

/-- In every run of the server: the set holds the connections that have started and have an
open socket, each with one read or write outstanding; until the stop there is one accept
outstanding, for the connection to come; and since the stop the set has been empty and
nothing has been accepted or started. -/
theorem connections_in_step (docRoot : Bytes) (files : Bytes → Option Bytes)
    (fills : Nat → Buffer × Nat) (trace : List ServerEvent) (st : ServerState)
    (h : (serverMachine docRoot files).Run (.init fills) trace st) :
    (∀ c ∈ st.connections, (st.peers c).hasStarted = true ∧ (st.peers c).isOpen = true ∧
      (st.peers c).outstanding.length = 1) ∧
    (∀ c, (st.peers c).hasStarted = true → c ∉ st.connections → (st.peers c).isOpen = false) ∧
    (.handleStop ∉ trace → (∃ completion, st.accepts = [⟨st.newConnection, completion⟩]) ∧
      st.newConnection ∉ st.connections) ∧
    (∀ before rest, trace = before ++ .handleStop :: rest →
      ∀ st₁, (serverMachine docRoot files).Run (.init fills) before st₁ →
        st.connections = ∅ ∧ st.calls = st₁.calls) := by
  have hl := run_lifecycle h
  refine ⟨fun c hc => ?_, fun c hs hc => ?_, fun hstop => ⟨?_, fun hc => ?_⟩,
    fun before rest hcut st₁ hrun => ⟨?_, ?_⟩⟩
  · obtain ⟨hs, ho⟩ := (hl.members c).mp hc
    exact ⟨hs, ho, (hl.kept c).busy hs ho⟩
  · cases ho : (st.peers c).isOpen with
    | false => rfl
    | true => exact absurd ((hl.members c).mpr ⟨hs, ho⟩) hc
  · obtain ⟨-, -, hlen⟩ := hl.running hstop
    obtain ⟨⟨c, completion⟩, ha⟩ := List.length_eq_one_iff.mp hlen
    obtain rfl : c = st.newConnection := hl.accepts ⟨c, completion⟩ (by simp [ha])
    exact ⟨completion, ha⟩
  · have hs := ((hl.members _).mp hc).1
    rw [hl.next_new] at hs
    cases hs
  · exact (hl.stopped (by simp [hcut])).2.2
  · subst hcut
    have hafter := h.of_append
    rw [← hrun.eq_foldl] at hafter
    have hrest : (serverMachine docRoot files).Run
        ([ServerEvent.handleStop].foldl (serverMachine docRoot files).next st₁) rest st :=
      Machine.Run.of_append hafter
    exact (run_closed hrest rfl).2

/-- The server is stopped while the handlers of an accept and of a read are still to run. -/
theorem connections_in_step_stopped :
    let before : List ServerEvent := [.accepted 0 .success, .handleAccept 0 .success,
      .accepted 1 .success, .completed 0 .read .success (str "GET")]
    let rest : List ServerEvent := [.handleAccept 1 .success, .handle 0 .read .success (str "GET"),
      .handle 0 .read .other []]
    ∃ st, (serverMachine (str "/www") fun _ => none).Run (.init fun _ => (Buffer.zero, 0))
        (before ++ .handleStop :: rest) st ∧
      (st.peers 0).hasStarted = true ∧ (st.peers 0).isOpen = false ∧ st.connections = ∅ := by
  intro before rest
  have hadmits : (serverMachine (str "/www") fun _ => none).Admits
      (.init fun _ => (Buffer.zero, 0)) (before ++ .handleStop :: rest) := by decide +kernel
  have hadmits₁ : (serverMachine (str "/www") fun _ => none).Admits
      (.init fun _ => (Buffer.zero, 0)) before := by decide +kernel
  have hrun := hadmits.run
  have hrun₁ := hadmits₁.run
  obtain ⟨-, hclosed, -, hstopped⟩ := connections_in_step _ _ _ _ _ hrun
  obtain ⟨hempty, -⟩ := hstopped before rest rfl _ hrun₁
  generalize hst : List.foldl _ _ (before ++ .handleStop :: rest) = st at hrun hclosed hempty
  have hstarted : (st.peers 0).hasStarted = true := by
    rw [← hst]
    decide +kernel
  exact ⟨st, hrun, hstarted, hclosed 0 hstarted (by simp [hempty]), hempty⟩

end Invariant

end AsioExamples.Http.Server
