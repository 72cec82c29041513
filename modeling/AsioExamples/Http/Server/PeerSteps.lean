import AsioExamples.Http.Server.Lifecycle

/-!
# What an event of the server does to a connection

Every event leaves a connection alone, opens its socket, starts it, completes an operation of
it, runs a handler of it or closes it; and an operation that is outstanding has been started.
-/

namespace AsioExamples.Http.Server

set_option autoImplicit false

section Steps
variable (docRoot : Bytes) (files : Bytes → Option Bytes)

/-- The ways in which an event may change connection `c`. -/
inductive PeerStep (c : Nat) : ServerEvent → Peer → Peer → Prop where
  | alone {e : ServerEvent} {p : Peer} (hcompleted : ∀ kind er t, e ≠ .completed c kind er t)
      (hhandle : ∀ kind er t, e ≠ .handle c kind er t) : PeerStep c e p p
  | opened {p : Peer} (h : p.hasStarted = false) :
      PeerStep c (.accepted c .success) p { p with isOpen := true }
  | started {p : Peer} (h : p.hasStarted = false) (hopen : p.isOpen = true) :
      PeerStep c (.handleAccept c .success) p p.start
  | completed {kind : OpKind} {er : ErrorCode} {t : Bytes} {p : Peer}
      (h : ⟨kind, none⟩ ∈ p.outstanding) (hc : Completes kind er t) :
      PeerStep c (.completed c kind er t) p (p.complete kind er t)
  | handled {kind : OpKind} {er : ErrorCode} {t : Bytes} {p : Peer}
      (h : ⟨kind, some (er, t)⟩ ∈ p.outstanding) :
      PeerStep c (.handle c kind er t) p (ServerState.handled docRoot files kind er t p)
  | closed {p : Peer} : PeerStep c .handleStop p p.close

variable {docRoot files} {fills : Nat → Buffer × Nat} {trace : List ServerEvent}
  {st : ServerState} {status : Nat} {p : Peer} {read : List Bytes}

theorem peerStep_accepted (h : Lifecycle docRoot files fills trace st) {d : Nat} {er : ErrorCode}
    (he : (serverMachine docRoot files).enabled st (.accepted d er)) (c : Nat) :
    PeerStep docRoot files c (.accepted d er) (st.peers c)
      (((serverMachine docRoot files).next st (.accepted d er)).peers c) := by
  have hnew : d = st.newConnection := h.accepts _ he.1
  by_cases hok : er = .success
  · subst hok
    simp only [serverMachine, if_true]
    rw [ServerState.peers_update]
    by_cases hc : c = d
    · rw [if_pos hc, hc]
      apply PeerStep.opened
      rw [hnew]
      exact h.next_new
    · rw [if_neg hc]
      exact PeerStep.alone (fun _ _ _ hf => by cases hf) fun _ _ _ hf => by cases hf
  · simp only [serverMachine, if_neg hok]
    exact PeerStep.alone (fun _ _ _ hf => by cases hf) fun _ _ _ hf => by cases hf

theorem peerStep_handleAccept (h : Lifecycle docRoot files fills trace st) {d : Nat}
    {er : ErrorCode} (he : (serverMachine docRoot files).enabled st (.handleAccept d er))
    (c : Nat) : PeerStep docRoot files c (.handleAccept d er) (st.peers c)
      (((serverMachine docRoot files).next st (.handleAccept d er)).peers c) := by
  have hnew : d = st.newConnection := h.accepts _ he
  have halone : PeerStep docRoot files c (.handleAccept d er) (st.peers c) (st.peers c) :=
    PeerStep.alone (fun _ _ _ hf => by cases hf) fun _ _ _ hf => by cases hf
  cases hacceptor : st.acceptorOpen with
  | false =>
    have hsame : ((serverMachine docRoot files).next st (.handleAccept d er)).peers = st.peers := by
      simp [serverMachine, ServerState.handleAccept, hacceptor]
    rw [hsame]
    exact halone
  | true =>
    by_cases hok : er = .success
    · subst hok
      have hpeers : ((serverMachine docRoot files).next st (.handleAccept d .success)).peers =
          (st.managerStart st.newConnection).peers := by
        simp [serverMachine, ServerState.handleAccept, hacceptor, ServerState.startAccept,
          ServerState.managerStart, ServerState.update]
      rw [hpeers, ServerState.peers_managerStart, ← hnew]
      by_cases hc : c = d
      · rw [if_pos hc, hc]
        apply PeerStep.started
        · rw [hnew]
          exact h.next_new
        · rw [hnew]
          apply h.opened
          rw [← hnew]
          exact he
      · rw [if_neg hc]
        exact halone
    · have hsame : ((serverMachine docRoot files).next st (.handleAccept d er)).peers =
          st.peers := by
        simp [serverMachine, ServerState.handleAccept, hacceptor, ServerState.startAccept, hok]
      rw [hsame]
      exact halone

theorem peerStep (h : Lifecycle docRoot files fills trace st) {e : ServerEvent}
    (he : (serverMachine docRoot files).enabled st e) (c : Nat) :
    PeerStep docRoot files c e (st.peers c)
      (((serverMachine docRoot files).next st e).peers c) := by
  cases e with
  | accepted d er => exact peerStep_accepted h he c
  | handleAccept d er => exact peerStep_handleAccept h he c
  | completed d kind er t =>
    change PeerStep docRoot files c _ _ ((st.update d (·.complete kind er t)).peers c)
    rw [ServerState.peers_update]
    by_cases hc : c = d
    · subst hc
      rw [if_pos rfl]
      exact PeerStep.completed he.1 he.2
    · rw [if_neg hc]
      refine PeerStep.alone (fun _ _ _ hf => ?_) fun _ _ _ hf => by cases hf
      cases hf
      exact hc rfl
  | handle d kind er t =>
    change PeerStep docRoot files c _ _ ((st.handle docRoot files d kind er t).peers c)
    rw [ServerState.handle_eq]
    simp only
    rw [ServerState.peers_update]
    by_cases hc : c = d
    · subst hc
      rw [if_pos rfl]
      exact PeerStep.handled he
    · rw [if_neg hc]
      refine PeerStep.alone (fun _ _ _ hf => by cases hf) fun _ _ _ hf => ?_
      cases hf
      exact hc rfl
  | handleStop =>
    change PeerStep docRoot files c _ _
      (if c ∈ st.connections then (st.peers c).close else st.peers c)
    split
    · exact PeerStep.closed
    · exact PeerStep.alone (fun _ _ _ hf => by cases hf) fun _ _ _ hf => by cases hf

/-- What the handler of a complete operation leaves outstanding. -/
theorem outstanding_handled (h : Kept docRoot files status p read) {kind : OpKind}
    {er : ErrorCode} {t : Bytes} (hop : ⟨kind, some (er, t)⟩ ∈ p.outstanding) :
    let p' := ServerState.handled docRoot files kind er t p
    (kind = .read ∧ er = .success ∧ p'.isOpen = p.isOpen ∧ p'.outstanding =
        [⟨nextKind docRoot files status (outcome (read ++ [t]).flatten),
          if p.isOpen then none else some (.other, [])⟩]) ∨
      (¬ (kind = .read ∧ er = .success) ∧ p'.isOpen = false ∧ p'.outstanding = []) := by
  intro p'
  have herase := erase_of_mem h hop
  have hclosed : er = .operationAborted → p.isOpen = false := by
    rintro rfl
    exact closed_of_aborted h hop
  have hother : ∀ q : Peer, q.outstanding = [] →
      (q.perform .stop).isOpen = false ∧ (q.perform .stop).outstanding = [] := by
    intro q hq
    refine ⟨rfl, ?_⟩
    change q.outstanding.map Operation.abort = []
    rw [hq]
    rfl
  cases kind with
  | read =>
    cases er with
    | success =>
      left
      obtain ⟨-, hperform⟩ := handleRead_success h.hasRead ((h.kinds _ hop).mp rfl)
        (h.fits _ _ _ hop)
      have hp' : p' = _ := hperform (p.dispatch docRoot files .read .success t).1
      rw [hp']
      refine ⟨rfl, rfl, rfl, ?_⟩
      change p.outstanding.erase _ ++ _ = _
      rw [herase]
      rfl
    | operationAborted => exact .inr ⟨by simp, hclosed rfl, herase⟩
    | other => exact .inr ⟨by simp, hother _ herase⟩
  | write buffers =>
    right
    refine ⟨by simp, ?_⟩
    cases er with
    | success => exact hother _ herase
    | operationAborted => exact ⟨hclosed rfl, herase⟩
    | other => exact hother _ herase

/-- Whatever is outstanding has been started. -/
def Launched (p : Peer) : Prop := ∀ op ∈ p.outstanding, op.kind ∈ p.started

theorem launched_perform {p : Peer} (h : Launched p) (actions : List Action) :
    Launched (actions.foldl Peer.perform p) := by
  have hlaunch : ∀ (q : Peer) (kind : OpKind), Launched q → Launched (q.launch kind) := by
    intro q kind hq op hop
    rcases List.mem_append.mp hop with hop | hop
    · exact List.mem_append_left _ (hq op hop)
    · rw [List.mem_singleton.mp hop]
      exact List.mem_append_right _ (List.mem_singleton_self _)
  have hclose : ∀ q : Peer, Launched q → Launched q.close := by
    intro q hq op hop
    obtain ⟨op', hop', rfl⟩ := List.mem_map.mp hop
    rw [kind_abort]
    exact hq op' hop'
  induction actions generalizing p with
  | nil => exact h
  | cons a actions ih =>
    apply ih
    cases a with
    | asyncReadSome => exact hlaunch p .read h
    | asyncWrite buffers => exact hlaunch p (.write buffers) h
    | shutdown => exact h
    | stop => exact hclose p h

theorem launched_handled {p : Peer} (h : Launched p) (kind : OpKind) (er : ErrorCode) (t : Bytes) :
    Launched (ServerState.handled docRoot files kind er t p) := by
  unfold ServerState.handled
  apply launched_perform
  cases kind with
  | read => exact fun op hop => h op (List.mem_of_mem_erase hop)
  | write buffers => exact fun op hop => h op (List.mem_of_mem_erase hop)

theorem launched_step {c : Nat} {e : ServerEvent} {p p' : Peer}
    (hstep : PeerStep docRoot files c e p p') (h : Launched p) : Launched p' := by
  cases hstep with
  | alone => exact h
  | opened => exact h
  | started => exact launched_perform (p := { p with hasStarted := true }) h _
  | completed hop =>
    intro op hmem
    rcases List.mem_append.mp hmem with hmem | hmem
    · exact h op (List.mem_of_mem_erase hmem)
    · rw [List.mem_singleton.mp hmem]
      exact h ⟨_, none⟩ hop
  | handled => exact launched_handled h _ _ _
  | closed => exact launched_perform h [.stop]

theorem launched_of_run (h : (serverMachine docRoot files).Run (.init fills) trace st) (c : Nat) :
    Launched (st.peers c) := by
  refine h.invariant_along (I := fun _ st => Launched (st.peers c))
    (fun op hop => by cases hop) ?_
  intro trace st e hrun hi he
  exact launched_step (peerStep (run_lifecycle hrun) he c) hi

end Steps

end AsioExamples.Http.Server
