import AsioExamples.Http.Server.PeerSteps
import Mathlib.Algebra.Order.BigOperators.Group.Finset

/-!
# Stopping the server

Once the server has been stopped no operation begins that would have to wait, and the handlers
that are left run out: `run` returns.
-/

namespace AsioExamples.Http.Server

set_option autoImplicit false

section Measure

/-- How many handlers an operation may still bring about on a closed socket: after a read the
next operation fails at once. -/
def Operation.weight (op : Operation) : Nat :=
  match op.kind, op.completion with
  | .read, some (.success, _) => 2
  | _, _ => 1

def Peer.weight (p : Peer) : Nat := p.outstanding.foldr (fun op n => op.weight + n) 0

theorem Operation.weight_pos (op : Operation) : 0 < op.weight := by
  unfold weight
  split
  · exact Nat.two_pos
  · exact Nat.one_pos

theorem Operation.weight_le (op : Operation) : op.weight ≤ 2 := by
  unfold weight
  split
  · exact Nat.le_refl 2
  · exact Nat.le_succ 1

/-- The accepts and the handlers that are left, on the connections of `S`. -/
def ServerState.left (S : Finset Nat) (st : ServerState) : Nat :=
  st.accepts.length + ∑ c ∈ S, (st.peers c).weight

theorem sum_weight_lt {S : Finset Nat} {peers : Nat → Peer} {c : Nat} {p : Peer} (hc : c ∈ S)
    (hlt : p.weight < (peers c).weight) :
    ∑ d ∈ S, (Function.update peers c p d).weight < ∑ d ∈ S, (peers d).weight := by
  apply Finset.sum_lt_sum
  · intro d _
    by_cases hd : d = c
    · subst hd
      rw [Function.update_self]
      exact Nat.le_of_lt hlt
    · rw [Function.update_of_ne hd]
  · refine ⟨c, hc, ?_⟩
    rw [Function.update_self]
    exact hlt

end Measure

/-- The handler of an accept. -/
def ServerEvent.handlesAccept : ServerEvent → Bool
  | .handleAccept _ _ => true
  | _ => false

/-- A handler of connection `c`. -/
def ServerEvent.handles (c : Nat) : ServerEvent → Bool
  | .handle d _ _ _ => d = c
  | _ => false

section Draining
variable {docRoot : Bytes} {files : Bytes → Option Bytes} {fills : Nat → Buffer × Nat}
  {trace : List ServerEvent} {st : ServerState} {S : Finset Nat}

/-- Before the stop a connection whose socket is closed has nothing outstanding. -/
def Settled (p : Peer) : Prop := p.isOpen = false → p.outstanding = []

theorem settled_step {c : Nat} {e : ServerEvent} {p p' : Peer} {status : Nat}
    {read : List Bytes} (hstep : PeerStep docRoot files c e p p')
    (hkept : Kept docRoot files status p read) (h : Settled p) (he : e ≠ .handleStop) :
    Settled p' := by
  cases hstep with
  | alone => exact h
  | opened => exact fun hopen => Bool.noConfusion hopen
  | started hnew hopen =>
    intro hclosed
    have hclosed : p.isOpen = false := hclosed
    rw [hopen] at hclosed
    cases hclosed
  | completed hop =>
    intro hclosed
    rw [h hclosed] at hop
    cases hop
  | handled hop =>
    intro hclosed
    rcases outstanding_handled hkept hop with ⟨-, -, hsame, -⟩ | ⟨-, -, hout⟩
    · rw [hsame] at hclosed
      rw [h hclosed] at hop
      cases hop
    · exact hout
  | closed => exact absurd rfl he

theorem settled_of_run (h : (serverMachine docRoot files).Run (.init fills) trace st)
    (hstop : .handleStop ∉ trace) (c : Nat) : Settled (st.peers c) := by
  refine h.invariant_along (I := fun trace st => .handleStop ∉ trace → Settled (st.peers c))
    (fun _ _ => rfl) ?_ hstop
  intro trace st e hrun hi he hstop
  have hl := run_lifecycle hrun
  refine settled_step (peerStep hl he c) (hl.kept c) ?_ ?_
  · exact hi fun hmem => hstop (List.mem_append_left _ hmem)
  · rintro rfl
    exact hstop (List.mem_append_right _ (List.mem_singleton_self _))

/-- From the stop on: everything that is outstanding is complete, on closed sockets and on
connections of `S`. -/
structure Draining (docRoot : Bytes) (files : Bytes → Option Bytes) (fills : Nat → Buffer × Nat)
    (S : Finset Nat) (st : ServerState) : Prop where
  acceptor : st.acceptorOpen = false
  signals : st.signalWait = false
  accepts : ∀ a ∈ st.accepts, a.completion ≠ none
  kept : ∀ c, ∃ read, Kept docRoot files (fills c).2 (st.peers c) read
  closed : ∀ c, (st.peers c).hasStarted = true → (st.peers c).isOpen = false
  complete : ∀ c, ∀ op ∈ (st.peers c).outstanding, op.completion ≠ none
  outside : ∀ c, (st.peers c).outstanding ≠ [] → c ∈ S

theorem completion_abort (op : Operation) : op.abort.completion ≠ none := by
  unfold Operation.abort
  split
  · simp
  · next h => simp [h]

theorem draining_handleStop (h : (serverMachine docRoot files).Run (.init fills) trace st)
    (hstop : .handleStop ∉ trace)
    (he : (serverMachine docRoot files).enabled st .handleStop) :
    Draining docRoot files fills st.connections
      ((serverMachine docRoot files).next st .handleStop) := by
  have hl := run_lifecycle h
  have hl' := run_lifecycle (h.step _ he)
  obtain ⟨hacceptor, hsignals, hempty⟩ :=
    hl'.stopped (List.mem_append_right _ (List.mem_singleton_self _))
  have hpeers : ∀ c, ((serverMachine docRoot files).next st .handleStop).peers c =
      if c ∈ st.connections then (st.peers c).close else st.peers c := fun _ => rfl
  have hnone : ∀ c, c ∉ st.connections → (st.peers c).outstanding = [] := by
    intro c hc
    cases hs : (st.peers c).hasStarted with
    | false => exact ((hl.kept c).idle hs).1
    | true =>
      refine settled_of_run h hstop c ?_
      cases hopen : (st.peers c).isOpen with
      | false => rfl
      | true => exact absurd ((hl.members c).mpr ⟨hs, hopen⟩) hc
  refine ⟨hacceptor, hsignals, fun a ha => ?_, fun c => ⟨_, hl'.kept c⟩, fun c hs => ?_,
    fun c op hop => ?_, fun c hout => ?_⟩
  · obtain ⟨a', -, rfl⟩ := List.mem_map.mp ha
    unfold Accept.abort
    split
    · simp
    · next h => simp [h]
  · cases hopen : (((serverMachine docRoot files).next st .handleStop).peers c).isOpen with
    | false => rfl
    | true =>
      have hmem := (hl'.members c).mpr ⟨hs, hopen⟩
      rw [hempty] at hmem
      exact absurd hmem (Finset.notMem_empty c)
  · rw [hpeers] at hop
    by_cases hc : c ∈ st.connections
    · rw [if_pos hc] at hop
      obtain ⟨op', -, rfl⟩ := List.mem_map.mp hop
      exact completion_abort op'
    · rw [if_neg hc, hnone c hc] at hop
      cases hop
  · by_contra hc
    rw [hpeers, if_neg hc] at hout
    exact hout (hnone c hc)

/-- The handler of an operation on a closed socket. -/
theorem draining_handle (h : Draining docRoot files fills S st) {c : Nat} {kind : OpKind}
    {er : ErrorCode} {t : Bytes} (hop : ⟨kind, some (er, t)⟩ ∈ (st.peers c).outstanding) :
    Draining docRoot files fills S
        ((serverMachine docRoot files).next st (.handle c kind er t)) ∧
      ((serverMachine docRoot files).next st (.handle c kind er t)).accepts = st.accepts ∧
      ∃ p', ((serverMachine docRoot files).next st (.handle c kind er t)).peers =
        Function.update st.peers c p' ∧ p'.weight < (st.peers c).weight := by
  obtain ⟨read, hkept⟩ := h.kept c
  have hs := hasStarted_of_mem hkept hop
  have hclosed := h.closed c hs
  have hold := outstanding_eq_of_mem hkept hop
  have hc : c ∈ S := h.outside c (List.ne_nil_of_mem hop)
  generalize hp : ServerState.handled docRoot files kind er t (st.peers c) = p'
  have hpeers : ((serverMachine docRoot files).next st (.handle c kind er t)).peers =
      Function.update st.peers c p' := by
    change (st.handle docRoot files c kind er t).peers = _
    rw [ServerState.handle_eq, ← hp]
    rfl
  have hother : ((serverMachine docRoot files).next st (.handle c kind er t)).acceptorOpen =
      st.acceptorOpen ∧ ((serverMachine docRoot files).next st (.handle c kind er t)).signalWait =
        st.signalWait ∧ ((serverMachine docRoot files).next st (.handle c kind er t)).accepts =
          st.accepts := by
    change (st.handle docRoot files c kind er t).acceptorOpen = _ ∧ _
    simp only [serverMachine, ServerState.handle_eq]
    exact ⟨rfl, rfl, rfl⟩
  have hkept' : ∃ read', Kept docRoot files (fills c).2 p' read' := by
    rw [← hp]
    exact ⟨_, kept_handle hkept hs hop⟩
  have hclosed' : p'.isOpen = false := by
    rw [← hp, isOpen_handled, hclosed]
    rfl
  have hweight : (∀ op ∈ p'.outstanding, op.completion ≠ none) ∧
      p'.weight < (st.peers c).weight := by
    unfold Peer.weight
    rw [hold]
    rcases outstanding_handled hkept hop with ⟨rfl, rfl, -, hout⟩ | ⟨-, -, hout⟩
    · rw [hp, hclosed] at hout
      rw [hout]
      refine ⟨fun op hop => ?_, ?_⟩
      · rw [List.mem_singleton.mp hop]
        simp
      · simp [Operation.weight]
    · rw [hp] at hout
      rw [hout]
      refine ⟨fun op hop => (List.not_mem_nil hop).elim, ?_⟩
      simpa using Operation.weight_pos _
  obtain ⟨hacceptor, hsignals, haccepts⟩ := hother
  refine ⟨⟨hacceptor.trans h.acceptor, hsignals.trans h.signals, haccepts ▸ h.accepts,
    fun d => ?_, fun d hd => ?_, fun d op hd => ?_, fun d hd => ?_⟩, haccepts, p', hpeers,
    hweight.2⟩
  · by_cases hdc : d = c
    · subst hdc
      rw [hpeers, Function.update_self]
      exact hkept'
    · rw [hpeers, Function.update_of_ne hdc]
      exact h.kept d
  · by_cases hdc : d = c
    · subst hdc
      rw [hpeers, Function.update_self]
      exact hclosed'
    · rw [hpeers, Function.update_of_ne hdc] at hd ⊢
      exact h.closed d hd
  · by_cases hdc : d = c
    · subst hdc
      rw [hpeers, Function.update_self] at hd
      exact hweight.1 op hd
    · rw [hpeers, Function.update_of_ne hdc] at hd
      exact h.complete d op hd
  · by_cases hdc : d = c
    · rw [hdc]
      exact hc
    · rw [hpeers, Function.update_of_ne hdc] at hd
      exact h.outside d hd

/-- Nothing but handlers is left, and each of them brings the end nearer: that of an accept and
those of each connection. -/
theorem draining_next (h : Draining docRoot files fills S st) {e : ServerEvent}
    (he : (serverMachine docRoot files).enabled st e) :
    Draining docRoot files fills S ((serverMachine docRoot files).next st e) ∧
      ((serverMachine docRoot files).next st e).left S < st.left S ∧
      [e].countP ServerEvent.handlesAccept +
        ((serverMachine docRoot files).next st e).accepts.length ≤ st.accepts.length ∧
      ∀ d, [e].countP (ServerEvent.handles d) +
        (((serverMachine docRoot files).next st e).peers d).weight ≤ (st.peers d).weight := by
  cases e with
  | accepted c er => exact absurd rfl (h.accepts _ he.1)
  | handleAccept c er =>
    have hmem : ⟨c, some er⟩ ∈ st.accepts := he
    have hnext : (serverMachine docRoot files).next st (.handleAccept c er) =
        { st with accepts := st.accepts.erase ⟨c, some er⟩ } := by
      simp [serverMachine, ServerState.handleAccept, h.acceptor]
    have hlength := List.length_erase_add_one hmem
    rw [hnext]
    refine ⟨⟨h.acceptor, h.signals, fun a ha => h.accepts a (List.mem_of_mem_erase ha), h.kept,
      h.closed, h.complete, h.outside⟩, ?_, ?_, fun d => Nat.le_of_eq (Nat.zero_add _)⟩
    · apply Nat.add_lt_add_right
      change (st.accepts.erase ⟨c, some er⟩).length < st.accepts.length
      omega
    · change 1 + (st.accepts.erase ⟨c, some er⟩).length ≤ st.accepts.length
      omega
  | completed c kind er t => exact absurd rfl (h.complete c _ he.1)
  | handle c kind er t =>
    have hop : ⟨kind, some (er, t)⟩ ∈ (st.peers c).outstanding := he
    obtain ⟨hdraining, haccepts, p', hpeers, hweight⟩ := draining_handle h hop
    have hc : c ∈ S := h.outside c (List.ne_nil_of_mem hop)
    refine ⟨hdraining, ?_, ?_, fun d => ?_⟩
    · unfold ServerState.left
      rw [haccepts, hpeers]
      exact Nat.add_lt_add_left (sum_weight_lt hc hweight) _
    · rw [haccepts]
      exact Nat.le_of_eq (Nat.zero_add _)
    · rw [hpeers]
      by_cases hdc : d = c
      · subst hdc
        have hone : [ServerEvent.handle d kind er t].countP (ServerEvent.handles d) = 1 := by
          simp [ServerEvent.handles]
        rw [hone, Function.update_self]
        omega
      · have hnone : [ServerEvent.handle c kind er t].countP (ServerEvent.handles d) = 0 := by
          simp [ServerEvent.handles, Ne.symm hdc]
        rw [hnone, Nat.zero_add, Function.update_of_ne hdc]
  | handleStop =>
    have hsignals : st.signalWait = true := he
    rw [h.signals] at hsignals
    cases hsignals

/-- The server has run out exactly when nothing is outstanding. -/
theorem Draining.done_iff (h : Draining docRoot files fills S st) :
    (∀ e, ¬ (serverMachine docRoot files).enabled st e) ↔
      st.accepts = [] ∧ ∀ c, (st.peers c).outstanding = [] := by
  constructor
  · intro hdone
    refine ⟨List.eq_nil_iff_forall_not_mem.mpr fun a ha => ?_,
      fun c => List.eq_nil_iff_forall_not_mem.mpr fun op hop => ?_⟩
    · rcases a with ⟨c, completion⟩
      cases completion with
      | none => exact h.accepts _ ha rfl
      | some er => exact hdone (.handleAccept c er) ha
    · rcases op with ⟨kind, completion⟩
      cases completion with
      | none => exact h.complete c _ hop rfl
      | some result => exact hdone (.handle c kind result.1 result.2) hop
  · rintro ⟨haccepts, hout⟩ e he
    cases e with
    | accepted c er =>
      have hmem := he.1
      rw [haccepts] at hmem
      cases hmem
    | handleAccept c er =>
      have hmem : ⟨c, some er⟩ ∈ st.accepts := he
      rw [haccepts] at hmem
      cases hmem
    | completed c kind er t =>
      have hmem := he.1
      rw [hout c] at hmem
      cases hmem
    | handle c kind er t =>
      have hmem : ⟨kind, some (er, t)⟩ ∈ (st.peers c).outstanding := he
      rw [hout c] at hmem
      cases hmem
    | handleStop =>
      have hsignals : st.signalWait = true := he
      rw [h.signals] at hsignals
      cases hsignals

/-- At the stop there are at most two handlers to come for each connection there is. -/
theorem weight_handleStop (h : Lifecycle docRoot files fills trace st)
    (hdraining : Draining docRoot files fills st.connections
      ((serverMachine docRoot files).next st .handleStop)) (c : Nat) :
    (((serverMachine docRoot files).next st .handleStop).peers c).weight ≤
      if c ∈ st.connections then 2 else 0 := by
  by_cases hc : c ∈ st.connections
  · have hclose : ((serverMachine docRoot files).next st .handleStop).peers c =
        (st.peers c).close := if_pos hc
    have hsingle := (h.kept c).single
    rw [hclose, if_pos hc]
    unfold Peer.weight
    change ((st.peers c).outstanding.map Operation.abort).foldr (fun op n => op.weight + n) 0 ≤ 2
    match hout : (st.peers c).outstanding with
    | [] => exact Nat.zero_le 2
    | [op] => simpa using op.abort.weight_le
    | _ :: _ :: _ =>
      rw [hout] at hsingle
      simp at hsingle
  · have hout : (((serverMachine docRoot files).next st .handleStop).peers c).outstanding = [] := by
      by_contra hne
      exact hc (hdraining.outside c hne)
    unfold Peer.weight
    rw [hout]
    exact Nat.zero_le _

theorem length_accepts_handleStop (h : Lifecycle docRoot files fills trace st)
    (hstop : .handleStop ∉ trace) :
    ((serverMachine docRoot files).next st .handleStop).accepts.length = 1 := by
  change (st.accepts.map Accept.abort).length = 1
  rw [List.length_map]
  exact (h.running hstop).2.2

theorem left_handleStop (h : Lifecycle docRoot files fills trace st)
    (hstop : .handleStop ∉ trace)
    (hdraining : Draining docRoot files fills st.connections
      ((serverMachine docRoot files).next st .handleStop)) :
    ((serverMachine docRoot files).next st .handleStop).left st.connections ≤
      2 * st.connections.card + 1 := by
  have hweight : ∀ c ∈ st.connections,
      (((serverMachine docRoot files).next st .handleStop).peers c).weight ≤ 2 := by
    intro c hc
    have hle := weight_handleStop h hdraining c
    rwa [if_pos hc] at hle
  have hsum : ∑ c ∈ st.connections,
      (((serverMachine docRoot files).next st .handleStop).peers c).weight ≤
        st.connections.card * 2 :=
    (Finset.sum_le_sum hweight).trans_eq (Finset.sum_const_nat fun _ _ => rfl)
  unfold ServerState.left
  rw [length_accepts_handleStop h hstop]
  omega

end Draining

/-- After the stop at most two handlers run for each connection there was, and one for the
accept. Nothing is read, written or accepted any more: every operation has its result, and `run`
returns exactly when none is outstanding. -/
theorem stop_lets_run_return (docRoot : Bytes) (files : Bytes → Option Bytes)
    (fills : Nat → Buffer × Nat) {before rest : List ServerEvent} {st₁ st : ServerState}
    (h₁ : (serverMachine docRoot files).Run (.init fills) before st₁)
    (h : (serverMachine docRoot files).Run (.init fills) (before ++ .handleStop :: rest) st) :
    rest.length ≤ 2 * st₁.connections.card + 1 ∧
      (∀ c, rest.countP (ServerEvent.handles c) ≤ if c ∈ st₁.connections then 2 else 0) ∧
      rest.countP ServerEvent.handlesAccept ≤ 1 ∧
      (∀ a ∈ st.accepts, a.completion ≠ none) ∧
      (∀ c, ∀ op ∈ (st.peers c).outstanding, op.completion ≠ none) ∧
      ((∀ e, ¬ (serverMachine docRoot files).enabled st e) ↔
        st.accepts = [] ∧ ∀ c, (st.peers c).outstanding = []) := by
  have he := h.at.2
  have hrest := h.after
  rw [← h₁.eq_foldl] at he hrest
  have hl := run_lifecycle h₁
  -- The signal is waited for once.
  have hstop : .handleStop ∉ before := by
    intro hmem
    have hsignals : st₁.signalWait = true := he
    rw [(hl.stopped hmem).2.1] at hsignals
    cases hsignals
  have hstopped := draining_handleStop h₁ hstop he
  have hleft := left_handleStop hl hstop hstopped
  obtain ⟨hdraining, hlength⟩ := hrest.length_add_le hstopped fun s e hi he =>
    ⟨(draining_next hi he).1, (draining_next hi he).2.1⟩
  refine ⟨by omega, fun c => ?_, ?_, hdraining.accepts, hdraining.complete, hdraining.done_iff⟩
  · have hweight := weight_handleStop hl hstopped c
    obtain ⟨-, hcount⟩ := hrest.countP_add_le (P := ServerEvent.handles c)
      (μ := fun st => (st.peers c).weight) hstopped fun s e hi he =>
        ⟨(draining_next hi he).1, (draining_next hi he).2.2.2 c⟩
    exact (Nat.le_add_right _ _).trans (hcount.trans hweight)
  · have haccepts := length_accepts_handleStop hl hstop
    obtain ⟨-, hcount⟩ := hrest.countP_add_le (P := ServerEvent.handlesAccept)
      (μ := fun st => st.accepts.length) hstopped fun s e hi he =>
        ⟨(draining_next hi he).1, (draining_next hi he).2.2.1⟩
    omega

/-- A result is waiting for each handler, so there are as many of them to run as may be. -/
theorem stop_lets_run_return_one :
    let before : List ServerEvent := [.accepted 0 .success, .handleAccept 0 .success,
      .accepted 1 .success, .completed 0 .read .success (str "GET")]
    let rest : List ServerEvent := [.handleAccept 1 .success, .handle 0 .read .success (str "GET"),
      .handle 0 .read .other []]
    ∃ st₁ st : ServerState, (serverMachine (str "/www") fun _ => none).Run
        (.init fun _ => (Buffer.zero, 0)) (before ++ .handleStop :: rest) st ∧
      st₁.connections = {0} ∧ rest.length ≤ 2 * st₁.connections.card + 1 ∧
      ∀ e, ¬ (serverMachine (str "/www") fun _ => none).enabled st e := by
  intro before rest
  have hadmits : (serverMachine (str "/www") fun _ => none).Admits
      (.init fun _ => (Buffer.zero, 0)) (before ++ .handleStop :: rest) := by decide +kernel
  have hadmits₁ : (serverMachine (str "/www") fun _ => none).Admits
      (.init fun _ => (Buffer.zero, 0)) before := by decide +kernel
  have hrun := hadmits.run
  obtain ⟨hlength, -, -, -, -, hdone⟩ := stop_lets_run_return _ _ _ hadmits₁.run hrun
  have hl := run_lifecycle hrun
  refine ⟨before.foldl (serverMachine (str "/www") fun _ => none).next
    (.init fun _ => (Buffer.zero, 0)), _, hrun, by decide +kernel, hlength,
    hdone.mpr ⟨by decide +kernel, fun c => ?_⟩⟩
  match c with
  | 0 => decide +kernel
  | 1 => decide +kernel
  | c + 2 =>
    refine ((hl.kept (c + 2)).idle (hl.unmade _ ?_)).1
    have hmade : (List.foldl (serverMachine (str "/www") fun _ => none).next
        (.init fun _ => (Buffer.zero, 0)) (before ++ .handleStop :: rest)).made = 2 := by
      decide +kernel
    omega

end AsioExamples.Http.Server
