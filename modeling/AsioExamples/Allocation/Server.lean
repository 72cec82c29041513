import AsioExamples.Allocation.Session
import AsioExamples.Theory.Pipe
import Mathlib.Logic.Function.Basic

/-!
# The echo server

The server accepts one connection after the other, and each gets a session. Whatever comes when,
a session writes back what its client has sent, and its memory serves its operations one at a
time.
-/

namespace AsioExamples.Allocation

set_option autoImplicit false

universe u

/-- `run` goes on until an exception leaves it. `up` are the connections from the clients, and
`written` is what has been sent back on them. -/
structure ServerState (α : Type u) where
  running : Bool
  newSession : Nat
  sessions : Nat → Session α
  up : Nat → Pipe UInt8
  written : Nat → Bytes

inductive ServerEvent (α : Type u) where
  | handleAccept (error : Bool) (r : Request α)
  | send (s : Nat) (bytes : Bytes)
  | receive (s : Nat) (block : α) (piece : Bytes)
  | write (s : Nat) (block : α) (length sent transferred : Nat)
  | fail (s : Nat) (op : Operation α)
  | handle (s : Nat) (op : Operation α) (error : Bool) (bytesTransferred : Nat) (r : Request α)
deriving DecidableEq

namespace ServerState
variable {α : Type u}

def init [DecidableEq α] (data : Nat → Data) (address : Nat → α) : ServerState α where
  running := true
  newSession := 0
  sessions s := Session.new (data s) (address s)
  up _ := Pipe.empty
  written _ := []

/-- What becomes of a session, unless an exception ends the program. -/
def put (st : ServerState α) (s : Nat) : Option (Session α) → ServerState α
  | none => { st with running := false }
  | some session => { st with sessions := Function.update st.sessions s session }

/-- The next connection is accepted with a new session, after an error too. -/
def handleAccept [DecidableEq α] (st : ServerState α) (error : Bool) (r : Request α) :
    ServerState α :=
  let st' := if !error then st.put st.newSession ((st.sessions st.newSession).start r) else st
  if st'.running then { st' with newSession := st.newSession + 1 } else st'

end ServerState

section Machine
variable (α : Type u) [DecidableEq α]

/-- Reads and writes transfer at least one byte, or fail. -/
def serverMachine : Machine (ServerState α) (ServerEvent α) where
  enabled st
    | .handleAccept _ r => st.running = true ∧
        (st.sessions st.newSession).memory.Fresh r.operatorNew
    | .send _ _ => True
    | .receive s block piece => st.running = true ∧
        ⟨.asyncReadSome, block, none⟩ ∈ (st.sessions s).outstanding ∧
        piece ≠ [] ∧ piece.length ≤ 1024 ∧ piece <+: (st.up s).waiting
    | .write s block length sent transferred => st.running = true ∧
        ⟨.asyncWriteSome length sent, block, none⟩ ∈ (st.sessions s).outstanding ∧
        0 < transferred ∧ sent + transferred ≤ length
    | .fail s op => st.running = true ∧ op ∈ (st.sessions s).outstanding ∧ op.result = none
    | .handle s op error bytesTransferred r => st.running = true ∧
        op ∈ (st.sessions s).outstanding ∧ op.result = some (error, bytesTransferred) ∧
        ((st.sessions s).memory.next (.deallocateObjects op.block 1)).Fresh r.operatorNew
  next st
    | .handleAccept error r => st.handleAccept error r
    | .send s bytes => { st with up := Function.update st.up s ((st.up s).send bytes) }
    | .receive s block piece =>
      let session := { st.sessions s with data := (st.sessions s).data.store piece }
      { st with
        sessions := Function.update st.sessions s
          (session.finish ⟨.asyncReadSome, block, none⟩ false piece.length)
        up := Function.update st.up s ((st.up s).receive piece.length) }
    | .write s block length sent transferred =>
      let stretch := ((st.sessions s).data.bytes.take length).drop sent
      { st with
        sessions := Function.update st.sessions s
          ((st.sessions s).finish ⟨.asyncWriteSome length sent, block, none⟩ false transferred)
        written := Function.update st.written s (st.written s ++ stretch.take transferred) }
    | .fail s op =>
      { st with sessions := Function.update st.sessions s ((st.sessions s).finish op true 0) }
    | .handle s op error bytesTransferred r =>
      st.put s ((st.sessions s).complete op error bytesTransferred r)

instance : ∀ (st : ServerState α) (e : ServerEvent α), Decidable ((serverMachine α).enabled st e)
  | _, .handleAccept _ _ => inferInstanceAs (Decidable (_ ∧ State.Fresh _ _))
  | _, .send _ _ => .isTrue trivial
  | _, .receive _ _ _ => inferInstanceAs (Decidable (_ ∧ _ ∧ _ ∧ _ ∧ _))
  | _, .write _ _ _ _ _ => inferInstanceAs (Decidable (_ ∧ _ ∧ _ ∧ _))
  | _, .fail _ _ => inferInstanceAs (Decidable (_ ∧ _ ∧ _))
  | _, .handle _ _ _ _ _ => inferInstanceAs (Decidable (_ ∧ _ ∧ _ ∧ State.Fresh _ _))

end Machine

section Steps
variable {α : Type u}

/-- A session, what it has read and what it has written. -/
structure View (α : Type u) where
  session : Session α
  received : Bytes
  written : Bytes

def ServerState.view (st : ServerState α) (k : Nat) : View α :=
  ⟨st.sessions k, (st.up k).received, st.written k⟩

theorem view_put (st : ServerState α) (s : Nat) (result : Option (Session α)) (k : Nat) :
    (st.put s result).view k = st.view k ∨
      ∃ s', k = s ∧ result = some s' ∧
        (st.put s result).view k = { st.view k with session := s' } := by
  cases result with
  | none => exact .inl rfl
  | some s' =>
    by_cases hk : k = s
    · subst hk
      right
      refine ⟨s', rfl, rfl, ?_⟩
      simp [ServerState.view, ServerState.put]
    · left
      simp [ServerState.view, ServerState.put, hk]

variable [DecidableEq α]

/-- The ways in which an event may change session `k`. -/
inductive SessionStep (k : Nat) : ServerEvent α → View α → View α → Prop where
  | alone {e : ServerEvent α} {v : View α} (hfail : ∀ op, e ≠ .fail k op) : SessionStep k e v v
  | started {r : Request α} {v : View α} {s' : Session α} (hnew : v.session.started = false)
      (hfresh : v.session.memory.Fresh r.operatorNew) (h : v.session.start r = some s') :
      SessionStep k (.handleAccept false r) v { v with session := s' }
  | received {block : α} {piece : Bytes} {v : View α}
      (hop : ⟨.asyncReadSome, block, none⟩ ∈ v.session.outstanding) (hne : piece ≠ [])
      (hlen : piece.length ≤ 1024) :
      SessionStep k (.receive k block piece) v
        { v with
          session := { v.session with data := v.session.data.store piece }.finish
            ⟨.asyncReadSome, block, none⟩ false piece.length
          received := v.received ++ piece }
  | wrote {block : α} {length sent transferred : Nat} {v : View α}
      (hop : ⟨.asyncWriteSome length sent, block, none⟩ ∈ v.session.outstanding)
      (hpos : 0 < transferred) (hle : sent + transferred ≤ length) :
      SessionStep k (.write k block length sent transferred) v
        { v with
          session := v.session.finish ⟨.asyncWriteSome length sent, block, none⟩ false transferred
          written := v.written ++
            ((v.session.data.bytes.take length).drop sent).take transferred }
  | failed {op : Operation α} {v : View α} (hop : op ∈ v.session.outstanding)
      (hnone : op.result = none) :
      SessionStep k (.fail k op) v { v with session := v.session.finish op true 0 }
  | handled {op : Operation α} {error : Bool} {n : Nat} {r : Request α} {v : View α}
      {s' : Session α} (hop : op ∈ v.session.outstanding) (hresult : op.result = some (error, n))
      (hfresh : (v.session.memory.next (.deallocateObjects op.block 1)).Fresh r.operatorNew)
      (h : v.session.complete op error n r = some s') :
      SessionStep k (.handle k op error n r) v { v with session := s' }

theorem view_handleAccept (st : ServerState α) (error : Bool) (r : Request α) (k : Nat) :
    (st.handleAccept error r).view k =
      (if error then st else
        st.put st.newSession ((st.sessions st.newSession).start r)).view k := by
  have hview : ∀ st' : ServerState α, (if st'.running then
      { st' with newSession := st.newSession + 1 } else st').view k = st'.view k := by
    intro st'
    split <;> rfl
  unfold ServerState.handleAccept
  rw [hview]
  cases error <;> rfl

theorem sessionStep {st : ServerState α} (hnew : (st.sessions st.newSession).started = false)
    {e : ServerEvent α} (he : (serverMachine α).enabled st e) (k : Nat) :
    SessionStep k e (st.view k) (((serverMachine α).next st e).view k) := by
  cases e with
  | handleAccept error r =>
    have halone : SessionStep k (.handleAccept error r) (st.view k) (st.view k) :=
      SessionStep.alone fun _ hf => by cases hf
    change SessionStep k _ _ ((st.handleAccept error r).view k)
    rw [view_handleAccept]
    cases error with
    | true => exact halone
    | false =>
      rcases view_put st st.newSession ((st.sessions st.newSession).start r) k with
        hsame | ⟨s', rfl, hstart, hview⟩
      · rw [if_neg Bool.false_ne_true, hsame]
        exact halone
      · rw [if_neg Bool.false_ne_true, hview]
        exact SessionStep.started hnew he.2 hstart
  | send s bytes =>
    have hsame : ((serverMachine α).next st (.send s bytes)).view k = st.view k := by
      by_cases hk : k = s
      · subst hk
        simp [serverMachine, ServerState.view]
      · simp [serverMachine, ServerState.view, hk]
    rw [hsame]
    exact SessionStep.alone fun _ hf => by cases hf
  | receive s block piece =>
    obtain ⟨-, hop, hne, hlen, hpiece⟩ := he
    by_cases hk : k = s
    · subst hk
      have hview : ((serverMachine α).next st (.receive k block piece)).view k =
          { st.view k with
            session := { st.sessions k with data := (st.sessions k).data.store piece }.finish
              ⟨.asyncReadSome, block, none⟩ false piece.length
            received := (st.up k).received ++ piece } := by
        simp [serverMachine, ServerState.view, Pipe.received_receive hpiece]
      rw [hview]
      exact SessionStep.received (v := st.view k) hop hne hlen
    · have hview : ((serverMachine α).next st (.receive s block piece)).view k = st.view k := by
        simp [serverMachine, ServerState.view, hk]
      rw [hview]
      exact SessionStep.alone fun _ hf => by cases hf
  | write s block length sent transferred =>
    obtain ⟨-, hop, hpos, hle⟩ := he
    by_cases hk : k = s
    · subst hk
      have hview : ((serverMachine α).next st (.write k block length sent transferred)).view k =
          { st.view k with
            session := (st.sessions k).finish ⟨.asyncWriteSome length sent, block, none⟩ false
              transferred
            written := st.written k ++
              (((st.sessions k).data.bytes.take length).drop sent).take transferred } := by
        simp [serverMachine, ServerState.view]
      rw [hview]
      exact SessionStep.wrote (v := st.view k) hop hpos hle
    · have hview : ((serverMachine α).next st (.write s block length sent transferred)).view k =
          st.view k := by
        simp [serverMachine, ServerState.view, hk]
      rw [hview]
      exact SessionStep.alone fun _ hf => by cases hf
  | fail s op =>
    obtain ⟨-, hop, hnone⟩ := he
    by_cases hk : k = s
    · subst hk
      have hview : ((serverMachine α).next st (.fail k op)).view k =
          { st.view k with session := (st.sessions k).finish op true 0 } := by
        simp [serverMachine, ServerState.view]
      rw [hview]
      exact SessionStep.failed (v := st.view k) hop hnone
    · have hview : ((serverMachine α).next st (.fail s op)).view k = st.view k := by
        simp [serverMachine, ServerState.view, hk]
      rw [hview]
      refine SessionStep.alone fun _ hf => ?_
      cases hf
      exact hk rfl
  | handle s op error n r =>
    obtain ⟨-, hop, hresult, hfresh⟩ := he
    change SessionStep k _ _ ((st.put s ((st.sessions s).complete op error n r)).view k)
    rcases view_put st s ((st.sessions s).complete op error n r) k with
      hsame | ⟨s', rfl, hcomplete, hview⟩
    · rw [hsame]
      exact SessionStep.alone fun _ hf => by cases hf
    · rw [hview]
      exact SessionStep.handled hop hresult hfresh hcomplete

theorem echoes_step {address : α} {k : Nat} {e : ServerEvent α} {v v' : View α}
    (hstep : SessionStep k e v v') (h : Echoes address v.session v.received v.written) :
    Echoes address v'.session v'.received v'.written := by
  cases hstep with
  | alone => exact h
  | started hnew hfresh hstart => exact h.start hnew hfresh hstart
  | received hop hne hlen => exact h.receive hop hne hlen
  | wrote hop hpos hle => exact h.send hop hpos hle
  | failed hop hnone => exact h.fail hop hnone
  | handled hop hresult hfresh hcomplete => exact h.complete hop hresult hfresh hcomplete

/-- Only an accept starts a session. -/
theorem started_step {k : Nat} {e : ServerEvent α} {v v' : View α}
    (hstep : SessionStep k e v v') (he : ∀ r, e ≠ .handleAccept false r) :
    v'.session.started = v.session.started := by
  cases hstep with
  | started => exact absurd rfl (he _)
  | handled hop hresult hfresh hcomplete => exact started_complete hcomplete
  | _ => rfl

end Steps

section Runs
variable {α : Type u} [DecidableEq α] {data : Nat → Data} {address : Nat → α}
  {trace : List (ServerEvent α)} {st : ServerState α}

structure Serves (address : Nat → α) (st : ServerState α) : Prop where
  echoes : ∀ k, Echoes (address k) (st.sessions k) (st.up k).received (st.written k)
  unstarted : ∀ k, st.newSession ≤ k → (st.sessions k).started = false

theorem unstarted_handleAccept (h : Serves address st) (hrunning : st.running = true)
    (error : Bool) (r : Request α) (k : Nat) (hk : (st.handleAccept error r).newSession ≤ k) :
    ((st.handleAccept error r).view k).session.started = false := by
  rw [view_handleAccept]
  cases error with
  | true =>
    have hnext : (st.handleAccept true r).newSession = st.newSession + 1 := by
      simp [ServerState.handleAccept, hrunning]
    rw [hnext] at hk
    exact h.unstarted k (Nat.le_of_succ_le hk)
  | false =>
    rw [if_neg Bool.false_ne_true]
    cases hstart : (st.sessions st.newSession).start r with
    | none =>
      have hnext : (st.handleAccept false r).newSession = st.newSession := by
        simp [ServerState.handleAccept, hstart, ServerState.put]
      rw [hnext] at hk
      exact h.unstarted k hk
    | some s' =>
      have hnext : (st.handleAccept false r).newSession = st.newSession + 1 := by
        simp [ServerState.handleAccept, hstart, ServerState.put, hrunning]
      rw [hnext] at hk
      have hne : k ≠ st.newSession := by omega
      have hsame : (st.put st.newSession (some s')).sessions k = st.sessions k :=
        Function.update_of_ne hne ..
      change ((st.put st.newSession (some s')).sessions k).started = false
      rw [hsame]
      exact h.unstarted k (Nat.le_of_succ_le hk)

theorem serves_next (h : Serves address st) {e : ServerEvent α}
    (he : (serverMachine α).enabled st e) : Serves address ((serverMachine α).next st e) := by
  have hstep := sessionStep (h.unstarted _ (Nat.le_refl _)) he
  refine ⟨fun k => echoes_step (hstep k) (h.echoes k), fun k hk => ?_⟩
  by_cases haccept : ∃ error r, e = .handleAccept error r
  · obtain ⟨error, r, rfl⟩ := haccept
    exact unstarted_handleAccept h he.1 error r k hk
  · have hsame : ((serverMachine α).next st e).newSession = st.newSession := by
      cases e with
      | handleAccept error r => exact absurd ⟨error, r, rfl⟩ haccept
      | handle s op error n r =>
        change (st.put s _).newSession = _
        cases (st.sessions s).complete op error n r <;> rfl
      | _ => rfl
    rw [hsame] at hk
    have hstarted := started_step (hstep k) fun r he => haccept ⟨_, r, he⟩
    exact hstarted.trans (h.unstarted k hk)

theorem serves_of_run (h : (serverMachine α).Run (.init data address) trace st) :
    Serves address st := by
  refine h.invariant (I := fun _ => Serves address) ?_ fun _ _ _ hinv he => serves_next hinv he
  exact ⟨fun k => echoes_new (data k) (address k), fun _ _ => rfl⟩

/-- A session that has been started and on which nothing has failed has one operation
outstanding. -/
structure Busy (s : Session α) : Prop where
  busy : s.started = true → s.outstanding.length = 1
  succeeds : ∀ op ∈ s.outstanding, ∀ error n, op.result = some (error, n) → error = false

theorem busy_pending {β : Type u} {s : Session β} {kind : OpKind} {block : β}
    (h : s.outstanding = [⟨kind, block, none⟩]) : Busy s := by
  refine ⟨fun _ => by rw [h]; rfl, fun op hop error n hresult => ?_⟩
  rw [h] at hop
  rw [List.mem_singleton.mp hop] at hresult
  cases hresult

theorem busy_launch {s s' : Session α} {kind : OpKind} {r : Request α}
    (hout : s.outstanding = []) (h : s.launch kind r = some s') : Busy s' := by
  obtain ⟨block, -, -, hout', -, -⟩ := launch_cases h
  rw [hout, List.nil_append] at hout'
  exact busy_pending hout'

theorem busy_finish {address : α} {s : Session α} {received written : Bytes}
    (h : Echoes address s received written) {op : Operation α} (hop : op ∈ s.outstanding)
    (data : Data) (n : Nat) : Busy ({ s with data := data }.finish op false n) := by
  have hout : ({ s with data := data }.finish op false n).outstanding =
      [{ op with result := some (false, n) }] := by
    simp [Session.finish, h.outstanding_eq hop]
  refine ⟨fun _ => by rw [hout]; rfl, fun op' hop' error n' hresult => ?_⟩
  rw [hout] at hop'
  rw [List.mem_singleton.mp hop'] at hresult
  cases hresult
  rfl

theorem busy_step {address : α} {k : Nat} {e : ServerEvent α} {v v' : View α}
    (hstep : SessionStep k e v v') (hechoes : Echoes address v.session v.received v.written)
    (h : Busy v.session) (hfail : ∀ op, e ≠ .fail k op) : Busy v'.session := by
  cases hstep with
  | alone => exact h
  | started hnew hfresh hstart => exact busy_launch (hechoes.starting hnew).outstanding hstart
  | received hop hne hlen => exact busy_finish hechoes hop _ _
  | wrote hop hpos hle => exact busy_finish hechoes hop v.session.data _
  | failed => exact absurd rfl (hfail _)
  | handled hop hresult hfresh hcomplete =>
    obtain rfl := h.succeeds _ hop _ _ hresult
    obtain ⟨kind, hlaunch⟩ := complete_success v.session _ _ _
    rw [hlaunch] at hcomplete
    exact busy_launch (hechoes.taken hop).outstanding hcomplete

theorem busy_of_run (h : (serverMachine α).Run (.init data address) trace st) {k : Nat}
    (hfail : ∀ op, .fail k op ∉ trace) : Busy (st.sessions k) := by
  refine h.invariant_along (I := fun trace st =>
    (∀ op, .fail k op ∉ trace) → Busy (st.sessions k)) (fun _ => ?_) ?_ hfail
  · exact ⟨fun hs => Bool.noConfusion hs, fun op hop => nomatch hop⟩
  · intro trace st e hrun hi he hfail
    have hserves := serves_of_run hrun
    have hbefore : ∀ op, .fail k op ∉ trace :=
      fun op hop => hfail op (List.mem_append_left _ hop)
    refine busy_step (sessionStep (hserves.unstarted _ (Nat.le_refl _)) he k) (hserves.echoes k)
      (hi hbefore) fun op hop => hfail op ?_
    rw [hop]
    exact List.mem_append_right _ (List.mem_singleton_self _)

/-- The steps in which something of session `k` goes on. -/
def ServerEvent.moves (k : Nat) : ServerEvent α → Prop
  | .receive s _ _ => s = k
  | .write s _ _ _ _ => s = k
  | .handle s _ _ _ _ => s = k
  | _ => False

def Idle (st : ServerState α) (k : Nat) : Prop :=
  ∀ e : ServerEvent α, e.moves k → ¬ (serverMachine α).enabled st e

/-- Where nothing goes on, the session waits for more, and has written what it has read. -/
theorem written_of_idle (h : (serverMachine α).Run (.init data address) trace st) {k : Nat}
    (hfail : ∀ op, .fail k op ∉ trace) (hstarted : (st.sessions k).started = true)
    (hrunning : st.running = true) (hidle : Idle st k) : st.written k = (st.up k).sent := by
  have hechoes := (serves_of_run h).echoes k
  obtain ⟨op, hout⟩ := List.length_eq_one_iff.mp ((busy_of_run h hfail).busy hstarted)
  have hop : op ∈ (st.sessions k).outstanding := by simp [hout]
  rcases op with ⟨kind, block, result⟩
  cases result with
  | some result =>
    exact absurd ⟨hrunning, hop, rfl, fun _ hf => by cases hf⟩
      (hidle (.handle k ⟨kind, block, some result⟩ result.1 result.2 ⟨0, none⟩) rfl)
  | none =>
    cases kind with
    | asyncReadSome =>
      have hwaiting : (st.up k).waiting = [] := by
        by_contra hwaiting
        obtain ⟨b, rest, hb⟩ := List.exists_cons_of_ne_nil hwaiting
        refine hidle (.receive k block [b]) rfl ⟨hrunning, hop, by simp, by simp, ?_⟩
        rw [hb]
        exact ⟨rest, rfl⟩
      have hall := (st.up k).received_append_waiting
      rw [hwaiting, List.append_nil] at hall
      have hpending := hechoes.pending _ hop
      rw [← hall, ← hpending]
      exact (List.append_nil _).symm
    | asyncWriteSome length sent =>
      obtain ⟨hlt, -⟩ := hechoes.fits _ hop
      exact absurd ⟨hrunning, hop, Nat.one_pos, hlt⟩ (hidle (.write k block length sent 1) rfl)

/-- What an event asks the allocators for. -/
def ServerEvent.sizes : ServerEvent α → List Nat
  | .handleAccept _ r => [r.sizeofOp]
  | .handle _ _ _ _ r => [r.sizeofOp]
  | _ => []

/-- All live blocks are storages, and the program goes on. -/
structure Stored (st : ServerState α) : Prop where
  running : st.running = true
  stored : ∀ k, ∀ b ∈ (st.sessions k).memory.live, b.origin = .storage

theorem Stored.put {β : Type u} {st : ServerState β} (h : Stored st) {s : Nat} {s' : Session β}
    (hs' : ∀ b ∈ s'.memory.live, b.origin = .storage) : Stored (st.put s (some s')) := by
  refine ⟨h.running, fun k b hb => ?_⟩
  by_cases hk : k = s
  · subst hk
    have hself : (st.put k (some s')).sessions k = s' := Function.update_self ..
    rw [hself] at hb
    exact hs' b hb
  · have hother : (st.put s (some s')).sessions k = st.sessions k := Function.update_of_ne hk ..
    rw [hother] at hb
    exact h.stored k b hb

theorem stored_next (hserves : Serves address st) (h : Stored st) {e : ServerEvent α}
    (he : (serverMachine α).enabled st e) (hsizes : ∀ n ∈ e.sizes, n < storageSize) :
    Stored ((serverMachine α).next st e) := by
  have hsame : ∀ (s : Nat) (session : Session α),
      session.memory = (st.sessions s).memory → ∀ b ∈ session.memory.live, b.origin = .storage := by
    intro s session hmemory b hb
    rw [hmemory] at hb
    exact h.stored s b hb
  cases e with
  | handleAccept error r =>
    have hsize : r.sizeofOp < storageSize := hsizes _ (List.mem_singleton_self _)
    have hnext : ∀ st' : ServerState α, Stored st' →
        Stored (if st'.running then { st' with newSession := st.newSession + 1 } else st') := by
      intro st' hst'
      rw [if_pos hst'.running]
      exact ⟨hst'.running, hst'.stored⟩
    apply hnext
    cases error with
    | true => exact h
    | false =>
      have hnew := hserves.unstarted _ (Nat.le_refl _)
      obtain ⟨s', hstart, hstored⟩ :=
        ((hserves.echoes _).starting hnew).launch_stored hsize .asyncReadSome
      have hstart : (st.sessions st.newSession).start r = some s' := hstart
      simp only [Bool.not_false, if_true, hstart]
      exact h.put hstored
  | send s bytes => exact ⟨h.running, h.stored⟩
  | receive s block piece =>
    obtain ⟨hrunning, hstored⟩ := h.put (hsame s
      ({ st.sessions s with data := (st.sessions s).data.store piece }.finish
        ⟨.asyncReadSome, block, none⟩ false piece.length) rfl)
    exact ⟨hrunning, hstored⟩
  | write s block length sent transferred =>
    obtain ⟨hrunning, hstored⟩ := h.put (hsame s ((st.sessions s).finish
      ⟨.asyncWriteSome length sent, block, none⟩ false transferred) rfl)
    exact ⟨hrunning, hstored⟩
  | fail s op => exact h.put (hsame s ((st.sessions s).finish op true 0) rfl)
  | handle s op error n r =>
    have hsize : r.sizeofOp < storageSize := hsizes _ (List.mem_singleton_self _)
    obtain ⟨s', hcomplete, hstored⟩ := (hserves.echoes s).complete_stored he.2.1 hsize error n
    change Stored (st.put s _)
    rw [hcomplete]
    exact h.put hstored

theorem stored_of_run (h : (serverMachine α).Run (.init data address) trace st)
    (hsizes : ∀ e ∈ trace, ∀ n ∈ e.sizes, n < storageSize) : Stored st := by
  refine h.invariant_along (I := fun trace st =>
    (∀ e ∈ trace, ∀ n ∈ e.sizes, n < storageSize) → Stored st) (fun _ => ?_) ?_ hsizes
  · exact ⟨rfl, fun k b hb => nomatch hb⟩
  · intro trace st e hrun hi he hsizes
    refine stored_next (serves_of_run hrun) (hi fun e' he' => ?_) he ?_
    · exact hsizes e' (List.mem_append_left _ he')
    · exact hsizes e (List.mem_append_right _ (List.mem_singleton_self e))

theorem idle_of_reading {k : Nat} (block : α)
    (hout : (st.sessions k).outstanding = [⟨.asyncReadSome, block, none⟩])
    (hwaiting : (st.up k).waiting = []) : Idle st k := by
  intro e hmoves he
  cases e with
  | receive s block' piece =>
    obtain rfl : s = k := hmoves
    obtain ⟨-, -, hne, -, hpiece⟩ := he
    rw [hwaiting] at hpiece
    exact hne (List.eq_nil_of_prefix_nil hpiece)
  | write s block' length sent transferred =>
    obtain rfl : s = k := hmoves
    have hop := he.2.1
    rw [hout] at hop
    cases List.mem_singleton.mp hop
  | handle s op error n r =>
    obtain rfl : s = k := hmoves
    obtain ⟨-, hop, hresult, -⟩ := he
    rw [hout] at hop
    rw [List.mem_singleton.mp hop] at hresult
    cases hresult
  | handleAccept error r => exact hmoves
  | send s bytes => exact hmoves
  | fail s op => exact hmoves

/-- Every session writes back what its client sends, in order, and is never more than its array
behind what it has read. If nothing of it fails, it is at rest only when it has written back
everything. -/
theorem sessions_echo (data : Nat → Data) (address : Nat → α) {trace : List (ServerEvent α)}
    {st : ServerState α} (h : (serverMachine α).Run (.init data address) trace st) (k : Nat) :
    st.written k <+: (st.up k).received ∧
      (st.up k).received.length ≤ (st.written k).length + 1024 ∧
      ((∀ op, .fail k op ∉ trace) → (st.sessions k).started = true → st.running = true →
        Idle st k → st.written k = (st.up k).sent) := by
  have hechoes := (serves_of_run h).echoes k
  exact ⟨hechoes.echoed, hechoes.bounded, written_of_idle h⟩

/-- Five bytes that are read in two pieces, of which the first is written back in two steps. -/
theorem sessions_echo_five :
    let read (n : Nat) : Operation Nat := ⟨.asyncReadSome, 7, some (false, n)⟩
    let write (length sent n : Nat) : Operation Nat :=
      ⟨.asyncWriteSome length sent, 7, some (false, n)⟩
    let trace : List (ServerEvent Nat) := [.send 0 (str "hello"), .handleAccept false ⟨96, none⟩,
      .receive 0 7 (str "hel"), .handle 0 (read 3) false 3 ⟨128, none⟩, .write 0 7 3 0 2,
      .handle 0 (write 3 0 2) false 2 ⟨128, none⟩, .write 0 7 3 2 1,
      .handle 0 (write 3 2 1) false 1 ⟨96, none⟩, .receive 0 7 (str "lo"),
      .handle 0 (read 2) false 2 ⟨128, none⟩, .write 0 7 2 0 2,
      .handle 0 (write 2 0 2) false 2 ⟨96, none⟩]
    ∃ st, (serverMachine Nat).Run (.init (fun _ => Data.zero) fun _ => 7) trace st ∧
      st.written 0 = (st.up 0).sent ∧ st.written 0 = str "hello" := by
  intro read write trace
  have hadmits : (serverMachine Nat).Admits (.init (fun _ => Data.zero) fun _ => 7) trace := by
    decide +kernel
  obtain ⟨-, -, hall⟩ := sessions_echo _ _ hadmits.run 0
  have hidle : Idle (trace.foldl (serverMachine Nat).next (.init (fun _ => Data.zero) fun _ => 7))
      0 := by
    apply idle_of_reading 7
    all_goals decide +kernel
  exact ⟨_, hadmits.run, hall (by simp [trace]) (by decide +kernel) (by decide +kernel) hidle,
    by decide +kernel⟩

end Runs

end AsioExamples.Allocation
