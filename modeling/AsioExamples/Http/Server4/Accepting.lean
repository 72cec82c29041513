import AsioExamples.Http.Server4.Isolation

/-!
# Accepts that fail

Here an accept may complete with an error as well. The test of the error is before the coroutine
is entered, for the accepting copy as for its children.
-/

namespace AsioExamples.Http.Server4

set_option autoImplicit false

def Operation.isAccept : Operation → Bool
  | .asyncAccept _ => true
  | _ => false

def Pending.isAccept (p : Pending) : Bool := p.op.isAccept

def ServerEvent.failedAccept (e : ServerEvent) : Bool := e.error && e.pending.isAccept

/-- An accept transfers nothing, with an error or without. -/
def CompletesAnyhow (op : Operation) (error : Bool) (transferred : Bytes) : Prop :=
  match op with
  | .asyncAccept _ => transferred = []
  | _ => Completes op error transferred

instance : ∀ (op : Operation) (error : Bool) (transferred : Bytes),
    Decidable (CompletesAnyhow op error transferred)
  | .asyncAccept _, _, transferred => inferInstanceAs (Decidable (transferred = []))
  | .asyncReadSome socket buffer, error, transferred =>
    inferInstanceAs (Decidable (Completes (.asyncReadSome socket buffer) error transferred))
  | .asyncWrite socket buffers, error, transferred =>
    inferInstanceAs (Decidable (Completes (.asyncWrite socket buffers) error transferred))

/-- The server whose accepts may fail. -/
def faultyMachine (env : Env) : Machine ServerState ServerEvent where
  enabled st e := e.pending ∈ st.pending ∧ CompletesAnyhow e.pending.op e.error e.transferred
  next := (serverMachine env).next

instance (env : Env) (st : ServerState) (e : ServerEvent) :
    Decidable ((faultyMachine env).enabled st e) :=
  inferInstanceAs (Decidable (_ ∧ _))

/-- The handlers of accepts that are outstanding. -/
def ServerState.accepts (st : ServerState) : Nat := st.pending.countP Pending.isAccept

/-- What the code after a yield goes on with is there. -/
def Pending.Fit (heap : Heap) (p : Pending) : Prop :=
  match p.op with
  | .asyncAccept socket => p.handler.position = .accepted ∧ p.handler.socket = some socket
  | .asyncReadSome socket buffer =>
    p.handler.position = .received ∧ p.handler.socket = some socket ∧
      p.handler.buffer = some buffer ∧ buffer < heap.buffers.length ∧
      ∃ request, p.handler.request = some request ∧ request < heap.requests.length
  | .asyncWrite _ _ => p.handler.position = .sent

/-- No object of the heap goes away. -/
structure Heap.Grows (heap heap' : Heap) : Prop where
  buffers : heap.buffers.length ≤ heap'.buffers.length
  requests : heap.requests.length ≤ heap'.requests.length

namespace Heap.Grows
variable {heap heap' heap'' : Heap}

theorem refl (heap : Heap) : heap.Grows heap := ⟨Nat.le_refl _, Nat.le_refl _⟩

theorem trans (h : heap.Grows heap') (h' : heap'.Grows heap'') : heap.Grows heap'' :=
  ⟨h.buffers.trans h'.buffers, h.requests.trans h'.requests⟩

theorem fit (h : heap.Grows heap') {p : Pending} (hp : p.Fit heap) : p.Fit heap' := by
  unfold Pending.Fit at hp ⊢
  split
  · next hop =>
    rw [hop] at hp
    exact hp
  · next hop =>
    rw [hop] at hp
    obtain ⟨hposition, hsocket, hbuffer, hlt, request, hrequest, hlt'⟩ := hp
    exact ⟨hposition, hsocket, hbuffer, hlt.trans_le h.buffers, request, hrequest,
      hlt'.trans_le h.requests⟩
  · next hop =>
    rw [hop] at hp
    exact hp

end Heap.Grows

/-- A call that has gone well: it has started what fits the heap, `accepts` accepts among it. -/
def Leaves (heap : Heap) (accepts : Nat) (result : Resumed) : Prop :=
  ∃ heap' started, result = some (heap', started) ∧ heap.Grows heap' ∧
    (∀ q ∈ started, q.Fit heap') ∧ started.countP Pending.isAccept = accepts

section Calls
variable {heap base : Heap} {self : Server} {socket buffer request : Nat}

theorem leaves_nothing (heap : Heap) : Leaves heap 0 (some (heap, [])) := by
  refine ⟨heap, [], rfl, .refl heap, ?_, rfl⟩
  intro q hq
  cases hq

theorem leaves_one {heap' : Heap} {p : Pending} {result : Resumed}
    (hresult : result = some (heap', [p])) (hgrows : heap.Grows heap') (hp : p.Fit heap') {n : Nat}
    (hn : p.isAccept.toNat = n) : Leaves heap n result := by
  refine ⟨heap', [p], hresult, hgrows, ?_, ?_⟩
  · intro q hq
    rw [List.mem_singleton.mp hq]
    exact hp
  · rw [← hn]
    cases h : p.isAccept <;> simp [h]

theorem leaves_accept (heap : Heap) (self : Server) : Leaves heap 1 (Server.accept heap self) := by
  apply leaves_one rfl
  · exact ⟨Nat.le_refl _, Nat.le_refl _⟩
  · exact ⟨rfl, rfl⟩
  · rfl

theorem leaves_receive (hgrows : base.Grows heap) (hsocket : self.socket = some socket)
    (hbuffer : self.buffer = some buffer) (hlt : buffer < heap.buffers.length)
    (hrequest : self.request = some request) (hlt' : request < heap.requests.length) :
    Leaves base 0 (Server.receive heap self) := by
  have hreceive : Server.receive heap self =
      some (heap, [⟨.asyncReadSome socket buffer, { self with position := .received }⟩]) := by
    simp [Server.receive, hsocket, hbuffer]
  exact leaves_one hreceive hgrows ⟨rfl, hsocket, hbuffer, hlt, request, hrequest, hlt'⟩ rfl

variable (env : Env)

theorem leaves_serve (hsocket : self.socket = some socket) :
    Leaves heap 0 (Server.serve env heap self) := by
  have hbuffer : heap.buffers.length < (heap.buffers ++ [(env.fills self.socket).1]).length := by
    simp
  have hrequest : heap.requests.length < (heap.requests ++ [Request.fresh]).length := by
    simp
  exact leaves_receive
    ⟨Nat.le_of_lt hbuffer, Nat.le_of_lt hrequest⟩ hsocket rfl hbuffer rfl hrequest

theorem send_eq_some (hsocket : self.socket = some socket) (hrequest : self.request = some request)
    (hlt : request < heap.requests.length) :
    ∃ rep, Server.send env heap self =
      some ({ heap with replies := heap.replies ++ [rep] }, [⟨.asyncWrite socket rep.toBuffers,
        { self with reply := some heap.replies.length, position := .sent }⟩]) := by
  by_cases hv : self.validRequest = .yes
  · have hreq := List.getElem?_eq_getElem hlt
    refine ⟨env.requestHandler heap.requests[request] (Reply.fresh (env.fills self.socket).2), ?_⟩
    simp [Server.send, hv, hrequest, hreq, hsocket]
  · refine ⟨Reply.stockReply .badRequest, ?_⟩
    simp [Server.send, hv, hsocket]

theorem leaves_send (hgrows : base.Grows heap) (hsocket : self.socket = some socket)
    (hrequest : self.request = some request) (hlt : request < heap.requests.length) :
    Leaves base 0 (Server.send env heap self) := by
  obtain ⟨rep, hsend⟩ := send_eq_some env hsocket hrequest hlt
  exact leaves_one hsend ⟨hgrows.buffers, hgrows.requests⟩ rfl rfl

theorem leaves_parse (hsocket : self.socket = some socket) (hbuffer : self.buffer = some buffer)
    (hlt : buffer < heap.buffers.length) (hrequest : self.request = some request)
    (hlt' : request < heap.requests.length) (length : Nat) :
    Leaves heap 0 (Server.parse env heap self length) := by
  have hreq := List.getElem?_eq_getElem hlt'
  have harray := List.getElem?_eq_getElem hlt
  unfold Server.parse
  simp only [hrequest, hbuffer, hreq, harray, Option.bind_eq_bind, Option.bind_some]
  split
  · apply leaves_receive
    · exact ⟨Nat.le_refl _, by simp⟩
    · exact hsocket
    · rfl
    · exact hlt
    · rfl
    · simpa using hlt'
  · apply leaves_send env
    · exact ⟨Nat.le_refl _, by simp⟩
    · exact hsocket
    · rfl
    · simpa using hlt'

/-- The child that is forked reads, and the parent accepts. -/
theorem leaves_fork (hposition : self.position = .accepted) (hsocket : self.socket = some socket)
    (length : Nat) : Leaves heap 1 (self.call env heap false length) := by
  obtain ⟨heap₁, child, hchild, hgrows₁, hfit₁, hcount₁⟩ : Leaves heap 0
      (Server.afterFork env heap { self with position := .child }) :=
    leaves_serve env hsocket
  obtain ⟨heap₂, parent, hparent, hgrows₂, hfit₂, hcount₂⟩ : Leaves heap₁ 1
      (Server.afterFork env heap₁ { self with position := .parent }) :=
    leaves_accept heap₁ _
  refine ⟨heap₂, child ++ parent, ?_, hgrows₁.trans hgrows₂, ?_, ?_⟩
  · simp only [Server.call, hposition, hchild, hparent, Bool.false_eq_true, if_false,
      Option.bind_eq_bind, Option.bind_some]
  · intro q hq
    rcases List.mem_append.mp hq with hq | hq
    · exact hgrows₂.fit (hfit₁ q hq)
    · exact hfit₂ q hq
  · rw [List.countP_append, hcount₁, hcount₂]

/-- A handler starts an accept exactly if it is that of an accept that has succeeded. -/
theorem leaves_call {p : Pending} (h : p.Fit heap) (error : Bool) (length : Nat) :
    Leaves heap (!error && p.isAccept).toNat (p.handler.call env heap error length) := by
  cases error with
  | true => exact leaves_nothing heap
  | false =>
    unfold Pending.Fit at h
    cases hop : p.op with
    | asyncAccept socket =>
      rw [hop] at h
      have hcount : (!false && p.isAccept).toNat = 1 := by
        simp [Pending.isAccept, hop, Operation.isAccept]
      rw [hcount]
      exact leaves_fork env h.1 h.2 length
    | asyncReadSome socket buffer =>
      rw [hop] at h
      obtain ⟨hposition, hsocket, hbuffer, hlt, request, hrequest, hlt'⟩ := h
      have hcall : p.handler.call env heap false length = p.handler.parse env heap length := by
        simp [Server.call, hposition]
      have hcount : (!false && p.isAccept).toNat = 0 := by
        simp [Pending.isAccept, hop, Operation.isAccept]
      rw [hcall, hcount]
      exact leaves_parse env hsocket hbuffer hlt hrequest hlt' length
    | asyncWrite socket buffers =>
      rw [hop] at h
      have hcall : p.handler.call env heap false length = some (heap, []) := by
        simp [Server.call, show p.handler.position = .sent from h]
      have hcount : (!false && p.isAccept).toNat = 0 := by
        simp [Pending.isAccept, hop, Operation.isAccept]
      rw [hcall, hcount]
      exact leaves_nothing heap

end Calls

section Runs
variable {env : Env} {trace : List ServerEvent} {st : ServerState} {e : ServerEvent}

theorem one_unless_failed {n : Nat} {failed error accept : Bool}
    (h : (if failed then 0 else 1) = n + accept.toNat) :
    n + (!error && accept).toNat = if failed || error && accept then 0 else 1 := by
  cases failed <;> cases error <;> cases accept <;> simp at h ⊢ <;> omega

/-- One accept is outstanding until one fails, and none from then on. -/
structure Accepting (trace : List ServerEvent) (st : ServerState) : Prop where
  fit : ∀ p ∈ st.pending, p.Fit st.heap
  accepts : st.accepts = if trace.any ServerEvent.failedAccept then 0 else 1

theorem accepting_init (env : Env) : Accepting [] (ServerState.init env) := by
  refine ⟨?_, rfl⟩
  intro p hp
  rw [List.mem_singleton.mp hp]
  exact ⟨rfl, rfl⟩

theorem transfer_grows (heap : Heap) (op : Operation) (transferred : Bytes) :
    heap.Grows (heap.transfer op transferred) := by
  cases op with
  | asyncReadSome socket buffer => exact ⟨by simp [Heap.transfer], Nat.le_refl _⟩
  | asyncAccept socket => exact .refl heap
  | asyncWrite socket buffers => exact .refl heap

/-- No handler dereferences a null pointer. -/
theorem Accepting.resume (env : Env) (h : Accepting trace st) (hmem : e.pending ∈ st.pending) :
    ∃ heap' started, st.resume env e = some (heap', started) ∧ st.heap.Grows heap' ∧
      (∀ q ∈ started, q.Fit heap') ∧
      started.countP Pending.isAccept = (!e.error && e.pending.isAccept).toNat := by
  have hgrows := transfer_grows st.heap e.pending.op e.transferred
  obtain ⟨heap', started, hcall, hgrows', hfit, hcount⟩ :=
    leaves_call env (hgrows.fit (h.fit e.pending hmem)) e.error e.transferred.length
  exact ⟨heap', started, hcall, hgrows.trans hgrows', hfit, hcount⟩

theorem countP_erase {p : Pending} (hmem : p ∈ st.pending) :
    st.accepts = (st.pending.erase p).countP Pending.isAccept + p.isAccept.toNat := by
  unfold ServerState.accepts
  rw [(List.perm_cons_erase hmem).countP_eq, List.countP_cons]
  cases p.isAccept <;> rfl

theorem Accepting.next (h : Accepting trace st) (he : (faultyMachine env).enabled st e) :
    Accepting (trace ++ [e]) ((faultyMachine env).next st e) := by
  obtain ⟨heap', started, hresume, hgrows, hfit, hcount⟩ := h.resume env he.1
  have hnext : (faultyMachine env).next st e =
      ⟨heap', st.pending.erase e.pending ++ started, st.started ++ started.map Pending.op⟩ :=
    next_of_resume hresume
  have hbefore := countP_erase he.1
  rw [hnext]
  constructor
  · intro p hp
    rcases List.mem_append.mp hp with hp | hp
    · exact hgrows.fit (h.fit p (List.mem_of_mem_erase hp))
    · exact hfit p hp
  · have hafter : (⟨heap', st.pending.erase e.pending ++ started,
        st.started ++ started.map Pending.op⟩ : ServerState).accepts =
        (st.pending.erase e.pending).countP Pending.isAccept +
          (!e.error && e.pending.isAccept).toNat := by
      unfold ServerState.accepts
      rw [List.countP_append, hcount]
    rw [h.accepts] at hbefore
    rw [hafter, List.any_append, List.any_cons, List.any_nil, Bool.or_false]
    exact one_unless_failed hbefore

theorem accepting_of_run (h : (faultyMachine env).Run (ServerState.init env) trace st) :
    Accepting trace st :=
  h.invariant (accepting_init env) fun _ _ _ hinv he => hinv.next he

end Runs

/-- The server has one accept outstanding as long as no accept has failed; and no handler goes
through a null pointer. -/
theorem one_accept_iff (env : Env) {trace : List ServerEvent} {st : ServerState}
    (h : (faultyMachine env).Run (ServerState.init env) trace st) :
    (st.accepts = 1 ↔ ∀ e ∈ trace, e.failedAccept = false) ∧
      ∀ e, (faultyMachine env).enabled st e → (st.resume env e).isSome := by
  have haccepting := accepting_of_run h
  constructor
  · rw [haccepting.accepts]
    cases hfailed : trace.any ServerEvent.failedAccept with
    | true =>
      obtain ⟨e, he, hf⟩ := List.any_eq_true.mp hfailed
      constructor
      · intro hone
        cases hone
      · intro hno
        rw [hno e he] at hf
        cases hf
    | false =>
      constructor
      · intro _ e he
        exact (Bool.not_eq_true _).mp (List.any_eq_false.mp hfailed e he)
      · intro _
        rfl
  · intro e he
    obtain ⟨heap', started, hresume, -⟩ := haccepting.resume env he.1
    rw [hresume]
    rfl

theorem one_accept_iff_two :
    let env : Env := ⟨fun _ => none, fun _ rep => rep, 0, fun _ => (Buffer.zero, 0)⟩
    let trace : List ServerEvent := [⟨parentOn env 0, false, []⟩, ⟨parentOn env 1, true, []⟩]
    let st := trace.foldl (faultyMachine env).next (ServerState.init env)
    (st.accepts = 1 ↔ ∀ e ∈ trace, e.failedAccept = false) ∧
      ∀ e, (faultyMachine env).enabled st e → (st.resume env e).isSome := by
  intro env trace st
  have hadmits : (faultyMachine env).Admits (ServerState.init env) trace := by decide +kernel
  exact one_accept_iff env hadmits.run

/-- The first accept fails, and nothing is outstanding any more. -/
theorem not_accepting_after_failure :
    let env : Env := ⟨fun _ => none, fun _ rep => rep, 0, fun _ => (Buffer.zero, 0)⟩
    ∃ st, (faultyMachine env).Run (ServerState.init env) [⟨parentOn env 0, true, []⟩] st ∧
      st.accepts = 0 ∧ st.pending = [] := by
  intro env
  have hadmits : (faultyMachine env).Admits (ServerState.init env)
      [⟨parentOn env 0, true, []⟩] := by decide +kernel
  exact ⟨_, hadmits.run, by decide +kernel, by decide +kernel⟩

end AsioExamples.Http.Server4
