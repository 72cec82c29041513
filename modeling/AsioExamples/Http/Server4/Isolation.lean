import AsioExamples.Http.Server4.Server
import Mathlib.Data.List.Nodup

/-!
# The coroutines of a server do not meet

The handlers outstanding are the accepting coroutine, with a socket that has not been used,
and the children, each with a socket, a buffer, a request and a reply of its own. What a child
has parsed is what has been read from its socket, and what it has started is what an exchange
starts.
-/

namespace AsioExamples.Http.Server4

set_option autoImplicit false

open Recogniser Exchange

section Spec
variable (env : Env)

/-- A child's parser on all that has been read from its socket. -/
def outcome (bytes : Bytes) : Outcome (RequestParser.Parser × Request) :=
  RequestParser.parse env.cast (RequestParser.Parser.fresh env.contentLength, Request.fresh) bytes

def replyTo (k : Nat) (o : Outcome (RequestParser.Parser × Request)) : Reply :=
  if o.verdict = .yes then env.requestHandler o.state.2 (Reply.fresh (env.fills (some k)).2)
  else Reply.stockReply .badRequest

def answerTo (k : Nat) (o : Outcome (RequestParser.Parser × Request)) : Operation :=
  .asyncWrite k (replyTo env k o).toBuffers

/-- What the handler of a read on socket `k` is told to have been read. -/
def piece (k : Nat) (e : ServerEvent) : Option Bytes :=
  match e.pending.op with
  | .asyncReadSome socket _ => if socket = k ∧ e.error = false then some e.transferred else none
  | _ => none

def pieces (k : Nat) (trace : List ServerEvent) : List Bytes := trace.filterMap (piece k)

theorem pieces_concat (k : Nat) (trace : List ServerEvent) (e : ServerEvent) :
    pieces k (trace ++ [e]) = pieces k trace ++ (piece k e).toList :=
  filterMap_concat _ trace e

theorem pieces_concat_none {k : Nat} {e : ServerEvent} (he : piece k e = none)
    (trace : List ServerEvent) : pieces k (trace ++ [e]) = pieces k trace := by
  rw [pieces_concat, he]
  exact List.append_nil _

def accepted (trace : List ServerEvent) : List Nat :=
  trace.filterMap fun e =>
    match e.pending.op with
    | .asyncAccept socket => some socket
    | _ => none

def parentOn (n : Nat) : Pending :=
  ⟨.asyncAccept n, { Server.new env.contentLength with socket := some n, position := .accepted }⟩

/-- A child as the fork leaves it, waiting for its first read. -/
def childOn (k : Nat) : Pending :=
  ⟨.asyncReadSome k k, { Server.new env.contentLength with
    position := .received, socket := some k, buffer := some k, request := some k }⟩

/-- `p` is the child on socket `k`, from which `pieces` have been read. -/
structure Child (heap : Heap) (k : Nat) (pieces : List Bytes) (p : Pending) : Prop where
  socket : p.handler.socket = some k
  buffer : p.handler.buffer = some k
  request : p.handler.request = some k
  parsed : ∃ req, heap.requests[k]? = some req ∧
    (p.handler.requestParser, req) = (outcome env pieces.flatten).state
  reading : (outcome env pieces.flatten).verdict = .indeterminate →
    p.op = .asyncReadSome k k ∧ p.handler.position = .received ∧ p.handler.reply = none
  writing : (outcome env pieces.flatten).verdict ≠ .indeterminate →
    p.op = answerTo env k (outcome env pieces.flatten) ∧ p.handler.position = .sent ∧
      ∃ w, p.handler.reply = some w ∧
        heap.replies[w]? = some (replyTo env k (outcome env pieces.flatten))

/-- What has been started on socket `k` when `n` connections have been accepted. -/
def startedOn (n k : Nat) (pieces : List Bytes) : List Operation :=
  if k < n then
    .asyncAccept k :: operations (RequestParser.consume env.cast)
      (RequestParser.Parser.fresh env.contentLength, Request.fresh) (.asyncReadSome k k)
      (answerTo env k) pieces
  else if k = n then [.asyncAccept k]
  else []

/-- `n` connections have been accepted. -/
structure Isolated (n : Nat) (trace : List ServerEvent) (st : ServerState) : Prop where
  accepted : accepted trace = List.range n
  sockets : st.heap.sockets = n + 1
  buffers : st.heap.buffers.length = n
  requests : st.heap.requests.length = n
  parent : parentOn env n ∈ st.pending
  held : ∀ p ∈ st.pending, p = parentOn env n ∨ ∃ k < n, Child env st.heap k (pieces k trace) p
  nodup : (st.pending.map (·.handler.socket)).Nodup
  replies : ∀ p ∈ st.pending, ∀ q ∈ st.pending, ∀ w,
    p.handler.reply = some w → q.handler.reply = some w → p = q
  prompt : ∀ k, Prompt (RequestParser.consume env.cast)
    (RequestParser.Parser.fresh env.contentLength, Request.fresh) (pieces k trace)
  started : ∀ k, st.started.filter (·.socket == k) = startedOn env n k (pieces k trace)
  unread : ∀ k, n ≤ k → pieces k trace = []
  fed : ∀ k, (st.heap.fed.filter (·.1 == some k)).map Prod.snd = pieces k trace

end Spec

section Calls
variable {env : Env} {heap heap' : Heap} {k n : Nat} {ps : List Bytes} {p : Pending}

/-- A child is what it is as long as its request stays and the replies only get more. -/
theorem Child.frame (h : Child env heap k ps p) (hrequest : heap'.requests[k]? = heap.requests[k]?)
    (hreplies : heap.replies <+: heap'.replies) : Child env heap' k ps p := by
  obtain ⟨req, hreq, hparsed⟩ := h.parsed
  refine ⟨h.socket, h.buffer, h.request, ⟨req, hrequest.trans hreq, hparsed⟩, h.reading, ?_⟩
  intro hdecided
  obtain ⟨hop, hposition, w, hw, hrep⟩ := h.writing hdecided
  obtain ⟨more, hmore⟩ := hreplies
  refine ⟨hop, hposition, w, hw, ?_⟩
  rw [← hmore, List.getElem?_append_left (List.getElem?_eq_some_iff.mp hrep).1]
  exact hrep

theorem child_childOn (h : heap.requests[k]? = some Request.fresh) :
    Child env heap k [] (childOn env k) where
  socket := rfl
  buffer := rfl
  request := rfl
  parsed := ⟨_, h, rfl⟩
  reading := fun _ => ⟨rfl, rfl, rfl⟩
  writing := fun h => absurd rfl h

/-- The heap after a fork: the next socket, and a buffer and a request for the child. -/
def Heap.forked (env : Env) (heap : Heap) (n : Nat) : Heap :=
  { heap with
    sockets := n + 2
    buffers := heap.buffers ++ [(env.fills (some n)).1]
    requests := heap.requests ++ [Request.fresh] }

theorem call_accepted (hsockets : heap.sockets = n + 1) (hbuffers : heap.buffers.length = n)
    (hrequests : heap.requests.length = n) :
    (parentOn env n).handler.call env heap false 0 =
      some (heap.forked env n, [childOn env n, parentOn env (n + 1)]) := by
  simp [Server.call, Server.afterFork, Server.isParent, Server.serve, Server.receive,
    Server.accept, Server.new, parentOn, childOn, Heap.forked, hsockets, hbuffers, hrequests]

def nextOperation (env : Env) (k : Nat) (o : Outcome (RequestParser.Parser × Request)) :
    Operation :=
  if o.verdict = .indeterminate then .asyncReadSome k k else answerTo env k o

/-- The heap when the child on socket `k` has parsed `bytes`, with outcome `o`. -/
def Heap.parsed (heap : Heap) (k : Nat) (bytes : Bytes)
    (o : Outcome (RequestParser.Parser × Request)) : Heap :=
  { heap with
    requests := heap.requests.set k o.state.2
    fed := heap.fed ++ [(some k, bytes)] }

def Server.fedWith (self : Server) (o : Outcome (RequestParser.Parser × Request)) : Server :=
  { self with validRequest := o.verdict, requestParser := o.state.1 }

theorem parse_eq (h : Child env heap k ps p) {bytes : Bytes} {array : Buffer}
    (hbuffer : heap.buffers[k]? = some array) (hbytes : array.data.take bytes.length = bytes)
    {req : Request} (hreq : heap.requests[k]? = some req) :
    let o := RequestParser.parse env.cast (p.handler.requestParser, req) bytes
    p.handler.parse env heap bytes.length =
      if o.verdict = .indeterminate then
        Server.receive (heap.parsed k bytes o) (p.handler.fedWith o)
      else Server.send env (heap.parsed k bytes o) (p.handler.fedWith o) := by
  simp [Server.parse, h.request, h.buffer, h.socket, hreq, hbuffer, hbytes, Heap.parsed,
    Server.fedWith]

/-- What a call of a child does to the heap: it puts its own request in place, makes at most
one reply and records what it has parsed. -/
structure Heap.ServedBy (k : Nat) (bytes : Bytes) (heap heap' : Heap) : Prop where
  sockets : heap'.sockets = heap.sockets
  buffers : heap'.buffers = heap.buffers
  length_requests : heap'.requests.length = heap.requests.length
  requests : ∀ j, j ≠ k → heap'.requests[j]? = heap.requests[j]?
  replies : heap.replies <+: heap'.replies
  fed : heap'.fed = heap.fed ++ [(some k, bytes)]

theorem Heap.parsed_servedBy (heap : Heap) (k : Nat) (bytes : Bytes)
    (o : Outcome (RequestParser.Parser × Request)) (more : List Reply) :
    heap.ServedBy k bytes
      { heap.parsed k bytes o with replies := heap.replies ++ more } where
  sockets := rfl
  buffers := rfl
  length_requests := List.length_set
  requests _ hj := List.getElem?_set_ne (Ne.symm hj)
  replies := List.prefix_append _ _
  fed := rfl

theorem receive_eq (self : Server) (hsocket : self.socket = some k)
    (hbuffer : self.buffer = some k) :
    self.receive heap =
      some (heap, [⟨.asyncReadSome k k, { self with position := .received }⟩]) := by
  simp [Server.receive, hsocket, hbuffer]

theorem send_eq (self : Server) (hsocket : self.socket = some k)
    (hrequest : self.request = some k) {o : Outcome (RequestParser.Parser × Request)}
    (hreq : heap.requests[k]? = some o.state.2) (hvalid : self.validRequest = o.verdict) :
    self.send env heap =
      some ({ heap with replies := heap.replies ++ [replyTo env k o] },
        [⟨answerTo env k o,
          { self with reply := some heap.replies.length, position := .sent }⟩]) := by
  by_cases hv : o.verdict = .yes
  · simp [Server.send, hsocket, hrequest, hreq, hvalid, hv, replyTo, answerTo]
  · simp [Server.send, hsocket, hvalid, hv, replyTo, answerTo]

theorem outcome_concat (h : Child env heap k ps p)
    (hu : (outcome env ps.flatten).verdict = .indeterminate) {req : Request}
    (hreq : heap.requests[k]? = some req) (bytes : Bytes) :
    (outcome env (ps ++ [bytes]).flatten).verdict =
        (RequestParser.parse env.cast (p.handler.requestParser, req) bytes).verdict ∧
      (outcome env (ps ++ [bytes]).flatten).state =
        (RequestParser.parse env.cast (p.handler.requestParser, req) bytes).state := by
  obtain ⟨req', hreq', hparsed⟩ := h.parsed
  obtain rfl : req = req' := Option.some.inj (hreq.symm.trans hreq')
  rw [hparsed]
  exact run_flatten_concat hu bytes

/-- A child whose read has succeeded parses what it has read, and reads again or answers. -/
theorem call_received (h : Child env heap k ps p)
    (hu : (outcome env ps.flatten).verdict = .indeterminate) {bytes : Bytes} {array : Buffer}
    (hbuffer : heap.buffers[k]? = some array) (hbytes : array.data.take bytes.length = bytes) :
    ∃ heap' p', p.handler.call env heap false bytes.length = some (heap', [p']) ∧
      heap.ServedBy k bytes heap' ∧ Child env heap' k (ps ++ [bytes]) p' ∧
      p'.op = nextOperation env k (outcome env (ps ++ [bytes]).flatten) ∧
      ∀ w, p'.handler.reply = some w → w = heap.replies.length := by
  obtain ⟨hop, hposition, hreply⟩ := h.reading hu
  obtain ⟨req, hreq, -⟩ := h.parsed
  obtain ⟨hverdict, hstate⟩ := outcome_concat h hu hreq bytes
  have hcall : p.handler.call env heap false bytes.length =
      p.handler.parse env heap bytes.length := by
    simp [Server.call, hposition]
  rw [hcall, parse_eq h hbuffer hbytes hreq]
  generalize RequestParser.parse env.cast (p.handler.requestParser, req) bytes = o at *
  have hset : (heap.requests.set k o.state.2)[k]? = some o.state.2 :=
    List.getElem?_set_self (List.getElem?_eq_some_iff.mp hreq).1
  by_cases hv : o.verdict = .indeterminate
  · rw [if_pos hv, receive_eq (p.handler.fedWith o) h.socket h.buffer]
    refine ⟨_, _, rfl, ?_, ⟨h.socket, h.buffer, h.request, ⟨_, hset, hstate.symm⟩, fun _ => ?_,
      fun hd => ?_⟩, ?_, fun w hw => ?_⟩
    · have hserved := heap.parsed_servedBy k bytes o []
      rw [List.append_nil] at hserved
      exact hserved
    · exact ⟨rfl, rfl, hreply⟩
    · exact absurd (hverdict.trans hv) hd
    · exact (if_pos (hverdict.trans hv)).symm
    · cases hreply.symm.trans hw
  · have hsend : (p.handler.fedWith o).send env (heap.parsed k bytes o) = _ :=
      send_eq (p.handler.fedWith o) h.socket h.request hset rfl
    have hreplyTo : replyTo env k (outcome env (ps ++ [bytes]).flatten) = replyTo env k o := by
      simp only [replyTo, hverdict, hstate]
    have hanswer : answerTo env k (outcome env (ps ++ [bytes]).flatten) = answerTo env k o := by
      simp only [answerTo, hreplyTo]
    rw [if_neg hv, hsend]
    refine ⟨_, _, rfl, ?_, ⟨h.socket, h.buffer, h.request, ⟨_, hset, hstate.symm⟩, fun hd => ?_,
      fun _ => ⟨hanswer.symm, rfl, heap.replies.length, rfl, ?_⟩⟩, ?_, fun w hw => ?_⟩
    · exact heap.parsed_servedBy k bytes o _
    · exact absurd (hverdict.symm.trans hd) hv
    · rw [hreplyTo]
      simp [Heap.parsed]
    · unfold nextOperation
      rw [if_neg (hverdict ▸ hv), hanswer]
    · exact (Option.some.inj hw).symm

end Calls

section Invariant
variable {env : Env} {n : Nat} {trace : List ServerEvent} {st : ServerState}

theorem isolated_init : Isolated env 0 [] (ServerState.init env) where
  accepted := rfl
  sockets := rfl
  buffers := rfl
  requests := rfl
  parent := List.mem_singleton_self _
  held p hp := .inl (List.mem_singleton.mp hp)
  nodup := List.nodup_singleton _
  replies p hp q hq _ _ _ := (List.mem_singleton.mp hp).trans (List.mem_singleton.mp hq).symm
  prompt _ := prompt_nil
  started k := by
    by_cases hk : k = 0
    · subst k
      rfl
    · have hne : (0 == k) = false := beq_false_of_ne (Ne.symm hk)
      simp [ServerState.init, Operation.socket, startedOn, hk, hne]
  unread _ _ := rfl
  fed _ := rfl

theorem Child.ne_parent {heap : Heap} {k : Nat} {ps : List Bytes} {p : Pending}
    (h : Child env heap k ps p) (hk : k < n) : p ≠ parentOn env n := by
  rintro rfl
  have hn : n = k := Option.some.inj h.socket
  exact absurd hk (hn ▸ Nat.lt_irrefl n)

theorem Isolated.mem_erase (h : Isolated env n trace st) {p q : Pending} :
    q ∈ st.pending.erase p ↔ q ≠ p ∧ q ∈ st.pending :=
  (List.Nodup.of_map _ h.nodup).mem_erase_iff

theorem piece_eq_none {k j : Nat} {e : ServerEvent} (he : e.pending.op.socket = k) (hj : j ≠ k) :
    piece j e = none := by
  unfold piece
  split
  · next socket buffer hop =>
    rw [hop] at he
    exact if_neg fun hc => hj (hc.1.symm.trans he)
  · rfl

theorem accepted_concat {l : List Nat} (h : accepted trace = l) {e : ServerEvent}
    (hop : ∀ k, e.pending.op ≠ .asyncAccept k) : accepted (trace ++ [e]) = l := by
  unfold accepted at *
  rw [List.filterMap_append, h]
  cases hk : e.pending.op with
  | asyncAccept k => exact absurd hk (hop k)
  | _ => simp [hk]

theorem isolated_drop (h : Isolated env n trace st) {p : Pending} (hp : p ≠ parentOn env n)
    {e : ServerEvent} (he : ∀ k, piece k e = none) (hop : ∀ k, e.pending.op ≠ .asyncAccept k) :
    Isolated env n (trace ++ [e]) ⟨st.heap, st.pending.erase p, st.started⟩ := by
  have hpieces : ∀ k, pieces k (trace ++ [e]) = pieces k trace :=
    fun k => pieces_concat_none (he k) trace
  refine ⟨accepted_concat h.accepted hop, h.sockets, h.buffers, h.requests,
    h.mem_erase.mpr ⟨Ne.symm hp, h.parent⟩,
    fun q hq => ?_, ?_, fun q hq r hr => ?_, fun k => ?_, fun k => ?_, fun k => ?_, fun k => ?_⟩
  · simp only [hpieces]
    exact h.held q (List.mem_of_mem_erase hq)
  · exact h.nodup.sublist (List.erase_sublist.map _)
  · exact h.replies q (List.mem_of_mem_erase hq) r (List.mem_of_mem_erase hr)
  · rw [hpieces]
    exact h.prompt k
  · rw [hpieces]
    exact h.started k
  · rw [hpieces]
    exact h.unread k
  · rw [hpieces]
    exact h.fed k

theorem Isolated.eq_of_socket_eq (h : Isolated env n trace st) {p q : Pending}
    (hp : p ∈ st.pending) (hq : q ∈ st.pending) (heq : p.handler.socket = q.handler.socket) :
    p = q :=
  List.inj_on_of_nodup_map h.nodup hp hq heq

theorem Isolated.reply_lt (h : Isolated env n trace st) {p : Pending} (hp : p ∈ st.pending)
    {w : Nat} (hw : p.handler.reply = some w) : w < st.heap.replies.length := by
  rcases h.held p hp with rfl | ⟨k, -, hchild⟩
  · cases hw
  · by_cases hu : (outcome env (pieces k trace).flatten).verdict = .indeterminate
    · obtain ⟨-, -, hnone⟩ := hchild.reading hu
      cases hnone.symm.trans hw
    · obtain ⟨-, -, w', hw', hrep⟩ := hchild.writing hu
      obtain rfl : w' = w := Option.some.inj (hw'.symm.trans hw)
      exact (List.getElem?_eq_some_iff.mp hrep).1

theorem op_socket_of_child {heap : Heap} {k : Nat} {ps : List Bytes} {p : Pending}
    (h : Child env heap k ps p) : p.op.socket = k := by
  by_cases hu : (outcome env ps.flatten).verdict = .indeterminate
  · rw [(h.reading hu).1]
    rfl
  · rw [(h.writing hu).1]
    rfl

theorem op_ne_accept {heap : Heap} {k : Nat} {ps : List Bytes} {p : Pending}
    (h : Child env heap k ps p) (j : Nat) : p.op ≠ .asyncAccept j := by
  by_cases hu : (outcome env ps.flatten).verdict = .indeterminate
  · rw [(h.reading hu).1]
    exact Operation.noConfusion
  · rw [(h.writing hu).1]
    exact Operation.noConfusion

theorem startedOn_concat {k : Nat} (hk : k < n) {ps : List Bytes}
    (hu : (outcome env ps.flatten).verdict = .indeterminate) (bytes : Bytes) :
    startedOn env n k (ps ++ [bytes]) =
      startedOn env n k ps ++ [nextOperation env k (outcome env (ps ++ [bytes]).flatten)] := by
  unfold startedOn
  rw [if_pos hk, if_pos hk, operations_concat _ _ hu]
  rfl

theorem startedOn_fork {k : Nat} (ps : Nat → List Bytes) (hn : ps n = []) :
    startedOn env n k (ps k) ++ [(childOn env n).op, (parentOn env (n + 1)).op].filter
        (·.socket == k) = startedOn env (n + 1) k (ps k) := by
  have hfilter : [(childOn env n).op, (parentOn env (n + 1)).op].filter (·.socket == k) =
      (if n = k then [.asyncReadSome n n] else []) ++
        if n + 1 = k then [.asyncAccept (n + 1)] else [] := by
    simp only [List.filter_cons, List.filter_nil, childOn, parentOn, Operation.socket, beq_iff_eq]
    by_cases hk : n = k
    · simp [hk]
    · simp [hk]
  rw [hfilter]
  rcases Nat.lt_trichotomy k n with hk | rfl | hk
  · have hne : n + 1 ≠ k := Nat.ne_of_gt (Nat.lt_succ_of_lt hk)
    simp [startedOn, hk, Nat.lt_succ_of_lt hk, Nat.ne_of_gt hk, hne]
  · simp [startedOn, hn, operations_nil]
  · by_cases hk' : n + 1 = k
    · subst k
      simp [startedOn]
    · have hlt : ¬ k < n + 1 := by omega
      simp [startedOn, Nat.not_lt_of_gt hk, Nat.ne_of_gt hk, Nat.ne_of_lt hk, hk', hlt,
        Ne.symm hk']

/-- Handlers that come in do not share a reply if theirs is one that no other has. -/
theorem replies_append {old new : List Pending} {fresh : Nat}
    (hold : ∀ p ∈ old, ∀ q ∈ old, ∀ w,
      p.handler.reply = some w → q.handler.reply = some w → p = q)
    (hlt : ∀ p ∈ old, ∀ w, p.handler.reply = some w → w < fresh)
    (hnew : ∀ p ∈ new, ∀ q ∈ new, ∀ w,
      p.handler.reply = some w → q.handler.reply = some w → p = q)
    (hfresh : ∀ p ∈ new, ∀ w, p.handler.reply = some w → w = fresh) :
    ∀ p ∈ old ++ new, ∀ q ∈ old ++ new, ∀ w,
      p.handler.reply = some w → q.handler.reply = some w → p = q := by
  have hapart : ∀ p ∈ old, ∀ q ∈ new, ∀ w,
      p.handler.reply = some w → q.handler.reply ≠ some w := by
    intro p hp q hq w hpw hqw
    exact Nat.ne_of_lt (hlt p hp w hpw) (hfresh q hq w hqw)
  intro p hp q hq w hpw hqw
  rcases List.mem_append.mp hp with hp | hp
  · rcases List.mem_append.mp hq with hq | hq
    · exact hold p hp q hq w hpw hqw
    · exact absurd hqw (hapart p hp q hq w hpw)
  · rcases List.mem_append.mp hq with hq | hq
    · exact absurd hpw (hapart q hq p hp w hqw)
    · exact hnew p hp q hq w hpw hqw

theorem Isolated.replies_erase (h : Isolated env n trace st) (p : Pending) :
    ∀ q ∈ st.pending.erase p, ∀ r ∈ st.pending.erase p, ∀ w,
      q.handler.reply = some w → r.handler.reply = some w → q = r :=
  fun q hq r hr => h.replies q (List.mem_of_mem_erase hq) r (List.mem_of_mem_erase hr)

theorem Isolated.reply_lt_erase (h : Isolated env n trace st) (p : Pending) :
    ∀ q ∈ st.pending.erase p, ∀ w, q.handler.reply = some w → w < st.heap.replies.length :=
  fun _ hq _ hw => h.reply_lt (List.mem_of_mem_erase hq) hw

theorem isolated_fork (h : Isolated env n trace st) {e : ServerEvent}
    (he : ∀ k, piece k e = none) (hop : e.pending.op = .asyncAccept n) :
    Isolated env (n + 1) (trace ++ [e])
      ⟨st.heap.forked env n, st.pending.erase (parentOn env n) ++
          [childOn env n, parentOn env (n + 1)],
        st.started ++ [(childOn env n).op, (parentOn env (n + 1)).op]⟩ := by
  have hpieces : ∀ k, pieces k (trace ++ [e]) = pieces k trace :=
    fun k => pieces_concat_none (he k) trace
  have hrest : ∀ q ∈ st.pending.erase (parentOn env n), q ∈ st.pending ∧
      ∃ k < n, Child env st.heap k (pieces k trace) q := by
    intro q hq
    obtain ⟨hne, hq⟩ := h.mem_erase.mp hq
    exact ⟨hq, (h.held q hq).resolve_left hne⟩
  have hnew : Child env (st.heap.forked env n) n (pieces n trace) (childOn env n) := by
    rw [h.unread n (Nat.le_refl n)]
    apply child_childOn
    simp [Heap.forked, ← h.requests]
  refine ⟨?_, rfl, ?_, ?_, by simp, fun q hq => ?_, ?_, ?_, fun k => ?_, fun k => ?_,
    fun k hk => ?_, fun k => ?_⟩
  · have haccepted := h.accepted
    unfold accepted at *
    rw [List.filterMap_append, haccepted, List.range_succ]
    simp [hop]
  · simp [Heap.forked, h.buffers]
  · simp [Heap.forked, h.requests]
  · simp only [hpieces]
    rcases List.mem_append.mp hq with hq | hq
    · obtain ⟨-, k, hk, hchild⟩ := hrest q hq
      refine .inr ⟨k, Nat.lt_succ_of_lt hk, hchild.frame ?_ (List.prefix_refl _)⟩
      exact List.getElem?_append_left (h.requests.symm ▸ hk)
    · rcases List.mem_pair.mp hq with rfl | rfl
      · exact .inr ⟨n, Nat.lt_succ_self n, hnew⟩
      · exact .inl rfl
  · rw [List.map_append, List.nodup_append']
    refine ⟨h.nodup.sublist (List.erase_sublist.map _), ?_, ?_⟩
    · simp [childOn, parentOn]
    · intro s hs hs'
      obtain ⟨q, hq, rfl⟩ := List.mem_map.mp hs
      obtain ⟨-, k, hk, hchild⟩ := hrest q hq
      rw [hchild.socket] at hs'
      have hor : k = n ∨ k = n + 1 := by simpa [childOn, parentOn] using hs'
      omega
  · have hnone : ∀ q ∈ [childOn env n, parentOn env (n + 1)], q.handler.reply = none := by
      intro q hq
      rcases List.mem_pair.mp hq with rfl | rfl
      · rfl
      · rfl
    apply replies_append (h.replies_erase _) (h.reply_lt_erase _)
    · intro q hq r hr w hqw
      cases (hnone q hq).symm.trans hqw
    · intro q hq w hqw
      cases (hnone q hq).symm.trans hqw
  · rw [hpieces]
    exact h.prompt k
  · rw [hpieces, List.filter_append, h.started]
    exact startedOn_fork (fun k => pieces k trace) (h.unread n (Nat.le_refl n))
  · rw [hpieces]
    exact h.unread k (Nat.le_of_succ_le hk)
  · rw [hpieces]
    exact h.fed k

/-- The other handlers go on as they were when a child is served. -/
theorem Isolated.held_others (h : Isolated env n trace st) {k : Nat} {p : Pending}
    (hp : p ∈ st.pending) (hchild : Child env st.heap k (pieces k trace) p) {bytes : Bytes}
    {heap' : Heap}
    (hserved : (st.heap.transfer (.asyncReadSome k k) bytes).ServedBy k bytes heap')
    {e : ServerEvent} (hothers : ∀ j, j ≠ k → piece j e = none) :
    ∀ q ∈ st.pending.erase p,
      q = parentOn env n ∨ ∃ j < n, Child env heap' j (pieces j (trace ++ [e])) q := by
  intro q hq
  obtain ⟨hne, hq⟩ := h.mem_erase.mp hq
  rcases h.held q hq with rfl | ⟨j, hj, hchildj⟩
  · exact .inl rfl
  · have hjk : j ≠ k := by
      rintro rfl
      exact hne (h.eq_of_socket_eq hq hp (hchildj.socket.trans hchild.socket.symm))
    refine .inr ⟨j, hj, ?_⟩
    rw [pieces_concat_none (hothers j hjk)]
    exact hchildj.frame (hserved.requests j hjk) hserved.replies

/-- A child has read something; what it starts next is its own. -/
theorem isolated_serve (h : Isolated env n trace st) {k : Nat} (hk : k < n) {p p' : Pending}
    (hp : p ∈ st.pending) (hchild : Child env st.heap k (pieces k trace) p)
    (hu : (outcome env (pieces k trace).flatten).verdict = .indeterminate)
    {bytes : Bytes} {heap' : Heap}
    (hserved : (st.heap.transfer (.asyncReadSome k k) bytes).ServedBy k bytes heap')
    (hchild' : Child env heap' k (pieces k trace ++ [bytes]) p')
    (hop : p'.op = nextOperation env k (outcome env (pieces k trace ++ [bytes]).flatten))
    (hreply : ∀ w, p'.handler.reply = some w → w = st.heap.replies.length) {e : ServerEvent}
    (hself : piece k e = some bytes) (hothers : ∀ j, j ≠ k → piece j e = none)
    (hread : ∀ j, e.pending.op ≠ .asyncAccept j) :
    Isolated env n (trace ++ [e]) ⟨heap', st.pending.erase p ++ [p'], st.started ++ [p'.op]⟩ := by
  have hpieces : pieces k (trace ++ [e]) = pieces k trace ++ [bytes] := by
    rw [pieces_concat, hself]
    rfl
  have hsame : ∀ j, j ≠ k → pieces j (trace ++ [e]) = pieces j trace :=
    fun j hj => pieces_concat_none (hothers j hj) trace
  have hperm : ((st.pending.erase p ++ [p']).map (·.handler.socket)).Perm
      (st.pending.map (·.handler.socket)) := by
    rw [List.map_append, List.map_singleton, hchild'.socket, ← hchild.socket]
    refine List.Perm.trans List.perm_append_comm ?_
    exact ((List.perm_cons_erase hp).map (·.handler.socket)).symm
  refine ⟨accepted_concat h.accepted hread, hserved.sockets.trans h.sockets, ?_,
    hserved.length_requests.trans h.requests, ?_,
    fun q hq => ?_, hperm.nodup_iff.mpr h.nodup, ?_, fun j => ?_, fun j => ?_, fun j hj => ?_,
    fun j => ?_⟩
  · rw [hserved.buffers, ← h.buffers]
    exact List.length_modify ..
  · exact List.mem_append_left _ (h.mem_erase.mpr ⟨(hchild.ne_parent hk).symm, h.parent⟩)
  · rcases List.mem_append.mp hq with hq | hq
    · exact h.held_others hp hchild hserved hothers q hq
    · rw [List.mem_singleton.mp hq]
      refine .inr ⟨k, hk, ?_⟩
      rw [hpieces]
      exact hchild'
  · apply replies_append (h.replies_erase p) (h.reply_lt_erase p)
    · intro q hq r hr _ _ _
      rw [List.mem_singleton.mp hq, List.mem_singleton.mp hr]
    · intro q hq w hqw
      rw [List.mem_singleton.mp hq] at hqw
      exact hreply w hqw
  · by_cases hj : j = k
    · subst j
      rw [hpieces]
      exact prompt_concat hu bytes
    · rw [hsame j hj]
      exact h.prompt j
  · rw [List.filter_append, h.started]
    by_cases hj : j = k
    · subst j
      rw [hpieces, startedOn_concat hk hu, ← hop]
      simp [op_socket_of_child hchild']
    · rw [hsame j hj]
      have hne : (p'.op.socket == j) = false :=
        beq_false_of_ne ((op_socket_of_child hchild').trans_ne (Ne.symm hj))
      simp [hne]
  · have hjk : j ≠ k := Nat.ne_of_gt (Nat.lt_of_lt_of_le hk hj)
    rw [hsame j hjk]
    exact h.unread j hj
  · rw [hserved.fed]
    change ((st.heap.fed ++ _).filter _).map _ = _
    rw [List.filter_append, List.map_append, h.fed]
    by_cases hj : j = k
    · subst j
      simp [hpieces]
    · simp [hsame j hj, Ne.symm hj]

theorem next_of_resume {e : ServerEvent} {heap : Heap} {started : List Pending}
    (h : st.resume env e = some (heap, started)) :
    (serverMachine env).next st e =
      ⟨heap, st.pending.erase e.pending ++ started, st.started ++ started.map Pending.op⟩ := by
  change st.after e (st.resume env e) = _
  rw [h]
  rfl

theorem next_of_resume_nil {e : ServerEvent} (h : st.resume env e = some (st.heap, [])) :
    (serverMachine env).next st e = ⟨st.heap, st.pending.erase e.pending, st.started⟩ := by
  rw [next_of_resume h, List.append_nil]
  simp

theorem transfer_nil (heap : Heap) (op : Operation) : heap.transfer op [] = heap := by
  cases op with
  | asyncReadSome socket buffer =>
    have hid : heap.buffers.modify buffer (·.store []) = heap.buffers := by
      simp only [Buffer.store_nil]
      exact List.modify_id ..
    simp only [Heap.transfer, hid]
  | _ => rfl

theorem resume_of_end {k : Nat} {ps : List Bytes} {e : ServerEvent}
    (hchild : Child env st.heap k ps e.pending)
    (hc : Completes e.pending.op e.error e.transferred)
    (hend : e.error = true ∨ (outcome env ps.flatten).verdict ≠ .indeterminate) :
    st.resume env e = some (st.heap, []) ∧ ∀ j, piece j e = none := by
  by_cases hu : (outcome env ps.flatten).verdict = .indeterminate
  · obtain ⟨hop, -, -⟩ := hchild.reading hu
    have herror : e.error = true := hend.resolve_right (not_not.mpr hu)
    rw [hop] at hc
    have hnil : e.transferred = [] := hc.2.mp herror
    refine ⟨?_, fun j => ?_⟩
    · unfold ServerState.resume
      rw [hnil, transfer_nil, herror]
      rfl
    · unfold piece
      rw [hop, herror]
      exact if_neg fun h => Bool.false_ne_true h.2.symm
  · obtain ⟨hop, hposition, -⟩ := hchild.writing hu
    rw [hop] at hc
    have hnil : e.transferred = [] := hc
    refine ⟨?_, fun j => ?_⟩
    · unfold ServerState.resume
      rw [hnil, transfer_nil]
      unfold Server.call
      rw [hposition]
      exact ite_self _
    · unfold piece
      rw [hop]
      rfl

theorem resume_of_accept (h : Isolated env n trace st) {e : ServerEvent}
    (hparent : e.pending = parentOn env n)
    (hc : Completes e.pending.op e.error e.transferred) :
    st.resume env e = some (st.heap.forked env n, [childOn env n, parentOn env (n + 1)]) ∧
      ∀ j, piece j e = none := by
  rw [hparent] at hc
  obtain ⟨herror, hnil⟩ := hc
  refine ⟨?_, fun j => ?_⟩
  · unfold ServerState.resume
    rw [hnil, transfer_nil, herror, hparent]
    exact call_accepted h.sockets h.buffers h.requests
  · unfold piece
    rw [hparent]
    rfl

theorem resume_of_read (h : Isolated env n trace st) {k : Nat} (hk : k < n) {e : ServerEvent}
    (hchild : Child env st.heap k (pieces k trace) e.pending)
    (hu : (outcome env (pieces k trace).flatten).verdict = .indeterminate)
    (hc : Completes e.pending.op e.error e.transferred) (herror : e.error = false) :
    ∃ heap' p', st.resume env e = some (heap', [p']) ∧
      (st.heap.transfer (.asyncReadSome k k) e.transferred).ServedBy k e.transferred heap' ∧
      Child env heap' k (pieces k trace ++ [e.transferred]) p' ∧
      p'.op = nextOperation env k (outcome env (pieces k trace ++ [e.transferred]).flatten) ∧
      (∀ w, p'.handler.reply = some w → w = st.heap.replies.length) ∧
      piece k e = some e.transferred := by
  obtain ⟨hop, -, -⟩ := hchild.reading hu
  rw [hop] at hc
  have hlen : k < st.heap.buffers.length := h.buffers.symm ▸ hk
  have hbuffer : (st.heap.transfer (.asyncReadSome k k) e.transferred).buffers[k]? =
      some ((st.heap.buffers[k]).store e.transferred) := by
    simp [Heap.transfer, hlen]
  have hchild' : Child env (st.heap.transfer (.asyncReadSome k k) e.transferred) k
      (pieces k trace) e.pending := hchild.frame rfl (List.prefix_refl _)
  obtain ⟨heap', p', hcall, hserved, hnext, hop', hreply⟩ :=
    call_received hchild' hu hbuffer (Buffer.take_store _ hc.1)
  refine ⟨heap', p', ?_, hserved, hnext, hop', hreply, ?_⟩
  · unfold ServerState.resume
    rw [hop, herror]
    exact hcall
  · unfold piece
    rw [hop]
    exact if_pos ⟨rfl, herror⟩

/-- No event dereferences a null pointer, and every event keeps the coroutines apart. -/
theorem isolated_next (h : Isolated env n trace st) {e : ServerEvent}
    (he : (serverMachine env).enabled st e) :
    (st.resume env e).isSome ∧
      ∃ n', Isolated env n' (trace ++ [e]) ((serverMachine env).next st e) := by
  obtain ⟨hmem, hc⟩ := he
  rcases h.held e.pending hmem with hparent | ⟨k, hk, hchild⟩
  · obtain ⟨hresume, hpiece⟩ := resume_of_accept h hparent hc
    refine ⟨by rw [hresume]; rfl, n + 1, ?_⟩
    rw [next_of_resume hresume, hparent]
    exact isolated_fork h hpiece (congrArg Pending.op hparent)
  · by_cases hend : e.error = true ∨
        (outcome env (pieces k trace).flatten).verdict ≠ .indeterminate
    · obtain ⟨hresume, hpiece⟩ := resume_of_end hchild hc hend
      refine ⟨by rw [hresume]; rfl, n, ?_⟩
      rw [next_of_resume_nil hresume]
      exact isolated_drop h (hchild.ne_parent hk) hpiece (op_ne_accept hchild)
    · obtain ⟨hno, hu⟩ := not_or.mp hend
      have hu := not_not.mp hu
      obtain ⟨heap', p', hresume, hserved, hnext, hop, hreply, hpiece⟩ :=
        resume_of_read h hk hchild hu hc ((Bool.not_eq_true _).mp hno)
      refine ⟨by rw [hresume]; rfl, n, ?_⟩
      rw [next_of_resume hresume]
      exact isolated_serve h hk hmem hchild hu hserved hnext hop hreply hpiece
        (fun j hj => piece_eq_none (op_socket_of_child hchild) hj) (op_ne_accept hchild)

theorem run_isolated (h : (serverMachine env).Run (ServerState.init env) trace st) :
    ∃ n, Isolated env n trace st :=
  h.invariant (I := fun trace st => ∃ n, Isolated env n trace st) ⟨0, isolated_init⟩
    fun _ _ _ ⟨_, hi⟩ he => (isolated_next hi he).2

theorem Isolated.own (h : Isolated env n trace st) {p q : Pending} (hp : p ∈ st.pending)
    (hq : q ∈ st.pending) (hne : p ≠ q) :
    p.handler.socket ≠ q.handler.socket ∧ p.handler.buffer ≠ q.handler.buffer ∧
      p.handler.request ≠ q.handler.request ∧
      (p.handler.reply = q.handler.reply → p.handler.reply = none) := by
  have hsocket : p.handler.socket ≠ q.handler.socket := mt (h.eq_of_socket_eq hp hq) hne
  refine ⟨hsocket, ?_⟩
  have hreply : p.handler.reply = q.handler.reply → p.handler.reply = none := by
    intro heq
    cases hw : p.handler.reply with
    | none => rfl
    | some w => exact absurd (h.replies p hp q hq w hw (heq ▸ hw)) hne
  rcases h.held p hp with rfl | ⟨k, hk, hchild⟩
  · rcases h.held q hq with rfl | ⟨j, hj, hchild'⟩
    · exact absurd rfl hne
    · rw [hchild'.buffer, hchild'.request]
      exact ⟨nofun, nofun, hreply⟩
  · rw [hchild.socket] at hsocket
    rw [hchild.buffer, hchild.request]
    rcases h.held q hq with rfl | ⟨j, hj, hchild'⟩
    · exact ⟨nofun, nofun, hreply⟩
    · rw [hchild'.socket] at hsocket
      rw [hchild'.buffer, hchild'.request]
      exact ⟨hsocket, hsocket, hreply⟩

/-- An accept that completes makes a child with a parser in its initial state. -/
theorem Isolated.next_accept (h : Isolated env n trace st) {e : ServerEvent}
    (hparent : e.pending = parentOn env n)
    (hc : Completes e.pending.op e.error e.transferred) :
    ((serverMachine env).next st e).pending =
        st.pending.erase (parentOn env n) ++ [childOn env n, parentOn env (n + 1)] ∧
      ((serverMachine env).next st e).heap.requests[n]? = some Request.fresh := by
  rw [next_of_resume (resume_of_accept h hparent hc).1, hparent]
  refine ⟨rfl, ?_⟩
  simp [Heap.forked, ← h.requests]

theorem Isolated.next_error (h : Isolated env n trace st) {e : ServerEvent}
    (hmem : e.pending ∈ st.pending) (hc : Completes e.pending.op e.error e.transferred)
    (herror : e.error = true) :
    e.pending ≠ parentOn env n ∧
      (serverMachine env).next st e = ⟨st.heap, st.pending.erase e.pending, st.started⟩ ∧
      ∀ p, p ∈ st.pending.erase e.pending ↔ p ≠ e.pending ∧ p ∈ st.pending := by
  rcases h.held e.pending hmem with hparent | ⟨k, hk, hchild⟩
  · rw [hparent] at hc
    exact absurd (herror.symm.trans hc.1) Bool.noConfusion
  · obtain ⟨hresume, -⟩ := resume_of_end hchild hc (.inl herror)
    exact ⟨hchild.ne_parent hk, next_of_resume_nil hresume, fun p => h.mem_erase⟩

/-- In every run of the server: the coroutines are isolated, no two handlers share an object,
no call goes through a null pointer, an accept makes a new child and an error ends one. -/
theorem coroutines_isolated (env : Env) (trace : List ServerEvent) (st : ServerState)
    (h : (serverMachine env).Run (ServerState.init env) trace st) :
    ∃ n, Isolated env n trace st ∧
      (∀ p ∈ st.pending, ∀ q ∈ st.pending, p ≠ q →
        p.handler.socket ≠ q.handler.socket ∧ p.handler.buffer ≠ q.handler.buffer ∧
        p.handler.request ≠ q.handler.request ∧
        (p.handler.reply = q.handler.reply → p.handler.reply = none)) ∧
      ∀ e, (serverMachine env).enabled st e →
        (st.resume env e).isSome ∧
        (e.pending = parentOn env n →
          ((serverMachine env).next st e).pending =
            st.pending.erase (parentOn env n) ++ [childOn env n, parentOn env (n + 1)] ∧
          ((serverMachine env).next st e).heap.requests[n]? = some Request.fresh) ∧
        (e.error = true →
          e.pending ≠ parentOn env n ∧
          (serverMachine env).next st e = ⟨st.heap, st.pending.erase e.pending, st.started⟩ ∧
          ∀ p, p ∈ st.pending.erase e.pending ↔ p ≠ e.pending ∧ p ∈ st.pending) := by
  obtain ⟨n, hi⟩ := run_isolated h
  refine ⟨n, hi, fun p hp q hq hne => hi.own hp hq hne, fun e he => ⟨?_, fun hparent => ?_,
    fun herror => ?_⟩⟩
  · exact (isolated_next hi he).1
  · exact hi.next_accept hparent he.2
  · exact hi.next_error he.1 he.2 herror

/-- Two connections; the first child ends with an error. -/
theorem coroutines_isolated_two :
    let env : Env := ⟨fun _ => none, fun _ rep => rep, 0, fun _ => (Buffer.zero, 0)⟩
    ∃ st, (serverMachine env).Run (ServerState.init env)
        [⟨parentOn env 0, false, []⟩, ⟨parentOn env 1, false, []⟩,
          ⟨childOn env 0, true, []⟩] st ∧
      ∃ n, Isolated env n [⟨parentOn env 0, false, []⟩, ⟨parentOn env 1, false, []⟩,
          ⟨childOn env 0, true, []⟩] st ∧ st.pending = [childOn env 1, parentOn env 2] := by
  intro env
  have hadmits : (serverMachine env).Admits (ServerState.init env)
      [⟨parentOn env 0, false, []⟩, ⟨parentOn env 1, false, []⟩,
        ⟨childOn env 0, true, []⟩] := by decide +kernel
  have hrun := hadmits.run
  obtain ⟨n, hi, -⟩ := coroutines_isolated env _ _ hrun
  exact ⟨_, hrun, n, hi, by decide +kernel⟩

end Invariant

end AsioExamples.Http.Server4
