import AsioExamples.Http.Server.Connection

/-!
# What one connection keeps

Whatever the order in which its operations complete, its handlers run and its socket is
closed, a connection is an exchange: its parser is where the bytes read so far lead, and it
has started what an exchange starts. As long as its socket is open it has one operation
outstanding.
-/

namespace AsioExamples.Http.Server

set_option autoImplicit false

open Recogniser Exchange

section Exchange
variable (docRoot : Bytes) (files : Bytes → Option Bytes) (status : Nat)

/-- The parser on all that a connection has read. -/
def outcome (bytes : Bytes) : Outcome (RequestParser.State × Request) :=
  RequestParser.parse (RequestParser.reset, Request.fresh) bytes

def replyTo (o : Outcome (RequestParser.State × Request)) : Reply :=
  match o.verdict with
  | .yes => (RequestHandler.handleRequest docRoot files o.state.2 (Reply.fresh status)).rep
  | .no => Reply.stockReply .badRequest
  | .indeterminate => Reply.fresh status

def answerTo (o : Outcome (RequestParser.State × Request)) : OpKind :=
  .write (replyTo docRoot files status o).toBuffers

def nextKind (o : Outcome (RequestParser.State × Request)) : OpKind :=
  if o.verdict = .indeterminate then .read else answerTo docRoot files status o

/-- A connection has parsed the pieces, none of them after the decision. -/
structure HasRead (c : Connection) (pieces : List Bytes) : Prop where
  prompt : Prompt RequestParser.consume (RequestParser.reset, Request.fresh) pieces
  parsed : (c.requestParser, c.request) = (outcome pieces.flatten).state
  replied : c.reply = replyTo docRoot files status (outcome pieces.flatten)

/-- `pieces` are what the successful reads have read. -/
structure Kept (p : Peer) (pieces : List Bytes) : Prop where
  hasRead : HasRead docRoot files status p.connection pieces
  idle : p.hasStarted = false → p.outstanding = [] ∧ p.started = [] ∧ pieces = []
  started : p.hasStarted = true → p.started =
    operations RequestParser.consume (RequestParser.reset, Request.fresh) .read
      (answerTo docRoot files status) pieces
  kinds : ∀ op ∈ p.outstanding,
    op.kind = .read ↔ (outcome pieces.flatten).verdict = .indeterminate
  fits : ∀ kind e transferred, ⟨kind, some (e, transferred)⟩ ∈ p.outstanding →
    transferred.length ≤ 8192
  single : p.outstanding.length ≤ 1
  busy : p.hasStarted = true → p.isOpen = true → p.outstanding.length = 1
  unaborted : p.isOpen = true → ∀ kind transferred,
    ⟨kind, some (.operationAborted, transferred)⟩ ∉ p.outstanding

end Exchange

section Steps
variable {docRoot : Bytes} {files : Bytes → Option Bytes} {status : Nat}
variable {p : Peer} {pieces : List Bytes}

theorem hasRead_new (fill : Buffer) :
    HasRead docRoot files status (Connection.new fill status) [] :=
  ⟨prompt_nil, rfl, rfl⟩

theorem kept_new (fill : Buffer) :
    Kept docRoot files status (Peer.new (Connection.new fill status)) [] where
  hasRead := hasRead_new fill
  idle := fun _ => ⟨rfl, rfl, rfl⟩
  started := fun h => nomatch h
  kinds := fun _ h => nomatch h
  fits := fun _ _ _ h => nomatch h
  single := Nat.zero_le 1
  busy := fun h => nomatch h
  unaborted := fun _ _ _ h => nomatch h

/-- Nothing is outstanding before the connection is started. -/
theorem hasStarted_of_mem (h : Kept docRoot files status p pieces) {op : Operation}
    (hop : op ∈ p.outstanding) : p.hasStarted = true := by
  cases hs : p.hasStarted with
  | true => rfl
  | false =>
    rw [(h.idle hs).1] at hop
    cases hop

theorem kept_open (h : Kept docRoot files status p pieces) (hs : p.hasStarted = false) :
    Kept docRoot files status { p with isOpen := true } pieces :=
  { h with
    busy := fun hstarted => absurd (hs.symm.trans hstarted) Bool.false_ne_true
    unaborted := by
      intro _ kind transferred hmem
      cases hs.symm.trans (hasStarted_of_mem h hmem) }

theorem kept_launch {kind : OpKind} (hread : HasRead docRoot files status p.connection pieces)
    (hnone : p.outstanding = []) (hs : p.hasStarted = true)
    (hstarted : p.started ++ [kind] =
      operations RequestParser.consume (RequestParser.reset, Request.fresh) .read
        (answerTo docRoot files status) pieces)
    (hkind : kind = .read ↔ (outcome pieces.flatten).verdict = .indeterminate) :
    Kept docRoot files status (p.launch kind) pieces := by
  have hout : (p.launch kind).outstanding =
      [⟨kind, if p.isOpen then none else some (.other, [])⟩] := by
    simp [Peer.launch, hnone]
  refine ⟨hread, fun h => ?_, fun _ => hstarted, ?_, ?_, ?_, ?_, ?_⟩
  · exact absurd (hs.symm.trans h) Bool.noConfusion
  · rw [hout]
    intro op hop
    rw [List.mem_singleton.mp hop]
    exact hkind
  · rw [hout]
    intro kind' e transferred hop
    obtain ⟨-, hcompletion⟩ := Operation.mk.inj (List.mem_singleton.mp hop)
    split at hcompletion
    · cases hcompletion
    · cases hcompletion
      exact Nat.zero_le _
  · rw [hout]
    exact Nat.le_refl 1
  · rw [hout]
    exact fun _ _ => rfl
  · rw [hout]
    intro hopen kind' transferred hop
    obtain ⟨-, hcompletion⟩ := Operation.mk.inj (List.mem_singleton.mp hop)
    rw [if_pos (show p.isOpen = true from hopen)] at hcompletion
    cases hcompletion

theorem kept_start (h : Kept docRoot files status p pieces) (hs : p.hasStarted = false) :
    Kept docRoot files status p.start pieces := by
  obtain ⟨hout, hstarted, rfl⟩ := h.idle hs
  refine kept_launch (p := { p with hasStarted := true }) h.hasRead hout rfl ?_ ?_
  · change p.started ++ [_] = _
    rw [hstarted]
    rfl
  · exact ⟨fun _ => rfl, fun _ => rfl⟩

theorem outstanding_eq_of_mem (h : Kept docRoot files status p pieces) {op : Operation}
    (hop : op ∈ p.outstanding) : p.outstanding = [op] := by
  have hsingle := h.single
  match hout : p.outstanding with
  | [] =>
    rw [hout] at hop
    cases hop
  | [op'] =>
    rw [hout] at hop
    rw [List.mem_singleton.mp hop]
  | _ :: _ :: _ =>
    rw [hout] at hsingle
    simp at hsingle

theorem kept_complete (h : Kept docRoot files status p pieces) {kind : OpKind}
    (hop : ⟨kind, none⟩ ∈ p.outstanding) {e : ErrorCode} {transferred : Bytes}
    (hc : Completes kind e transferred) :
    Kept docRoot files status (p.complete kind e transferred) pieces := by
  have hout := outstanding_eq_of_mem h hop
  have hout' : (p.complete kind e transferred).outstanding =
      [⟨kind, some (e, transferred)⟩] := by
    simp [Peer.complete, hout]
  obtain ⟨haborted, hlen, -⟩ := hc
  refine ⟨h.hasRead, fun hs => ?_, h.started, ?_, ?_, ?_, ?_, ?_⟩
  · rw [(h.idle hs).1] at hout
    cases hout
  · rw [hout']
    intro op hmem
    rw [List.mem_singleton.mp hmem]
    exact h.kinds ⟨kind, none⟩ hop
  · rw [hout']
    intro kind' e' transferred' hmem
    cases List.mem_singleton.mp hmem
    exact hlen
  · rw [hout']
    exact Nat.le_refl 1
  · rw [hout']
    exact fun _ _ => rfl
  · rw [hout']
    intro _ kind' transferred' hmem
    cases List.mem_singleton.mp hmem
    exact haborted rfl

theorem kind_abort (op : Operation) : op.abort.kind = op.kind := by
  unfold Operation.abort
  split <;> rfl

theorem fits_abort {op : Operation} {kind : OpKind} {e : ErrorCode} {transferred : Bytes}
    (h : op.abort = ⟨kind, some (e, transferred)⟩) :
    op = ⟨kind, some (e, transferred)⟩ ∨ transferred = [] := by
  unfold Operation.abort at h
  split at h
  · cases h
    exact .inr rfl
  · exact .inl h

theorem kept_close (h : Kept docRoot files status p pieces) :
    Kept docRoot files status p.close pieces := by
  refine ⟨h.hasRead, fun hs => ?_, h.started, ?_, ?_, ?_, fun _ hopen => ?_, fun hopen => ?_⟩
  · obtain ⟨hout, hrest⟩ := h.idle hs
    exact ⟨by simp [Peer.close, hout], hrest⟩
  · intro op hop
    obtain ⟨op', hop', rfl⟩ := List.mem_map.mp hop
    rw [kind_abort]
    exact h.kinds op' hop'
  · intro kind e transferred hop
    obtain ⟨op', hop', heq⟩ := List.mem_map.mp hop
    rcases fits_abort heq with rfl | rfl
    · exact h.fits _ _ _ hop'
    · exact Nat.zero_le _
  · change (p.outstanding.map Operation.abort).length ≤ 1
    rw [List.length_map]
    exact h.single
  · cases hopen
  · cases hopen

/-- The operation whose handler ran is gone, and the socket is closed or was. -/
theorem kept_finish (h : Kept docRoot files status p pieces) {c : Connection}
    (hread : HasRead docRoot files status c pieces) (hclosed : p.isOpen = false) :
    Kept docRoot files status { p with connection := c, outstanding := [] } pieces where
  hasRead := hread
  idle := fun hs => ⟨rfl, (h.idle hs).2⟩
  started := h.started
  kinds := fun _ hop => nomatch hop
  fits := fun _ _ _ hop => nomatch hop
  single := Nat.zero_le 1
  busy := fun _ hopen => absurd (hclosed.symm.trans hopen) Bool.false_ne_true
  unaborted := fun _ _ _ hop => nomatch hop

theorem nextKind_eq_read_iff (o : Outcome (RequestParser.State × Request)) :
    nextKind docRoot files status o = .read ↔ o.verdict = .indeterminate := by
  unfold nextKind answerTo
  by_cases h : o.verdict = .indeterminate
  · simp [h]
  · simp [h]

theorem outcome_concat {c : Connection} (h : HasRead docRoot files status c pieces)
    (hu : (outcome pieces.flatten).verdict = .indeterminate) (transferred : Bytes) :
    (outcome (pieces ++ [transferred]).flatten).verdict =
        (RequestParser.parse (c.requestParser, c.request) transferred).verdict ∧
      (outcome (pieces ++ [transferred]).flatten).state =
        (RequestParser.parse (c.requestParser, c.request) transferred).state := by
  rw [h.parsed]
  exact run_flatten_concat hu transferred

theorem handleRead_success {c : Connection} (h : HasRead docRoot files status c pieces)
    (hu : (outcome pieces.flatten).verdict = .indeterminate) {transferred : Bytes}
    (hlen : transferred.length ≤ 8192) :
    let r := ({ c with buffer := c.buffer.store transferred }).handleRead docRoot files
      .success transferred.length
    HasRead docRoot files status r.1 (pieces ++ [transferred]) ∧
      ∀ q : Peer, r.2.foldl Peer.perform q =
        q.launch (nextKind docRoot files status (outcome (pieces ++ [transferred]).flatten)) := by
  intro r
  obtain ⟨hverdict, hstate⟩ := outcome_concat h hu transferred
  have hprompt := prompt_concat hu transferred
  have hreply : c.reply = Reply.fresh status := by
    rw [h.replied]
    simp [replyTo, hu]
  rcases ho : RequestParser.parse (c.requestParser, c.request) transferred with ⟨v, k, parser, req⟩
  rw [ho] at hverdict hstate
  have hr : r = ({ c with buffer := c.buffer.store transferred }).handleRead docRoot files
      .success transferred.length := rfl
  simp only [Connection.handleRead, if_true, Buffer.take_store _ hlen, ho] at hr
  cases v with
  | yes =>
    rw [hr]
    refine ⟨⟨hprompt, hstate.symm, ?_⟩, fun q => ?_⟩
    · simp only [replyTo, hverdict, hstate, hreply]
    · simp only [nextKind, answerTo, replyTo, hverdict, hstate, hreply]
      rfl
  | no =>
    rw [hr]
    refine ⟨⟨hprompt, hstate.symm, ?_⟩, fun q => ?_⟩
    · simp only [replyTo, hverdict]
    · simp only [nextKind, answerTo, replyTo, hverdict]
      rfl
  | indeterminate =>
    rw [hr]
    refine ⟨⟨hprompt, hstate.symm, ?_⟩, fun q => ?_⟩
    · simp only [replyTo, hverdict, hreply]
    · simp only [nextKind, hverdict]
      rfl

theorem erase_of_mem (h : Kept docRoot files status p pieces) {op : Operation}
    (hop : op ∈ p.outstanding) : p.outstanding.erase op = [] := by
  rw [outstanding_eq_of_mem h hop, List.erase_cons_head]

/-- Only what has been closed gets `operation_aborted`. -/
theorem closed_of_aborted (h : Kept docRoot files status p pieces) {kind : OpKind}
    {transferred : Bytes} (hop : ⟨kind, some (.operationAborted, transferred)⟩ ∈ p.outstanding) :
    p.isOpen = false := by
  cases hopen : p.isOpen with
  | false => rfl
  | true => exact absurd hop (h.unaborted hopen kind transferred)

theorem kept_handleRead (h : Kept docRoot files status p pieces) (hs : p.hasStarted = true)
    {e : ErrorCode} {transferred : Bytes}
    (hop : ⟨.read, some (e, transferred)⟩ ∈ p.outstanding) :
    let r := p.dispatch docRoot files .read e transferred
    Kept docRoot files status (r.2.foldl Peer.perform r.1)
      (pieces ++ if e = .success then [transferred] else []) := by
  have hlen := h.fits _ _ _ hop
  have hu : (outcome pieces.flatten).verdict = .indeterminate := (h.kinds _ hop).mp rfl
  intro r
  have hr : r.1.outstanding = [] := erase_of_mem h hop
  cases e with
  | success =>
    obtain ⟨hread, hperform⟩ := handleRead_success h.hasRead hu hlen
    rw [if_pos rfl, show r.2.foldl Peer.perform r.1 = _ from hperform r.1]
    refine kept_launch hread hr hs ?_ (nextKind_eq_read_iff _)
    rw [operations_concat _ _ hu, ← h.started hs]
    rfl
  | operationAborted =>
    rw [if_neg (by simp), List.append_nil]
    have hfinal : r.2.foldl Peer.perform r.1 =
        { p with connection := r.1.connection, outstanding := [] } := by
      rw [← hr]
      rfl
    rw [hfinal]
    exact kept_finish h ⟨h.hasRead.prompt, h.hasRead.parsed, h.hasRead.replied⟩
      (closed_of_aborted h hop)
  | other =>
    rw [if_neg (by simp), List.append_nil]
    have hfinal : r.2.foldl Peer.perform r.1 =
        { p.close with connection := r.1.connection, outstanding := [] } := by
      rw [← List.map_nil (f := Operation.abort), ← hr]
      rfl
    rw [hfinal]
    exact kept_finish (kept_close h) ⟨h.hasRead.prompt, h.hasRead.parsed, h.hasRead.replied⟩ rfl

theorem kept_handleWrite (h : Kept docRoot files status p pieces) {buffers : List Bytes}
    {e : ErrorCode} {transferred : Bytes}
    (hop : ⟨.write buffers, some (e, transferred)⟩ ∈ p.outstanding) :
    let r := p.dispatch docRoot files (.write buffers) e transferred
    Kept docRoot files status (r.2.foldl Peer.perform r.1) pieces := by
  intro r
  have hr : r.1.outstanding = [] := erase_of_mem h hop
  by_cases he : e = .operationAborted
  · have hfinal : r.2.foldl Peer.perform r.1 =
        { p with connection := p.connection, outstanding := [] } := by
      rw [← hr]
      subst e
      rfl
    rw [hfinal]
    exact kept_finish h h.hasRead (closed_of_aborted h (he ▸ hop))
  · have hfinal : r.2.foldl Peer.perform r.1 =
        { p.close with connection := p.connection, outstanding := [] } := by
      rw [← List.map_nil (f := Operation.abort), ← hr]
      cases e with
      | success => rfl
      | operationAborted => exact absurd rfl he
      | other => rfl
    rw [hfinal]
    exact kept_finish (kept_close h) h.hasRead rfl

/-- What the handler of an operation leaves: after a successful read the next operation, else
nothing outstanding on a closed socket. -/
theorem kept_handle (h : Kept docRoot files status p pieces) (hs : p.hasStarted = true)
    {kind : OpKind} {e : ErrorCode} {transferred : Bytes}
    (hop : ⟨kind, some (e, transferred)⟩ ∈ p.outstanding) :
    let r := p.dispatch docRoot files kind e transferred
    Kept docRoot files status (r.2.foldl Peer.perform r.1)
      (pieces ++ if kind = .read ∧ e = .success then [transferred] else []) := by
  cases kind with
  | read => simpa using kept_handleRead h hs hop
  | write buffers => simpa using kept_handleWrite h hop

end Steps

end AsioExamples.Http.Server
