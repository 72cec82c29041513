import AsioExamples.Http.RequestHandler
import AsioExamples.Theory.Exchange
import AsioExamples.Theory.Machine

/-!
`http::server4::server`, the coroutine that accepts connections and, forked, serves them.

`operator()` is cut at the places where it can be resumed. What its copies share through
pointers are objects in a heap, which are numbered and never made anew; what it holds by value
is copied with it. The copies that live between two handlers are the completion handlers of
the operations outstanding.
-/

namespace AsioExamples.Http.Server4

set_option autoImplicit false

open Recogniser

/-- The value of the `coroutine` base: the yield or the side of the fork to go on from. -/
inductive Position where
  | entry
  | accepted
  | child
  | parent
  | received
  | sent
deriving DecidableEq, Repr

/-- The objects that pointers point to; a socket is known by its number alone. The calls of
`request_parser_.parse` are recorded with the socket that their caller holds. -/
structure Heap where
  sockets : Nat
  buffers : List Buffer
  requests : List Request
  replies : List Reply
  fed : List (Option Nat × Bytes)
deriving DecidableEq

structure Server where
  position : Position
  socket : Option Nat
  buffer : Option Nat
  request : Option Nat
  validRequest : Tribool
  requestParser : RequestParser.Parser
  reply : Option Nat
deriving DecidableEq, Repr

namespace Server

/-- The constructor sets the acceptor and the request handler; a tribool starts as false. -/
def new (contentLength : Nat) : Server :=
  ⟨.entry, none, none, none, .no, RequestParser.Parser.fresh contentLength, none⟩

def isParent (self : Server) : Bool := self.position != .child

end Server

inductive Operation where
  | asyncAccept (socket : Nat)
  | asyncReadSome (socket buffer : Nat)
  | asyncWrite (socket : Nat) (buffers : List Bytes)
deriving DecidableEq, Repr

def Operation.socket : Operation → Nat
  | .asyncAccept socket => socket
  | .asyncReadSome socket _ => socket
  | .asyncWrite socket _ => socket

/-- An operation outstanding, with the copy of the coroutine that is its handler. -/
structure Pending where
  op : Operation
  handler : Server
deriving DecidableEq, Repr

/-- What the source leaves open: the cast and the request handler that it is given, and the
values of what it does not initialise: `content_length_`, the array and the status. -/
structure Env where
  cast : Bytes → Option Nat
  requestHandler : Request → Reply → Reply
  contentLength : Nat
  fills : Option Nat → Buffer × Nat

/-- What a call of the coroutine leaves: the heap, and the operations it has started. A null
pointer dereferenced leaves nothing. -/
abbrev Resumed := Option (Heap × List Pending)

namespace Server

/-- The body of the accepting loop. -/
def accept (heap : Heap) (self : Server) : Resumed :=
  let socket := heap.sockets
  let self := { self with socket := some socket, position := .accepted }
  some ({ heap with sockets := socket + 1 }, [⟨.asyncAccept socket, self⟩])

/-- The body of the reading loop, up to the yield. -/
def receive (heap : Heap) (self : Server) : Resumed := do
  let socket ← self.socket
  let buffer ← self.buffer
  let self := { self with position := .received }
  some (heap, [⟨.asyncReadSome socket buffer, self⟩])

section Coroutine
variable (env : Env)

/-- The code between the two loops. -/
def serve (heap : Heap) (self : Server) : Resumed :=
  let self := { self with
    buffer := some heap.buffers.length
    request := some heap.requests.length }
  let heap := { heap with
    buffers := heap.buffers ++ [(env.fills self.socket).1]
    requests := heap.requests ++ [Request.fresh] }
  receive heap self

/-- The test of the accepting loop. -/
def afterFork (heap : Heap) (self : Server) : Resumed :=
  if self.isParent then accept heap self else serve env heap self

/-- The code below the reading loop, up to the yield. -/
def send (heap : Heap) (self : Server) : Resumed := do
  let rep := Reply.fresh (env.fills self.socket).2
  let self := { self with reply := some heap.replies.length }
  let rep ←
    if self.validRequest = .yes then do
      let request ← self.request
      let req ← heap.requests[request]?
      some (env.requestHandler req rep)
    else some (Reply.stockReply .badRequest)
  let heap := { heap with replies := heap.replies ++ [rep] }
  let socket ← self.socket
  let self := { self with position := .sent }
  some (heap, [⟨.asyncWrite socket rep.toBuffers, self⟩])

/-- The body of the reading loop below the yield, and the test of the loop. -/
def parse (heap : Heap) (self : Server) (length : Nat) : Resumed := do
  let request ← self.request
  let req ← heap.requests[request]?
  let buffer ← self.buffer
  let array ← heap.buffers[buffer]?
  let bytes := array.data.take length
  let o := RequestParser.parse env.cast (self.requestParser, req) bytes
  let heap := { heap with
    requests := heap.requests.set request o.state.2
    fed := heap.fed ++ [(self.socket, bytes)] }
  let self := { self with validRequest := o.verdict, requestParser := o.state.1 }
  if o.verdict = .indeterminate then receive heap self else send env heap self

/-- `operator()`. `fork server(*this)()` calls a copy, which goes on as the child until it
yields; then the parent goes on. -/
def call (heap : Heap) (self : Server) (ec : Bool) (length : Nat) : Resumed :=
  if ec then some (heap, [])
  else
    match self.position with
    | .entry => accept heap self
    | .accepted => do
      let (heap, child) ← afterFork env heap { self with position := .child }
      let (heap, parent) ← afterFork env heap { self with position := .parent }
      some (heap, child ++ parent)
    | .child | .parent => afterFork env heap self
    | .received => parse env heap self length
    | .sent => some (heap, [])

end Coroutine

end Server

structure ServerState where
  heap : Heap
  pending : List Pending
  started : List Operation
deriving DecidableEq

structure ServerEvent where
  pending : Pending
  error : Bool
  transferred : Bytes
deriving DecidableEq, Repr

/-- Accepts succeed. A read that succeeds has read something, and no more than fits; one that
fails has read nothing. -/
def Completes (op : Operation) (error : Bool) (transferred : Bytes) : Prop :=
  match op with
  | .asyncAccept _ => error = false ∧ transferred = []
  | .asyncReadSome _ _ =>
    transferred.length ≤ 8192 ∧ (error = true ↔ transferred = [])
  | .asyncWrite _ _ => transferred = []

instance : ∀ (op : Operation) (error : Bool) (transferred : Bytes),
    Decidable (Completes op error transferred)
  | .asyncAccept _, error, transferred =>
    inferInstanceAs (Decidable (error = false ∧ transferred = []))
  | .asyncReadSome _ _, error, transferred =>
    inferInstanceAs (Decidable (transferred.length ≤ 8192 ∧ (error = true ↔ transferred = [])))
  | .asyncWrite _ _, _, transferred => inferInstanceAs (Decidable (transferred = []))

/-- A read puts what it has read into its buffer. -/
def Heap.transfer (heap : Heap) (op : Operation) (transferred : Bytes) : Heap :=
  match op with
  | .asyncReadSome _ buffer =>
    { heap with buffers := heap.buffers.modify buffer (·.store transferred) }
  | _ => heap

section Machine
variable (env : Env)

def ServerState.resume (st : ServerState) (e : ServerEvent) : Resumed :=
  e.pending.handler.call env (st.heap.transfer e.pending.op e.transferred) e.error
    e.transferred.length

/-- What a call leaves is what there is from then on, but for the handler called. -/
def ServerState.after (st : ServerState) (e : ServerEvent) : Resumed → ServerState
  | some (heap, started) =>
    ⟨heap, st.pending.erase e.pending ++ started, st.started ++ started.map Pending.op⟩
  | none => st

def serverMachine : Machine ServerState ServerEvent where
  enabled st e := e.pending ∈ st.pending ∧ Completes e.pending.op e.error e.transferred
  next st e := st.after e (st.resume env e)

instance (st : ServerState) (e : ServerEvent) : Decidable ((serverMachine env).enabled st e) :=
  inferInstanceAs (Decidable (_ ∧ _))

/-- `main` calls a new server, which starts its first accept. -/
def ServerState.init : ServerState :=
  let p : Pending :=
    ⟨.asyncAccept 0, { Server.new env.contentLength with socket := some 0, position := .accepted }⟩
  ⟨⟨1, [], [], [], []⟩, [p], [p.op]⟩

/-- The initial state is what the first call leaves. -/
theorem call_new :
    (Server.new env.contentLength).call env ⟨0, [], [], [], []⟩ false 0 =
      some ((ServerState.init env).heap, (ServerState.init env).pending) := rfl

end Machine

end AsioExamples.Http.Server4
