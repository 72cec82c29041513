import AsioExamples.Http.RequestHandler
import AsioExamples.Http.Server.RequestParser
import AsioExamples.Theory.Exchange

/-!
`http::server::connection` and the operations on its socket. An operation is outstanding from
its start until its handler runs; in between it completes, and its result waits for the
handler. The operations that have been started are recorded in the order of the calls.
-/

namespace AsioExamples.Http.Server

set_option autoImplicit false

open Recogniser

inductive ErrorCode where
  | success
  | operationAborted
  | other
deriving DecidableEq, Repr

inductive Action where
  | asyncReadSome
  | asyncWrite (buffers : List Bytes)
  | shutdown
  | stop
deriving DecidableEq, Repr

structure Connection where
  buffer : Buffer
  request : Request
  requestParser : RequestParser.State
  reply : Reply
deriving DecidableEq

namespace Connection

/-- A connection as its constructor leaves it: the array and the status are not set. -/
def new (fill : Buffer) (status : Nat) : Connection :=
  ⟨fill, Request.fresh, RequestParser.reset, Reply.fresh status⟩

def start : List Action := [.asyncReadSome]

section Handlers
variable (docRoot : Bytes) (files : Bytes → Option Bytes)

def handleRead (c : Connection) (e : ErrorCode) (bytesTransferred : Nat) :
    Connection × List Action :=
  if e = .success then
    let o := RequestParser.parse (c.requestParser, c.request)
      (c.buffer.data.take bytesTransferred)
    let c := { c with requestParser := o.state.1, request := o.state.2 }
    match o.verdict with
    | .yes =>
      let c := { c with
        reply := (RequestHandler.handleRequest docRoot files c.request c.reply).rep }
      (c, [.asyncWrite c.reply.toBuffers])
    | .no =>
      let c := { c with reply := Reply.stockReply .badRequest }
      (c, [.asyncWrite c.reply.toBuffers])
    | .indeterminate => (c, [.asyncReadSome])
  else if e ≠ .operationAborted then (c, [.stop])
  else (c, [])

end Handlers

def handleWrite (e : ErrorCode) : List Action :=
  (if e = .success then [.shutdown] else []) ++ (if e ≠ .operationAborted then [.stop] else [])

end Connection

inductive OpKind where
  | read
  | write (buffers : List Bytes)
deriving DecidableEq, Repr

/-- An operation that is outstanding, with its result and what it has read once it is
complete. -/
structure Operation where
  kind : OpKind
  completion : Option (ErrorCode × Bytes)
deriving DecidableEq, Repr

namespace Operation

/-- What closing the socket does to an operation, unless its completion is queued already. -/
def abort (op : Operation) : Operation :=
  match op.completion with
  | none => { op with completion := some (.operationAborted, []) }
  | some _ => op

end Operation

/-- The results an operation on an open socket may come to: a read that succeeds has read
something, and no more than fits. -/
def Completes (kind : OpKind) (e : ErrorCode) (transferred : Bytes) : Prop :=
  e ≠ .operationAborted ∧ transferred.length ≤ 8192 ∧
    (kind = .read → e = .success → transferred ≠ [])

instance (kind : OpKind) (e : ErrorCode) (transferred : Bytes) :
    Decidable (Completes kind e transferred) := inferInstanceAs (Decidable (_ ∧ _))

structure Peer where
  connection : Connection
  isOpen : Bool
  hasStarted : Bool
  outstanding : List Operation
  started : List OpKind
deriving DecidableEq

namespace Peer

def new (connection : Connection) : Peer := ⟨connection, false, false, [], []⟩

def launch (p : Peer) (kind : OpKind) : Peer :=
  { p with
    outstanding := p.outstanding ++ [⟨kind, if p.isOpen then none else some (.other, [])⟩]
    started := p.started ++ [kind] }

def close (p : Peer) : Peer :=
  { p with isOpen := false, outstanding := p.outstanding.map Operation.abort }

def perform (p : Peer) : Action → Peer
  | .asyncReadSome => p.launch .read
  | .asyncWrite buffers => p.launch (.write buffers)
  | .shutdown => p
  | .stop => p.close

def start (p : Peer) : Peer := Connection.start.foldl perform { p with hasStarted := true }

def complete (p : Peer) (kind : OpKind) (e : ErrorCode) (transferred : Bytes) : Peer :=
  { p with outstanding :=
      p.outstanding.erase ⟨kind, none⟩ ++ [⟨kind, some (e, transferred)⟩] }

section Handlers
variable (docRoot : Bytes) (files : Bytes → Option Bytes)

/-- Run the handler of a complete operation, up to what it decides to do. -/
def dispatch (p : Peer) (kind : OpKind) (e : ErrorCode) (transferred : Bytes) :
    Peer × List Action :=
  let p := { p with outstanding := p.outstanding.erase ⟨kind, some (e, transferred)⟩ }
  match kind with
  | .read =>
    let c := { p.connection with buffer := p.connection.buffer.store transferred }
    let (c, actions) := c.handleRead docRoot files e transferred.length
    ({ p with connection := c }, actions)
  | .write _ => (p, Connection.handleWrite e)

end Handlers

end Peer

end AsioExamples.Http.Server
