import AsioExamples.Http.Server.PeerSteps

/-!
`http::server2::connection`, which nobody manages. It lives as long as a handler refers to it,
and its destructor closes the socket. What the first server's connection is to the server, it is
to itself.
-/

namespace AsioExamples.Http.Server2

set_option autoImplicit false

open Server (ErrorCode Action Connection OpKind Operation Peer Kept)

section Handlers
variable (docRoot : Bytes) (files : Bytes → Option Bytes)

def handleRead (c : Connection) (e : ErrorCode) (bytesTransferred : Nat) :
    Connection × List Action :=
  if e = .success then
    let o := Server.RequestParser.parse (c.requestParser, c.request)
      (c.buffer.data.take bytesTransferred)
    let c := { c with requestParser := o.state.1, request := o.state.2 }
    match o.verdict with
    | .yes =>
      let c := { c with
        reply := (Server.RequestHandler.handleRequest docRoot files c.request c.reply).rep }
      (c, [.asyncWrite c.reply.toBuffers])
    | .no =>
      let c := { c with reply := Reply.stockReply .badRequest }
      (c, [.asyncWrite c.reply.toBuffers])
    | .indeterminate => (c, [.asyncReadSome])
  else (c, [])

def handleWrite (e : ErrorCode) : List Action := if e = .success then [.shutdown] else []

/-- Run the handler of a complete operation, up to what it decides to do. -/
def dispatch (p : Peer) (kind : OpKind) (e : ErrorCode) (transferred : Bytes) :
    Peer × List Action :=
  let p := { p with outstanding := p.outstanding.erase ⟨kind, some (e, transferred)⟩ }
  match kind with
  | .read =>
    let c := { p.connection with buffer := p.connection.buffer.store transferred }
    let (c, actions) := handleRead docRoot files c e transferred.length
    ({ p with connection := c }, actions)
  | .write _ => (p, handleWrite e)

/-- The last `shared_ptr` to a connection goes with its last operation. -/
def release (p : Peer) : Peer := if p.outstanding = [] then p.close else p

def handled (kind : OpKind) (e : ErrorCode) (transferred : Bytes) (p : Peer) : Peer :=
  let (p, actions) := dispatch docRoot files p kind e transferred
  release (actions.foldl Peer.perform p)

variable {docRoot files} {status : Nat} {p : Peer} {read : List Bytes}

theorem release_of_nil (h : p.outstanding = []) : release p = p.close := if_pos h

theorem handleRead_success (c : Connection) (bytesTransferred : Nat) :
    handleRead docRoot files c .success bytesTransferred =
      c.handleRead docRoot files .success bytesTransferred := rfl

/-- A connection that is left by its handlers ends like one that its manager stops. -/
theorem handled_eq (h : Kept docRoot files status p read) {kind : OpKind} {e : ErrorCode}
    {transferred : Bytes} (hop : ⟨kind, some (e, transferred)⟩ ∈ p.outstanding)
    (he : e ≠ .operationAborted) :
    handled docRoot files kind e transferred p =
      Server.ServerState.handled docRoot files kind e transferred p := by
  have herase := Server.erase_of_mem h hop
  cases kind with
  | read =>
    cases e with
    | success =>
      rcases Server.outstanding_handled h hop with ⟨-, -, -, hout⟩ | ⟨hno, -⟩
      · have hsame : handled docRoot files .read .success transferred p =
            release (Server.ServerState.handled docRoot files .read .success transferred p) := rfl
        rw [hsame]
        apply if_neg
        rw [hout]
        exact List.cons_ne_nil _ _
      · exact absurd ⟨rfl, rfl⟩ hno
    | operationAborted => exact absurd rfl he
    | other => exact release_of_nil herase
  | write buffers =>
    cases e with
    | success => exact release_of_nil herase
    | operationAborted => exact absurd rfl he
    | other => exact release_of_nil herase

end Handlers

end AsioExamples.Http.Server2
