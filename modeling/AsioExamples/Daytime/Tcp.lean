import AsioExamples.Theory.Shared
import AsioExamples.Theory.Machine
import AsioExamples.Bytes

/-!
# The daytime servers over TCP

`tcp_server` of daytime3.cpp and daytime7.cpp, whose connections keep their message, and `server`
of reference_counted.cpp, which shares it with the operation. Objects live as long as pointers to
them do. The text is `ctime` of the time at which a connection is started.
-/

namespace AsioExamples.Daytime

set_option autoImplicit false

inductive Object where
  | connection (message : Bytes)
  | session
  | chars (data : Bytes)
deriving DecidableEq

/-- The characters that a buffer into the object is about. -/
def Object.bytes : Object → Bytes
  | .connection message => message
  | .session => []
  | .chars data => data

/-- An `async_write` to the socket of a connection: where its characters are and how many, and the
pointers that its handler and its buffers are made of. -/
structure Write where
  connection : Nat
  source : Nat
  size : Nat
  owned : List Nat
  sent : Nat
deriving DecidableEq

/-- An accept is named by the connection that it is for, to which its handler has a pointer. -/
structure TcpServer where
  heap : Heap Object
  accepts : List Nat
  writes : List Write
  /-- What the clients have been sent, by the connections. -/
  received : Nat → Bytes
  fault : Bool

namespace TcpServer

def init : TcpServer := ⟨.empty, [], [], fun _ => [], false⟩

def copy (st : TcpServer) (p : Nat) : TcpServer := { st with heap := st.heap.copy p }

def drop (st : TcpServer) (p : Nat) : TcpServer := { st with heap := st.heap.drop p }

def asyncAccept (st : TcpServer) (p : Nat) : TcpServer :=
  { st.copy p with accepts := st.accepts ++ [p] }

/-- `async_write` with the pointers bound to its handler, or in its buffers. -/
def asyncWrite (st : TcpServer) (p source size : Nat) (owned : List Nat) : TcpServer :=
  { owned.foldl copy st with writes := st.writes ++ [⟨p, source, size, owned, 0⟩] }

end TcpServer

open TcpServer

/-! daytime3.cpp and daytime7.cpp -/

/-- `tcp_connection::start`, with what `make_daytime_string` returns. -/
def TcpConnection.start (st : TcpServer) (p : Nat) (daytime : Bytes) : TcpServer :=
  let st := { st with heap := st.heap.modify p fun _ => .connection daytime }
  st.asyncWrite p p daytime.length [p]

def TcpServer.startAccept (st : TcpServer) : TcpServer :=
  let newConnection := st.heap.next
  ({ st with heap := st.heap.make (.connection []) }.asyncAccept newConnection).drop newConnection

/-- The argument is a copy of the pointer that the handler has. -/
def TcpServer.handleAccept (st : TcpServer) (newConnection : Nat) (error : Bool)
    (daytime : Bytes) : TcpServer :=
  let st := st.copy newConnection
  let st := if !error then TcpConnection.start st newConnection daytime else st
  st.startAccept.drop newConnection

/-! reference_counted.cpp -/

/-- The buffer `shared_const_buffer` is the local one, and `async_write` copies it. -/
def Session.start (st : TcpServer) (p : Nat) (daytime : Bytes) : TcpServer :=
  let data := st.heap.next
  let st := { st with heap := st.heap.make (.chars daytime) }
  (st.asyncWrite p data daytime.length [data, p]).drop data

def Server.construct (st : TcpServer) : TcpServer :=
  let newSession := st.heap.next
  ({ st with heap := st.heap.make .session }.asyncAccept newSession).drop newSession

def Server.handleAccept (st : TcpServer) (newSession : Nat) (error : Bool) (daytime : Bytes) :
    TcpServer :=
  let st := st.copy newSession
  let st := if !error then Session.start st newSession daytime else st
  let other := st.heap.next
  let st := { st with heap := st.heap.make .session }.drop newSession
  (st.asyncAccept other).drop other

inductive Program where
  | daytime3
  | referenceCounted
deriving DecidableEq

def Program.construct : Program → TcpServer
  | .daytime3 => init.startAccept
  | .referenceCounted => Server.construct init

def Program.handleAccept : Program → TcpServer → Nat → Bool → Bytes → TcpServer
  | .daytime3 => TcpServer.handleAccept
  | .referenceCounted => Server.handleAccept

inductive TcpEvent where
  | handleAccept (p : Nat) (error : Bool) (now : Nat)
  | writeSome (w : Write) (n : Nat)
  | handleWrite (w : Write) (error : Bool)
deriving DecidableEq

/-- Characters are read through the pointer of the operation when they are sent. A handler is
destroyed after its call, the buffers of an operation before it. -/
def tcpMachine (ctime : Nat → Bytes) (program : Program) : Machine TcpServer TcpEvent where
  enabled st
    | .handleAccept p _ _ => p ∈ st.accepts
    | .writeSome w n => w ∈ st.writes ∧ 0 < n ∧ w.sent + n ≤ w.size
    | .handleWrite w error => w ∈ st.writes ∧ (error = false → w.sent = w.size)
  next st
    | .handleAccept p error now =>
      let st := { st with accepts := st.accepts.erase p }
      (program.handleAccept st p error (ctime now)).drop p
    | .writeSome w n =>
      match st.heap.get w.source with
      | none => { st with fault := true }
      | some o =>
        { st with
          writes := st.writes.erase w ++ [{ w with sent := w.sent + n }]
          received := Function.update st.received w.connection
            (st.received w.connection ++ (o.bytes.drop w.sent).take n) }
    | .handleWrite w _ => w.owned.foldl drop { st with writes := st.writes.erase w }

instance (ctime : Nat → Bytes) (program : Program) :
    ∀ st e, Decidable ((tcpMachine ctime program).enabled st e)
  | _, .handleAccept _ _ _ => inferInstanceAs (Decidable (_ ∈ _))
  | _, .writeSome _ _ => inferInstanceAs (Decidable (_ ∧ _ ∧ _))
  | _, .handleWrite _ _ => inferInstanceAs (Decidable (_ ∧ _))

end AsioExamples.Daytime
