import AsioExamples.Theory.Shared
import AsioExamples.Theory.Machine
import AsioExamples.Bytes

/-!
# The daytime servers over UDP

`udp_server` of daytime6.cpp and daytime7.cpp, and `udp_daytime_server` of daemon.cpp, which
sends its answer before it receives again. There is one `remote_endpoint_`: the socket writes in it
when a datagram is received, and the handler reads it when it is called.
-/

namespace AsioExamples.Daytime

set_option autoImplicit false

structure Endpoint where
  address : Nat
  port : Nat
deriving DecidableEq

/-- An `async_send_to`, whose endpoint is a copy: where its characters are, the pointer bound to
its handler, and whether the handler is to be called. -/
structure SendTo where
  endpoint : Endpoint
  source : Nat
  message : Nat
  done : Bool
deriving DecidableEq

structure UdpServer where
  heap : Heap Bytes
  remoteEndpoint : Endpoint
  queue : List Endpoint
  receives : Nat
  /-- Whether they failed, for those that do not and whose handler is to be called. -/
  received : List Bool
  sends : List SendTo
  sent : List (Endpoint × Bytes)
  refused : List (Endpoint × Bytes)
  fault : Bool

namespace UdpServer

def startReceive (st : UdpServer) : UdpServer := { st with receives := st.receives + 1 }

def construct : UdpServer := startReceive ⟨.empty, ⟨0, 0⟩, [], 0, [], [], [], [], false⟩

/-- `async_send_to` with the pointer bound to its handler. -/
def asyncSendTo (st : UdpServer) (endpoint : Endpoint) (source message : Nat) : UdpServer :=
  { st with
    heap := st.heap.copy message
    sends := st.sends ++ [⟨endpoint, source, message, false⟩] }

/-- `message` is local. -/
def handleReceive (st : UdpServer) (error : Bool) (daytime : Bytes) : UdpServer :=
  if !error then
    let message := st.heap.next
    let st := { st with heap := st.heap.make daytime }
    let st := (st.asyncSendTo st.remoteEndpoint message message).startReceive
    { st with heap := st.heap.drop message }
  else st

def handleSend (st : UdpServer) (message : Nat) : UdpServer :=
  let st := { st with heap := st.heap.copy message }
  { st with heap := st.heap.drop message }

end UdpServer

/-- `handle_receive` of daemon.cpp, with the outcome of `send_to`. -/
def UdpDaytimeServer.handleReceive (st : UdpServer) (ec : Bool) (daytime : Bytes)
    (ignoredEc : Bool) : UdpServer :=
  let answer := (st.remoteEndpoint, daytime)
  let st :=
    if !ec then
      if ignoredEc then { st with refused := st.refused ++ [answer] }
      else { st with sent := st.sent ++ [answer] }
    else st
  st.startReceive

inductive UdpProgram where
  | daytime6
  | daemon
deriving DecidableEq

def UdpProgram.handleReceive : UdpProgram → UdpServer → Bool → Bytes → Bool → UdpServer
  | .daytime6, st, error, daytime, _ => st.handleReceive error daytime
  | .daemon, st, error, daytime, ignoredEc =>
    UdpDaytimeServer.handleReceive st error daytime ignoredEc

inductive UdpEvent where
  | arrive (sender : Endpoint)
  | receive (sender : Endpoint)
  | failReceive
  /-- `ignoredEc` says how `send_to` ends in daemon.cpp. -/
  | handleReceive (error : Bool) (now : Nat) (ignoredEc : Bool)
  | send (s : SendTo)
  | failSend (s : SendTo)
  | handleSend (s : SendTo)
deriving DecidableEq

/-- Datagrams are received in the order in which they wait; the operations that send may end in
any. -/
def udpMachine (ctime : Nat → Bytes) (program : UdpProgram) : Machine UdpServer UdpEvent where
  enabled st
    | .arrive _ => True
    | .receive sender => 0 < st.receives ∧ st.queue.head? = some sender
    | .failReceive => 0 < st.receives
    | .handleReceive error _ _ => error ∈ st.received
    | .send s => s ∈ st.sends ∧ s.done = false
    | .failSend s => s ∈ st.sends ∧ s.done = false
    | .handleSend s => s ∈ st.sends ∧ s.done = true
  next st
    | .arrive sender => { st with queue := st.queue ++ [sender] }
    | .receive sender =>
      { st with
        queue := st.queue.tail
        receives := st.receives - 1
        received := st.received ++ [false]
        remoteEndpoint := sender }
    | .failReceive => { st with receives := st.receives - 1, received := st.received ++ [true] }
    | .handleReceive error now ignoredEc =>
      program.handleReceive { st with received := st.received.erase error } error (ctime now)
        ignoredEc
    | .send s =>
      match st.heap.get s.source with
      | none => { st with fault := true }
      | some text =>
        { st with
          sends := st.sends.erase s ++ [{ s with done := true }]
          sent := st.sent ++ [(s.endpoint, text)] }
    | .failSend s =>
      match st.heap.get s.source with
      | none => { st with fault := true }
      | some text =>
        { st with
          sends := st.sends.erase s ++ [{ s with done := true }]
          refused := st.refused ++ [(s.endpoint, text)] }
    | .handleSend s =>
      let st := UdpServer.handleSend { st with sends := st.sends.erase s } s.message
      { st with heap := st.heap.drop s.message }

instance (ctime : Nat → Bytes) (program : UdpProgram) :
    ∀ st e, Decidable ((udpMachine ctime program).enabled st e)
  | _, .arrive _ => inferInstanceAs (Decidable True)
  | _, .receive _ => inferInstanceAs (Decidable (_ ∧ _))
  | _, .failReceive => inferInstanceAs (Decidable (_ < _))
  | _, .handleReceive _ _ _ => inferInstanceAs (Decidable (_ ∈ _))
  | _, .send _ => inferInstanceAs (Decidable (_ ∧ _))
  | _, .failSend _ => inferInstanceAs (Decidable (_ ∧ _))
  | _, .handleSend _ => inferInstanceAs (Decidable (_ ∧ _))

end AsioExamples.Daytime
