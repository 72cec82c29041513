import AsioExamples.Http.ClientProcess
import AsioExamples.Http.Server.PeerSteps
import AsioExamples.Theory.Pipe

/-!
The first server and an asynchronous client at each of its connections. Bytes go over in pieces
of any length while a write is outstanding; an operation may fail at any time.
-/

namespace AsioExamples.Http

set_option autoImplicit false

open Server (ServerState ServerEvent serverMachine)

/-- What there is before a run. The words of the end of the stream are those of the library. -/
structure Site where
  docRoot : Bytes
  files : Bytes → Option Bytes
  eof : Bytes
  fills : Nat → Buffer × Nat
  server : Nat → Bytes
  path : Nat → Bytes

/-- `up` is the connection from a client to the server, `down` the one back. -/
structure Network where
  server : ServerState
  clients : Nat → ClientProcess
  up : Nat → Pipe UInt8
  down : Nat → Pipe UInt8

inductive NetworkEvent where
  | server (e : ServerEvent)
  | client (c : Nat) (e : ClientEvent)
  | sendUp (c : Nat) (piece : Bytes)
  | sendDown (c : Nat) (buffers : List Bytes) (piece : Bytes)
deriving DecidableEq

namespace Network

def init (site : Site) : Network where
  server := .init site.fills
  clients c := ClientProcess.new (site.server c) (site.path c)
  up _ := Pipe.empty
  down _ := Pipe.empty

/-- A read of the server gets what is on its way, and a write is over without an error when its
socket has taken the last byte. -/
def ServerMay (st : Network) : ServerEvent → Prop
  | .completed c .read _ transferred => transferred <+: (st.up c).waiting
  | .completed c (.write buffers) .success _ => (st.down c).sent = buffers.flatten
  | _ => True

/-- The same for a client. Its stream ends when the server has closed its socket. -/
def ClientMay (st : Network) (c : Nat) : ClientEvent → Prop
  | .wroteRequest none => (st.up c).sent = (st.clients c).request
  | .arrived piece => piece <+: (st.down c).waiting
  | .read (some .eof) => (st.down c).waiting = [] ∧ (st.server.peers c).hasStarted = true ∧
      (st.server.peers c).isOpen = false
  | _ => True

instance (st : Network) : ∀ e : ServerEvent, Decidable (st.ServerMay e)
  | .completed _ .read _ _ => inferInstanceAs (Decidable (_ <+: _))
  | .completed _ (.write _) .success _ => inferInstanceAs (Decidable (_ = _))
  | .completed _ (.write _) .operationAborted _ => .isTrue trivial
  | .completed _ (.write _) .other _ => .isTrue trivial
  | .accepted .. => .isTrue trivial
  | .handleAccept .. => .isTrue trivial
  | .handle .. => .isTrue trivial
  | .handleStop => .isTrue trivial

instance (st : Network) (c : Nat) : ∀ e : ClientEvent, Decidable (st.ClientMay c e)
  | .wroteRequest none => inferInstanceAs (Decidable (_ = _))
  | .arrived _ => inferInstanceAs (Decidable (_ <+: _))
  | .read (some .eof) => inferInstanceAs (Decidable (_ ∧ _ ∧ _))
  | .resolved _ => .isTrue trivial
  | .connected _ => .isTrue trivial
  | .wroteRequest (some _) => .isTrue trivial
  | .read none => .isTrue trivial
  | .read (some (.other _)) => .isTrue trivial

/-- What an event of the server takes out of a connection. -/
def afterServer (up : Nat → Pipe UInt8) : ServerEvent → Nat → Pipe UInt8
  | .completed c .read _ transferred =>
    Function.update up c ((up c).receive transferred.length)
  | _ => up

def afterClient (down : Nat → Pipe UInt8) (c : Nat) : ClientEvent → Nat → Pipe UInt8
  | .arrived piece => Function.update down c ((down c).receive piece.length)
  | _ => down

end Network

section Machine
variable (site : Site)

def networkMachine : Machine Network NetworkEvent where
  enabled st
    | .server e => (serverMachine site.docRoot site.files).enabled st.server e ∧ st.ServerMay e
    | .client c e => (clientMachine site.eof).enabled (st.clients c) e ∧ st.ClientMay c e
    | .sendUp c piece => (st.clients c).stage = .writeRequest ∧
        (st.up c).sent ++ piece <+: (st.clients c).request
    | .sendDown c buffers piece => ⟨.write buffers, none⟩ ∈ (st.server.peers c).outstanding ∧
        (st.down c).sent ++ piece <+: buffers.flatten
  next st
    | .server e =>
      { st with
        server := (serverMachine site.docRoot site.files).next st.server e
        up := Network.afterServer st.up e }
    | .client c e =>
      { st with
        clients := Function.update st.clients c ((clientMachine site.eof).next (st.clients c) e)
        down := Network.afterClient st.down c e }
    | .sendUp c piece => { st with up := Function.update st.up c ((st.up c).send piece) }
    | .sendDown c _ piece => { st with down := Function.update st.down c ((st.down c).send piece) }

instance : ∀ (st : Network) (e : NetworkEvent), Decidable ((networkMachine site).enabled st e)
  | _, .server _ => inferInstanceAs (Decidable (_ ∧ Network.ServerMay _ _))
  | _, .client _ _ => inferInstanceAs (Decidable (_ ∧ Network.ClientMay _ _ _))
  | _, .sendUp _ _ => inferInstanceAs (Decidable (_ ∧ _))
  | _, .sendDown _ _ _ => inferInstanceAs (Decidable (_ ∧ _))

def NetworkEvent.atServer : NetworkEvent → Option ServerEvent
  | .server e => some e
  | _ => none

/-- The events of the server alone. -/
def serverTrace (trace : List NetworkEvent) : List ServerEvent :=
  trace.filterMap NetworkEvent.atServer

variable {site} {init st : Network} {trace : List NetworkEvent}

theorem serverTrace_concat (trace : List NetworkEvent) (e : NetworkEvent) :
    serverTrace (trace ++ [e]) = serverTrace trace ++ e.atServer.toList :=
  filterMap_concat _ trace e

/-- In a network the server runs as it does by itself. -/
theorem server_run (h : (networkMachine site).Run init trace st) :
    (serverMachine site.docRoot site.files).Run init.server (serverTrace trace) st.server := by
  apply h.project
  · intro _ st e _ _ hnone
    cases e with
    | server e => cases hnone
    | client c e => rfl
    | sendUp c piece => rfl
    | sendDown c buffers piece => rfl
  · intro _ st e e' _ he hsome
    cases e with
    | server e =>
      obtain rfl := Option.some.inj hsome
      exact ⟨he.1, rfl⟩
    | client c e => cases hsome
    | sendUp c piece => cases hsome
    | sendDown c buffers piece => cases hsome

theorem network_lifecycle (h : (networkMachine site).Run (.init site) trace st) :
    Server.Lifecycle site.docRoot site.files site.fills (serverTrace trace) st.server :=
  Server.run_lifecycle (server_run h)

end Machine

end AsioExamples.Http
