import AsioExamples.Chat.Client
import AsioExamples.Chat.Delivery
import AsioExamples.Theory.Pipe

/-!
A chat room with a `chat_client` behind each of its sessions, and the connections between them.
The bytes of a message go over when the socket takes them and come in when a read of the other
side does, in pieces of any length; an operation may fail at any time.
-/

namespace AsioExamples.Chat

set_option autoImplicit false

/-- The bytes that a read put into its buffer. -/
def ChatEvent.transferred {ι : Type} : ChatEvent ι → Bytes
  | .start _ => []
  | .readHeader _ transferred _ => transferred
  | .readBody _ transferred _ => transferred
  | .write _ _ => []

def ClientEvent.transferred : ClientEvent → Bytes
  | .readHeader transferred _ => transferred
  | .readBody transferred _ => transferred
  | _ => []

/-- The messages of which the client has begun the `async_write`. -/
def ChatClient.begun (c : ChatClient) : List Bytes :=
  c.written ++ (c.writeMsgs.head?.map ChatMessage.bytes).toList

/-- What there is before a run: the arrays of the messages and what is typed at the clients. -/
structure Peers (ι : Type) where
  sessionFill : ι → Fill
  clientFill : ι → Fill
  lineFill : ι → Nat → Fill
  text : ι → Bytes

/-- `up` is the connection from the client to the room, `down` the one back. -/
structure Network (ι : Type) where
  room : ChatState ι
  clients : ι → ClientState
  up : ι → Pipe UInt8
  down : ι → Pipe UInt8

inductive NetworkEvent (ι : Type) where
  | room (e : ChatEvent ι)
  | client (s : ι) (e : ClientEvent)
  | sendUp (s : ι) (piece : Bytes)
  | sendDown (s : ι) (piece : Bytes)
deriving DecidableEq

def Network.init {ι : Type} (peers : Peers ι) : Network ι where
  room := ChatState.init peers.sessionFill
  clients s := ClientState.init (peers.clientFill s) (mainCalls (peers.lineFill s) (peers.text s))
  up _ := Pipe.empty
  down _ := Pipe.empty

section Machine
variable {ι : Type}

def NetworkEvent.inRoom : NetworkEvent ι → Option (ChatEvent ι)
  | .room e => some e
  | _ => none

/-- The events of the room alone. -/
def roomTrace (trace : List (NetworkEvent ι)) : List (ChatEvent ι) :=
  trace.filterMap NetworkEvent.inRoom

theorem roomTrace_concat (trace : List (NetworkEvent ι)) (e : NetworkEvent ι) :
    roomTrace (trace ++ [e]) = roomTrace trace ++ e.inRoom.toList := filterMap_concat _ trace e

variable [DecidableEq ι]

/-- A read gets what is on its way, and a write is over without an error when its socket has
taken the last byte. -/
def networkMachine : Machine (Network ι) (NetworkEvent ι) where
  enabled st
    | .room e =>
      chatMachine.enabled st.room e ∧ e.transferred <+: (st.up e.actor).waiting ∧
        (e = .write e.actor false →
          (st.down e.actor).sent = (st.room.sessions e.actor).handed.flatten)
    | .client s e =>
      (clientMachine true).enabled (st.clients s) e ∧ e.transferred <+: (st.down s).waiting ∧
        (e = .sent → (st.up s).sent = (st.clients s).client.begun.flatten)
    | .sendUp s piece =>
      (st.clients s).client.isOpen = true ∧ (st.clients s).client.writing = some .pending ∧
        (st.up s).sent ++ piece <+: (st.clients s).client.begun.flatten
    | .sendDown s piece =>
      0 < (st.room.sessions s).writing ∧
        (st.down s).sent ++ piece <+: (st.room.sessions s).handed.flatten
  next st
    | .room e =>
      { st with
        room := chatMachine.next st.room e
        up := Function.update st.up e.actor ((st.up e.actor).receive e.transferred.length) }
    | .client s e =>
      { st with
        clients := Function.update st.clients s ((clientMachine true).next (st.clients s) e)
        down := Function.update st.down s ((st.down s).receive e.transferred.length) }
    | .sendUp s piece => { st with up := Function.update st.up s ((st.up s).send piece) }
    | .sendDown s piece => { st with down := Function.update st.down s ((st.down s).send piece) }

instance : ∀ (st : Network ι) (e : NetworkEvent ι), Decidable (networkMachine.enabled st e)
  | _, .room _ => inferInstanceAs (Decidable (_ ∧ _ ∧ (_ → _)))
  | _, .client _ _ => inferInstanceAs (Decidable (_ ∧ _ ∧ (_ → _)))
  | _, .sendUp _ _ => inferInstanceAs (Decidable (_ ∧ _ ∧ _))
  | _, .sendDown _ _ => inferInstanceAs (Decidable (_ ∧ _))

def NetworkEvent.atClient (s : ι) : NetworkEvent ι → Option ClientEvent
  | .client t e => if t = s then some e else none
  | _ => none

variable {init st : Network ι} {trace : List (NetworkEvent ι)}

/-- In a network the room runs as it does by itself. -/
theorem room_run (h : networkMachine.Run init trace st) :
    chatMachine.Run init.room (roomTrace trace) st.room := by
  apply h.project
  · intro _ st e _ _ hnone
    cases e with
    | room e => cases hnone
    | client s e => rfl
    | sendUp s piece => rfl
    | sendDown s piece => rfl
  · intro _ st e e' _ he hsome
    cases e with
    | room e =>
      obtain rfl := Option.some.inj hsome
      exact ⟨he.1, rfl⟩
    | client s e => cases hsome
    | sendUp s piece => cases hsome
    | sendDown s piece => cases hsome

/-- And so does every client. -/
theorem client_run (s : ι) (h : networkMachine.Run init trace st) :
    (clientMachine true).Run (init.clients s) (trace.filterMap (NetworkEvent.atClient s))
      (st.clients s) := by
  apply h.project (f := fun st => st.clients s)
  · intro _ st e _ _ hnone
    cases e with
    | room e => rfl
    | client t e =>
      by_cases hts : t = s
      · simp [NetworkEvent.atClient, hts] at hnone
      · exact Function.update_of_ne (Ne.symm hts) _ _
    | sendUp t piece => rfl
    | sendDown t piece => rfl
  · intro _ st e e' _ he hsome
    cases e with
    | room e => cases hsome
    | client t e =>
      by_cases hts : t = s
      · subst hts
        obtain rfl : e = e' := by simpa [NetworkEvent.atClient] using hsome
        exact ⟨he.1, Function.update_self _ _ _⟩
      · simp [NetworkEvent.atClient, hts] at hsome
    | sendUp t piece => cases hsome
    | sendDown t piece => cases hsome

end Machine

end AsioExamples.Chat
