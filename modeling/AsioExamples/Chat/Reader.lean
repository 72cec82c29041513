import AsioExamples.Chat.Message
import AsioExamples.Theory.ReadLoop

/-!
The reading side of `chat_session` and of `chat_client`, which is the same code but for what
is done with a message and with an error: the session hands the message to the room and
leaves it, the client prints the body and closes its socket.
-/

namespace AsioExamples.Chat

set_option autoImplicit false

inductive ReadOp where
  | header
  | body
deriving DecidableEq, Repr

/-- `read_msg_` and the `async_read` that is outstanding. -/
structure Reader where
  readMsg : ChatMessage
  reading : Option ReadOp
deriving DecidableEq

/-- A read without an error has filled its buffer, and no read fills more. -/
def Transferred (length : Nat) (transferred : Bytes) (error : Bool) : Prop :=
  transferred.length ≤ length ∧ (error = false → transferred.length = length)

instance (length : Nat) (transferred : Bytes) (error : Bool) :
    Decidable (Transferred length transferred error) := inferInstanceAs (Decidable (_ ∧ _))

inductive Action where
  | proceed
  | accept (msg : ChatMessage)
  | stop
deriving DecidableEq

namespace Reader

def awaits (r : Reader) : Option Nat :=
  r.reading.map fun
    | .header => headerLength
    | .body => r.readMsg.bodyLength

/-- `handle_read_header`, with the characters that the read put into the array. -/
def handleReadHeader (r : Reader) (transferred : Bytes) (error : Bool) : Reader × Action :=
  let msg := r.readMsg.storeHeader transferred
  if !error then
    match msg.decodeHeader with
    | (true, msg) => (⟨msg, some .body⟩, .proceed)
    | (false, msg) => (⟨msg, none⟩, .stop)
  else (⟨msg, none⟩, .stop)

/-- `handle_read_body`. The next header is read into the message just handed on. -/
def handleReadBody (r : Reader) (transferred : Bytes) (error : Bool) : Reader × Action :=
  let msg := r.readMsg.storeBody transferred
  if !error then (⟨msg, some .header⟩, .accept msg) else (⟨msg, none⟩, .stop)

def handleRead (r : Reader) (transferred : Bytes) (error : Bool) : Reader × Action :=
  match r.reading with
  | some .header => r.handleReadHeader transferred error
  | some .body => r.handleReadBody transferred error
  | none => (r, .proceed)

theorem handleReadHeader_cases (r : Reader) {transferred : Bytes} (error : Bool)
    (h : error = false → transferred.length = headerLength) :
    (error = false ∧ headerValue transferred ≤ maxBodyLength ∧
        ∃ msg : ChatMessage, r.handleReadHeader transferred error = (⟨msg, some .body⟩, .proceed) ∧
          msg.data.take headerLength = transferred ∧ msg.bodyLength = headerValue transferred) ∨
      ((error = true ∨ maxBodyLength < headerValue transferred) ∧
        ∃ msg, r.handleReadHeader transferred error = (⟨msg, none⟩, .stop)) := by
  cases error with
  | true => exact .inr ⟨.inl rfl, _, rfl⟩
  | false =>
    have hlen := h rfl
    have hdata := ChatMessage.data_storeHeader (m := r.readMsg) hlen
    have htake : (r.readMsg.storeHeader transferred).data.take headerLength = transferred := by
      rw [hdata, List.take_left' hlen]
    have hvalue : headerValue (r.readMsg.storeHeader transferred).data =
        headerValue transferred := by
      unfold headerValue
      rw [htake, List.take_of_length_le (Nat.le_of_eq hlen)]
    obtain ⟨hok, hsame, hbody⟩ := (r.readMsg.storeHeader transferred).decodeHeader_spec
    rw [hvalue] at hok hbody
    rcases hd : (r.readMsg.storeHeader transferred).decodeHeader with ⟨ok, msg⟩
    rw [hd] at hok hsame hbody
    cases ok with
    | true =>
      refine .inl ⟨rfl, hok.mp rfl, msg, by simp [handleReadHeader, hd], ?_, hbody rfl⟩
      rw [show msg.data = _ from hsame, htake]
    | false =>
      refine .inr ⟨.inr (Nat.lt_of_not_ge fun hle => ?_), msg, by simp [handleReadHeader, hd]⟩
      exact Bool.noConfusion (hok.mpr hle)

theorem bodyLength_of_stop {r : Reader} {transferred : Bytes}
    (h : (r.handleReadHeader transferred false).2 = .stop) :
    (r.handleReadHeader transferred false).1.readMsg.bodyLength = 0 := by
  have hrefused := ChatMessage.bodyLength_of_refused (m := r.readMsg.storeHeader transferred)
  rcases hd : (r.readMsg.storeHeader transferred).decodeHeader with ⟨ok, msg⟩
  rw [hd] at hrefused
  cases ok with
  | true => simp [handleReadHeader, hd] at h
  | false => simpa [handleReadHeader, hd] using hrefused

theorem handleReadBody_ok (r : Reader) {transferred : Bytes}
    (h : transferred.length = r.readMsg.bodyLength) :
    ∃ msg : ChatMessage,
      r.handleReadBody transferred false = (⟨msg, some .header⟩, .accept msg) ∧
      msg.body = transferred ∧
      msg.bytes = r.readMsg.data.take headerLength ++ transferred := by
  refine ⟨_, rfl, ChatMessage.body_storeBody h, ?_⟩
  rw [ChatMessage.bytes_eq, ChatMessage.body_storeBody h, ChatMessage.take_data_storeBody]

/-- The reads of a connection on which none fails, with what is put out for a message. -/
def loop {ω : Type} (out : ChatMessage → List ω) : ReadLoop UInt8 Reader ω where
  awaits := awaits
  handle := fun r transferred =>
    match r.handleRead transferred false with
    | (r, .accept msg) => (r, out msg)
    | (r, _) => (r, [])

end Reader

def ChatSession.readLoop : ReadLoop UInt8 Reader ChatMessage := Reader.loop fun msg => [msg]

def ChatClient.readLoop : ReadLoop UInt8 Reader UInt8 :=
  Reader.loop fun msg => msg.body ++ str "\n"

end AsioExamples.Chat
