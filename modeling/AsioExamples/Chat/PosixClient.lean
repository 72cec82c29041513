import AsioExamples.Chat.Reader
import AsioExamples.Theory.Machine

/-!
`posix_chat_client`: it reads lines from its input with `async_read_until` and sends each as a
message, and it prints the messages that the server sends.
-/

namespace AsioExamples.Chat

set_option autoImplicit false

/-- The operation outstanding for `read_msg_`: a read from the socket or the write of its body
to the output. -/
inductive ReceiveOp where
  | header
  | body
  | output
deriving DecidableEq, Repr

/-- How `async_read_until` ends: with a line, with a full buffer without one, or in another
error, of which the end of the input is one. -/
inductive InputError where
  | none
  | notFound
  | other
deriving DecidableEq, Repr

/-- `input_buffer_` is the readable part of a streambuf of at most `max_body_length` bytes. Of
the past are kept what was printed, what was handed to `async_write` for the socket, and the
copies into `write_msg_`. -/
structure PosixClient where
  readMsg : ChatMessage
  receiving : Option ReceiveOp
  writeMsg : ChatMessage
  writing : Bool
  inputBuffer : Bytes
  readingInput : Bool
  isOpen : Bool
  out : Bytes
  handed : List Bytes
  copies : List Range
deriving DecidableEq

namespace PosixClient

def new (readFill writeFill : Fill) : PosixClient :=
  ⟨ChatMessage.new readFill, none, ChatMessage.new writeFill, false, [], false, true, [], [], []⟩

def close (c : PosixClient) : PosixClient := { c with isOpen := false }

def handleConnect (c : PosixClient) (error : Bool) : PosixClient :=
  if !error then { c with receiving := some .header, readingInput := true } else c

def handleReadHeader (c : PosixClient) (transferred : Bytes) (error : Bool) : PosixClient :=
  let c := { c with readMsg := c.readMsg.storeHeader transferred, receiving := none }
  if !error then
    match c.readMsg.decodeHeader with
    | (true, msg) => { c with readMsg := msg, receiving := some .body }
    | (false, msg) => { c with readMsg := msg }.close
  else c.close

/-- A header that was read leaves the side of the input alone; refused, it leaves a length of
0. -/
theorem handleReadHeader_spec (c : PosixClient) (transferred : Bytes) (error : Bool) :
    (c.handleReadHeader transferred error).inputBuffer = c.inputBuffer ∧
      (c.handleReadHeader transferred error).copies = c.copies ∧
      (error = false → (c.handleReadHeader transferred error).receiving = none →
        (c.handleReadHeader transferred error).readMsg.bodyLength = 0) := by
  cases error with
  | true => simp [handleReadHeader, close]
  | false =>
    have hrefused := ChatMessage.bodyLength_of_refused (m := c.readMsg.storeHeader transferred)
    rcases hd : (c.readMsg.storeHeader transferred).decodeHeader with ⟨ok, msg⟩
    rw [hd] at hrefused
    cases ok with
    | true => simp [handleReadHeader, hd]
    | false => simpa [handleReadHeader, hd, close] using hrefused

def handleReadBody (c : PosixClient) (transferred : Bytes) (error : Bool) : PosixClient :=
  let c := { c with readMsg := c.readMsg.storeBody transferred, receiving := none }
  if !error then { c with receiving := some .output } else c.close

def handleWriteOutput (c : PosixClient) (written : Bytes) (error : Bool) : PosixClient :=
  let c := { c with receiving := none, out := c.out ++ written }
  if !error then { c with receiving := some .header } else c.close

/-- `input_buffer_.sgetn(write_msg_.body(), count)`. -/
def sgetn (c : PosixClient) (count : Nat) : PosixClient :=
  { c with
    writeMsg := c.writeMsg.storeBody (c.inputBuffer.take count)
    inputBuffer := c.inputBuffer.drop count
    copies := c.copies ++ [⟨headerLength, count⟩] }

/-- `input_buffer_.consume(count)`. -/
def consume (c : PosixClient) (count : Nat) : PosixClient :=
  { c with inputBuffer := c.inputBuffer.drop count }

/-- `encode_header` and the `async_write` of `write_msg_`. -/
def asyncWrite (c : PosixClient) : PosixClient :=
  { c with
    writeMsg := c.writeMsg.encodeHeader
    writing := true
    handed := c.handed ++ [c.writeMsg.encodeHeader.bytes] }

def handleReadInput (c : PosixClient) (error : InputError) (length : Nat) : PosixClient :=
  let c := { c with readingInput := false }
  match error with
  | .none =>
    let c := { c with writeMsg := c.writeMsg.setBodyLength (length - 1) }
    ((c.sgetn (length - 1)).consume 1).asyncWrite
  | .notFound =>
    let size := c.inputBuffer.length
    let c := { c with writeMsg := c.writeMsg.setBodyLength size }
    (c.sgetn size).asyncWrite
  | .other => c.close

def handleWrite (c : PosixClient) (error : Bool) : PosixClient :=
  let c := { c with writing := false }
  if !error then { c with readingInput := true } else c.close

end PosixClient

structure PosixState where
  client : PosixClient
  connecting : Bool
deriving DecidableEq

def PosixState.init (readFill writeFill : Fill) : PosixState :=
  ⟨PosixClient.new readFill writeFill, true⟩

def lineLength (input : Bytes) : Nat := (input.takeWhile (· != chr '\n')).length + 1

inductive PosixEvent where
  | connect (error : Bool)
  | readHeader (transferred : Bytes) (error : Bool)
  | readBody (transferred : Bytes) (error : Bool)
  | writeOutput (written : Bytes) (error : Bool)
  | typed (piece : Bytes)
  | readInput (error : InputError)
  | write (error : Bool)
deriving DecidableEq

/-- A write without an error has written all of the line, one with an error a part of it. -/
def Written (line written : Bytes) (error : Bool) : Prop :=
  written <+: line ∧ (error = false → written = line)

instance (line written : Bytes) (error : Bool) : Decidable (Written line written error) :=
  inferInstanceAs (Decidable (_ ∧ _))

/-- `async_read_until` looks for a newline in the buffer, then whether the buffer is full, and
only then reads some more, as much as there is room for. With `faults` operations may fail on
an open client too. -/
def posixMachine (faults : Bool) : Machine PosixState PosixEvent where
  enabled st
    | .connect error =>
      st.connecting = true ∧ (error = true → faults = true ∨ st.client.isOpen = false)
    | .readHeader transferred error =>
      st.client.receiving = some .header ∧ Transferred headerLength transferred error ∧
        (error = true → faults = true ∨ st.client.isOpen = false)
    | .readBody transferred error =>
      st.client.receiving = some .body ∧
        Transferred st.client.readMsg.bodyLength transferred error ∧
        (error = true → faults = true ∨ st.client.isOpen = false)
    | .writeOutput written error =>
      st.client.receiving = some .output ∧
        Written (st.client.readMsg.body ++ str "\n") written error ∧
        (error = true → faults = true ∨ st.client.isOpen = false)
    | .typed piece =>
      st.client.readingInput = true ∧ st.client.isOpen = true ∧
        chr '\n' ∉ st.client.inputBuffer ∧ piece ≠ [] ∧
        st.client.inputBuffer.length + piece.length ≤ maxBodyLength
    | .readInput .none =>
      st.client.readingInput = true ∧ chr '\n' ∈ st.client.inputBuffer
    | .readInput .notFound =>
      st.client.readingInput = true ∧ chr '\n' ∉ st.client.inputBuffer ∧
        st.client.inputBuffer.length = maxBodyLength
    | .readInput .other =>
      st.client.readingInput = true ∧ (faults = true ∨ st.client.isOpen = false ∨
        chr '\n' ∉ st.client.inputBuffer ∧ st.client.inputBuffer.length < maxBodyLength)
    | .write error =>
      st.client.writing = true ∧ (error = true → faults = true ∨ st.client.isOpen = false)
  next st
    | .connect error => { st with client := st.client.handleConnect error, connecting := false }
    | .readHeader transferred error =>
      { st with client := st.client.handleReadHeader transferred error }
    | .readBody transferred error =>
      { st with client := st.client.handleReadBody transferred error }
    | .writeOutput written error =>
      { st with client := st.client.handleWriteOutput written error }
    | .typed piece =>
      { st with client := { st.client with inputBuffer := st.client.inputBuffer ++ piece } }
    | .readInput error =>
      { st with client := st.client.handleReadInput error (lineLength st.client.inputBuffer) }
    | .write error => { st with client := st.client.handleWrite error }

instance (faults : Bool) :
    ∀ (st : PosixState) (e : PosixEvent), Decidable ((posixMachine faults).enabled st e)
  | _, .connect _ => inferInstanceAs (Decidable (_ ∧ (_ → _)))
  | _, .readHeader .. => inferInstanceAs (Decidable (_ ∧ Transferred .. ∧ (_ → _)))
  | _, .readBody .. => inferInstanceAs (Decidable (_ ∧ Transferred .. ∧ (_ → _)))
  | _, .writeOutput .. => inferInstanceAs (Decidable (_ ∧ Written .. ∧ (_ → _)))
  | _, .typed _ => inferInstanceAs (Decidable (_ ∧ _ ∧ _ ∧ _ ∧ _))
  | _, .readInput .none => inferInstanceAs (Decidable (_ ∧ _))
  | _, .readInput .notFound => inferInstanceAs (Decidable (_ ∧ _ ∧ _))
  | _, .readInput .other => inferInstanceAs (Decidable (_ ∧ (_ ∨ _ ∨ _ ∧ _)))
  | _, .write _ => inferInstanceAs (Decidable (_ ∧ (_ → _)))

end AsioExamples.Chat
