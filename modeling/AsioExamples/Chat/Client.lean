import AsioExamples.Chat.Framing
import AsioExamples.Theory.Machine

/-!
`chat_client` and its `main`. The thread of `main` posts a `do_write` for each line and a
`do_close` at the end; the thread that runs the io_context takes what was posted in that order,
between the handlers of the operations on the socket.
-/

namespace AsioExamples.Chat

set_option autoImplicit false

/-- `istream::getline(line, room + 1)`: the characters stored, the input left, and whether the
stream may still be tested as true. The end of the input is looked for first, then the newline,
then the end of the room. -/
def getline (stored : Bytes) : Nat → Bytes → Bytes × Bytes × Bool
  | _, [] => (stored, [], !stored.isEmpty)
  | 0, c :: rest => if c = chr '\n' then (stored, rest, true) else (stored, c :: rest, false)
  | room + 1, c :: rest =>
    if c = chr '\n' then (stored, rest, true) else getline (stored ++ [c]) room rest

/-- The lines for which the body of the loop in `main` is entered; every one but the last uses
up a character, so a fuel above the length of the text is enough. -/
def typedLines : Nat → Bytes → List Bytes
  | 0, _ => []
  | fuel + 1, text =>
    match getline [] maxBodyLength text with
    | (line, rest, true) => line :: typedLines fuel rest
    | (_, _, false) => []

theorem length_getline_le {stored text : Bytes} {room : Nat}
    (h : stored.length + room ≤ maxBodyLength) :
    (getline stored room text).1.length ≤ maxBodyLength := by
  induction text generalizing stored room with
  | nil => exact Nat.le_of_add_right_le h
  | cons c rest ih =>
    cases room with
    | zero =>
      unfold getline
      split <;> exact h
    | succ room =>
      unfold getline
      split
      · exact Nat.le_of_add_right_le h
      · apply ih
        simp only [List.length_append, List.length_singleton]
        omega

theorem length_le_of_mem_typedLines {fuel : Nat} {text line : Bytes}
    (h : line ∈ typedLines fuel text) : line.length ≤ maxBodyLength := by
  induction fuel generalizing text with
  | zero => cases h
  | succ fuel ih =>
    unfold typedLines at h
    have hle : (getline [] maxBodyLength text).1.length ≤ maxBodyLength :=
      length_getline_le (by decide)
    rcases hg : getline [] maxBodyLength text with ⟨l, rest, ok⟩
    rw [hg] at h hle
    cases ok with
    | false => cases h
    | true =>
      rcases List.mem_cons.mp h with rfl | h
      · exact hle
      · exact ih h

theorem getline_rest {stored text line rest : Bytes} {room : Nat}
    (h : getline stored room text = (line, rest, true)) :
    rest.length < text.length ∨ text = [] ∧ stored ≠ [] := by
  induction text generalizing stored room with
  | nil =>
    simp only [getline, Prod.mk.injEq, Bool.not_eq_true', List.isEmpty_eq_false_iff] at h
    exact .inr ⟨rfl, h.2.2⟩
  | cons c text ih =>
    refine .inl ?_
    cases room with
    | zero =>
      unfold getline at h
      split at h
      · obtain ⟨-, rfl, -⟩ := Prod.mk.injEq .. ▸ h
        exact Nat.lt_succ_self _
      · cases h
    | succ room =>
      unfold getline at h
      split at h
      · cases h
        exact Nat.lt_succ_self _
      · rcases ih h with hlt | ⟨rfl, -⟩
        · exact Nat.lt_succ_of_lt hlt
        · obtain rfl : [] = rest := congrArg (fun a => a.2.1) h
          exact Nat.succ_pos _

/-- Any fuel above the length of the text gives the same lines. -/
theorem typedLines_fuel {fuel fuel' : Nat} {text : Bytes} (h : text.length < fuel)
    (h' : text.length < fuel') : typedLines fuel text = typedLines fuel' text := by
  induction fuel generalizing fuel' text with
  | zero => exact absurd h (Nat.not_lt_zero _)
  | succ fuel ih =>
    cases fuel' with
    | zero => exact absurd h' (Nat.not_lt_zero _)
    | succ fuel' =>
      unfold typedLines
      rcases hg : getline [] maxBodyLength text with ⟨line, rest, ok⟩
      cases ok with
      | false => rfl
      | true =>
        have hrest : rest.length < text.length :=
          (getline_rest hg).resolve_right fun hn => hn.2 rfl
        simp only [List.cons.injEq, true_and]
        apply ih
        · omega
        · omega

/-- A call that `main` posts to the io_context. -/
inductive Posted where
  | doWrite (msg : ChatMessage)
  | doClose
deriving DecidableEq

/-- What `main` posts, line by line. `strlen` and `memcpy` see a line up to its first NUL. -/
def mainCalls (fills : Nat → Fill) (text : Bytes) : List Posted :=
  (typedLines (text.length + 1) text).mapIdx
    (fun i line => .doWrite (makeMessage (fills i) (cStr line))) ++ [.doClose]

/-- An `async_write`: under way, or finished with its handler in the queue. -/
inductive WriteOp where
  | pending
  | finished (error : Bool)
deriving DecidableEq

/-- `out` is what was written to `std::cout`, `written` the messages of which the socket has
taken all bytes. -/
structure ChatClient where
  reader : Reader
  writeMsgs : List ChatMessage
  writing : Option WriteOp
  isOpen : Bool
  out : Bytes
  written : List Bytes
deriving DecidableEq

namespace ChatClient

/-- The socket is connected already; `handle_connect` has not run. -/
def new (fill : Fill) : ChatClient := ⟨⟨ChatMessage.new fill, none⟩, [], none, true, [], []⟩

/-- `async_write` of the front message; on a closed socket it fails at once. -/
def asyncWrite (c : ChatClient) : ChatClient :=
  { c with writing := some (if c.isOpen then .pending else .finished true) }

/-- Closing aborts the operation under way, not one whose handler is queued. -/
def doClose (c : ChatClient) : ChatClient :=
  { c with
    isOpen := false
    writing := c.writing.map fun op => if op = .pending then .finished true else op }

def doWrite (c : ChatClient) (msg : ChatMessage) : ChatClient :=
  let writeInProgress := !c.writeMsgs.isEmpty
  let c := { c with writeMsgs := c.writeMsgs ++ [msg] }
  if !writeInProgress then c.asyncWrite else c

def handleWrite (c : ChatClient) (error : Bool) : ChatClient :=
  let c := { c with writing := none }
  if !error then
    let c := { c with writeMsgs := c.writeMsgs.tail }
    if !c.writeMsgs.isEmpty then c.asyncWrite else c
  else c.doClose

def handleConnect (c : ChatClient) (error : Bool) : ChatClient :=
  if !error then { c with reader := { c.reader with reading := some .header } } else c

def act (c : ChatClient) (a : Reader × Action) : ChatClient :=
  let c := { c with reader := a.1 }
  match a.2 with
  | .proceed => c
  | .accept msg => { c with out := c.out ++ msg.body ++ str "\n" }
  | .stop => c.doClose

def handleReadHeader (c : ChatClient) (transferred : Bytes) (error : Bool) : ChatClient :=
  c.act (c.reader.handleReadHeader transferred error)

def handleReadBody (c : ChatClient) (transferred : Bytes) (error : Bool) : ChatClient :=
  c.act (c.reader.handleReadBody transferred error)

/-- The socket has taken the last byte of the front message. -/
def sent (c : ChatClient) : ChatClient :=
  { c with
    writing := some (.finished false)
    written := c.written ++ (c.writeMsgs.head?.map ChatMessage.bytes).toList }

@[simp] theorem isOpen_doWrite (c : ChatClient) (msg : ChatMessage) :
    (c.doWrite msg).isOpen = c.isOpen := by
  unfold doWrite
  simp only
  split <;> rfl

@[simp] theorem isOpen_handleWrite (c : ChatClient) :
    (c.handleWrite false).isOpen = c.isOpen := by
  unfold handleWrite
  simp only [Bool.not_false, if_true]
  split <;> rfl

end ChatClient

/-- The client, the calls that `main` has still to make and those that wait to be run. -/
structure ClientState where
  client : ChatClient
  connecting : Bool
  calls : List Posted
  posted : List Posted
deriving DecidableEq

namespace ClientState

def init (fill : Fill) (calls : List Posted) : ClientState :=
  ⟨ChatClient.new fill, true, calls, []⟩

def call (st : ClientState) : ClientState :=
  { st with calls := st.calls.tail, posted := st.posted ++ st.calls.head?.toList }

def runPosted (st : ClientState) : ClientState :=
  match st.posted with
  | [] => st
  | .doWrite msg :: posted => { st with client := st.client.doWrite msg, posted }
  | .doClose :: posted => { st with client := st.client.doClose, posted }

end ClientState

inductive ClientEvent where
  | connect (error : Bool)
  | call
  | runPosted
  | sent
  | fail
  | write (error : Bool)
  | readHeader (transferred : Bytes) (error : Bool)
  | readBody (transferred : Bytes) (error : Bool)
deriving DecidableEq

/-- With `faults` the transport may fail; without, an operation ends in an error only because
the socket was closed. -/
def clientMachine (faults : Bool) : Machine ClientState ClientEvent where
  enabled st
    | .connect error =>
      st.connecting = true ∧ (error = true → faults = true ∨ st.client.isOpen = false)
    | .call => st.calls ≠ []
    | .runPosted => st.posted ≠ []
    | .sent => st.client.isOpen = true ∧ st.client.writing = some .pending
    | .fail => faults = true ∧ st.client.writing = some .pending
    | .write error => st.client.writing = some (.finished error)
    | .readHeader transferred error =>
      st.client.reader.reading = some .header ∧ Transferred headerLength transferred error ∧
        (error = true → faults = true ∨ st.client.isOpen = false)
    | .readBody transferred error =>
      st.client.reader.reading = some .body ∧
        Transferred st.client.reader.readMsg.bodyLength transferred error ∧
        (error = true → faults = true ∨ st.client.isOpen = false)
  next st
    | .connect error => { st with client := st.client.handleConnect error, connecting := false }
    | .call => st.call
    | .runPosted => st.runPosted
    | .sent => { st with client := st.client.sent }
    | .fail => { st with client := { st.client with writing := some (.finished true) } }
    | .write error => { st with client := st.client.handleWrite error }
    | .readHeader transferred error =>
      { st with client := st.client.handleReadHeader transferred error }
    | .readBody transferred error =>
      { st with client := st.client.handleReadBody transferred error }

instance (faults : Bool) :
    ∀ (st : ClientState) (e : ClientEvent), Decidable ((clientMachine faults).enabled st e)
  | _, .connect _ => inferInstanceAs (Decidable (_ ∧ (_ → _)))
  | st, .call => inferInstanceAs (Decidable (st.calls ≠ []))
  | st, .runPosted => inferInstanceAs (Decidable (st.posted ≠ []))
  | _, .sent => inferInstanceAs (Decidable (_ ∧ _))
  | _, .fail => inferInstanceAs (Decidable (_ ∧ _))
  | st, .write error => inferInstanceAs (Decidable (st.client.writing = some (.finished error)))
  | _, .readHeader .. => inferInstanceAs (Decidable (_ ∧ Transferred .. ∧ (_ → _)))
  | _, .readBody .. => inferInstanceAs (Decidable (_ ∧ Transferred .. ∧ (_ → _)))

end AsioExamples.Chat
