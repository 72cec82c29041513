import AsioExamples.Chat.Reader
import AsioExamples.Theory.Machine
import Mathlib.Data.List.Nodup

/-!
`chat_room` and its `chat_session`s. A session is known by an identity from any type; an
event is the start of a session or the completion of an operation it has outstanding. The
buffers given to `async_write` are recorded in the order of the calls.
-/

namespace AsioExamples.Chat

set_option autoImplicit false

/-- `writing` counts the writes outstanding, `handed` is the record of their buffers. -/
structure Session where
  reader : Reader
  writeMsgs : List ChatMessage
  writing : Nat
  handed : List Bytes
deriving DecidableEq

namespace Session

def new (fill : Fill) : Session := ⟨⟨ChatMessage.new fill, none⟩, [], 0, []⟩

def asyncWrite (s : Session) : Session :=
  match s.writeMsgs with
  | [] => s
  | front :: _ => { s with writing := s.writing + 1, handed := s.handed ++ [front.bytes] }

def deliver (s : Session) (msg : ChatMessage) : Session :=
  let writeInProgress := !s.writeMsgs.isEmpty
  let s := { s with writeMsgs := s.writeMsgs ++ [msg] }
  if !writeInProgress then s.asyncWrite else s

/-- `handle_write` without an error; the write is no longer outstanding. -/
def handleWritten (s : Session) : Session :=
  let s := { s with writing := s.writing - 1, writeMsgs := s.writeMsgs.tail }
  if !s.writeMsgs.isEmpty then s.asyncWrite else s

end Session

def maxRecentMsgs : Nat := 100

/-- `while (recent_msgs_.size() > max_recent_msgs) recent_msgs_.pop_front();`. -/
def popRecent : List ChatMessage → List ChatMessage
  | [] => []
  | msg :: rest => if (msg :: rest).length > maxRecentMsgs then popRecent rest else msg :: rest

/-- The set of participants holds each of them once. -/
structure Room (ι : Type) where
  participants : List ι
  recentMsgs : List ChatMessage
  nodup : participants.Nodup

structure ChatState (ι : Type) where
  room : Room ι
  sessions : ι → Session
  started : ι → Bool

section Machine
variable {ι : Type} [DecidableEq ι]

namespace ChatState

def update (st : ChatState ι) (s : ι) (f : Session → Session) : ChatState ι :=
  { st with sessions := Function.update st.sessions s (f (st.sessions s)) }

def join (st : ChatState ι) (s : ι) : ChatState ι :=
  let st := { st with room :=
    { st.room with
      participants := st.room.participants.insert s
      nodup := List.Nodup.insert st.room.nodup } }
  st.room.recentMsgs.foldl (fun st msg => st.update s (·.deliver msg)) st

def leave (st : ChatState ι) (s : ι) : ChatState ι :=
  { st with room :=
    { st.room with
      participants := st.room.participants.erase s
      nodup := List.Nodup.erase s st.room.nodup } }

def deliver (st : ChatState ι) (msg : ChatMessage) : ChatState ι :=
  let st := { st with room :=
    { st.room with recentMsgs := popRecent (st.room.recentMsgs ++ [msg]) } }
  st.room.participants.foldl (fun st p => st.update p (·.deliver msg)) st

def setReader (st : ChatState ι) (s : ι) (r : Reader) : ChatState ι :=
  st.update s fun x => { x with reader := r }

def act (st : ChatState ι) (s : ι) (a : Reader × Action) : ChatState ι :=
  let st := st.setReader s a.1
  match a.2 with
  | .proceed => st
  | .accept msg => st.deliver msg
  | .stop => st.leave s

def start (st : ChatState ι) (s : ι) : ChatState ι :=
  let st := { st with started := Function.update st.started s true }
  let st := st.join s
  st.update s fun x => { x with reader := { x.reader with reading := some .header } }

def handleReadHeader (st : ChatState ι) (s : ι) (transferred : Bytes) (error : Bool) :
    ChatState ι := st.act s ((st.sessions s).reader.handleReadHeader transferred error)

def handleReadBody (st : ChatState ι) (s : ι) (transferred : Bytes) (error : Bool) :
    ChatState ι := st.act s ((st.sessions s).reader.handleReadBody transferred error)

def handleWrite (st : ChatState ι) (s : ι) (error : Bool) : ChatState ι :=
  if !error then st.update s Session.handleWritten
  else (st.update s fun x => { x with writing := x.writing - 1 }).leave s

end ChatState

inductive ChatEvent (ι : Type) where
  | start (s : ι)
  | readHeader (s : ι) (transferred : Bytes) (error : Bool)
  | readBody (s : ι) (transferred : Bytes) (error : Bool)
  | write (s : ι) (error : Bool)
deriving DecidableEq

/-- A session starts once, and a completion is one of an operation outstanding. -/
def chatMachine : Machine (ChatState ι) (ChatEvent ι) where
  enabled st
    | .start s => st.started s = false
    | .readHeader s transferred error =>
      (st.sessions s).reader.reading = some .header ∧ Transferred headerLength transferred error
    | .readBody s transferred error =>
      (st.sessions s).reader.reading = some .body ∧
        Transferred (st.sessions s).reader.readMsg.bodyLength transferred error
    | .write s _ => 0 < (st.sessions s).writing
  next st
    | .start s => st.start s
    | .readHeader s transferred error => st.handleReadHeader s transferred error
    | .readBody s transferred error => st.handleReadBody s transferred error
    | .write s error => st.handleWrite s error

instance : ∀ (st : ChatState ι) (e : ChatEvent ι), Decidable (chatMachine.enabled st e)
  | st, .start s => inferInstanceAs (Decidable (st.started s = false))
  | _, .readHeader .. => inferInstanceAs (Decidable (_ ∧ Transferred ..))
  | _, .readBody .. => inferInstanceAs (Decidable (_ ∧ Transferred ..))
  | st, .write s _ => inferInstanceAs (Decidable (0 < (st.sessions s).writing))

/-- An empty room; every session is new, with an array of its own. -/
def ChatState.init (fills : ι → Fill) : ChatState ι :=
  ⟨⟨[], [], .nil⟩, fun s => Session.new (fills s), fun _ => false⟩

section Effects
variable (st : ChatState ι) (s t : ι)

namespace ChatState

theorem sessions_update (f : Session → Session) :
    (st.update s f).sessions t = if t = s then f (st.sessions t) else st.sessions t := by
  by_cases h : t = s
  · subst t
    simp [update]
  · simp [update, h]

theorem sessions_setReader (r : Reader) :
    (st.setReader s r).sessions t =
      if t = s then { st.sessions t with reader := r } else st.sessions t :=
  st.sessions_update s t _

theorem foldl_update {l : List ι} (hl : l.Nodup) (f : Session → Session) :
    l.foldl (fun st p => st.update p f) st =
      { st with sessions := fun t => if t ∈ l then f (st.sessions t) else st.sessions t } := by
  induction l generalizing st with
  | nil => rfl
  | cons p l ih =>
    obtain ⟨hp, hl⟩ := List.nodup_cons.mp hl
    rw [List.foldl_cons, ih _ hl]
    simp only [update, ChatState.mk.injEq, true_and, and_true]
    funext t
    by_cases ht : t = p
    · subst t
      simp [hp]
    · simp [ht]

theorem foldl_update_self (msgs : List ChatMessage) :
    msgs.foldl (fun st msg => st.update s (·.deliver msg)) st =
      st.update s fun x => msgs.foldl Session.deliver x := by
  induction msgs generalizing st with
  | nil => simp [update]
  | cons msg msgs ih =>
    rw [List.foldl_cons, ih]
    simp [update]

theorem deliver_eq (msg : ChatMessage) :
    st.deliver msg =
      { st with
        room := { st.room with recentMsgs := popRecent (st.room.recentMsgs ++ [msg]) }
        sessions := fun t =>
          if t ∈ st.room.participants then (st.sessions t).deliver msg else st.sessions t } :=
  foldl_update _ st.room.nodup _

end ChatState

end Effects

end Machine

end AsioExamples.Chat
