import AsioExamples.Chat.Room
import AsioExamples.Chat.Client
import AsioExamples.Chat.PosixClient

/-!
# No access outside a message

A `ChatMessage` cannot hold a length above the maximum. `RawMessage` can: the member functions
are written for it once more, without the bound, and keep it. What remains are the ranges that
the programs hand to reads, writes and copies.
-/

namespace AsioExamples.Chat

set_option autoImplicit false

structure RawMessage where
  data : Bytes
  bodyLength : Nat
deriving DecidableEq

namespace RawMessage

def new (fill : Fill) : RawMessage := ⟨fill.data, 0⟩

def setBodyLength (m : RawMessage) (newLength : Nat) : RawMessage :=
  let m := { m with bodyLength := newLength }
  if m.bodyLength > maxBodyLength then { m with bodyLength := maxBodyLength } else m

def decodeHeader (m : RawMessage) : Bool × RawMessage :=
  let m := { m with bodyLength := headerValue m.data }
  if m.bodyLength > maxBodyLength then (false, { m with bodyLength := 0 }) else (true, m)

def store (m : RawMessage) (offset : Nat) (bytes : Bytes) : RawMessage :=
  { m with data := writeAt m.data offset bytes }

def encodeHeader (m : RawMessage) : RawMessage :=
  m.store 0 ((padded m.bodyLength).take headerLength)

inductive Call where
  | setBodyLength (newLength : Nat)
  | decodeHeader
  | encodeHeader
  | store (offset : Nat) (bytes : Bytes)
deriving DecidableEq

def call (m : RawMessage) : Call → RawMessage
  | .setBodyLength newLength => m.setBodyLength newLength
  | .decodeHeader => m.decodeHeader.2
  | .encodeHeader => m.encodeHeader
  | .store offset bytes => m.store offset bytes

theorem bodyLength_of_refused {m : RawMessage} (h : m.decodeHeader.1 = false) :
    m.decodeHeader.2.bodyLength = 0 := by
  unfold decodeHeader at h ⊢
  by_cases hlt : headerValue m.data > maxBodyLength
  · simp only [if_pos hlt]
  · simp only [if_neg hlt] at h
    cases h

theorem bodyLength_call_le {m : RawMessage} (h : m.bodyLength ≤ maxBodyLength) (c : Call) :
    (m.call c).bodyLength ≤ maxBodyLength := by
  cases c with
  | setBodyLength newLength =>
    simp only [call, setBodyLength]
    split
    · exact Nat.le_refl _
    · exact Nat.le_of_not_gt ‹_›
  | decodeHeader =>
    simp only [call, decodeHeader]
    split
    · exact Nat.zero_le _
    · exact Nat.le_of_not_gt ‹_›
  | encodeHeader => exact h
  | store offset bytes => exact h

theorem bodyLength_le (fill : Fill) (calls : List Call) :
    (calls.foldl call (new fill)).bodyLength ≤ maxBodyLength := by
  induction calls using List.reverseRecOn with
  | nil => exact Nat.zero_le _
  | append_singleton calls c ih =>
    rw [List.foldl_append]
    exact bodyLength_call_le ih c

end RawMessage

namespace ChatMessage

def raw (m : ChatMessage) : RawMessage := ⟨m.data, m.bodyLength⟩

theorem raw_operations (m : ChatMessage) :
    (∀ newLength, (m.setBodyLength newLength).raw = m.raw.setBodyLength newLength) ∧
      (m.decodeHeader.1, m.decodeHeader.2.raw) = m.raw.decodeHeader ∧
      m.encodeHeader.raw = m.raw.encodeHeader ∧
      (∀ bytes, (m.storeHeader bytes).raw = m.raw.store 0 bytes) ∧
      ∀ bytes, (m.storeBody bytes).raw = m.raw.store headerLength bytes := by
  refine ⟨fun newLength => ?_, ?_, rfl, fun _ => rfl, fun _ => rfl⟩
  · unfold raw setBodyLength RawMessage.setBodyLength
    split <;> simp [*]
  · by_cases h : headerValue m.data > maxBodyLength
    · simp [raw, decodeHeader, RawMessage.decodeHeader, h]
    · simp [raw, decodeHeader, RawMessage.decodeHeader, h]

end ChatMessage

def Range.Within (r : Range) : Prop := r.offset + r.count ≤ headerLength + maxBodyLength

instance (r : Range) : Decidable r.Within := inferInstanceAs (Decidable (_ ≤ _))

namespace ChatMessage

/-- `buffer(data(), header_length)`. -/
def headerRange : Range := ⟨0, headerLength⟩

/-- `buffer(body(), body_length())`. -/
def bodyRange (m : ChatMessage) : Range := ⟨headerLength, m.bodyLength⟩

/-- `buffer(data(), length())`. -/
def range (m : ChatMessage) : Range := ⟨0, m.length⟩

theorem headerRange_within : headerRange.Within := by decide

theorem bodyRange_within (m : ChatMessage) : m.bodyRange.Within :=
  Nat.add_le_add_left m.bodyLength_le headerLength

theorem range_within (m : ChatMessage) : m.range.Within := by
  unfold range Range.Within length
  rw [Nat.zero_add]
  exact Nat.add_le_add_left m.bodyLength_le headerLength

end ChatMessage

section Ranges

def Reader.ranges (r : Reader) : List Range :=
  match r.reading with
  | none => []
  | some .header => [ChatMessage.headerRange]
  | some .body => [r.readMsg.bodyRange]

/-- The buffers of the outstanding operations of a session. -/
def Session.ranges (x : Session) : List Range :=
  x.reader.ranges ++
    if 0 < x.writing then (x.writeMsgs.head?.map ChatMessage.range).toList else []

def ChatClient.ranges (c : ChatClient) : List Range :=
  c.reader.ranges ++
    if c.writing.isSome then (c.writeMsgs.head?.map ChatMessage.range).toList else []

def PosixClient.ranges (c : PosixClient) : List Range :=
  (match c.receiving with
    | none => []
    | some .header => [ChatMessage.headerRange]
    | some .body | some .output => [c.readMsg.bodyRange]) ++
    if c.writing then [c.writeMsg.range] else []

/-- The target of the `memcpy` in `main` of the client. -/
def mainCopy (fill : Fill) (line : Bytes) : Range :=
  ((ChatMessage.new fill).setBodyLength line.length).bodyRange

theorem Reader.ranges_within {r : Reader} {x : Range} (h : x ∈ r.ranges) : x.Within := by
  unfold Reader.ranges at h
  split at h
  · cases h
  · rw [List.mem_singleton.mp h]
    exact ChatMessage.headerRange_within
  · rw [List.mem_singleton.mp h]
    exact r.readMsg.bodyRange_within

theorem front_within {msgs : List ChatMessage} {b : Bool} {x : Range}
    (h : x ∈ if b = true then (msgs.head?.map ChatMessage.range).toList else []) : x.Within := by
  split at h
  · obtain ⟨msg, -, rfl⟩ := Option.map_eq_some_iff.mp (Option.mem_toList.mp h)
    exact msg.range_within
  · cases h

theorem Session.ranges_within {s : Session} {x : Range} (h : x ∈ s.ranges) : x.Within := by
  rcases List.mem_append.mp h with h | h
  · exact Reader.ranges_within h
  · exact front_within (b := decide (0 < s.writing)) (by simpa using h)

theorem ChatClient.ranges_within {c : ChatClient} {x : Range} (h : x ∈ c.ranges) : x.Within := by
  rcases List.mem_append.mp h with h | h
  · exact Reader.ranges_within h
  · exact front_within h

theorem PosixClient.ranges_within {c : PosixClient} {x : Range} (h : x ∈ c.ranges) :
    x.Within := by
  rcases List.mem_append.mp h with h | h
  · split at h
    · cases h
    · rw [List.mem_singleton.mp h]
      exact ChatMessage.headerRange_within
    · rw [List.mem_singleton.mp h]
      exact c.readMsg.bodyRange_within
    · rw [List.mem_singleton.mp h]
      exact c.readMsg.bodyRange_within
  · split at h
    · rw [List.mem_singleton.mp h]
      exact c.writeMsg.range_within
    · cases h

end Ranges

section Input

/-- The copies of the past were in range, and so will be the next one, as the streambuf holds
no more than a body. -/
structure PosixClient.Safe (c : PosixClient) : Prop where
  input : c.inputBuffer.length ≤ maxBodyLength
  copies : ∀ r ∈ c.copies, r.Within

theorem PosixClient.Safe.congr {c c' : PosixClient} (h : c.Safe)
    (hinput : c'.inputBuffer = c.inputBuffer) (hcopies : c'.copies = c.copies) : c'.Safe := by
  refine ⟨?_, ?_⟩
  · rw [hinput]
    exact h.input
  · rw [hcopies]
    exact h.copies

theorem lineLength_le {input : Bytes} (h : chr '\n' ∈ input) :
    lineLength input ≤ input.length := by
  unfold lineLength
  have hstart := List.takeWhile_prefix (p := (· != chr '\n')) (l := input)
  rcases Nat.lt_or_ge (input.takeWhile (· != chr '\n')).length input.length with hlt | hge
  · exact hlt
  · have heq := hstart.eq_of_length (Nat.le_antisymm hstart.length_le hge)
    have := List.takeWhile_eq_self_iff.mp heq (chr '\n') h
    simp at this

theorem PosixClient.Safe.copied {c c' : PosixClient} {count : Nat} (h : c.Safe)
    (hcount : count ≤ maxBodyLength) (hinput : c'.inputBuffer.length ≤ c.inputBuffer.length)
    (hcopies : c'.copies = c.copies ++ [⟨headerLength, count⟩]) : c'.Safe := by
  refine ⟨Nat.le_trans hinput h.input, ?_⟩
  rw [hcopies, List.forall_mem_append, List.forall_mem_singleton]
  exact ⟨h.copies, Nat.add_le_add_left hcount headerLength⟩

theorem posix_safe_next {faults : Bool} {st : PosixState} {e : PosixEvent}
    (h : st.client.Safe) (he : (posixMachine faults).enabled st e) :
    ((posixMachine faults).next st e).client.Safe := by
  cases e with
  | connect error =>
    cases error with
    | true => exact h
    | false => exact h.congr rfl rfl
  | readHeader transferred error =>
    obtain ⟨hinput, hcopies, -⟩ := st.client.handleReadHeader_spec transferred error
    exact h.congr hinput hcopies
  | readBody transferred error =>
    cases error with
    | true => exact h.congr rfl rfl
    | false => exact h.congr rfl rfl
  | writeOutput written error =>
    cases error with
    | true => exact h.congr rfl rfl
    | false => exact h.congr rfl rfl
  | typed piece =>
    obtain ⟨-, -, -, -, hle⟩ := he
    refine ⟨?_, h.copies⟩
    rw [← List.length_append] at hle
    exact hle
  | readInput error =>
    cases error with
    | none =>
      obtain ⟨-, hline⟩ := he
      have hle := Nat.le_trans (lineLength_le hline) h.input
      refine h.copied (Nat.le_trans (Nat.sub_le _ 1) hle) ?_ rfl
      change (((st.client.inputBuffer).drop _).drop 1).length ≤ _
      simp only [List.length_drop]
      omega
    | notFound =>
      refine h.copied h.input ?_ rfl
      change ((st.client.inputBuffer).drop _).length ≤ _
      simp
    | other => exact h.congr rfl rfl
  | write error =>
    cases error with
    | true => exact h.congr rfl rfl
    | false => exact h.congr rfl rfl

end Input

/-- All messages hold a length up to the maximum and all ranges are inside an array. -/
def InBounds (msgs : List ChatMessage) (ranges : List Range) : Prop :=
  (∀ m ∈ msgs, m.raw.bodyLength ≤ maxBodyLength) ∧ ∀ r ∈ ranges, r.Within

theorem inBounds {msgs : List ChatMessage} {ranges : List Range}
    (h : ∀ r ∈ ranges, r.Within) : InBounds msgs ranges :=
  ⟨fun m _ => m.bodyLength_le, h⟩

/-- Whatever is done to a message and whatever header it is given, its length stays up to the
maximum, and a refused header leaves 0; this is what the programs do to theirs. In every state
that the server and the two clients reach, all buffers of outstanding operations and all targets
of copies are inside the array of a message, and a line typed for the first client fits the array
it is read into. -/
theorem buffers_in_bounds :
    (∀ (fill : Fill) (calls : List RawMessage.Call),
      let m := calls.foldl RawMessage.call (RawMessage.new fill)
      m.bodyLength ≤ maxBodyLength ∧
        (m.decodeHeader.1 = false → m.decodeHeader.2.bodyLength = 0)) ∧
    (∀ m : ChatMessage,
      (∀ newLength, (m.setBodyLength newLength).raw = m.raw.setBodyLength newLength) ∧
        (m.decodeHeader.1, m.decodeHeader.2.raw) = m.raw.decodeHeader ∧
        m.encodeHeader.raw = m.raw.encodeHeader ∧
        (∀ bytes, (m.storeHeader bytes).raw = m.raw.store 0 bytes) ∧
        ∀ bytes, (m.storeBody bytes).raw = m.raw.store headerLength bytes) ∧
    (∀ (ι : Type) [DecidableEq ι] (fills : ι → Fill) (trace : List (ChatEvent ι))
      (st : ChatState ι), chatMachine.Run (ChatState.init fills) trace st →
      ∀ s, InBounds ((st.sessions s).reader.readMsg :: (st.sessions s).writeMsgs ++
        st.room.recentMsgs) (st.sessions s).ranges) ∧
    (∀ (faults : Bool) (fill : Fill) (fills : Nat → Fill) (text : Bytes)
      (trace : List ClientEvent) (st : ClientState),
      (clientMachine faults).Run (ClientState.init fill (mainCalls fills text)) trace st →
      InBounds (st.client.reader.readMsg :: st.client.writeMsgs) st.client.ranges) ∧
    (∀ (fill : Fill) (text line : Bytes), line ∈ typedLines (text.length + 1) text →
      line.length ≤ maxBodyLength ∧ (mainCopy fill (cStr line)).Within) ∧
    (∀ (faults : Bool) (readFill writeFill : Fill) (trace : List PosixEvent) (st : PosixState),
      (posixMachine faults).Run (PosixState.init readFill writeFill) trace st →
      InBounds [st.client.readMsg, st.client.writeMsg] (st.client.ranges ++ st.client.copies)) ∧
    (∀ (r : Reader) (transferred : Bytes), (r.handleReadHeader transferred false).2 = .stop →
      (r.handleReadHeader transferred false).1.readMsg.bodyLength = 0) ∧
    (∀ (c : PosixClient) (transferred : Bytes),
      (c.handleReadHeader transferred false).receiving = none →
      (c.handleReadHeader transferred false).readMsg.bodyLength = 0) := by
  refine ⟨fun fill calls => ?_, ChatMessage.raw_operations, ?_, ?_, ?_, ?_, ?_, ?_⟩
  · exact ⟨RawMessage.bodyLength_le fill calls, RawMessage.bodyLength_of_refused⟩
  · intro ι _ fills trace st _ s
    exact inBounds fun r => Session.ranges_within
  · intro faults fill fills text trace st _
    exact inBounds fun r => ChatClient.ranges_within
  · intro fill text line hline
    exact ⟨length_le_of_mem_typedLines hline, ChatMessage.bodyRange_within _⟩
  · intro faults readFill writeFill trace st hrun
    have hsafe : st.client.Safe := by
      apply hrun.invariant (I := fun _ st => st.client.Safe)
      · exact ⟨Nat.zero_le _, fun r hr => absurd hr List.not_mem_nil⟩
      · exact fun _ _ _ hi he => posix_safe_next hi he
    refine inBounds fun r hr => ?_
    rcases List.mem_append.mp hr with hr | hr
    · exact PosixClient.ranges_within hr
    · exact hsafe.copies r hr
  · intro r transferred
    exact Reader.bodyLength_of_stop
  · intro c transferred
    exact (c.handleReadHeader_spec transferred false).2.2 rfl

end AsioExamples.Chat
