import AsioExamples.Bytes
import AsioExamples.Theory.Decimal
import Mathlib.Algebra.Group.Int.Defs

/-! `chat_message`: a header of four characters that says how long the body is, and the body,
in one array. -/

namespace AsioExamples.Chat

set_option autoImplicit false

def headerLength : Nat := 4

def maxBodyLength : Nat := 512

/-- A stretch of the array of a message, from an offset on: a buffer or the target of a copy. -/
structure Range where
  offset : Nat
  count : Nat
deriving DecidableEq, Repr

/-- `std::atoi`, with which the header is read: blanks, a sign and the longest run of digits,
0 if there is none. Four characters never overflow. -/
def atoi (s : Bytes) : Int :=
  let s := s.dropWhile isSpace
  let (negative, s) :=
    match s with
    | c :: t => if c = chr '-' then (true, t) else if c = chr '+' then (false, t) else (false, s)
    | [] => (false, s)
  let n : Int := Decimal.valueOf (s.takeWhile Decimal.isDecimalDigit)
  if negative then -n else n

/-- An `int` stored in a `size_t` of 64 bits. -/
def toSize (n : Int) : Nat := (n % 2 ^ 64).toNat

/-- The header decoded: the length of the body, if it is not too long. -/
def headerValue (header : Bytes) : Nat := toSize (atoi (cStr (header.take headerLength)))

/-- `sprintf("%4d", n)` for an `n` that is not negative. -/
def padded (n : Nat) : Bytes :=
  List.replicate (4 - (Decimal.decimal n).length) (chr ' ') ++ Decimal.decimal n

/-- The body is never longer than the array has room for: every member function sees to it. -/
structure ChatMessage where
  data : Bytes
  bodyLength : Nat
  data_length : data.length = headerLength + maxBodyLength
  bodyLength_le : bodyLength ≤ maxBodyLength
deriving DecidableEq

/-- The array of a message before anything is stored in it. -/
structure Fill where
  data : Bytes
  data_length : data.length = headerLength + maxBodyLength

def Fill.zero : Fill := ⟨List.replicate 516 0, List.length_replicate⟩

namespace ChatMessage

/-- The constructor sets the length only; the array holds whatever was there. -/
def new (fill : Fill) : ChatMessage := ⟨fill.data, 0, fill.data_length, Nat.zero_le _⟩

def length (m : ChatMessage) : Nat := headerLength + m.bodyLength

def body (m : ChatMessage) : Bytes := (m.data.drop headerLength).take m.bodyLength

/-- The bytes that are sent: `data()` up to `length()`. -/
def bytes (m : ChatMessage) : Bytes := m.data.take m.length

/-- `body_length(new_length)`. -/
def setBodyLength (m : ChatMessage) (newLength : Nat) : ChatMessage :=
  { m with
    bodyLength := if newLength > maxBodyLength then maxBodyLength else newLength
    bodyLength_le := by split <;> omega }

/-- Characters stored in the array from `offset` on, by `memcpy` or by a read. -/
def store (m : ChatMessage) (offset : Nat) (bytes : Bytes)
    (h : offset ≤ headerLength + maxBodyLength) : ChatMessage :=
  { m with
    data := writeAt m.data offset bytes
    data_length := by rw [length_writeAt (by rw [m.data_length]; exact h), m.data_length] }

def storeHeader (m : ChatMessage) (bytes : Bytes) : ChatMessage := m.store 0 bytes (by decide)

def storeBody (m : ChatMessage) (bytes : Bytes) : ChatMessage :=
  m.store headerLength bytes (by decide)

def decodeHeader (m : ChatMessage) : Bool × ChatMessage :=
  let bodyLength := headerValue m.data
  if h : bodyLength > maxBodyLength then
    (false, { m with bodyLength := 0, bodyLength_le := Nat.zero_le _ })
  else (true, { m with bodyLength := bodyLength, bodyLength_le := Nat.le_of_not_gt h })

def encodeHeader (m : ChatMessage) : ChatMessage :=
  m.storeHeader ((padded m.bodyLength).take headerLength)

@[simp] theorem bodyLength_storeBody (m : ChatMessage) (bytes : Bytes) :
    (m.storeBody bytes).bodyLength = m.bodyLength := rfl

theorem data_storeHeader {m : ChatMessage} {bytes : Bytes} (h : bytes.length = headerLength) :
    (m.storeHeader bytes).data = bytes ++ m.data.drop headerLength := by
  have hd := m.data_length
  have hbytes : bytes.take (m.data.length - 0) = bytes := by
    apply List.take_of_length_le
    rw [hd, h]
    decide
  change writeAt m.data 0 bytes = _
  unfold writeAt
  rw [hbytes, h]
  rfl

theorem body_storeHeader {m : ChatMessage} {bytes : Bytes} (h : bytes.length = headerLength) :
    (m.storeHeader bytes).body = m.body := by
  unfold body
  rw [data_storeHeader h, List.drop_left' h]
  rfl

theorem take_data_storeBody (m : ChatMessage) (bytes : Bytes) :
    (m.storeBody bytes).data.take headerLength = m.data.take headerLength := by
  have hd := m.data_length
  change (writeAt m.data headerLength bytes).take headerLength = _
  unfold writeAt
  rw [List.append_assoc, List.take_left' (by rw [List.length_take, hd]; decide)]

theorem body_storeBody {m : ChatMessage} {bytes : Bytes} (h : bytes.length = m.bodyLength) :
    (m.storeBody bytes).body = bytes := by
  have hd := m.data_length
  have hle := m.bodyLength_le
  have htake : (m.data.take headerLength).length = headerLength := by
    rw [List.length_take, hd]
    decide
  have hbytes : bytes.take (m.data.length - headerLength) = bytes := by
    apply List.take_of_length_le
    rw [hd, h]
    simp only [headerLength, maxBodyLength] at hle ⊢
    omega
  change ((writeAt m.data headerLength bytes).drop headerLength).take m.bodyLength = bytes
  unfold writeAt
  rw [List.append_assoc, List.drop_left' htake, hbytes, ← h, List.take_left]

theorem bytes_eq (m : ChatMessage) : m.bytes = m.data.take headerLength ++ m.body := by
  unfold bytes body length
  exact List.take_add

/-- Decoding looks at the header and changes the length alone. -/
theorem decodeHeader_spec (m : ChatMessage) :
    ((m.decodeHeader).1 = true ↔ headerValue m.data ≤ maxBodyLength) ∧
      (m.decodeHeader).2.data = m.data ∧
      ((m.decodeHeader).1 = true → (m.decodeHeader).2.bodyLength = headerValue m.data) := by
  unfold decodeHeader
  by_cases h : headerValue m.data > maxBodyLength
  · simp [h]
  · simpa [h] using Nat.le_of_not_gt h

theorem bodyLength_of_refused {m : ChatMessage} (h : m.decodeHeader.1 = false) :
    m.decodeHeader.2.bodyLength = 0 := by
  unfold decodeHeader at h ⊢
  by_cases hlt : headerValue m.data > maxBodyLength
  · simp [hlt]
  · simp [hlt] at h

end ChatMessage

end AsioExamples.Chat
