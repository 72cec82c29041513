import AsioExamples.Chat.Reader
import Mathlib.Data.List.TakeWhile

/-!
# Chat messages on the wire

A message encoded as the client does it decodes to the length of its body, whatever the body
holds, so a stream of messages is cut where it was put together.
-/

namespace AsioExamples.Chat

set_option autoImplicit false

open Decimal

section Header

theorem atoi_blanks_decimal (k n : Nat) : atoi (List.replicate k (chr ' ') ++ decimal n) = n := by
  have hblank : ∀ c ∈ List.replicate k (chr ' '), isSpace c = true := by
    intro c hc
    obtain rfl := List.eq_of_mem_replicate hc
    decide
  obtain ⟨c, s, he, hc, hdigit⟩ := decimal_cons n
  obtain ⟨hspace, hminus, hplus, -⟩ := digit_facts hc
  have hdrop : (List.replicate k (chr ' ') ++ decimal n).dropWhile isSpace = decimal n := by
    rw [List.dropWhile_append_of_pos hblank, he, List.dropWhile_cons_of_neg (by simp [hspace])]
  have htake : (decimal n).takeWhile isDecimalDigit = decimal n := by
    rw [List.takeWhile_eq_self_iff]
    exact hdigit
  unfold atoi
  rw [hdrop, he]
  simp only [hminus, hplus, if_false, Bool.false_eq_true]
  rw [← he, htake, valueOf_decimal]

theorem length_padded {n : Nat} (h : n ≤ maxBodyLength) : (padded n).length = headerLength := by
  have hle : (decimal n).length ≤ 4 :=
    length_decimal_le (by decide) (Nat.lt_of_le_of_lt h (by decide))
  simp only [padded, List.length_append, List.length_replicate, headerLength]
  omega

theorem atoi_padded (n : Nat) : atoi (cStr (padded n)) = n := by
  have hcstr : cStr (padded n) = padded n := by
    apply cStr_eq_self
    intro hc
    rcases List.mem_append.mp hc with hc | hc
    · exact absurd (List.eq_of_mem_replicate hc) (by decide)
    · exact (digit_facts (isDecimalDigit_of_mem hc)).2.2.2 rfl
  rw [hcstr, padded, atoi_blanks_decimal]

/-- The header that is printed for a length is read as that length. -/
theorem headerValue_padded {n : Nat} (h : n ≤ maxBodyLength) : headerValue (padded n) = n := by
  have hcut : (padded n).take headerLength = padded n :=
    List.take_of_length_le (Nat.le_of_eq (length_padded h))
  unfold headerValue
  rw [hcut, atoi_padded, toSize]
  have hlt : n < 2 ^ 64 := Nat.lt_of_le_of_lt h (by decide)
  omega

end Header

/-- A message made of a string as in `main` of the client. -/
def makeMessage (fill : Fill) (line : Bytes) : ChatMessage :=
  let msg := (ChatMessage.new fill).setBodyLength line.length
  (msg.storeBody (line.take msg.bodyLength)).encodeHeader

theorem encodeHeader_bytes (m : ChatMessage) :
    m.encodeHeader.bytes = padded m.bodyLength ++ m.body := by
  have hlen := length_padded m.bodyLength_le
  have hcut : (padded m.bodyLength).take headerLength = padded m.bodyLength :=
    List.take_of_length_le (Nat.le_of_eq hlen)
  unfold ChatMessage.encodeHeader
  rw [hcut, ChatMessage.bytes_eq, ChatMessage.data_storeHeader hlen, List.take_left' hlen,
    ChatMessage.body_storeHeader hlen]

/-- The bytes of a message: the length in four characters and the string, cut if too long. -/
theorem makeMessage_bytes (fill : Fill) (line : Bytes) :
    (makeMessage fill line).bytes =
      padded (line.take maxBodyLength).length ++ line.take maxBodyLength := by
  have hlen : ((ChatMessage.new fill).setBodyLength line.length).bodyLength =
      min maxBodyLength line.length := by
    change (if line.length > maxBodyLength then maxBodyLength else line.length) = _
    split <;> omega
  have htake : line.take (min maxBodyLength line.length) = line.take maxBodyLength := by
    rw [← List.take_take, List.take_length]
  unfold makeMessage
  rw [encodeHeader_bytes, ChatMessage.body_storeBody, ChatMessage.bodyLength_storeBody, hlen,
    htake, List.length_take]
  rw [hlen, htake, List.length_take]

/-- One frame read: its header is accepted and its body handed on. -/
theorem read_frame (msg : ChatMessage) {body : Bytes} (h : body.length ≤ maxBodyLength) :
    ∃ msg₁ msg₂ : ChatMessage,
      Reader.handleRead ⟨msg, some .header⟩ (padded body.length) false =
        (⟨msg₁, some .body⟩, .proceed) ∧ msg₁.bodyLength = body.length ∧
      Reader.handleRead ⟨msg₁, some .body⟩ body false = (⟨msg₂, some .header⟩, .accept msg₂) ∧
      msg₂.body = body := by
  have hvalue := headerValue_padded h
  rcases Reader.handleReadHeader_cases ⟨msg, some .header⟩ false (fun _ => length_padded h) with
    ⟨-, -, msg₁, hread, -, hlen⟩ | ⟨herror | hlong, -⟩
  · rw [hvalue] at hlen
    obtain ⟨msg₂, hbody, heq, -⟩ := Reader.handleReadBody_ok ⟨msg₁, some .body⟩ hlen.symm
    exact ⟨msg₁, msg₂, hread, hlen, hbody, heq⟩
  · cases herror
  · rw [hvalue] at hlong
    exact absurd h (Nat.not_le.mpr hlong)

theorem feed_frames {ω : Type} (out : ChatMessage → List ω) (bodies : List Bytes)
    (hbodies : ∀ b ∈ bodies, b.length ≤ maxBodyLength) (msg : ChatMessage) (k : Nat) :
    ∃ (last : ChatMessage) (accepted : List ChatMessage),
      accepted.map ChatMessage.body = bodies ∧
      (Reader.loop out).feed (2 * bodies.length + k) ⟨msg, some .header⟩
          (bodies.flatMap fun b => padded b.length ++ b) =
        ⟨⟨last, some .header⟩, accepted.flatMap out, []⟩ := by
  induction bodies generalizing msg with
  | nil =>
    refine ⟨msg, [], rfl, ?_⟩
    exact ReadLoop.feed_short (k := headerLength) rfl (by decide) _
  | cons b bodies ih =>
    obtain ⟨hb, hbodies⟩ := List.forall_mem_cons.mp hbodies
    obtain ⟨msg₁, msg₂, hheader, hlen, hbody, heq⟩ := read_frame msg hb
    obtain ⟨last, accepted, hmap, hfeed⟩ := ih hbodies msg₂
    refine ⟨last, msg₂ :: accepted, by simp [heq, hmap], ?_⟩
    have hfuel : 2 * (b :: bodies).length + k = (2 * bodies.length + k + 1) + 1 := by
      simp only [List.length_cons]
      omega
    have hawait : (Reader.loop out).awaits ⟨msg, some .header⟩ = some (padded b.length).length :=
      congrArg some (length_padded hb).symm
    have hawait₁ : (Reader.loop out).awaits ⟨msg₁, some .body⟩ = some b.length :=
      congrArg some hlen
    have hread : (Reader.loop out).handle ⟨msg, some .header⟩ (padded b.length) =
        (⟨msg₁, some .body⟩, []) := by
      simp [Reader.loop, hheader]
    have hread₁ : (Reader.loop out).handle ⟨msg₁, some .body⟩ b =
        (⟨msg₂, some .header⟩, out msg₂) := by
      simp [Reader.loop, hbody]
    rw [hfuel, List.flatMap_cons, List.append_assoc, ReadLoop.feed_piece hawait, hread,
      ReadLoop.feed_piece hawait₁, hread₁, hfeed]
    rfl

/-- Messages put together in one stream come out of both reading loops one by one with the
bodies they were made of, cut to the longest that fits, and nothing is left over. -/
theorem stream_round_trip (messages : List (Fill × Bytes)) (msg : ChatMessage) (k : Nat) :
    let stream := messages.flatMap fun p => (makeMessage p.1 p.2).bytes
    let session := ChatSession.readLoop.feed (2 * messages.length + k) ⟨msg, some .header⟩ stream
    let client := ChatClient.readLoop.feed (2 * messages.length + k) ⟨msg, some .header⟩ stream
    (session.rest = [] ∧ session.state.reading = some .header ∧
      session.output.map ChatMessage.body = messages.map fun p => p.2.take maxBodyLength) ∧
    (client.rest = [] ∧ client.state.reading = some .header ∧
      client.output = messages.flatMap fun p => p.2.take maxBodyLength ++ str "\n") := by
  intro stream session client
  have hstream : stream = (messages.map fun p => p.2.take maxBodyLength).flatMap
      fun b => padded b.length ++ b := by
    simp only [stream, List.flatMap_map, makeMessage_bytes]
  have hle : ∀ b ∈ messages.map fun p => p.2.take maxBodyLength, b.length ≤ maxBodyLength := by
    intro b hb
    obtain ⟨p, -, rfl⟩ := List.mem_map.mp hb
    exact List.length_take_le _ _
  have hfeed := fun {ω : Type} (out : ChatMessage → List ω) => feed_frames out _ hle msg k
  simp only [List.length_map, ← hstream] at hfeed
  obtain ⟨last, accepted, hmap, hsession⟩ := hfeed fun msg => [msg]
  obtain ⟨last', accepted', hmap', hclient⟩ := hfeed fun msg => msg.body ++ str "\n"
  have hsession : session = _ := hsession
  have hclient : client = _ := hclient
  rw [hsession, hclient]
  refine ⟨⟨rfl, rfl, ?_⟩, rfl, rfl, ?_⟩
  · simpa using hmap
  · have : accepted'.flatMap (fun msg => msg.body ++ str "\n") =
        (accepted'.map ChatMessage.body).flatMap (· ++ str "\n") := by
      rw [List.flatMap_map]
    rw [this, hmap', List.flatMap_map]

end AsioExamples.Chat
