import AsioExamples.Chat.Framing

/-!
# Headers that are accepted

`atoi` skips blanks, takes a sign and stops at the first character that is no digit, so that many
headers stand for one length. A stream is cut by the lengths of its headers all the same.
-/

namespace AsioExamples.Chat

set_option autoImplicit false

open Decimal

section Values

/-- After the blanks, with or without a sign, a run of digits is what counts. -/
theorem atoi_cases (s : Bytes) : ∃ t : Bytes, t.length ≤ s.length ∧
    (atoi s = (valueOf (t.takeWhile isDecimalDigit) : Int) ∨
      atoi s = -(valueOf (t.takeWhile isDecimalDigit) : Int)) := by
  have hdrop : (s.dropWhile isSpace).length ≤ s.length := (List.dropWhile_suffix _).length_le
  unfold atoi
  cases hs : s.dropWhile isSpace with
  | nil => exact ⟨[], Nat.zero_le _, .inl rfl⟩
  | cons c t =>
    rw [hs] at hdrop
    by_cases hminus : c = chr '-'
    · refine ⟨t, Nat.le_of_succ_le hdrop, .inr ?_⟩
      simp only [if_pos hminus, if_true]
    · by_cases hplus : c = chr '+'
      · refine ⟨t, Nat.le_of_succ_le hdrop, .inl ?_⟩
        simp only [if_neg hminus, if_pos hplus, Bool.false_eq_true, if_false]
      · refine ⟨c :: t, hdrop, .inl ?_⟩
        simp only [if_neg hminus, if_neg hplus, Bool.false_eq_true, if_false]

/-- Four characters hold no number of five digits. -/
theorem atoi_bounds {s : Bytes} (h : s.length ≤ headerLength) :
    -10000 < atoi s ∧ atoi s < 10000 := by
  obtain ⟨t, ht, hvalue⟩ := atoi_cases s
  have hle : (t.takeWhile isDecimalDigit).length ≤ 4 :=
    ((List.takeWhile_prefix _).length_le.trans ht).trans h
  have hlt : valueOf (t.takeWhile isDecimalDigit) < 10000 :=
    (valueOf_lt fun c hc => List.mem_takeWhile_imp hc).trans_le
      (Nat.pow_le_pow_right (by decide) hle)
  rcases hvalue with hvalue | hvalue
  · rw [hvalue]
    omega
  · rw [hvalue]
    omega

/-- A number that is not negative and not too long; a negative one becomes a huge length. -/
theorem headerValue_le_iff {header : Bytes} (h : header.length = headerLength) :
    headerValue header ≤ maxBodyLength ↔
      0 ≤ atoi (cStr header) ∧ atoi (cStr header) ≤ maxBodyLength := by
  have hcut : header.take headerLength = header := List.take_of_length_le (Nat.le_of_eq h)
  have hlen : (cStr header).length ≤ headerLength :=
    h ▸ (List.takeWhile_prefix _).length_le
  obtain ⟨hlo, hhi⟩ := atoi_bounds hlen
  unfold headerValue toSize
  rw [hcut]
  have hmax : maxBodyLength = 512 := rfl
  omega

theorem headerValue_eq {header : Bytes} (h : header.length = headerLength)
    (hle : headerValue header ≤ maxBodyLength) :
    (headerValue header : Int) = atoi (cStr header) := by
  have hcut : header.take headerLength = header := List.take_of_length_le (Nat.le_of_eq h)
  obtain ⟨hlo, hhi⟩ := (headerValue_le_iff h).mp hle
  unfold headerValue toSize
  rw [hcut]
  have hmax : maxBodyLength = 512 := rfl
  omega

end Values

section Streams

/-- The header that has been taken from the stream and belongs to no message yet: that of the body
waited for, or one that was refused. -/
def Pending (r : Reader) (header : Bytes) : Prop :=
  match r.reading with
  | some .header => header = []
  | some .body => header.length = headerLength ∧ header = r.readMsg.data.take headerLength ∧
    r.readMsg.bodyLength = headerValue header
  | none => header.length = headerLength ∧ maxBodyLength < headerValue header

/-- The header of a message says how long its body is. -/
def Framed (m : ChatMessage) : Prop :=
  m.body.length ≤ maxBodyLength ∧ m.body.length = headerValue (m.data.take headerLength)

theorem handle_header {r : Reader} {piece : Bytes} (hreading : r.reading = some .header)
    (hlen : piece.length = headerLength) :
    Pending (ChatSession.readLoop.handle r piece).1 piece ∧
      (ChatSession.readLoop.handle r piece).2 = [] := by
  have hread : r.handleRead piece false = r.handleReadHeader piece false := by
    unfold Reader.handleRead
    rw [hreading]
  rcases r.handleReadHeader_cases false (fun _ => hlen) with
    ⟨-, -, msg, hheader, hdata, hbody⟩ | ⟨herror | hlong, msg, hheader⟩
  · have hhandle : ChatSession.readLoop.handle r piece = (⟨msg, some .body⟩, []) := by
      simp [ChatSession.readLoop, Reader.loop, hread, hheader]
    rw [hhandle]
    exact ⟨⟨hlen, hdata.symm, hbody⟩, rfl⟩
  · cases herror
  · have hhandle : ChatSession.readLoop.handle r piece = (⟨msg, none⟩, []) := by
      simp [ChatSession.readLoop, Reader.loop, hread, hheader]
    rw [hhandle]
    exact ⟨⟨hlen, hlong⟩, rfl⟩

theorem handle_body {r : Reader} {header piece : Bytes} (hreading : r.reading = some .body)
    (h : Pending r header) (hlen : piece.length = r.readMsg.bodyLength) :
    ∃ m, ChatSession.readLoop.handle r piece = (⟨m, some .header⟩, [m]) ∧
      m.bytes = header ++ piece ∧ Framed m := by
  unfold Pending at h
  rw [hreading] at h
  obtain ⟨hheader, hdata, hvalue⟩ := h
  obtain ⟨m, hread, hbody, hbytes⟩ := Reader.handleReadBody_ok r hlen
  rw [← hdata] at hbytes
  have hhead : m.data.take headerLength = header := by
    rw [ChatMessage.bytes_eq, hbody] at hbytes
    exact List.append_cancel_right hbytes
  refine ⟨m, ?_, hbytes, ?_, ?_⟩
  · simp [ChatSession.readLoop, Reader.loop, Reader.handleRead, hreading, hread]
  · rw [hbody, hlen]
    exact r.readMsg.bodyLength_le
  · rw [hbody, hlen, hhead, hvalue]

/-- One piece: a header becomes pending, and a body makes a message of the pending header. -/
theorem handle_framed {r : Reader} {header piece : Bytes} (h : Pending r header)
    (hawaits : ChatSession.readLoop.awaits r = some piece.length) :
    ∃ header', Pending (ChatSession.readLoop.handle r piece).1 header' ∧
      header ++ piece =
        (ChatSession.readLoop.handle r piece).2.flatMap ChatMessage.bytes ++ header' ∧
      ∀ m ∈ (ChatSession.readLoop.handle r piece).2, Framed m := by
  cases hreading : r.reading with
  | none =>
    have hnone : ChatSession.readLoop.awaits r = none := congrArg (Option.map _) hreading
    cases hnone.symm.trans hawaits
  | some op =>
    have hsome : ChatSession.readLoop.awaits r = _ := congrArg (Option.map _) hreading
    have hlen := Option.some.inj (hsome.symm.trans hawaits)
    cases op with
    | header =>
      obtain ⟨hpending, hout⟩ := handle_header hreading hlen.symm
      unfold Pending at h
      rw [hreading] at h
      refine ⟨piece, hpending, ?_, ?_⟩
      · rw [hout, show header = [] from h]
        rfl
      · rw [hout]
        exact fun m hm => absurd hm List.not_mem_nil
    | body =>
      obtain ⟨m, hhandle, hbytes, hframed⟩ := handle_body hreading h hlen.symm
      rw [hhandle]
      refine ⟨[], rfl, ?_, List.forall_mem_singleton.mpr hframed⟩
      simp [hbytes]

/-- A reading loop cuts what it takes from a stream into messages. -/
theorem feed_framed {r : Reader} {header : Bytes} (h : Pending r header) (fuel : Nat)
    (stream : Bytes) :
    ∃ header', Pending (ChatSession.readLoop.feed fuel r stream).state header' ∧
      header ++ stream = (ChatSession.readLoop.feed fuel r stream).output.flatMap
        ChatMessage.bytes ++ (header' ++ (ChatSession.readLoop.feed fuel r stream).rest) ∧
      ∀ m ∈ (ChatSession.readLoop.feed fuel r stream).output, Framed m := by
  induction fuel generalizing r header stream with
  | zero => exact ⟨header, h, rfl, fun m hm => absurd hm List.not_mem_nil⟩
  | succ fuel ih =>
    cases hreading : r.reading with
    | none =>
      have hdone : ChatSession.readLoop.feed (fuel + 1) r stream = ⟨r, [], stream⟩ := by
        have hawaits : ChatSession.readLoop.awaits r = none := congrArg (Option.map _) hreading
        simp only [ReadLoop.feed, hawaits]
      rw [hdone]
      exact ⟨header, h, rfl, fun m hm => absurd hm List.not_mem_nil⟩
    | some op =>
      obtain ⟨k, hk⟩ : ∃ k, ChatSession.readLoop.awaits r = some k :=
        ⟨_, congrArg (Option.map _) hreading⟩
      by_cases hle : k ≤ stream.length
      · have hpiece : (stream.take k).length = k := List.length_take_of_le hle
        obtain ⟨header₁, hpending₁, hbytes₁, hframed₁⟩ := handle_framed h (hpiece.symm ▸ hk)
        obtain ⟨header₂, hpending₂, hbytes₂, hframed₂⟩ := ih hpending₁ (stream.drop k)
        have hfeed := ReadLoop.feed_piece (l := ChatSession.readLoop) (hpiece.symm ▸ hk) fuel
          (stream.drop k)
        rw [List.take_append_drop] at hfeed
        rw [hfeed]
        refine ⟨header₂, hpending₂, ?_, ?_⟩
        · simp only [List.flatMap_append, List.append_assoc]
          rw [← hbytes₂, ← List.append_assoc, ← hbytes₁, List.append_assoc,
            List.take_append_drop]
        · exact List.forall_mem_append.mpr ⟨hframed₁, hframed₂⟩
      · rw [ReadLoop.feed_short hk (Nat.lt_of_not_le hle)]
        exact ⟨header, h, rfl, fun m hm => absurd hm List.not_mem_nil⟩

end Streams

section Encoding

theorem headerValue_take (data : Bytes) :
    headerValue (data.take headerLength) = headerValue data := by
  unfold headerValue
  rw [List.take_take, Nat.min_self]

theorem length_header (m : ChatMessage) : (m.data.take headerLength).length = headerLength := by
  rw [List.length_take, m.data_length]
  decide

theorem decodeHeader_iff (m : ChatMessage) :
    m.decodeHeader.1 = true ↔ 0 ≤ atoi (cStr (m.data.take headerLength)) ∧
      atoi (cStr (m.data.take headerLength)) ≤ maxBodyLength := by
  rw [m.decodeHeader_spec.1, ← headerValue_take, headerValue_le_iff (length_header m)]

theorem Framed.length_eq_atoi {m : ChatMessage} (h : Framed m) :
    (m.body.length : Int) = atoi (cStr (m.data.take headerLength)) := by
  obtain ⟨hle, hvalue⟩ := h
  rw [hvalue] at hle
  rw [hvalue, headerValue_eq (length_header m) hle]

/-- Encoded once more, a message keeps its bytes if its header is the numeral. -/
theorem Framed.encoded_eq_iff {m : ChatMessage} (h : Framed m) (fill : Fill) :
    (makeMessage fill m.body).bytes = m.bytes ↔
      m.data.take headerLength = padded m.body.length := by
  have htake : m.body.take maxBodyLength = m.body := List.take_of_length_le h.1
  rw [makeMessage_bytes, htake, ChatMessage.bytes_eq, List.append_left_inj, eq_comm]

theorem flatMap_encoded_eq_iff (fill : Fill) {msgs : List ChatMessage}
    (h : ∀ m ∈ msgs, Framed m) :
    msgs.flatMap (fun m => (makeMessage fill m.body).bytes) = msgs.flatMap ChatMessage.bytes ↔
      ∀ m ∈ msgs, m.data.take headerLength = padded m.body.length := by
  induction msgs with
  | nil => simp
  | cons m msgs ih =>
    obtain ⟨hm, hmsgs⟩ := List.forall_mem_cons.mp h
    have hlen : (makeMessage fill m.body).bytes.length = m.bytes.length := by
      have htake : m.body.take maxBodyLength = m.body := List.take_of_length_le hm.1
      rw [makeMessage_bytes, htake, ChatMessage.bytes_eq, List.length_append, List.length_append,
        length_padded hm.1, length_header]
    rw [List.flatMap_cons, List.flatMap_cons, List.forall_mem_cons, ← hm.encoded_eq_iff fill,
      ← ih hmsgs]
    constructor
    · exact fun heq => List.append_inj heq hlen
    · rintro ⟨hfirst, hrest⟩
      rw [hfirst, hrest]

end Encoding

/-- What a session accepts from a stream: each message is a header of four characters, in which a
number up to the maximum can be read, and so many bytes. Encoded once more these are the bytes
taken exactly if each header is the numeral that is printed for its length. -/
theorem accepted_streams (fill : Fill) (msg : ChatMessage) (fuel : Nat) (stream : Bytes) :
    let r := ChatSession.readLoop.feed fuel ⟨msg, some .header⟩ stream
    (∃ header, Pending r.state header ∧
      stream = r.output.flatMap ChatMessage.bytes ++ (header ++ r.rest)) ∧
    (∀ m ∈ r.output, m.bytes = m.data.take headerLength ++ m.body ∧
      m.body.length ≤ maxBodyLength ∧
      (m.body.length : Int) = atoi (cStr (m.data.take headerLength))) ∧
    (r.output.flatMap (fun m => (makeMessage fill m.body).bytes) =
        r.output.flatMap ChatMessage.bytes ↔
      ∀ m ∈ r.output, m.data.take headerLength = padded m.body.length) ∧
    (∀ m : ChatMessage, m.decodeHeader.1 = true ↔
      0 ≤ atoi (cStr (m.data.take headerLength)) ∧
        atoi (cStr (m.data.take headerLength)) ≤ maxBodyLength) ∧
    ∀ (n : Nat) (m : ChatMessage), m.data.take headerLength = padded n →
      (m.decodeHeader.1 = true ↔ n ≤ maxBodyLength) := by
  intro r
  obtain ⟨header, hpending, hstream, hframed⟩ :=
    feed_framed (show Pending (⟨msg, some .header⟩ : Reader) [] from rfl) fuel stream
  refine ⟨⟨header, hpending, hstream⟩, ?_, flatMap_encoded_eq_iff fill hframed,
    decodeHeader_iff, ?_⟩
  · intro m hm
    exact ⟨m.bytes_eq, (hframed m hm).1, (hframed m hm).length_eq_atoi⟩
  · intro n m hm
    rw [decodeHeader_iff, hm, atoi_padded]
    omega

/-- Four letters are an empty message, which is encoded otherwise. -/
theorem letters_are_accepted :
    let r := ChatSession.readLoop.feed 2 ⟨ChatMessage.new Fill.zero, some .header⟩ (str "abcd")
    r.rest = [] ∧ r.output.map ChatMessage.body = [[]] ∧
      r.output.flatMap ChatMessage.bytes = str "abcd" ∧
      r.output.flatMap (fun m => (makeMessage Fill.zero m.body).bytes) = str "   0" ∧
      str "   0" ≠ str "abcd" := by
  decide +kernel

end AsioExamples.Chat
