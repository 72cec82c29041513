import AsioExamples.Chat.Framing
import AsioExamples.Chat.PosixClient
import AsioExamples.Theory.Cutting

/-!
# How `posix_chat_client` cuts its input

The client reads its input and writes a message by turns. What it has handed on and what is in
its buffer are the input so far, cut at the newlines and where the buffer is full.
-/

namespace AsioExamples.Chat

set_option autoImplicit false

open Cutting

def PosixEvent.input : PosixEvent → Bytes
  | .typed piece => piece
  | _ => []

/-- The input that has been read. -/
def typed (trace : List PosixEvent) : Bytes := trace.flatMap PosixEvent.input

/-- A message with the header for its body. -/
def frame (body : Bytes) : Bytes := padded body.length ++ body

/-- Where the input is to be cut. -/
def cutInput (stream : Bytes) : List Bytes := cut (chr '\n') maxBodyLength stream

theorem typed_concat (trace : List PosixEvent) (e : PosixEvent) :
    typed (trace ++ [e]) = typed trace ++ e.input := by
  simp [typed]

theorem typed_append_cons (before rest : List PosixEvent) (error : InputError) :
    typed (before ++ .readInput error :: rest) = typed before ++ typed rest := by
  simp [typed, PosixEvent.input]

section Handlers
variable {c : PosixClient}

theorem bytes_of_body (m : ChatMessage) {body : Bytes} (h : body.length ≤ maxBodyLength) :
    ((m.setBodyLength body.length).storeBody body).encodeHeader.bytes = frame body := by
  have hlen : (m.setBodyLength body.length).bodyLength = body.length :=
    if_neg (Nat.not_lt.mpr h)
  rw [encodeHeader_bytes, ChatMessage.body_storeBody hlen.symm, ChatMessage.bodyLength_storeBody,
    hlen]
  rfl

/-- What the reading of the input and the writing of its messages go on with. -/
structure SameInput (c c' : PosixClient) : Prop where
  writeMsg : c'.writeMsg = c.writeMsg
  writing : c'.writing = c.writing
  inputBuffer : c'.inputBuffer = c.inputBuffer
  readingInput : c'.readingInput = c.readingInput
  handed : c'.handed = c.handed
  isOpen : c'.isOpen = true → c.isOpen = true

theorem sameInput_handleReadHeader (c : PosixClient) (transferred : Bytes) (error : Bool) :
    SameInput c (c.handleReadHeader transferred error) := by
  cases error with
  | true => exact ⟨rfl, rfl, rfl, rfl, rfl, fun h => by cases h⟩
  | false =>
    rcases hd : (c.readMsg.storeHeader transferred).decodeHeader with ⟨ok, msg⟩
    cases ok with
    | true => constructor <;> simp [PosixClient.handleReadHeader, hd]
    | false => constructor <;> simp [PosixClient.handleReadHeader, hd, PosixClient.close]

theorem sameInput_handleReadBody (c : PosixClient) (transferred : Bytes) (error : Bool) :
    SameInput c (c.handleReadBody transferred error) := by
  cases error with
  | true => exact ⟨rfl, rfl, rfl, rfl, rfl, fun h => by cases h⟩
  | false => exact ⟨rfl, rfl, rfl, rfl, rfl, id⟩

theorem sameInput_handleWriteOutput (c : PosixClient) (written : Bytes) (error : Bool) :
    SameInput c (c.handleWriteOutput written error) := by
  cases error with
  | true => exact ⟨rfl, rfl, rfl, rfl, rfl, fun h => by cases h⟩
  | false => exact ⟨rfl, rfl, rfl, rfl, rfl, id⟩

/-- A body has been handed on, and `rest` stays in the buffer. -/
structure Sends (c c' : PosixClient) (body rest : Bytes) : Prop where
  writing : c'.writing = true
  readingInput : c'.readingInput = false
  inputBuffer : c'.inputBuffer = rest
  writeMsg : c'.writeMsg.bytes = frame body
  handed : c'.handed = c.handed ++ [frame body]

theorem sends_line {line rest : Bytes} (hbuffer : c.inputBuffer = line ++ chr '\n' :: rest)
    (hline : chr '\n' ∉ line) (hle : line.length ≤ maxBodyLength) :
    Sends c (c.handleReadInput .none (lineLength c.inputBuffer)) line rest := by
  have hlength : lineLength c.inputBuffer - 1 = line.length := by
    unfold lineLength
    rw [hbuffer, takeWhile_delim hline, Nat.add_sub_cancel]
  have hbytes := bytes_of_body c.writeMsg hle
  have htake : c.inputBuffer.take line.length = line := by
    rw [hbuffer, List.take_left]
  refine ⟨rfl, rfl, ?_, ?_, ?_⟩
  · change ((c.inputBuffer.drop (lineLength c.inputBuffer - 1)).drop 1) = rest
    rw [hlength, hbuffer, List.drop_left]
    rfl
  · change ((c.writeMsg.setBodyLength (lineLength c.inputBuffer - 1)).storeBody
      (c.inputBuffer.take (lineLength c.inputBuffer - 1))).encodeHeader.bytes = _
    rw [hlength, htake, hbytes]
  · change c.handed ++ [((c.writeMsg.setBodyLength (lineLength c.inputBuffer - 1)).storeBody
      (c.inputBuffer.take (lineLength c.inputBuffer - 1))).encodeHeader.bytes] = _
    rw [hlength, htake, hbytes]

theorem sends_buffer (hle : c.inputBuffer.length ≤ maxBodyLength) (length : Nat) :
    Sends c (c.handleReadInput .notFound length) c.inputBuffer [] := by
  have hbytes := bytes_of_body c.writeMsg hle
  refine ⟨rfl, rfl, ?_, ?_, ?_⟩
  · change c.inputBuffer.drop c.inputBuffer.length = []
    exact List.drop_length
  · change ((c.writeMsg.setBodyLength c.inputBuffer.length).storeBody
      (c.inputBuffer.take c.inputBuffer.length)).encodeHeader.bytes = _
    rw [List.take_length, hbytes]
  · change c.handed ++ [((c.writeMsg.setBodyLength c.inputBuffer.length).storeBody
      (c.inputBuffer.take c.inputBuffer.length)).encodeHeader.bytes] = _
    rw [List.take_length, hbytes]

end Handlers

section Runs
variable {trace : List PosixEvent} {st : PosixState} {e : PosixEvent}

/-- What has been handed on are the pieces cut off the input so far. -/
structure InputInv (trace : List PosixEvent) (st : PosixState) : Prop where
  pieces : ∃ bodies, st.client.handed = bodies.map frame ∧
    Cuts (chr '\n') maxBodyLength (typed trace) bodies st.client.inputBuffer
  room : st.client.inputBuffer.length ≤ maxBodyLength
  connecting : st.connecting = true →
    st.client.readingInput = false ∧ st.client.writing = false
  turns : st.client.writing = true → st.client.readingInput = false
  written : st.client.writing = true →
    st.client.handed.getLast? = some st.client.writeMsg.bytes
  going : st.client.isOpen = true →
    st.connecting = true ∨ st.client.readingInput = true ∨ st.client.writing = true

theorem inputInv_init (readFill writeFill : Fill) :
    InputInv [] (PosixState.init readFill writeFill) where
  pieces := ⟨[], rfl, Cuts.nil⟩
  room := Nat.zero_le _
  connecting := fun _ => ⟨rfl, rfl⟩
  turns := fun _ => rfl
  written := fun h => by cases h
  going := fun _ => .inl rfl

theorem InputInv.same (h : InputInv trace st) (he : e.input = []) {c : PosixClient}
    (hc : SameInput st.client c) : InputInv (trace ++ [e]) { st with client := c } := by
  obtain ⟨hwriteMsg, hwriting, hbuffer, hreading, hhanded, hopen⟩ := hc
  refine ⟨?_, ?_, ?_, ?_, ?_, ?_⟩
  · rw [typed_concat, he, List.append_nil, hhanded, hbuffer]
    exact h.pieces
  · rw [hbuffer]
    exact h.room
  · rw [hreading, hwriting]
    exact h.connecting
  · rw [hreading, hwriting]
    exact h.turns
  · rw [hwriting, hhanded, hwriteMsg]
    exact h.written
  · intro hc
    rw [hreading, hwriting]
    exact h.going (hopen hc)

/-- A piece that has been cut off is handed on. -/
theorem InputInv.sends (h : InputInv trace st) (he : e.input = []) {c : PosixClient}
    {body rest : Bytes} (hconnecting : st.connecting = false) (hc : Sends st.client c body rest)
    (hcut : ∀ bodies, Cuts (chr '\n') maxBodyLength (typed trace) bodies st.client.inputBuffer →
      Cuts (chr '\n') maxBodyLength (typed trace) (bodies ++ [body]) rest)
    (hrest : rest.length ≤ maxBodyLength) :
    InputInv (trace ++ [e]) { st with client := c } := by
  obtain ⟨hwriting, hreading, hbuffer, hwriteMsg, hhanded⟩ := hc
  obtain ⟨bodies, hbodies, hcuts⟩ := h.pieces
  refine ⟨?_, ?_, ?_, ?_, ?_, ?_⟩
  · refine ⟨bodies ++ [body], ?_, ?_⟩
    · rw [hhanded, hbodies, List.map_append]
      rfl
    · rw [typed_concat, he, List.append_nil, hbuffer]
      exact hcut bodies hcuts
  · rw [hbuffer]
    exact hrest
  · intro hc
    cases hconnecting.symm.trans hc
  · exact fun _ => hreading
  · intro _
    rw [hhanded, List.getLast?_concat, hwriteMsg]
  · exact fun _ => .inr (.inr hwriting)

theorem InputInv.not_connecting (h : InputInv trace st) (hreading : st.client.readingInput = true) :
    st.connecting = false := by
  cases hc : st.connecting with
  | true => cases (h.connecting hc).1.symm.trans hreading
  | false => rfl

theorem InputInv.pieces_concat (h : InputInv trace st) (he : e.input = []) :
    ∃ bodies, st.client.handed = bodies.map frame ∧
      Cuts (chr '\n') maxBodyLength (typed (trace ++ [e])) bodies st.client.inputBuffer := by
  rw [typed_concat, he, List.append_nil]
  exact h.pieces

theorem InputInv.connect (h : InputInv trace st) {error : Bool}
    (he : (posixMachine false).enabled st (.connect error)) :
    InputInv (trace ++ [.connect error]) ((posixMachine false).next st (.connect error)) := by
  obtain ⟨hconnecting, hclosed⟩ := he
  obtain ⟨hreading, hwriting⟩ := h.connecting hconnecting
  have hidle : ¬ st.client.writing = true := by
    rw [hwriting]
    exact Bool.false_ne_true
  cases error with
  | true =>
    have hclosed := (hclosed rfl).resolve_left Bool.false_ne_true
    refine ⟨h.pieces_concat rfl, h.room, fun hc => ?_, h.turns, h.written, fun hopen => ?_⟩
    · cases hc
    · cases hclosed.symm.trans hopen
  | false =>
    refine ⟨h.pieces_concat rfl, h.room, fun hc => ?_, fun hc => absurd hc hidle,
      fun hc => absurd hc hidle, fun _ => .inr (.inl rfl)⟩
    cases hc

theorem InputInv.typing (h : InputInv trace st) {piece : Bytes}
    (he : (posixMachine false).enabled st (.typed piece)) :
    InputInv (trace ++ [.typed piece]) ((posixMachine false).next st (.typed piece)) := by
  obtain ⟨hreading, hopen, -, -, hle⟩ := he
  obtain ⟨bodies, hbodies, hcuts⟩ := h.pieces
  refine ⟨⟨bodies, hbodies, ?_⟩, ?_, h.connecting, h.turns, h.written, h.going⟩
  · rw [typed_concat]
    exact hcuts.append piece
  · rw [← List.length_append] at hle
    exact hle

theorem InputInv.readInput (h : InputInv trace st) {error : InputError}
    (he : (posixMachine false).enabled st (.readInput error)) :
    InputInv (trace ++ [.readInput error]) ((posixMachine false).next st (.readInput error)) := by
  cases error with
  | none =>
    obtain ⟨line, rest, hbuffer, hline, -⟩ := exists_delim he.2
    have hroom := h.room
    rw [hbuffer, List.length_append, List.length_cons] at hroom
    apply h.sends rfl (h.not_connecting he.1) (sends_line hbuffer hline (by omega))
    · intro bodies hcuts
      rw [hbuffer] at hcuts
      exact hcuts.delim hline (by omega)
    · omega
  | notFound =>
    obtain ⟨hreading, hline, hfull⟩ := he
    apply h.sends rfl (h.not_connecting hreading) (sends_buffer h.room _)
    · exact fun bodies hcuts => hcuts.full hline hfull (by decide)
    · exact Nat.zero_le _
  | other =>
    refine ⟨h.pieces_concat rfl, h.room, fun hc => ?_, fun _ => rfl, h.written, fun hopen => ?_⟩
    · exact ⟨rfl, (h.connecting hc).2⟩
    · cases hopen

theorem InputInv.write (h : InputInv trace st) {error : Bool}
    (he : (posixMachine false).enabled st (.write error)) :
    InputInv (trace ++ [.write error]) ((posixMachine false).next st (.write error)) := by
  have hconnecting : ¬ st.connecting = true := by
    intro hc
    cases he.1.symm.trans (h.connecting hc).2
  cases error with
  | true =>
    refine ⟨h.pieces_concat rfl, h.room, fun hc => absurd hc hconnecting, fun hc => ?_,
      fun hc => ?_, fun hopen => ?_⟩
    · cases hc
    · cases hc
    · cases hopen
  | false =>
    refine ⟨h.pieces_concat rfl, h.room, fun hc => absurd hc hconnecting, fun hc => ?_,
      fun hc => ?_, fun _ => .inr (.inl rfl)⟩
    · cases hc
    · cases hc

theorem InputInv.next (h : InputInv trace st) (he : (posixMachine false).enabled st e) :
    InputInv (trace ++ [e]) ((posixMachine false).next st e) := by
  cases e with
  | connect error => exact h.connect he
  | readHeader transferred error =>
    exact h.same rfl (sameInput_handleReadHeader st.client transferred error)
  | readBody transferred error =>
    exact h.same rfl (sameInput_handleReadBody st.client transferred error)
  | writeOutput written error =>
    exact h.same rfl (sameInput_handleWriteOutput st.client written error)
  | typed piece => exact h.typing he
  | readInput error => exact h.readInput he
  | write error => exact h.write he

theorem inputInv_of_run {readFill writeFill : Fill}
    (h : (posixMachine false).Run (PosixState.init readFill writeFill) trace st) :
    InputInv trace st :=
  h.invariant (inputInv_init readFill writeFill) fun _ _ _ hinv he => hinv.next he

/-- A write outstanding has its message to itself. -/
theorem InputInv.writeMsg_kept (h : InputInv trace st) (he : (posixMachine false).enabled st e)
    (hwriting : st.client.writing = true) :
    ((posixMachine false).next st e).client.writeMsg = st.client.writeMsg := by
  have hreading := h.turns hwriting
  cases e with
  | connect error =>
    cases error with
    | true => rfl
    | false => rfl
  | readHeader transferred error =>
    exact (sameInput_handleReadHeader st.client transferred error).writeMsg
  | readBody transferred error =>
    exact (sameInput_handleReadBody st.client transferred error).writeMsg
  | writeOutput written error =>
    exact (sameInput_handleWriteOutput st.client written error).writeMsg
  | typed piece => rfl
  | readInput error =>
    cases error with
    | none => cases hreading.symm.trans he.1
    | notFound => cases hreading.symm.trans he.1
    | other => rfl
  | write error =>
    cases error with
    | true => rfl
    | false => rfl

/-- Neither reading its input nor writing, the client has done with its input. -/
structure Stopped (st : PosixState) : Prop where
  connecting : st.connecting = false
  readingInput : st.client.readingInput = false
  writing : st.client.writing = false

theorem Stopped.same (h : Stopped st) {c : PosixClient} (hc : SameInput st.client c) :
    Stopped { st with client := c } ∧ c.handed = st.client.handed := by
  refine ⟨⟨h.connecting, ?_, ?_⟩, hc.handed⟩
  · exact hc.readingInput.trans h.readingInput
  · exact hc.writing.trans h.writing

theorem Stopped.next (h : Stopped st) (he : (posixMachine false).enabled st e) :
    (Stopped ((posixMachine false).next st e) ∧
      ((posixMachine false).next st e).client.handed = st.client.handed) ∧ e.input = [] := by
  cases e with
  | connect error => cases h.connecting.symm.trans he.1
  | readHeader transferred error =>
    exact ⟨h.same (sameInput_handleReadHeader st.client transferred error), rfl⟩
  | readBody transferred error =>
    exact ⟨h.same (sameInput_handleReadBody st.client transferred error), rfl⟩
  | writeOutput written error =>
    exact ⟨h.same (sameInput_handleWriteOutput st.client written error), rfl⟩
  | typed piece => cases h.readingInput.symm.trans he.1
  | readInput error =>
    cases error with
    | none => cases h.readingInput.symm.trans he.1
    | notFound => cases h.readingInput.symm.trans he.1
    | other => cases h.readingInput.symm.trans he.1
  | write error => cases h.writing.symm.trans he.1

theorem Stopped.run (h : Stopped st) {rest : List PosixEvent} {st' : PosixState}
    (hrun : (posixMachine false).Run st rest st') :
    Stopped st' ∧ st'.client.handed = st.client.handed ∧ typed rest = [] := by
  apply hrun.invariant (I := fun rest st' => Stopped st' ∧
    st'.client.handed = st.client.handed ∧ typed rest = [])
  · exact ⟨h, rfl, rfl⟩
  · rintro rest x e ⟨hx, hhanded, htyped⟩ he
    obtain ⟨⟨hx', hhanded'⟩, hinput⟩ := hx.next he
    refine ⟨hx', hhanded'.trans hhanded, ?_⟩
    rw [typed_concat, htyped, hinput]
    rfl

/-- The end of the input finds a buffer without a piece to cut off. -/
theorem InputInv.ended (h : InputInv trace st)
    (he : (posixMachine false).enabled st (.readInput .other)) (hopen : st.client.isOpen = true) :
    st.client.handed = (cutInput (typed trace)).map frame ∧
      Stopped ((posixMachine false).next st (.readInput .other)) := by
  obtain ⟨hreading, hend⟩ := he
  rcases hend with hfaults | hclosed | ⟨hline, hroom⟩
  · cases hfaults
  · cases hclosed.symm.trans hopen
  · obtain ⟨bodies, hbodies, hcuts⟩ := h.pieces
    refine ⟨?_, ?_, rfl, ?_⟩
    · rw [cutInput, hcuts.eq_cut hline hroom]
      exact hbodies
    · exact h.not_connecting hreading
    · cases hw : st.client.writing with
      | true => cases (h.turns hw).symm.trans hreading
      | false => exact hw

/-- As long as the client is open something can happen on the side of its input. -/
theorem InputInv.progress (h : InputInv trace st) (hopen : st.client.isOpen = true) :
    ∃ e ∈ [PosixEvent.connect false, .write false, .readInput .none, .readInput .notFound,
      .readInput .other], (posixMachine false).enabled st e := by
  rcases h.going hopen with hconnecting | hreading | hwriting
  · exact ⟨.connect false, by simp, hconnecting, fun herror => by cases herror⟩
  · by_cases hline : chr '\n' ∈ st.client.inputBuffer
    · exact ⟨.readInput .none, by simp, hreading, hline⟩
    · rcases Nat.lt_or_eq_of_le h.room with hlt | hfull
      · exact ⟨.readInput .other, by simp, hreading, .inr (.inr ⟨hline, hlt⟩)⟩
      · exact ⟨.readInput .notFound, by simp, hreading, hline, hfull⟩
  · exact ⟨.write false, by simp, hwriting, fun herror => by cases herror⟩

end Runs

/-- However the input arrives, what is sent is the input cut up: the beginning of it at any time,
and all of it, with no write outstanding, once the input has ended. Meanwhile the message of an
outstanding write stays as it was handed on, and the client does not stall. -/
theorem input_is_cut (readFill writeFill : Fill) {trace : List PosixEvent} {st : PosixState}
    (h : (posixMachine false).Run (PosixState.init readFill writeFill) trace st) :
    (∀ more, st.client.handed <+: (cutInput (typed trace ++ more)).map frame) ∧
    (∀ before rest, trace = before ++ .readInput .other :: rest →
      (before.foldl (posixMachine false).next
        (PosixState.init readFill writeFill)).client.isOpen = true →
      st.client.handed = (cutInput (typed trace)).map frame ∧ st.client.writing = false) ∧
    (st.client.writing = true → st.client.handed.getLast? = some st.client.writeMsg.bytes) ∧
    (∀ e, (posixMachine false).enabled st e → st.client.writing = true →
      ((posixMachine false).next st e).client.writeMsg = st.client.writeMsg) ∧
    (st.client.isOpen = true →
      ∃ e ∈ [PosixEvent.connect false, .write false, .readInput .none, .readInput .notFound,
        .readInput .other], (posixMachine false).enabled st e) := by
  have hinv := inputInv_of_run h
  refine ⟨?_, ?_, hinv.written, fun e he => hinv.writeMsg_kept he, hinv.progress⟩
  · intro more
    obtain ⟨bodies, hbodies, hcuts⟩ := hinv.pieces
    rw [hbodies]
    exact (hcuts.isPrefix more).map frame
  · rintro before rest rfl hopen
    obtain ⟨hbefore, he⟩ := h.at
    obtain ⟨hhanded, hstopped⟩ := (inputInv_of_run hbefore).ended he hopen
    obtain ⟨hstopped', hhanded', htyped⟩ := hstopped.run h.after
    refine ⟨?_, hstopped'.writing⟩
    rw [typed_append_cons, htyped, List.append_nil, ← hhanded]
    exact hhanded'

/-- Two lines in one read and the beginning of a third, which is not sent. -/
theorem input_is_cut_short :
    let trace : List PosixEvent := [.connect false, .typed (str "hi\n\nyo"), .readInput .none,
      .write false, .readInput .none, .write false, .readInput .other]
    let st := trace.foldl (posixMachine false).next (PosixState.init Fill.zero Fill.zero)
    st.client.handed = [str "   2hi", str "   0"] ∧
      st.client.handed = (cutInput (typed trace)).map frame ∧ st.client.writing = false := by
  intro trace st
  have hadmits : (posixMachine false).Admits (PosixState.init Fill.zero Fill.zero) trace := by
    decide +kernel
  obtain ⟨-, hend, -⟩ := input_is_cut Fill.zero Fill.zero hadmits.run
  refine ⟨by decide +kernel, hend (trace.take 6) [] rfl (by decide +kernel)⟩

end AsioExamples.Chat
