import AsioExamples.Http.Client
import AsioExamples.Http.RequestAgreement
import AsioExamples.Theory.Machine

/-!
# The asynchronous client, handler by handler

The client resolves, connects, writes its request and reads the reply in three reads that
follow one another. With no failure but the end of the stream it does what `AsyncClient.run`
does with the pieces that have come.
-/

namespace AsioExamples.Http

set_option autoImplicit false

/-- What an operation that fails hands to its handler, with the words in which it is printed. -/
inductive Failure where
  | eof
  | other (message : Bytes)
deriving DecidableEq

/-- The operation whose handler is to run next. -/
inductive ClientStage where
  | resolve
  | connect
  | writeRequest
  | readStatusLine
  | readHeaders
  | readContent
  | finished
deriving DecidableEq

/-- `arrived` tells whether the read of the content has got something. -/
structure ClientProcess where
  request : Bytes
  client : AsyncClient
  stage : ClientStage
  arrived : Bool
deriving DecidableEq

section Process
variable (eof : Bytes)

def Failure.message : Failure → Bytes
  | .eof => eof
  | .other message => message

namespace ClientProcess

/-- The constructor forms the request and starts the resolve. -/
def new (server path : Bytes) : ClientProcess :=
  ⟨AsyncClient.request server path, ⟨[], OStream.empty⟩, .resolve, false⟩

def printError (p : ClientProcess) (err : Failure) : ClientProcess :=
  { p with client := p.client.error (err.message eof), stage := .finished }

def handleResolve (p : ClientProcess) : Option Failure → ClientProcess
  | none => { p with stage := .connect }
  | some err => p.printError eof err

def handleConnect (p : ClientProcess) : Option Failure → ClientProcess
  | none => { p with stage := .writeRequest }
  | some err => p.printError eof err

def handleWriteRequest (p : ClientProcess) : Option Failure → ClientProcess
  | none => { p with stage := .readStatusLine }
  | some err => p.printError eof err

def handleReadStatusLine (p : ClientProcess) : Option Failure → ClientProcess
  | none =>
    match p.client.handleReadStatusLine with
    | (c, true) => { p with client := c, stage := .readHeaders }
    | (c, false) => { p with client := c, stage := .finished }
  | some err => p.printError eof err

def handleReadHeaders (p : ClientProcess) : Option Failure → ClientProcess
  | none => { p with client := p.client.handleReadHeaders, stage := .readContent, arrived := false }
  | some err => p.printError eof err

def handleReadContent (p : ClientProcess) : Option Failure → ClientProcess
  | none => { p with client := p.client.handleReadContent, arrived := false }
  | some .eof => { p with stage := .finished }
  | some err => p.printError eof err

/-- The handler of the read that is outstanding. -/
def handleRead (p : ClientProcess) (err : Option Failure) : ClientProcess :=
  match p.stage with
  | .readStatusLine => p.handleReadStatusLine eof err
  | .readHeaders => p.handleReadHeaders eof err
  | .readContent => p.handleReadContent eof err
  | _ => p

def reads (p : ClientProcess) : Bool :=
  match p.stage with
  | .readStatusLine => true
  | .readHeaders => true
  | .readContent => true
  | _ => false

/-- Whether the outstanding read has what it waits for. -/
def satisfied (p : ClientProcess) : Bool :=
  match p.stage with
  | .readStatusLine => decide (crlf <:+: p.client.response)
  | .readHeaders => decide (crlf ++ crlf <:+: p.client.response)
  | .readContent => p.arrived
  | _ => false

/-- More bytes in the streambuf that the outstanding read fills. -/
def receive (p : ClientProcess) (piece : Bytes) : ClientProcess :=
  { p with
    client := { p.client with response := p.client.response ++ piece }
    arrived := true }

end ClientProcess

inductive ClientEvent where
  | resolved (err : Option Failure)
  | connected (err : Option Failure)
  | wroteRequest (err : Option Failure)
  | arrived (piece : Bytes)
  | read (err : Option Failure)
deriving DecidableEq

/-- A read goes on until it has what it waits for, or fails. -/
def clientMachine : Machine ClientProcess ClientEvent where
  enabled p
    | .resolved _ => p.stage = .resolve
    | .connected _ => p.stage = .connect
    | .wroteRequest _ => p.stage = .writeRequest
    | .arrived piece => p.reads = true ∧ p.satisfied = false ∧ piece ≠ []
    | .read none => p.satisfied = true
    | .read (some _) => p.reads = true ∧ p.satisfied = false
  next p
    | .resolved err => p.handleResolve eof err
    | .connected err => p.handleConnect eof err
    | .wroteRequest err => p.handleWriteRequest eof err
    | .arrived piece => p.receive piece
    | .read err => p.handleRead eof err

instance : ∀ (p : ClientProcess) (e : ClientEvent), Decidable ((clientMachine eof).enabled p e)
  | p, .resolved _ => inferInstanceAs (Decidable (p.stage = .resolve))
  | p, .connected _ => inferInstanceAs (Decidable (p.stage = .connect))
  | p, .wroteRequest _ => inferInstanceAs (Decidable (p.stage = .writeRequest))
  | _, .arrived _ => inferInstanceAs (Decidable (_ ∧ _ ∧ _))
  | p, .read none => inferInstanceAs (Decidable (p.satisfied = true))
  | _, .read (some _) => inferInstanceAs (Decidable (_ ∧ _))

/-- A failure other than the end of the stream that is being read. -/
def ClientEvent.fails : ClientEvent → Bool
  | .resolved err => err.isSome
  | .connected err => err.isSome
  | .wroteRequest err => err.isSome
  | .arrived _ => false
  | .read err => match err with
    | some (.other _) => true
    | _ => false

def ClientEvent.piece : ClientEvent → Option Bytes
  | .arrived piece => some piece
  | _ => none

/-- The pieces in which the reply has come. -/
def arrivals (trace : List ClientEvent) : List Bytes := trace.filterMap ClientEvent.piece

/-- What will have been printed when the rest of the stream has come. -/
def ClientProcess.resume (p : ClientProcess) (more : List Bytes) : OStream :=
  match p.stage with
  | .readHeaders => (p.client.readHeaders eof more).out
  | .readContent =>
    ((if p.arrived then p.client.handleReadContent else p.client).readContent more).out
  | .finished => p.client.out
  | _ =>
    match readUntil crlf p.client.response more with
    | none => (p.client.error eof).out
    | some (response, more) =>
      match { p.client with response }.handleReadStatusLine with
      | (c, true) => (c.readHeaders eof more).out
      | (c, false) => c.out

end Process

section Steps
variable {eof : Bytes} {p : ClientProcess}

theorem readUntil_of_delimited {delim buf : Bytes} (h : delim <:+: buf) (more : List Bytes) :
    readUntil delim buf more = some (buf, more) := by
  cases more with
  | nil => exact if_pos h
  | cons piece more => exact if_pos h

theorem readUntil_of_undelimited {delim buf : Bytes} (h : ¬ delim <:+: buf) (piece : Bytes)
    (more : List Bytes) :
    readUntil delim buf (piece :: more) = readUntil delim (buf ++ piece) more := if_neg h

theorem resume_receive (h : p.reads = true) (hs : p.satisfied = false) (piece : Bytes)
    (more : List Bytes) : (p.receive piece).resume eof more = p.resume eof (piece :: more) := by
  unfold ClientProcess.reads at h
  unfold ClientProcess.satisfied at hs
  unfold ClientProcess.resume
  change (match p.stage with
    | .readHeaders => _
    | .readContent => _
    | .finished => _
    | _ => _) = _
  cases hstage : p.stage with
  | readStatusLine =>
    rw [hstage] at hs
    have hno : ¬ crlf <:+: p.client.response := by simpa using hs
    simp only [readUntil_of_undelimited hno]
    rfl
  | readHeaders =>
    rw [hstage] at hs
    have hno : ¬ crlf ++ crlf <:+: p.client.response := by simpa using hs
    simp only [AsyncClient.readHeaders, readUntil_of_undelimited hno]
    change (match readUntil (crlf ++ crlf) (p.client.response ++ piece) more with
      | none => _
      | some (response, more) => _ : AsyncClient).out = _
    cases readUntil (crlf ++ crlf) (p.client.response ++ piece) more <;> rfl
  | readContent =>
    rw [hstage] at hs
    have hno : p.arrived = false := hs
    simp only [hno]
    rfl
  | resolve => simp [hstage] at h
  | connect => simp [hstage] at h
  | writeRequest => simp [hstage] at h
  | finished => simp [hstage] at h

theorem resume_read (hs : p.satisfied = true) (more : List Bytes) :
    (p.handleRead eof none).resume eof more = p.resume eof more := by
  unfold ClientProcess.satisfied at hs
  unfold ClientProcess.handleRead
  cases hstage : p.stage with
  | readStatusLine =>
    rw [hstage] at hs
    have hyes : crlf <:+: p.client.response := by simpa using hs
    obtain ⟨c, ok, hline⟩ : ∃ c ok, p.client.handleReadStatusLine = (c, ok) := ⟨_, _, rfl⟩
    simp only [ClientProcess.resume, hstage, readUntil_of_delimited hyes,
      ClientProcess.handleReadStatusLine, hline]
    cases ok <;> rfl
  | readHeaders =>
    rw [hstage] at hs
    have hyes : crlf ++ crlf <:+: p.client.response := by simpa using hs
    simp only [ClientProcess.resume, hstage, AsyncClient.readHeaders, readUntil_of_delimited hyes,
      ClientProcess.handleReadHeaders]
    rfl
  | readContent =>
    rw [hstage] at hs
    have hyes : p.arrived = true := hs
    simp only [ClientProcess.resume, hstage, ClientProcess.handleReadContent, hyes]
    rfl
  | resolve => simp [hstage] at hs
  | connect => simp [hstage] at hs
  | writeRequest => simp [hstage] at hs
  | finished => simp [hstage] at hs

/-- The end of the stream, where nothing more comes. -/
theorem resume_eof (h : p.reads = true) (hs : p.satisfied = false) :
    (p.handleRead eof (some .eof)).stage = .finished ∧
      (p.handleRead eof (some .eof)).client.out = p.resume eof [] := by
  unfold ClientProcess.reads at h
  unfold ClientProcess.satisfied at hs
  unfold ClientProcess.handleRead ClientProcess.resume
  cases hstage : p.stage with
  | readStatusLine =>
    rw [hstage] at hs
    have hno : ¬ crlf <:+: p.client.response := by simpa using hs
    refine ⟨rfl, ?_⟩
    simp only [readUntil, if_neg hno]
    rfl
  | readHeaders =>
    rw [hstage] at hs
    have hno : ¬ crlf ++ crlf <:+: p.client.response := by simpa using hs
    refine ⟨rfl, ?_⟩
    simp only [AsyncClient.readHeaders, readUntil, if_neg hno]
    rfl
  | readContent =>
    rw [hstage] at hs
    have hno : p.arrived = false := hs
    refine ⟨rfl, ?_⟩
    simp only [hno]
    rfl
  | resolve => simp [hstage] at h
  | connect => simp [hstage] at h
  | writeRequest => simp [hstage] at h
  | finished => simp [hstage] at h

end Steps

section Output

theorem text_put (out : OStream) (text : Bytes) : out.text <+: (out.put text).text := by
  unfold OStream.put
  split
  · exact List.prefix_rfl
  · exact List.prefix_append _ _

theorem text_putBuffer (out : OStream) (buf : Bytes) : out.text <+: (out.putBuffer buf).text := by
  unfold OStream.putBuffer
  split
  · exact List.prefix_rfl
  · exact List.prefix_append _ _

theorem text_putRest (out : OStream) (buf : Bytes) : out.text <+: (putRest out buf).text := by
  unfold putRest
  split
  · exact text_putBuffer out buf
  · exact List.prefix_rfl

theorem text_printHeaders (s : IStream) (out : OStream) :
    out.text <+: (printHeaders s out).2.text := by
  induction s, out using printHeaders.induct with
  | case1 s out h ih =>
    rw [printHeaders, dif_pos h]
    exact (text_put out _).trans ih
  | case2 s out h =>
    rw [printHeaders, dif_neg h]

namespace AsyncClient
variable (eof : Bytes) (c : AsyncClient)

theorem text_handleReadStatusLine : c.out.text <+: c.handleReadStatusLine.1.out.text := by
  unfold handleReadStatusLine
  rcases readStatusLine (.fresh c.response) with ⟨statusCode, s⟩
  cases statusCode with
  | none => exact text_put _ _
  | some statusCode =>
    simp only
    split
    · exact text_put _ _
    · exact List.prefix_rfl

theorem text_handleReadHeaders : c.out.text <+: c.handleReadHeaders.out.text := by
  have hprint := text_printHeaders (.fresh c.response) c.out
  exact hprint.trans ((text_put _ _).trans (text_putRest _ _))

theorem text_handleReadContent : c.out.text <+: c.handleReadContent.out.text :=
  text_putBuffer _ _

theorem text_readContent (pieces : List Bytes) :
    c.out.text <+: (c.readContent pieces).out.text := by
  induction pieces generalizing c with
  | nil => exact List.prefix_rfl
  | cons piece pieces ih =>
    have hpiece : c.out.text <+:
        ({ c with response := c.response ++ piece } : AsyncClient).handleReadContent.out.text :=
      text_handleReadContent { c with response := c.response ++ piece }
    exact hpiece.trans (ih _)

theorem text_readHeaders (pieces : List Bytes) :
    c.out.text <+: (c.readHeaders eof pieces).out.text := by
  unfold readHeaders
  cases readUntil (crlf ++ crlf) c.response pieces with
  | none => exact text_put _ _
  | some found =>
    have hheaders : c.out.text <+:
        ({ c with response := found.1 } : AsyncClient).handleReadHeaders.out.text :=
      text_handleReadHeaders { c with response := found.1 }
    exact hheaders.trans (text_readContent _ _)

end AsyncClient

/-- Whatever comes, what is printed is printed. -/
theorem text_resume (eof : Bytes) (p : ClientProcess) (more : List Bytes) :
    p.client.out.text <+: (p.resume eof more).text := by
  have hline : p.client.out.text <+: (match readUntil crlf p.client.response more with
      | none => (p.client.error eof).out
      | some (response, more) =>
        match { p.client with response }.handleReadStatusLine with
        | (c, true) => (c.readHeaders eof more).out
        | (c, false) => c.out : OStream).text := by
    cases readUntil crlf p.client.response more with
    | none => exact text_put _ _
    | some found =>
      have hstatus : p.client.out.text <+:
          ({ p.client with response := found.1 } : AsyncClient).handleReadStatusLine.1.out.text :=
        AsyncClient.text_handleReadStatusLine { p.client with response := found.1 }
      simp only
      rcases hl : AsyncClient.handleReadStatusLine ⟨found.1, p.client.out⟩ with ⟨c, ok⟩
      rw [hl] at hstatus
      cases ok with
      | true => exact hstatus.trans (AsyncClient.text_readHeaders eof c _)
      | false => exact hstatus
  unfold ClientProcess.resume
  cases p.stage with
  | readHeaders => exact AsyncClient.text_readHeaders eof _ _
  | readContent =>
    cases p.arrived with
    | true =>
      exact (AsyncClient.text_handleReadContent _).trans (AsyncClient.text_readContent _ _)
    | false => exact AsyncClient.text_readContent _ _
  | finished => exact List.prefix_rfl
  | resolve => exact hline
  | connect => exact hline
  | writeRequest => exact hline
  | readStatusLine => exact hline

end Output

end AsioExamples.Http
