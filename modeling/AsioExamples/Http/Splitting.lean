import AsioExamples.Http.Server.Lifecycle
import AsioExamples.Http.Server4.Isolation

/-!
# Answers do not depend on how a stream is cut

A connection of the first server and a child of the third answer the stream that the client
sends: what they write, the request they have parsed and the byte on which they decide are
read off the stream, whatever the reads that have brought it.
-/

namespace AsioExamples.Http

set_option autoImplicit false

open Recogniser

/-- A stream cut into reads, none of them empty and none longer than the buffer. -/
structure Splitting (stream : Bytes) (cuts : List Bytes) : Prop where
  flatten : cuts.flatten = stream
  sizes : ∀ cut ∈ cuts, 1 ≤ cut.length ∧ cut.length ≤ 8192

theorem Splitting.flatten_isPrefix {stream : Bytes} {cuts received : List Bytes}
    (h : Splitting stream cuts) (hr : received <+: cuts) : received.flatten <+: stream := by
  obtain ⟨rest, rfl⟩ := hr
  exact ⟨rest.flatten, by rw [← h.flatten, List.flatten_append]⟩

/-- The reply of the handler does not depend on the status that nobody has set. -/
theorem RequestHandler.handle_fresh (docRoot : Bytes) (files : Bytes → Option Bytes) (uri : Bytes)
    (v w : Nat) :
    handle docRoot files uri (Reply.fresh v) = handle docRoot files uri (Reply.fresh w) :=
  rfl

namespace Server
variable (docRoot : Bytes) (files : Bytes → Option Bytes)

/-- The reply to a stream: that of the handler to the request, or the stock reply. -/
def streamReply (stream : Bytes) : Reply :=
  if (outcome stream).verdict = .yes then
    (RequestHandler.handleRequest docRoot files (outcome stream).state.2 (Reply.fresh 0)).rep
  else Reply.stockReply .badRequest

/-- A connection that has read `received` of the stream: it has started reads and, once the
deciding byte has been read, the write of the reply, after which nothing is changed. -/
structure AnswersStream (stream : Bytes) (received : List Bytes) (p : Peer) : Prop where
  started : Exchange.Answers (outcome stream) .read
    (.write (streamReply docRoot files stream).toBuffers) received p.started
  objects : (outcome stream).verdict ≠ .indeterminate →
    (outcome stream).consumed ≤ received.flatten.length →
      p.connection.request = (outcome stream).state.2 ∧
        p.connection.reply = streamReply docRoot files stream

variable {docRoot files}

theorem replyTo_eq {o : Outcome (RequestParser.State × Request)} (h : o.verdict ≠ .indeterminate)
    (status : Nat) : replyTo docRoot files status o =
      if o.verdict = .yes then
        (RequestHandler.handleRequest docRoot files o.state.2 (Reply.fresh 0)).rep
      else Reply.stockReply .badRequest := by
  unfold replyTo
  cases hv : o.verdict with
  | yes =>
    exact congrArg Http.RequestHandler.Handled.rep
      (Http.RequestHandler.handle_fresh docRoot files _ status 0)
  | no => rfl
  | indeterminate => exact absurd hv h

theorem answersStream_of_kept {status : Nat} {p : Peer} {received : List Bytes}
    (hkept : Kept docRoot files status p received) (hs : p.hasStarted = true) {stream : Bytes}
    (hstream : received.flatten <+: stream) : AnswersStream docRoot files stream received p := by
  have hanswers := Exchange.answers_of_prompt hkept.hasRead.prompt hstream .read
    (answerTo docRoot files status)
  rw [← hkept.started hs] at hanswers
  have hreply : (outcome stream).verdict ≠ .indeterminate →
      replyTo docRoot files status (outcome stream) = streamReply docRoot files stream :=
    fun hv => replyTo_eq hv _
  refine ⟨⟨hanswers.waiting, fun hv hle => ?_⟩, fun hv hle => ?_⟩
  · rw [← hreply hv]
    exact hanswers.answered hv hle
  · have hall : outcome received.flatten = outcome stream :=
      Exchange.run_eq_of_decided hstream ((Exchange.decided_iff hstream).mpr ⟨hv, hle⟩)
    have hparsed := hkept.hasRead.parsed
    have hreplied := hkept.hasRead.replied
    rw [hall] at hparsed hreplied
    exact ⟨congrArg Prod.snd hparsed, hreplied.trans (hreply hv)⟩

theorem answersStream {fills : Nat → Buffer × Nat} {trace : List ServerEvent} {st : ServerState}
    (h : (serverMachine docRoot files).Run (.init fills) trace st) {c : Nat}
    (hs : (st.peers c).hasStarted = true) {stream : Bytes}
    (hstream : (pieces c trace).flatten <+: stream) :
    AnswersStream docRoot files stream (pieces c trace) (st.peers c) :=
  answersStream_of_kept ((run_lifecycle h).kept c) hs hstream

end Server

namespace Server4
variable (docRoot : Bytes) (files : Bytes → Option Bytes) (cast : Bytes → Option Nat)

def fileEnv (contentLength : Nat) (fills : Option Nat → Buffer × Nat) : Env where
  cast := cast
  requestHandler req rep := (FileHandler.call docRoot files req rep).rep
  contentLength := contentLength
  fills := fills

/-- The parser on a stream; the first byte sets the length that nobody has set. -/
def streamOutcome (stream : Bytes) : Outcome (RequestParser.Parser × Request) :=
  RequestParser.parse cast (RequestParser.Parser.fresh 0, Request.fresh) stream

/-- The reply to a stream: that of the handler to the request, or the stock reply. -/
def streamReply (stream : Bytes) : Reply :=
  if (streamOutcome cast stream).verdict = .yes then
    (FileHandler.call docRoot files (streamOutcome cast stream).state.2 (Reply.fresh 0)).rep
  else Reply.stockReply .badRequest

/-- The child on socket `k`, when `received` has been read of the stream: it has started reads
and, once the deciding byte has been read, the write of the reply, and as long as that is
outstanding the request and the reply are what they were. -/
structure AnswersStream (stream : Bytes) (received : List Bytes) (k : Nat) (st : ServerState) :
    Prop where
  started : ∃ log, st.started.filter (·.socket == k) = .asyncAccept k :: log ∧
    Exchange.Answers (streamOutcome cast stream) (.asyncReadSome k k)
      (.asyncWrite k (streamReply docRoot files cast stream).toBuffers) received log
  objects : (streamOutcome cast stream).verdict ≠ .indeterminate →
    (streamOutcome cast stream).consumed ≤ received.flatten.length →
      ∀ p ∈ st.pending, p.handler.socket = some k →
        p.op = .asyncWrite k (streamReply docRoot files cast stream).toBuffers ∧
        st.heap.requests[k]? = some (streamOutcome cast stream).state.2 ∧
        ∃ w, p.handler.reply = some w ∧
          st.heap.replies[w]? = some (streamReply docRoot files cast stream)

/-- A stream that is not empty has the same outcome whatever the parser starts with. -/
theorem outcome_fileEnv (contentLength : Nat) (fills : Option Nat → Buffer × Nat)
    (stream : Bytes) :
    outcome (fileEnv docRoot files cast contentLength fills) stream = streamOutcome cast stream ∨
      stream = [] := by
  cases stream with
  | nil => exact .inr rfl
  | cons b stream => exact .inl (run_cons_congr _ rfl stream)

variable {docRoot files cast}

/-- What a child on socket `k` keeps, seen from the stream. -/
theorem answersStream {contentLength : Nat} {fills : Option Nat → Buffer × Nat}
    {trace : List ServerEvent} {st : ServerState}
    (h : (serverMachine (fileEnv docRoot files cast contentLength fills)).Run
      (ServerState.init (fileEnv docRoot files cast contentLength fills)) trace st) {k : Nat}
    (hk : k ∈ accepted trace) {stream : Bytes} (hstream : (pieces k trace).flatten <+: stream) :
    AnswersStream docRoot files cast stream (pieces k trace) k st := by
  obtain ⟨n, hi⟩ := run_isolated h
  have houtcome := outcome_fileEnv docRoot files cast contentLength fills stream
  generalize henv : fileEnv docRoot files cast contentLength fills = env at *
  have hlt : k < n := by
    rw [hi.accepted] at hk
    exact List.mem_range.mp hk
  have hstarted := (hi.started k).trans (if_pos hlt)
  have hanswers := Exchange.answers_of_prompt (hi.prompt k) hstream (.asyncReadSome k k)
    (answerTo env k)
  rcases houtcome with houtcome | rfl
  · have hreply : replyTo env k (outcome env stream) = streamReply docRoot files cast stream := by
      rw [houtcome, ← henv]
      rfl
    refine ⟨⟨_, hstarted, ?_⟩, fun hv hle p hp hsocket => ?_⟩
    · rw [← hreply, ← houtcome]
      exact hanswers
    · rw [← houtcome] at hv hle
      have hall : outcome env (pieces k trace).flatten = outcome env stream :=
        Exchange.run_eq_of_decided hstream ((Exchange.decided_iff hstream).mpr ⟨hv, hle⟩)
      have hchild : Child env st.heap k (pieces k trace) p := by
        rcases hi.held p hp with rfl | ⟨j, hj, hchild⟩
        · obtain rfl : n = k := Option.some.inj hsocket
          exact absurd hlt (Nat.lt_irrefl n)
        · obtain rfl : j = k := Option.some.inj (hchild.socket.symm.trans hsocket)
          exact hchild
      obtain ⟨req, hreq, hparsed⟩ := hchild.parsed
      rw [hall] at hparsed
      obtain ⟨hop, -, w, hw, hrep⟩ := hchild.writing (hall.symm ▸ hv)
      rw [hall] at hop hrep
      rw [← hreply, ← houtcome]
      exact ⟨hop, hreq.trans (congrArg some (congrArg Prod.snd hparsed)), w, hw, hrep⟩
  · refine ⟨⟨_, hstarted, hanswers.waiting, fun hv => absurd rfl hv⟩, fun hv => absurd rfl hv⟩

end Server4

/-- A stream cut in two ways, and for each server two connections that have read it cut so:
each of the four starts at most one write, on the read with the deciding byte, and writes the
reply to the stream, which the two connections of a server have in common. -/
theorem answers_independent_of_cuts (docRoot : Bytes) (files : Bytes → Option Bytes)
    (cast : Bytes → Option Nat) {stream : Bytes} {cuts cuts' : List Bytes}
    (hcuts : Splitting stream cuts) (hcuts' : Splitting stream cuts') :
    (∀ fills fills' trace st c trace' st' c',
      (Server.serverMachine docRoot files).Run (.init fills) trace st →
      (Server.serverMachine docRoot files).Run (.init fills') trace' st' →
      (st.peers c).hasStarted = true → (st'.peers c').hasStarted = true →
      Server.pieces c trace <+: cuts → Server.pieces c' trace' <+: cuts' →
      Server.AnswersStream docRoot files stream (Server.pieces c trace) (st.peers c) ∧
        Server.AnswersStream docRoot files stream (Server.pieces c' trace') (st'.peers c')) ∧
    ∀ length length' fills fills' trace st k trace' st' k',
      let env := Server4.fileEnv docRoot files cast length fills
      let env' := Server4.fileEnv docRoot files cast length' fills'
      (Server4.serverMachine env).Run (Server4.ServerState.init env) trace st →
      (Server4.serverMachine env').Run (Server4.ServerState.init env') trace' st' →
      k ∈ Server4.accepted trace → k' ∈ Server4.accepted trace' →
      Server4.pieces k trace <+: cuts → Server4.pieces k' trace' <+: cuts' →
      Server4.AnswersStream docRoot files cast stream (Server4.pieces k trace) k st ∧
        Server4.AnswersStream docRoot files cast stream (Server4.pieces k' trace') k' st' := by
  refine ⟨?_, ?_⟩
  · intro fills fills' trace st c trace' st' c' h h' hs hs' hr hr'
    exact ⟨Server.answersStream h hs (hcuts.flatten_isPrefix hr),
      Server.answersStream h' hs' (hcuts'.flatten_isPrefix hr')⟩
  · intro length length' fills fills' trace st k trace' st' k' env env' h h' hk hk' hr hr'
    exact ⟨Server4.answersStream h hk (hcuts.flatten_isPrefix hr),
      Server4.answersStream h' hk' (hcuts'.flatten_isPrefix hr')⟩

/-- The two bytes of a bad request, read at once and one by one. -/
theorem answers_independent_of_cuts_bad :
    let files : Bytes → Option Bytes := fun _ => none
    let cast : Bytes → Option Nat := fun _ => none
    let fill : Buffer × Nat := (Buffer.zero, 0)
    let server := Server.serverMachine (str "/www") files
    let atOnce : List Server.ServerEvent := [.accepted 0 .success, .handleAccept 0 .success,
      .completed 0 .read .success (str "G("), .handle 0 .read .success (str "G(")]
    let oneByOne : List Server.ServerEvent := [.accepted 0 .success, .handleAccept 0 .success,
      .completed 0 .read .success (str "G"), .handle 0 .read .success (str "G"),
      .completed 0 .read .success (str "("), .handle 0 .read .success (str "(")]
    let env := Server4.fileEnv (str "/www") files cast 0 fun _ => fill
    let reading : Server4.Pending := ⟨.asyncReadSome 0 0, { (Server4.childOn env 0).handler with
      validRequest := .indeterminate, requestParser := ⟨.head .method, 0⟩ }⟩
    let atOnce₄ : List Server4.ServerEvent :=
      [⟨Server4.parentOn env 0, false, []⟩, ⟨Server4.childOn env 0, false, str "G("⟩]
    let oneByOne₄ : List Server4.ServerEvent :=
      [⟨Server4.parentOn env 0, false, []⟩, ⟨Server4.childOn env 0, false, str "G"⟩,
        ⟨reading, false, str "("⟩]
    (∃ st st', server.Run (.init fun _ => fill) atOnce st ∧
      server.Run (.init fun _ => fill) oneByOne st' ∧
      Server.AnswersStream (str "/www") files (str "G(") (Server.pieces 0 atOnce) (st.peers 0) ∧
      Server.AnswersStream (str "/www") files (str "G(") (Server.pieces 0 oneByOne)
        (st'.peers 0)) ∧
    ∃ st st', (Server4.serverMachine env).Run (Server4.ServerState.init env) atOnce₄ st ∧
      (Server4.serverMachine env).Run (Server4.ServerState.init env) oneByOne₄ st' ∧
      Server4.AnswersStream (str "/www") files cast (str "G(") (Server4.pieces 0 atOnce₄) 0 st ∧
      Server4.AnswersStream (str "/www") files cast (str "G(") (Server4.pieces 0 oneByOne₄) 0
        st' := by
  intro files cast fill server atOnce oneByOne env reading atOnce₄ oneByOne₄
  have hcuts : Splitting (str "G(") [str "G("] := ⟨rfl, by decide⟩
  have hcuts' : Splitting (str "G(") [str "G", str "("] := ⟨rfl, by decide⟩
  have hadmits : server.Admits (.init fun _ => fill) atOnce := by decide +kernel
  have hadmits' : server.Admits (.init fun _ => fill) oneByOne := by decide +kernel
  have hadmits₄ : (Server4.serverMachine env).Admits (Server4.ServerState.init env) atOnce₄ := by
    decide +kernel
  have hadmits₄' : (Server4.serverMachine env).Admits (Server4.ServerState.init env)
      oneByOne₄ := by decide +kernel
  obtain ⟨h, h₄⟩ := answers_independent_of_cuts (str "/www") files cast hcuts hcuts'
  refine ⟨⟨_, _, hadmits.run, hadmits'.run, ?_⟩, ⟨_, _, hadmits₄.run, hadmits₄'.run, ?_⟩⟩
  · exact h _ _ _ _ 0 _ _ 0 hadmits.run hadmits'.run (by decide +kernel) (by decide +kernel)
      (by decide +kernel) (by decide +kernel)
  · exact h₄ 0 0 _ _ _ _ 0 _ _ 0 hadmits₄.run hadmits₄'.run (by decide +kernel) (by decide +kernel)
      (by decide +kernel) (by decide +kernel)

end AsioExamples.Http
