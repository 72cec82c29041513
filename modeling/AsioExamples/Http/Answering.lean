import AsioExamples.Http.Network
import AsioExamples.Http.ReplyAgreement
import AsioExamples.Http.RequestAgreement

/-!
# The answer to a client

The first server decides on every request that a client can form, so there is one reply to it.
In every run of the network the server reads the request as it was sent, and writes that reply
and nothing else.
-/

namespace AsioExamples.Http

set_option autoImplicit false

open Recogniser Exchange
open Server (ServerEvent Peer Operation OpKind Completes PeerStep Launched outcome pieces replyTo
  serverMachine)
open Server.RequestParser (consume reset)

section Decision

/-- After an empty line the parser never asks for more. -/
theorem decided_of_blank (s : Server.RequestParser.State × Request) :
    (run consume s (crlf ++ crlf)).verdict ≠ .indeterminate := by
  rcases s with ⟨state, req⟩
  cases state <;> exact Tribool.noConfusion

theorem outcome_decided (server path : Bytes) :
    (outcome (formRequest server path)).verdict ≠ .indeterminate := by
  have hw : formRequest server path = (str "GET " ++ path ++ str " HTTP/1.0\r\n" ++
      (str "Host: " ++ server ++ str "\r\n") ++ str "Accept: */*\r\n" ++
      str "Connection: close") ++ (crlf ++ crlf) := by
    have hend : str "Connection: close\r\n\r\n" = str "Connection: close" ++ (crlf ++ crlf) := by
      decide
    unfold formRequest
    rw [hend, ← List.append_assoc]
  rw [hw]
  unfold outcome Server.RequestParser.parse
  generalize str "GET " ++ path ++ _ ++ _ ++ _ ++ str "Connection: close" = head
  by_cases hhead : (run consume (reset, Request.fresh) head).verdict = .indeterminate
  · rw [run_append_of_indeterminate _ hhead]
    exact decided_of_blank _
  · rw [run_append_of_decided _ hhead]
    exact hhead

end Decision

namespace Site
variable (site : Site) (c : Nat)

def request : Bytes := AsyncClient.request (site.server c) (site.path c)

/-- What the server makes of the request that client `c` forms. -/
def reply : Reply := replyTo site.docRoot site.files (site.fills c).2 (outcome (site.request c))

def answer : Bytes := (site.reply c).toBuffers.flatten

/-- A path and a server that the parser gets out of the request again. -/
def Plain : Prop :=
  (∀ b ∈ site.path c, ¬ Control b ∧ b ≠ chr ' ') ∧ ∀ b ∈ site.server c, ¬ Control b

/-- The reply has the two headers of its content, so that the clients can print it. -/
theorem reply_contentHeaders : ∃ contentType, (site.reply c).status.Named ∧
    (site.reply c).headers = contentHeaders (site.reply c).content contentType ∧
    OneLine contentType := by
  have hdecided := outcome_decided (site.server c) (site.path c)
  unfold reply replyTo
  cases hv : (outcome (site.request c)).verdict with
  | yes => exact handle_contentHeaders _ _ _ _
  | no => exact ⟨str "text/html", fun _ hf => StatusType.noConfusion hf, rfl, by decide +kernel⟩
  | indeterminate => exact absurd hv hdecided

variable {site c}

theorem reply_of_plain (h : site.Plain c) :
    site.reply c = (Server.RequestHandler.handleRequest site.docRoot site.files
      (intended (site.server c) (site.path c)) (Reply.fresh (site.fills c).2)).rep := by
  obtain ⟨hyes, -, hrequest⟩ := understood_formRequest h.1 h.2
  have hyes : (outcome (site.request c)).verdict = .yes := hyes
  have hrequest : (outcome (site.request c)).state.2 = intended (site.server c) (site.path c) :=
    hrequest
  unfold reply replyTo
  rw [hyes, hrequest]

theorem run_answer {pieces : List Bytes} (hne : ∀ p ∈ pieces, p ≠ [])
    (hbytes : pieces.flatten = site.answer c) :
    (AsyncClient.run site.eof pieces).out = ⟨(site.reply c).printed, false⟩ := by
  obtain ⟨contentType, hs, hh, ht⟩ := site.reply_contentHeaders c
  exact (run_printed site.eof hs hh ht hne hbytes).1

end Site

section Server
variable {docRoot : Bytes} {files : Bytes → Option Bytes} {status : Nat} {p : Peer}
  {read : List Bytes}

/-- What an event of the server reads from connection `c`. -/
def taken (c : Nat) : ServerEvent → Bytes
  | .completed d .read _ transferred => if d = c then transferred else []
  | _ => []

/-- What connection `c` has received is what its handlers have been given, and the result of a
read whose handler is still to run. -/
structure Receives (p : Peer) (read : List Bytes) (received : Bytes) : Prop where
  idle : p.hasStarted = false → received = []
  given : read.flatten <+: received
  pending : ⟨.read, none⟩ ∈ p.outstanding → read.flatten = received
  complete : ∀ t, ⟨.read, some (.success, t)⟩ ∈ p.outstanding → read.flatten ++ t = received

variable {received : Bytes}

theorem receives_handled (hkept : Server.Kept docRoot files status p read)
    (h : Receives p read received) {kind : OpKind} {er : Server.ErrorCode} {t : Bytes}
    (hop : ⟨kind, some (er, t)⟩ ∈ p.outstanding) :
    Receives (Server.ServerState.handled docRoot files kind er t p)
      (read ++ if kind = .read ∧ er = .success then [t] else []) received := by
  have hstarted : (Server.ServerState.handled docRoot files kind er t p).hasStarted = true := by
    rw [Server.hasStarted_handled]
    exact Server.hasStarted_of_mem hkept hop
  have hidle : (Server.ServerState.handled docRoot files kind er t p).hasStarted = false →
      received = [] := by
    intro hno
    rw [hstarted] at hno
    cases hno
  rcases Server.outstanding_handled hkept hop with ⟨rfl, rfl, -, hout⟩ | ⟨hno, -, hout⟩
  · have hall : (read ++ [t]).flatten = received := by
      rw [List.flatten_append, List.flatten_singleton]
      exact h.complete t hop
    rw [if_pos ⟨rfl, rfl⟩]
    refine ⟨hidle, hall ▸ List.prefix_rfl, fun _ => hall, fun t' hmem => ?_⟩
    rw [hout] at hmem
    obtain ⟨-, hcompletion⟩ := Operation.mk.inj (List.mem_singleton.mp hmem)
    split at hcompletion
    · cases hcompletion
    · cases hcompletion
  · rw [if_neg hno, List.append_nil]
    refine ⟨hidle, h.given, fun hmem => ?_, fun t' hmem => ?_⟩
    · rw [hout] at hmem
      cases hmem
    · rw [hout] at hmem
      cases hmem

theorem receives_completed (hkept : Server.Kept docRoot files status p read)
    (h : Receives p read received) {kind : OpKind} (er : Server.ErrorCode) (t : Bytes)
    (hop : ⟨kind, none⟩ ∈ p.outstanding) :
    Receives (p.complete kind er t) read (received ++ if kind = .read then t else []) := by
  have hout : (p.complete kind er t).outstanding = [⟨kind, some (er, t)⟩] := by
    simp [Peer.complete, Server.outstanding_eq_of_mem hkept hop]
  have hstarted := Server.hasStarted_of_mem hkept hop
  refine ⟨fun hno => ?_, h.given.trans (List.prefix_append _ _), fun hmem => ?_,
    fun t' hmem => ?_⟩
  · have hno : p.hasStarted = false := hno
    rw [hstarted] at hno
    cases hno
  · rw [hout] at hmem
    cases List.mem_singleton.mp hmem
  · rw [hout] at hmem
    cases List.mem_singleton.mp hmem
    rw [if_pos rfl, h.pending hop]

theorem receives_step {c : Nat} {e : ServerEvent} {p' : Peer}
    (hstep : PeerStep docRoot files c e p p') (hkept : Server.Kept docRoot files status p read)
    (h : Receives p read received) :
    Receives p' (read ++ (Server.piece c e).toList) (received ++ taken c e) := by
  cases hstep with
  | alone hcompleted hhandle =>
    have hpiece : Server.piece c e = none := by
      cases e with
      | handle d kind er t =>
        refine if_neg fun hd => hhandle kind er t ?_
        rw [hd.1]
      | _ => rfl
    have htaken : taken c e = [] := by
      cases e with
      | completed d kind er t =>
        have hd : d ≠ c := fun hd => hcompleted kind er t (by rw [hd])
        cases kind with
        | read => exact if_neg hd
        | write buffers => rfl
      | _ => rfl
    rw [hpiece, htaken]
    simpa using h
  | opened =>
    rw [show taken c (.accepted c .success) = [] from rfl,
      show Server.piece c (.accepted c .success) = none from rfl]
    simpa using (⟨h.idle, h.given, h.pending, h.complete⟩ : Receives { p with isOpen := true } _ _)
  | started hnew hopen =>
    obtain ⟨hout, -, rfl⟩ := hkept.idle hnew
    have hout' : p.start.outstanding = [⟨.read, none⟩] := by
      change p.outstanding ++ [⟨.read, if p.isOpen then none else _⟩] = _
      rw [hout, hopen]
      rfl
    rw [show taken c (.handleAccept c .success) = [] from rfl, h.idle hnew]
    refine ⟨fun _ => rfl, List.prefix_rfl, fun _ => rfl, fun t hmem => ?_⟩
    rw [hout'] at hmem
    cases List.mem_singleton.mp hmem
  | completed hop hc =>
    rename_i kind er t
    have hcompleted := receives_completed hkept h er t hop
    have htaken : taken c (.completed c kind er t) = if kind = .read then t else [] := by
      cases kind with
      | read => exact if_pos rfl
      | write buffers => rfl
    rw [htaken, show Server.piece c (.completed c kind er t) = none from rfl]
    simpa using hcompleted
  | handled hop =>
    rename_i kind er t
    have hhandled := receives_handled hkept h hop
    have hpiece : (Server.piece c (.handle c kind er t)).toList =
        if kind = .read ∧ er = .success then [t] else [] := by
      by_cases hread : kind = .read ∧ er = .success
      · have hsome : Server.piece c (.handle c kind er t) = some t := if_pos ⟨rfl, hread⟩
        rw [if_pos hread, hsome]
        rfl
      · have hnone : Server.piece c (.handle c kind er t) = none := if_neg fun hd => hread hd.2
        rw [if_neg hread, hnone]
        rfl
    rw [hpiece, show taken c (.handle c kind er t) = [] from rfl, List.append_nil]
    exact hhandled
  | closed =>
    have habort : ∀ {kind : OpKind} {x : Option (Server.ErrorCode × Bytes)},
        x.map Prod.fst ≠ some .operationAborted → ⟨kind, x⟩ ∈ p.close.outstanding →
        ⟨kind, x⟩ ∈ p.outstanding := by
      intro kind x hx hmem
      obtain ⟨op, hop, heq⟩ := List.mem_map.mp hmem
      unfold Operation.abort at heq
      split at heq
      · cases heq
        exact absurd rfl hx
      · rw [← heq]
        exact hop
    rw [show taken c .handleStop = [] from rfl,
      show Server.piece c .handleStop = none from rfl]
    simp only [Option.toList_none, List.append_nil]
    exact ⟨h.idle, h.given, fun hmem => h.pending (habort (by simp) hmem),
      fun t hmem => h.complete t (habort (by simp) hmem)⟩

end Server

section Runs
variable {site : Site} {trace : List NetworkEvent} {st : Network}

theorem received_afterServer {e : ServerEvent} (h : st.ServerMay e) (c : Nat) :
    (Network.afterServer st.up e c).received = (st.up c).received ++ taken c e := by
  have hsame : ∀ e, Network.afterServer st.up e = st.up → taken c e = [] →
      (Network.afterServer st.up e c).received = (st.up c).received ++ taken c e := by
    intro e hup htaken
    rw [hup, htaken, List.append_nil]
  cases e with
  | completed d kind er t =>
    cases kind with
    | write buffers => exact hsame _ rfl rfl
    | read =>
      by_cases hd : d = c
      · subst hd
        rw [show taken d (.completed d .read er t) = t from if_pos rfl, ← Pipe.received_receive h]
        exact congrArg Pipe.received (Function.update_self ..)
      · rw [show taken c (.completed d .read er t) = [] from if_neg hd, List.append_nil]
        exact congrArg Pipe.received (Function.update_of_ne (Ne.symm hd) ..)
  | accepted d er => exact hsame _ rfl rfl
  | handleAccept d er => exact hsame _ rfl rfl
  | handle d kind er t => exact hsame _ rfl rfl
  | handleStop => exact hsame _ rfl rfl

theorem sent_afterServer (up : Nat → Pipe UInt8) (e : ServerEvent) (c : Nat) :
    (Network.afterServer up e c).sent = (up c).sent := by
  cases e with
  | completed d kind er t =>
    cases kind with
    | write buffers => rfl
    | read =>
      change (Function.update up d _ c).sent = _
      by_cases hd : c = d
      · subst hd
        rw [Function.update_self]
        rfl
      · rw [Function.update_of_ne hd]
  | _ => rfl

theorem sent_afterClient (down : Nat → Pipe UInt8) (d : Nat) (e : ClientEvent) (c : Nat) :
    (Network.afterClient down d e c).sent = (down c).sent := by
  cases e with
  | arrived piece =>
    change (Function.update down d _ c).sent = _
    by_cases hd : c = d
    · subst hd
      rw [Function.update_self]
      rfl
    · rw [Function.update_of_ne hd]
  | _ => rfl

theorem kept_of_run (h : (networkMachine site).Run (.init site) trace st) (c : Nat) :
    Server.Kept site.docRoot site.files (site.fills c).2 (st.server.peers c)
      (pieces c (serverTrace trace)) :=
  (network_lifecycle h).kept c

/-- The server reads what the client has sent. -/
theorem receives_of_run (h : (networkMachine site).Run (.init site) trace st) (c : Nat) :
    Receives (st.server.peers c) (pieces c (serverTrace trace)) (st.up c).received := by
  refine h.invariant_along (I := fun trace st =>
    Receives (st.server.peers c) (pieces c (serverTrace trace)) (st.up c).received) ?_ ?_
  · exact ⟨fun _ => rfl, List.prefix_rfl, fun _ => rfl, fun _ hmem => by cases hmem⟩
  · intro trace st e hrun hi he
    rw [serverTrace_concat]
    cases e with
    | server e =>
      have hstep := Server.peerStep (network_lifecycle hrun) he.1 c
      have hreceives := receives_step hstep (kept_of_run hrun c) hi
      rw [← received_afterServer he.2] at hreceives
      rw [show NetworkEvent.atServer (.server e) = some e from rfl, Option.toList_some,
        Server.pieces_concat]
      exact hreceives
    | client d e => simpa [NetworkEvent.atServer, networkMachine] using hi
    | sendUp d piece =>
      have hreceived : (Function.update st.up d ((st.up d).send piece) c).received =
          (st.up c).received := by
        by_cases hd : c = d
        · subst hd
          rw [Function.update_self]
          rfl
        · rw [Function.update_of_ne hd]
      simpa [NetworkEvent.atServer, networkMachine, hreceived] using hi
    | sendDown d buffers piece => simpa [NetworkEvent.atServer, networkMachine] using hi

theorem request_next (eof : Bytes) (p : ClientProcess) (e : ClientEvent) :
    ((clientMachine eof).next p e).request = p.request := by
  have hread : ∀ err, (p.handleRead eof err).request = p.request := by
    intro err
    unfold ClientProcess.handleRead
    cases p.stage with
    | readStatusLine =>
      cases err with
      | none =>
        simp only [ClientProcess.handleReadStatusLine]
        split <;> rfl
      | some err => rfl
    | readHeaders => cases err <;> rfl
    | readContent =>
      rcases err with _ | _ | _ <;> rfl
    | _ => rfl
  cases e with
  | resolved err => cases err <;> rfl
  | connected err => cases err <;> rfl
  | wroteRequest err => cases err <;> rfl
  | arrived piece => rfl
  | read err => exact hread err

/-- A client sends nothing but its request. -/
theorem asks_of_run (h : (networkMachine site).Run (.init site) trace st) (c : Nat) :
    (st.clients c).request = site.request c ∧ (st.up c).sent <+: site.request c := by
  refine h.invariant (I := fun _ st =>
    (st.clients c).request = site.request c ∧ (st.up c).sent <+: site.request c) ?_ ?_
  · exact ⟨rfl, List.nil_prefix⟩
  · intro trace st e hi he
    cases e with
    | server e =>
      refine ⟨hi.1, ?_⟩
      change (Network.afterServer st.up e c).sent <+: _
      rw [sent_afterServer]
      exact hi.2
    | client d e =>
      refine ⟨?_, hi.2⟩
      by_cases hd : c = d
      · subst hd
        simpa [networkMachine, request_next] using hi.1
      · simpa [networkMachine, hd] using hi.1
    | sendUp d piece =>
      refine ⟨hi.1, ?_⟩
      by_cases hd : c = d
      · subst hd
        rw [← hi.1]
        simpa [networkMachine] using he.2
      · simpa [networkMachine, hd] using hi.2
    | sendDown d buffers piece => exact hi

/-- Every write of a connection is of the one reply to what its client sends. -/
theorem buffers_eq (h : (networkMachine site).Run (.init site) trace st) {c : Nat}
    {buffers : List Bytes} {x : Option (Server.ErrorCode × Bytes)}
    (hop : ⟨.write buffers, x⟩ ∈ (st.server.peers c).outstanding) :
    buffers = (site.reply c).toBuffers := by
  have hkept := kept_of_run h c
  have hstarted := Server.launched_of_run (server_run h) c _ hop
  rw [hkept.started (Server.hasStarted_of_mem hkept hop)] at hstarted
  have hdecided : (run consume (reset, Request.fresh)
      (pieces c (serverTrace trace)).flatten).verdict ≠ .indeterminate := by
    intro hu
    cases (hkept.kinds _ hop).mpr hu
  simp only [operations, if_neg hdecided] at hstarted
  have hrequest : (pieces c (serverTrace trace)).flatten <+: site.request c :=
    (receives_of_run h c).given.trans ((st.up c).isPrefix.trans (asks_of_run h c).2)
  rcases List.mem_append.mp hstarted with hread | hanswer
  · cases List.eq_of_mem_replicate hread
  · rw [run_eq_of_decided hrequest hdecided] at hanswer
    exact OpKind.write.inj (List.mem_singleton.mp hanswer)

/-- The server sends nothing but that reply. -/
theorem answer_of_run (h : (networkMachine site).Run (.init site) trace st) (c : Nat) :
    (st.down c).sent <+: site.answer c := by
  refine h.invariant_along (I := fun _ st => (st.down c).sent <+: site.answer c)
    List.nil_prefix ?_
  intro trace st e hrun hi he
  cases e with
  | server e => exact hi
  | client d e =>
    change (Network.afterClient st.down d e c).sent <+: _
    rw [sent_afterClient]
    exact hi
  | sendUp d piece => exact hi
  | sendDown d buffers piece =>
    by_cases hd : c = d
    · subst hd
      have hsent := he.2
      rw [buffers_eq hrun he.1] at hsent
      simpa [networkMachine, Site.answer] using hsent
    · simpa [networkMachine, hd] using hi

end Runs

end AsioExamples.Http
