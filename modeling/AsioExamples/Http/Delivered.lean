import AsioExamples.Http.Answering

/-!
# Replies over the network

A client prints the reply to its own request, or the beginning of it and one line about an
error. With no failure, nothing stops before the client has printed all of it.
-/

namespace AsioExamples.Http

set_option autoImplicit false

open Server (ServerEvent Peer Operation OpKind Completes PeerStep outcome pieces)

section Client
variable {eof answer printed received : Bytes} {p : ClientProcess}

/-- Once the rest of the answer has come, the client will have printed `printed`. -/
def Going (eof answer printed : Bytes) (p : ClientProcess) (received : Bytes) : Prop :=
  ∀ more : List Bytes, (∀ piece ∈ more, piece ≠ []) → received ++ more.flatten = answer →
    p.resume eof more = ⟨printed, false⟩

/-- The client has given up, with a line about an error or without. -/
def Ended (eof printed : Bytes) (p : ClientProcess) : Prop :=
  p.stage = .finished ∧ ∃ t, t <+: printed ∧ (p.client.out.text = t ∨
    ∃ err : Failure, p.client.out.text = t ++ (str "Error: " ++ err.message eof ++ str "\n"))

theorem exists_rest (h : received <+: answer) : ∃ more : List Bytes,
    (∀ piece ∈ more, piece ≠ []) ∧ received ++ more.flatten = answer := by
  obtain ⟨rest, rfl⟩ := h
  by_cases hrest : rest = []
  · exact ⟨[], fun _ hmem => (List.not_mem_nil hmem).elim, by simp [hrest]⟩
  · refine ⟨[rest], fun piece hmem => ?_, by simp⟩
    rw [List.mem_singleton.mp hmem]
    exact hrest

theorem Going.text_prefix (h : Going eof answer printed p received) (hr : received <+: answer) :
    p.client.out.text <+: printed := by
  obtain ⟨more, hne, hall⟩ := exists_rest hr
  have hresume := h more hne hall
  have htext := text_resume eof p more
  rw [hresume] at htext
  exact htext

/-- Nothing comes in a client that has finished. -/
theorem not_enabled_of_finished (h : p.stage = .finished) (e : ClientEvent) :
    ¬ (clientMachine eof).enabled p e := by
  cases e with
  | resolved err => simp [clientMachine, h]
  | connected err => simp [clientMachine, h]
  | wroteRequest err => simp [clientMachine, h]
  | arrived piece => simp [clientMachine, ClientProcess.reads, h]
  | read err => cases err <;> simp [clientMachine, ClientProcess.reads, ClientProcess.satisfied, h]

/-- The client after a failure: nothing more is printed, or one line. -/
structure Stopped (eof : Bytes) (p p' : ClientProcess) : Prop where
  finished : p'.stage = .finished
  out : p'.client.out = p.client.out ∨ ∃ err : Failure,
    p'.client.out = p.client.out.put (str "Error: " ++ err.message eof ++ str "\n")

theorem stopped_printError (p : ClientProcess) (err : Failure) :
    Stopped eof p (p.printError eof err) := ⟨rfl, .inr ⟨err, rfl⟩⟩

theorem stopped_handleRead (h : p.reads = true) (err : Failure) :
    Stopped eof p (p.handleRead eof (some err)) := by
  unfold ClientProcess.reads at h
  unfold ClientProcess.handleRead
  cases hstage : p.stage with
  | readStatusLine => exact stopped_printError p err
  | readHeaders => exact stopped_printError p err
  | readContent =>
    cases err with
    | eof => exact ⟨rfl, .inl rfl⟩
    | other message => exact stopped_printError p (.other message)
  | _ => simp [hstage] at h

theorem stopped_next {e : ClientEvent} (he : (clientMachine eof).enabled p e)
    (hfails : e.fails = true ∨ e = .read (some .eof)) :
    Stopped eof p ((clientMachine eof).next p e) := by
  cases e with
  | resolved err =>
    cases err with
    | none => simp [ClientEvent.fails] at hfails
    | some err => exact stopped_printError p err
  | connected err =>
    cases err with
    | none => simp [ClientEvent.fails] at hfails
    | some err => exact stopped_printError p err
  | wroteRequest err =>
    cases err with
    | none => simp [ClientEvent.fails] at hfails
    | some err => exact stopped_printError p err
  | arrived piece => simp [ClientEvent.fails] at hfails
  | read err =>
    cases err with
    | none => simp [ClientEvent.fails] at hfails
    | some err => exact stopped_handleRead he.1 err

theorem Going.ended {e : ClientEvent} (h : Going eof answer printed p received)
    (hr : received <+: answer) (he : (clientMachine eof).enabled p e)
    (hfails : e.fails = true ∨ e = .read (some .eof)) :
    Ended eof printed ((clientMachine eof).next p e) := by
  obtain ⟨hstage, hout⟩ := stopped_next he hfails
  have htext := h.text_prefix hr
  refine ⟨hstage, p.client.out.text, htext, ?_⟩
  rcases hout with hout | ⟨err, hout⟩
  · exact .inl (congrArg OStream.text hout)
  · rw [hout]
    unfold OStream.put
    split
    · exact .inl rfl
    · exact .inr ⟨err, rfl⟩

/-- The end of the stream comes in its turn where all of the answer has come. -/
theorem Going.next {e : ClientEvent} (h : Going eof answer printed p received)
    (he : (clientMachine eof).enabled p e) (hfails : e.fails = false)
    (heof : e = .read (some .eof) → received = answer) :
    Going eof answer printed ((clientMachine eof).next p e) (received ++ e.piece.getD []) := by
  intro more hne hall
  cases e with
  | resolved err =>
    cases err with
    | none =>
      rw [← h more hne (by simpa [ClientEvent.piece] using hall)]
      have hstage : p.stage = .resolve := he
      unfold ClientProcess.resume
      rw [hstage]
      rfl
    | some err => simp [ClientEvent.fails] at hfails
  | connected err =>
    cases err with
    | none =>
      rw [← h more hne (by simpa [ClientEvent.piece] using hall)]
      have hstage : p.stage = .connect := he
      unfold ClientProcess.resume
      rw [hstage]
      rfl
    | some err => simp [ClientEvent.fails] at hfails
  | wroteRequest err =>
    cases err with
    | none =>
      rw [← h more hne (by simpa [ClientEvent.piece] using hall)]
      have hstage : p.stage = .writeRequest := he
      unfold ClientProcess.resume
      rw [hstage]
      rfl
    | some err => simp [ClientEvent.fails] at hfails
  | arrived piece =>
    obtain ⟨hreads, hsatisfied, hpiece⟩ := he
    rw [← h (piece :: more) (List.forall_mem_cons.mpr ⟨hpiece, hne⟩)
      (by simpa [ClientEvent.piece] using hall)]
    exact resume_receive hreads hsatisfied piece more
  | read err =>
    rw [show (ClientEvent.read err).piece.getD [] = [] from rfl, List.append_nil] at hall
    cases err with
    | none =>
      rw [← h more hne hall]
      exact resume_read he more
    | some err =>
      cases err with
      | other message => simp [ClientEvent.fails] at hfails
      | eof =>
        obtain ⟨hstage, hout⟩ : _ ∧ _ = p.resume eof [] := resume_eof he.1 he.2
        have hresume := h [] (fun _ hmem => (List.not_mem_nil hmem).elim)
          (by simpa using heof rfl)
        change (p.handleRead eof (some .eof)).resume eof more = _
        rw [← hresume, ← hout]
        unfold ClientProcess.resume
        rw [hstage]

theorem going_new (site : Site) (c : Nat) :
    Going site.eof (site.answer c) (site.reply c).printed
      (ClientProcess.new (site.server c) (site.path c)) [] := by
  intro more hne hall
  rw [← site.run_answer hne hall]
  have hnew : (ClientProcess.new (site.server c) (site.path c)).client =
      ⟨[], OStream.empty⟩ := rfl
  unfold AsyncClient.run ClientProcess.resume
  simp only [hnew, show (ClientProcess.new (site.server c) (site.path c)).stage = .resolve from rfl]
  cases readUntil crlf [] more with
  | none => rfl
  | some found =>
    rcases hline : AsyncClient.handleReadStatusLine ⟨found.1, OStream.empty⟩ with ⟨client, ok⟩
    simp only [hline]
    cases ok <;> rfl

end Client

/-- What is no failure for client `c`. -/
def NetworkEvent.Faultless (c : Nat) : NetworkEvent → Prop
  | .server (.completed d _ er _) => d = c → er = .success
  | .server .handleStop => False
  | .client d e => d = c → e.fails = false
  | _ => True

/-- The steps that bring the exchange of client `c` on its way. -/
def NetworkEvent.moves (c : Nat) : NetworkEvent → Prop
  | .server (.completed d _ er _) => d = c ∧ er = .success
  | .server (.handle d _ _ _) => d = c
  | .client d e => d = c ∧ e.fails = false
  | .sendUp d piece => d = c ∧ piece ≠ []
  | .sendDown d _ piece => d = c ∧ piece ≠ []
  | _ => False

/-- An exchange in which nothing moves any more. -/
def Idle (site : Site) (st : Network) (c : Nat) : Prop :=
  ∀ e : NetworkEvent, e.moves c → ¬ (networkMachine site).enabled st e

section Peer
variable {docRoot : Bytes} {files : Bytes → Option Bytes} {status : Nat} {p p' : Peer}
  {read : List Bytes} {sent answer : Bytes}

/-- A connection on which nothing has failed: open until all of the answer is sent. -/
structure Healthy (p : Peer) (sent answer : Bytes) : Prop where
  socket : p.hasStarted = true → p.isOpen = true ∨ p.outstanding = [] ∧ sent = answer
  succeeds : ∀ kind er t, ⟨kind, some (er, t)⟩ ∈ p.outstanding → er = .success
  written : ∀ buffers t, ⟨.write buffers, some (.success, t)⟩ ∈ p.outstanding → sent = answer

/-- Of one operation that is not complete yet there is no result. -/
theorem healthy_pending {kind : OpKind} (hout : p.outstanding = [⟨kind, none⟩])
    (hopen : p.isOpen = true) : Healthy p sent answer := by
  refine ⟨fun _ => .inl hopen, fun kind' er t hmem => ?_, fun buffers t hmem => ?_⟩
  · rw [hout] at hmem
    cases List.mem_singleton.mp hmem
  · rw [hout] at hmem
    cases List.mem_singleton.mp hmem

theorem healthy_handled (hkept : Server.Kept docRoot files status p read)
    (h : Healthy p sent answer) {kind : OpKind} {er : Server.ErrorCode} {t : Bytes}
    (hop : ⟨kind, some (er, t)⟩ ∈ p.outstanding) :
    Healthy (Server.ServerState.handled docRoot files kind er t p) sent answer := by
  have hsuccess := h.succeeds kind er t hop
  have hopen : p.isOpen = true := by
    rcases h.socket (Server.hasStarted_of_mem hkept hop) with hopen | ⟨hnil, -⟩
    · exact hopen
    · rw [hnil] at hop
      cases hop
  rcases Server.outstanding_handled hkept hop with ⟨-, -, hsame, hout⟩ | ⟨hno, -, hout⟩
  · rw [hopen] at hsame
    rw [if_pos hopen] at hout
    exact healthy_pending hout hsame
  · -- The write is over: its handler closes the socket.
    have hsent : sent = answer := by
      cases kind with
      | read => exact absurd ⟨rfl, hsuccess⟩ hno
      | write buffers =>
        rw [hsuccess] at hop
        exact h.written buffers t hop
    refine ⟨fun _ => .inr ⟨hout, hsent⟩, fun kind' er' t' hmem => ?_, fun _ _ _ => hsent⟩
    rw [hout] at hmem
    cases hmem

theorem healthy_step {c : Nat} {e : ServerEvent}
    (hstep : PeerStep docRoot files c e p p') (hkept : Server.Kept docRoot files status p read)
    (h : Healthy p sent answer) (hstop : e ≠ .handleStop)
    (hsuccess : ∀ kind er t, e = .completed c kind er t → er = .success)
    (hsent : ∀ buffers er t, e = .completed c (.write buffers) er t →
      ⟨.write buffers, none⟩ ∈ p.outstanding → sent = answer) :
    Healthy p' sent answer := by
  cases hstep with
  | alone => exact h
  | opened hnew =>
    refine ⟨fun hstarted => ?_, h.succeeds, h.written⟩
    have hstarted : p.hasStarted = true := hstarted
    rw [hnew] at hstarted
    cases hstarted
  | started hnew hopen =>
    have hout : p.start.outstanding = [⟨.read, none⟩] := by
      change p.outstanding ++ [⟨.read, if p.isOpen then none else _⟩] = _
      rw [(hkept.idle hnew).1, hopen]
      rfl
    exact healthy_pending hout hopen
  | completed hop hc =>
    rename_i kind er t
    obtain rfl := hsuccess kind er t rfl
    have hout : (p.complete kind .success t).outstanding = [⟨kind, some (.success, t)⟩] := by
      simp [Peer.complete, Server.outstanding_eq_of_mem hkept hop]
    refine ⟨fun hs => ?_, fun kind' er' t' hmem => ?_, fun buffers t' hmem => ?_⟩
    · rcases h.socket hs with hopen | ⟨hnil, -⟩
      · exact .inl hopen
      · rw [hnil] at hop
        cases hop
    · rw [hout] at hmem
      cases List.mem_singleton.mp hmem
      rfl
    · rw [hout] at hmem
      cases List.mem_singleton.mp hmem
      exact hsent buffers .success t rfl hop
  | handled hop => exact healthy_handled hkept h hop
  | closed => exact absurd rfl hstop

end Peer

section Runs
variable {site : Site} {trace : List NetworkEvent} {st : Network} {c : Nat}

theorem received_afterClient {e : ClientEvent} (h : st.ClientMay c e) :
    (Network.afterClient st.down c e c).received =
      (st.down c).received ++ e.piece.getD [] := by
  cases e with
  | arrived piece =>
    change (Function.update st.down c _ c).received = _
    rw [Function.update_self]
    exact Pipe.received_receive h
  | _ => exact (List.append_nil _).symm

theorem afterClient_of_ne (down : Nat → Pipe UInt8) {d : Nat} (hd : c ≠ d) (e : ClientEvent) :
    Network.afterClient down d e c = down c := by
  cases e with
  | arrived piece => exact Function.update_of_ne hd ..
  | _ => rfl

/-- Events of others and sends leave a client and what it has received alone. -/
theorem client_unchanged (site : Site) (st : Network) {e : NetworkEvent}
    (he : ∀ e', e ≠ .client c e') :
    ((networkMachine site).next st e).clients c = st.clients c ∧
      (((networkMachine site).next st e).down c).received = (st.down c).received := by
  cases e with
  | server e => exact ⟨rfl, rfl⟩
  | client d e =>
    have hd : c ≠ d := fun hd => he e (by rw [hd])
    refine ⟨Function.update_of_ne hd .., ?_⟩
    exact congrArg Pipe.received (afterClient_of_ne st.down hd e)
  | sendUp d piece => exact ⟨rfl, rfl⟩
  | sendDown d buffers piece =>
    refine ⟨rfl, ?_⟩
    change (Function.update st.down d _ c).received = _
    by_cases hd : c = d
    · subst hd
      rw [Function.update_self]
      rfl
    · rw [Function.update_of_ne hd]

theorem going_or_ended (h : (networkMachine site).Run (.init site) trace st) (c : Nat) :
    Going site.eof (site.answer c) (site.reply c).printed (st.clients c) (st.down c).received ∨
      Ended site.eof (site.reply c).printed (st.clients c) := by
  refine h.invariant_along (I := fun _ st =>
    Going site.eof (site.answer c) (site.reply c).printed (st.clients c) (st.down c).received ∨
      Ended site.eof (site.reply c).printed (st.clients c)) (.inl (going_new site c)) ?_
  intro trace st e hrun hi he
  by_cases hclient : ∃ e', e = .client c e'
  · obtain ⟨e', rfl⟩ := hclient
    have hself : ((networkMachine site).next st (.client c e')).clients c =
        (clientMachine site.eof).next (st.clients c) e' := Function.update_self ..
    have hreceived : (((networkMachine site).next st (.client c e')).down c).received =
        (st.down c).received ++ e'.piece.getD [] := received_afterClient he.2
    rw [hself, hreceived]
    rcases hi with hgoing | hended
    · have hbegins := (st.down c).isPrefix.trans (answer_of_run hrun c)
      by_cases hfails : e'.fails = true ∨ e' = .read (some .eof)
      · exact .inr (hgoing.ended hbegins he.1 hfails)
      · push Not at hfails
        exact .inl (hgoing.next he.1 (by simpa using hfails.1) fun heof => absurd heof hfails.2)
    · exact absurd he.1 (not_enabled_of_finished hended.1 e')
  · obtain ⟨hsame, hreceived⟩ := client_unchanged site st
      fun e' he' => hclient ⟨e', he'⟩
    rw [hsame, hreceived]
    exact hi

/-- A client whose write is over has sent its request. -/
def Asked (p : ClientProcess) (sent : Bytes) : Prop :=
  p.stage = .resolve ∨ p.stage = .connect ∨ p.stage = .writeRequest ∨ sent = p.request

theorem asked_of_reads {p : ClientProcess} {sent : Bytes} (h : Asked p sent)
    (hreads : p.reads = true) : sent = p.request := by
  unfold ClientProcess.reads at hreads
  rcases h with hstage | hstage | hstage | hsent
  · simp [hstage] at hreads
  · simp [hstage] at hreads
  · simp [hstage] at hreads
  · exact hsent

theorem asked_next {e : ClientEvent} (h : Asked (st.clients c) (st.up c).sent)
    (he : (clientMachine site.eof).enabled (st.clients c) e) (hmay : st.ClientMay c e)
    (hfails : e.fails = false) :
    Asked ((clientMachine site.eof).next (st.clients c) e) (st.up c).sent := by
  have hreads : ∀ e', (st.clients c).reads = true →
      Asked ((clientMachine site.eof).next (st.clients c) e') (st.up c).sent := by
    intro e' hreads
    right; right; right
    rw [request_next]
    exact asked_of_reads h hreads
  cases e with
  | resolved err =>
    cases err with
    | none => exact .inr (.inl rfl)
    | some err => simp [ClientEvent.fails] at hfails
  | connected err =>
    cases err with
    | none => exact .inr (.inr (.inl rfl))
    | some err => simp [ClientEvent.fails] at hfails
  | wroteRequest err =>
    cases err with
    | none => exact .inr (.inr (.inr hmay))
    | some err => simp [ClientEvent.fails] at hfails
  | arrived piece => exact hreads _ he.1
  | read err =>
    cases err with
    | none =>
      apply hreads
      have hsatisfied : (st.clients c).satisfied = true := he
      unfold ClientProcess.satisfied at hsatisfied
      unfold ClientProcess.reads
      cases hstage : (st.clients c).stage <;> simp [hstage] at hsatisfied ⊢
    | some err => exact hreads _ he.1

/-- The exchange of client `c` as long as nothing of it fails. -/
structure Sound (site : Site) (st : Network) (c : Nat) : Prop where
  healthy : Healthy (st.server.peers c) (st.down c).sent (site.answer c)
  going : Going site.eof (site.answer c) (site.reply c).printed (st.clients c)
    (st.down c).received
  asked : Asked (st.clients c) (st.up c).sent

theorem sound_server (hrun : (networkMachine site).Run (.init site) trace st)
    (h : Sound site st c) {e : ServerEvent} (he : (networkMachine site).enabled st (.server e))
    (hfault : (NetworkEvent.server e).Faultless c) :
    Sound site ((networkMachine site).next st (.server e)) c := by
  have hstep := Server.peerStep (network_lifecycle hrun) he.1 c
  refine ⟨?_, h.going, ?_⟩
  · refine healthy_step hstep (kept_of_run hrun c) h.healthy ?_ ?_ ?_
    · rintro rfl
      exact hfault
    · rintro kind er t rfl
      exact hfault rfl
    · rintro buffers er t rfl hop
      obtain rfl : er = .success := hfault rfl
      have hsent : (st.down c).sent = buffers.flatten := he.2
      rw [buffers_eq hrun hop] at hsent
      exact hsent
  · change Asked (st.clients c) (Network.afterServer st.up e c).sent
    rw [sent_afterServer]
    exact h.asked

theorem sound_client (h : Sound site st c) {d : Nat} {e : ClientEvent}
    (he : (networkMachine site).enabled st (.client d e))
    (hfault : (NetworkEvent.client d e).Faultless c) :
    Sound site ((networkMachine site).next st (.client d e)) c := by
  have hsent : (Network.afterClient st.down d e c).sent = (st.down c).sent := sent_afterClient ..
  refine ⟨?_, ?_, ?_⟩
  · change Healthy (st.server.peers c) (Network.afterClient st.down d e c).sent _
    rw [hsent]
    exact h.healthy
  · by_cases hd : d = c
    · subst hd
      have hself : ((networkMachine site).next st (.client d e)).clients d =
          (clientMachine site.eof).next (st.clients d) e := Function.update_self ..
      have hreceived : (((networkMachine site).next st (.client d e)).down d).received =
          (st.down d).received ++ e.piece.getD [] := received_afterClient he.2
      rw [hself, hreceived]
      refine h.going.next he.1 (hfault rfl) ?_
      -- The stream has ended: the server has closed its socket, so all has been sent.
      rintro rfl
      obtain ⟨hwaiting, hstarted, hclosed⟩ := he.2
      have hall := (st.down d).received_append_waiting
      rw [hwaiting, List.append_nil] at hall
      rw [hall]
      rcases h.healthy.socket hstarted with hopen | ⟨-, hanswer⟩
      · rw [hclosed] at hopen
        cases hopen
      · exact hanswer
    · obtain ⟨hsame, hreceived⟩ := client_unchanged site st (c := c) (e := .client d e)
        fun e' he' => hd (NetworkEvent.client.inj he').1
      rw [hsame, hreceived]
      exact h.going
  · by_cases hd : d = c
    · subst hd
      change Asked (Function.update st.clients d _ d) _
      rw [Function.update_self]
      exact asked_next h.asked he.1 he.2 (hfault rfl)
    · change Asked (Function.update st.clients d _ c) _
      rw [Function.update_of_ne (Ne.symm hd)]
      exact h.asked

theorem sound_sendUp (h : Sound site st c) {d : Nat} {piece : Bytes}
    (he : (networkMachine site).enabled st (.sendUp d piece)) :
    Sound site ((networkMachine site).next st (.sendUp d piece)) c := by
  refine ⟨h.healthy, h.going, ?_⟩
  change Asked (st.clients c) (Function.update st.up d _ c).sent
  by_cases hd : c = d
  · subst hd
    exact .inr (.inr (.inl he.1))
  · rw [Function.update_of_ne hd]
    exact h.asked

theorem sound_sendDown (hrun : (networkMachine site).Run (.init site) trace st)
    (h : Sound site st c) {d : Nat} {buffers : List Bytes} {piece : Bytes}
    (he : (networkMachine site).enabled st (.sendDown d buffers piece)) :
    Sound site ((networkMachine site).next st (.sendDown d buffers piece)) c := by
  have hgoing := h.going
  rw [← (client_unchanged site st (c := c) (e := .sendDown d buffers piece)
    fun _ he' => by cases he').2] at hgoing
  refine ⟨?_, hgoing, h.asked⟩
  by_cases hd : c = d
  · subst hd
    have hout := Server.outstanding_eq_of_mem (kept_of_run hrun c) he.1
    change Healthy (st.server.peers c) _ _
    rcases h.healthy.socket (Server.hasStarted_of_mem (kept_of_run hrun c) he.1) with
      hopen | ⟨hnil, -⟩
    · exact healthy_pending hout hopen
    · rw [hnil] at hout
      cases hout
  · change Healthy (st.server.peers c) (Function.update st.down d _ c).sent _
    rw [Function.update_of_ne hd]
    exact h.healthy

theorem sound_of_run (h : (networkMachine site).Run (.init site) trace st)
    (hfault : ∀ e ∈ trace, e.Faultless c) : Sound site st c := by
  refine h.invariant_along (I := fun trace st =>
    (∀ e ∈ trace, e.Faultless c) → Sound site st c) (fun _ => ?_) ?_ hfault
  · refine ⟨⟨fun hs => ?_, fun _ _ _ hmem => ?_, fun _ _ hmem => ?_⟩, going_new site c, .inl rfl⟩
    · cases hs
    · cases hmem
    · cases hmem
  · intro trace st e hrun hi he hfault
    have hsound := hi fun e he => hfault e (List.mem_append_left _ he)
    have hlast := hfault e (List.mem_append_right _ (List.mem_singleton_self e))
    cases e with
    | server e => exact sound_server hrun hsound he hlast
    | client d e => exact sound_client hsound he hlast
    | sendUp d piece => exact sound_sendUp hsound he
    | sendDown d buffers piece => exact sound_sendDown hrun hsound he

/-- Where nothing moves, the client has sent its request. -/
theorem asked_of_idle (hrun : (networkMachine site).Run (.init site) trace st)
    (hasked : Asked (st.clients c) (st.up c).sent) (hidle : Idle site st c) :
    (st.up c).sent = site.request c := by
  obtain ⟨hrequest, hsent⟩ := asks_of_run hrun c
  rcases hasked with hstage | hstage | hstage | hall
  · exact absurd ⟨hstage, trivial⟩ (hidle (.client c (.resolved none)) ⟨rfl, rfl⟩)
  · exact absurd ⟨hstage, trivial⟩ (hidle (.client c (.connected none)) ⟨rfl, rfl⟩)
  · obtain ⟨rest, hrest⟩ := hsent
    by_cases hnil : rest = []
    · rw [← hrest, hnil, List.append_nil]
    · exfalso
      refine hidle (.sendUp c rest) ⟨rfl, hnil⟩ ⟨hstage, ?_⟩
      rw [hrest, hrequest]
  · rw [hall, hrequest]

/-- Nor has the server an operation outstanding. -/
theorem outstanding_of_idle (hrun : (networkMachine site).Run (.init site) trace st)
    (h : Sound site st c) (hidle : Idle site st c) : (st.server.peers c).outstanding = [] := by
  have hkept := kept_of_run hrun c
  have hreceives := receives_of_run hrun c
  have hsent := asked_of_idle hrun h.asked hidle
  by_contra hne
  obtain ⟨⟨kind, completion⟩, hop⟩ := List.exists_mem_of_ne_nil _ hne
  cases completion with
  | some result => exact hidle (.server (.handle c kind result.1 result.2)) rfl ⟨hop, trivial⟩
  | none =>
    cases kind with
    | read =>
      have hwaiting : (st.up c).waiting = [] := by
        by_contra hwaiting
        obtain ⟨b, rest, hb⟩ := List.exists_cons_of_ne_nil hwaiting
        refine hidle (.server (.completed c .read .success [b])) ⟨rfl, rfl⟩
          ⟨⟨hop, by simp, by simp, by simp⟩, ?_⟩
        change [b] <+: (st.up c).waiting
        rw [hb]
        exact ⟨rest, rfl⟩
      have hall := (st.up c).received_append_waiting
      rw [hwaiting, List.append_nil, hsent, ← hreceives.pending hop] at hall
      have hundecided := (hkept.kinds _ hop).mp rfl
      rw [hall] at hundecided
      exact outcome_decided _ _ hundecided
    | write buffers =>
      have hbuffers := buffers_eq hrun hop
      obtain ⟨rest, hrest⟩ := answer_of_run hrun c
      have hflatten : buffers.flatten = site.answer c := by
        rw [hbuffers]
        rfl
      by_cases hnil : rest = []
      · rw [hnil, List.append_nil] at hrest
        exact hidle (.server (.completed c (.write buffers) .success [])) ⟨rfl, rfl⟩
          ⟨⟨hop, by simp, by simp, by simp⟩, hrest.trans hflatten.symm⟩
      · refine hidle (.sendDown c buffers rest) ⟨rfl, hnil⟩ ⟨hop, ?_⟩
        rw [hrest, hflatten]

/-- Nor does the client wait for anything. -/
theorem finished_of_idle (hrun : (networkMachine site).Run (.init site) trace st)
    (h : Sound site st c) (hstarted : (st.server.peers c).hasStarted = true)
    (hidle : Idle site st c) : (st.clients c).stage = .finished := by
  have hout := outstanding_of_idle hrun h hidle
  have hclosed : (st.server.peers c).isOpen = false := by
    cases hopen : (st.server.peers c).isOpen with
    | false => rfl
    | true =>
      have hbusy := (kept_of_run hrun c).busy hstarted hopen
      rw [hout] at hbusy
      cases hbusy
  have hreads : (st.clients c).reads = false := by
    by_contra hreads
    have hreads : (st.clients c).reads = true := by simpa using hreads
    cases hsatisfied : (st.clients c).satisfied with
    | true => exact hidle (.client c (.read none)) ⟨rfl, rfl⟩ ⟨hsatisfied, trivial⟩
    | false =>
      by_cases hwaiting : (st.down c).waiting = []
      · exact hidle (.client c (.read (some .eof))) ⟨rfl, rfl⟩
          ⟨⟨hreads, hsatisfied⟩, hwaiting, hstarted, hclosed⟩
      · exact hidle (.client c (.arrived _)) ⟨rfl, rfl⟩
          ⟨⟨hreads, hsatisfied, hwaiting⟩, List.prefix_rfl⟩
  have hsent := asked_of_idle hrun h.asked hidle
  have hrequest := (asks_of_run hrun c).1
  unfold ClientProcess.reads at hreads
  cases hstage : (st.clients c).stage with
  | resolve => exact absurd ⟨hstage, trivial⟩ (hidle (.client c (.resolved none)) ⟨rfl, rfl⟩)
  | connect => exact absurd ⟨hstage, trivial⟩ (hidle (.client c (.connected none)) ⟨rfl, rfl⟩)
  | writeRequest =>
    have hall : (st.up c).sent = (st.clients c).request := by rw [hsent, hrequest]
    exact absurd ⟨hstage, hall⟩ (hidle (.client c (.wroteRequest none)) ⟨rfl, rfl⟩)
  | readStatusLine => simp [hstage] at hreads
  | readHeaders => simp [hstage] at hreads
  | readContent => simp [hstage] at hreads
  | finished => rfl

theorem idle_of_finished (hstage : (st.clients c).stage = .finished)
    (hout : (st.server.peers c).outstanding = []) : Idle site st c := by
  intro e hmoves he
  cases e with
  | server e =>
    cases e with
    | completed d kind er t =>
      obtain rfl := hmoves.1
      have hop := he.1.1
      rw [hout] at hop
      cases hop
    | handle d kind er t =>
      obtain rfl : d = c := hmoves
      have hop : ⟨kind, some (er, t)⟩ ∈ (st.server.peers d).outstanding := he.1
      rw [hout] at hop
      cases hop
    | accepted d er => exact hmoves
    | handleAccept d er => exact hmoves
    | handleStop => exact hmoves
  | client d e =>
    obtain rfl := hmoves.1
    exact not_enabled_of_finished hstage e he.1
  | sendUp d piece =>
    obtain rfl := hmoves.1
    have hwriting := he.1
    rw [hstage] at hwriting
    cases hwriting
  | sendDown d buffers piece =>
    obtain rfl := hmoves.1
    have hop := he.1
    rw [hout] at hop
    cases hop

end Runs

/-- Whatever fails and in whatever pieces the bytes go, a client prints the reply that the
server makes to the request of this client, or the beginning of it and one line about an error
after which nothing follows. -/
theorem clients_print_replies (site : Site) (trace : List NetworkEvent) (st : Network)
    (h : (networkMachine site).Run (.init site) trace st) (c : Nat) :
    (∃ t, t <+: (site.reply c).printed ∧ ((st.clients c).client.out.text = t ∨
      (st.clients c).stage = .finished ∧ ∃ err : Failure, (st.clients c).client.out.text =
        t ++ (str "Error: " ++ err.message site.eof ++ str "\n"))) ∧
      (site.Plain c → site.reply c = (Server.RequestHandler.handleRequest site.docRoot site.files
        (intended (site.server c) (site.path c)) (Reply.fresh (site.fills c).2)).rep) := by
  refine ⟨?_, Site.reply_of_plain⟩
  rcases going_or_ended h c with hgoing | ⟨hstage, t, ht, hout⟩
  · have hbegins := (st.down c).isPrefix.trans (answer_of_run h c)
    exact ⟨_, hgoing.text_prefix hbegins, .inl rfl⟩
  · refine ⟨t, ht, ?_⟩
    rcases hout with hout | ⟨err, hout⟩
    · exact .inl hout
    · exact .inr ⟨hstage, err, hout⟩

/-- The connection is reset after the headers of a page. -/
theorem clients_print_replies_reset :
    let files : Bytes → Option Bytes := fun path =>
      if path = str "/www/a.txt" then some (str "hi") else none
    let site : Site := ⟨str "/www", files, str "End of file", fun _ => (Buffer.zero, 0),
      fun _ => str "h", fun _ => str "/a.txt"⟩
    let buffers := (site.reply 0).toBuffers
    let trace : List NetworkEvent := [.server (.accepted 0 .success), .client 0 (.resolved none),
      .client 0 (.connected none), .sendUp 0 (site.request 0), .client 0 (.wroteRequest none),
      .server (.handleAccept 0 .success), .server (.completed 0 .read .success (site.request 0)),
      .server (.handle 0 .read .success (site.request 0)),
      .sendDown 0 buffers ((site.answer 0).take 65), .client 0 (.arrived ((site.answer 0).take 64)),
      .client 0 (.read none), .client 0 (.read none),
      .client 0 (.read (some (.other (str "Connection reset by peer"))))]
    ∃ st, (networkMachine site).Run (.init site) trace st ∧
      (∃ t, t <+: (site.reply 0).printed ∧ ((st.clients 0).client.out.text = t ∨
        (st.clients 0).stage = .finished ∧ ∃ err : Failure, (st.clients 0).client.out.text =
          t ++ (str "Error: " ++ err.message site.eof ++ str "\n"))) ∧
      (st.clients 0).client.out.text = str "Content-Length: 2\r\nContent-Type: text/plain\r\n\n" ++
        str "Error: Connection reset by peer\n" := by
  intro files site buffers trace
  have hadmits : (networkMachine site).Admits (.init site) trace := by decide +kernel
  obtain ⟨hprints, -⟩ := clients_print_replies site trace _ hadmits.run 0
  exact ⟨_, hadmits.run, hprints, by decide +kernel⟩

/-- With no failure at a client, nothing is left to be done for it only once it has printed all
of the reply to its request. -/
theorem idle_client_has_printed (site : Site) (trace : List NetworkEvent) (st : Network)
    (h : (networkMachine site).Run (.init site) trace st) (c : Nat)
    (hfault : ∀ e ∈ trace, e.Faultless c) (hstarted : (st.server.peers c).hasStarted = true)
    (hidle : Idle site st c) :
    (st.clients c).stage = .finished ∧
      (st.clients c).client.out = ⟨(site.reply c).printed, false⟩ := by
  have hsound := sound_of_run h hfault
  have hstage := finished_of_idle h hsound hstarted hidle
  obtain ⟨more, hne, hall⟩ := exists_rest ((st.down c).isPrefix.trans (answer_of_run h c))
  have hresume := hsound.going more hne hall
  unfold ClientProcess.resume at hresume
  rw [hstage] at hresume
  exact ⟨hstage, hresume⟩

/-- A page that comes in two pieces. -/
theorem idle_client_has_printed_page :
    let files : Bytes → Option Bytes := fun path =>
      if path = str "/www/a.txt" then some (str "hi") else none
    let site : Site := ⟨str "/www", files, str "End of file", fun _ => (Buffer.zero, 0),
      fun _ => str "h", fun _ => str "/a.txt"⟩
    let buffers := (site.reply 0).toBuffers
    let trace : List NetworkEvent := [.server (.accepted 0 .success), .client 0 (.resolved none),
      .client 0 (.connected none), .sendUp 0 (site.request 0), .client 0 (.wroteRequest none),
      .server (.handleAccept 0 .success), .server (.completed 0 .read .success (site.request 0)),
      .server (.handle 0 .read .success (site.request 0)), .sendDown 0 buffers (site.answer 0),
      .server (.completed 0 (.write buffers) .success []),
      .client 0 (.arrived ((site.answer 0).take 20)), .client 0 (.read none),
      .client 0 (.arrived ((site.answer 0).drop 20)), .client 0 (.read none),
      .server (.handle 0 (.write buffers) .success []), .client 0 (.read (some .eof))]
    ∃ st, (networkMachine site).Run (.init site) trace st ∧ (st.clients 0).client.out =
      ⟨str "Content-Length: 2\r\nContent-Type: text/plain\r\n\nhi", false⟩ := by
  intro files site buffers trace
  have hadmits : (networkMachine site).Admits (.init site) trace := by decide +kernel
  have hfault : ∀ e ∈ trace, e.Faultless 0 := by
    simp [trace, NetworkEvent.Faultless, ClientEvent.fails]
  have hidle : Idle site (trace.foldl (networkMachine site).next (.init site)) 0 := by
    apply idle_of_finished
    all_goals decide +kernel
  obtain ⟨-, hout⟩ := idle_client_has_printed site trace _ hadmits.run 0 hfault
    (by decide +kernel) hidle
  have hprinted : (site.reply 0).printed =
      str "Content-Length: 2\r\nContent-Type: text/plain\r\n\nhi" := by decide +kernel
  rw [hprinted] at hout
  exact ⟨_, hadmits.run, hout⟩

end AsioExamples.Http
