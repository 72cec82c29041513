import AsioExamples.Chat.Client

/-!
# What the client has written when it closes

Every message that was passed to `write` has been written, or waits in the queue, among the
posted calls or in `main`. `do_close` asks after none of them.
-/

namespace AsioExamples.Chat

set_option autoImplicit false

namespace ChatClient

/-- The messages of the queue that the socket has not taken. -/
def unsent (c : ChatClient) : List ChatMessage :=
  if c.writing = some (.finished false) then c.writeMsgs.tail else c.writeMsgs

end ChatClient

def Posted.message : Posted → Option ChatMessage
  | .doWrite msg => some msg
  | .doClose => none

namespace ClientState

/-- The messages not written yet, in the order in which they will be. -/
def unwritten (st : ClientState) : List ChatMessage :=
  st.client.unsent ++ (st.posted ++ st.calls).filterMap Posted.message

/-- As long as the socket is open no message is lost, and one is being written unless there is
none. Behind a write that has failed the others wait for good. -/
structure Inv (msgs : List ChatMessage) (st : ClientState) : Prop where
  all : st.client.written ++ st.unwritten.map ChatMessage.bytes = msgs.map ChatMessage.bytes
  writing : st.client.writing = none ↔ st.client.writeMsgs = []

theorem inv_init (fill : Fill) (msgs : List ChatMessage) :
    Inv msgs (init fill (msgs.map .doWrite ++ [.doClose])) := by
  refine ⟨?_, Iff.intro (fun _ => rfl) fun _ => rfl⟩
  have hmessages : (msgs.map Posted.doWrite).filterMap Posted.message = msgs := by
    rw [List.filterMap_map]
    exact List.filterMap_some
  simp [init, unwritten, ChatClient.unsent, ChatClient.new, hmessages, Posted.message]

theorem Inv.congr {msgs : List ChatMessage} {st st' : ClientState} (h : Inv msgs st)
    (hwritten : st'.client.written = st.client.written)
    (hqueue : st'.client.writeMsgs = st.client.writeMsgs)
    (hwriting : st'.client.writing = st.client.writing)
    (hcalls : (st'.posted ++ st'.calls) = st.posted ++ st.calls) : Inv msgs st' := by
  obtain ⟨hall, hnone⟩ := h
  unfold unwritten ChatClient.unsent at hall
  refine ⟨?_, ?_⟩
  · unfold unwritten ChatClient.unsent
    rw [hwritten, hqueue, hwriting, hcalls]
    exact hall
  · rw [hwriting, hqueue]
    exact hnone

theorem unsent_doWrite {c : ChatClient} (hopen : c.isOpen = true)
    (hwriting : c.writing = none ↔ c.writeMsgs = []) (msg : ChatMessage) :
    (c.doWrite msg).unsent = c.unsent ++ [msg] ∧ (c.doWrite msg).written = c.written ∧
      ((c.doWrite msg).writing = none ↔ (c.doWrite msg).writeMsgs = []) := by
  unfold ChatClient.doWrite
  cases hq : c.writeMsgs with
  | nil =>
    have hnone := hwriting.mpr hq
    simp [ChatClient.asyncWrite, hopen, ChatClient.unsent, hnone, hq]
  | cons front rest =>
    have hsome : c.writing ≠ none := fun h => by simp [hwriting.mp h] at hq
    by_cases hdone : c.writing = some (.finished false)
    · simp [ChatClient.unsent, hdone, hq]
    · simp [ChatClient.unsent, hdone, hq, hsome]

theorem unsent_handleWrite {c : ChatClient} (hopen : c.isOpen = true)
    (hdone : c.writing = some (.finished false)) :
    (c.handleWrite false).unsent = c.unsent ∧ (c.handleWrite false).written = c.written ∧
      ((c.handleWrite false).writing = none ↔ (c.handleWrite false).writeMsgs = []) := by
  unfold ChatClient.handleWrite
  cases hq : c.writeMsgs.tail with
  | nil => simp [ChatClient.unsent, hdone, hq]
  | cons next rest => simp [ChatClient.asyncWrite, ChatClient.unsent, hdone, hopen, hq]

theorem unsent_sent {c : ChatClient} (hpending : c.writing = some .pending)
    (hwriting : c.writing = none ↔ c.writeMsgs = []) :
    c.sent.written ++ c.sent.unsent.map ChatMessage.bytes =
      c.written ++ c.unsent.map ChatMessage.bytes := by
  obtain ⟨front, rest, hq⟩ : ∃ front rest, c.writeMsgs = front :: rest := by
    apply List.exists_cons_of_ne_nil
    intro hnil
    rw [hwriting.mpr hnil] at hpending
    cases hpending
  simp [ChatClient.sent, ChatClient.unsent, hpending, hq]

/-- A handler of the reading side closes the socket or leaves the queue alone. -/
theorem act_open {c : ChatClient} {a : Reader × Action} (h : (c.act a).isOpen = true) :
    c.isOpen = true ∧ (c.act a).written = c.written ∧ (c.act a).writeMsgs = c.writeMsgs ∧
      (c.act a).writing = c.writing := by
  obtain ⟨r, action⟩ := a
  cases action with
  | proceed => exact ⟨h, rfl, rfl, rfl⟩
  | accept msg => exact ⟨h, rfl, rfl, rfl⟩
  | stop => cases h

section Steps
variable {msgs : List ChatMessage} {st : ClientState}

theorem Inv.doWrite (h : Inv msgs st) (hopen : st.client.isOpen = true) {msg : ChatMessage}
    {posted : List Posted} (hposted : st.posted = .doWrite msg :: posted) :
    Inv msgs { st with client := st.client.doWrite msg, posted } := by
  obtain ⟨hall, hwriting⟩ := h
  obtain ⟨hunsent, hwritten, hwriting'⟩ := unsent_doWrite hopen hwriting msg
  refine ⟨?_, hwriting'⟩
  rw [← hall]
  simp [unwritten, hunsent, hwritten, hposted, Posted.message]

theorem Inv.sent (h : Inv msgs st) (hpending : st.client.writing = some .pending) :
    Inv msgs { st with client := st.client.sent } := by
  obtain ⟨hall, hwriting⟩ := h
  have hsent := unsent_sent hpending hwriting
  refine ⟨?_, ?_⟩
  · rw [← hall]
    simp only [unwritten, List.map_append, ← List.append_assoc, hsent]
  · simpa [ChatClient.sent, hpending] using hwriting

theorem Inv.fail (h : Inv msgs st) (hpending : st.client.writing = some .pending) :
    Inv msgs { st with client := { st.client with writing := some (.finished true) } } := by
  obtain ⟨hall, hwriting⟩ := h
  refine ⟨?_, ?_⟩
  · rw [← hall]
    simp [unwritten, ChatClient.unsent, hpending]
  · simpa [hpending] using hwriting

theorem Inv.handleWrite (h : Inv msgs st) (hopen : st.client.isOpen = true)
    (hdone : st.client.writing = some (.finished false)) :
    Inv msgs { st with client := st.client.handleWrite false } := by
  obtain ⟨hunsent, hwritten, hwriting⟩ := unsent_handleWrite hopen hdone
  refine ⟨?_, hwriting⟩
  rw [← h.all]
  simp only [unwritten, hunsent, hwritten]

theorem inv_next {faults : Bool} {e : ClientEvent} (h : st.client.isOpen = true → Inv msgs st)
    (he : (clientMachine faults).enabled st e)
    (hopen : ((clientMachine faults).next st e).client.isOpen = true) :
    Inv msgs ((clientMachine faults).next st e) := by
  cases e with
  | connect error =>
    cases error with
    | true => exact (h hopen).congr rfl rfl rfl rfl
    | false => exact (h hopen).congr rfl rfl rfl rfl
  | call =>
    obtain ⟨p, calls, hcalls⟩ := List.exists_cons_of_ne_nil he
    refine (h hopen).congr rfl rfl rfl ?_
    simp [clientMachine, call, hcalls]
  | runPosted =>
    obtain ⟨p, posted, hposted⟩ := List.exists_cons_of_ne_nil he
    cases p with
    | doClose =>
      simp only [clientMachine, runPosted, hposted] at hopen
      cases hopen
    | doWrite msg =>
      simp only [clientMachine, runPosted, hposted] at hopen ⊢
      rw [st.client.isOpen_doWrite msg] at hopen
      exact (h hopen).doWrite hopen hposted
  | sent => exact (h hopen).sent he.2
  | fail => exact (h hopen).fail he.2
  | write error =>
    cases error with
    | true => cases hopen
    | false =>
      have hbefore : st.client.isOpen = true := by
        rw [← st.client.isOpen_handleWrite]
        exact hopen
      exact (h hbefore).handleWrite hbefore he
  | readHeader transferred error =>
    obtain ⟨hbefore, hwritten, hqueue, hwriting⟩ := act_open hopen
    exact (h hbefore).congr hwritten hqueue hwriting rfl
  | readBody transferred error =>
    obtain ⟨hbefore, hwritten, hqueue, hwriting⟩ := act_open hopen
    exact (h hbefore).congr hwritten hqueue hwriting rfl

theorem inv_of_run {faults : Bool} {fill : Fill} {trace : List ClientEvent}
    (h : (clientMachine faults).Run (init fill (msgs.map .doWrite ++ [.doClose])) trace st)
    (hopen : st.client.isOpen = true) : Inv msgs st := by
  refine h.invariant (I := fun _ st => st.client.isOpen = true → Inv msgs st)
    (fun _ => inv_init fill msgs) ?_ hopen
  intro trace st e hi he hopen
  exact inv_next hi he hopen

end Steps

def Closes (st : ClientState) (e : ClientEvent) : Prop :=
  st.client.isOpen = true ∧ ((clientMachine false).next st e).client.isOpen = false

/-- The queue is empty, or its one message has been written and the handler has not run; no
`do_write` waits to be run or to be posted. -/
def Drained (st : ClientState) : Prop :=
  (st.client.writeMsgs = [] ∨
      st.client.writing = some (.finished false) ∧ st.client.writeMsgs.length = 1) ∧
    ∀ p ∈ st.posted ++ st.calls, p = .doClose

instance (st : ClientState) (e : ClientEvent) : Decidable (Closes st e) :=
  inferInstanceAs (Decidable (_ ∧ _))

instance (st : ClientState) : Decidable (Drained st) := inferInstanceAs (Decidable (_ ∧ _))

theorem unwritten_eq_nil_iff (st : ClientState) : st.unwritten = [] ↔ Drained st := by
  have hposted : (st.posted ++ st.calls).filterMap Posted.message = [] ↔
      ∀ p ∈ st.posted ++ st.calls, p = .doClose := by
    rw [List.filterMap_eq_nil_iff]
    refine forall₂_congr fun p _ => ?_
    cases p <;> simp [Posted.message]
  have hunsent : st.client.unsent = [] ↔ st.client.writeMsgs = [] ∨
      st.client.writing = some (.finished false) ∧ st.client.writeMsgs.length = 1 := by
    unfold ChatClient.unsent
    rcases st.client.writeMsgs with _ | ⟨front, _ | ⟨next, rest⟩⟩
    · simp
    · simp
    · split <;> simp
  rw [unwritten, List.append_eq_nil_iff, hposted, hunsent]
  exact Iff.rfl

end ClientState

section Runs
open ClientState

/-- Without a fault of the transport, everything has been written whenever the socket is closed
in a run exactly if the queue and the posted calls are drained then. -/
theorem written_before_close_iff {fill : Fill} {msgs : List ChatMessage}
    {trace : List ClientEvent} {st : ClientState}
    (h : (clientMachine false).Run (init fill (msgs.map .doWrite ++ [.doClose])) trace st) :
    (clientMachine false).EachStep
        (fun st e => Closes st e → st.client.written = msgs.map ChatMessage.bytes)
        (init fill (msgs.map .doWrite ++ [.doClose])) trace ↔
      (clientMachine false).EachStep (fun st e => Closes st e → Drained st)
        (init fill (msgs.map .doWrite ++ [.doClose])) trace := by
  refine h.eachStep_congr fun trace st e hrun _ => ?_
  refine imp_congr_right fun hclose => ?_
  rw [← unwritten_eq_nil_iff, ← List.map_eq_nil_iff (f := ChatMessage.bytes),
    ← (inv_of_run hrun hclose.1).all]
  exact List.self_eq_append_right

/-- The write of the only message has completed when the close is run, its handler has not. -/
theorem written_before_close_iff_sent :
    let msgs := [makeMessage Fill.zero (str "hi")]
    let init := ClientState.init Fill.zero (msgs.map .doWrite ++ [.doClose])
    let trace := [.call, .call, .runPosted, .sent, .runPosted]
    ∃ st, (clientMachine false).Run init trace st ∧ st.client.isOpen = false ∧
      (clientMachine false).EachStep
        (fun st e => Closes st e → st.client.written = msgs.map ChatMessage.bytes) init trace := by
  intro msgs init trace
  have hadmits : (clientMachine false).Admits init trace := by decide +kernel
  have hrun := hadmits.run
  have hdrained : (clientMachine false).EachStep (fun st e => Closes st e → Drained st) init
      trace := by decide +kernel
  exact ⟨_, hrun, by decide +kernel, (written_before_close_iff hrun).mpr hdrained⟩

/-- The close is run while the first write is under way. -/
theorem not_written_before_close :
    ¬ ∀ (fill : Fill) (msgs : List ChatMessage) (trace : List ClientEvent) (st : ClientState),
      (clientMachine false).Run (init fill (msgs.map .doWrite ++ [.doClose])) trace st →
        (clientMachine false).EachStep
          (fun st e => Closes st e → st.client.written = msgs.map ChatMessage.bytes)
          (init fill (msgs.map .doWrite ++ [.doClose])) trace := by
  intro h
  have hadmits : (clientMachine false).Admits
      (init Fill.zero ([makeMessage Fill.zero (str "hi")].map .doWrite ++ [.doClose]))
      [.call, .call, .runPosted, .runPosted] := by decide +kernel
  have hwritten := h _ _ _ _ hadmits.run
  revert hwritten
  decide +kernel

end Runs

end AsioExamples.Chat
