import AsioExamples.Daytime.Udp
import Mathlib.Data.List.Zip

/-!
# Every datagram is answered to its sender

Between the arrival of a datagram and the handler that reads `remote_endpoint_` no other receive
is outstanding, so the handler finds the sender of the datagram there.
-/

namespace AsioExamples.Daytime

set_option autoImplicit false

/-- The senders of all datagrams, in the order in which they arrive. -/
def arrivals (trace : List UdpEvent) : List Endpoint :=
  trace.filterMap fun
    | .arrive sender => some sender
    | _ => none

/-- The times at which the handler is called without an error. -/
def handled (ctime : Nat → Bytes) (trace : List UdpEvent) : List Bytes :=
  trace.filterMap fun
    | .handleReceive false now _ => some (ctime now)
    | _ => none

/-- The handler was called with an error. -/
def Failed (trace : List UdpEvent) : Prop := ∃ now ec, .handleReceive true now ec ∈ trace

/-- What the outstanding operations are about to send. -/
def unsent (h : Heap Bytes) (sends : List SendTo) : List (Endpoint × Bytes) :=
  (sends.filter fun s => !s.done).map fun s => (s.endpoint, (h.get s.source).getD [])

section Unsent
variable {h h' : Heap Bytes} {sends sends' : List SendTo} {s : SendTo}

theorem unsent_perm (hp : sends.Perm sends') : (unsent h sends).Perm (unsent h sends') :=
  (hp.filter _).map _

theorem unsent_congr (heq : ∀ s ∈ sends, h'.get s.source = h.get s.source) :
    unsent h' sends = unsent h sends := by
  unfold unsent
  apply List.map_congr_left
  intro s hs
  rw [heq s (List.mem_of_mem_filter hs)]

theorem unsent_append : unsent h (sends ++ sends') = unsent h sends ++ unsent h sends' := by
  unfold unsent
  rw [List.filter_append, List.map_append]

theorem unsent_done (hdone : s.done = true) : unsent h [s] = [] := by simp [unsent, hdone]

theorem unsent_pending {text : Bytes} (hdone : s.done = false) (hget : h.get s.source = some text) :
    unsent h [s] = [(s.endpoint, text)] := by simp [unsent, hdone, hget]

/-- The operation, and the others. -/
theorem unsent_erase (hs : s ∈ sends) :
    (unsent h sends).Perm (unsent h [s] ++ unsent h (sends.erase s)) := by
  rw [← unsent_append]
  exact unsent_perm (List.perm_cons_erase hs)

end Unsent

theorem zip_append_of_le {α β : Type} {l l' : List α} {r : List β} (h : r.length ≤ l.length) :
    (l ++ l').zip r = l.zip r := by
  induction l generalizing r with
  | nil =>
    obtain rfl : r = [] := List.eq_nil_of_length_eq_zero (Nat.le_zero.mp h)
    simp
  | cons a l ih =>
    cases r with
    | nil => rfl
    | cons b r => simp [ih (Nat.le_of_succ_le_succ h)]

/-- What is answered: the n-th datagram when the handler is called for the n-th time. -/
structure Answering (ctime : Nat → Bytes) (program : UdpProgram) (trace : List UdpEvent)
    (st : UdpServer) : Prop where
  fault : st.fault = false
  owned : st.heap.Owned (st.sends.map SendTo.message)
  own : ∀ s ∈ st.sends, s.source = s.message
  going : program = .daemon ∨ ¬ Failed trace → st.receives + st.received.length = 1
  stopped : program = .daytime6 → Failed trace → st.receives = 0 ∧ st.received = []
  taken : ∃ taken, arrivals trace = taken ++ st.queue ∧
    (st.received = [false] → ∃ before, taken = before ++ [st.remoteEndpoint] ∧
      before.length = (handled ctime trace).length) ∧
    (st.received ≠ [false] → taken.length = (handled ctime trace).length)
  answered : (st.sent ++ st.refused ++ unsent st.heap st.sends).Perm
    ((arrivals trace).zip (handled ctime trace))
  ordered : program = .daemon → st.sends = [] ∧
    st.sent.Sublist ((arrivals trace).zip (handled ctime trace))

section Steps
variable {ctime : Nat → Bytes} {program : UdpProgram} {trace : List UdpEvent} {st : UdpServer}

theorem answering_construct (ctime : Nat → Bytes) (program : UdpProgram) :
    Answering ctime program [] .construct := by
  refine ⟨rfl, Heap.owned_empty, nofun, fun _ => rfl, fun _ hfailed => ?_,
    ⟨[], rfl, nofun, fun _ => rfl⟩, .nil, fun _ => ⟨rfl, .slnil⟩⟩
  obtain ⟨now, ec, hmem⟩ := hfailed
  cases hmem

/-- At most one receive is outstanding. -/
theorem Answering.at_most_one (h : Answering ctime program trace st) :
    st.receives + st.received.length ≤ 1 := by
  by_cases hgoing : program = .daemon ∨ ¬ Failed trace
  · exact Nat.le_of_eq (h.going hgoing)
  · obtain ⟨hprogram, hfailed⟩ := not_or.mp hgoing
    obtain ⟨hreceives, hreceived⟩ := h.stopped (by cases program <;> trivial) (not_not.mp hfailed)
    rw [hreceives, hreceived]
    exact Nat.zero_le 1

theorem Answering.length_le (h : Answering ctime program trace st) :
    (handled ctime trace).length ≤ (arrivals trace).length := by
  obtain ⟨taken, harrivals, hready, hidle⟩ := h.taken
  rw [harrivals, List.length_append]
  by_cases hreceived : st.received = [false]
  · obtain ⟨before, rfl, hlength⟩ := hready hreceived
    rw [List.length_append]
    omega
  · have hlength := hidle hreceived
    omega

/-- What is outstanding has its string. -/
theorem Answering.text (h : Answering ctime program trace st) {s : SendTo} (hs : s ∈ st.sends) :
    ∃ text, st.heap.get s.source = some text := by
  rw [h.own s hs]
  exact Option.isSome_iff_exists.mp (h.owned.alive_iff.mpr (List.mem_map_of_mem hs))

/-- An event that is neither an arrival nor a call of the handler. -/
def Quiet (e : UdpEvent) : Prop :=
  (∀ sender, e ≠ .arrive sender) ∧ ∀ error now ec, e ≠ .handleReceive error now ec

theorem Answering.later (h : Answering ctime program trace st) {e : UdpEvent} (he : Quiet e) :
    Answering ctime program (trace ++ [e]) st := by
  obtain ⟨harrive, hhandle⟩ := he
  have hfailed : Failed (trace ++ [e]) ↔ Failed trace := by
    constructor
    · rintro ⟨now, ec, hmem⟩
      rcases List.mem_append.mp hmem with hmem | hmem
      · exact ⟨now, ec, hmem⟩
      · exact absurd (List.mem_singleton.mp hmem).symm (hhandle true now ec)
    · rintro ⟨now, ec, hmem⟩
      exact ⟨now, ec, List.mem_append_left _ hmem⟩
  have hhandled : handled ctime (trace ++ [e]) = handled ctime trace := by
    unfold handled
    rw [List.filterMap_append]
    cases e with
    | handleReceive error now ec => exact absurd rfl (hhandle error now ec)
    | _ => exact List.append_nil _
  have harrivals : arrivals (trace ++ [e]) = arrivals trace := by
    unfold arrivals
    rw [List.filterMap_append]
    cases e with
    | arrive sender => exact absurd rfl (harrive sender)
    | _ => exact List.append_nil _
  refine ⟨h.fault, h.owned, h.own, ?_, ?_, ?_, ?_, ?_⟩
  · rw [hfailed]
    exact h.going
  · rw [hfailed]
    exact h.stopped
  · rw [harrivals, hhandled]
    exact h.taken
  · rw [harrivals, hhandled]
    exact h.answered
  · rw [harrivals, hhandled]
    exact h.ordered

theorem answering_arrive (h : Answering ctime program trace st) (sender : Endpoint) :
    Answering ctime program (trace ++ [.arrive sender])
      ((udpMachine ctime program).next st (.arrive sender)) := by
  have hfailed : Failed (trace ++ [.arrive sender]) ↔ Failed trace := by simp [Failed]
  have hhandled : handled ctime (trace ++ [.arrive sender]) = handled ctime trace := by
    simp [handled]
  have harrivals : arrivals (trace ++ [.arrive sender]) = arrivals trace ++ [sender] := by
    simp [arrivals]
  have hzip : (arrivals trace ++ [sender]).zip (handled ctime trace) =
      (arrivals trace).zip (handled ctime trace) := zip_append_of_le h.length_le
  refine ⟨h.fault, h.owned, h.own, ?_, ?_, ?_, ?_, ?_⟩
  · rw [hfailed]
    exact h.going
  · rw [hfailed]
    exact h.stopped
  · rw [harrivals, hhandled]
    obtain ⟨taken, htaken, hrest⟩ := h.taken
    exact ⟨taken, by rw [htaken, List.append_assoc]; rfl, hrest⟩
  · rw [harrivals, hhandled, hzip]
    exact h.answered
  · rw [harrivals, hhandled, hzip]
    exact h.ordered

/-- The one receive that waits is over. -/
theorem Answering.idle (h : Answering ctime program trace st) (hreceives : 0 < st.receives) :
    st.receives = 1 ∧ st.received = [] ∧ (program = .daytime6 → ¬ Failed trace) := by
  have hone := h.at_most_one
  refine ⟨by omega, List.eq_nil_of_length_eq_zero (by omega), fun hprogram hfailed => ?_⟩
  have hzero := (h.stopped hprogram hfailed).1
  omega

theorem answering_receive (h : Answering ctime program trace st) {sender : Endpoint}
    (hreceives : 0 < st.receives) (hqueue : st.queue.head? = some sender) :
    Answering ctime program trace ((udpMachine ctime program).next st (.receive sender)) := by
  obtain ⟨hone, hreceived, hgoing⟩ := h.idle hreceives
  refine ⟨h.fault, h.owned, h.own, fun _ => ?_, fun hprogram hover => ?_, ?_, h.answered,
    h.ordered⟩
  · change st.receives - 1 + (st.received ++ [false]).length = 1
    rw [hone, hreceived]
    rfl
  · exact absurd hover (hgoing hprogram)
  · obtain ⟨taken, htaken, -, hidle⟩ := h.taken
    have hlength := hidle (by rw [hreceived]; nofun)
    refine ⟨taken ++ [sender], ?_, fun _ => ⟨taken, rfl, hlength⟩, fun hne => ?_⟩
    · change arrivals trace = taken ++ [sender] ++ st.queue.tail
      rw [htaken, List.append_assoc, List.singleton_append, List.cons_head?_tail hqueue]
    · refine absurd ?_ hne
      change st.received ++ [false] = [false]
      rw [hreceived]
      rfl

theorem answering_failReceive (h : Answering ctime program trace st)
    (hreceives : 0 < st.receives) :
    Answering ctime program trace ((udpMachine ctime program).next st .failReceive) := by
  obtain ⟨hone, hreceived, hgoing⟩ := h.idle hreceives
  refine ⟨h.fault, h.owned, h.own, fun _ => ?_, fun hprogram hover => ?_, ?_, h.answered,
    h.ordered⟩
  · change st.receives - 1 + (st.received ++ [true]).length = 1
    rw [hone, hreceived]
    rfl
  · exact absurd hover (hgoing hprogram)
  · obtain ⟨taken, htaken, -, hidle⟩ := h.taken
    refine ⟨taken, htaken, fun heq => ?_, fun _ => hidle (by rw [hreceived]; nofun)⟩
    change st.received ++ [true] = [false] at heq
    rw [hreceived] at heq
    cases heq

/-- What a call with an error leaves of a server that has no other receive. -/
theorem handled_error (ctime : Nat → Bytes) (trace : List UdpEvent) (now : Nat) (ec : Bool) :
    Failed (trace ++ [.handleReceive true now ec]) ∧
      handled ctime (trace ++ [.handleReceive true now ec]) = handled ctime trace ∧
      arrivals (trace ++ [.handleReceive true now ec]) = arrivals trace := by
  refine ⟨⟨now, ec, List.mem_append_right _ (List.mem_singleton_self _)⟩, ?_, ?_⟩
  · simp [handled]
  · simp [arrivals]

theorem handled_done (ctime : Nat → Bytes) (trace : List UdpEvent) (now : Nat) (ec : Bool) :
    (Failed (trace ++ [.handleReceive false now ec]) ↔ Failed trace) ∧
      handled ctime (trace ++ [.handleReceive false now ec]) =
        handled ctime trace ++ [ctime now] ∧
      arrivals (trace ++ [.handleReceive false now ec]) = arrivals trace := by
  refine ⟨?_, ?_, ?_⟩
  · simp [Failed]
  · simp [handled]
  · simp [arrivals]

theorem Answering.of_received (h : Answering ctime program trace st) {error : Bool}
    (hreceived : error ∈ st.received) :
    st.receives = 0 ∧ st.received = [error] ∧ (program = .daytime6 → ¬ Failed trace) := by
  have hone := h.at_most_one
  obtain ⟨l, l', heq⟩ := List.append_of_mem hreceived
  rw [heq, List.length_append, List.length_cons] at hone
  obtain rfl : l = [] := List.eq_nil_of_length_eq_zero (by omega)
  obtain rfl : l' = [] := List.eq_nil_of_length_eq_zero (by omega)
  refine ⟨by omega, heq, fun hprogram hfailed => ?_⟩
  have hnone := (h.stopped hprogram hfailed).2
  rw [hnone] at hreceived
  cases hreceived

theorem answering_handleReceive_error (h : Answering ctime program trace st) {now : Nat}
    {ec : Bool} (herror : true ∈ st.received) :
    Answering ctime program (trace ++ [.handleReceive true now ec])
      ((udpMachine ctime program).next st (.handleReceive true now ec)) := by
  obtain ⟨hzero, hreceived, -⟩ := h.of_received herror
  obtain ⟨hfailed, hhandled, harrivals⟩ :=
    handled_error ctime trace now ec
  obtain ⟨taken, htaken, -, hidle⟩ := h.taken
  have hlength := hidle (by rw [hreceived]; nofun)
  have herase : st.received.erase true = [] := by
    rw [hreceived]
    exact List.erase_cons_head ..
  cases program with
  | daytime6 =>
    refine ⟨h.fault, h.owned, h.own, fun hgoing => ?_, fun _ _ => ⟨hzero, herase⟩, ?_, ?_, nofun⟩
    · exact absurd hfailed (hgoing.resolve_left nofun)
    · rw [harrivals, hhandled]
      refine ⟨taken, htaken, fun heq => ?_, fun _ => hlength⟩
      change st.received.erase true = [false] at heq
      rw [herase] at heq
      cases heq
    · rw [harrivals, hhandled]
      exact h.answered
  | daemon =>
    refine ⟨h.fault, h.owned, h.own, fun _ => ?_, nofun, ?_, ?_, fun hprogram => ?_⟩
    · change st.receives + 1 + (st.received.erase true).length = 1
      rw [hzero, herase]
      rfl
    · rw [harrivals, hhandled]
      refine ⟨taken, htaken, fun heq => ?_, fun _ => hlength⟩
      change st.received.erase true = [false] at heq
      rw [herase] at heq
      cases heq
    · rw [harrivals, hhandled]
      exact h.answered
    · rw [harrivals, hhandled]
      exact h.ordered hprogram

/-- The sender is that of the datagram whose turn it is. -/
theorem Answering.zip_handled (h : Answering ctime program trace st) (now : Nat)
    (hreceived : st.received = [false]) :
    (arrivals trace).zip (handled ctime trace ++ [ctime now]) =
      (arrivals trace).zip (handled ctime trace) ++ [(st.remoteEndpoint, ctime now)] := by
  obtain ⟨taken, htaken, hready, -⟩ := h.taken
  obtain ⟨before, rfl, hlength⟩ := hready hreceived
  have hbefore : (arrivals trace).zip (handled ctime trace) = before.zip (handled ctime trace) := by
    rw [htaken, List.append_assoc]
    exact zip_append_of_le (Nat.le_of_eq hlength.symm)
  have hmore : (arrivals trace).zip (handled ctime trace ++ [ctime now]) =
      (before ++ [st.remoteEndpoint]).zip (handled ctime trace ++ [ctime now]) := by
    rw [htaken]
    apply zip_append_of_le
    simp [hlength]
  rw [hbefore, hmore, List.zip_append hlength]
  rfl

theorem answering_handleReceive_daytime6 (h : Answering ctime .daytime6 trace st) {now : Nat}
    {ec : Bool} (herror : false ∈ st.received) :
    Answering ctime .daytime6 (trace ++ [.handleReceive false now ec])
      ((udpMachine ctime .daytime6).next st (.handleReceive false now ec)) := by
  obtain ⟨hzero, hreceived, hgoing⟩ := h.of_received herror
  obtain ⟨hfailed, hhandled, harrivals⟩ :=
    handled_done ctime trace now ec
  have hzip := h.zip_handled now hreceived
  have herase : st.received.erase false = [] := by
    rw [hreceived]
    exact List.erase_cons_head ..
  have hcopy := (h.owned.make (ctime now)).copy List.mem_cons_self
  obtain ⟨howned, hsame⟩ := hcopy.drop_head
  have hnew : (((st.heap.make (ctime now)).copy st.heap.next).drop st.heap.next).get
      st.heap.next = some (ctime now) := by
    rw [hsame _ List.mem_cons_self, Heap.get_copy]
    exact Heap.get_make ..
  have hold : ∀ s ∈ st.sends, (((st.heap.make (ctime now)).copy st.heap.next).drop
      st.heap.next).get s.source = st.heap.get s.source := by
    intro s hs
    have hmem : s.source ∈ st.sends.map SendTo.message := by
      rw [h.own s hs]
      exact List.mem_map_of_mem hs
    rw [hsame _ (List.mem_cons_of_mem _ hmem), Heap.get_copy]
    exact Heap.get_make_of_mem h.owned hmem
  have hnext : (udpMachine ctime .daytime6).next st (.handleReceive false now ec) =
      { st with
        heap := ((st.heap.make (ctime now)).copy st.heap.next).drop st.heap.next
        received := []
        receives := 1
        sends := st.sends ++ [⟨st.remoteEndpoint, st.heap.next, st.heap.next, false⟩] } := by
    simp [udpMachine, UdpProgram.handleReceive, UdpServer.handleReceive, UdpServer.asyncSendTo,
      UdpServer.startReceive, herase, hzero]
  rw [hnext]
  refine ⟨h.fault, ?_, fun s hs => ?_, fun _ => rfl, fun hprogram hover => ?_, ?_, ?_, nofun⟩
  · rw [List.map_append]
    exact howned.perm (List.perm_append_singleton _ _).symm
  · rcases List.mem_append.mp hs with hs | hs
    · exact h.own s hs
    · obtain rfl := List.mem_singleton.mp hs
      rfl
  · exact absurd (hfailed.mp hover) (hgoing hprogram)
  · rw [harrivals, hhandled]
    obtain ⟨taken, htaken, hready, -⟩ := h.taken
    obtain ⟨before, rfl, hlength⟩ := hready hreceived
    exact ⟨_, htaken, nofun, fun _ => by simp [hlength]⟩
  · rw [harrivals, hhandled, hzip, unsent_append, unsent_congr hold, unsent_pending rfl hnew,
      ← List.append_assoc]
    exact h.answered.append_right _

theorem answering_handleReceive_daemon (h : Answering ctime .daemon trace st) {now : Nat}
    {ec : Bool} (herror : false ∈ st.received) :
    Answering ctime .daemon (trace ++ [.handleReceive false now ec])
      ((udpMachine ctime .daemon).next st (.handleReceive false now ec)) := by
  obtain ⟨hzero, hreceived, -⟩ := h.of_received herror
  obtain ⟨-, hhandled, harrivals⟩ :=
    handled_done ctime trace now ec
  have hzip := h.zip_handled now hreceived
  have herase : st.received.erase false = [] := by
    rw [hreceived]
    exact List.erase_cons_head ..
  obtain ⟨hsends, hsub⟩ := h.ordered rfl
  have hnext : (udpMachine ctime .daemon).next st (.handleReceive false now ec) =
      { st with
        received := []
        receives := 1
        sent := if ec then st.sent else st.sent ++ [(st.remoteEndpoint, ctime now)]
        refused := if ec then st.refused ++ [(st.remoteEndpoint, ctime now)] else st.refused } := by
    simp only [udpMachine, UdpProgram.handleReceive, UdpDaytimeServer.handleReceive,
      UdpServer.startReceive, herase, hzero]
    cases ec <;> rfl
  rw [hnext]
  refine ⟨h.fault, h.owned, h.own, fun _ => rfl, nofun, ?_, ?_, fun _ => ⟨hsends, ?_⟩⟩
  · rw [harrivals, hhandled]
    obtain ⟨taken, htaken, hready, -⟩ := h.taken
    obtain ⟨before, rfl, hlength⟩ := hready hreceived
    exact ⟨_, htaken, nofun, fun _ => by simp [hlength]⟩
  · rw [harrivals, hhandled, hzip]
    have hperm := h.answered.append_right [(st.remoteEndpoint, ctime now)]
    refine List.Perm.trans ?_ hperm
    rw [List.perm_iff_count]
    intro a
    cases ec <;> simp only [List.count_append, Bool.false_eq_true, if_false, if_true] <;> omega
  · rw [harrivals, hhandled, hzip]
    cases ec with
    | true => exact hsub.trans (List.sublist_append_left _ _)
    | false => exact hsub.append (.refl _)

/-- An operation is over, with its datagram sent or refused. -/
theorem Answering.sent (h : Answering ctime program trace st) {s : SendTo} (hs : s ∈ st.sends)
    (hdone : s.done = false) {text : Bytes} (hget : st.heap.get s.source = some text)
    (failed : Bool) :
    Answering ctime program trace
      { st with
        sends := st.sends.erase s ++ [{ s with done := true }]
        sent := if failed then st.sent else st.sent ++ [(s.endpoint, text)]
        refused := if failed then st.refused ++ [(s.endpoint, text)] else st.refused } := by
  have hperm : (st.sends.map SendTo.message).Perm
      ((st.sends.erase s ++ [{ s with done := true }]).map SendTo.message) := by
    refine ((List.perm_cons_erase hs).map SendTo.message).trans ?_
    rw [List.map_append]
    exact (List.perm_append_singleton _ _).symm
  refine ⟨h.fault, h.owned.perm hperm, fun s' hs' => ?_, h.going, h.stopped, h.taken, ?_,
    fun hprogram => ?_⟩
  · rcases List.mem_append.mp hs' with hs' | hs'
    · exact h.own s' (List.mem_of_mem_erase hs')
    · obtain rfl := List.mem_singleton.mp hs'
      exact h.own s hs
  · refine List.Perm.trans ?_ h.answered
    have herase := unsent_erase (h := st.heap) hs
    rw [unsent_pending hdone hget, List.perm_iff_count] at herase
    rw [unsent_append, unsent_done rfl, List.perm_iff_count]
    intro a
    have herase := herase a
    cases failed <;>
      simp only [List.count_append, List.append_nil, Bool.false_eq_true, if_false, if_true]
        at herase ⊢ <;> omega
  · rw [(h.ordered hprogram).1] at hs
    cases hs

theorem answering_send (h : Answering ctime program trace st) {s : SendTo} (hs : s ∈ st.sends)
    (hdone : s.done = false) :
    Answering ctime program trace ((udpMachine ctime program).next st (.send s)) := by
  obtain ⟨text, hget⟩ := h.text hs
  have hsent := h.sent hs hdone hget false
  simp only [Bool.false_eq_true, if_false] at hsent
  simpa only [udpMachine, hget] using hsent

theorem answering_failSend (h : Answering ctime program trace st) {s : SendTo} (hs : s ∈ st.sends)
    (hdone : s.done = false) :
    Answering ctime program trace ((udpMachine ctime program).next st (.failSend s)) := by
  obtain ⟨text, hget⟩ := h.text hs
  have hsent := h.sent hs hdone hget true
  simp only [if_true] at hsent
  simpa only [udpMachine, hget] using hsent

/-- With the handler goes the string. -/
theorem answering_handleSend (h : Answering ctime program trace st) {s : SendTo}
    (hs : s ∈ st.sends) (hdone : s.done = true) :
    Answering ctime program trace ((udpMachine ctime program).next st (.handleSend s)) := by
  have hperm := (List.perm_cons_erase hs).map SendTo.message
  rw [List.map_cons] at hperm
  have hcopy := (h.owned.perm hperm).copy List.mem_cons_self
  obtain ⟨hcalled, hsame⟩ := hcopy.drop_head
  obtain ⟨howned, hsame'⟩ := hcalled.drop_head
  have hold : ∀ s' ∈ st.sends.erase s, (((st.heap.copy s.message).drop s.message).drop
      s.message).get s'.source = st.heap.get s'.source := by
    intro s' hs'
    have hmem : s'.source ∈ (st.sends.erase s).map SendTo.message := by
      rw [h.own s' (List.mem_of_mem_erase hs')]
      exact List.mem_map_of_mem hs'
    rw [hsame' _ hmem, hsame _ (List.mem_cons_of_mem _ hmem), Heap.get_copy]
  have hnext : (udpMachine ctime program).next st (.handleSend s) =
      { st with
        heap := ((st.heap.copy s.message).drop s.message).drop s.message
        sends := st.sends.erase s } := rfl
  rw [hnext]
  refine ⟨h.fault, howned, fun s' hs' => h.own s' (List.mem_of_mem_erase hs'), h.going, h.stopped,
    h.taken, ?_, fun hprogram => ?_⟩
  · rw [unsent_congr hold]
    refine List.Perm.trans (List.Perm.append_left _ ?_) h.answered
    have herase := unsent_erase (h := st.heap) hs
    rw [unsent_done hdone] at herase
    exact herase.symm
  · rw [(h.ordered hprogram).1] at hs
    cases hs

theorem run_answering (h : (udpMachine ctime program).Run .construct trace st) :
    Answering ctime program trace st := by
  apply h.invariant (answering_construct ctime program)
  intro trace st e ih he
  cases e with
  | arrive sender => exact answering_arrive ih sender
  | receive sender => exact (answering_receive ih he.1 he.2).later ⟨nofun, nofun⟩
  | failReceive => exact (answering_failReceive ih he).later ⟨nofun, nofun⟩
  | handleReceive error now ec =>
    cases error with
    | true => exact answering_handleReceive_error ih he
    | false =>
      cases program with
      | daytime6 => exact answering_handleReceive_daytime6 ih he
      | daemon => exact answering_handleReceive_daemon ih he
  | send s => exact (answering_send ih he.1 he.2).later ⟨nofun, nofun⟩
  | failSend s => exact (answering_failSend ih he.1 he.2).later ⟨nofun, nofun⟩
  | handleSend s => exact (answering_handleSend ih he.1 he.2).later ⟨nofun, nofun⟩

end Steps

/-- The n-th datagram is answered once, to its sender, with the time of the n-th call of the
handler; daemon.cpp sends the answers in order, and never stops to receive, as the others do with
the first error. -/
theorem datagrams_are_answered (ctime : Nat → Bytes) (program : UdpProgram) {trace : List UdpEvent}
    {st : UdpServer} (h : (udpMachine ctime program).Run .construct trace st) :
    st.fault = false ∧
      (st.sent ++ st.refused ++ unsent st.heap st.sends).Perm
        ((arrivals trace).zip (handled ctime trace)) ∧
      (arrivals trace).length =
        (handled ctime trace).length + st.received.count false + st.queue.length ∧
      (∀ r, (st.heap.get r).isSome ↔ ∃ s ∈ st.sends, s.message = r) ∧
      (program = .daemon →
        st.sent.Sublist ((arrivals trace).zip (handled ctime trace)) ∧
          st.receives + st.received.length = 1) ∧
      (program = .daytime6 →
        (¬ Failed trace → st.receives + st.received.length = 1) ∧
          (Failed trace → st.receives = 0 ∧ st.received = [])) := by
  have hanswering := run_answering h
  refine ⟨hanswering.fault, hanswering.answered, ?_, fun r => ?_, fun hprogram => ?_,
    fun hprogram => ?_⟩
  · obtain ⟨taken, htaken, hready, hidle⟩ := hanswering.taken
    rw [htaken, List.length_append]
    by_cases hreceived : st.received = [false]
    · obtain ⟨before, rfl, hlength⟩ := hready hreceived
      rw [hreceived]
      simp [hlength]
    · have hcount : st.received.count false = 0 := by
        rw [List.count_eq_zero]
        exact fun hmem => hreceived (hanswering.of_received hmem).2.1
      rw [hidle hreceived, hcount, Nat.add_zero]
  · rw [hanswering.owned.alive_iff, List.mem_map]
  · exact ⟨(hanswering.ordered hprogram).2, hanswering.going (.inl hprogram)⟩
  · exact ⟨fun hgoing => hanswering.going (.inr hgoing), hanswering.stopped hprogram⟩

/-- daytime6.cpp with two datagrams, the second received before the answer to the first is sent;
then a receive fails, and a third datagram stays unanswered. -/
theorem datagrams_are_answered_twice :
    let ctime : Nat → Bytes :=
      fun now => str "Sun Sep 16 01:03:" ++ str (toString now) ++ str " 1973\n"
    let a : Endpoint := ⟨1, 40000⟩
    let b : Endpoint := ⟨2, 50000⟩
    let trace : List UdpEvent := [.arrive a, .receive a, .arrive b, .handleReceive false 52 false,
      .receive b, .send ⟨a, 0, 0, false⟩, .handleReceive false 53 false, .failReceive,
      .handleSend ⟨a, 0, 0, true⟩, .send ⟨b, 1, 1, false⟩, .handleReceive true 54 false, .arrive a]
    ∃ st, (udpMachine ctime .daytime6).Run .construct trace st ∧ st.fault = false ∧
      (st.sent ++ st.refused ++ unsent st.heap st.sends).Perm [(a, ctime 52), (b, ctime 53)] ∧
      st.heap.get 0 = none ∧ st.queue = [a] ∧ st.receives = 0 ∧ st.received = [] := by
  intro ctime a b trace
  have hadmits : (udpMachine ctime .daytime6).Admits .construct trace := by decide +kernel
  have hrun := hadmits.run
  generalize hst : List.foldl _ _ trace = st at hrun
  have hqueue : st.queue = [a] := by
    rw [← hst]
    decide +kernel
  have hsends : ∀ s ∈ st.sends, s.message ≠ 0 := by
    rw [← hst]
    decide +kernel
  obtain ⟨hfault, hanswered, -, halive, -, hover⟩ := datagrams_are_answered ctime .daytime6 hrun
  obtain ⟨hreceives, hreceived⟩ := (hover rfl).2 ⟨54, false, by decide⟩
  refine ⟨st, hrun, hfault, hanswered, ?_, hqueue, hreceives, hreceived⟩
  rw [← Option.not_isSome_iff_eq_none, halive]
  rintro ⟨s, hs, hmessage⟩
  exact hsends s hs hmessage

end AsioExamples.Daytime
