import AsioExamples.Daytime.Tcp
import Mathlib.Data.List.Nodup

/-!
# What the clients of the daytime servers are sent

An object is there as long as an operation has a pointer to it: what an operation sends is read
from an object that lives, and no object stays behind.
-/

namespace AsioExamples.Daytime

set_option autoImplicit false

open TcpServer

/-- What `handle_accept` and the end of its handler leave: an accept for the new connection `q`,
and the operations `new`. -/
structure Restarted (st st' : TcpServer) (p : Nat) (others : List Nat) (q : Nat)
    (new : List Write) : Prop where
  accepts : st'.accepts = st.accepts ++ [q]
  writes : st'.writes = st.writes ++ new
  received : st'.received = st.received
  fault : st'.fault = st.fault
  owned : st'.heap.Owned (q :: (new.flatMap Write.owned ++ others))
  kept : ∀ r ∈ others, st'.heap.get r = st.heap.get r
  later : st.heap.next ≤ q
  fresh : ∀ r ∈ new.flatMap Write.owned, r = p ∨ st.heap.next ≤ r
  nodup : (q :: new.flatMap Write.owned).Nodup

/-- An operation that has all its characters to send. -/
structure Tells (st : TcpServer) (p : Nat) (daytime : Bytes) (w : Write) : Prop where
  connection : w.connection = p
  source : w.source ∈ w.owned
  owner : p ∈ w.owned
  object : ∃ o, st.heap.get w.source = some o ∧ o.bytes = daytime
  size : w.size = daytime.length
  sent : w.sent = 0

section Handlers

theorem accept_spec (st : TcpServer) {h : Heap Object} {kept pointers : List Nat}
    (hb : h.Becomes kept st.heap pointers) (o : Object) :
    h.Becomes kept (({ st with heap := st.heap.make o }.asyncAccept st.heap.next).drop
      st.heap.next).heap (st.heap.next :: pointers) :=
  ((hb.make o).copy List.mem_cons_self).drop fun r hr => List.mem_cons_of_mem _ (hb.mem r hr)

variable {st : TcpServer} {p : Nat} {others : List Nat}

theorem daytime3_failed (ho : st.heap.Owned (p :: others)) (daytime : Bytes) :
    ∃ q, Restarted st ((st.handleAccept p true daytime).drop p) p others q [] := by
  have hmem : ∀ q, ∀ r ∈ others, r ∈ q :: others := fun q r hr => List.mem_cons_of_mem q hr
  have hbegin : st.heap.Becomes others st.heap (p :: others) := ho.becomes (hmem p)
  have haccept := accept_spec (st.copy p) (hbegin.copy List.mem_cons_self) (.connection [])
  have hdrop := (haccept.perm (.swap p _ _)).drop fun r hr =>
    List.mem_cons_of_mem _ (hmem p r hr)
  have hend := (hdrop.perm (.swap p _ _)).drop (hmem _)
  exact ⟨st.heap.next, rfl, (List.append_nil _).symm, rfl, rfl, hend.owned, hend.same,
    Nat.le_refl _, List.forall_mem_nil _, List.nodup_singleton _⟩

theorem daytime3_started (ho : st.heap.Owned (p :: others)) (hp : p ∉ others) (daytime : Bytes) :
    ∃ q w, Restarted st ((st.handleAccept p false daytime).drop p) p others q [w] ∧
      Tells ((st.handleAccept p false daytime).drop p) p daytime w := by
  have hmem : ∀ a, ∀ r ∈ p :: others, r ∈ a :: p :: others :=
    fun a r hr => List.mem_cons_of_mem a hr
  have hbegin : st.heap.Becomes others (st.copy p).heap (p :: p :: others) :=
    (ho.becomes fun r hr => List.mem_cons_of_mem _ hr).copy List.mem_cons_self
  have hset := hbegin.modify hp fun _ => Object.connection daytime
  have hobject : ((st.copy p).heap.modify p fun _ => .connection daytime).get p =
      some (.connection daytime) := by
    obtain ⟨o, hget⟩ := Option.isSome_iff_exists.mp
      (hbegin.owned.alive_iff.mpr (List.mem_cons_self (a := p)))
    rw [Heap.get_modify_self, hget]
    rfl
  have hwrite := (hset.owned.becomes (hmem p)).copy List.mem_cons_self
  have haccept := accept_spec (TcpConnection.start (st.copy p) p daytime) hwrite
    (.connection [])
  have hdrop := (haccept.perm (.swap p _ _)).drop fun r hr =>
    List.mem_cons_of_mem _ (hmem p r hr)
  have hend := (hdrop.perm (.swap p _ _)).drop (hmem _)
  have hlt : p < st.heap.next := ho.lt_next List.mem_cons_self
  refine ⟨st.heap.next, ⟨p, p, daytime.length, [p], 0⟩, ⟨rfl, rfl, rfl, rfl, hend.owned,
    fun r hr => ?_, Nat.le_refl _, fun r hr => .inl (List.mem_singleton.mp hr), ?_⟩,
    rfl, List.mem_singleton_self p, List.mem_singleton_self p, ⟨.connection daytime, ?_, rfl⟩, rfl,
    rfl⟩
  · exact (hend.same r (List.mem_cons_of_mem _ hr)).trans (hset.same r hr)
  · exact List.nodup_cons.mpr ⟨fun hm => Nat.ne_of_gt hlt (List.mem_singleton.mp hm),
      List.nodup_singleton p⟩
  · exact (hend.same p List.mem_cons_self).trans hobject

theorem referenceCounted_failed (ho : st.heap.Owned (p :: others)) (daytime : Bytes) :
    ∃ q, Restarted st ((Server.handleAccept st p true daytime).drop p) p others q [] := by
  have hmem : ∀ q, ∀ r ∈ others, r ∈ q :: others := fun q r hr => List.mem_cons_of_mem q hr
  have hcopy := (ho.becomes (hmem p)).copy (p := p) List.mem_cons_self
  have hreset := ((hcopy.make .session).perm (.swap p _ _)).drop fun r hr =>
    List.mem_cons_of_mem _ (hmem p r hr)
  have haccept := (hreset.copy List.mem_cons_self).drop hreset.mem
  have hend := (haccept.perm (.swap p _ _)).drop (hmem _)
  exact ⟨st.heap.next, rfl, (List.append_nil _).symm, rfl, rfl, hend.owned, hend.same,
    Nat.le_refl _, List.forall_mem_nil _, List.nodup_singleton _⟩

theorem referenceCounted_started (ho : st.heap.Owned (p :: others)) (daytime : Bytes) :
    ∃ q w, Restarted st ((Server.handleAccept st p false daytime).drop p) p others q [w] ∧
      Tells ((Server.handleAccept st p false daytime).drop p) p daytime w := by
  have hcopy : st.heap.Becomes others (st.copy p).heap (p :: p :: others) :=
    (ho.becomes fun r hr => List.mem_cons_of_mem _ hr).copy List.mem_cons_self
  have hmake := hcopy.make (.chars daytime)
  have hobject : ((st.copy p).heap.make (.chars daytime)).get st.heap.next =
      some (.chars daytime) := Heap.get_make ..
  have hlt : p < st.heap.next := ho.lt_next List.mem_cons_self
  have hkept : ((st.copy p).heap.make (.chars daytime)).Becomes (st.heap.next :: p :: others)
      ((st.copy p).heap.make (.chars daytime)) (st.heap.next :: p :: p :: others) := by
    apply hmake.owned.becomes
    intro r hr
    simp only [List.mem_cons] at hr ⊢
    tauto
  have hwrite := (hkept.copy List.mem_cons_self).copy (p := p) (by simp)
  have hlocal := (hwrite.perm (.swap st.heap.next p _)).drop (by
    intro r hr
    simp only [List.mem_cons] at hr ⊢
    tauto)
  have hreset := ((hlocal.make .session).perm (.swap p _ _)).drop (by
    intro r hr
    simp only [List.mem_cons] at hr ⊢
    tauto)
  have haccept := (hreset.copy List.mem_cons_self).drop hreset.mem
  have hend := (haccept.perm ((List.Perm.swap p _ _).cons _ |>.trans (.swap p _ _))).drop (by
    intro r hr
    simp only [List.mem_cons] at hr ⊢
    tauto)
  refine ⟨st.heap.next + 1, ⟨p, st.heap.next, daytime.length, [st.heap.next, p], 0⟩,
    ⟨rfl, rfl, rfl, rfl, hend.owned, fun r hr => ?_, Nat.le_succ _, fun r hr => ?_, ?_⟩,
    rfl, List.mem_cons_self, List.mem_cons_of_mem _ (List.mem_singleton_self p),
    ⟨.chars daytime, ?_, rfl⟩, rfl, rfl⟩
  · exact (hend.same r (List.mem_cons_of_mem _ (List.mem_cons_of_mem _ hr))).trans
      (hmake.same r hr)
  · rcases List.mem_cons.mp hr with rfl | hr
    · exact .inr (Nat.le_refl _)
    · exact .inl (List.mem_singleton.mp hr)
  · simp
    omega
  · exact (hend.same _ List.mem_cons_self).trans hobject

theorem handleAccept_spec (program : Program) (st : TcpServer)
    (ho : st.heap.Owned (p :: others)) (hp : p ∉ others) (error : Bool) (daytime : Bytes) :
    ∃ q new, Restarted st ((program.handleAccept st p error daytime).drop p) p others q new ∧
      (error = true → new = []) ∧ (error = false → ∃ w, new = [w] ∧
        Tells ((program.handleAccept st p error daytime).drop p) p daytime w) := by
  cases error with
  | true =>
    cases program with
    | daytime3 =>
      obtain ⟨q, h⟩ := daytime3_failed ho daytime
      exact ⟨q, [], h, fun _ => rfl, nofun⟩
    | referenceCounted =>
      obtain ⟨q, h⟩ := referenceCounted_failed ho daytime
      exact ⟨q, [], h, fun _ => rfl, nofun⟩
  | false =>
    cases program with
    | daytime3 =>
      obtain ⟨q, w, h, ht⟩ := daytime3_started ho hp daytime
      exact ⟨q, [w], h, nofun, fun _ => ⟨w, rfl, ht⟩⟩
    | referenceCounted =>
      obtain ⟨q, w, h, ht⟩ := referenceCounted_started ho daytime
      exact ⟨q, [w], h, nofun, fun _ => ⟨w, rfl, ht⟩⟩

theorem construct_spec (program : Program) :
    program.construct.heap.Owned [0] ∧ program.construct.accepts = [0] ∧
      program.construct.writes = [] ∧ program.construct.received = (fun _ => []) ∧
      program.construct.fault = false := by
  have hempty : Heap.empty.Becomes [] init.heap [] := Heap.owned_empty.becomes nofun
  cases program with
  | daytime3 => exact ⟨(accept_spec init hempty (.connection [])).owned, rfl, rfl, rfl, rfl⟩
  | referenceCounted => exact ⟨(accept_spec init hempty .session).owned, rfl, rfl, rfl, rfl⟩

end Handlers

/-- All pointers of the program, where it is not in a handler. -/
def TcpServer.pointers (st : TcpServer) : List Nat :=
  st.accepts ++ st.writes.flatMap Write.owned

/-- What an operation sends is what it was given. -/
structure Writing (st : TcpServer) (w : Write) (daytime : Bytes) : Prop where
  source : w.source ∈ w.owned
  owner : w.connection ∈ w.owned
  object : ∃ o, st.heap.get w.source = some o ∧ o.bytes = daytime
  size : w.size = daytime.length
  sent : w.sent ≤ w.size
  received : st.received w.connection = daytime.take w.sent

/-- Every object has one pointer to it, and each connection is told the time of its start. -/
structure Serving (ctime : Nat → Bytes) (trace : List TcpEvent) (st : TcpServer) : Prop where
  fault : st.fault = false
  accept : ∃ p, st.accepts = [p]
  owned : st.heap.Owned st.pointers
  nodup : st.pointers.Nodup
  past : ∀ p e t, .handleAccept p e t ∈ trace → p < st.heap.next ∧ p ∉ st.accepts
  unheard : ∀ p, (∀ t, .handleAccept p false t ∉ trace) → st.received p = []
  writing : ∀ w ∈ st.writes, ∃ t, .handleAccept w.connection false t ∈ trace ∧
    Writing st w (ctime t)
  ended : ∀ w e, .handleWrite w e ∈ trace → w.connection < st.heap.next ∧
    w.connection ∉ st.pointers ∧ ∃ t, .handleAccept w.connection false t ∈ trace ∧
      st.received w.connection <+: ctime t ∧
      (e = false → st.received w.connection = ctime t)
  failed : ∀ p t, .handleAccept p true t ∈ trace → p ∉ st.pointers
  going : ∀ p t, .handleAccept p false t ∈ trace → (∃ w ∈ st.writes, w.connection = p) ∨
    ∃ w e, w.connection = p ∧ .handleWrite w e ∈ trace
  once : ∀ p e t e' t', .handleAccept p e t ∈ trace → .handleAccept p e' t' ∈ trace →
    e = e' ∧ t = t'

section Runs
variable {ctime : Nat → Bytes} {program : Program} {trace : List TcpEvent} {st : TcpServer}

theorem serving_construct (ctime : Nat → Bytes) (program : Program) :
    Serving ctime [] program.construct := by
  obtain ⟨howned, haccepts, hwrites, hreceived, hfault⟩ := construct_spec program
  have hpointers : program.construct.pointers = [0] := by
    simp [TcpServer.pointers, haccepts, hwrites]
  refine ⟨hfault, ⟨0, haccepts⟩, hpointers ▸ howned, ?_, nofun, fun p _ => ?_, fun w hw => ?_,
    nofun, nofun, nofun, nofun⟩
  · rw [hpointers]
    exact List.nodup_singleton 0
  · rw [hreceived]
  · rw [hwrites] at hw
    cases hw

/-- What was made before the new connection is where it was. -/
theorem serving_handleAccept (h : Serving ctime trace st) {p : Nat} {error : Bool} {now : Nat}
    (hp : p ∈ st.accepts) : Serving ctime (trace ++ [.handleAccept p error now])
      ((tcpMachine ctime program).next st (.handleAccept p error now)) := by
  obtain ⟨p', haccept⟩ := h.accept
  obtain rfl : p = p' := List.mem_singleton.mp (haccept ▸ hp)
  have hpointers : st.pointers = p :: st.writes.flatMap Write.owned := by
    rw [TcpServer.pointers, haccept]
    rfl
  have hnodup := h.nodup
  have howned := h.owned
  rw [hpointers] at hnodup howned
  obtain ⟨hnot, hrest⟩ := List.nodup_cons.mp hnodup
  have hlt : ∀ r ∈ p :: st.writes.flatMap Write.owned, r < st.heap.next :=
    fun r hr => howned.lt_next hr
  have hnone : st.accepts.erase p = [] := by
    rw [haccept]
    exact List.erase_cons_head p []
  obtain ⟨q, new, hspec, hfailed, hstarted⟩ := handleAccept_spec program
    { st with accepts := st.accepts.erase p } howned hnot error (ctime now)
  change Serving ctime _ ((program.handleAccept { st with accepts := st.accepts.erase p } p error
    (ctime now)).drop p)
  generalize (program.handleAccept { st with accepts := st.accepts.erase p } p error
    (ctime now)).drop p = st' at hspec hstarted
  have haccepts : st'.accepts = [q] := by
    rw [hspec.accepts]
    change st.accepts.erase p ++ [q] = [q]
    rw [hnone]
    rfl
  have hwrites : st'.writes = st.writes ++ new := hspec.writes
  have hreceived : st'.received = st.received := hspec.received
  have hpointers' : st'.pointers =
      q :: (st.writes.flatMap Write.owned ++ new.flatMap Write.owned) := by
    rw [TcpServer.pointers, haccepts, hwrites, List.flatMap_append]
    rfl
  have hlater : st.heap.next ≤ q := hspec.later
  have howned' : st'.heap.Owned st'.pointers := by
    rw [hpointers']
    exact hspec.owned.perm (List.perm_append_comm.cons q)
  have hnext : st.heap.next < st'.heap.next :=
    Nat.lt_of_le_of_lt hlater (hspec.owned.lt_next List.mem_cons_self)
  obtain ⟨hq, hnew⟩ := List.nodup_cons.mp hspec.nodup
  have hout : ∀ r, r < st.heap.next → r ∉ st.pointers → r ∉ st'.pointers := by
    intro r hr hold hmem
    rw [hpointers] at hold
    rw [hpointers'] at hmem
    rcases List.mem_cons.mp hmem with rfl | hmem
    · omega
    · rcases List.mem_append.mp hmem with hmem | hmem
      · exact hold (List.mem_cons_of_mem _ hmem)
      · rcases hspec.fresh r hmem with rfl | hge
        · exact hold List.mem_cons_self
        · have hge : st.heap.next ≤ r := hge
          omega
  have hunaccepted : ∀ e t, .handleAccept p e t ∉ trace :=
    fun e t hmem => (h.past p e t hmem).2 hp
  refine ⟨hspec.fault.trans h.fault, ⟨q, haccepts⟩, howned', ?_, fun p' e t hmem => ?_,
    fun p' hnever => ?_, fun w hw => ?_, fun w e hmem => ?_, fun p' t hmem => ?_,
    fun p' t hmem => ?_, fun p' e t e' t' hmem hmem' => ?_⟩
  · rw [hpointers', List.nodup_cons, List.nodup_append]
    refine ⟨fun hmem => ?_, hrest, hnew, ?_⟩
    · rcases List.mem_append.mp hmem with hmem | hmem
      · have hq := hlt q (List.mem_cons_of_mem _ hmem)
        omega
      · exact hq hmem
    · rintro a ha b hb rfl
      rcases hspec.fresh a hb with rfl | hge
      · exact hnot ha
      · have hlt := hlt a (List.mem_cons_of_mem _ ha)
        have hge : st.heap.next ≤ a := hge
        omega
  · rw [haccepts, List.mem_singleton]
    rcases List.mem_append.mp hmem with hmem | hmem
    · have hlt := (h.past p' e t hmem).1
      omega
    · cases List.mem_singleton.mp hmem
      have hlt := hlt p List.mem_cons_self
      omega
  · rw [hreceived]
    exact h.unheard p' fun t ht => hnever t (List.mem_append_left _ ht)
  · rw [hwrites] at hw
    rcases List.mem_append.mp hw with hw | hw
    · obtain ⟨t, ht, hwriting⟩ := h.writing w hw
      obtain ⟨o, hget, ho⟩ := hwriting.object
      have hmem : w.source ∈ st.writes.flatMap Write.owned :=
        List.mem_flatMap.mpr ⟨w, hw, hwriting.source⟩
      exact ⟨t, List.mem_append_left _ ht, hwriting.source, hwriting.owner,
        ⟨o, (hspec.kept _ hmem).trans hget, ho⟩, hwriting.size, hwriting.sent,
        hreceived ▸ hwriting.received⟩
    · cases error with
      | true =>
        rw [hfailed rfl] at hw
        cases hw
      | false =>
        obtain ⟨w', rfl, htells⟩ := hstarted rfl
        obtain rfl := List.mem_singleton.mp hw
        refine ⟨now, ?_, htells.source, ?_, htells.object, htells.size, ?_, ?_⟩
        · rw [htells.connection]
          exact List.mem_append_right _ (List.mem_singleton_self _)
        · rw [htells.connection]
          exact htells.owner
        · rw [htells.sent]
          exact Nat.zero_le _
        · rw [htells.sent, htells.connection, hreceived, h.unheard p (hunaccepted false)]
          rfl
  · have hmem : .handleWrite w e ∈ trace := by simpa using hmem
    obtain ⟨hlt, hgone, t, ht, htold⟩ := h.ended w e hmem
    exact ⟨hlt.trans hnext, hout _ hlt hgone, t, List.mem_append_left _ ht, hreceived ▸ htold⟩
  · rcases List.mem_append.mp hmem with hmem | hmem
    · exact hout p' (h.past p' true t hmem).1 (h.failed p' t hmem)
    · cases List.mem_singleton.mp hmem
      rw [hpointers', hfailed rfl]
      intro hmem
      rcases List.mem_cons.mp hmem with rfl | hmem
      · have hlt := hlt p List.mem_cons_self
        omega
      · exact hnot (by simpa using hmem)
  · rcases List.mem_append.mp hmem with hmem | hmem
    · rcases h.going p' t hmem with ⟨w, hw, hconnection⟩ | ⟨w, e, hconnection, he⟩
      · exact .inl ⟨w, hwrites ▸ List.mem_append_left _ hw, hconnection⟩
      · exact .inr ⟨w, e, hconnection, List.mem_append_left _ he⟩
    · cases List.mem_singleton.mp hmem
      obtain ⟨w, rfl, htells⟩ := hstarted rfl
      exact .inl ⟨w, hwrites ▸ List.mem_append_right _ (List.mem_singleton_self w),
        htells.connection⟩
  · rcases List.mem_append.mp hmem with hmem | hmem <;>
      rcases List.mem_append.mp hmem' with hmem' | hmem'
    · exact h.once p' e t e' t' hmem hmem'
    · cases List.mem_singleton.mp hmem'
      exact absurd hmem (hunaccepted e t)
    · cases List.mem_singleton.mp hmem
      exact absurd hmem' (hunaccepted e' t')
    · cases List.mem_singleton.mp hmem
      cases List.mem_singleton.mp hmem'
      exact ⟨rfl, rfl⟩

theorem pointers_perm {w : Write} (hw : w ∈ st.writes) :
    st.pointers.Perm (w.owned ++ (st.accepts ++ (st.writes.erase w).flatMap Write.owned)) := by
  have hwrites : (st.writes.flatMap Write.owned).Perm
      (w.owned ++ (st.writes.erase w).flatMap Write.owned) :=
    (List.perm_cons_erase hw).flatMap_right Write.owned
  calc
    st.accepts ++ st.writes.flatMap Write.owned
    _ |>.Perm (st.accepts ++ (w.owned ++ (st.writes.erase w).flatMap Write.owned)) :=
      hwrites.append_left st.accepts
    _ |>.Perm (w.owned ++ (st.accepts ++ (st.writes.erase w).flatMap Write.owned)) :=
      List.perm_append_comm_assoc ..

theorem Serving.apart (h : Serving ctime trace st) {w w' : Write} (hw : w ∈ st.writes)
    (hw' : w' ∈ st.writes.erase w) {p : Nat} (hp : p ∈ w.owned) : p ∉ w'.owned := by
  intro hp'
  have hnodup := (pointers_perm hw).nodup_iff.mp h.nodup
  have hother : p ∈ (st.writes.erase w).flatMap Write.owned :=
    List.mem_flatMap.mpr ⟨w', hw', hp'⟩
  exact (List.nodup_append.mp hnodup).2.2 p hp p (List.mem_append_right _ hother) rfl

theorem Serving.connection_mem (h : Serving ctime trace st) {w : Write} (hw : w ∈ st.writes) :
    w.connection ∈ st.pointers := by
  obtain ⟨t, ht, hwriting⟩ := h.writing w hw
  exact List.mem_append_right _ (List.mem_flatMap.mpr ⟨w, hw, hwriting.owner⟩)

/-- A part that is written leaves what is known of the handlers that have run. -/
theorem Serving.later (h : Serving ctime trace st) (w : Write) (n : Nat) :
    Serving ctime (trace ++ [.writeSome w n]) st := by
  have haccept : ∀ p e t, .handleAccept p e t ∈ trace ++ [.writeSome w n] ↔
      .handleAccept p e t ∈ trace := by simp
  have hwrite : ∀ w' e, .handleWrite w' e ∈ trace ++ [.writeSome w n] ↔
      .handleWrite w' e ∈ trace := by simp
  refine ⟨h.fault, h.accept, h.owned, h.nodup, ?_, ?_, ?_, ?_, ?_, ?_, ?_⟩
  · simp only [haccept]
    exact h.past
  · simp only [haccept]
    exact h.unheard
  · simp only [haccept]
    exact h.writing
  · simp only [haccept, hwrite]
    exact h.ended
  · simp only [haccept]
    exact h.failed
  · simp only [haccept, hwrite]
    exact h.going
  · simp only [haccept]
    exact h.once

theorem serving_writeSome (h : Serving ctime trace st) {w : Write} {n : Nat}
    (hw : w ∈ st.writes) (hn : w.sent + n ≤ w.size) :
    Serving ctime trace ((tcpMachine ctime program).next st (.writeSome w n)) := by
  obtain ⟨t, ht, hwriting⟩ := h.writing w hw
  obtain ⟨o, hget, ho⟩ := hwriting.object
  have hnext : (tcpMachine ctime program).next st (.writeSome w n) =
      { st with
        writes := st.writes.erase w ++ [{ w with sent := w.sent + n }]
        received := Function.update st.received w.connection
          (st.received w.connection ++ ((ctime t).drop w.sent).take n) } := by
    rw [← ho]
    simp only [tcpMachine, hget]
  rw [hnext]
  generalize hst' : ({ st with
      writes := st.writes.erase w ++ [{ w with sent := w.sent + n }]
      received := Function.update st.received w.connection
        (st.received w.connection ++ ((ctime t).drop w.sent).take n) } : TcpServer) = st'
  have hheap : st'.heap = st.heap := by rw [← hst']
  have haccepts : st'.accepts = st.accepts := by rw [← hst']
  have hwrites : st'.writes = st.writes.erase w ++ [{ w with sent := w.sent + n }] := by
    rw [← hst']
  have hreceived : st'.received w.connection =
      st.received w.connection ++ ((ctime t).drop w.sent).take n := by
    rw [← hst']
    exact Function.update_self ..
  have hothers : ∀ p, p ≠ w.connection → st'.received p = st.received p := by
    intro p hp
    rw [← hst']
    exact Function.update_of_ne hp ..
  have hpointers : st.pointers.Perm st'.pointers := by
    apply (pointers_perm hw).trans
    rw [TcpServer.pointers, haccepts, hwrites, List.flatMap_append, List.flatMap_singleton,
      ← List.append_assoc st.accepts]
    exact List.perm_append_comm
  refine ⟨?_, ?_, ?_, hpointers.nodup_iff.mp h.nodup, fun p e t' hp => ?_, fun p hnever => ?_,
    fun w' hw' => ?_, fun w' e he => ?_, fun p t' hp => ?_, fun p t' hp => ?_,
    h.once⟩
  · rw [← hst']
    exact h.fault
  · rw [haccepts]
    exact h.accept
  · rw [hheap]
    exact h.owned.perm hpointers
  · rw [hheap, haccepts]
    exact h.past p e t' hp
  · have hne : p ≠ w.connection := by
      rintro rfl
      exact hnever t ht
    rw [hothers p hne]
    exact h.unheard p hnever
  · rw [hwrites] at hw'
    rcases List.mem_append.mp hw' with hw' | hw'
    · obtain ⟨t', ht', hwriting'⟩ := h.writing w' (List.mem_of_mem_erase hw')
      have hne : w'.connection ≠ w.connection := fun heq =>
        h.apart hw hw' hwriting.owner (heq ▸ hwriting'.owner)
      refine ⟨t', ht', hwriting'.source, hwriting'.owner, ?_, hwriting'.size,
        hwriting'.sent, ?_⟩
      · rw [hheap]
        exact hwriting'.object
      · rw [hothers _ hne]
        exact hwriting'.received
    · obtain rfl := List.mem_singleton.mp hw'
      refine ⟨t, ht, hwriting.source, hwriting.owner, ?_, hwriting.size, hn, ?_⟩
      · rw [hheap]
        exact hwriting.object
      · change st'.received w.connection = (ctime t).take (w.sent + n)
        rw [hreceived, hwriting.received, List.take_add]
  · obtain ⟨hlt, hgone, t', ht', htold⟩ := h.ended w' e he
    have hne : w'.connection ≠ w.connection := fun heq => hgone (heq ▸ h.connection_mem hw)
    rw [hheap, hothers _ hne]
    exact ⟨hlt, fun hp => hgone (hpointers.mem_iff.mpr hp), t', ht', htold⟩
  · exact fun hp' => h.failed p t' hp (hpointers.mem_iff.mpr hp')
  · rcases h.going p t' hp with ⟨w', hw', hconnection⟩ | ⟨w', e, hconnection, he⟩
    · left
      rw [hwrites]
      by_cases heq : w' = w
      · subst heq
        exact ⟨_, List.mem_append_right _ (List.mem_singleton_self _), hconnection⟩
      · exact ⟨w', List.mem_append_left _ ((List.mem_erase_of_ne heq).mpr hw'), hconnection⟩
    · exact .inr ⟨w', e, hconnection, he⟩

theorem foldl_drop (st : TcpServer) (ps : List Nat) :
    ps.foldl drop st = { st with heap := ps.foldl Heap.drop st.heap } := by
  induction ps generalizing st with
  | nil => rfl
  | cons p ps ih => exact ih (st.drop p)

/-- The pointers of the operation go, and with them what only it had. -/
theorem serving_handleWrite (h : Serving ctime trace st) {w : Write} {error : Bool}
    (hw : w ∈ st.writes) (hall : error = false → w.sent = w.size) :
    Serving ctime (trace ++ [.handleWrite w error])
      ((tcpMachine ctime program).next st (.handleWrite w error)) := by
  obtain ⟨t, ht, hwriting⟩ := h.writing w hw
  have hnext : (tcpMachine ctime program).next st (.handleWrite w error) =
      { st with
        writes := st.writes.erase w
        heap := w.owned.foldl Heap.drop st.heap } := foldl_drop ..
  rw [hnext]
  generalize hst' : ({ st with
      writes := st.writes.erase w
      heap := w.owned.foldl Heap.drop st.heap } : TcpServer) = st'
  have hpointers' : st'.pointers =
      st.accepts ++ (st.writes.erase w).flatMap Write.owned := by
    rw [← hst']
    rfl
  have hperm := pointers_perm hw
  rw [← hpointers'] at hperm
  obtain ⟨howned, hkept⟩ := (h.owned.perm hperm).drop_all
  have hnextFree : st'.heap.next = st.heap.next := by
    rw [← hst']
    exact Heap.next_foldl_drop ..
  obtain ⟨-, hnodup, hapart⟩ := List.nodup_append.mp (hperm.nodup_iff.mp h.nodup)
  have hsub : ∀ p ∈ st'.pointers, p ∈ st.pointers :=
    fun p hp => hperm.mem_iff.mpr (List.mem_append_right _ hp)
  have haccepts : st'.accepts = st.accepts := by rw [← hst']
  have hwrites : st'.writes = st.writes.erase w := by rw [← hst']
  have hreceived : st'.received = st.received := by rw [← hst']
  have hheap : st'.heap = w.owned.foldl Heap.drop st.heap := by rw [← hst']
  have hmem : ∀ e, e ∈ trace ++ [.handleWrite w error] → e = .handleWrite w error ∨ e ∈ trace := by
    intro e he
    rcases List.mem_append.mp he with he | he
    · exact .inr he
    · exact .inl (List.mem_singleton.mp he)
  have hlater : ∀ e ∈ trace, e ∈ trace ++ [.handleWrite w error] :=
    fun e he => List.mem_append_left _ he
  refine ⟨?_, ?_, ?_, hnodup, fun p e t' hp => ?_, fun p hnever => ?_, fun w' hw' => ?_,
    fun w' e he => ?_, fun p t' hp => ?_, fun p t' hp => ?_, fun p e t' e' t'' hp hp' => ?_⟩
  · rw [← hst']
    exact h.fault
  · rw [haccepts]
    exact h.accept
  · rw [hheap]
    exact howned
  · obtain hp := (hmem _ hp).resolve_left nofun
    rw [hnextFree, haccepts]
    exact h.past p e t' hp
  · rw [hreceived]
    exact h.unheard p fun t' ht' => hnever t' (hlater _ ht')
  · rw [hwrites] at hw'
    obtain ⟨t', ht', hwriting'⟩ := h.writing w' (List.mem_of_mem_erase hw')
    obtain ⟨o, hget, ho⟩ := hwriting'.object
    have hstays : w'.source ∈ st'.pointers := by
      rw [hpointers']
      exact List.mem_append_right _ (List.mem_flatMap.mpr ⟨w', hw', hwriting'.source⟩)
    refine ⟨t', hlater _ ht', hwriting'.source, hwriting'.owner, ⟨o, ?_, ho⟩, hwriting'.size,
      hwriting'.sent, ?_⟩
    · rw [hheap, hkept _ hstays]
      exact hget
    · rw [hreceived]
      exact hwriting'.received
  · rw [hnextFree, hreceived]
    rcases hmem _ he with heq | he
    · cases heq
      refine ⟨h.owned.lt_next (h.connection_mem hw),
        fun hp => hapart _ hwriting.owner _ hp rfl, t, hlater _ ht, ?_, fun he => ?_⟩
      · rw [hwriting.received]
        exact List.take_prefix ..
      · rw [hwriting.received, hall he, hwriting.size, List.take_length]
    · obtain ⟨hlt, hgone, t', ht', htold⟩ := h.ended w' e he
      exact ⟨hlt, fun hp => hgone (hsub _ hp), t', hlater _ ht', htold⟩
  · obtain hp := (hmem _ hp).resolve_left nofun
    exact fun hp' => h.failed p t' hp (hsub p hp')
  · obtain hp := (hmem _ hp).resolve_left nofun
    rcases h.going p t' hp with ⟨w', hw', hconnection⟩ | ⟨w', e, hconnection, he⟩
    · by_cases heq : w' = w
      · subst heq
        exact .inr ⟨w', error, hconnection, List.mem_append_right _ (List.mem_singleton_self _)⟩
      · refine .inl ⟨w', ?_, hconnection⟩
        rw [hwrites]
        exact (List.mem_erase_of_ne heq).mpr hw'
    · exact .inr ⟨w', e, hconnection, hlater _ he⟩
  · obtain hp := (hmem _ hp).resolve_left nofun
    obtain hp' := (hmem _ hp').resolve_left nofun
    exact h.once p e t' e' t'' hp hp'

theorem run_serving (h : (tcpMachine ctime program).Run program.construct trace st) :
    Serving ctime trace st := by
  apply h.invariant (serving_construct ctime program)
  intro trace st e ih he
  cases e with
  | handleAccept p error now => exact serving_handleAccept ih he
  | writeSome w n => exact (serving_writeSome ih he.1 he.2.2).later w n
  | handleWrite w error => exact serving_handleWrite ih he.1 he.2

end Runs

/-- Each client is told the time at which its connection was started, all of it unless the
connection breaks, and nothing outlives its last use. -/
theorem daytime_is_told (ctime : Nat → Bytes) (program : Program) {trace : List TcpEvent}
    {st : TcpServer} (h : (tcpMachine ctime program).Run program.construct trace st) :
    st.fault = false ∧ (∃ p, st.accepts = [p]) ∧
      (∀ r, (st.heap.get r).isSome ↔ r ∈ st.accepts ∨ ∃ w ∈ st.writes, r ∈ w.owned) ∧
      (∀ p now, .handleAccept p true now ∈ trace →
        st.heap.get p = none ∧ st.received p = []) ∧
      ∀ p now, .handleAccept p false now ∈ trace → st.received p <+: ctime now ∧
        ((∃ w ∈ st.writes, w.connection = p ∧ (st.heap.get p).isSome) ∨
          ∃ w error, w.connection = p ∧ .handleWrite w error ∈ trace ∧ st.heap.get p = none ∧
            (error = false → st.received p = ctime now)) := by
  have hserving := run_serving h
  have halive : ∀ r, (st.heap.get r).isSome ↔ r ∈ st.pointers := fun r => hserving.owned.alive_iff
  have hdead : ∀ r, r ∉ st.pointers → st.heap.get r = none := by
    intro r hr
    rw [← Option.not_isSome_iff_eq_none, halive]
    exact hr
  refine ⟨hserving.fault, hserving.accept, fun r => ?_, fun p now hp => ?_, fun p now hp => ?_⟩
  · rw [halive, TcpServer.pointers, List.mem_append, List.mem_flatMap]
  · refine ⟨hdead p (hserving.failed p now hp), hserving.unheard p fun t ht => ?_⟩
    cases (hserving.once p _ _ _ _ hp ht).1
  · rcases hserving.going p now hp with ⟨w, hw, rfl⟩ | ⟨w, error, rfl, he⟩
    · obtain ⟨t, ht, hwriting⟩ := hserving.writing w hw
      obtain rfl := (hserving.once _ _ _ _ _ hp ht).2
      refine ⟨?_, .inl ⟨w, hw, rfl, (halive _).mpr (hserving.connection_mem hw)⟩⟩
      rw [hwriting.received]
      exact List.take_prefix ..
    · obtain ⟨-, hgone, t, ht, htells, htold⟩ := hserving.ended w error he
      obtain rfl := (hserving.once _ _ _ _ _ hp ht).2
      exact ⟨htells, .inr ⟨w, error, rfl, he, hdead _ hgone, htold⟩⟩

/-- reference_counted.cpp with an accept that fails, and a client that is told in two pieces while
the next one connects. -/
theorem daytime_is_told_twice :
    let ctime : Nat → Bytes := fun _ => str "Sun Sep 16 01:03:52 1973\n"
    let w : Write := ⟨1, 2, 25, [2, 1], 0⟩
    let trace : List TcpEvent := [.handleAccept 0 true 4, .handleAccept 1 false 5, .writeSome w 10,
      .handleAccept 3 false 6, .writeSome { w with sent := 10 } 15,
      .handleWrite { w with sent := 25 } false]
    ∃ st, (tcpMachine ctime .referenceCounted).Run Program.referenceCounted.construct trace st ∧
      st.fault = false ∧ st.accepts = [5] ∧ st.heap.get 1 = none ∧
      st.received 1 = ctime 5 ∧ st.received 3 <+: ctime 6 := by
  intro ctime w trace
  have hadmits : (tcpMachine ctime .referenceCounted).Admits
      Program.referenceCounted.construct trace := by decide +kernel
  have hrun := hadmits.run
  generalize hst : List.foldl _ _ trace = st at hrun
  have haccepts : st.accepts = [5] := by
    rw [← hst]
    decide +kernel
  have hwrites : ∀ w ∈ st.writes, w.connection ≠ 1 := by
    rw [← hst]
    decide +kernel
  obtain ⟨hfault, -, -, -, htold⟩ := daytime_is_told ctime .referenceCounted hrun
  refine ⟨st, hrun, hfault, haccepts, ?_⟩
  obtain ⟨-, hfirst⟩ := htold 1 5 (by decide)
  obtain ⟨hsecond, -⟩ := htold 3 6 (by decide)
  rcases hfirst with ⟨w', hw', hconnection, -⟩ | ⟨w', error, hconnection, he, hgone, hall⟩
  · exact absurd hconnection (hwrites w' hw')
  · have herror : error = false := by
      simp [trace] at he
      exact he.2
    exact ⟨hgone, hall herror, hsecond⟩

end AsioExamples.Daytime
