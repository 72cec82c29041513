import AsioExamples.Allocation.HandlerMemory
import AsioExamples.Bytes

/-!
# Sessions with a memory of their own

A session reads into its array and writes back what it has read. The operation object that holds
a handler comes from the memory of the session. It is given back before the handler is called.
-/

namespace AsioExamples.Allocation

set_option autoImplicit false

universe u

/-- The `boost::array<char, 1024>` of a session. -/
structure Data where
  bytes : Bytes
  length_bytes : bytes.length = 1024
deriving DecidableEq

namespace Data

def zero : Data := ⟨List.replicate 1024 0, List.length_replicate⟩

def store (d : Data) (transferred : Bytes) : Data :=
  ⟨writeAt d.bytes 0 transferred, by rw [length_writeAt (Nat.zero_le _), d.length_bytes]⟩

theorem take_store (d : Data) {transferred : Bytes} (h : transferred.length ≤ 1024) :
    (d.store transferred).bytes.take transferred.length = transferred := by
  apply take_writeAt
  rw [d.length_bytes]
  exact h

end Data

/-- `asyncWriteSome` is a step of `async_write` on the first `length` bytes of the array, of
which `sent` have gone. -/
inductive OpKind where
  | asyncReadSome
  | asyncWriteSome (length sent : Nat)
deriving DecidableEq

/-- An outstanding operation, the block it is in and its result: an error or none, and the number
of bytes that have been transferred. -/
structure Operation (α : Type u) where
  kind : OpKind
  block : α
  result : Option (Bool × Nat)
deriving DecidableEq

structure Session (α : Type u) where
  data : Data
  memory : State α
  started : Bool
  outstanding : List (Operation α)
deriving DecidableEq

/-- How much an operation asks its allocator for, and what `operator new` has for it. -/
structure Request (α : Type u) where
  sizeofOp : Nat
  operatorNew : Option α
deriving DecidableEq

namespace Session
variable {α : Type u}

def new (data : Data) (address : α) : Session α := ⟨data, State.init address, false, []⟩

variable [DecidableEq α]

/-- An operation is allocated through the allocator of its handler, or `std::bad_alloc` leaves
the function that starts it. -/
def launch (s : Session α) (kind : OpKind) (r : Request α) : Option (Session α) :=
  match (HandlerAllocator.allocate s.memory.memory (fun _ => r.operatorNew) r.sizeofOp 1).1 with
  | none => none
  | some (block, _) =>
    some { s with
      memory := s.memory.next (.allocateObjects r.sizeofOp 1 r.operatorNew)
      outstanding := s.outstanding ++ [⟨kind, block, none⟩] }

def start (s : Session α) (r : Request α) : Option (Session α) :=
  { s with started := true }.launch .asyncReadSome r

/-- `boost::asio::buffer(data_, bytes_transferred)` is no longer than the array. -/
def handleRead (s : Session α) (error : Bool) (bytesTransferred : Nat) (r : Request α) :
    Option (Session α) :=
  if !error then s.launch (.asyncWriteSome (min bytesTransferred 1024) 0) r else some s

def handleWrite (s : Session α) (error : Bool) (r : Request α) : Option (Session α) :=
  if !error then s.launch .asyncReadSome r else some s

/-- `async_write` goes on until all is sent, or a step of it fails or sends nothing. -/
def handleWriteSome (s : Session α) (length sent : Nat) (error : Bool) (bytesTransferred : Nat)
    (r : Request α) : Option (Session α) :=
  let sent := sent + bytesTransferred
  if !error && bytesTransferred != 0 && decide (sent < length) then
    s.launch (.asyncWriteSome length sent) r
  else s.handleWrite error r

/-- The memory of an operation is given back before its handler is called. -/
def take (s : Session α) (op : Operation α) : Session α :=
  { s with
    memory := s.memory.next (.deallocateObjects op.block 1)
    outstanding := s.outstanding.erase op }

/-- The handler that an operation was made for is called. -/
def complete (s : Session α) (op : Operation α) (error : Bool) (bytesTransferred : Nat)
    (r : Request α) : Option (Session α) :=
  let s := s.take op
  match op.kind with
  | .asyncReadSome => s.handleRead error bytesTransferred r
  | .asyncWriteSome length sent => s.handleWriteSome length sent error bytesTransferred r

/-- The result of an operation, which waits for its handler. -/
def finish (s : Session α) (op : Operation α) (error : Bool) (bytesTransferred : Nat) :
    Session α :=
  { s with outstanding :=
      s.outstanding.erase op ++ [{ op with result := some (error, bytesTransferred) }] }

end Session

/-- What a session has read and not written back yet. -/
def Operation.pending {α : Type u} (data : Data) (op : Operation α) : Bytes :=
  match op.kind, op.result with
  | .asyncReadSome, some (false, n) => data.bytes.take n
  | .asyncReadSome, _ => []
  | .asyncWriteSome length sent, some (_, n) => (data.bytes.take length).drop (sent + n)
  | .asyncWriteSome length sent, none => (data.bytes.take length).drop sent

theorem Operation.length_pending {α : Type u} (data : Data) (op : Operation α) :
    (op.pending data).length ≤ 1024 := by
  have hlen := data.length_bytes
  unfold Operation.pending
  split
  · exact (List.length_take_le' _ _).trans (Nat.le_of_eq hlen)
  · exact Nat.zero_le _
  · simp only [List.length_drop, List.length_take]
    omega
  · simp only [List.length_drop, List.length_take]
    omega

/-- The transfer is within the array, and something is transferred where nothing fails. -/
def Operation.Fits {α : Type u} (op : Operation α) : Prop :=
  match op.kind, op.result with
  | .asyncReadSome, none => True
  | .asyncReadSome, some (error, n) => n ≤ 1024 ∧ (error = false → 0 < n)
  | .asyncWriteSome length sent, none => sent < length ∧ length ≤ 1024
  | .asyncWriteSome length sent, some (error, n) =>
    sent + n ≤ length ∧ length ≤ 1024 ∧ (error = false → 0 < n)

/-- Each outstanding operation, and there is one at most, is in a live block; what has been read
is what has been written and what is still to be. -/
structure Echoes {α : Type u} [DecidableEq α] (address : α) (s : Session α)
    (received written : Bytes) : Prop where
  memory : ∃ calls, (memoryMachine α).Run (State.init address) calls s.memory
  live : s.memory.live.map Block.address = s.outstanding.map Operation.block
  single : s.outstanding.length ≤ 1
  idle : s.started = false → s.outstanding = [] ∧ received = [] ∧ written = []
  fits : ∀ op ∈ s.outstanding, op.Fits
  echoed : written <+: received
  bounded : received.length ≤ written.length + 1024
  pending : ∀ op ∈ s.outstanding, written ++ op.pending s.data = received

/-- A session with no operation has given back all that it was handed out. -/
structure Quiet {α : Type u} [DecidableEq α] (address : α) (s : Session α)
    (received written : Bytes) : Prop where
  memory : ∃ calls, (memoryMachine α).Run (State.init address) calls s.memory
  live : s.memory.live = []
  outstanding : s.outstanding = []
  started : s.started = true
  echoed : written <+: received
  bounded : received.length ≤ written.length + 1024

section Steps
variable {α : Type u} [DecidableEq α] {address : α} {s s' : Session α}
  {received written : Bytes}

theorem echoes_new (data : Data) (address : α) :
    Echoes address (Session.new data address) [] [] where
  memory := ⟨[], .start⟩
  live := rfl
  single := Nat.zero_le 1
  idle := fun _ => ⟨rfl, rfl, rfl⟩
  fits := by
    intro op hop
    cases hop
  echoed := List.prefix_rfl
  bounded := Nat.zero_le _
  pending := by
    intro op hop
    cases hop

theorem Quiet.echoes (h : Quiet address s received written) :
    Echoes address s received written where
  memory := h.memory
  live := by rw [h.live, h.outstanding]; rfl
  single := by rw [h.outstanding]; exact Nat.zero_le 1
  idle := fun hs => absurd (hs.symm.trans h.started) Bool.false_ne_true
  fits := by
    intro op hop
    rw [h.outstanding] at hop
    cases hop
  echoed := h.echoed
  bounded := h.bounded
  pending := by
    intro op hop
    rw [h.outstanding] at hop
    cases hop

/-- An operation that is started is in a block that is live from now on. -/
theorem launch_cases {kind : OpKind} {r : Request α} (h : s.launch kind r = some s') :
    ∃ block, s'.memory = s.memory.next (.allocateObjects r.sizeofOp 1 r.operatorNew) ∧
      s'.memory.live.map Block.address = s.memory.live.map Block.address ++ [block] ∧
      s'.outstanding = s.outstanding ++ [⟨kind, block, none⟩] ∧ s'.data = s.data ∧
      s'.started = s.started := by
  unfold Session.launch at h
  cases hallocate : (HandlerAllocator.allocate s.memory.memory (fun _ => r.operatorNew)
      r.sizeofOp 1).1 with
  | none => simp [hallocate] at h
  | some result =>
    rcases result with ⟨block, origin⟩
    simp only [hallocate, Option.some.injEq] at h
    subst h
    refine ⟨block, rfl, ?_, rfl, rfl, rfl⟩
    simp [State.next, State.acquire, hallocate]

theorem complete_error (s : Session α) (op : Operation α) (n : Nat) (r : Request α) :
    s.complete op true n r = some (s.take op) := by
  unfold Session.complete
  cases op.kind <;> rfl

theorem complete_success (s : Session α) (op : Operation α) (n : Nat) (r : Request α) :
    ∃ kind, s.complete op false n r = (s.take op).launch kind r := by
  unfold Session.complete
  cases op.kind with
  | asyncReadSome => exact ⟨_, rfl⟩
  | asyncWriteSome length sent =>
    simp only [Session.handleWriteSome]
    split
    · exact ⟨_, rfl⟩
    · exact ⟨_, rfl⟩

theorem Quiet.launch (h : Quiet address s received written) {kind : OpKind} {r : Request α}
    (hfresh : s.memory.Fresh r.operatorNew) (hlaunch : s.launch kind r = some s')
    (hfits : ∀ block, (⟨kind, block, none⟩ : Operation α).Fits)
    (hpending : ∀ block : α, written ++ Operation.pending s.data ⟨kind, block, none⟩ = received) :
    Echoes address s' received written := by
  obtain ⟨block, hmemory, hlive, hout, hdata, hstarted⟩ := launch_cases hlaunch
  obtain ⟨calls, hrun⟩ := h.memory
  rw [h.outstanding, List.nil_append] at hout
  rw [h.live, List.map_nil, List.nil_append] at hlive
  refine ⟨⟨calls ++ [.allocateObjects r.sizeofOp 1 r.operatorNew], ?_⟩, ?_, ?_, fun hs => ?_,
    fun op hop => ?_, h.echoed, h.bounded, fun op hop => ?_⟩
  · rw [hmemory]
    exact hrun.step _ hfresh
  · rw [hlive, hout]
    rfl
  · rw [hout]
    exact Nat.le_refl 1
  · rw [hstarted, h.started] at hs
    cases hs
  · rw [hout] at hop
    rw [List.mem_singleton.mp hop]
    exact hfits block
  · rw [hout] at hop
    rw [List.mem_singleton.mp hop, hdata]
    exact hpending block

theorem Echoes.outstanding_eq (h : Echoes address s received written) {op : Operation α}
    (hop : op ∈ s.outstanding) : s.outstanding = [op] := by
  have hsingle := h.single
  obtain ⟨op', hop'⟩ := List.length_eq_one_iff.mp
    (Nat.le_antisymm hsingle (List.length_pos_of_mem hop))
  rw [hop'] at hop ⊢
  rw [List.mem_singleton.mp hop]

theorem Echoes.started (h : Echoes address s received written) {op : Operation α}
    (hop : op ∈ s.outstanding) : s.started = true := by
  cases hs : s.started with
  | true => rfl
  | false =>
    rw [(h.idle hs).1] at hop
    cases hop

theorem Echoes.starting (h : Echoes address s received written) (hs : s.started = false) :
    Quiet address { s with started := true } received written := by
  obtain ⟨hout, -, -⟩ := h.idle hs
  have hlive := h.live
  rw [hout, List.map_nil] at hlive
  exact ⟨h.memory, List.map_eq_nil_iff.mp hlive, hout, rfl, h.echoed, h.bounded⟩

theorem Echoes.start (h : Echoes address s received written) (hs : s.started = false)
    {r : Request α} (hfresh : s.memory.Fresh r.operatorNew) (hstart : s.start r = some s') :
    Echoes address s' received written := by
  have hquiet := h.starting hs
  obtain ⟨-, rfl, rfl⟩ := h.idle hs
  exact hquiet.launch hfresh hstart (fun _ => trivial) fun _ => rfl

/-- The block of the one operation goes back before its handler is called. -/
theorem Echoes.taken (h : Echoes address s received written) {op : Operation α}
    (hop : op ∈ s.outstanding) :
    Quiet address (s.take op) received written := by
  obtain ⟨calls, hrun⟩ := h.memory
  have hout := h.outstanding_eq hop
  have hmap : s.memory.live.map Block.address = [op.block] := by
    rw [h.live, hout]
    rfl
  obtain ⟨b, hb, haddress⟩ : ∃ b, s.memory.live = [b] ∧ b.address = op.block := by
    obtain ⟨b, hb, haddress⟩ := List.map_eq_singleton_iff.mp hmap
    exact ⟨b, hb, haddress⟩
  have hlive : s.memory.Live op.block := ⟨b, by simp [hb], haddress⟩
  refine ⟨⟨_, hrun.step (.deallocateObjects op.block 1) hlive⟩, ?_, ?_, h.started hop, h.echoed,
    h.bounded⟩
  · change Keyed.without Block.address op.block s.memory.live = []
    rw [hb]
    exact List.eraseP_cons_of_pos (by simpa using haddress)
  · change s.outstanding.erase op = []
    rw [hout]
    exact List.erase_cons_head op []

theorem Echoes.complete (h : Echoes address s received written) {op : Operation α}
    (hop : op ∈ s.outstanding) {error : Bool} {n : Nat} (hresult : op.result = some (error, n))
    {r : Request α} (hfresh : (s.memory.next (.deallocateObjects op.block 1)).Fresh r.operatorNew)
    (hcomplete : s.complete op error n r = some s') : Echoes address s' received written := by
  have hquiet := h.taken hop
  have hpending := h.pending op hop
  have hfits := h.fits op hop
  unfold Session.complete at hcomplete
  unfold Operation.pending at hpending
  unfold Operation.Fits at hfits
  cases hkind : op.kind with
  | asyncReadSome =>
    simp only [hkind, hresult] at hcomplete hpending hfits
    obtain ⟨hle, hpos⟩ := hfits
    cases error with
    | true =>
      obtain rfl := Option.some.inj hcomplete
      exact hquiet.echoes
    | false =>
      have hmin : min n 1024 = n := Nat.min_eq_left hle
      have hn : 0 < n := hpos rfl
      refine hquiet.launch hfresh hcomplete (fun block => ?_) fun block => ?_
      · rw [hmin]
        exact ⟨hn, hle⟩
      · rw [hmin]
        exact hpending
  | asyncWriteSome length sent =>
    simp only [hkind, hresult] at hcomplete hpending hfits
    obtain ⟨hsent, hle, hpos⟩ := hfits
    unfold Session.handleWriteSome at hcomplete
    simp only at hcomplete
    split at hcomplete
    · rename_i hmore
      have hlt : sent + n < length := by
        simp only [Bool.and_eq_true, decide_eq_true_eq] at hmore
        exact hmore.2
      exact hquiet.launch hfresh hcomplete (fun block => ⟨hlt, hle⟩) fun block => hpending
    · rename_i hdone
      unfold Session.handleWrite at hcomplete
      cases error with
      | true =>
        obtain rfl := Option.some.inj hcomplete
        exact hquiet.echoes
      | false =>
        have hn : n ≠ 0 := Nat.ne_of_gt (hpos rfl)
        have hall : sent + n = length := by
          have hge : ¬ sent + n < length := by simpa [hn] using hdone
          omega
        have hnil : (s.data.bytes.take length).drop (sent + n) = [] := by
          apply List.drop_of_length_le
          rw [hall]
          exact List.length_take_le _ _
        rw [hnil] at hpending
        exact hquiet.launch hfresh hcomplete (fun block => trivial) fun block => hpending

/-- What a result changes about the one operation. -/
theorem Echoes.finish (h : Echoes address s received written) {op : Operation α}
    (hop : op ∈ s.outstanding) {data : Data} {error : Bool} {n : Nat} {received' written' : Bytes}
    (hfits : ({ op with result := some (error, n) } : Operation α).Fits)
    (hpending : written' ++
      Operation.pending data { op with result := some (error, n) } = received') :
    Echoes address ({ s with data := data }.finish op error n) received' written' := by
  have hout : ({ s with data := data }.finish op error n).outstanding =
      [{ op with result := some (error, n) }] := by
    simp [Session.finish, h.outstanding_eq hop]
  refine ⟨h.memory, ?_, ?_, fun hs => ?_, fun op' hop' => ?_, ⟨_, hpending⟩, ?_,
    fun op' hop' => ?_⟩
  · rw [hout]
    have hlive := h.live
    rw [h.outstanding_eq hop] at hlive
    exact hlive
  · rw [hout]
    exact Nat.le_refl 1
  · have hs : s.started = false := hs
    rw [h.started hop] at hs
    cases hs
  · rw [hout] at hop'
    rw [List.mem_singleton.mp hop']
    exact hfits
  · rw [← hpending, List.length_append]
    exact Nat.add_le_add_left (Operation.length_pending _ _) _
  · rw [hout] at hop'
    rw [List.mem_singleton.mp hop']
    exact hpending

theorem Echoes.receive (h : Echoes address s received written) {block : α}
    (hop : ⟨.asyncReadSome, block, none⟩ ∈ s.outstanding) {piece : Bytes} (hne : piece ≠ [])
    (hlen : piece.length ≤ 1024) :
    Echoes address ({ s with data := s.data.store piece }.finish ⟨.asyncReadSome, block, none⟩
      false piece.length) (received ++ piece) written := by
  have hall : written = received := by
    have hpending := h.pending _ hop
    exact (List.append_nil written).symm.trans hpending
  refine h.finish hop ⟨hlen, fun _ => List.length_pos_iff.mpr hne⟩ ?_
  change written ++ (s.data.store piece).bytes.take piece.length = _
  rw [s.data.take_store hlen, hall]

theorem Echoes.send (h : Echoes address s received written) {block : α} {length sent k : Nat}
    (hop : ⟨.asyncWriteSome length sent, block, none⟩ ∈ s.outstanding) (hk : 0 < k)
    (hle : sent + k ≤ length) :
    Echoes address (s.finish ⟨.asyncWriteSome length sent, block, none⟩ false k) received
      (written ++ ((s.data.bytes.take length).drop sent).take k) := by
  have hpending := h.pending _ hop
  have hfits := h.fits _ hop
  refine h.finish hop ⟨hle, hfits.2, fun _ => hk⟩ ?_
  rw [← hpending, List.append_assoc]
  apply congrArg (written ++ ·)
  change _ ++ (s.data.bytes.take length).drop (sent + k) = (s.data.bytes.take length).drop sent
  rw [← List.drop_drop, List.take_append_drop]

theorem Echoes.fail (h : Echoes address s received written) {op : Operation α}
    (hop : op ∈ s.outstanding) (hnone : op.result = none) :
    Echoes address (s.finish op true 0) received written := by
  have hpending := h.pending op hop
  have hfits := h.fits op hop
  rcases op with ⟨kind, block, result⟩
  obtain rfl : result = none := hnone
  cases kind with
  | asyncReadSome =>
    exact h.finish hop ⟨Nat.zero_le _, fun hf => Bool.noConfusion hf⟩ hpending
  | asyncWriteSome length sent =>
    obtain ⟨hlt, hle⟩ := hfits
    exact h.finish hop ⟨Nat.le_of_lt hlt, hle, fun hf => Bool.noConfusion hf⟩ hpending

theorem started_complete {op : Operation α} {error : Bool} {n : Nat} {r : Request α}
    (h : s.complete op error n r = some s') : s'.started = s.started := by
  cases error with
  | true =>
    rw [complete_error] at h
    rw [← Option.some.inj h]
    rfl
  | false =>
    obtain ⟨kind, hlaunch⟩ := complete_success s op n r
    rw [hlaunch] at h
    obtain ⟨-, -, -, -, -, hstarted⟩ := launch_cases h
    exact hstarted

/-- The block of a quiet session is free, and whatever fits into it gets it. -/
theorem Quiet.launch_stored (h : Quiet address s received written) {r : Request α}
    (hsize : r.sizeofOp < storageSize) (kind : OpKind) :
    ∃ s', s.launch kind r = some s' ∧ ∀ b ∈ s'.memory.live, b.origin = .storage := by
  obtain ⟨calls, hrun⟩ := h.memory
  have hinv := Inv.of_run hrun
  have hfree : s.memory.memory.inUse = false := by
    rw [Bool.eq_false_iff, ne_eq, hinv.inUse_iff]
    rintro ⟨b, hb, -⟩
    rw [h.live] at hb
    cases hb
  have hbytes : HandlerAllocator.bytes r.sizeofOp 1 = r.sizeofOp := by
    unfold HandlerAllocator.bytes
    unfold storageSize at hsize
    omega
  have hallocate : HandlerAllocator.allocate s.memory.memory (fun _ => r.operatorNew)
      r.sizeofOp 1 = (some (s.memory.memory.address, .storage),
        { s.memory.memory with inUse := true }) := by
    unfold HandlerAllocator.allocate
    rw [hbytes]
    exact HandlerMemory.allocate_storage hfree hsize _
  unfold Session.launch
  rw [hallocate]
  refine ⟨_, rfl, fun b hb => ?_⟩
  simp only [State.next, State.acquire, hallocate, h.live] at hb
  rw [List.mem_singleton.mp hb]

theorem Echoes.complete_stored (h : Echoes address s received written) {op : Operation α}
    (hop : op ∈ s.outstanding) {r : Request α} (hsize : r.sizeofOp < storageSize) (error : Bool)
    (n : Nat) :
    ∃ s', s.complete op error n r = some s' ∧ ∀ b ∈ s'.memory.live, b.origin = .storage := by
  have hquiet := h.taken hop
  cases error with
  | true =>
    rw [complete_error]
    refine ⟨_, rfl, fun b hb => ?_⟩
    rw [hquiet.live] at hb
    cases hb
  | false =>
    obtain ⟨kind, hlaunch⟩ := complete_success s op n r
    rw [hlaunch]
    exact hquiet.launch_stored hsize kind

end Steps

end AsioExamples.Allocation
