import AsioExamples.Theory.Keyed
import AsioExamples.Theory.Machine
import Mathlib.Algebra.Group.Nat.Defs

/-!
# One block for the handlers

The memory hands its block out to one request at a time and leaves all others to the heap. Its
calls are the events of a machine that keeps the live allocations beside it.
-/

namespace AsioExamples.Allocation

set_option autoImplicit false

universe u

/-- The allocator that a block is from. -/
inductive Origin where
  | storage
  | heap
deriving DecidableEq

/-- `storage_.size`. -/
def storageSize : Nat := 1024

structure HandlerMemory (α : Type u) where
  /-- `storage_.address()`. -/
  address : α
  inUse : Bool
deriving DecidableEq

namespace HandlerMemory
variable {α : Type u}

def new (address : α) : HandlerMemory α := ⟨address, false⟩

/-- Nothing is handed out when `operator new` throws. -/
def allocate (m : HandlerMemory α) (operatorNew : Nat → Option α) (size : Nat) :
    Option (α × Origin) × HandlerMemory α :=
  if !m.inUse && decide (size < storageSize) then
    (some (m.address, .storage), { m with inUse := true })
  else
    ((operatorNew size).map fun pointer => (pointer, .heap), m)

/-- The pointer goes back to the storage, or `operator delete` takes it. -/
def deallocate [DecidableEq α] (m : HandlerMemory α) (pointer : α) : Origin × HandlerMemory α :=
  if pointer = m.address then (.storage, { m with inUse := false }) else (.heap, m)

theorem allocate_storage {m : HandlerMemory α} {size : Nat} (hfree : m.inUse = false)
    (hsize : size < storageSize) (operatorNew : Nat → Option α) :
    m.allocate operatorNew size = (some (m.address, .storage), { m with inUse := true }) := by
  unfold allocate
  rw [hfree, decide_eq_true hsize]
  rfl

theorem allocate_heap {m : HandlerMemory α} {size : Nat}
    (h : ¬ (m.inUse = false ∧ size < storageSize)) (operatorNew : Nat → Option α) :
    m.allocate operatorNew size = ((operatorNew size).map fun pointer => (pointer, .heap), m) := by
  unfold allocate
  refine if_neg ?_
  simpa using h

theorem deallocate_storage [DecidableEq α] (m : HandlerMemory α) :
    m.deallocate m.address = (.storage, { m with inUse := false }) := if_pos rfl

theorem deallocate_heap [DecidableEq α] {m : HandlerMemory α} {pointer : α}
    (h : pointer ≠ m.address) : m.deallocate pointer = (.heap, m) := if_neg h

end HandlerMemory

namespace HandlerAllocator
variable {α : Type u}

/-- `sizeof(T) * n` is a product of two `size_t`. -/
def bytes (sizeofT n : Nat) : Nat := sizeofT * n % 2 ^ 64

def allocate (memory : HandlerMemory α) (operatorNew : Nat → Option α) (sizeofT n : Nat) :
    Option (α × Origin) × HandlerMemory α :=
  memory.allocate operatorNew (bytes sizeofT n)

def deallocate [DecidableEq α] (memory : HandlerMemory α) (p : α) (_n : Nat) :
    Origin × HandlerMemory α :=
  memory.deallocate p

end HandlerAllocator

/-- A live allocation, of as many bytes as the memory was asked for. -/
structure Block (α : Type u) where
  address : α
  size : Nat
  origin : Origin
deriving DecidableEq

structure State (α : Type u) where
  memory : HandlerMemory α
  live : List (Block α)
deriving DecidableEq

/-- A call of the memory, or one made through an allocator. An allocation comes with what
`operator new` has for it. -/
inductive Call (α : Type u) where
  | allocate (size : Nat) (operatorNew : Option α)
  | deallocate (pointer : α)
  | allocateObjects (sizeofT n : Nat) (operatorNew : Option α)
  | deallocateObjects (p : α) (n : Nat)
deriving DecidableEq

namespace State
variable {α : Type u}

def init (address : α) : State α := ⟨HandlerMemory.new address, []⟩

def Live (s : State α) (pointer : α) : Prop := Keyed.Used Block.address pointer s.live

/-- What `operator new` returns is a new block, and not the storage. -/
def Fresh (s : State α) (operatorNew : Option α) : Prop :=
  ∀ pointer, operatorNew = some pointer → pointer ≠ s.memory.address ∧ ¬ s.Live pointer

instance [DecidableEq α] (s : State α) (pointer : α) : Decidable (s.Live pointer) :=
  inferInstanceAs (Decidable (Keyed.Used _ _ _))

instance decidableFresh [DecidableEq α] (s : State α) :
    ∀ operatorNew, Decidable (s.Fresh operatorNew)
  | none => .isTrue fun _ h => nomatch h
  | some pointer =>
    decidable_of_iff (pointer ≠ s.memory.address ∧ ¬ s.Live pointer)
      ⟨fun h _ he => Option.some.inj he ▸ h, fun h => h pointer rfl⟩

/-- The block that an allocation of `size` bytes handed out is live from now on. -/
def acquire (s : State α) (size : Nat) (result : Option (α × Origin) × HandlerMemory α) :
    State α where
  memory := result.2
  live := s.live ++ (result.1.map fun block => ⟨block.1, size, block.2⟩).toList

def release [DecidableEq α] (s : State α) (pointer : α) (result : Origin × HandlerMemory α) :
    State α where
  memory := result.2
  live := Keyed.without Block.address pointer s.live

variable [DecidableEq α]

def next (s : State α) : Call α → State α
  | .allocate size operatorNew =>
    s.acquire size (s.memory.allocate (fun _ => operatorNew) size)
  | .deallocate pointer => s.release pointer (s.memory.deallocate pointer)
  | .allocateObjects sizeofT n operatorNew =>
    s.acquire (HandlerAllocator.bytes sizeofT n)
      (HandlerAllocator.allocate s.memory (fun _ => operatorNew) sizeofT n)
  | .deallocateObjects p n => s.release p (HandlerAllocator.deallocate s.memory p n)

/-- Only what is live is given back. -/
def Enabled (s : State α) : Call α → Prop
  | .allocate _ operatorNew => s.Fresh operatorNew
  | .deallocate pointer => s.Live pointer
  | .allocateObjects _ _ operatorNew => s.Fresh operatorNew
  | .deallocateObjects p _ => s.Live p

instance decidableEnabled (s : State α) : ∀ c, Decidable (s.Enabled c)
  | .allocate _ operatorNew => inferInstanceAs (Decidable (s.Fresh operatorNew))
  | .deallocate pointer => inferInstanceAs (Decidable (s.Live pointer))
  | .allocateObjects _ _ operatorNew => inferInstanceAs (Decidable (s.Fresh operatorNew))
  | .deallocateObjects p _ => inferInstanceAs (Decidable (s.Live p))

end State

def memoryMachine (α : Type u) [DecidableEq α] : Machine (State α) (Call α) where
  enabled := State.Enabled
  next := State.next

instance {α : Type u} [DecidableEq α] (s : State α) (c : Call α) :
    Decidable ((memoryMachine α).enabled s c) := State.decidableEnabled s c

variable {α : Type u}

/-- The flag says whether the block is live, and the live blocks are apart. -/
structure Inv (address : α) (s : State α) : Prop where
  address_eq : s.memory.address = address
  distinct : Keyed.Distinct Block.address s.live
  inUse_iff : s.memory.inUse = true ↔ s.Live address
  origin_iff : ∀ b ∈ s.live, b.origin = .storage ↔ b.address = address
  fits : ∀ b ∈ s.live, b.origin = .storage → b.size < storageSize

theorem Inv.init (address : α) : Inv address (State.init address) where
  address_eq := rfl
  distinct := Keyed.distinct_nil
  inUse_iff := by
    constructor
    · intro h
      cases h
    · intro h
      exact absurd h Keyed.not_used_nil
  origin_iff := by
    intro b hb
    cases hb
  fits := by
    intro b hb
    cases hb

section Steps
variable {address : α} {s : State α}

/-- The block is handed out while nobody has it. -/
theorem Inv.acquire_storage (h : Inv address s) {size : Nat} (hfree : s.memory.inUse = false)
    (hsize : size < storageSize) :
    Inv address
      (s.acquire size (some (s.memory.address, .storage), { s.memory with inUse := true })) := by
  have hout : ¬ s.Live address := by
    rw [← h.inUse_iff, hfree]
    exact Bool.false_ne_true
  have hlive : (s.acquire size
      (some (s.memory.address, .storage), { s.memory with inUse := true })).live =
      s.live ++ [⟨address, size, .storage⟩] := by
    rw [← h.address_eq]
    rfl
  constructor
  · exact h.address_eq
  · rw [hlive]
    exact h.distinct.concat hout
  · unfold State.Live
    rw [hlive, Keyed.used_concat]
    exact ⟨fun _ => .inr rfl, fun _ => rfl⟩
  · intro b hb
    rw [hlive] at hb
    rcases List.mem_append.mp hb with hb | hb
    · exact h.origin_iff b hb
    · rw [List.mem_singleton.mp hb]
      exact ⟨fun _ => rfl, fun _ => rfl⟩
  · intro b hb horigin
    rw [hlive] at hb
    rcases List.mem_append.mp hb with hb | hb
    · exact h.fits b hb horigin
    · rw [List.mem_singleton.mp hb]
      exact hsize

theorem Inv.acquire_heap (h : Inv address s) (size : Nat) {operatorNew : Option α}
    (hfresh : s.Fresh operatorNew) :
    Inv address (s.acquire size (operatorNew.map fun pointer => (pointer, .heap), s.memory)) := by
  cases operatorNew with
  | none =>
    have hlive : (s.acquire size ((none : Option α).map fun pointer => (pointer, Origin.heap),
        s.memory)) = s := by
      simp [State.acquire]
    rw [hlive]
    exact h
  | some pointer =>
    obtain ⟨hne, hout⟩ := hfresh pointer rfl
    have hlive : (s.acquire size ((some pointer).map fun pointer => (pointer, Origin.heap),
        s.memory)).live = s.live ++ [⟨pointer, size, .heap⟩] := rfl
    rw [h.address_eq] at hne
    constructor
    · exact h.address_eq
    · rw [hlive]
      exact h.distinct.concat hout
    · unfold State.Live
      rw [hlive, Keyed.used_concat]
      exact h.inUse_iff.trans ⟨.inl, fun hor => hor.resolve_right hne⟩
    · intro b hb
      rw [hlive] at hb
      rcases List.mem_append.mp hb with hb | hb
      · exact h.origin_iff b hb
      · rw [List.mem_singleton.mp hb]
        constructor
        · intro he
          cases he
        · exact fun he => absurd he hne
    · intro b hb horigin
      rw [hlive] at hb
      rcases List.mem_append.mp hb with hb | hb
      · exact h.fits b hb horigin
      · rw [List.mem_singleton.mp hb] at horigin
        cases horigin

theorem Inv.allocate (h : Inv address s) {operatorNew : Option α} (hfresh : s.Fresh operatorNew)
    (size : Nat) :
    Inv address (s.acquire size (s.memory.allocate (fun _ => operatorNew) size)) := by
  by_cases hc : s.memory.inUse = false ∧ size < storageSize
  · rw [HandlerMemory.allocate_storage hc.1 hc.2]
    exact h.acquire_storage hc.1 hc.2
  · rw [HandlerMemory.allocate_heap hc]
    exact h.acquire_heap size hfresh

variable [DecidableEq α]

theorem Inv.deallocate (h : Inv address s) (pointer : α) :
    Inv address (s.release pointer (s.memory.deallocate pointer)) := by
  have hlive : (s.release pointer (s.memory.deallocate pointer)).live =
      Keyed.without Block.address pointer s.live := rfl
  have hmem : ∀ b ∈ (s.release pointer (s.memory.deallocate pointer)).live, b ∈ s.live :=
    fun b hb => (h.distinct.mem_without.mp hb).1
  constructor
  · by_cases hp : pointer = s.memory.address
    · rw [hp, HandlerMemory.deallocate_storage]
      exact h.address_eq
    · rw [HandlerMemory.deallocate_heap hp]
      exact h.address_eq
  · exact h.distinct.without pointer
  · unfold State.Live
    rw [hlive, h.distinct.used_without]
    by_cases hp : pointer = s.memory.address
    · rw [hp, HandlerMemory.deallocate_storage, h.address_eq]
      exact ⟨fun he => absurd he Bool.false_ne_true, fun he => absurd rfl he.2⟩
    · rw [HandlerMemory.deallocate_heap hp]
      have hne : address ≠ pointer := fun he => hp (by rw [h.address_eq, he])
      exact h.inUse_iff.trans ⟨fun he => ⟨he, hne⟩, fun he => he.1⟩
  · exact fun b hb => h.origin_iff b (hmem b hb)
  · exact fun b hb => h.fits b (hmem b hb)

theorem Inv.step (h : Inv address s) {c : Call α} (hc : s.Enabled c) :
    Inv address (s.next c) := by
  cases c with
  | allocate size operatorNew => exact h.allocate hc size
  | deallocate pointer => exact h.deallocate pointer
  | allocateObjects sizeofT n operatorNew => exact h.allocate hc (HandlerAllocator.bytes sizeofT n)
  | deallocateObjects p n => exact h.deallocate p

theorem Inv.of_run {trace : List (Call α)}
    (h : (memoryMachine α).Run (State.init address) trace s) : Inv address s :=
  h.invariant (I := fun _ => Inv address) (Inv.init address) fun _ _ _ hinv hc => hinv.step hc

/-- A live pointer goes back to where it came from, and the flag follows the storage only. -/
theorem Inv.deallocate_eq (h : Inv address s) {b : Block α} (hb : b ∈ s.live) :
    s.memory.deallocate b.address =
      (b.origin, if b.origin = .storage then { s.memory with inUse := false } else s.memory) := by
  by_cases horigin : b.origin = .storage
  · have haddress : b.address = s.memory.address :=
      ((h.origin_iff b hb).mp horigin).trans h.address_eq.symm
    rw [haddress, HandlerMemory.deallocate_storage, horigin, if_pos rfl]
  · have haddress : b.address ≠ s.memory.address := by
      rw [h.address_eq]
      exact mt (h.origin_iff b hb).mpr horigin
    rw [HandlerMemory.deallocate_heap haddress, if_neg horigin]
    cases horigin' : b.origin with
    | storage => exact absurd horigin' horigin
    | heap => rfl

end Steps

/-- The block has one owner at a time. Whatever is asked for and given back, in any order, live
allocations have addresses of their own, and each goes back to the allocator it is from. -/
theorem storage_has_one_owner [DecidableEq α] (address : α) {trace : List (Call α)} {s : State α}
    (h : (memoryMachine α).Run (State.init address) trace s) :
    (s.live.map Block.address).Nodup ∧
      (s.memory.inUse = true ↔ ∃ b ∈ s.live, b.address = address) ∧
      (∀ b ∈ s.live, b.address = address → b.size ≤ storageSize) ∧
      ∀ b ∈ s.live, (b.origin = .storage ↔ b.address = address) ∧
        s.memory.deallocate b.address =
          (b.origin,
            if b.origin = .storage then { s.memory with inUse := false } else s.memory) := by
  have hinv := Inv.of_run h
  refine ⟨hinv.distinct, hinv.inUse_iff, ?_, ?_⟩
  · intro b hb haddress
    exact Nat.le_of_lt (hinv.fits b hb ((hinv.origin_iff b hb).mpr haddress))
  · intro b hb
    exact ⟨hinv.origin_iff b hb, hinv.deallocate_eq hb⟩

/-- The storage is out, the heap serves two requests, and the storage comes back to be handed out
once more. -/
theorem storage_has_one_owner_reused :
    let trace : List (Call Nat) :=
      [.allocate 1023 none, .allocate 8 (some 1), .allocateObjects 8 4 (some 2), .deallocate 0,
        .deallocateObjects 1 1, .allocate 5 none]
    let s := trace.foldl State.next (State.init 0)
    s.memory.inUse = true ∧ s.live.length = 2 ∧
      (s.live.map Block.address).Nodup ∧
      (s.memory.inUse = true ↔ ∃ b ∈ s.live, b.address = 0) ∧
      (∀ b ∈ s.live, b.address = 0 → b.size ≤ storageSize) ∧
      ∀ b ∈ s.live, (b.origin = .storage ↔ b.address = 0) ∧
        s.memory.deallocate b.address =
          (b.origin,
            if b.origin = .storage then { s.memory with inUse := false } else s.memory) := by
  intro trace s
  have hadmits : (memoryMachine Nat).Admits (State.init 0) trace := by decide
  exact ⟨by decide, by decide, storage_has_one_owner 0 hadmits.run⟩

end AsioExamples.Allocation
