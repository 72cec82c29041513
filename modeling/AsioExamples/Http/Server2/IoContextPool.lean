import AsioExamples.Theory.Rotation

/-!
`http::server2::io_context_pool`. The contexts of a pool are numbered in the order in which they
are made; they are given out in turn.
-/

namespace AsioExamples.Http.Server2

set_option autoImplicit false

open Rotation

/-- What a function ends with that does not return: an exception, or what the language leaves
undefined. -/
inductive Fault where
  | runtimeError (what : String)
  | outOfRange
  | nullPointer
deriving DecidableEq

structure IoContextPool where
  ioContexts : List Nat
  /-- The contexts whose executors are held as outstanding work. -/
  work : List Nat
  /-- Never above the number of contexts, so that counting it up does not overflow. -/
  nextIoContext : Nat
deriving DecidableEq

namespace IoContextPool

def new (poolSize : Nat) : Except Fault IoContextPool :=
  if poolSize = 0 then .error (.runtimeError "io_context_pool size is 0")
  else
    .ok ((List.range poolSize).foldl
      (fun pool ioContext => { pool with
        ioContexts := pool.ioContexts ++ [ioContext]
        work := pool.work ++ [ioContext] })
      ⟨[], [], 0⟩)

/-- The contexts that get a thread each. -/
def run (pool : IoContextPool) : List Nat := pool.ioContexts

/-- The contexts that go on running. -/
def stop (pool : IoContextPool) (running : List Nat) : List Nat :=
  pool.ioContexts.foldl (fun running ioContext => running.filter (· != ioContext)) running

def getIoContext (pool : IoContextPool) : Except Fault (Nat × IoContextPool) :=
  match pool.ioContexts[pool.nextIoContext]? with
  | none => .error .outOfRange
  | some ioContext =>
    let nextIoContext := pool.nextIoContext + 1
    let nextIoContext := if nextIoContext = pool.ioContexts.length then 0 else nextIoContext
    .ok (ioContext, { pool with nextIoContext := nextIoContext })

/-- What `m` calls return, one after the other, and the pool they leave. -/
def calls (pool : IoContextPool) : Nat → Except Fault (List Nat × IoContextPool)
  | 0 => .ok ([], pool)
  | m + 1 => do
    let (returned, pool) ← calls pool m
    let (ioContext, pool) ← pool.getIoContext
    .ok (returned ++ [ioContext], pool)

/-- A pool of `n` contexts after `k` calls: the next index is that of the next turn. -/
structure Called (n k : Nat) (pool : IoContextPool) : Prop where
  ioContexts : pool.ioContexts = List.range n
  nextIoContext : pool.nextIoContext = k % n

/-- As many contexts are made as were asked for. -/
theorem new_eq {n : Nat} (h : 0 < n) : new n = .ok ⟨List.range n, List.range n, 0⟩ := by
  unfold new
  rw [if_neg (Nat.ne_of_gt h)]
  clear h
  congr 1
  induction n with
  | zero => rfl
  | succ n ih =>
    rw [List.range_succ, List.foldl_append, ih]
    rfl

theorem called_zero (n : Nat) : Called n 0 ⟨List.range n, List.range n, 0⟩ :=
  ⟨rfl, (Nat.zero_mod n).symm⟩

section Calls
variable {n k : Nat} {pool : IoContextPool}

theorem Called.next_lt (h : Called n k pool) (hn : 0 < n) :
    pool.nextIoContext < pool.ioContexts.length := by
  rw [h.nextIoContext, h.ioContexts, List.length_range]
  exact Nat.mod_lt k hn

/-- A call takes its turn. -/
theorem Called.getIoContext (h : Called n k pool) (hn : 0 < n) :
    ∃ pool', pool.getIoContext = .ok (k % n, pool') ∧ Called n (k + 1) pool' := by
  have hget : pool.ioContexts[pool.nextIoContext]? = some (k % n) := by
    rw [h.ioContexts, h.nextIoContext]
    exact List.getElem?_range (Nat.mod_lt k hn)
  refine ⟨{ pool with nextIoContext := nextPlace pool.ioContexts.length pool.nextIoContext }, ?_,
    h.ioContexts, ?_⟩
  · unfold IoContextPool.getIoContext
    rw [hget]
    rfl
  · change nextPlace pool.ioContexts.length pool.nextIoContext = (k + 1) % n
    rw [h.ioContexts, List.length_range, h.nextIoContext]
    exact nextPlace_mod hn k

theorem range_ne_nil (hn : 0 < n) : List.range n ≠ [] := List.range_ne_nil.mpr (Nat.ne_of_gt hn)

theorem turn_range (hn : 0 < n) (k : Nat) : turn (List.range n) k = some (k % n) := by
  unfold turn
  rw [List.length_range]
  exact List.getElem?_range (Nat.mod_lt k hn)

theorem Called.calls (h : Called n k pool) (hn : 0 < n) (m : Nat) :
    ∃ pool', pool.calls m = .ok (turns (List.range n) k m, pool') ∧ Called n (k + m) pool' := by
  induction m with
  | zero => exact ⟨pool, rfl, h⟩
  | succ m ih =>
    obtain ⟨pool₁, hcalls, hcalled₁⟩ := ih
    obtain ⟨pool₂, hget, hcalled₂⟩ := hcalled₁.getIoContext hn
    refine ⟨pool₂, ?_, hcalled₂⟩
    rw [IoContextPool.calls, hcalls, turns_succ, turn_range hn]
    simp only [bind, Except.bind, hget]
    rfl

end Calls

end IoContextPool

end AsioExamples.Http.Server2
