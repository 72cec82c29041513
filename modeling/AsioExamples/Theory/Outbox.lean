import Mathlib.Data.List.Basic

/-!
# Queues that send one item at a time

Items are put into a queue; the first is being sent while it stays in the queue, and it
leaves the queue when the sending is over. A queue whose sending has failed sends no more.
-/

namespace AsioExamples

set_option autoImplicit false

universe u

/-- Items sent to the end, and items waiting of which the first is being sent, unless that
has failed. Only an item that is being sent can fail. -/
structure Outbox (α : Type u) where
  done : List α
  waiting : List α
  failed : Bool
  waiting_of_failed : failed = true → waiting ≠ []

namespace Outbox
variable {α : Type u} (o : Outbox α)

def empty : Outbox α := ⟨[], [], false, Bool.noConfusion⟩

def all : List α := o.done ++ o.waiting

/-- The items whose sending has begun, in the order in which it did. -/
def begun : List α := o.done ++ o.waiting.head?.toList

def sending : Nat := if o.failed = true ∨ o.waiting = [] then 0 else 1

def push (a : α) : Outbox α :=
  { o with waiting := o.waiting ++ [a], waiting_of_failed := fun _ => by simp }

def complete : Outbox α where
  done := o.done ++ o.waiting.head?.toList
  waiting := o.waiting.tail
  failed := false
  waiting_of_failed := Bool.noConfusion

def fail (h : 0 < o.sending) : Outbox α where
  done := o.done
  waiting := o.waiting
  failed := true
  waiting_of_failed := fun _ hw => by simp [sending, hw] at h

variable {o}

theorem begun_isPrefix_all : o.begun <+: o.all := by
  unfold begun all
  rw [List.prefix_append_right_inj]
  cases o.waiting with
  | nil => exact List.prefix_rfl
  | cons a w => exact ⟨w, rfl⟩

theorem sending_le_one : o.sending ≤ 1 := by
  unfold sending
  split <;> decide

theorem waiting_of_sending (h : 0 < o.sending) :
    o.failed = false ∧ ∃ a w, o.waiting = a :: w := by
  unfold sending at h
  split at h
  · cases h
  · rename_i hn
    obtain ⟨hf, hw⟩ := not_or.mp hn
    exact ⟨by simpa using hf, List.exists_cons_of_ne_nil hw⟩

/-- Exactly one item is being sent as long as some are left, if none has failed. -/
theorem sending_eq_one_iff (hf : o.failed = false) :
    o.sending = 1 ↔ o.done.length < o.all.length := by
  unfold sending all
  cases hw : o.waiting with
  | nil => simp
  | cons a w => simp [hf]

@[simp] theorem all_push (a : α) : (o.push a).all = o.all ++ [a] :=
  (List.append_assoc _ _ _).symm

theorem begun_push (a : α) :
    (o.push a).begun = if o.waiting = [] then o.begun ++ [a] else o.begun := by
  obtain ⟨done, waiting, failed, hf⟩ := o
  cases waiting with
  | nil => simp [begun, push]
  | cons b w => simp [begun, push]

theorem sending_push (a : α) :
    (o.push a).sending = if o.waiting = [] then o.sending + 1 else o.sending := by
  obtain ⟨done, waiting, failed, hf⟩ := o
  cases waiting with
  | nil =>
    obtain rfl : failed = false := by
      cases failed with
      | false => rfl
      | true => exact absurd rfl (hf rfl)
    simp [sending, push]
  | cons b w => simp [sending, push]

theorem foldl_push (l : List α) :
    (l.foldl push o).all = o.all ++ l ∧ (l.foldl push o).done = o.done ∧
      (l.foldl push o).failed = o.failed := by
  induction l generalizing o with
  | nil => exact ⟨(List.append_nil _).symm, rfl, rfl⟩
  | cons a l ih =>
    obtain ⟨hall, hdone, hfailed⟩ := ih (o := o.push a)
    refine ⟨?_, hdone, hfailed⟩
    rw [List.foldl_cons, hall, all_push, List.append_assoc]
    rfl

theorem begun_complete :
    o.complete.begun = o.begun ++ o.waiting.tail.head?.toList := rfl

theorem sending_complete : o.complete.sending = if o.waiting.tail = [] then 0 else 1 := by
  simp [sending, complete]

theorem all_complete (h : 0 < o.sending) : o.complete.all = o.all := by
  obtain ⟨-, a, w, hw⟩ := waiting_of_sending h
  simp [all, complete, hw]

theorem length_done_complete (h : 0 < o.sending) :
    o.complete.done.length = o.done.length + 1 := by
  obtain ⟨-, a, w, hw⟩ := waiting_of_sending h
  simp [complete, hw]

end Outbox

end AsioExamples
