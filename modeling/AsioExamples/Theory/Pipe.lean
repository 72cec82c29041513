import Mathlib.Data.List.Infix

/-!
# Streams between two parties

What the one has sent goes to the other in the same order and without a loss, in pieces that
need not be the ones it was sent in.
-/

namespace AsioExamples

set_option autoImplicit false

universe u

/-- All that has been sent, and the beginning of it that has been received. -/
structure Pipe (β : Type u) where
  sent : List β
  received : List β
  isPrefix : received <+: sent

namespace Pipe
variable {β : Type u} (p : Pipe β)

def empty : Pipe β := ⟨[], [], List.prefix_rfl⟩

/-- What is on its way. -/
def waiting : List β := p.sent.drop p.received.length

def send (piece : List β) : Pipe β :=
  { p with
    sent := p.sent ++ piece
    isPrefix := p.isPrefix.trans (List.prefix_append _ _) }

/-- The next `n` symbols are received, or as many as there are. -/
def receive (n : Nat) : Pipe β :=
  { p with
    received := p.sent.take (p.received.length + n)
    isPrefix := List.take_prefix _ _ }

@[simp] theorem sent_send (piece : List β) : (p.send piece).sent = p.sent ++ piece := rfl

@[simp] theorem received_send (piece : List β) : (p.send piece).received = p.received := rfl

@[simp] theorem sent_receive (n : Nat) : (p.receive n).sent = p.sent := rfl

theorem received_append_waiting : p.received ++ p.waiting = p.sent :=
  List.prefix_iff_eq_append.mp p.isPrefix

variable {p}

theorem received_receive {piece : List β} (h : piece <+: p.waiting) :
    (p.receive piece.length).received = p.received ++ piece := by
  obtain ⟨rest, hrest⟩ := h
  have hsent := p.received_append_waiting
  rw [← hrest, ← List.append_assoc] at hsent
  change p.sent.take (p.received.length + piece.length) = _
  rw [← hsent, ← List.length_append, List.take_left]

/-- Nothing is received that has not been sent. -/
theorem append_isPrefix {piece : List β} (h : piece <+: p.waiting) :
    p.received ++ piece <+: p.sent := by
  rw [← received_receive h]
  exact (p.receive piece.length).isPrefix

end Pipe

end AsioExamples
