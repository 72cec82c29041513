import Mathlib.Data.List.TakeWhile
import Mathlib.Data.List.Basic

/-!
# Cutting a stream at a delimiter

A piece ends before the first delimiter, which is dropped, or after as many symbols as there is
room for. The end of the stream makes no piece. A reader that keeps what it has not cut yet cuts
a stream in the same places, however the stream arrives.
-/

namespace AsioExamples.Cutting

set_option autoImplicit false

universe u
variable {α : Type u} [DecidableEq α]

def cut (d : α) (room : Nat) (s : List α) : List (List α) :=
  if d ∈ s.take room then
    s.takeWhile (· != d) :: cut d room (s.drop ((s.takeWhile (· != d)).length + 1))
  else if 0 < room ∧ room ≤ s.length then
    s.take room :: cut d room (s.drop room)
  else []
termination_by s.length
decreasing_by
  · rename_i h
    have := List.length_pos_of_mem (List.mem_of_mem_take h)
    rw [List.length_drop]
    omega
  · rw [List.length_drop]
    omega

variable {d : α} {room : Nat} {l s : List α}

theorem takeWhile_delim (hl : d ∉ l) : (l ++ d :: s).takeWhile (· != d) = l := by
  have hall : ∀ c ∈ l, (c != d) = true := by
    intro c hc
    simpa using fun he : c = d => hl (he ▸ hc)
  rw [List.takeWhile_append_of_pos hall, List.takeWhile_cons_of_neg (by simp), List.append_nil]

theorem cut_delim (hl : d ∉ l) (hlt : l.length < room) :
    cut d room (l ++ d :: s) = l :: cut d room s := by
  have hmem : d ∈ (l ++ d :: s).take room := by
    rw [List.take_append]
    apply List.mem_append_right
    obtain ⟨k, hk⟩ : ∃ k, room - l.length = k + 1 := ⟨room - l.length - 1, by omega⟩
    rw [hk]
    exact List.mem_cons_self
  have hdrop : (l ++ d :: s).drop (l.length + 1) = s := by
    rw [List.drop_append]
    simp
  rw [cut, if_pos hmem, takeWhile_delim hl, hdrop]

theorem cut_full (hl : d ∉ l) (hpos : 0 < l.length) :
    cut d l.length (l ++ s) = l :: cut d l.length s := by
  have hle : l.length ≤ (l ++ s).length := by
    rw [List.length_append]
    exact Nat.le_add_right _ _
  rw [cut, List.take_left, if_neg hl, if_pos ⟨hpos, hle⟩, List.drop_left]

theorem cut_short (hs : d ∉ s) (hlt : s.length < room) : cut d room s = [] := by
  have hno : ¬ (0 < room ∧ room ≤ s.length) := by omega
  rw [cut, if_neg (fun h => hs (List.mem_of_mem_take h)), if_neg hno]

theorem exists_delim (h : d ∈ s) : ∃ l t, s = l ++ d :: t ∧ d ∉ l ∧ s.takeWhile (· != d) = l := by
  obtain ⟨l, t, rfl, hl⟩ := List.eq_append_cons_of_mem h
  exact ⟨l, t, rfl, hl, takeWhile_delim hl⟩

/-- `pieces` are what has been cut off the stream `seen`, and `rest` is what is left of it: no
more of the stream can change that. -/
def Cuts (d : α) (room : Nat) (seen : List α) (pieces : List (List α)) (rest : List α) : Prop :=
  ∀ more, cut d room (seen ++ more) = pieces ++ cut d room (rest ++ more)

namespace Cuts
variable {seen rest t : List α} {pieces : List (List α)}

theorem nil : Cuts d room [] [] [] := fun _ => rfl

theorem append (h : Cuts d room seen pieces rest) (piece : List α) :
    Cuts d room (seen ++ piece) pieces (rest ++ piece) := by
  intro more
  rw [List.append_assoc, h, List.append_assoc]

theorem delim (h : Cuts d room seen pieces (l ++ d :: t)) (hl : d ∉ l) (hlt : l.length < room) :
    Cuts d room seen (pieces ++ [l]) t := by
  intro more
  rw [h, List.append_assoc, List.cons_append, cut_delim hl hlt, List.append_assoc]
  rfl

theorem full (h : Cuts d room seen pieces l) (hl : d ∉ l) (hlen : l.length = room)
    (hpos : 0 < room) : Cuts d room seen (pieces ++ [l]) [] := by
  subst hlen
  intro more
  rw [h, cut_full hl hpos, List.append_assoc]
  rfl

theorem eq_cut (h : Cuts d room seen pieces rest) (hrest : d ∉ rest) (hlt : rest.length < room) :
    cut d room seen = pieces := by
  have hend := h []
  rwa [List.append_nil, List.append_nil, cut_short hrest hlt, List.append_nil] at hend

theorem isPrefix (h : Cuts d room seen pieces rest) (more : List α) :
    pieces <+: cut d room (seen ++ more) := by
  rw [h more]
  exact List.prefix_append _ _

end Cuts

end AsioExamples.Cutting
