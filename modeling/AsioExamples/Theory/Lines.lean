import Mathlib.Data.List.Basic

/-!
# Lines and the blank line after them

Lines end in two symbols, and an empty line closes a block of lines. When no line of the
block is empty or holds the first of the two symbols, the end of a line followed by the end
of another is found for the first time where the block is closed.
-/

namespace AsioExamples.Lines

set_option autoImplicit false

universe u
variable {α : Type u} {cr lf : α}

def block (cr lf : α) (ls : List (List α)) : List α :=
  ls.flatMap (fun l => l ++ [cr, lf]) ++ [cr, lf]

theorem length_le_of_not_mem {l x u v : List α} (hl : cr ∉ l) (h : l ++ x = u ++ cr :: v) :
    l.length ≤ u.length := by
  induction l generalizing u with
  | nil => exact Nat.zero_le _
  | cons a l ih =>
    obtain ⟨ha, hl⟩ := not_or.mp (fun hm => hl (List.mem_cons.mpr hm))
    cases u with
    | nil => exact absurd (List.cons.inj h).1.symm ha
    | cons b u => exact Nat.succ_le_succ (ih hl (List.cons.inj h).2)

/-- A double line end does not start inside a line, nor at the end of a line that another
one follows. -/
theorem skip_line (hne : cr ≠ lf) {l x u v : List α} (hl : cr ∉ l)
    (hx : x.head? ≠ some cr) (h : l ++ cr :: lf :: x = u ++ cr :: lf :: cr :: lf :: v) :
    ∃ u', u = l ++ cr :: lf :: u' ∧ x = u' ++ cr :: lf :: cr :: lf :: v := by
  induction l generalizing u with
  | nil =>
    match u with
    | [] =>
      simp only [List.nil_append, List.cons.injEq, true_and] at h
      exact absurd (by rw [h]; rfl) hx
    | [a] =>
      simp only [List.nil_append, List.cons_append, List.cons.injEq] at h
      exact absurd h.2.1.symm hne
    | a :: b :: u' =>
      simp only [List.nil_append, List.cons_append, List.cons.injEq] at h
      obtain ⟨rfl, rfl, rfl⟩ := h
      exact ⟨u', rfl, rfl⟩
  | cons a l ih =>
    obtain ⟨ha, hl⟩ := not_or.mp (fun hm => hl (List.mem_cons.mpr hm))
    match u with
    | [] =>
      simp only [List.nil_append, List.cons_append, List.cons.injEq] at h
      exact absurd h.1.symm ha
    | b :: u =>
      simp only [List.cons_append, List.cons.injEq] at h
      obtain ⟨rfl, h⟩ := h
      obtain ⟨u', rfl, rfl⟩ := ih hl h
      exact ⟨u', rfl, rfl⟩

/-- The first double line end is where the block is closed. -/
theorem block_closed_first (hne : cr ≠ lf) {ls : List (List α)}
    (hls : ∀ l ∈ ls, l ≠ [] ∧ cr ∉ l) {body u v : List α}
    (h : block cr lf ls ++ body = u ++ cr :: lf :: cr :: lf :: v) :
    (block cr lf ls).length ≤ u.length + 4 := by
  induction ls generalizing u with
  | nil => exact Nat.le_add_left 2 (u.length + 2)
  | cons l ls ih =>
    obtain ⟨⟨-, hcr⟩, hls⟩ := List.forall_mem_cons.mp hls
    have hblock : block cr lf (l :: ls) = l ++ cr :: lf :: block cr lf ls := by
      simp [block]
    rw [hblock, List.append_assoc, List.cons_append, List.cons_append] at h
    cases ls with
    | nil =>
      have := length_le_of_not_mem hcr h
      rw [hblock]
      simp only [block, List.length_append, List.length_cons]
      exact Nat.add_le_add_right this 4
    | cons m ls =>
      obtain ⟨a, m, rfl⟩ := List.exists_cons_of_ne_nil (hls m List.mem_cons_self).1
      have ha := (hls _ List.mem_cons_self).2
      have hx : (block cr lf ((a :: m) :: ls) ++ body).head? ≠ some cr := by
        intro he
        exact ha (List.mem_cons.mpr (.inl (Option.some.inj he).symm))
      obtain ⟨u', rfl, hu'⟩ := skip_line hne hcr hx h
      have := ih hls hu'
      rw [hblock]
      simp only [List.length_append, List.length_cons] at this ⊢
      omega

theorem append_of_length_le {l x buf y : List α} (h : buf ++ y = l ++ x)
    (hle : l.length ≤ buf.length) : ∃ more, buf = l ++ more ∧ more ++ y = x := by
  rcases List.append_eq_append_iff.mp h with ⟨more, rfl, rfl⟩ | ⟨more, rfl, rfl⟩
  · have : more = [] := by
      rw [List.length_append] at hle
      exact List.eq_nil_of_length_eq_zero (by omega)
    subst this
    exact ⟨[], by simp, by simp⟩
  · exact ⟨more, rfl, rfl⟩

/-- A buffer with a line end in it holds the first line. -/
theorem line_of_infix {l x buf y : List α} (hl : cr ∉ l) (h : [cr, lf] <:+: buf)
    (he : buf ++ y = (l ++ [cr, lf]) ++ x) :
    ∃ more, buf = (l ++ [cr, lf]) ++ more ∧ more ++ y = x := by
  apply append_of_length_le he
  obtain ⟨u, v, rfl⟩ := h
  have := length_le_of_not_mem (x := cr :: lf :: x) (u := u) (v := lf :: (v ++ y)) hl (by
    simpa using he.symm)
  simp only [List.length_append, List.length_cons, List.length_nil]
  omega

theorem doubleEnd_isInfix_block {ls : List (List α)} (h : ls ≠ []) :
    [cr, lf] ++ [cr, lf] <:+: block cr lf ls := by
  obtain ⟨init, last, rfl⟩ := (List.eq_nil_or_concat ls).resolve_left h
  refine ⟨init.flatMap (fun l => l ++ [cr, lf]) ++ last, [], ?_⟩
  simp [block]

/-- A buffer with a double line end in it holds the block. -/
theorem block_of_infix (hne : cr ≠ lf) {ls : List (List α)} (hls : ∀ l ∈ ls, l ≠ [] ∧ cr ∉ l)
    {body buf y : List α} (h : [cr, lf] ++ [cr, lf] <:+: buf)
    (he : buf ++ y = block cr lf ls ++ body) :
    ∃ more, buf = block cr lf ls ++ more ∧ more ++ y = body := by
  apply append_of_length_le he
  obtain ⟨u, v, rfl⟩ := h
  have := block_closed_first hne hls (u := u) (v := v ++ y) (by
    simpa using he.symm)
  simp only [List.length_append, List.length_cons, List.length_nil]
  omega

section Terminated
variable {d : α}

/-- Lines that one symbol ends. -/
def terminated (d : α) (ls : List (List α)) : List α := ls.flatMap fun l => l ++ [d]

theorem terminated_cons (d : α) (l : List α) (ls : List (List α)) :
    terminated d (l :: ls) = l ++ d :: terminated d ls := by
  simp [terminated]

/-- A text with the symbol at its end is made of lines. -/
theorem exists_terminated [DecidableEq α] {text : List α} (h : text.getLast? = some d) :
    ∃ ls, text = terminated d ls ∧ ∀ l ∈ ls, d ∉ l := by
  induction text with
  | nil => cases h
  | cons c text ih =>
    by_cases hnil : text = []
    · subst hnil
      obtain rfl : c = d := Option.some.inj h
      exact ⟨[[]], rfl, by simp⟩
    · have hlast : text.getLast? = some d := by
        obtain ⟨b, t, rfl⟩ := List.exists_cons_of_ne_nil hnil
        rwa [List.getLast?_cons_cons] at h
      obtain ⟨ls, rfl, hls⟩ := ih hlast
      by_cases hc : c = d
      · subst hc
        refine ⟨[] :: ls, (terminated_cons c [] ls).symm, ?_⟩
        exact List.forall_mem_cons.mpr ⟨List.not_mem_nil, hls⟩
      · -- The symbol belongs to the first line.
        cases ls with
        | nil => exact absurd rfl hnil
        | cons l ls =>
          obtain ⟨hl, hls⟩ := List.forall_mem_cons.mp hls
          refine ⟨(c :: l) :: ls, by simp [terminated_cons], ?_⟩
          refine List.forall_mem_cons.mpr ⟨fun hmem => ?_, hls⟩
          rcases List.mem_cons.mp hmem with heq | hmem
          · exact hc heq.symm
          · exact hl hmem

/-- A stretch without the symbol lies on one side of it. -/
theorem infix_side {l u v : List α} (hl : d ∉ l) (h : l <:+: u ++ d :: v) :
    l <:+: u ∨ l <:+: v := by
  obtain ⟨s, t, h⟩ := h
  rw [List.append_assoc] at h
  rcases List.append_eq_append_iff.mp h with ⟨as, hu, hl'⟩ | ⟨bs, hs, hr⟩
  · rcases List.append_eq_append_iff.mp hl' with ⟨cs, has, -⟩ | ⟨cs, hlas, hcs⟩
    · exact .inl ⟨s, cs, by rw [hu, has, List.append_assoc]⟩
    · cases cs with
      | nil => exact .inl ⟨s, [], by rw [hu, hlas]; simp⟩
      | cons c cs =>
        obtain rfl := (List.cons.inj hcs).1
        exact absurd (hlas ▸ List.mem_append_right _ List.mem_cons_self) hl
  · cases bs with
    | nil =>
      cases l with
      | nil => exact .inl (List.nil_infix)
      | cons c l =>
        obtain rfl := (List.cons.inj hr).1
        exact absurd List.mem_cons_self hl
    | cons b bs =>
      rw [List.cons_append] at hr
      exact .inr ⟨bs, t, by rw [(List.cons.inj hr).2, List.append_assoc]⟩

/-- The stretches of a text without the symbol are those of its lines. -/
theorem infix_line {ls : List (List α)} {l : List α} (hl : d ∉ l) (hne : l ≠ [])
    (h : l <:+: terminated d ls) : ∃ m ∈ ls, l <:+: m := by
  induction ls with
  | nil => exact absurd (List.infix_nil.mp h) hne
  | cons m ls ih =>
    rw [terminated_cons] at h
    rcases infix_side hl h with h | h
    · exact ⟨m, List.mem_cons_self, h⟩
    · obtain ⟨m', hm', h⟩ := ih h
      exact ⟨m', List.mem_cons_of_mem _ hm', h⟩

theorem infix_terminated {ls : List (List α)} {l : List α} (h : l ∈ ls) :
    l <:+: terminated d ls := by
  obtain ⟨before, rest, rfl⟩ := List.append_of_mem h
  exact ⟨terminated d before, d :: terminated d rest, by simp [terminated]⟩

theorem filter_terminated [DecidableEq α] {ls : List (List α)} (hls : ∀ l ∈ ls, d ∉ l) :
    (terminated d ls).filter (fun c => c != d) = ls.flatten := by
  induction ls with
  | nil => rfl
  | cons l ls ih =>
    obtain ⟨hl, hls⟩ := List.forall_mem_cons.mp hls
    have hkeep : l.filter (fun c => c != d) = l := by
      rw [List.filter_eq_self]
      intro c hc
      simpa using fun he : c = d => hl (he ▸ hc)
    rw [terminated_cons, List.filter_append, hkeep, List.filter_cons_of_neg (by simp), ih hls,
      List.flatten_cons]

end Terminated

end AsioExamples.Lines
