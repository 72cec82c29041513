import Mathlib.Data.List.Basic

/-!
# Incremental recognisers

A recogniser reads one symbol at a time and answers yes, no or indeterminate; `run` feeds a
word until the first decided answer. `Describes` says that a family of languages, one for
each state, is what the recogniser still has to read. From it the three outcomes of a run
are characterised exactly: the accepted prefix, the proper prefixes and the first symbol
after which nothing can be accepted.
-/

namespace AsioExamples.Recogniser

set_option autoImplicit false

universe u v w
variable {σ : Type u} {τ : Type v} {β : Type w} {α : Type u}

inductive Tribool where
  | yes
  | no
  | indeterminate
deriving DecidableEq, Repr

/-- The verdict of a run, the number of symbols read and the state left behind. -/
structure Outcome (σ : Type u) where
  verdict : Tribool
  consumed : Nat
  state : σ
deriving DecidableEq, Repr

def run (step : σ → β → Tribool × σ) : σ → List β → Outcome σ
  | s, [] => ⟨.indeterminate, 0, s⟩
  | s, b :: w =>
    match step s b with
    | (.indeterminate, t) => { run step t w with consumed := (run step t w).consumed + 1 }
    | (v, t) => ⟨v, 1, t⟩

section Basic
variable (step : σ → β → Tribool × σ)

@[simp] theorem run_nil (s : σ) : run step s [] = ⟨.indeterminate, 0, s⟩ := rfl

theorem run_cons_indeterminate {s t : σ} {b : β} (h : step s b = (.indeterminate, t)) (w : List β) :
    run step s (b :: w) = { run step t w with consumed := (run step t w).consumed + 1 } := by
  simp [run, h]

theorem run_cons_decided {s t : σ} {b : β} {v : Tribool} (h : step s b = (v, t))
    (hv : v ≠ .indeterminate) (w : List β) : run step s (b :: w) = ⟨v, 1, t⟩ := by
  cases v with
  | yes => simp [run, h]
  | no => simp [run, h]
  | indeterminate => exact absurd rfl hv

/-- Induction over a run: it goes on after an undecided first symbol and stops at a deciding
one. -/
@[elab_as_elim] theorem run_induction {motive : σ → List β → Prop} (nil : ∀ s, motive s [])
    (undecided : ∀ {s t} b w, step s b = (.indeterminate, t) → motive t w → motive s (b :: w))
    (decided : ∀ {s t v} b w, step s b = (v, t) → v ≠ .indeterminate → motive s (b :: w))
    (s : σ) (w : List β) : motive s w := by
  induction w generalizing s with
  | nil => exact nil s
  | cons b w ih =>
    rcases hs : step s b with ⟨v, t⟩
    by_cases hv : v = .indeterminate
    · subst v
      exact undecided b w hs (ih t)
    · exact decided b w hs hv

theorem run_cons_congr {s t : σ} {b : β} (h : step s b = step t b) (w : List β) :
    run step s (b :: w) = run step t (b :: w) := by
  simp only [run, h]

theorem consumed_le (s : σ) (w : List β) : (run step s w).consumed ≤ w.length := by
  induction s, w using run_induction step with
  | nil s => exact Nat.le_refl 0
  | undecided b w hs ih =>
    rw [run_cons_indeterminate step hs]
    exact Nat.succ_le_succ ih
  | decided b w hs hv =>
    rw [run_cons_decided step hs hv]
    exact Nat.succ_le_succ (Nat.zero_le _)

theorem consumed_of_indeterminate {s : σ} {w : List β}
    (h : (run step s w).verdict = .indeterminate) : (run step s w).consumed = w.length := by
  induction s, w using run_induction step with
  | nil s => rfl
  | undecided b w hs ih =>
    rw [run_cons_indeterminate step hs] at h ⊢
    exact congrArg (· + 1) (ih h)
  | decided b w hs hv =>
    rw [run_cons_decided step hs hv] at h
    exact absurd h hv

theorem consumed_pos {s : σ} {w : List β} (h : (run step s w).verdict ≠ .indeterminate) :
    0 < (run step s w).consumed := by
  induction s, w using run_induction step with
  | nil s => exact absurd rfl h
  | undecided b w hs _ =>
    rw [run_cons_indeterminate step hs]
    exact Nat.succ_pos _
  | decided b w hs hv =>
    rw [run_cons_decided step hs hv]
    exact Nat.one_pos

theorem run_append_of_indeterminate {s : σ} {u : List β}
    (h : (run step s u).verdict = .indeterminate) (w : List β) :
    run step s (u ++ w) =
      { run step (run step s u).state w with
        consumed := u.length + (run step (run step s u).state w).consumed } := by
  induction s, u using run_induction step with
  | nil s => simp
  | undecided b u hs ih =>
    rw [run_cons_indeterminate step hs] at h
    rw [List.cons_append, run_cons_indeterminate step hs, run_cons_indeterminate step hs, ih h]
    simp only [List.length_cons, Outcome.mk.injEq, true_and, and_true]
    omega
  | decided b u hs hv =>
    rw [run_cons_decided step hs hv] at h
    exact absurd h hv

theorem run_append_of_decided {s : σ} {u : List β}
    (h : (run step s u).verdict ≠ .indeterminate) (w : List β) :
    run step s (u ++ w) = run step s u := by
  induction s, u using run_induction step with
  | nil s => exact absurd rfl h
  | undecided b u hs ih =>
    rw [run_cons_indeterminate step hs] at h
    rw [List.cons_append, run_cons_indeterminate step hs, run_cons_indeterminate step hs, ih h]
  | decided b u hs hv =>
    rw [List.cons_append, run_cons_decided step hs hv, run_cons_decided step hs hv]

theorem run_take_consumed {s : σ} {w : List β} (h : (run step s w).verdict ≠ .indeterminate) :
    run step s (w.take (run step s w).consumed) = run step s w := by
  induction s, w using run_induction step with
  | nil s => exact absurd rfl h
  | undecided b w hs ih =>
    rw [run_cons_indeterminate step hs] at h ⊢
    rw [List.take_succ_cons, run_cons_indeterminate step hs, ih h]
  | decided b w hs hv =>
    rw [run_cons_decided step hs hv, List.take_succ_cons, run_cons_decided step hs hv]

theorem run_take_of_lt {s : σ} {w : List β} {k : Nat} (h : k < (run step s w).consumed) :
    (run step s (w.take k)).verdict = .indeterminate := by
  by_contra hd
  have hrun := run_append_of_decided step hd (w.drop k)
  rw [List.take_append_drop] at hrun
  have hle := consumed_le step s (w.take k)
  rw [← hrun, List.length_take] at hle
  omega

theorem consumed_of_first_decided {s : σ} {u : List β} {b : β}
    (hu : (run step s u).verdict = .indeterminate)
    (hd : (run step s (u ++ [b])).verdict ≠ .indeterminate) :
    (run step s (u ++ [b])).consumed = u.length + 1 := by
  rw [run_append_of_indeterminate step hu] at hd ⊢
  have hpos := consumed_pos step hd
  have hle := consumed_le step (run step s u).state [b]
  simp only [List.length_singleton] at hle ⊢
  omega

theorem run_of_deciding {s t : σ} {u : List β} {b : β} {v : Tribool}
    (hu : (run step s u).verdict = .indeterminate) (hb : step (run step s u).state b = (v, t))
    (hv : v ≠ .indeterminate) (w : List β) : run step s (u ++ b :: w) = ⟨v, u.length + 1, t⟩ := by
  rw [run_append_of_indeterminate step hu, run_cons_decided step hb hv]

theorem run_concat {s : σ} {u : List β} (hu : (run step s u).verdict = .indeterminate) (b : β) :
    run step s (u ++ [b]) =
      ⟨(step (run step s u).state b).1, u.length + 1, (step (run step s u).state b).2⟩ := by
  rcases hb : step (run step s u).state b with ⟨v, t⟩
  rw [run_append_of_indeterminate step hu]
  by_cases hv : v = .indeterminate
  · subst v
    rw [run_cons_indeterminate step hb]
    rfl
  · rw [run_cons_decided step hb hv]

/-- A decided run has read an undecided word and one deciding symbol more. -/
theorem deciding_symbol {s : σ} {w : List β} (h : (run step s w).verdict ≠ .indeterminate) :
    ∃ u b v, w = u ++ b :: v ∧ (run step s w).consumed = u.length + 1 ∧
      (run step s u).verdict = .indeterminate ∧
      step (run step s u).state b = ((run step s w).verdict, (run step s w).state) := by
  have hpos := consumed_pos step h
  have hle := consumed_le step s w
  obtain ⟨k, hk⟩ := Nat.exists_eq_succ_of_ne_zero (Nat.ne_of_gt hpos)
  have hlt : k < w.length := by omega
  have hu : (run step s (w.take k)).verdict = .indeterminate := run_take_of_lt step (by omega)
  have hcut : w = w.take k ++ w[k] :: w.drop (k + 1) := by
    rw [← List.drop_eq_getElem_cons hlt, List.take_append_drop]
  have hlen : (w.take k).length = k := List.length_take_of_le (Nat.le_of_lt hlt)
  refine ⟨w.take k, w[k], w.drop (k + 1), hcut, by omega, hu, ?_⟩
  rcases hb : step (run step s (w.take k)).state w[k] with ⟨v, t⟩
  by_cases hv : v = .indeterminate
  · subst v
    rw [hcut, run_append_of_indeterminate step hu, run_cons_indeterminate step hb] at hk h
    have := consumed_pos step (s := t) (w := w.drop (k + 1)) h
    simp only at hk
    omega
  · have hrun := run_of_deciding step hu hb hv (w.drop (k + 1))
    rw [← hcut] at hrun
    rw [hrun]

/-- What every undecided step preserves, of the symbols read and the state, a run preserves. -/
theorem run_invariant {I : List β → σ → Prop}
    (h : ∀ u s b t, I u s → step s b = (.indeterminate, t) → I (u ++ [b]) t)
    {u : List β} {s : σ} (hs : I u s) {w : List β}
    (hw : (run step s w).verdict = .indeterminate) : I (u ++ w) (run step s w).state := by
  induction s, w using run_induction step generalizing u with
  | nil s => simpa using hs
  | undecided b w hb ih =>
    rw [run_cons_indeterminate step hb] at hw ⊢
    have := ih (h u _ b _ hs hb) hw
    rwa [List.append_assoc] at this
  | decided b w hb hv =>
    rw [run_cons_decided step hb hv] at hw
    exact absurd hw hv

/-- Reading `u` leads from `s` to `t` without an answer. -/
def Reaches (s : σ) (u : List β) (t : σ) : Prop :=
  (run step s u).verdict = .indeterminate ∧ (run step s u).state = t

variable {step} {s t x : σ} {u v : List β} {b : β}

theorem Reaches.nil : Reaches step s [] s := ⟨rfl, rfl⟩

theorem Reaches.cons (hb : step s b = (.indeterminate, t)) (h : Reaches step t u x) :
    Reaches step s (b :: u) x := by
  unfold Reaches
  rw [run_cons_indeterminate step hb]
  exact h

theorem Reaches.append (h : Reaches step s u t) (h' : Reaches step t v x) :
    Reaches step s (u ++ v) x := by
  obtain ⟨hu, rfl⟩ := h
  unfold Reaches
  rw [run_append_of_indeterminate step hu]
  exact h'

theorem Reaches.concat (h : Reaches step s u t) (hb : step t b = (.indeterminate, x)) :
    Reaches step s (u ++ [b]) x :=
  h.append (.cons hb .nil)

/-- A loop that takes every symbol of `v` and pushes it. -/
theorem Reaches.loop {ρ : Type w} {f : ρ → σ} {push : ρ → β → ρ} {r : ρ}
    (h : ∀ r, ∀ b ∈ v, step (f r) b = (.indeterminate, f (push r b))) :
    Reaches step (f r) v (f (v.foldl push r)) := by
  induction v generalizing r with
  | nil => exact .nil
  | cons b v ih =>
    apply Reaches.cons (h r b List.mem_cons_self)
    apply ih
    intro r c hc
    exact h r c (List.mem_cons_of_mem b hc)

end Basic

section Simulation
variable {step : σ → β → Tribool × σ} {step' : τ → β → Tribool × τ}
variable (R S : σ → τ → Prop)

/-- Every symbol fed to an undecided recogniser, and the state it is fed in, satisfy `P`. -/
def Fed (step : σ → β → Tribool × σ) (P : σ → β → Prop) (s : σ) (w : List β) : Prop :=
  ∀ u b v, w = u ++ b :: v → (run step s u).verdict = .indeterminate → P (run step s u).state b

theorem Fed.cons_of_indeterminate {P : σ → β → Prop} {s t : σ} {b : β} {w : List β}
    (h : Fed step P s (b :: w)) (hs : step s b = (.indeterminate, t)) : Fed step P t w := by
  intro u c v he hu
  subst w
  have := h (b :: u) c v rfl
  rw [run_cons_indeterminate step hs] at this
  exact this hu

theorem Fed.of_append {P : σ → β → Prop} {s : σ} {u v : List β} (h : Fed step P s (u ++ v)) :
    Fed step P s u := by
  intro x b y he hx
  refine h x b (y ++ v) ?_ hx
  rw [he, List.append_assoc, List.cons_append]

/-- What is fed to a recogniser is fed to one that stays undecided with it. -/
theorem Fed.transfer {step' : τ → β → Tribool × τ} {P : σ → β → Prop} {P' : τ → β → Prop}
    {s : σ} {t : τ} {w : List β} (hw : Fed step' P' t w)
    (h : ∀ u b, (run step s u).verdict = .indeterminate →
      (run step' t u).verdict = .indeterminate ∧
        (P' (run step' t u).state b → P (run step s u).state b)) : Fed step P s w := by
  intro u b v he hu
  obtain ⟨hu', hP⟩ := h u b hu
  exact hP (hw u b v he hu')

/-- While a run is undecided, it has not been answered yes or no at any symbol. -/
theorem fed_undecided {s : σ} {w : List β} (h : (run step s w).verdict = .indeterminate) :
    Fed step (fun s b => (step s b).1 = .indeterminate) s w := by
  intro u b v he hu
  subst w
  by_contra hb
  rw [run_append_of_indeterminate step hu] at h
  rcases hs : step (run step s u).state b with ⟨x, t⟩
  rw [hs] at hb
  rw [run_cons_decided step hs hb] at h
  exact hb h

/-- One step of two recognisers agrees: the same answer, related states while undecided and
states related by `S` after a yes. -/
def StepAgrees (step : σ → β → Tribool × σ) (step' : τ → β → Tribool × τ)
    (R S : σ → τ → Prop) (s : σ) (t : τ) (b : β) : Prop :=
  (step s b).1 = (step' t b).1 ∧
    ((step s b).1 = .indeterminate → R (step s b).2 (step' t b).2) ∧
    ((step s b).1 = .yes → S (step s b).2 (step' t b).2)

/-- Two recognisers that agree on every symbol satisfying `P` agree on words fed such. -/
theorem run_simulates {P : σ → β → Prop}
    (h : ∀ s t b, R s t → P s b → StepAgrees step step' R S s t b)
    {s : σ} {t : τ} (hst : R s t) (w : List β) (hw : Fed step P s w) :
    (run step s w).verdict = (run step' t w).verdict ∧
      (run step s w).consumed = (run step' t w).consumed ∧
      ((run step s w).verdict = .indeterminate → R (run step s w).state (run step' t w).state) ∧
      ((run step s w).verdict = .yes → S (run step s w).state (run step' t w).state) := by
  induction s, w using run_induction step generalizing t with
  | nil s => exact ⟨rfl, rfl, fun _ => hst, fun he => Tribool.noConfusion he⟩
  | undecided b w hs ih =>
    obtain ⟨hv, hR, -⟩ := h _ t b hst (hw [] b w rfl rfl)
    rcases ht : step' t b with ⟨v', t₁⟩
    rw [hs, ht] at hv hR
    obtain rfl : _ = v' := hv
    obtain ⟨h1, h2, h3, h4⟩ := ih (hR rfl) (hw.cons_of_indeterminate hs)
    rw [run_cons_indeterminate step hs, run_cons_indeterminate step' ht]
    exact ⟨h1, congrArg (· + 1) h2, h3, h4⟩
  | decided b w hs hi =>
    obtain ⟨hv, -, hS⟩ := h _ t b hst (hw [] b w rfl rfl)
    rcases ht : step' t b with ⟨v', t₁⟩
    rw [hs, ht] at hv hS
    obtain rfl : _ = v' := hv
    rw [run_cons_decided step hs hi, run_cons_decided step' ht hi]
    exact ⟨rfl, rfl, fun he => absurd he hi, hS⟩

end Simulation

/-- `Lang s w (v, a)`: from state `s` the word `w` is still to be read, and reading it gives
the answer `v` and the result `a`. A no need not come from a word of the language: it may
also be the first symbol after which there is none. Every state that satisfies the invariant
has some word to read, so none is a dead end. -/
structure Describes (step : σ → β → Tribool × σ) (Inv : σ → Prop) (result : σ → α)
    (Lang : σ → List β → Tribool × α → Prop) : Prop where
  nil : ∀ {s}, Inv s → ∀ o, ¬ Lang s [] o
  inv : ∀ {s b t}, Inv s → step s b = (.indeterminate, t) → Inv t
  indeterminate : ∀ {s b t}, Inv s → step s b = (.indeterminate, t) →
    ∀ w o, Lang s (b :: w) o ↔ Lang t w o
  decided : ∀ {s b t v}, Inv s → step s b = (v, t) → v ≠ .indeterminate →
    (∀ w o, Lang s (b :: w) o ↔ w = [] ∧ o = (v, result t)) ∨
      (v = .no ∧ ∀ w o, ¬ Lang s (b :: w) o)
  live : ∀ {s}, Inv s → ∃ w o, Lang s w o

/-- Some non-empty continuation of `w` is in the language. -/
def ProperPrefix (L : List β → Prop) (w : List β) : Prop := ∃ x, x ≠ [] ∧ L (w ++ x)

/-- No continuation of `w`, not even the empty one, is in the language. -/
def Dead (L : List β → Prop) (w : List β) : Prop := ∀ x, ¬ L (w ++ x)

namespace Describes
variable {step : σ → β → Tribool × σ} {Inv : σ → Prop} {result : σ → α}
variable {Lang : σ → List β → Tribool × α → Prop}
variable (h : Describes step Inv result Lang)
include h

theorem inv_of_indeterminate {s : σ} {u : List β} (hs : Inv s)
    (hu : (run step s u).verdict = .indeterminate) : Inv (run step s u).state := by
  apply run_invariant step (I := fun _ s => Inv s) (u := []) _ hs hu
  intro _ s b t hs hb
  exact h.inv hs hb

theorem lang_append_of_indeterminate {s : σ} {u : List β} (hs : Inv s)
    (hu : (run step s u).verdict = .indeterminate) (w : List β) (o : Tribool × α) :
    Lang s (u ++ w) o ↔ Lang (run step s u).state w o := by
  induction s, u using run_induction step with
  | nil s => exact Iff.rfl
  | undecided b u hb ih =>
    rw [run_cons_indeterminate step hb] at hu ⊢
    rw [List.cons_append, h.indeterminate hs hb]
    exact ih (h.inv hs hb) hu
  | decided b u hb hv =>
    rw [run_cons_decided step hb hv] at hu
    exact absurd hu hv

/-- A run decided at its last symbol has read a word of the language or left it. -/
theorem lang_append_of_decided {s : σ} {u : List β} (hs : Inv s)
    (hu : (run step s u).verdict ≠ .indeterminate)
    (hk : (run step s u).consumed = u.length) :
    (∀ w o, Lang s (u ++ w) o ↔
      w = [] ∧ o = ((run step s u).verdict, result (run step s u).state)) ∨
      ((run step s u).verdict = .no ∧ ∀ w o, ¬ Lang s (u ++ w) o) := by
  induction s, u using run_induction step with
  | nil s => exact absurd rfl hu
  | undecided b u hb ih =>
    rw [run_cons_indeterminate step hb] at hu hk ⊢
    simp only [List.cons_append, h.indeterminate hs hb]
    exact ih (h.inv hs hb) hu (Nat.succ.inj hk)
  | decided b u hb hv =>
    rw [run_cons_decided step hb hv] at hk ⊢
    obtain rfl : u = [] := List.eq_nil_of_length_eq_zero (Nat.succ.inj hk).symm
    exact h.decided hs hb hv

/-- A prefix of the input that is in the language is where the run stops. -/
theorem run_of_lang {s : σ} (hs : Inv s) {w : List β} {k : Nat} {o : Tribool × α}
    (hk : k ≤ w.length) (hL : Lang s (w.take k) o) :
    (run step s w).verdict = o.1 ∧ (run step s w).consumed = k ∧
      result (run step s w).state = o.2 ∧ o.1 ≠ .indeterminate := by
  have hlen : (w.take k).length = k := List.length_take_of_le hk
  have hd : (run step s (w.take k)).verdict ≠ .indeterminate := by
    intro hv
    rw [← List.append_nil (w.take k), h.lang_append_of_indeterminate hs hv] at hL
    exact h.nil (h.inv_of_indeterminate hs hv) o hL
  have ht := run_take_consumed step hd
  have hle := consumed_le step s (w.take k)
  have hcut := List.length_take_of_le hle
  rw [← List.take_append_drop (run step s (w.take k)).consumed (w.take k)] at hL
  -- What is left of the word after the deciding symbol is empty.
  rcases h.lang_append_of_decided hs (by rwa [ht]) (by rw [ht, hcut]) with hword | ⟨-, hnone⟩
  · obtain ⟨hnil, rfl⟩ := (hword _ _).mp hL
    have hrun := run_append_of_decided step hd (w.drop k)
    rw [List.take_append_drop] at hrun
    rw [ht, hrun]
    have := List.drop_eq_nil_iff.mp hnil
    exact ⟨rfl, by omega, rfl, hd⟩
  · exact absurd hL (hnone _ _)

theorem lang_of_yes {s : σ} (hs : Inv s) {w : List β} (hv : (run step s w).verdict = .yes) :
    Lang s (w.take (run step s w).consumed) (.yes, result (run step s w).state) := by
  have hd : (run step s w).verdict ≠ .indeterminate := by rw [hv]; decide
  have ht := run_take_consumed step hd
  have hcut := List.length_take_of_le (consumed_le step s w)
  rcases h.lang_append_of_decided hs (by rwa [ht]) (by rw [ht, hcut]) with hword | ⟨hno, -⟩
  · have hL := (hword [] _).mpr ⟨rfl, rfl⟩
    rwa [List.append_nil, ht, hv] at hL
  · rw [ht, hv] at hno
    exact Tribool.noConfusion hno

theorem accepted_iff {s : σ} (hs : Inv s) (w : List β) (k : Nat) :
    ((run step s w).verdict = .yes ∧ (run step s w).consumed = k) ↔
      k ≤ w.length ∧ ∃ a, Lang s (w.take k) (.yes, a) := by
  constructor
  · rintro ⟨hv, rfl⟩
    exact ⟨consumed_le step s w, _, h.lang_of_yes hs hv⟩
  · rintro ⟨hk, a, hL⟩
    obtain ⟨hv, hcons, -⟩ := h.run_of_lang hs hk hL
    exact ⟨hv, hcons⟩

theorem indeterminate_iff {s : σ} (hs : Inv s) (w : List β) :
    (run step s w).verdict = .indeterminate ↔ ProperPrefix (fun x => ∃ o, Lang s x o) w := by
  constructor
  · intro hv
    have hinv := h.inv_of_indeterminate hs hv
    obtain ⟨x, o, hx⟩ := h.live hinv
    refine ⟨x, ?_, o, (h.lang_append_of_indeterminate hs hv x o).mpr hx⟩
    rintro rfl
    exact h.nil hinv o hx
  · rintro ⟨x, hx, o, hL⟩
    rw [← List.take_length (l := w ++ x)] at hL
    obtain ⟨-, hk, -⟩ := h.run_of_lang hs (Nat.le_refl _) hL
    have hlt : w.length < (run step s (w ++ x)).consumed := by
      have := List.length_pos_iff.mpr hx
      rw [hk, List.length_append]
      omega
    have := run_take_of_lt step hlt
    rwa [List.take_left] at this

theorem rejected_iff {s : σ} (hs : Inv s) (w : List β) (k : Nat) :
    ((run step s w).verdict = .no ∧ (run step s w).consumed = k) ↔
      0 < k ∧ k ≤ w.length ∧ ProperPrefix (fun x => ∃ o, Lang s x o) (w.take (k - 1)) ∧
        ((∃ a, Lang s (w.take k) (.no, a)) ∨ Dead (fun x => ∃ o, Lang s x o) (w.take k)) := by
  constructor
  · rintro ⟨hv, rfl⟩
    have hd : (run step s w).verdict ≠ .indeterminate := by rw [hv]; decide
    have ht := run_take_consumed step hd
    have hcut := List.length_take_of_le (consumed_le step s w)
    have hpos := consumed_pos step hd
    refine ⟨hpos, consumed_le step s w, ?_, ?_⟩
    · exact (h.indeterminate_iff hs _).mp (run_take_of_lt step (by omega))
    · rcases h.lang_append_of_decided hs (by rwa [ht]) (by rw [ht, hcut]) with hword | ⟨-, hnone⟩
      · have hL := (hword [] _).mpr ⟨rfl, rfl⟩
        rw [List.append_nil, ht, hv] at hL
        exact Or.inl ⟨_, hL⟩
      · exact Or.inr fun x ⟨o, hL⟩ => hnone x o hL
  · intro h
    rcases h with ⟨hpos, hk, hpre, ⟨a, hL⟩ | hdead⟩
    · obtain ⟨hv, hcons, -⟩ := h.run_of_lang hs hk hL
      exact ⟨hv, hcons⟩
    obtain ⟨n, rfl⟩ := Nat.exists_eq_succ_of_ne_zero (Nat.ne_of_gt hpos)
    have hbefore : (run step s (w.take n)).verdict = .indeterminate :=
      (h.indeterminate_iff hs _).mpr hpre
    have hcut : w.take (n + 1) = w.take n ++ [w[n]] := List.take_succ_eq_append_getElem hk
    have hlen : (w.take n).length = n := List.length_take_of_le (Nat.le_of_succ_le hk)
    have hd : (run step s (w.take (n + 1))).verdict ≠ .indeterminate := by
      intro hv
      obtain ⟨x, _, hL⟩ := (h.indeterminate_iff hs _).mp hv
      exact hdead x hL
    have hcons : (run step s (w.take (n + 1))).consumed = n + 1 := by
      rw [hcut] at hd ⊢
      rw [consumed_of_first_decided step hbefore hd]
      simp [hlen]
    have hrun := run_append_of_decided step hd (w.drop (n + 1))
    rw [List.take_append_drop] at hrun
    rw [hrun]
    refine ⟨?_, hcons⟩
    rcases h.lang_append_of_decided hs hd (by rw [hcons, List.length_take_of_le hk])
      with hword | ⟨hno, -⟩
    · exact absurd ⟨_, (hword [] _).mpr ⟨rfl, rfl⟩⟩ (hdead [])
    · exact hno

end Describes

end AsioExamples.Recogniser
