import AsioExamples.Http.Server4.HeadReading

/-!
# Request framing of the coroutine parser

A request is a head whose Content-Length values can all be cast, followed by as many bytes as
the last of them says. The parser accepts exactly these, and it refuses a head with a value
that cannot be cast at the last byte of that head.
-/

namespace AsioExamples.Http.Server4.RequestParser

set_option autoImplicit false

open Recogniser

/-- Equality of header names up to the case of ASCII letters. -/
def SameName (a b : Bytes) : Prop := a.map tolower = b.map tolower

instance (a b : Bytes) : Decidable (SameName a b) := inferInstanceAs (Decidable (_ = _))

theorem headersEqual_iff (a b : Bytes) : headersEqual a b = true ↔ SameName a b := by
  unfold headersEqual SameName
  by_cases hl : a.length = b.length
  · simp only [ne_eq, hl, not_true_eq_false, if_false]
    induction a generalizing b with
    | nil =>
      obtain rfl : b = [] := List.eq_nil_of_length_eq_zero hl.symm
      simp
    | cons x a ih =>
      cases b with
      | nil => simp at hl
      | cons y b =>
        have := ih b (Nat.succ.inj hl)
        simp [tolowerCompare, ← this]
  · simp only [ne_eq, hl, not_false_eq_true, if_true, Bool.false_eq_true, false_iff]
    intro he
    have := congrArg List.length he
    simp only [List.length_map] at this
    exact hl this

def contentLengths (hs : List Header) : List Bytes :=
  (hs.filter fun h => decide (SameName h.name contentLengthName)).map Header.value

section Scan
variable (cast : Bytes → Option Nat)

def Castable (hs : List Header) : Prop := ∀ v ∈ contentLengths hs, (cast v).isSome

/-- What the last Content-Length is cast to, or `n` when there is none. -/
def lastLength (hs : List Header) (n : Nat) : Nat :=
  match (contentLengths hs).getLast? with
  | some v => (cast v).getD 0
  | none => n

def bodyLength (hs : List Header) : Nat := lastLength cast hs 0

theorem contentLengths_cons (h : Header) (hs : List Header) :
    contentLengths (h :: hs) =
      if SameName h.name contentLengthName then h.value :: contentLengths hs
      else contentLengths hs := by
  unfold contentLengths
  split <;> simp [*]

theorem scanHeaders_castable {hs : List Header} (h : Castable cast hs) (n : Nat) :
    scanHeaders cast hs n = (true, lastLength cast hs n) := by
  induction hs generalizing n with
  | nil => rfl
  | cons x hs ih =>
    unfold Castable at h
    simp only [scanHeaders, headersEqual_iff, lastLength, contentLengths_cons] at h ⊢
    by_cases hx : SameName x.name contentLengthName
    · simp only [hx, if_true, List.mem_cons, forall_eq_or_imp] at h ⊢
      obtain ⟨m, hm⟩ := Option.isSome_iff_exists.mp h.1
      rw [hm]
      simp only [ih h.2, lastLength]
      cases hl : (contentLengths hs).getLast? with
      | none =>
        have : contentLengths hs = [] := List.getLast?_eq_none_iff.mp hl
        simp [this, hm]
      | some v => simp [List.getLast?_cons, hl]
    · simp only [hx, if_false] at h ⊢
      exact ih h n

theorem scanHeaders_not_castable {hs : List Header} (h : ¬ Castable cast hs) (n : Nat) :
    (scanHeaders cast hs n).1 = false := by
  induction hs generalizing n with
  | nil => exact absurd (by simp [Castable, contentLengths]) h
  | cons x hs ih =>
    unfold Castable at h
    simp only [scanHeaders, headersEqual_iff, contentLengths_cons] at h ⊢
    by_cases hx : SameName x.name contentLengthName
    · simp only [hx, if_true, List.mem_cons, forall_eq_or_imp] at h ⊢
      cases hm : cast x.value with
      | none => rfl
      | some m => exact ih (fun hc => h ⟨by simp [hm], hc⟩) m
    · simp only [hx, if_false] at h ⊢
      exact ih h n

end Scan

section Framing
variable (cast : Bytes → Option Nat)

/-- What may follow a head whose request is `r`, and the answer it gets: a body of the right
length, or nothing at all when a length cannot be cast. -/
def Frames (r : Http.Request) (body : Bytes) (o : Tribool × Request) : Prop :=
  (Castable cast r.headers ∧ body.length = bodyLength cast r.headers ∧ o = (.yes, ⟨r, body⟩)) ∨
    (¬ Castable cast r.headers ∧ body = [] ∧ o = (.no, ⟨r, []⟩))

/-- What is left to read at each resumption. The content loop takes its first byte untested,
and a finished coroutine takes any byte. -/
def Lang (p : Parser × Request) (w : Bytes) (o : Tribool × Request) : Prop :=
  match p.1.resume with
  | .head y => ∃ u body r, w = u ++ body ∧
      residual dialect (stageOf y) (seen p.2.toRequest y) u r ∧ Frames cast r body o
  | .content => w.length = max 1 (p.1.contentLength - p.2.content.length) ∧
      o = (.yes, { p.2 with content := p.2.content ++ w })
  | .done => w.length = 1 ∧ o = (.yes, p.2)

/-- In the head no content has been gathered and no length has been read. -/
def Inv (p : Parser × Request) : Prop :=
  ∀ y, p.1.resume = .head y →
    Started p.2.toRequest y ∧ (y ≠ .start → p.1.contentLength = 0 ∧ p.2.content = [])

theorem inv_fresh (n : Nat) (req : Request) : Inv (Parser.fresh n, req) := by
  intro y hy
  obtain rfl : HeadYield.start = y := Resume.head.inj hy
  exact ⟨trivial, fun h => absurd rfl h⟩

theorem frames_exists (r : Http.Request) : ∃ body o, Frames cast r body o := by
  by_cases hc : Castable cast r.headers
  · exact ⟨List.replicate (bodyLength cast r.headers) 0, _, Or.inl ⟨hc, by simp, rfl⟩⟩
  · exact ⟨[], _, Or.inr ⟨hc, rfl, rfl⟩⟩

theorem contentLoop_cases (n : Nat) (req : Request) :
    (req.content.length < n ∧ contentLoop n req = (.indeterminate, ⟨.content, n⟩, req)) ∨
      (n ≤ req.content.length ∧ contentLoop n req = (.yes, ⟨.done, n⟩, req)) := by
  unfold contentLoop
  split
  · exact Or.inl ⟨‹_›, rfl⟩
  · exact Or.inr ⟨Nat.le_of_not_lt ‹_›, rfl⟩

theorem consume_head {p : Parser × Request} (hp : Inv p) {y : HeadYield}
    (hy : p.1.resume = .head y) (c : UInt8) :
    consume cast p c = match resumeHead c p.2.toRequest y with
      | .yield at_ r => (.indeterminate, ⟨.head at_, 0⟩, ⟨r, []⟩)
      | .returnFalse r => (.no, ⟨.done, 0⟩, ⟨r, []⟩)
      | .scan r => scan cast 0 ⟨r, []⟩ := by
  obtain ⟨⟨resume, n⟩, ⟨r, content⟩⟩ := p
  obtain rfl : resume = .head y := hy
  have hne := (hp y rfl).2
  have hlength : (if y = .start then 0 else n) = 0 := by
    by_cases hs : y = .start
    · rw [if_pos hs]
    · rw [if_neg hs]
      exact (hne hs).1
  have hcontent : (if y = .start then [] else content) = [] := by
    by_cases hs : y = .start
    · rw [if_pos hs]
    · rw [if_neg hs]
      exact (hne hs).2
  cases he : resumeHead c r y with
  | yield at_ r => simp only [consume, he, hlength, hcontent]
  | returnFalse r => simp only [consume, he, hlength, hcontent]
  | scan r => simp only [consume, he, hlength, hcontent]

theorem lang_head_cons {p : Parser × Request} (hp : Inv p) {y : HeadYield}
    (hy : p.1.resume = .head y) (c : UInt8) (w : Bytes) (o : Tribool × Request) :
    Lang cast p (c :: w) o ↔ match resumeHead c p.2.toRequest y with
      | .yield at_ r => Lang cast (⟨.head at_, 0⟩, ⟨r, []⟩) w o
      | .returnFalse _ => False
      | .scan r => Frames cast r w o := by
  have hm := resumeHead_matches c p.2.toRequest (hp y hy).1
  have hcut : Lang cast p (c :: w) o ↔ ∃ u body r, w = u ++ body ∧
      Leads dialect (advance dialect (stageOf y, seen p.2.toRequest y) c) u r ∧
      Frames cast r body o := by
    simp only [Lang, hy]
    constructor
    · rintro ⟨u, body, r, he, hres, hf⟩
      cases u with
      | nil => exact absurd hres (not_residual_nil _ _ _ _)
      | cons b u =>
        obtain ⟨rfl, rfl⟩ := List.cons.inj he
        exact ⟨u, body, r, rfl, (residual_cons _ _ _ _ _ _).mp hres, hf⟩
    · rintro ⟨u, body, r, rfl, hres, hf⟩
      exact ⟨c :: u, body, r, rfl, (residual_cons _ _ _ _ _ _).mpr hres, hf⟩
  rw [hcut]
  cases he : resumeHead c p.2.toRequest y with
  | yield at_ r =>
    rw [he] at hm
    obtain ⟨ha, -, hne⟩ := hm
    rw [ha]
    simp only [Leads, Lang, seen, hne, if_false]
  | returnFalse r =>
    rw [he] at hm
    simp only [iff_false]
    rintro ⟨u, body, q, -, hl, -⟩
    rcases ha : advance dialect (stageOf y, seen p.2.toRequest y) c with ⟨v, a⟩
    rw [ha] at hm hl
    obtain rfl : v = .no := hm
    exact hl
  | scan r =>
    rw [he] at hm
    have ha : advance dialect (stageOf y, seen p.2.toRequest y) c = (.yes, .newline3, r) := hm
    rw [ha]
    simp only [Leads]
    constructor
    · rintro ⟨u, body, q, rfl, ⟨rfl, rfl⟩, hf⟩
      exact hf
    · exact fun hf => ⟨[], w, r, rfl, ⟨rfl, rfl⟩, hf⟩

theorem lang_content_cons {p : Parser × Request} (hp : p.1.resume = .content) (c : UInt8)
    (w : Bytes) (o : Tribool × Request) :
    Lang cast p (c :: w) o ↔
      w.length = p.1.contentLength - (p.2.content.length + 1) ∧
        o = (.yes, { p.2 with content := p.2.content ++ (c :: w) }) := by
  simp only [Lang, hp, List.length_cons]
  refine and_congr_left fun _ => ?_
  omega

/-- The scan goes on with the content loop, or ends the parse on the spot. -/
theorem scan_cases (r : Http.Request) :
    (∃ n, scan cast 0 ⟨r, []⟩ = (.indeterminate, ⟨.content, n⟩, ⟨r, []⟩) ∧
      ∀ w o, Frames cast r w o ↔ Lang cast (⟨.content, n⟩, ⟨r, []⟩) w o) ∨
    (∃ v q, scan cast 0 ⟨r, []⟩ = (v, q, ⟨r, []⟩) ∧ v ≠ .indeterminate ∧
      ∀ w o, Frames cast r w o ↔ w = [] ∧ o = (v, ⟨r, []⟩)) := by
  unfold scan Frames
  by_cases hc : Castable cast r.headers
  · rw [scanHeaders_castable cast hc]
    change (∃ n, contentLoop (bodyLength cast r.headers) _ = _ ∧ _) ∨ _
    rcases contentLoop_cases (bodyLength cast r.headers) ⟨r, []⟩ with ⟨hlt, he⟩ | ⟨hge, he⟩
    · refine Or.inl ⟨_, he, fun w o => ?_⟩
      simp only [List.length_nil] at hlt
      simp only [hc, not_true_eq_false, true_and, false_and, or_false, Lang, List.length_nil,
        Nat.sub_zero, Nat.max_eq_right hlt, List.nil_append]
    · refine Or.inr ⟨_, _, he, by decide, fun w o => ?_⟩
      have hz : bodyLength cast r.headers = 0 := Nat.le_zero.mp hge
      simp only [hc, hz, not_true_eq_false, true_and, false_and, or_false,
        List.length_eq_zero_iff]
      refine and_congr_right fun hw => ?_
      rw [hw]
  · refine Or.inr ⟨.no, ⟨.done, (scanHeaders cast r.headers 0).2⟩, ?_, by decide, ?_⟩
    · have hf := scanHeaders_not_castable cast hc 0
      rcases hs : scanHeaders cast r.headers 0 with ⟨b, n⟩
      rw [hs] at hf
      obtain rfl : b = false := hf
      rfl
    · simp [hc]

theorem consume_cases {p : Parser × Request} (hp : Inv p) (c : UInt8) :
    (∃ t, consume cast p c = (.indeterminate, t) ∧ Inv t ∧
      ∀ w o, Lang cast p (c :: w) o ↔ Lang cast t w o) ∨
    (∃ v t, consume cast p c = (v, t) ∧ v ≠ .indeterminate ∧
      ((∀ w o, Lang cast p (c :: w) o ↔ w = [] ∧ o = (v, t.2)) ∨
        (v = .no ∧ ∀ w o, ¬ Lang cast p (c :: w) o))) := by
  have hcontent : ∀ n q, Inv (⟨.content, n⟩, q) := fun n q y hy => Resume.noConfusion hy
  cases hr : p.1.resume with
  | done =>
    refine Or.inr ⟨.yes, p, by simp [consume, hr], by decide, Or.inl fun w o => ?_⟩
    simp [Lang, hr]
  | content =>
    have hstep : consume cast p c =
        contentLoop p.1.contentLength { p.2 with content := p.2.content ++ [c] } := by
      simp [consume, hr]
    have hlang := lang_content_cons cast hr c
    rcases contentLoop_cases p.1.contentLength { p.2 with content := p.2.content ++ [c] } with
      ⟨hlt, he⟩ | ⟨hge, he⟩
    · refine Or.inl ⟨_, hstep.trans he, hcontent _ _, fun w o => ?_⟩
      simp only [List.length_append, List.length_singleton] at hlt
      have hmax : max 1 (p.1.contentLength - (p.2.content.length + 1)) =
          p.1.contentLength - (p.2.content.length + 1) := by omega
      rw [hlang]
      simp [Lang, hmax]
    · refine Or.inr ⟨_, _, hstep.trans he, by decide, Or.inl fun w o => ?_⟩
      simp only [List.length_append, List.length_singleton] at hge
      have hz : p.1.contentLength - (p.2.content.length + 1) = 0 := by omega
      rw [hlang, hz, List.length_eq_zero_iff]
      refine and_congr_right fun hw => ?_
      rw [hw]
  | head y =>
    have hstep := consume_head cast hp hr c
    have hlang := lang_head_cons cast hp hr c
    have hm := resumeHead_matches c p.2.toRequest (hp y hr).1
    cases he : resumeHead c p.2.toRequest y with
    | yield at_ r =>
      rw [he] at hstep hm
      simp only [he] at hlang
      refine Or.inl ⟨_, hstep, ?_, hlang⟩
      intro z hz
      obtain rfl : at_ = z := Resume.head.inj hz
      exact ⟨hm.2.1, fun _ => ⟨rfl, rfl⟩⟩
    | returnFalse r =>
      rw [he] at hstep
      simp only [he] at hlang
      exact Or.inr ⟨_, _, hstep, by decide, Or.inr ⟨rfl, fun w o => (hlang w o).mp⟩⟩
    | scan r =>
      rw [he] at hstep
      simp only [he] at hlang
      rcases scan_cases cast r with ⟨n, hs, hf⟩ | ⟨v, q, hs, hv, hf⟩
      · exact Or.inl ⟨_, hstep.trans hs, hcontent _ _, fun w o => (hlang w o).trans (hf w o)⟩
      · exact Or.inr ⟨_, _, hstep.trans hs, hv, Or.inl fun w o => (hlang w o).trans (hf w o)⟩

theorem not_lang_nil {p : Parser × Request} (o : Tribool × Request) : ¬ Lang cast p [] o := by
  unfold Lang
  cases p.1.resume with
  | done => simp
  | content =>
    simp only [List.length_nil]
    omega
  | head y =>
    rintro ⟨u, body, r, he, hres, -⟩
    obtain ⟨rfl, -⟩ := List.append_eq_nil_iff.mp he.symm
    exact not_residual_nil _ _ _ _ hres

theorem lang_exists (p : Parser × Request) : ∃ w o, Lang cast p w o := by
  unfold Lang
  cases p.1.resume with
  | done => exact ⟨[0], _, rfl, rfl⟩
  | content =>
    exact ⟨List.replicate (max 1 (p.1.contentLength - p.2.content.length)) 0, _, by simp, rfl⟩
  | head y =>
    obtain ⟨u, r, hu⟩ := live_residual dialect (stageOf y) (seen p.2.toRequest y)
    obtain ⟨body, o, hf⟩ := frames_exists cast r
    exact ⟨u ++ body, o, u, body, r, rfl, hu, hf⟩

theorem describes_consume : Describes (consume cast) Inv Prod.snd (Lang cast) where
  nil := fun _ => not_lang_nil cast
  inv := by
    intro p c t hp h
    rcases consume_cases cast hp c with ⟨t', he, hinv, -⟩ | ⟨v, t', he, hv, -⟩
    · obtain rfl : t' = t := congrArg Prod.snd (he.symm.trans h)
      exact hinv
    · exact absurd (congrArg Prod.fst (he.symm.trans h)) hv
  indeterminate := by
    intro p c t hp h
    rcases consume_cases cast hp c with ⟨t', he, -, hlang⟩ | ⟨v, t', he, hv, -⟩
    · obtain rfl : t' = t := congrArg Prod.snd (he.symm.trans h)
      exact hlang
    · exact absurd (congrArg Prod.fst (he.symm.trans h)) hv
  decided := by
    intro p c t v hp h hv
    rcases consume_cases cast hp c with ⟨t', he, -, -⟩ | ⟨v', t', he, -, hlang⟩
    · exact absurd (congrArg Prod.fst (h.symm.trans he)) hv
    · obtain ⟨rfl, rfl⟩ := Prod.mk.inj (he.symm.trans h)
      exact hlang
  live := fun {p} _ => lang_exists cast p

/-- A head all of whose lengths can be cast, and a body of the last one. -/
def Framed (w : Bytes) : Prop := ∃ (m : RequestHead) (body : Bytes), m.WellFormed dialect ∧
  Castable cast m.headers ∧ body.length = bodyLength cast m.headers ∧ w = m.bytes ++ body

def Refused (w : Bytes) : Prop :=
  ∃ m : RequestHead, m.WellFormed dialect ∧ ¬ Castable cast m.headers ∧ w = m.bytes

theorem lang_fresh_iff (n : Nat) (req : Request) (w : Bytes) (o : Tribool × Request) :
    Lang cast (Parser.fresh n, req) w o ↔ ∃ (m : RequestHead) (body : Bytes),
      m.WellFormed dialect ∧ w = m.bytes ++ body ∧ Frames cast m.request body o := by
  have hstart : ∀ u r, residual dialect (stageOf .start) (seen req.toRequest .start) u r ↔
      ∃ m : RequestHead, m.WellFormed dialect ∧ u = m.bytes ∧ r = m.request :=
    fun u r => methodStartRule_iff dialect rfl fun _ => rfl
  simp only [Lang, Parser.fresh, hstart]
  constructor
  · rintro ⟨u, body, r, rfl, ⟨m, hm, rfl, rfl⟩, hf⟩
    exact ⟨m, body, hm, rfl, hf⟩
  · rintro ⟨m, body, hm, rfl, hf⟩
    exact ⟨m.bytes, body, m.request, rfl, ⟨m, hm, rfl, rfl⟩, hf⟩

theorem lang_fresh_yes (n : Nat) (req : Request) (w : Bytes) :
    (∃ a, Lang cast (Parser.fresh n, req) w (.yes, a)) ↔ Framed cast w := by
  simp only [lang_fresh_iff, Frames]
  constructor
  · intro h
    rcases h with ⟨a, m, body, hm, rfl, ⟨hc, hl, -⟩ | ⟨-, -, he⟩⟩
    · exact ⟨m, body, hm, hc, hl, rfl⟩
    · exact Tribool.noConfusion (congrArg Prod.fst he)
  · rintro ⟨m, body, hm, hc, hl, rfl⟩
    exact ⟨_, m, body, hm, rfl, Or.inl ⟨hc, hl, rfl⟩⟩

theorem lang_fresh_no (n : Nat) (req : Request) (w : Bytes) :
    (∃ a, Lang cast (Parser.fresh n, req) w (.no, a)) ↔ Refused cast w := by
  simp only [lang_fresh_iff, Frames]
  constructor
  · intro h
    rcases h with ⟨a, m, body, hm, rfl, ⟨-, -, he⟩ | ⟨hc, rfl, -⟩⟩
    · exact Tribool.noConfusion (congrArg Prod.fst he)
    · exact ⟨m, hm, hc, List.append_nil _⟩
  · rintro ⟨m, hm, hc, rfl⟩
    exact ⟨_, m, [], hm, (List.append_nil _).symm, Or.inr ⟨hc, rfl, rfl⟩⟩

theorem lang_fresh_some (n : Nat) (req : Request) :
    (fun w => ∃ o, Lang cast (Parser.fresh n, req) w o) =
      fun w => Framed cast w ∨ Refused cast w := by
  funext w
  rw [← lang_fresh_yes cast n req, ← lang_fresh_no cast n req]
  apply propext
  constructor
  · rintro ⟨⟨v, a⟩, h⟩
    obtain ⟨m, body, -, -, hf⟩ := (lang_fresh_iff cast n req w _).mp h
    rcases hf with ⟨-, -, he⟩ | ⟨-, -, he⟩
    · obtain rfl : v = .yes := congrArg Prod.fst he
      exact Or.inl ⟨a, h⟩
    · obtain rfl : v = .no := congrArg Prod.fst he
      exact Or.inr ⟨a, h⟩
  · intro h
    rcases h with ⟨a, h⟩ | ⟨a, h⟩
    · exact ⟨_, h⟩
    · exact ⟨_, h⟩

/-- A request that is accepted starts the stream with its head. -/
theorem head_of_parse {n : Nat} {req : Request} {w : Bytes}
    (h : (parse cast (Parser.fresh n, req) w).verdict = .yes) :
    ∃ (m : RequestHead) (body : Bytes), m.WellFormed dialect ∧ m.bytes <+: w ∧
      Castable cast m.headers ∧ body.length = bodyLength cast m.headers ∧
      (parse cast (Parser.fresh n, req) w).state.2 = ⟨m.request, body⟩ := by
  have hlang := (describes_consume cast).lang_of_yes (inv_fresh n req) h
  obtain ⟨m, body, hm, hw, hframes⟩ := (lang_fresh_iff cast n req _ _).mp hlang
  have hstart : m.bytes <+: w :=
    (hw ▸ List.prefix_append m.bytes body).trans (List.take_prefix _ w)
  rcases hframes with ⟨hcast, hlen, heq⟩ | ⟨-, -, heq⟩
  · exact ⟨m, body, hm, hstart, hcast, hlen, congrArg Prod.snd heq⟩
  · exact Tribool.noConfusion (congrArg Prod.fst heq)

/-- A fresh parser accepts exactly the framed requests, whatever the request object held
before; it says no at the end of a head with a bad length, or at the first byte after which
nothing is possible; and after a yes the request is the head's with the body as content. -/
theorem parse_frames_request (n : Nat) (req : Request) (w : Bytes) :
    let o := parse cast (Parser.fresh n, req) w
    (∀ k, o.verdict = .yes ∧ o.consumed = k ↔ k ≤ w.length ∧ Framed cast (w.take k)) ∧
    (o.verdict = .indeterminate ∧ o.consumed = w.length ↔
      ProperPrefix (fun x => Framed cast x ∨ Refused cast x) w) ∧
    (∀ k, o.verdict = .no ∧ o.consumed = k ↔
      0 < k ∧ k ≤ w.length ∧
        ProperPrefix (fun x => Framed cast x ∨ Refused cast x) (w.take (k - 1)) ∧
        (Refused cast (w.take k) ∨
          Dead (fun x => Framed cast x ∨ Refused cast x) (w.take k))) ∧
    (∀ (m : RequestHead) (body : Bytes), m.WellFormed dialect → Castable cast m.headers →
      body.length = bodyLength cast m.headers → o.verdict = .yes →
      w.take o.consumed = m.bytes ++ body → o.state.2 = ⟨m.request, body⟩) := by
  intro o
  have hd := describes_consume cast
  have hinv := inv_fresh n req
  have hsome := lang_fresh_some cast n req
  refine ⟨fun k => ?_, ?_, fun k => ?_, ?_⟩
  · rw [← lang_fresh_yes cast n req]
    exact hd.accepted_iff hinv w k
  · rw [← hsome, ← hd.indeterminate_iff hinv]
    exact ⟨fun h => h.1, fun h => ⟨h, consumed_of_indeterminate _ h⟩⟩
  · rw [← hsome, ← lang_fresh_no cast n req]
    exact hd.rejected_iff hinv w k
  · intro m body hm hc hl hyes hw
    have hL := (lang_fresh_iff cast n req (w.take o.consumed) (.yes, ⟨m.request, body⟩)).mpr
      ⟨m, body, hm, hw, Or.inl ⟨hc, hl, rfl⟩⟩
    exact (hd.run_of_lang hinv (consumed_le _ _ w) hL).2.2.1

end Framing

end AsioExamples.Http.Server4.RequestParser
