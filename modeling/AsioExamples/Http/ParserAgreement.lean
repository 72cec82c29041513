import AsioExamples.Http.Server.RequestLanguage
import AsioExamples.Http.Server4.HeadScan

/-!
# The state machine and the coroutine agree on request heads

Both parsers are readers of request heads in dialects of their own, so they are compared
through the reader. The heads of the coroutine's dialect are those of the state machine's
that have a uri and only ASCII in their header values.
-/

namespace AsioExamples.Http

set_option autoImplicit false

open Recogniser

section Dialects

def Ascii (v : Bytes) : Prop := ∀ c ∈ v, c.toNat < 128

theorem valueByte_iff (c : UInt8) :
    Server4.RequestParser.dialect.valueByte c = true ↔
      Server.RequestParser.dialect.valueByte c = true ∧ c.toNat < 128 := by
  rw [← isChar_iff]
  simp only [Server4.RequestParser.dialect, Server.RequestParser.dialect, Bool.and_eq_true]
  exact and_comm

theorem lineOk_iff (l : Line) :
    l.Ok Server4.RequestParser.dialect ↔ l.Ok Server.RequestParser.dialect ∧ Ascii l.text := by
  cases l with
  | header name value =>
    simp only [Line.Ok, Line.text, valueByte_iff, Ascii, imp_and, forall_and, and_assoc]
  | continuation blanks text =>
    simp only [Line.Ok, Line.text, valueByte_iff, Ascii, imp_and, forall_and, and_assoc,
      and_congr_right_iff]
    exact fun _ _ _ => and_comm

theorem wellFormed_iff (m : RequestHead) :
    m.WellFormed Server4.RequestParser.dialect ↔ m.WellFormed Server.RequestParser.dialect ∧
      m.uri ≠ [] ∧ ∀ h ∈ m.headers, Ascii h.value := by
  have hvalues : (∀ l ∈ m.lines.head?, l.isContinuation = false) →
      ((∀ h ∈ m.headers, Ascii h.value) ↔ ∀ l ∈ m.lines, Ascii l.text) := by
    intro hfirst
    unfold RequestHead.headers Ascii
    rw [Line.forall_foldl_addTo (P := fun c => c.toNat < 128) fun _ => hfirst]
    simp
  constructor
  · intro hm
    have hok := fun l hl => (lineOk_iff l).mp (hm.lines_ok l hl)
    refine ⟨{ hm with uri_ne := fun h => Bool.noConfusion h, lines_ok := fun l hl => (hok l hl).1 },
      hm.uri_ne rfl, (hvalues hm.first_line).mpr fun l hl => (hok l hl).2⟩
  · rintro ⟨hm, hne, hascii⟩
    have hok := (hvalues hm.first_line).mp hascii
    exact { hm with
      uri_ne := fun _ => hne
      lines_ok := fun l hl => (lineOk_iff l).mpr ⟨hm.lines_ok l hl, hok l hl⟩ }

end Dialects

section Simulation

/-- The stages up to the slash of the version. -/
def Stage.beforeVersion : Stage → Bool
  | .methodStart | .method | .uri | .h | .t1 | .t2 | .p | .slash => true
  | _ => false

/-- Requests that agree on all that has been read; the versions count from the slash on. -/
structure SameHead (s : Stage) (r r' : Request) : Prop where
  method : r.method = r'.method
  uri : r.uri = r'.uri
  headers : r.headers = r'.headers
  versions : s.beforeVersion = false →
    r.httpVersionMajor = r'.httpVersionMajor ∧ r.httpVersionMinor = r'.httpVersionMinor

theorem SameHead.refl (s : Stage) (r : Request) : SameHead s r r :=
  ⟨rfl, rfl, rfl, fun _ => ⟨rfl, rfl⟩⟩

theorem SameHead.eq {s : Stage} {r r' : Request} (h : SameHead s r r')
    (hs : s.beforeVersion = false) : r = r' := by
  obtain ⟨hmajor, hminor⟩ := h.versions hs
  cases r
  cases r'
  exact Request.mk.injEq .. ▸ ⟨h.method, h.uri, hmajor, hminor, h.headers⟩

theorem advance_congr {d d' : Dialect} {s : Stage} {r : Request} {c : UInt8}
    (huri : s = .uri → c = chr ' ' → r.uri ≠ [])
    (hvalue : s = .value ∨ s = .lws → d.valueByte c = d'.valueByte c) :
    advance d (s, r) c = advance d' (s, r) c := by
  have hadvance : s = .value ∨ s = .lws → advanceValue d s r c = advanceValue d' s r c := by
    intro hs
    unfold advanceValue
    rw [hvalue hs]
  cases s with
  | uri =>
    unfold advance
    by_cases hc : c = chr ' '
    · have := huri rfl hc
      simp [hc, this]
    · simp [hc]
  | value => exact hadvance (.inl rfl)
  | lws =>
    change (if isBlank c then _ else advanceValue d .lws r c) = _
    rw [hadvance (.inr rfl)]
    rfl
  | _ => rfl

/-- Two answers of the reader that differ in versions not yet set only. -/
def SameAnswer (a a' : Tribool × Stage × Request) : Prop :=
  a.1 = a'.1 ∧ a.2.1 = a'.2.1 ∧ SameHead a.2.1 a.2.2 a'.2.2

theorem sameAnswer_ite {p : Prop} [Decidable p] {a a' b b' : Tribool × Stage × Request}
    (ha : SameAnswer a a') (hb : SameAnswer b b') :
    SameAnswer (if p then a else b) (if p then a' else b') := by
  split
  · exact ha
  · exact hb

theorem advance_sameAnswer (d : Dialect) {s : Stage} {r r' : Request} (h : SameHead s r r')
    (c : UInt8) : SameAnswer (advance d (s, r) c) (advance d (s, r') c) := by
  by_cases hs : s.beforeVersion = true
  · obtain ⟨hmethod, huri, hheaders, -⟩ := h
    have hkeep : ∀ v t, t.beforeVersion = true → SameAnswer (v, t, r) (v, t, r') :=
      fun v t ht => ⟨rfl, rfl, hmethod, huri, hheaders, by simp [ht]⟩
    have hpush : SameAnswer (.indeterminate, .method, r.pushMethod c)
        (.indeterminate, .method, r'.pushMethod c) :=
      ⟨rfl, rfl, congrArg (· ++ [c]) hmethod, huri, hheaders, nofun⟩
    have hpushUri : SameAnswer (.indeterminate, .uri, r.pushUri c)
        (.indeterminate, .uri, r'.pushUri c) :=
      ⟨rfl, rfl, hmethod, congrArg (· ++ [c]) huri, hheaders, nofun⟩
    cases s with
    | methodStart => exact sameAnswer_ite hpush (hkeep _ _ rfl)
    | method =>
      refine sameAnswer_ite (hkeep _ _ rfl) ?_
      exact sameAnswer_ite hpush (hkeep _ _ rfl)
    | uri =>
      have hempty : r.uri.isEmpty = r'.uri.isEmpty := congrArg List.isEmpty huri
      unfold advance
      simp only [← hempty]
      refine sameAnswer_ite ?_ ?_
      · exact sameAnswer_ite (hkeep _ _ rfl) (hkeep _ _ rfl)
      · exact sameAnswer_ite hpushUri (hkeep _ _ rfl)
    | h | t1 | t2 | p => exact sameAnswer_ite (hkeep _ _ rfl) (hkeep _ _ rfl)
    | slash =>
      refine sameAnswer_ite ?_ (hkeep _ _ rfl)
      exact ⟨rfl, rfl, hmethod, huri, hheaders, fun _ => ⟨rfl, rfl⟩⟩
    | _ => exact absurd hs (by decide)
  · obtain rfl := h.eq (by simpa using hs)
    exact ⟨rfl, rfl, SameHead.refl _ _⟩

end Simulation

section Agreement
open Server.RequestParser Server4.RequestParser

/-- The state machine and the coroutine have read the same. -/
def Together (p : Server.RequestParser.State × Request) (p' : Parser × Server4.Request) : Prop :=
  ∃ q, Follows q p' ∧ Server.RequestParser.stageOf p.1 = q.1 ∧ SameHead q.1 p.2 q.2

/-- No space directly after the one that ends the method, and no byte from 128 on inside a
header value or a continuation. -/
def Common (p : Server.RequestParser.State × Request) (c : UInt8) : Prop :=
  (p.1 = .uri → c = chr ' ' → p.2.uri ≠ []) ∧
    (p.1 = .headerValue ∨ p.1 = .headerLws → c.toNat < 128)

theorem advance_common {p : Server.RequestParser.State × Request} {c : UInt8} (hc : Common p c) :
    advance Server.RequestParser.dialect (Server.RequestParser.stageOf p.1, p.2) c =
      advance Server4.RequestParser.dialect (Server.RequestParser.stageOf p.1, p.2) c := by
  obtain ⟨⟨s, r⟩, huri, hvalue⟩ := p, hc
  apply advance_congr
  · intro hs
    exact huri (by cases s <;> simp_all [Server.RequestParser.stageOf])
  · intro hs
    have hlt := hvalue (by cases s <;> simp_all [Server.RequestParser.stageOf])
    apply Bool.eq_iff_iff.mpr
    rw [valueByte_iff]
    exact ⟨fun h => ⟨h, hlt⟩, fun h => h.1⟩

theorem answers_agree {p : Server.RequestParser.State × Request}
    {p' : Parser × Server4.Request} {c : UInt8} (h : Together p p') (hc : Common p c) :
    ∃ q, Follows q p' ∧
      SameAnswer
        ((Server.RequestParser.consume p c).1,
          Server.RequestParser.stageOf (Server.RequestParser.consume p c).2.1,
          (Server.RequestParser.consume p c).2.2)
        (advance Server4.RequestParser.dialect q c) := by
  obtain ⟨⟨s', r'⟩, hf, hs, hh⟩ := h
  obtain rfl : _ = s' := hs
  refine ⟨_, hf, ?_⟩
  rw [← consume_eq_advance p.1 p.2 c, advance_common hc]
  exact advance_sameAnswer Server4.RequestParser.dialect hh c

theorem step_agrees (cast : Bytes → Option Nat) {p : Server.RequestParser.State × Request}
    {p' : Parser × Server4.Request} {c : UInt8} (h : Together p p')
    (hc : (Server.RequestParser.consume p c).1 ≠ .yes ∧ Common p c) :
    StepAgrees Server.RequestParser.consume (Server4.RequestParser.consume cast) Together
      (fun _ _ => True) p p' c := by
  obtain ⟨q, hf, hverdict, hstage, hsame⟩ := answers_agree h hc.2
  simp only at hverdict hstage hsame
  have hno : (advance Server4.RequestParser.dialect q c).1 ≠ .yes := by
    rw [← hverdict]
    exact hc.1
  obtain ⟨hv, hfollow, -⟩ := consume_follows cast hf hno
  refine ⟨hverdict.trans hv, fun hi => ?_, fun _ => trivial⟩
  refine ⟨_, hfollow (hverdict.symm.trans hi), hstage, ?_⟩
  rw [← hstage]
  exact hsame

theorem scans_of_machine {p : Server.RequestParser.State × Request}
    {p' : Parser × Server4.Request} {c : UInt8} (h : Together p p') (hc : Common p c)
    (hyes : (Server.RequestParser.consume p c).1 = .yes) : ∃ r, Scans p' c r := by
  obtain ⟨q, hf, hverdict, -, -⟩ := answers_agree h hc
  exact ⟨_, (scans_iff hf).mpr ⟨hverdict.symm.trans hyes, rfl⟩⟩

/-- What has been read of the input by the time the method or the uri is being read. -/
def MethodRead (u : Bytes) (p : Server.RequestParser.State × Request) : Prop :=
  match p.1 with
  | .methodStart => u = [] ∧ p.2.method = [] ∧ p.2.uri = []
  | .method => u = p.2.method ∧ p.2.method ≠ [] ∧ (∀ c ∈ u, isToken c = true) ∧ p.2.uri = []
  | .uri => u = p.2.method ++ chr ' ' :: p.2.uri ∧ p.2.method ≠ [] ∧
      ∀ c ∈ p.2.method, isToken c = true
  | _ => True

theorem consume_methodRead {u : Bytes} {p q : Server.RequestParser.State × Request} {c : UInt8}
    (h : MethodRead u p) (hc : Server.RequestParser.consume p c = (.indeterminate, q)) :
    MethodRead (u ++ [c]) q := by
  obtain ⟨s, r⟩ := p
  cases s with
  | methodStart =>
    obtain ⟨rfl, hm, hu⟩ := h
    simp only [Server.RequestParser.consume, not_token_eq] at hc
    split at hc
    · cases hc
    · rename_i ht
      obtain rfl := (Prod.mk.inj hc).2
      have hm : r.method = [] := hm
      have ht : isToken c = true := by simpa using ht
      simp [MethodRead, Request.pushMethod, hm, ht, show r.uri = [] from hu]
  | method =>
    obtain ⟨rfl, hne, ht, hu⟩ := h
    simp only [Server.RequestParser.consume, not_token_eq] at hc
    split at hc
    · obtain rfl := (Prod.mk.inj hc).2
      refine ⟨?_, hne, ht⟩
      rw [show r.uri = [] from hu]
      subst c
      rfl
    · split at hc
      · cases hc
      · rename_i hcc
        obtain rfl := (Prod.mk.inj hc).2
        simp only [Bool.not_eq_true', Bool.not_eq_false] at hcc
        refine ⟨rfl, by simp [Request.pushMethod], ?_, hu⟩
        simp only [List.forall_mem_append, List.forall_mem_singleton]
        exact ⟨ht, hcc⟩
  | uri =>
    obtain ⟨rfl, hne, ht⟩ := h
    simp only [Server.RequestParser.consume] at hc
    split at hc
    · obtain rfl := (Prod.mk.inj hc).2
      trivial
    · split at hc
      · cases hc
      · obtain rfl := (Prod.mk.inj hc).2
        exact ⟨by simp [Request.pushUri], hne, ht⟩
  | _ =>
    simp only [Server.RequestParser.consume] at hc
    repeat' split at hc
    all_goals cases hc <;> trivial

theorem stageOf_methodStart {s : Server.RequestParser.State}
    (h : Server.RequestParser.stageOf s = .methodStart) : s = .methodStart := by
  cases s <;> simp_all [Server.RequestParser.stageOf]

theorem parse_methodRead {w : Bytes}
    (hw : (Server.RequestParser.parse (reset, Request.fresh) w).verdict = .indeterminate) :
    MethodRead w (Server.RequestParser.parse (reset, Request.fresh) w).state :=
  run_invariant Server.RequestParser.consume (I := MethodRead)
    (fun _ _ _ _ => consume_methodRead) (u := []) (s := (reset, Request.fresh))
    ⟨rfl, rfl, rfl⟩ hw

/-- The space that ends the method is directly followed by another. -/
def DoubleSpace (w : Bytes) : Prop :=
  ∃ m v, m ≠ [] ∧ (∀ c ∈ m, isToken c = true) ∧ w = m ++ chr ' ' :: chr ' ' :: v

theorem fed_uri {w : Bytes} (hw : ¬ DoubleSpace w) :
    Fed Server.RequestParser.consume (fun p c => p.1 = .uri → c = chr ' ' → p.2.uri ≠ [])
      (reset, Request.fresh) w := by
  rintro u c v rfl hu hs rfl hnil
  have hread := parse_methodRead hu
  unfold MethodRead Server.RequestParser.parse at hread
  rw [hs] at hread
  obtain ⟨hcut, hne, ht⟩ := hread
  rw [hnil] at hcut
  exact hw ⟨_, v, hne, ht, by simpa using congrArg (· ++ chr ' ' :: v) hcut⟩

section Runs
variable (cast : Bytes → Option Nat) (n : Nat) (req : Server4.Request)

theorem head_of_reachesScan {w : Bytes} {k : Nat} (h : ReachesScan cast n req w k) :
    ∃ m : RequestHead, m.WellFormed Server4.RequestParser.dialect ∧ k ≤ w.length ∧
      w.take k = m.bytes ∧
      (Server4.RequestParser.parse cast (Parser.fresh n, req) (w.take k)).state.2.toRequest =
        m.request := by
  obtain ⟨hyes, hk⟩ := reader_of_reachesScan cast n req h
  have hr : cleared.headers = [] := rfl
  have hu : Server4.RequestParser.dialect.emptyUri = false → cleared.uri = [] := fun _ => rfl
  obtain ⟨hle, m, hm, hw⟩ := (reader_accepts_iff _ hr hu w k).mp ⟨hyes, hk⟩
  obtain ⟨-, hreq, -⟩ := reachesScan_of_reader cast n req hyes
  rw [hk] at hreq
  refine ⟨m, hm, hle, hw.symm, hreq.trans ?_⟩
  exact reader_request _ hr hu hm (by rw [hk, hw])

theorem reachesScan_of_head {m : RequestHead} {w : Bytes} {k : Nat}
    (hm : m.WellFormed Server4.RequestParser.dialect) (hk : k ≤ w.length)
    (hw : w.take k = m.bytes) : ReachesScan cast n req w k := by
  have hr : cleared.headers = [] := rfl
  obtain ⟨hyes, hcons, -⟩ := reader_of_head _ hr (fun _ => rfl) hm hk hw
  have h := (reachesScan_of_reader cast n req hyes).1
  rwa [hcons] at h

theorem together_fresh : Together (reset, Request.fresh) (Parser.fresh n, req) :=
  ⟨_, follows_fresh n req, rfl, rfl, rfl, rfl, nofun⟩

theorem parse_together {u : Bytes}
    (hu : Fed Server.RequestParser.consume
      (fun p c => (Server.RequestParser.consume p c).1 ≠ .yes ∧ Common p c)
      (reset, Request.fresh) u) :
    (Server.RequestParser.parse (reset, Request.fresh) u).verdict =
        (Server4.RequestParser.parse cast (Parser.fresh n, req) u).verdict ∧
      (Server.RequestParser.parse (reset, Request.fresh) u).consumed =
        (Server4.RequestParser.parse cast (Parser.fresh n, req) u).consumed ∧
      ((Server.RequestParser.parse (reset, Request.fresh) u).verdict = .indeterminate →
        Together (Server.RequestParser.parse (reset, Request.fresh) u).state
          (Server4.RequestParser.parse cast (Parser.fresh n, req) u).state) := by
  have h := run_simulates Together (fun _ _ => True) (fun _ _ _ => step_agrees cast)
    (together_fresh n req) u hu
  exact ⟨h.1, h.2.1, h.2.2.1⟩

theorem fed_before_scan {w : Bytes} (hcommon : Fed Server.RequestParser.consume Common
      (reset, Request.fresh) w) (hscan : ∀ k, ¬ ReachesScan cast n req w k) :
    Fed Server.RequestParser.consume
      (fun p c => (Server.RequestParser.consume p c).1 ≠ .yes ∧ Common p c)
      (reset, Request.fresh) w := by
  intro u c v he hu
  have hc := hcommon u c v he hu
  refine ⟨fun hyes => ?_, hc⟩
  have hbefore : Fed Server.RequestParser.consume
      (fun p c => (Server.RequestParser.consume p c).1 ≠ .yes ∧ Common p c)
      (reset, Request.fresh) u := by
    intro x b y hx hxu
    refine ⟨?_, hcommon x b (y ++ c :: v) (by simp [he, hx]) hxu⟩
    rw [fed_undecided hu x b y hx hxu]
    decide
  obtain ⟨hverdict, -, htogether⟩ := parse_together cast n req hbefore
  obtain ⟨r, hr⟩ := scans_of_machine (htogether hu) hc hyes
  exact hscan (u.length + 1) ⟨u, c, v, r, he, rfl, hverdict.symm.trans hu, hr⟩

end Runs

/-- The coroutine reaches its scan where the state machine says yes, has a uri and has only
ASCII in its header values; before that the two give the same answers with the same parts of
the request, as long as no second space follows the method and no byte from 128 on comes
inside a header value. -/
theorem parsers_agree (cast : Bytes → Option Nat) (n : Nat) (req : Server4.Request) (w : Bytes) :
    let machine := Server.RequestParser.parse (reset, Request.fresh) w
    let coroutine := Server4.RequestParser.parse cast (Parser.fresh n, req) w
    (∀ k, ReachesScan cast n req w k ↔ machine.verdict = .yes ∧ machine.consumed = k ∧
      machine.state.2.uri ≠ [] ∧ ∀ h ∈ machine.state.2.headers, Ascii h.value) ∧
    (∀ k, ReachesScan cast n req w k →
      (Server4.RequestParser.parse cast (Parser.fresh n, req) (w.take k)).state.2.toRequest =
        machine.state.2) ∧
    (w ≠ [] → (∀ k, ¬ ReachesScan cast n req w k) → ¬ DoubleSpace w →
      Fed Server.RequestParser.consume
        (fun p c => p.1 = .headerValue ∨ p.1 = .headerLws → c.toNat < 128)
        (reset, Request.fresh) w →
      machine.verdict = coroutine.verdict ∧ machine.consumed = coroutine.consumed ∧
        machine.verdict ≠ .yes ∧
        (machine.verdict = .indeterminate →
          SameHead (Server.RequestParser.stageOf machine.state.1) machine.state.2
            coroutine.state.2.toRequest)) := by
  intro machine coroutine
  refine ⟨fun k => ⟨?_, ?_⟩, ?_, ?_⟩
  · intro h
    obtain ⟨m, hm, hk, hw, -⟩ := head_of_reachesScan cast n req h
    obtain ⟨hm, hne, hascii⟩ := (wellFormed_iff m).mp hm
    obtain ⟨hyes, hcons, hreq⟩ := Server.RequestParser.parse_of_head hm hk hw
    refine ⟨hyes, hcons, ?_, ?_⟩
    · rw [hreq]
      exact hne
    · rw [hreq]
      exact hascii
  · rintro ⟨hyes, rfl, hne, hascii⟩
    obtain ⟨m, hm, hw⟩ := Server.RequestParser.head_of_parse hyes
    have hk : machine.consumed ≤ w.length := consumed_le _ _ w
    obtain ⟨-, -, hreq⟩ := Server.RequestParser.parse_of_head hm hk hw
    rw [hreq] at hne hascii
    exact reachesScan_of_head cast n req ((wellFormed_iff m).mpr ⟨hm, hne, hascii⟩) hk hw
  · intro k h
    obtain ⟨m, hm, hk, hw, hreq⟩ := head_of_reachesScan cast n req h
    obtain ⟨-, -, hmachine⟩ := Server.RequestParser.parse_of_head ((wellFormed_iff m).mp hm).1 hk hw
    exact hreq.trans hmachine.symm
  · intro hw hscan hspace hvalue
    have huri := fed_uri hspace
    have hfed := fed_before_scan cast n req
      (fun u c v he hu => ⟨huri u c v he hu, hvalue u c v he hu⟩) hscan
    obtain ⟨hverdict, hcons, htogether⟩ := parse_together cast n req hfed
    refine ⟨hverdict, hcons, ?_, fun hi => ?_⟩
    · intro hyes
      have hd : machine.verdict ≠ .indeterminate := by
        rw [hyes]
        decide
      obtain ⟨u, c, v, he, -, hu, hstep⟩ := deciding_symbol _ hd
      exact (hfed u c v he hu).1 ((congrArg Prod.fst hstep).trans hyes)
    · obtain ⟨q, ⟨y, -, rfl, -⟩, hs, hh⟩ := htogether hi
      have hstarted : y ≠ .start := by
        rintro rfl
        have hread := parse_methodRead hi
        unfold MethodRead at hread
        rw [show (Server.RequestParser.parse (reset, Request.fresh) w).state.1 = _ from
          stageOf_methodStart hs] at hread
        exact hw hread.1
      rw [hs]
      simpa [seen, hstarted] using hh

end Agreement

end AsioExamples.Http
