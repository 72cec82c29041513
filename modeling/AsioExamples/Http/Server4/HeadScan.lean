import AsioExamples.Http.Server4.RequestFraming

/-!
# Where the coroutine parser reaches its scan

The scan for Content-Length is inside the coroutine, so no return value shows it. It is
reached at the byte at which the reader of heads says yes, and until then the coroutine
answers as the reader does.
-/

namespace AsioExamples.Http.Server4.RequestParser

set_option autoImplicit false

open Recogniser

section Scan
variable (cast : Bytes → Option Nat) (n : Nat) (req : Request)

/-- The coroutine, resumed with `c`, falls into the scan with the head's request `r`. -/
def Scans (p : Parser × Request) (c : UInt8) (r : Http.Request) : Prop :=
  ∃ y, p.1.resume = .head y ∧ resumeHead c p.2.toRequest y = .scan r

/-- A fresh parser fed `w` reaches its scan at the byte number `k`, counted from 1. -/
def ReachesScan (w : Bytes) (k : Nat) : Prop :=
  ∃ u c v r, w = u ++ c :: v ∧ k = u.length + 1 ∧
    (parse cast (Parser.fresh n, req) u).verdict = .indeterminate ∧
    Scans (parse cast (Parser.fresh n, req) u).state c r

/-- A state of the reader and the coroutine's state that stands for it. -/
def Follows (q : Stage × Http.Request) (p : Parser × Request) : Prop :=
  ∃ y, p.1.resume = .head y ∧ q = (stageOf y, seen p.2.toRequest y) ∧ Inv p

theorem follows_fresh : Follows (.methodStart, cleared) (Parser.fresh n, req) :=
  ⟨.start, rfl, rfl, inv_fresh n req⟩

theorem inv_yield {y : HeadYield} {r : Http.Request} (h : Started r y) :
    Inv (⟨.head y, 0⟩, ⟨r, []⟩) := by
  intro z hz
  obtain rfl : y = z := Resume.head.inj hz
  exact ⟨h, fun _ => ⟨rfl, rfl⟩⟩

theorem consume_follows {q : Stage × Http.Request} {p : Parser × Request} {c : UInt8}
    (h : Follows q p) (hc : (advance dialect q c).1 ≠ .yes) :
    StepAgrees (advance dialect) (consume cast) Follows (fun _ _ => True) q p c := by
  obtain ⟨y, hy, rfl, hp⟩ := h
  have hm := resumeHead_matches c p.2.toRequest (hp y hy).1
  have hstep := consume_head cast hp hy c
  cases he : resumeHead c p.2.toRequest y with
  | yield at_ r =>
    rw [he] at hm hstep
    obtain ⟨ha, hst, hne⟩ := hm
    unfold StepAgrees
    rw [ha, hstep]
    exact ⟨rfl, fun _ => ⟨at_, rfl, by simp [seen, hne], inv_yield hst⟩, fun _ => trivial⟩
  | returnFalse r =>
    rw [he] at hm hstep
    have ha : (advance dialect (stageOf y, seen p.2.toRequest y) c).1 = .no := hm
    unfold StepAgrees
    rw [ha, hstep]
    exact ⟨rfl, fun h => Tribool.noConfusion h, fun _ => trivial⟩
  | scan r =>
    rw [he] at hm
    exact absurd (congrArg Prod.fst hm) hc

theorem scans_iff {q : Stage × Http.Request} {p : Parser × Request} {c : UInt8}
    {r : Http.Request} (h : Follows q p) :
    Scans p c r ↔ (advance dialect q c).1 = .yes ∧ (advance dialect q c).2.2 = r := by
  obtain ⟨y, hy, rfl, hp⟩ := h
  have hm := resumeHead_matches c p.2.toRequest (hp y hy).1
  constructor
  · rintro ⟨z, hz, hs⟩
    obtain rfl : y = z := Resume.head.inj (hy.symm.trans hz)
    rw [hs] at hm
    exact ⟨congrArg Prod.fst hm, congrArg (fun a => a.2.2) hm⟩
  · rintro ⟨hyes, rfl⟩
    refine ⟨y, hy, ?_⟩
    cases he : resumeHead c p.2.toRequest y with
    | yield at_ q =>
      rw [he] at hm
      exact Tribool.noConfusion (hyes.symm.trans (congrArg Prod.fst hm.1))
    | returnFalse q =>
      rw [he] at hm
      exact Tribool.noConfusion (hyes.symm.trans hm)
    | scan q =>
      rw [he] at hm
      exact congrArg Exit.scan (congrArg (fun a => a.2.2) hm).symm

/-- The scan and the content loop leave the request alone, and the head is over. -/
theorem scan_leaves (length : Nat) (q : Request) :
    (scan cast length q).2.2 = q ∧ ∀ y, (scan cast length q).2.1.resume ≠ .head y := by
  unfold scan contentLoop
  split
  · split <;> simp
  · simp

theorem consume_of_scans {p : Parser × Request} (hp : Inv p) {c : UInt8} {r : Http.Request}
    (h : Scans p c r) :
    (consume cast p c).2.2.toRequest = r ∧ ∀ y, (consume cast p c).2.1.resume ≠ .head y := by
  obtain ⟨y, hy, hs⟩ := h
  rw [consume_head cast hp hy c, hs]
  have hl := scan_leaves cast 0 ⟨r, []⟩
  exact ⟨congrArg Request.toRequest hl.1, hl.2⟩

theorem consume_not_head {p : Parser × Request} (hp : ∀ y, p.1.resume ≠ .head y) (c : UInt8)
    (y : HeadYield) : (consume cast p c).2.1.resume ≠ .head y := by
  cases hr : p.1.resume with
  | head z => exact absurd hr (hp z)
  | done =>
    simp only [consume, hr]
    exact fun h => Resume.noConfusion h
  | content =>
    simp only [consume, hr, contentLoop]
    split <;> exact fun h => Resume.noConfusion h

theorem run_not_head {p : Parser × Request} (hp : ∀ y, p.1.resume ≠ .head y) {w : Bytes}
    (hw : (parse cast p w).verdict = .indeterminate) (y : HeadYield) :
    (parse cast p w).state.1.resume ≠ .head y := by
  have h : ∀ (u : Bytes) s b t, (∀ y, s.1.resume ≠ .head y) →
      consume cast s b = (.indeterminate, t) → ∀ y, t.1.resume ≠ .head y := by
    intro u s b t hs hb z
    have := consume_not_head cast hs b z
    rwa [hb] at this
  exact run_invariant (I := fun _ s => ∀ y, s.1.resume ≠ .head y) _ h (u := []) hp hw y

/-- Up to a byte at which the reader says yes, the coroutine has answered as the reader. -/
theorem parse_follows {u : Bytes}
    (hu : Fed (advance dialect) (fun q c => (advance dialect q c).1 ≠ .yes)
      (.methodStart, cleared) u) :
    (run (advance dialect) (.methodStart, cleared) u).verdict =
        (parse cast (Parser.fresh n, req) u).verdict ∧
      ((run (advance dialect) (.methodStart, cleared) u).verdict = .indeterminate →
        Follows (run (advance dialect) (.methodStart, cleared) u).state
          (parse cast (Parser.fresh n, req) u).state) := by
  have h := run_simulates Follows (fun _ _ => True) (fun _ _ _ => consume_follows cast)
    (follows_fresh n req) u hu
  exact ⟨h.1, h.2.2.1⟩

theorem fed_not_yes {q : Stage × Http.Request} {u : Bytes}
    (hu : (run (advance dialect) q u).verdict ≠ .yes) :
    Fed (advance dialect) (fun q c => (advance dialect q c).1 ≠ .yes) q u := by
  intro x b y he hx hyes
  subst u
  rcases hb : advance dialect (run (advance dialect) q x).state b with ⟨v, t⟩
  rw [hb] at hyes
  obtain rfl : v = .yes := hyes
  rw [run_of_deciding _ hx hb (by decide)] at hu
  exact hu rfl

/-- Where the reader says yes the coroutine reaches its scan, with the same request. -/
theorem reachesScan_of_reader {w : Bytes}
    (hv : (run (advance dialect) (.methodStart, cleared) w).verdict = .yes) :
    let k := (run (advance dialect) (.methodStart, cleared) w).consumed
    ReachesScan cast n req w k ∧
      (parse cast (Parser.fresh n, req) (w.take k)).state.2.toRequest =
        (run (advance dialect) (.methodStart, cleared) w).state.2 ∧
      ∀ y, (parse cast (Parser.fresh n, req) (w.take k)).state.1.resume ≠ .head y := by
  intro k
  have hd : (run (advance dialect) (.methodStart, cleared) w).verdict ≠ .indeterminate := by
    rw [hv]
    decide
  obtain ⟨u, c, v, he, hlen, hu, hstep⟩ := deciding_symbol _ hd
  obtain ⟨hverdict, hfollows⟩ := parse_follows cast n req
    (fed_not_yes (by rw [hu]; decide))
  have hf := hfollows hu
  rw [hu] at hverdict
  have hscan := (scans_iff (c := c) hf).mpr ⟨by rw [hstep, hv], rfl⟩
  rw [hstep] at hscan
  obtain ⟨y, -, -, hinv⟩ := hf
  obtain ⟨hreq, hres⟩ := consume_of_scans cast hinv hscan
  have htake : w.take k = u ++ [c] := by
    rw [show k = u.length + 1 from hlen, he, List.append_cons, List.take_left' (by simp)]
  rw [htake, parse, run_concat _ hverdict.symm]
  exact ⟨⟨u, c, v, _, he, hlen, hverdict.symm, hscan⟩, hreq, hres⟩

/-- A coroutine that is still in its head has not come to the end of one. -/
theorem follows_of_head {u : Bytes}
    (hu : (parse cast (Parser.fresh n, req) u).verdict = .indeterminate) {y : HeadYield}
    (hy : (parse cast (Parser.fresh n, req) u).state.1.resume = .head y) :
    (run (advance dialect) (.methodStart, cleared) u).verdict = .indeterminate ∧
      Follows (run (advance dialect) (.methodStart, cleared) u).state
        (parse cast (Parser.fresh n, req) u).state := by
  have hne : (run (advance dialect) (.methodStart, cleared) u).verdict ≠ .yes := by
    -- After an earlier yes the coroutine would be past its head.
    intro hyes
    obtain ⟨⟨x, b, z, q, he, hk, hx, -⟩, -, hres⟩ :=
      reachesScan_of_reader cast n req hyes
    have hcut : u = (x ++ [b]) ++ z := by rw [he, List.append_cons]
    have htake : u.take (x.length + 1) = x ++ [b] := by
      rw [hcut, List.take_left' (by simp)]
    rw [hk, htake] at hres
    have hpre : (parse cast (Parser.fresh n, req) (x ++ [b])).verdict = .indeterminate := by
      by_contra hdec
      rw [hcut] at hu
      unfold parse at hu hdec
      rw [run_append_of_decided _ hdec] at hu
      exact hdec hu
    unfold parse at hu hy hpre hres
    rw [hcut, run_append_of_indeterminate _ hpre] at hu hy
    exact run_not_head cast hres hu y hy
  obtain ⟨hverdict, hfollows⟩ := parse_follows cast n req (fed_not_yes hne)
  rw [hu] at hverdict
  exact ⟨hverdict, hfollows hverdict⟩

theorem reader_of_reachesScan {w : Bytes} {k : Nat} (h : ReachesScan cast n req w k) :
    (run (advance dialect) (.methodStart, cleared) w).verdict = .yes ∧
      (run (advance dialect) (.methodStart, cleared) w).consumed = k := by
  obtain ⟨u, c, v, r, rfl, rfl, hu, hscan⟩ := h
  obtain ⟨y, hy, hs⟩ := hscan
  obtain ⟨hverdict, hfollows⟩ := follows_of_head cast n req hu hy
  obtain ⟨hyes, -⟩ := (scans_iff hfollows).mp ⟨y, hy, hs⟩
  rcases hb : advance dialect (run (advance dialect) (.methodStart, cleared) u).state c with ⟨x, t⟩
  rw [hb] at hyes
  obtain rfl : x = .yes := hyes
  rw [run_of_deciding _ hverdict hb (by decide)]
  exact ⟨rfl, rfl⟩

end Scan

end AsioExamples.Http.Server4.RequestParser
