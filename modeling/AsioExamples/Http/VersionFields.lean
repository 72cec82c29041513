import AsioExamples.Http.VersionNumbers
import AsioExamples.Http.Server.RequestLanguage
import AsioExamples.Http.Server4.HeadScan

/-!
# Version fields of the three parsers

A parser gets the versions right exactly if the digits received fit. The second server's
parser is the first's, line for line.
-/

namespace AsioExamples.Http

set_option autoImplicit false

open Recogniser Decimal

/-- All digits of the versions are gathered in range, and the fields of an accepted request
hold the numbers that stand in its head. -/
structure VersionsExact {σ : Type} (consume : σ → UInt8 → Tribool × σ)
    (field : σ → Option (Request → Option Int32)) (request : σ → Request) (d : Dialect) (p : σ)
    (w : Bytes) : Prop where
  inRange : Fed consume (fun p => InRange (field p) (request p)) p w
  stored : (run consume p w).verdict = .yes → ∃ m : RequestHead, m.WellFormed d ∧
    m.bytes <+: w ∧
    (request (run consume p w).state).httpVersionMajor.map Int32.toInt =
      some (valueOf m.major : Int) ∧
    (request (run consume p w).state).httpVersionMinor.map Int32.toInt =
      some (valueOf m.minor : Int)

theorem VersionsFit.stored {d : Dialect} {w : Bytes} (h : VersionsFit d w) {m : RequestHead}
    (hm : m.WellFormed d) (hw : m.bytes <+: w) :
    m.request.httpVersionMajor.map Int32.toInt = some (valueOf m.major : Int) ∧
      m.request.httpVersionMinor.map Int32.toInt = some (valueOf m.minor : Int) := by
  obtain ⟨hmajor, hminor⟩ := h.of_head hm hw
  exact ⟨congrArg some (toInt_version hm.major_digit hmajor),
    congrArg some (toInt_version hm.minor_digit hminor)⟩

namespace Server.RequestParser

def versionField : State → Option (Request → Option Int32)
  | .httpVersionMajorStart | .httpVersionMajor => some Request.httpVersionMajor
  | .httpVersionMinorStart | .httpVersionMinor => some Request.httpVersionMinor
  | _ => none

theorem versionField_stageOf (s : State) : (stageOf s).versionField = versionField s := by
  cases s <;> rfl

theorem fed_inRange (w : Bytes) :
    Fed consume (fun p => InRange (versionField p.1) p.2) (reset, Request.fresh) w ↔
      Fed (advance dialect) (fun q => InRange q.1.versionField q.2) (.methodStart, Request.fresh)
        w := by
  have hreads : ∀ (u : Bytes) (c : UInt8),
      (parse (reset, Request.fresh) u).verdict = .indeterminate →
      (InRange (run (advance dialect) (.methodStart, Request.fresh) u).state.1.versionField
          (run (advance dialect) (.methodStart, Request.fresh) u).state.2 c ↔
        InRange (versionField (parse (reset, Request.fresh) u).state.1)
          (parse (reset, Request.fresh) u).state.2 c) := by
    intro u c hu
    have hq : (run (advance dialect) (.methodStart, Request.fresh) u).state = _ :=
      parse_undecided hu
    rw [hq, versionField_stageOf]
  have hverdict := fun u => (parse_reads (reset, Request.fresh) u).1
  constructor
  · intro h
    refine h.transfer fun u c hu => ?_
    have hu' := (hverdict u).trans hu
    exact ⟨hu', (hreads u c hu').mpr⟩
  · intro h
    refine h.transfer fun u c hu => ?_
    exact ⟨(hverdict u).symm.trans hu, (hreads u c hu).mp⟩

theorem versionsExact_iff (w : Bytes) :
    VersionsExact consume (fun p => versionField p.1) Prod.snd dialect (reset, Request.fresh) w ↔
      VersionsFit dialect w := by
  constructor
  · intro h
    exact (fed_inRange_iff rfl w).mp ((fed_inRange w).mp h.inRange)
  · intro h
    refine ⟨(fed_inRange w).mpr ((fed_inRange_iff rfl w).mpr h), fun hyes => ?_⟩
    obtain ⟨m, hm, hw⟩ := head_of_parse hyes
    have hstart : m.bytes <+: w := hw ▸ List.take_prefix _ w
    obtain ⟨-, -, hrequest⟩ := parse_of_head hm (consumed_le _ _ w) hw
    refine ⟨m, hm, hstart, ?_⟩
    change (parse _ w).state.2.httpVersionMajor.map _ = _ ∧
      (parse _ w).state.2.httpVersionMinor.map _ = _
    rw [hrequest]
    exact h.stored hm hstart

end Server.RequestParser

namespace Server2.RequestParser

/-- `http::server2::request_parser` has the states and the code of the first server's. -/
abbrev State := Server.RequestParser.State

def reset : State := Server.RequestParser.reset

def consume (p : State × Request) (input : UInt8) : Tribool × State × Request :=
  Server.RequestParser.consume p input

def versionField (s : State) : Option (Request → Option Int32) :=
  Server.RequestParser.versionField s

end Server2.RequestParser

namespace Server4.RequestParser

/-- The digit loops resume at these yields; `slash` and `dot` are the tests before them. -/
def HeadYield.versionField : HeadYield → Option (Http.Request → Option Int32)
  | .slash | .major => some Http.Request.httpVersionMajor
  | .dot | .minor => some Http.Request.httpVersionMinor
  | _ => none

def versionField : Resume → Option (Http.Request → Option Int32)
  | .head y => y.versionField
  | _ => none

theorem versionField_stageOf (y : HeadYield) : (stageOf y).versionField = y.versionField := by
  cases y <;> rfl

section Fields
variable (cast : Bytes → Option Nat) (n : Nat) (req : Request)

theorem inRange_of_follows {q : Stage × Http.Request} {p : Parser × Request} (h : Follows q p)
    (c : UInt8) : InRange q.1.versionField q.2 c ↔
      InRange (versionField p.1.resume) p.2.toRequest c := by
  obtain ⟨y, hy, rfl, -⟩ := h
  rw [hy]
  cases y with
  | start => exact iff_of_true (inRange_none _ c) (inRange_none _ c)
  | _ => exact Iff.rfl

theorem fed_inRange (w : Bytes) :
    Fed (consume cast) (fun p => InRange (versionField p.1.resume) p.2.toRequest)
        (Parser.fresh n, req) w ↔
      Fed (advance dialect) (fun q => InRange q.1.versionField q.2) (.methodStart, cleared) w := by
  constructor
  · intro h
    refine h.transfer fun u c hu => ?_
    obtain ⟨hverdict, hfollows⟩ := parse_follows cast n req (u := u)
      (fed_not_yes (by rw [hu]; decide))
    exact ⟨hverdict.symm.trans hu, (inRange_of_follows (hfollows hu) c).mpr⟩
  · rintro h u c v rfl hu
    cases hr : (parse cast (Parser.fresh n, req) u).state.1.resume with
    | head y =>
      obtain ⟨hu', hfollows⟩ := follows_of_head cast n req hu hr
      exact (inRange_of_follows hfollows c).mp (h u c v rfl hu')
    | content | done =>
      unfold parse at hr
      rw [hr]
      exact inRange_none _ c

theorem versionsExact_iff (w : Bytes) :
    VersionsExact (consume cast) (fun p => versionField p.1.resume) (fun p => p.2.toRequest)
        dialect (Parser.fresh n, req) w ↔
      VersionsFit dialect w := by
  constructor
  · intro h
    exact (fed_inRange_iff rfl w).mp ((fed_inRange cast n req w).mp h.inRange)
  · intro h
    refine ⟨(fed_inRange cast n req w).mpr ((fed_inRange_iff rfl w).mpr h), fun hyes => ?_⟩
    obtain ⟨m, body, hm, hstart, -, -, hstate⟩ := head_of_parse cast hyes
    refine ⟨m, hm, hstart, ?_⟩
    change (parse cast _ w).state.2.toRequest.httpVersionMajor.map _ = _ ∧
      (parse cast _ w).state.2.toRequest.httpVersionMinor.map _ = _
    rw [hstate]
    exact h.stored hm hstart

end Fields

end Server4.RequestParser

/-- The three parsers get the versions of a stream right exactly if the digits of each version
received are a number up to the limit. -/
theorem versions_exact_iff (cast : Bytes → Option Nat) (n : Nat) (req : Server4.Request)
    (w : Bytes) :
    (VersionsExact Server.RequestParser.consume (fun p => Server.RequestParser.versionField p.1)
        Prod.snd Server.RequestParser.dialect (Server.RequestParser.reset, Request.fresh) w ↔
      VersionsFit Server.RequestParser.dialect w) ∧
    (VersionsExact Server2.RequestParser.consume (fun p => Server2.RequestParser.versionField p.1)
        Prod.snd Server.RequestParser.dialect (Server2.RequestParser.reset, Request.fresh) w ↔
      VersionsFit Server.RequestParser.dialect w) ∧
    (VersionsExact (Server4.RequestParser.consume cast)
        (fun p => Server4.RequestParser.versionField p.1.resume) (fun p => p.2.toRequest)
        Server4.RequestParser.dialect (Server4.RequestParser.Parser.fresh n, req) w ↔
      VersionsFit Server4.RequestParser.dialect w) := by
  refine ⟨Server.RequestParser.versionsExact_iff w, ?_, ?_⟩
  · exact Server.RequestParser.versionsExact_iff w
  · exact Server4.RequestParser.versionsExact_iff cast n req w

/-- A major version of 2 to the 32nd and one more is not what the parser ends with. -/
theorem not_versionsExact_wrapped :
    ¬ VersionsExact Server.RequestParser.consume
      (fun p => Server.RequestParser.versionField p.1) Prod.snd Server.RequestParser.dialect
      (Server.RequestParser.reset, Request.fresh) (str "GET / HTTP/4294967297.0\r\n\r\n") := by
  rw [Server.RequestParser.versionsExact_iff]
  intro h
  have hmethod : (str "GET").all isToken = true := by decide
  have huri : (str "/").all isUriByte = true := by decide
  have hdigits : (str "4294967297").all (fun c => isDigit (toInt c)) = true := by decide
  have ho : Opening Server.RequestParser.dialect (str "GET / HTTP/") := by
    refine ⟨str "GET", str "/", by decide, List.all_eq_true.mp hmethod, by decide,
      List.all_eq_true.mp huri, rfl⟩
  have hstart : str "GET / HTTP/" ++ str "4294967297" <+: str "GET / HTTP/4294967297.0\r\n\r\n" :=
    ⟨str ".0\r\n\r\n", rfl⟩
  have hle := h.major _ _ ho (List.all_eq_true.mp hdigits) hstart
  have hvalue : valueOf (str "4294967297") = 4294967297 := rfl
  rw [hvalue] at hle
  exact absurd hle (by decide)

end AsioExamples.Http
