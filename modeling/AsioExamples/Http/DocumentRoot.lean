import AsioExamples.Http.RequestHandler
import AsioExamples.Theory.Path

/-!
# Requests stay in the document root

The handler looks for two dots in the decoded path before it appends `index.html` and before
the path is cut at a NUL. Neither makes a component that goes up, whatever the uri spelled.
-/

namespace AsioExamples.Http.RequestHandler

set_option autoImplicit false

open AsioExamples.Path

/-- The path is the document root followed by a path below it, at every component. -/
def Below (docRoot path : Bytes) : Prop :=
  ∃ q, path = docRoot ++ q ∧ q.head? = some (chr '/') ∧ str ".." ∉ q.splitOn (chr '/') ∧
    ∀ cs, cs <+: q.splitOn (chr '/') → walk (chr '.') [] cs ≠ none

/-- A call either opens a path below the document root or opens none and answers 400. -/
def Confined (docRoot : Bytes) (h : Handled) : Prop :=
  match h.opened with
  | some path => Below docRoot path
  | none => h.rep = Reply.stockReply .badRequest

theorem cStr_append {docRoot : Bytes} (h : 0 ∉ docRoot) (q : Bytes) :
    cStr (docRoot ++ q) = docRoot ++ cStr q := by
  apply List.takeWhile_append_of_pos
  intro c hc
  have : c ≠ 0 := fun h0 => h (h0 ▸ hc)
  simpa using this

theorem head_index {requestPath : Bytes} (h : requestPath.head? = some (chr '/')) :
    (index requestPath).head? = some (chr '/') := by
  unfold index
  split
  · rw [List.head?_append, h]
    rfl
  · exact h

theorem not_dots_index {requestPath : Bytes} (h : ¬ str ".." <:+: requestPath) :
    ¬ str ".." <:+: index requestPath := by
  unfold index
  split
  · rename_i hlast
    intro hi
    rcases pair_infix_append hi with hi | hi | ⟨hdot, -⟩
    · exact h hi
    · exact absurd hi (by decide)
    · rw [hlast] at hdot
      exact absurd hdot (by decide)
  · exact h

theorem below_of_no_dots {docRoot q : Bytes} (hroot : 0 ∉ docRoot)
    (hhead : q.head? = some (chr '/')) (hdots : ¬ str ".." <:+: q) :
    Below docRoot (cStr (docRoot ++ q)) := by
  have hcut : cStr q <:+: q := (List.takeWhile_prefix _).isInfix
  have hno : str ".." ∉ (cStr q).splitOn (chr '/') := by
    intro hmem
    exact hdots ((infix_of_mem_splitOn hmem).trans hcut)
  refine ⟨cStr q, cStr_append hroot q, ?_, hno, fun cs hcs => ?_⟩
  · obtain ⟨c, q, rfl⟩ := List.exists_cons_of_ne_nil (l := q) (by rintro rfl; cases hhead)
    obtain rfl : c = chr '/' := Option.some.inj hhead
    rfl
  · obtain ⟨below, hwalk⟩ := walk_below (chr '.') (fun hm => hno (hcs.subset hm)) []
    rw [hwalk]
    exact Option.some_ne_none _

theorem handle_confined {docRoot : Bytes} (hroot : 0 ∉ docRoot) (files : Bytes → Option Bytes)
    (uri : Bytes) (rep : Reply) : Confined docRoot (handle docRoot files uri rep) := by
  by_cases h : ∃ requestPath, Accepts uri requestPath
  · obtain ⟨requestPath, hp⟩ := h
    obtain ⟨-, -, hhead, hdots⟩ := id hp
    rw [handle_of_accepts docRoot files hp]
    exact below_of_no_dots hroot (head_index hhead) (not_dots_index hdots)
  · rw [handle_of_not_accepts docRoot files h]
    rfl

/-- No uri makes any of the servers open a file outside its document root. -/
theorem requests_confined (docRoot : Bytes) (hroot : 0 ∉ docRoot)
    (files : Bytes → Option Bytes) (req : Server4.Request) (rep : Reply) :
    Confined docRoot (Server.RequestHandler.handleRequest docRoot files req.toRequest rep) ∧
      Confined docRoot (Server2.RequestHandler.handleRequest docRoot files req.toRequest rep) ∧
      Confined docRoot (Server4.FileHandler.call docRoot files req rep) :=
  ⟨handle_confined hroot files req.uri rep, handle_confined hroot files req.uri rep,
    handle_confined hroot files req.uri rep⟩

theorem requests_confined_www :
    let req : Server4.Request := { Server4.Request.fresh with uri := str "/%2e/a%00b" }
    Confined (str "/www") (Server.RequestHandler.handleRequest (str "/www") (fun _ => none)
        req.toRequest (Reply.fresh 0)) ∧
      Confined (str "/www") (Server2.RequestHandler.handleRequest (str "/www") (fun _ => none)
        req.toRequest (Reply.fresh 0)) ∧
      Confined (str "/www") (Server4.FileHandler.call (str "/www") (fun _ => none) req
        (Reply.fresh 0)) :=
  requests_confined (str "/www") (by decide) (fun _ => none) _ (Reply.fresh 0)

end AsioExamples.Http.RequestHandler
