import AsioExamples.Http.UrlDecoding
import AsioExamples.Http.DocumentRoot

/-!
# Directories and their index pages

A uri that is decoded ends in no unfinished escape, so what is appended to it is decoded by
itself. The name the handler appends to a directory may as well have been in the uri.
-/

namespace AsioExamples.Http.RequestHandler

set_option autoImplicit false

open AsioExamples.Path

theorem urlDecode_append {u requestPath : Bytes} (h : urlDecode u = some requestPath) (v : Bytes) :
    urlDecode (u ++ v) = (urlDecode v).map (requestPath ++ ·) := by
  induction u using escapes.induct generalizing requestPath with
  | case1 =>
    obtain rfl := Option.some.inj h
    simp
  | case2 a b rest ih =>
    rw [urlDecode_escape, Option.bind_eq_some_iff] at h
    obtain ⟨value, hvalue, hrest⟩ := h
    obtain ⟨path, hpath, rfl⟩ := Option.map_eq_some_iff.mp hrest
    change urlDecode (chr '%' :: a :: b :: (rest ++ v)) = _
    rw [urlDecode_escape, hvalue, ih hpath, Option.bind_some, Option.map_map]
    rfl
  | case3 rest hshort =>
    rw [urlDecode_short fun a b t he => hshort a b t he] at h
    cases h
  | case4 c rest hc ih =>
    rw [urlDecode_other hc] at h
    obtain ⟨path, hpath, rfl⟩ := Option.map_eq_some_iff.mp h
    change urlDecode (c :: (rest ++ v)) = _
    rw [urlDecode_other hc, ih hpath, Option.map_map]
    rfl

section Pages
variable {requestPath : Bytes}

theorem index_of_slash (h : requestPath.getLast? = some (chr '/')) :
    index requestPath = requestPath ++ str "index.html" := if_pos h

@[simp] theorem index_index (requestPath : Bytes) :
    index (index requestPath) = index requestPath := by
  by_cases h : requestPath.getLast? = some (chr '/')
  · have hlast : (requestPath ++ str "index.html").getLast? = some (chr 'l') := by
      rw [List.getLast?_append]
      rfl
    rw [index_of_slash h]
    refine if_neg ?_
    rw [hlast]
    decide
  · have hsame : index requestPath = requestPath := if_neg h
    rw [hsame, hsame]

theorem urlDecode_page {uri : Bytes} (hd : urlDecode uri = some requestPath)
    (hslash : requestPath.getLast? = some (chr '/')) :
    urlDecode (uri ++ str "index.html") = some (index requestPath) := by
  have hname : urlDecode (str "index.html") = some (str "index.html") := by decide +kernel
  rw [urlDecode_append hd, hname, index_of_slash hslash]
  rfl

/-- The name of the page begins with no slash and no dot, so it settles neither test. -/
theorem accepts_index_iff {uri : Bytes} (hd : urlDecode uri = some requestPath)
    (hslash : requestPath.getLast? = some (chr '/')) :
    Accepts (uri ++ str "index.html") (index requestPath) ↔ Accepts uri requestPath := by
  have hd' := urlDecode_page hd hslash
  have hne : requestPath ≠ [] := fun h => by simp [h] at hslash
  have hne' : index requestPath ≠ [] := by simp [index_of_slash hslash, hne]
  have hhead : (index requestPath).head? = requestPath.head? := by
    rw [index_of_slash hslash, List.head?_append_of_ne_nil _ hne]
  unfold Accepts
  rw [hhead]
  constructor
  · rintro ⟨-, -, habsolute, hdots⟩
    refine ⟨hd, hne, habsolute, fun hi => hdots ?_⟩
    rw [index_of_slash hslash]
    exact hi.trans (List.prefix_append _ _).isInfix
  · rintro ⟨-, -, habsolute, hdots⟩
    exact ⟨hd', hne', habsolute, not_dots_index hdots⟩

theorem handle_index (docRoot : Bytes) (files : Bytes → Option Bytes) {uri : Bytes}
    (hd : urlDecode uri = some requestPath) (hslash : requestPath.getLast? = some (chr '/'))
    (rep : Reply) :
    handle docRoot files (uri ++ str "index.html") rep = handle docRoot files uri rep := by
  have hiff := accepts_index_iff hd hslash
  by_cases h : Accepts uri requestPath
  · rw [handle_of_accepts docRoot files h, handle_of_accepts docRoot files (hiff.mpr h)]
    unfold fullPath
    rw [index_index]
  · have hno : ¬ ∃ path, Accepts uri path := by
      rintro ⟨path, hp⟩
      obtain rfl := Option.some.inj (hd.symm.trans hp.1)
      exact h hp
    have hno' : ¬ ∃ path, Accepts (uri ++ str "index.html") path := by
      rintro ⟨path, hp⟩
      obtain rfl := Option.some.inj ((urlDecode_page hd hslash).symm.trans hp.1)
      exact h (hiff.mp hp)
    rw [handle_of_not_accepts docRoot files hno, handle_of_not_accepts docRoot files hno']

end Pages

/-- The servers treat a uri whose path ends in a slash as that of its index page: they open the
same file, if any, and send the same reply. -/
theorem directories_are_index_pages (docRoot : Bytes) (files : Bytes → Option Bytes)
    (req : Server4.Request) (rep : Reply) {requestPath : Bytes}
    (hd : urlDecode req.uri = some requestPath)
    (hslash : requestPath.getLast? = some (chr '/')) :
    let page : Server4.Request := { req with uri := req.uri ++ str "index.html" }
    Server.RequestHandler.handleRequest docRoot files page.toRequest rep =
        Server.RequestHandler.handleRequest docRoot files req.toRequest rep ∧
      Server2.RequestHandler.handleRequest docRoot files page.toRequest rep =
        Server2.RequestHandler.handleRequest docRoot files req.toRequest rep ∧
      Server4.FileHandler.call docRoot files page rep =
        Server4.FileHandler.call docRoot files req rep :=
  ⟨handle_index docRoot files hd hslash rep, handle_index docRoot files hd hslash rep,
    handle_index docRoot files hd hslash rep⟩

/-- An escape stands for the slash. -/
theorem directories_are_index_pages_escape :
    let req : Server4.Request := { Server4.Request.fresh with uri := str "/a%2f" }
    let page : Server4.Request := { req with uri := req.uri ++ str "index.html" }
    Server.RequestHandler.handleRequest (str "/www") (fun _ => none) page.toRequest
        (Reply.fresh 0) =
        Server.RequestHandler.handleRequest (str "/www") (fun _ => none) req.toRequest
          (Reply.fresh 0) ∧
      Server2.RequestHandler.handleRequest (str "/www") (fun _ => none) page.toRequest
        (Reply.fresh 0) =
        Server2.RequestHandler.handleRequest (str "/www") (fun _ => none) req.toRequest
          (Reply.fresh 0) ∧
      Server4.FileHandler.call (str "/www") (fun _ => none) page (Reply.fresh 0) =
        Server4.FileHandler.call (str "/www") (fun _ => none) req (Reply.fresh 0) := by
  have hd : urlDecode (str "/a%2f") = some (str "/a/") := by decide +kernel
  exact directories_are_index_pages (str "/www") (fun _ => none)
    { Server4.Request.fresh with uri := str "/a%2f" } (Reply.fresh 0) hd (by decide)

end AsioExamples.Http.RequestHandler
