import AsioExamples.Http.RequestHandler
import AsioExamples.Theory.Path

/-!
# Content types

The type of a file goes by the extension of the decoded path, the file by that path up to its
first NUL. The two are of one mind unless a NUL hides an ending that the table of types knows,
or brings one to light.
-/

namespace AsioExamples.Http.RequestHandler

set_option autoImplicit false

section Extension
variable {p : Bytes}

theorem findLastOf_of_last {c : UInt8} {u v : Bytes} (h : c ∉ v) :
    findLastOf c (u ++ c :: v) = some u.length := by
  have hno : v.reverse.idxOf? c = none := by
    rw [List.idxOf?_eq_none_iff]
    intro hc
    exact h (List.mem_reverse.mp hc)
  have hfind : (v.reverse ++ c :: u.reverse).idxOf? c = some v.length := by
    unfold List.idxOf? at hno ⊢
    rw [List.findIdx?_append, hno]
    simp [List.findIdx?_cons]
  unfold findLastOf
  rw [List.reverse_append, List.reverse_cons, List.append_assoc]
  change ((v.reverse ++ c :: u.reverse).idxOf? c).map _ = _
  rw [hfind, Option.map_some]
  simp only [List.length_append, List.length_cons]
  congr 1
  omega

/-- The search for the last dot and the last slash finds the extension of the path. -/
theorem extension_eq (h : chr '/' ∈ p) :
    extension p = Path.extension (chr '.') (chr '/') p := by
  by_cases hdot : chr '.' ∈ p
  · obtain ⟨u, v, rfl, hv⟩ := Path.exists_last_of_mem hdot
    have hdrop : (u ++ chr '.' :: v).drop (u.length + 1) = v := by simp
    rw [Path.extension_of_last hv]
    unfold extension
    rw [findLastOf_of_last hv]
    by_cases hslash : chr '/' ∈ v
    · obtain ⟨v₁, v₂, rfl, hv₂⟩ := Path.exists_last_of_mem hslash
      have hcut : u ++ chr '.' :: (v₁ ++ chr '/' :: v₂) =
          (u ++ chr '.' :: v₁) ++ chr '/' :: v₂ := by simp
      rw [if_pos hslash, hcut, findLastOf_of_last hv₂]
      simp only [List.length_append, List.length_cons]
      rw [if_neg (by omega)]
    · have hu : chr '/' ∈ u := by
        rcases List.mem_append.mp h with hu | hu
        · exact hu
        · rcases List.mem_cons.mp hu with hu | hu
          · exact absurd hu (by decide)
          · exact absurd hu hslash
      obtain ⟨u₁, u₂, rfl, hu₂⟩ := Path.exists_last_of_mem hu
      have hcut : (u₁ ++ chr '/' :: u₂) ++ chr '.' :: v =
          u₁ ++ chr '/' :: (u₂ ++ chr '.' :: v) := by simp
      have hrest : chr '/' ∉ u₂ ++ chr '.' :: v := by
        intro hm
        rcases List.mem_append.mp hm with hm | hm
        · exact hu₂ hm
        · rcases List.mem_cons.mp hm with hm | hm
          · exact absurd hm (by decide)
          · exact hslash hm
      have hlast : findLastOf (chr '/') ((u₁ ++ chr '/' :: u₂) ++ chr '.' :: v) =
          some u₁.length := by
        rw [hcut, findLastOf_of_last hrest]
      rw [if_neg hslash, hlast]
      simp only [hdrop]
      rw [if_pos (by simp)]
  · have hnone : findLastOf (chr '.') p = none := by
      unfold findLastOf
      rw [List.idxOf?_eq_none_iff.mpr (fun hm => hdot (List.mem_reverse.mp hm))]
      rfl
    unfold extension Path.extension
    rw [hnone, if_neg (fun hx => hdot hx.1)]

end Extension

/-- The type of a path that ends in a dot and an extension of the table. -/
def knownType (path : Bytes) : Option Bytes :=
  (MimeTypes.mappings.find? fun m => (chr '.' :: m.extension).isSuffixOf path).map
    MimeTypes.Mapping.mimeType

section Types

theorem find?_mappings_congr {p q : MimeTypes.Mapping → Bool}
    (h : ∀ m ∈ MimeTypes.mappings, p m = q m) :
    MimeTypes.mappings.find? p = MimeTypes.mappings.find? q := by
  rw [← List.head?_filter, ← List.head?_filter, List.filter_congr h]

theorem extensionToType_extension (path : Bytes) :
    MimeTypes.extensionToType (Path.extension (chr '.') (chr '/') path) =
      (knownType path).getD (str "text/plain") := by
  have htable : ∀ m ∈ MimeTypes.mappings,
      m.extension ≠ [] ∧ chr '.' ∉ m.extension ∧ chr '/' ∉ m.extension := by decide
  have hsame : (MimeTypes.mappings.find? fun m =>
      m.extension == Path.extension (chr '.') (chr '/') path) =
        MimeTypes.mappings.find? fun m => (chr '.' :: m.extension).isSuffixOf path := by
    apply find?_mappings_congr
    intro m hm
    obtain ⟨hne, hdot, hslash⟩ := htable m hm
    rw [Bool.eq_iff_iff, beq_iff_eq, List.isSuffixOf_iff_suffix,
      ← Path.extension_eq_iff hne hdot hslash]
    exact eq_comm
  unfold MimeTypes.extensionToType knownType
  rw [hsame]
  cases List.find? _ MimeTypes.mappings <;> rfl

/-- The type of what is not in the table is no type of the table. -/
theorem knownType_eq_iff (path path' : Bytes) :
    (knownType path).getD (str "text/plain") = (knownType path').getD (str "text/plain") ↔
      knownType path = knownType path' := by
  have htable : ∀ m ∈ MimeTypes.mappings, m.mimeType ≠ str "text/plain" := by decide
  have hne : ∀ q t, knownType q = some t → t ≠ str "text/plain" := by
    intro q t hq
    obtain ⟨m, hm, rfl⟩ := Option.map_eq_some_iff.mp hq
    exact htable m (List.mem_of_find?_eq_some hm)
  constructor
  · intro h
    cases hp : knownType path with
    | none =>
      cases hq : knownType path' with
      | none => rfl
      | some t =>
        rw [hp, hq] at h
        exact absurd h.symm (hne _ t hq)
    | some s =>
      cases hq : knownType path' with
      | none =>
        rw [hp, hq] at h
        exact absurd h (hne _ s hp)
      | some t =>
        rw [hp, hq] at h
        exact congrArg some h
  · intro h
    rw [h]

end Types

def contentType (rep : Reply) : Option Bytes :=
  (rep.headers.find? fun h => h.name == str "Content-Type").map Header.value

/-- A reply with a file has the type that goes with the path the file was opened by. -/
def Labelled (h : Handled) : Prop :=
  h.rep.status = .ok → ∃ path, h.opened = some path ∧
    contentType h.rep =
      some (MimeTypes.extensionToType (Path.extension (chr '.') (chr '/') path))

/-- A NUL in the path of a file that is there makes no difference to the known ending. -/
def SameEnding (docRoot : Bytes) (files : Bytes → Option Bytes) (uri : Bytes) : Prop :=
  ∀ requestPath, Accepts uri requestPath → files (fullPath docRoot requestPath) ≠ none →
    0 ∈ docRoot ++ index requestPath →
      knownType (index requestPath) = knownType (fullPath docRoot requestPath)

section Labels
variable (docRoot : Bytes) (files : Bytes → Option Bytes) {uri : Bytes}

theorem slash_mem_index {requestPath : Bytes} (h : Accepts uri requestPath) :
    chr '/' ∈ index requestPath := by
  obtain ⟨-, -, hhead, -⟩ := h
  have hmem := List.mem_of_head? hhead
  unfold index
  split
  · exact List.mem_append_left _ hmem
  · exact hmem

theorem knownType_append {requestPath : Bytes} (h : Accepts uri requestPath) :
    knownType (docRoot ++ index requestPath) = knownType (index requestPath) := by
  have htable : ∀ m ∈ MimeTypes.mappings, chr '/' ∉ chr '.' :: m.extension := by decide
  unfold knownType
  apply congrArg
  apply find?_mappings_congr
  intro m hm
  rw [Bool.eq_iff_iff, List.isSuffixOf_iff_suffix, List.isSuffixOf_iff_suffix]
  exact Path.suffix_append_iff (slash_mem_index h) (htable m hm)

theorem labelled_of_accepts {requestPath file : Bytes} (h : Accepts uri requestPath)
    (hfile : files (fullPath docRoot requestPath) = some file) (rep : Reply) :
    Labelled (handle docRoot files uri rep) ↔
      knownType (index requestPath) = knownType (fullPath docRoot requestPath) := by
  rw [handle_of_accepts docRoot files h, hfile, ← knownType_eq_iff,
    ← extensionToType_extension, ← extensionToType_extension,
    ← extension_eq (slash_mem_index h)]
  constructor
  · intro hl
    obtain ⟨path, hopened, htype⟩ := hl rfl
    obtain rfl := Option.some.inj hopened
    exact Option.some.inj htype
  · intro heq _
    refine ⟨_, rfl, ?_⟩
    rw [← heq]
    rfl

theorem handle_labelled_iff (rep : Reply) :
    Labelled (handle docRoot files uri rep) ↔ SameEnding docRoot files uri := by
  by_cases h : ∃ requestPath, Accepts uri requestPath
  · obtain ⟨requestPath, hp⟩ := h
    cases hfile : files (fullPath docRoot requestPath) with
    | none =>
      rw [handle_of_accepts docRoot files hp, hfile]
      refine ⟨fun _ q hq hthere => ?_, fun _ hs => StatusType.noConfusion hs⟩
      obtain rfl := hq.unique hp
      exact absurd hfile hthere
    | some file =>
      rw [labelled_of_accepts docRoot files hp hfile]
      constructor
      · intro heq q hq _ _
        obtain rfl := hq.unique hp
        exact heq
      · intro hsame
        by_cases hnul : 0 ∈ docRoot ++ index requestPath
        · exact hsame requestPath hp (by simp [hfile]) hnul
        · rw [fullPath, cStr_eq_self hnul, knownType_append docRoot hp]
  · rw [handle_of_not_accepts docRoot files h]
    refine ⟨fun _ q hq => absurd ⟨q, hq⟩ h, fun _ hs => StatusType.noConfusion hs⟩

end Labels

/-- A file is sent with the type of the file that was opened exactly if no NUL changes the
ending of its path into another that the table knows otherwise. -/
theorem content_types_iff (docRoot : Bytes) (files : Bytes → Option Bytes)
    (req : Server4.Request) (rep : Reply) :
    (Labelled (Server.RequestHandler.handleRequest docRoot files req.toRequest rep) ↔
        SameEnding docRoot files req.uri) ∧
      (Labelled (Server2.RequestHandler.handleRequest docRoot files req.toRequest rep) ↔
        SameEnding docRoot files req.uri) ∧
      (Labelled (Server4.FileHandler.call docRoot files req rep) ↔
        SameEnding docRoot files req.uri) :=
  ⟨handle_labelled_iff docRoot files rep, handle_labelled_iff docRoot files rep,
    handle_labelled_iff docRoot files rep⟩

/-- A text file sent as a page. -/
theorem not_labelled_nul :
    ¬ ∀ docRoot files req rep,
      Labelled (Server.RequestHandler.handleRequest docRoot files req rep) := by
  intro h
  obtain ⟨path, hopened, htype⟩ := h (str "/www")
    (fun path => if path = str "/www/a.txt" then some (str "<b>") else none)
    { Request.fresh with uri := str "/a.txt%00.html" } (Reply.fresh 0) (by decide +kernel)
  have hpath : (Server.RequestHandler.handleRequest (str "/www")
      (fun path => if path = str "/www/a.txt" then some (str "<b>") else none)
      { Request.fresh with uri := str "/a.txt%00.html" } (Reply.fresh 0)).opened =
        some (str "/www/a.txt") := by
    decide +kernel
  obtain rfl := Option.some.inj (hpath.symm.trans hopened)
  revert htype
  decide +kernel

end AsioExamples.Http.RequestHandler
