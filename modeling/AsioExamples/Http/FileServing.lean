import AsioExamples.Http.RequestHandler

/-!
# Files are served whole

The file is read in pieces of 512 bytes until a read delivers nothing. Whatever the length of
the file, all of it gets into the reply.
-/

namespace AsioExamples.Http.RequestHandler

set_option autoImplicit false

/-- A `std::ifstream`: what is left to read and whether a read has come short. -/
structure FileStream where
  rest : Bytes
  failed : Bool

namespace FileStream

def opened (file : Bytes) : FileStream := ⟨file, false⟩

/-- `read(buf, n)`: the characters delivered, of which `gcount()` is the number. -/
def read (is : FileStream) (n : Nat) : Bytes × FileStream :=
  if is.failed then ([], is) else (is.rest.take n, ⟨is.rest.drop n, is.rest.length < n⟩)

/-- `while (is.read(buf, sizeof(buf)).gcount() > 0) content.append(buf, is.gcount());` for so
many tests of the condition; `none` when they are not enough. -/
def appendAll : Nat → FileStream → Bytes → Option Bytes
  | 0, _, _ => none
  | fuel + 1, is, content =>
    let (buf, is) := is.read 512
    if buf.length > 0 then appendAll fuel is (content ++ buf) else some content

theorem appendAll_failed (fuel : Nat) (rest content : Bytes) :
    appendAll (fuel + 1) ⟨rest, true⟩ content = some content := rfl

theorem appendAll_opened {fuel : Nat} {file : Bytes} (h : file.length < fuel * 512)
    (content : Bytes) : appendAll (fuel + 1) (opened file) content = some (content ++ file) := by
  induction fuel generalizing file content with
  | zero => omega
  | succ fuel ih =>
    by_cases hshort : file.length < 512
    · have htake : file.take 512 = file := List.take_of_length_le (Nat.le_of_lt hshort)
      cases file with
      | nil => simp [appendAll, opened, read]
      | cons c file =>
        have hread : (opened (c :: file)).read 512 = (c :: file, ⟨[], true⟩) := by
          have hdrop := List.drop_eq_nil_of_le (Nat.le_of_lt hshort)
          simp only [opened, read, Bool.false_eq_true, if_false, htake, hdrop, hshort,
            decide_true]
        rw [appendAll, hread]
        exact appendAll_failed fuel [] _
    · have hread : (opened file).read 512 = (file.take 512, opened (file.drop 512)) := by
        simp [opened, read, hshort]
      have hlen : (file.take 512).length > 0 := by
        rw [List.length_take]
        omega
      have hrest : (file.drop 512).length < fuel * 512 := by
        rw [List.length_drop]
        omega
      rw [appendAll, hread]
      simp only [hlen, if_true]
      rw [ih hrest, List.append_assoc, List.take_append_drop]

end FileStream

/-- A reply to a uri: 400 where the uri is rejected, 404 where there is no file, and else the
whole file, with its length. -/
def Serves (docRoot : Bytes) (files : Bytes → Option Bytes) (uri : Bytes) (rep : Reply) : Prop :=
  (rep.status = .badRequest ↔ ¬ ∃ requestPath, Accepts uri requestPath) ∧
    ∀ requestPath, Accepts uri requestPath →
      (rep.status = .notFound ↔ files (fullPath docRoot requestPath) = none) ∧
      ∀ file, files (fullPath docRoot requestPath) = some file →
        rep.status = .ok ∧ rep.content = file ∧
        rep.headers.head? = some ⟨str "Content-Length", Decimal.decimal file.length⟩

section Handle
variable (docRoot : Bytes) (files : Bytes → Option Bytes) {uri : Bytes}

theorem handle_serves (value : Nat) :
    Serves docRoot files uri (handle docRoot files uri (Reply.fresh value)).rep := by
  by_cases h : ∃ requestPath, Accepts uri requestPath
  · obtain ⟨requestPath, hp⟩ := h
    rw [handle_of_accepts docRoot files hp]
    cases hfile : files (fullPath docRoot requestPath) with
    | none =>
      refine ⟨⟨fun hs => StatusType.noConfusion hs, fun h => absurd ⟨_, hp⟩ h⟩, ?_⟩
      intro q hq
      obtain rfl := hq.unique hp
      refine ⟨⟨fun _ => hfile, fun _ => rfl⟩, ?_⟩
      intro file hf
      rw [hfile] at hf
      cases hf
    | some file =>
      refine ⟨⟨fun hs => StatusType.noConfusion hs, fun h => absurd ⟨_, hp⟩ h⟩, ?_⟩
      intro q hq
      obtain rfl := hq.unique hp
      refine ⟨⟨fun hs => StatusType.noConfusion hs, fun hf => ?_⟩, ?_⟩
      · rw [hfile] at hf
        cases hf
      · intro file' hf
        rw [hfile] at hf
        obtain rfl := Option.some.inj hf
        exact ⟨rfl, rfl, rfl⟩
  · rw [handle_of_not_accepts docRoot files h]
    refine ⟨⟨fun _ => h, fun _ => rfl⟩, ?_⟩
    intro requestPath hp
    exact absurd ⟨requestPath, hp⟩ h

end Handle

/-- The servers reject what is no path below the root, miss what is not there and serve the
rest whole; and the loop that reads a file comes to an end. -/
theorem files_served_whole (docRoot : Bytes) (files : Bytes → Option Bytes)
    (req : Server4.Request) (value : Nat) :
    Serves docRoot files req.uri (Server.RequestHandler.handleRequest docRoot files req.toRequest
        (Reply.fresh value)).rep ∧
      Serves docRoot files req.uri (Server2.RequestHandler.handleRequest docRoot files
        req.toRequest (Reply.fresh value)).rep ∧
      Serves docRoot files req.uri (Server4.FileHandler.call docRoot files req
        (Reply.fresh value)).rep ∧
      ∀ file content, ∃ n, ∀ fuel, n ≤ fuel →
        FileStream.appendAll fuel (.opened file) content = some (readLoop file content) := by
  refine ⟨handle_serves docRoot files value, handle_serves docRoot files value,
    handle_serves docRoot files value, ?_⟩
  intro file content
  refine ⟨file.length / 512 + 2, ?_⟩
  intro fuel hfuel
  obtain ⟨k, rfl⟩ := Nat.exists_eq_add_of_le hfuel
  have henough : file.length < (file.length / 512 + 1 + k) * 512 := by omega
  have hloop := FileStream.appendAll_opened henough content
  rw [readLoop_eq, ← hloop]
  congr 1
  omega

end AsioExamples.Http.RequestHandler
