import AsioExamples.Http.Reply
import AsioExamples.Http.Server4.RequestParser
import Mathlib.Data.List.Infix

/-!
`request_handler`: from a request to a reply. The three servers hold the same code, so it is
one definition here, and each server's own is that definition applied to its request.

The files are a function from the paths the operating system is asked for to the contents of
the files that can be opened.
-/

namespace AsioExamples.Http

set_option autoImplicit false

namespace RequestHandler

def hexDigit (c : UInt8) : Option Nat :=
  if chr '0' ≤ c ∧ c ≤ chr '9' then some (c.toNat - 48)
  else if chr 'a' ≤ c ∧ c ≤ chr 'f' then some (c.toNat - 87)
  else if chr 'A' ≤ c ∧ c ≤ chr 'F' then some (c.toNat - 55)
  else none

def hexDigits : Bytes → List Nat
  | [] => []
  | c :: s =>
    match hexDigit c with
    | some d => d :: hexDigits s
    | none => []

/-- `std::istringstream(s) >> std::hex >> value` for an `int`: blanks, a sign, `0x` and then
the longest run of hexadecimal digits, of which there must be one. What follows is not read.
Two characters never overflow. -/
def extractHex (s : Bytes) : Option Int :=
  let s := s.dropWhile isSpace
  let (negative, s) :=
    match s with
    | c :: t => if c = chr '-' then (true, t) else if c = chr '+' then (false, t) else (false, s)
    | [] => (false, s)
  let digits :=
    match s with
    | z :: x :: t =>
      if z = chr '0' ∧ (x = chr 'x' ∨ x = chr 'X') then hexDigits t else hexDigits s
    | _ => hexDigits s
  if digits = [] then none
  else
    let n : Int := digits.foldl (fun v d => v * 16 + d) 0
    some (if negative then -n else n)

def toChar (value : Int) : UInt8 := UInt8.ofNat (value % 256).toNat

/-- The path decoded, or `none` where the source returns false. -/
def urlDecode : Bytes → Option Bytes
  | [] => some []
  | c :: rest =>
    if c = chr '%' then
      match rest with
      | a :: b :: rest =>
        match extractHex [a, b] with
        | some value => (urlDecode rest).map (toChar value :: ·)
        | none => none
      | _ => none
    else if c = chr '+' then (urlDecode rest).map (chr ' ' :: ·)
    else (urlDecode rest).map (c :: ·)

/-- `std::string::find_last_of` for one character, `none` for `npos`. -/
def findLastOf (c : UInt8) (s : Bytes) : Option Nat :=
  (s.reverse.idxOf? c).map fun i => s.length - 1 - i

/-- The extension: what follows the last dot, if that comes after the last slash. A position
is never greater than `npos`. -/
def extension (requestPath : Bytes) : Bytes :=
  match findLastOf (chr '.') requestPath, findLastOf (chr '/') requestPath with
  | some dot, some slash => if slash < dot then requestPath.drop (dot + 1) else []
  | _, _ => []

/-- The loop that reads the file, 512 bytes at a time; a short read is the last one. -/
def readLoop (file content : Bytes) : Bytes :=
  let buf := file.take 512
  if _h : buf.isEmpty then content
  else if buf.length < 512 then content ++ buf
  else readLoop (file.drop 512) (content ++ buf)
termination_by file.length
decreasing_by
  have : buf ≠ [] := by simpa using _h
  have := List.length_pos_iff.mpr this
  simp only [buf, List.length_take, List.length_drop] at this ⊢
  omega

/-- What one call does: the path it asks the operating system to open, if it gets there, and
the reply. -/
structure Handled where
  opened : Option Bytes
  rep : Reply
deriving DecidableEq, Repr

def index (requestPath : Bytes) : Bytes :=
  if requestPath.getLast? = some (chr '/') then requestPath ++ str "index.html" else requestPath

def handle (docRoot : Bytes) (files : Bytes → Option Bytes) (uri : Bytes) (rep : Reply) :
    Handled :=
  match urlDecode uri with
  | none => ⟨none, Reply.stockReply .badRequest⟩
  | some requestPath =>
    if requestPath = [] ∨ requestPath.head? ≠ some (chr '/') ∨ str ".." <:+: requestPath then
      ⟨none, Reply.stockReply .badRequest⟩
    else
      let requestPath := index requestPath
      let fullPath := cStr (docRoot ++ requestPath)
      match files fullPath with
      | none => ⟨some fullPath, Reply.stockReply .notFound⟩
      | some file =>
        let content := readLoop file rep.content
        ⟨some fullPath,
          ⟨.ok, contentHeaders content (MimeTypes.extensionToType (extension requestPath)),
            content⟩⟩

theorem readLoop_eq (file content : Bytes) : readLoop file content = content ++ file := by
  induction file, content using readLoop.induct with
  | case1 file content buf h =>
    have : file = [] := by simpa [buf] using h
    subst this
    simp [readLoop]
  | case2 file content buf h hlt =>
    have hbuf : file.take 512 = file := by
      apply List.take_of_length_le
      simp only [buf, List.length_take] at hlt
      omega
    rw [readLoop, dif_neg h, if_pos hlt, hbuf]
  | case3 file content buf h hge ih =>
    rw [readLoop, dif_neg h, if_neg hge, ih, List.append_assoc, List.take_append_drop]

/-- The decoded path of a uri that is not rejected. -/
def Accepts (uri requestPath : Bytes) : Prop :=
  urlDecode uri = some requestPath ∧ requestPath ≠ [] ∧ requestPath.head? = some (chr '/') ∧
    ¬ str ".." <:+: requestPath

def fullPath (docRoot requestPath : Bytes) : Bytes := cStr (docRoot ++ index requestPath)

section Handle
variable (docRoot : Bytes) (files : Bytes → Option Bytes) {uri : Bytes}

theorem handle_of_not_accepts (h : ¬ ∃ requestPath, Accepts uri requestPath) (rep : Reply) :
    handle docRoot files uri rep = ⟨none, Reply.stockReply .badRequest⟩ := by
  unfold handle
  cases hd : urlDecode uri with
  | none => rfl
  | some requestPath =>
    by_cases hbad : requestPath = [] ∨ requestPath.head? ≠ some (chr '/') ∨
        str ".." <:+: requestPath
    · simp only [hbad, if_true]
    · obtain ⟨hne, hrest⟩ := not_or.mp hbad
      obtain ⟨hhead, hdots⟩ := not_or.mp hrest
      exact absurd ⟨requestPath, hd, hne, not_not.mp hhead, hdots⟩ h

theorem handle_of_accepts {requestPath : Bytes} (h : Accepts uri requestPath) (rep : Reply) :
    handle docRoot files uri rep =
      ⟨some (fullPath docRoot requestPath),
        match files (fullPath docRoot requestPath) with
        | none => Reply.stockReply .notFound
        | some file =>
          let content := rep.content ++ file
          let contentType := MimeTypes.extensionToType (extension (index requestPath))
          ⟨.ok, contentHeaders content contentType, content⟩⟩ := by
  obtain ⟨hd, hne, hhead, hdots⟩ := h
  unfold handle fullPath
  rw [hd]
  simp only [hne, hhead, hdots, ne_eq, not_true_eq_false, or_self, if_false, readLoop_eq]
  cases files (cStr (docRoot ++ index requestPath)) with
  | none => rfl
  | some file => rfl

theorem Accepts.unique {p q : Bytes} (hp : Accepts uri p) (hq : Accepts uri q) : p = q :=
  Option.some.inj (hp.1.symm.trans hq.1)

end Handle

end RequestHandler

namespace Server.RequestHandler

def handleRequest (docRoot : Bytes) (files : Bytes → Option Bytes) (req : Request)
    (rep : Reply) : RequestHandler.Handled := Http.RequestHandler.handle docRoot files req.uri rep

end Server.RequestHandler

namespace Server2.RequestHandler

def handleRequest (docRoot : Bytes) (files : Bytes → Option Bytes) (req : Request)
    (rep : Reply) : RequestHandler.Handled := Http.RequestHandler.handle docRoot files req.uri rep

end Server2.RequestHandler

namespace Server4.FileHandler

/-- `file_handler::operator()`. -/
def call (docRoot : Bytes) (files : Bytes → Option Bytes) (req : Server4.Request)
    (rep : Reply) : RequestHandler.Handled := Http.RequestHandler.handle docRoot files req.uri rep

end Server4.FileHandler

end AsioExamples.Http
