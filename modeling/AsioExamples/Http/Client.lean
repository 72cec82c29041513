import AsioExamples.Bytes
import AsioExamples.Http.RequestHead
import AsioExamples.Theory.Decimal
import AsioExamples.Theory.ReadLoop

/-!
How the two HTTP clients of the first server read a reply. Both use an `std::istream` over the
streambuf that the reads append to: the asynchronous client one for each handler, the other one
for all of it.
-/

namespace AsioExamples.Http

set_option autoImplicit false

/-- `std::istream` over a streambuf: what is left in that and two bits of the state. -/
structure IStream where
  buf : Bytes
  eof : Bool
  fail : Bool
deriving DecidableEq, Repr

namespace IStream

def fresh (buf : Bytes) : IStream := ⟨buf, false, false⟩

def good (s : IStream) : Bool := !s.eof && !s.fail

/-- An extraction from a stream that is not good only sets `failbit`. -/
def refuse (s : IStream) : IStream := { s with fail := true }

/-- `>>` into a `std::string`. -/
def word (s : IStream) : Bytes × IStream :=
  if s.good then
    let rest := s.buf.dropWhile isSpace
    let text := rest.takeWhile fun c => !isSpace c
    let rest := rest.dropWhile fun c => !isSpace c
    (text, ⟨rest, rest.isEmpty, text.isEmpty⟩)
  else ([], s.refuse)

/-- `>>` into an `unsigned int` of 32 bits. -/
def number (s : IStream) : Nat × IStream :=
  if s.good then
    let rest := s.buf.dropWhile isSpace
    let (negative, rest) :=
      match rest with
      | c :: t =>
        if c = chr '-' then (true, t) else if c = chr '+' then (false, t) else (false, rest)
      | [] => (false, rest)
    let digits := rest.takeWhile Decimal.isDecimalDigit
    let rest := rest.dropWhile Decimal.isDecimalDigit
    let value := Decimal.valueOf digits
    if digits = [] then (0, ⟨rest, rest.isEmpty, true⟩)
    else if 4294967295 < value then (4294967295, ⟨rest, rest.isEmpty, true⟩)
    else (if negative then (4294967296 - value) % 4294967296 else value,
      ⟨rest, rest.isEmpty, false⟩)
  else (0, s.refuse)

/-- `std::getline`. -/
def line (s : IStream) : Bytes × IStream :=
  if s.good then
    let text := s.buf.takeWhile fun c => c != chr '\n'
    match s.buf.dropWhile fun c => c != chr '\n' with
    | [] => (text, ⟨[], true, text.isEmpty⟩)
    | _ :: rest => (text, ⟨rest, false, false⟩)
  else ([], s.refuse)

theorem line_lt {s : IStream} (h : s.line.2.fail = false) :
    s.line.2.buf.length < s.buf.length := by
  unfold line at h ⊢
  cases hg : s.good with
  | false => simp [hg, refuse] at h
  | true =>
    have hcut := List.takeWhile_append_dropWhile (p := fun c => c != chr '\n') (l := s.buf)
    simp only [hg, if_true] at h ⊢
    rcases hd : s.buf.dropWhile fun c => c != chr '\n' with _ | ⟨c, rest⟩
    · rw [hd] at hcut
      simp only [hd, List.isEmpty_eq_false_iff] at h
      rw [List.append_nil] at hcut
      rw [← hcut]
      exact List.length_pos_iff.mpr h
    · rw [hd] at hcut
      rw [← hcut, List.length_append, List.length_cons]
      exact Nat.lt_of_lt_of_le (Nat.lt_succ_self _) (Nat.le_add_left _ _)

end IStream

/-- `std::cout`: what was written, and whether writing has failed. -/
structure OStream where
  text : Bytes
  fail : Bool
deriving DecidableEq, Repr

namespace OStream

def empty : OStream := ⟨[], false⟩

def put (s : OStream) (text : Bytes) : OStream :=
  if s.fail then s else { s with text := s.text ++ text }

/-- `<<` of a streambuf, which fails when there is nothing in it. -/
def putBuffer (s : OStream) (buf : Bytes) : OStream :=
  if s.fail then s else ⟨s.text ++ buf, buf.isEmpty⟩

end OStream

/-- The checks of the status line: nothing where the response is invalid, else the code. -/
def readStatusLine (s : IStream) : Option Nat × IStream :=
  let (httpVersion, s) := s.word
  let (statusCode, s) := s.number
  let (_, s) := s.line
  if s.fail || httpVersion.take 5 != str "HTTP/" then (none, s) else (some statusCode, s)

/-- `while (std::getline(response_stream, header) && header != "\r")`, each one printed. -/
def printHeaders (s : IStream) (out : OStream) : IStream × OStream :=
  if _h : s.line.2.fail = false ∧ s.line.1 ≠ str "\r" then
    printHeaders s.line.2 (out.put (s.line.1 ++ str "\n"))
  else (s.line.2, out)
termination_by s.buf.length
decreasing_by exact IStream.line_lt _h.1

def putRest (out : OStream) (buf : Bytes) : OStream :=
  if buf.length > 0 then out.putBuffer buf else out

section Clients

-- How the library words the end of the stream where a read does not expect it.
variable (eof : Bytes)

/-- The `response_` of the asynchronous client and what it has printed. -/
structure AsyncClient where
  response : Bytes
  out : OStream
deriving DecidableEq, Repr

namespace AsyncClient

def error (c : AsyncClient) : AsyncClient :=
  { c with out := c.out.put (str "Error: " ++ eof ++ str "\n") }

/-- `handle_read_content`. What is printed is taken out of the streambuf. -/
def handleReadContent (c : AsyncClient) : AsyncClient :=
  { response := if c.out.fail then c.response else [], out := c.out.putBuffer c.response }

def handleReadHeaders (c : AsyncClient) : AsyncClient :=
  let (s, out) := printHeaders (.fresh c.response) c.out
  let out := out.put (str "\n")
  { response := if out.fail then s.buf else [], out := putRest out s.buf }

/-- `handle_read_status_line`, and whether the headers are read next. -/
def handleReadStatusLine (c : AsyncClient) : AsyncClient × Bool :=
  match readStatusLine (.fresh c.response) with
  | (none, s) => ({ response := s.buf, out := c.out.put (str "Invalid response\n") }, false)
  | (some statusCode, s) =>
    if statusCode ≠ 200 then
      ({ response := s.buf
         out := c.out.put (str "Response returned with status code " ++
          Decimal.decimal statusCode ++ str "\n") }, false)
    else ({ response := s.buf, out := c.out }, true)

/-- `async_read` of at least one byte, again and again; the end of the stream prints nothing. -/
def readContent (c : AsyncClient) : List Bytes → AsyncClient
  | [] => c
  | piece :: pieces =>
    readContent { c with response := c.response ++ piece }.handleReadContent pieces

def readHeaders (c : AsyncClient) (pieces : List Bytes) : AsyncClient :=
  match readUntil (crlf ++ crlf) c.response pieces with
  | none => c.error eof
  | some (response, pieces) => { c with response }.handleReadHeaders.readContent pieces

/-- From `handle_write_request` on, for a stream that comes in `pieces`. -/
def run (pieces : List Bytes) : AsyncClient :=
  let c : AsyncClient := ⟨[], OStream.empty⟩
  match readUntil crlf c.response pieces with
  | none => c.error eof
  | some (response, pieces) =>
    match { c with response }.handleReadStatusLine with
    | (c, true) => c.readHeaders eof pieces
    | (c, false) => c

end AsyncClient

namespace SyncClient

/-- `while (read(socket, response, transfer_at_least(1), error)) std::cout << &response;`. -/
def readContent (response : Bytes) (out : OStream) : List Bytes → OStream
  | [] => out
  | piece :: pieces =>
    let response := response ++ piece
    readContent (if out.fail then response else []) (out.putBuffer response) pieces

def exception (out : OStream) : OStream := out.put (str "Exception: " ++ eof ++ str "\n")

/-- `main` from the first read of the response on. `response_stream` is one stream all along. -/
def run (pieces : List Bytes) : OStream :=
  let out := OStream.empty
  match readUntil crlf [] pieces with
  | none => exception eof out
  | some (response, pieces) =>
    match readStatusLine (.fresh response) with
    | (none, _) => out.put (str "Invalid response\n")
    | (some statusCode, responseStream) =>
      if statusCode ≠ 200 then
        out.put (str "Response returned with status code " ++ Decimal.decimal statusCode ++
          str "\n")
      else
        match readUntil (crlf ++ crlf) responseStream.buf pieces with
        | none => exception eof out
        | some (response, pieces) =>
          let (responseStream, out) := printHeaders { responseStream with buf := response } out
          let out := out.put (str "\n")
          readContent (if out.fail then responseStream.buf else []) (putRest out responseStream.buf)
            pieces

end SyncClient

end Clients

end AsioExamples.Http
