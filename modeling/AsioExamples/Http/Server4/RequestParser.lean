import AsioExamples.Http.Request
import AsioExamples.Theory.Recogniser

/-!
`http::server4::request_parser`: the parser of the third server, a stackless coroutine.

`consume` is resumed at the `yield` it last left, so its body is cut at the yields: one
function for the code from a loop test, or from a label, up to the next `yield`, `return` or
fall into the code below. The class is generic in `boost::lexical_cast<std::size_t>`, which
is not part of the repository.
-/

namespace AsioExamples.Http.Server4

set_option autoImplicit false

structure Request extends Http.Request where
  content : Bytes
deriving DecidableEq, Repr

def Request.fresh : Request := ⟨Http.Request.fresh, []⟩

namespace RequestParser

open Recogniser

def contentLengthName : Bytes := str "Content-Length"

/-- The yields of the head, in the order of the source. -/
inductive HeadYield where
  | start
  | method
  | methodSpace
  | uri
  | uriSpace
  | h
  | t1
  | t2
  | p
  | slash
  | major
  | dot
  | minor
  | cr
  | newline
  | lws
  | name
  | colon
  | space
  | value
  | valueCr
  | valueNewline
  | lastCr
deriving DecidableEq, Repr

/-- The value of the `coroutine` base: a yield of the head (`start` before the first call),
the yield of the content loop, or finished. -/
inductive Resume where
  | head (y : HeadYield)
  | content
  | done
deriving DecidableEq, Repr

/-- `content_length_` has no initialiser; the first call sets it. -/
structure Parser where
  resume : Resume
  contentLength : Nat
deriving DecidableEq, Repr

def Parser.fresh (contentLength : Nat) : Parser := ⟨.head .start, contentLength⟩

inductive Exit where
  | yield (at_ : HeadYield) (req : Http.Request)
  | returnFalse (req : Http.Request)
  | scan (req : Http.Request)
deriving DecidableEq, Repr

section Head
variable (c : UInt8) (req : Http.Request)

/-- One expected byte: `if (c != want) return false; yield return indeterminate;`. -/
def expect (want : Char) (at_ : HeadYield) : Exit :=
  if c = chr want then .yield at_ req else .returnFalse req

def methodLoop : Exit :=
  if isChar (toInt c) && !isCtl (toInt c) && !isTspecial (toInt c) && c != chr ' ' then
    .yield .method (req.pushMethod c)
  else if req.method.isEmpty then .returnFalse req
  else expect c req ' ' .methodSpace

def uriLoop : Exit :=
  if !isCtl (toInt c) && c != chr ' ' then .yield .uri (req.pushUri c)
  else if req.uri.isEmpty then .returnFalse req
  else expect c req ' ' .uriSpace

def majorLoop : Exit :=
  if isDigit (toInt c) then .yield .major (req.pushMajor c) else expect c req '.' .dot

def minorLoop : Exit :=
  if isDigit (toInt c) then .yield .minor (req.pushMinor c) else expect c req '\r' .cr

def valueLoop : Exit :=
  if isChar (toInt c) && !isCtl (toInt c) && c != chr '\r' then .yield .value (req.pushValue c)
  else expect c req '\r' .valueCr

def lwsLoop : Exit :=
  if c == chr ' ' || c == chr '\t' then .yield .lws req else valueLoop c req

def nameLoop : Exit :=
  if isChar (toInt c) && !isCtl (toInt c) && !isTspecial (toInt c) && c != chr ':' then
    .yield .name (req.pushName c)
  else expect c req ':' .colon

def headersLoop : Exit :=
  if (isChar (toInt c) && !isCtl (toInt c) && !isTspecial (toInt c) && c != chr '\r')
      || (c == chr ' ' || c == chr '\t') then
    if c == chr ' ' || c == chr '\t' then
      if req.headers.isEmpty then .returnFalse req else lwsLoop c req
    else nameLoop c req.pushHeader
  else expect c req '\r' .lastCr

/-- What the first call clears. -/
def cleared : Http.Request := ⟨[], [], some 0, some 0, []⟩

def resumeHead : HeadYield → Exit
  | .start => methodLoop c cleared
  | .method => methodLoop c req
  | .methodSpace => uriLoop c req
  | .uri => uriLoop c req
  | .uriSpace => expect c req 'H' .h
  | .h => expect c req 'T' .t1
  | .t1 => expect c req 'T' .t2
  | .t2 => expect c req 'P' .p
  | .p => expect c req '/' .slash
  | .slash => if !isDigit (toInt c) then .returnFalse req else majorLoop c req
  | .major => majorLoop c req
  | .dot => if !isDigit (toInt c) then .returnFalse req else minorLoop c req
  | .minor => minorLoop c req
  | .cr => expect c req '\n' .newline
  | .newline => headersLoop c req
  | .lws => lwsLoop c req
  | .name => nameLoop c req
  | .colon => expect c req ' ' .space
  | .space => valueLoop c req
  | .value => valueLoop c req
  | .valueCr => expect c req '\n' .valueNewline
  | .valueNewline => headersLoop c req
  | .lastCr => if c = chr '\n' then .scan req else .returnFalse req

end Head

/-- `std::tolower` in the "C" locale. -/
def tolower (c : UInt8) : UInt8 := if 65 ≤ c.toNat ∧ c.toNat ≤ 90 then c + 32 else c

def tolowerCompare (a b : UInt8) : Bool := tolower a == tolower b

def headersEqual (a b : Bytes) : Bool :=
  if a.length ≠ b.length then false else (a.zip b).all fun p => tolowerCompare p.1 p.2

section Body
variable (cast : Bytes → Option Nat)

/-- The scan for Content-Length: whether every value met could be cast, and `content_length_`
after it. A value that cannot be cast ends the scan. -/
def scanHeaders : List Header → Nat → Bool × Nat
  | [], contentLength => (true, contentLength)
  | header :: rest, contentLength =>
    if headersEqual header.name contentLengthName then
      match cast header.value with
      | some length => scanHeaders rest length
      | none => (false, contentLength)
    else scanHeaders rest contentLength

/-- The test of the content loop; below the loop the coroutine ends and `consume` returns true. -/
def contentLoop (contentLength : Nat) (req : Request) : Tribool × Parser × Request :=
  if req.content.length < contentLength then
    (.indeterminate, ⟨.content, contentLength⟩, req)
  else (.yes, ⟨.done, contentLength⟩, req)

def scan (contentLength : Nat) (req : Request) : Tribool × Parser × Request :=
  match scanHeaders cast req.headers contentLength with
  | (true, length) => contentLoop length req
  | (false, length) => (.no, ⟨.done, length⟩, req)

/-- A return that is no yield leaves the coroutine finished, and a finished coroutine falls
through to `return true`. -/
def consume (p : Parser × Request) (c : UInt8) : Tribool × Parser × Request :=
  let (parser, req) := p
  match parser.resume with
  | .done => (.yes, parser, req)
  | .content => contentLoop parser.contentLength { req with content := req.content ++ [c] }
  | .head y =>
    let contentLength := if y = .start then 0 else parser.contentLength
    let content := if y = .start then [] else req.content
    match resumeHead c req.toRequest y with
    | .yield at_ r => (.indeterminate, ⟨.head at_, contentLength⟩, ⟨r, content⟩)
    | .returnFalse r => (.no, ⟨.done, contentLength⟩, ⟨r, content⟩)
    | .scan r => scan cast contentLength ⟨r, content⟩

def parse (p : Parser × Request) (input : Bytes) : Outcome (Parser × Request) :=
  run (consume cast) p input

end Body

end RequestParser

end AsioExamples.Http.Server4
