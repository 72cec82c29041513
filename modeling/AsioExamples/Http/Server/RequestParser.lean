import AsioExamples.Http.Request
import AsioExamples.Theory.Recogniser

/-! `http::server::request_parser`: the parser of the first server, one state for each thing
it waits for. -/

namespace AsioExamples.Http.Server.RequestParser

set_option autoImplicit false

open Recogniser

inductive State where
  | methodStart
  | method
  | uri
  | httpVersionH
  | httpVersionT1
  | httpVersionT2
  | httpVersionP
  | httpVersionSlash
  | httpVersionMajorStart
  | httpVersionMajor
  | httpVersionMinorStart
  | httpVersionMinor
  | expectingNewline1
  | headerLineStart
  | headerLws
  | headerName
  | spaceBeforeHeaderValue
  | headerValue
  | expectingNewline2
  | expectingNewline3
deriving DecidableEq, Repr

/-- The constructor and `reset` set the same state. -/
def reset : State := .methodStart

/-- The next character of input: the verdict, the new state and the request built so far. -/
def consume (p : State × Request) (input : UInt8) : Tribool × State × Request :=
  let (state, req) := p
  match state with
  | .methodStart =>
    if !isChar (toInt input) || isCtl (toInt input) || isTspecial (toInt input) then
      (.no, state, req)
    else
      (.indeterminate, .method, req.pushMethod input)
  | .method =>
    if input = chr ' ' then
      (.indeterminate, .uri, req)
    else if !isChar (toInt input) || isCtl (toInt input) || isTspecial (toInt input) then
      (.no, state, req)
    else
      (.indeterminate, state, req.pushMethod input)
  | .uri =>
    if input = chr ' ' then
      (.indeterminate, .httpVersionH, req)
    else if isCtl (toInt input) then
      (.no, state, req)
    else
      (.indeterminate, state, req.pushUri input)
  | .httpVersionH =>
    if input = chr 'H' then (.indeterminate, .httpVersionT1, req) else (.no, state, req)
  | .httpVersionT1 =>
    if input = chr 'T' then (.indeterminate, .httpVersionT2, req) else (.no, state, req)
  | .httpVersionT2 =>
    if input = chr 'T' then (.indeterminate, .httpVersionP, req) else (.no, state, req)
  | .httpVersionP =>
    if input = chr 'P' then (.indeterminate, .httpVersionSlash, req) else (.no, state, req)
  | .httpVersionSlash =>
    if input = chr '/' then
      (.indeterminate, .httpVersionMajorStart, req.resetVersion)
    else
      (.no, state, req)
  | .httpVersionMajorStart =>
    if isDigit (toInt input) then
      (.indeterminate, .httpVersionMajor, req.pushMajor input)
    else
      (.no, state, req)
  | .httpVersionMajor =>
    if input = chr '.' then
      (.indeterminate, .httpVersionMinorStart, req)
    else if isDigit (toInt input) then
      (.indeterminate, state, req.pushMajor input)
    else
      (.no, state, req)
  | .httpVersionMinorStart =>
    if isDigit (toInt input) then
      (.indeterminate, .httpVersionMinor, req.pushMinor input)
    else
      (.no, state, req)
  | .httpVersionMinor =>
    if input = chr '\r' then
      (.indeterminate, .expectingNewline1, req)
    else if isDigit (toInt input) then
      (.indeterminate, state, req.pushMinor input)
    else
      (.no, state, req)
  | .expectingNewline1 =>
    if input = chr '\n' then (.indeterminate, .headerLineStart, req) else (.no, state, req)
  | .headerLineStart =>
    if input = chr '\r' then
      (.indeterminate, .expectingNewline3, req)
    else if !req.headers.isEmpty && (input == chr ' ' || input == chr '\t') then
      (.indeterminate, .headerLws, req)
    else if !isChar (toInt input) || isCtl (toInt input) || isTspecial (toInt input) then
      (.no, state, req)
    else
      (.indeterminate, .headerName, req.pushHeader.pushName input)
  | .headerLws =>
    if input = chr '\r' then
      (.indeterminate, .expectingNewline2, req)
    else if input == chr ' ' || input == chr '\t' then
      (.indeterminate, state, req)
    else if isCtl (toInt input) then
      (.no, state, req)
    else
      (.indeterminate, .headerValue, req.pushValue input)
  | .headerName =>
    if input = chr ':' then
      (.indeterminate, .spaceBeforeHeaderValue, req)
    else if !isChar (toInt input) || isCtl (toInt input) || isTspecial (toInt input) then
      (.no, state, req)
    else
      (.indeterminate, state, req.pushName input)
  | .spaceBeforeHeaderValue =>
    if input = chr ' ' then (.indeterminate, .headerValue, req) else (.no, state, req)
  | .headerValue =>
    if input = chr '\r' then
      (.indeterminate, .expectingNewline2, req)
    else if isCtl (toInt input) then
      (.no, state, req)
    else
      (.indeterminate, state, req.pushValue input)
  | .expectingNewline2 =>
    if input = chr '\n' then (.indeterminate, .headerLineStart, req) else (.no, state, req)
  | .expectingNewline3 =>
    if input = chr '\n' then (.yes, state, req) else (.no, state, req)

/-- `parse` calls `consume` on one character after another until the answer is decided, and
returns it with the number of characters taken. -/
def parse (p : State × Request) (input : Bytes) : Outcome (State × Request) :=
  run consume p input

end AsioExamples.Http.Server.RequestParser
