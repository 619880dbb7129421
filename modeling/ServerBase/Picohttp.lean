import ServerBase.Lib.Scanner
import ServerBase.Prereqs

/-!
# `phr_parse_request`

The request half of `utils/picohttpparser.c`, as an incremental scanner. `CHECK_EOF` is the
answer `more` (`-2` in C), every other `return NULL` the answer `fail` (`-1`). The SSE variants of
the inner loops accept the same bytes as the plain ones and are not modelled apart.

`http_on_read` always passes `last_len = 0`, so `is_complete` is never called.
-/

namespace ServerBase

open Scanner

/-! ## Character classes -/

def cr : UInt8 := 13
def lf : UInt8 := 10
def sp : UInt8 := 32
def ht : UInt8 := 9
def colon : UInt8 := 58

/-- `token_char_map` -/
def isTokenChar (c : UInt8) : Bool :=
  (48 ≤ c && c ≤ 57) || (65 ≤ c && c ≤ 90) || (97 ≤ c && c ≤ 122) ||
    (bytes "!#$%&'*+-.^_").contains c || c = 96 || c = 124 || c = 126

/-- A control character other than those the caller allows: below `\040`, or DEL. -/
def isCtl (c : UInt8) : Bool := c < 32 || c = 127

/-! ## Pieces of a request -/

/-- `parse_token`: up to `nextChar`, which stays in place. -/
def parseToken (nextChar : UInt8) : Scanner UInt8 Bytes :=
  span (fun c => c = nextChar) isTokenChar

/-- `ADVANCE_TOKEN`: up to a space, over everything but control characters. -/
def advanceToken : Scanner UInt8 Bytes := span (fun c => c = sp) fun c => !isCtl c

/-- `do { ++buf; CHECK_EOF(); } while (*buf == ' ');`, called where a token has stopped at a
space. -/
def skipSpaces : Scanner UInt8 Unit := do
  expect sp
  skipWhile fun c => c = sp

/-- CR LF or LF; anything else is refused. -/
def endOfLine : Scanner UInt8 Unit := do
  let c ← next
  if c = cr then expect lf else if c = lf then pure () else fail

/-- Skip the empty line some clients send after a body. -/
def skipEmptyLine : Scanner UInt8 Unit := do
  let c ← peek
  if c = cr ∨ c = lf then endOfLine else pure ()

/-- `get_token_to_eol`: a value up to the end of its line. HT is the only control character
allowed in it. -/
def getTokenToEol : Scanner UInt8 Bytes := do
  let token ← span (fun c => isCtl c && c != ht) fun _ => true
  endOfLine
  pure token

/-- `parse_http_version`: `HTTP/1.` and one digit. Nothing is looked at before nine bytes are
there. -/
def parseHttpVersion : Scanner UInt8 Nat := do
  atLeast 9
  expect 72
  expect 84
  expect 84
  expect 80
  expect 47
  expect 49
  expect 46
  let c ← next
  if 48 ≤ c ∧ c ≤ 57 then pure (c.toNat - 48) else fail

/-- `struct phr_header`; a continuation line has no name. -/
structure PhrHeader where
  name : Option Bytes
  value : Bytes
  deriving DecidableEq

/-- `value` without trailing SPs and HTABs. -/
def trimRight (value : Bytes) : Bytes :=
  (value.reverse.dropWhile fun c => c = sp || c = ht).reverse

/-- A header name, its colon, and the blanks behind it. -/
def headerName : Scanner UInt8 Bytes := do
  let name ← parseToken colon
  if name = [] then fail
  else do
    expect colon
    skipWhile fun c => c = sp || c = ht
    pure name

/-- `parse_headers`, with `room` headers left of `max_headers`. -/
def parseHeaders : Nat → List PhrHeader → Scanner UInt8 (List PhrHeader)
  | room, headers => do
      let c ← peek
      if c = cr ∨ c = lf then do
        endOfLine
        pure headers
      else
        match room with
        | 0 => fail
        | room + 1 => do
            let name ← if headers ≠ [] ∧ (c = sp ∨ c = ht) then pure none else do
              let name ← headerName
              pure (some name)
            let value ← getTokenToEol
            parseHeaders room (headers ++ [⟨name, trimRight value⟩])

/-- What `phr_parse_request` reports through its pointers. -/
structure PhrRequest where
  method : Bytes
  path : Bytes
  minorVersion : Nat
  headers : List PhrHeader

def maxHeaders : Nat := 64

/-- The request line up to the space behind the path. -/
def requestTarget : Scanner UInt8 (Bytes × Bytes) := do
  skipEmptyLine
  let method ← parseToken sp
  skipSpaces
  let path ← advanceToken
  pure (method, path)

/-- The request line from the HTTP version on, and the headers. -/
def requestRest (method path : Bytes) : Scanner UInt8 PhrRequest := do
  if method = [] ∨ path = [] then fail
  else do
    let minorVersion ← parseHttpVersion
    endOfLine
    let headers ← parseHeaders maxHeaders []
    pure ⟨method, path, minorVersion, headers⟩

/-- `parse_request` -/
def parseRequest : Scanner UInt8 PhrRequest := do
  let (method, path) ← requestTarget
  skipSpaces
  requestRest method path

/-- The result of `phr_parse_request`: the length of the head and its parts, or `-1`, or `-2`. -/
inductive PhrResult
  | success (pret : Nat) (req : PhrRequest)
  | malformed
  | incomplete

/-- `phr_parse_request(buf, len, ...)` on the first `len` bytes. -/
def phrParseRequest (buf : Bytes) : PhrResult :=
  match parseRequest.run buf with
  | .done req rest => .success (buf.length - rest.length) req
  | .fail => .malformed
  | .more => .incomplete

end ServerBase
