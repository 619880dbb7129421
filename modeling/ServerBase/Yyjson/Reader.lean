import ServerBase.Yyjson.Numbers
import ServerBase.Lib.Json.Spelling

/-!
# The document reader of `utils/yyjson.c`

`yyjson_read` fills one array of values: a container comes in front of what it holds, and carries
its size and the distance to the value behind it. While the container is open the same two fields
hold the size of its parent and the distance to it.

**The machine** (`Reader.step`). The labels of `read_root_minify` and `read_root_pretty` are one
state machine: the pretty reader also skips line breaks and pairs of spaces where it expects them.

**Not modelled.** The flags are 0, as in `handle_jsonrpc_request`, and memory does not run out. The
error codes and positions are left out: the caller passes no place for them. A distance counts
values, not bytes.
-/

namespace ServerBase.Yyjson

open Json (Scalar Kind)

variable {F : Type}

/-! ## Characters -/

def charIsSpace (c : UInt8) : Bool := c == 0x20 || c == 0x09 || c == 0x0A || c == 0x0D

/-- `char_is_num`: what a number may begin with, in any dialect. -/
def charIsNum (c : UInt8) : Bool := Decimal.isDigit c || c == 0x2D || c == 0x2B || c == 0x2E

def charIsCtn (c : UInt8) : Bool := c &&& 0xDF == 0x5B

/-- `byte_match_2` and `byte_match_4` -/
def byteMatch (cur pat : Bytes) : Bool := pat.isPrefixOf cur

/-- `while (char_is_space(*cur)) cur++;` -/
def skipSpace (cur : Bytes) : Bytes := cur.dropWhile charIsSpace

/-! ## Values -/

/-- `yyjson_val` -/
inductive Val (F : Type)
  | scalar (s : Scalar (YyjsonNum F))
  | ctn (kind : Kind) (len ofs : Nat)

namespace Val

/-- `tag >> YYJSON_TAG_BIT`, for a container -/
def len : Val F → Nat
  | ctn _ len _ => len
  | scalar _ => 0

/-- `uni.ofs` -/
def ofs : Val F → Nat
  | ctn _ _ ofs => ofs
  | scalar _ => 0

def isObj : Val F → Bool
  | ctn .obj _ _ => true
  | _ => false

/-- The size of the current container is saved in its tag. -/
def setLen (len : Nat) : Val F → Val F
  | ctn kind _ ofs => ctn kind len ofs
  | scalar s => scalar s

end Val

/-! ## Literals -/

def readTrue (cur : Bytes) : Option (Scalar (YyjsonNum F) × Bytes) :=
  if byteMatch cur [0x74, 0x72, 0x75, 0x65] then some (.bool true, cur.drop 4) else none

/-- `read_false`: the first byte was tested. -/
def readFalse (cur : Bytes) : Option (Scalar (YyjsonNum F) × Bytes) :=
  if byteMatch (cur.drop 1) [0x61, 0x6C, 0x73, 0x65] then some (.bool false, cur.drop 5) else none

def readNull (cur : Bytes) : Option (Scalar (YyjsonNum F) × Bytes) :=
  if byteMatch cur [0x6E, 0x75, 0x6C, 0x6C] then some (.null, cur.drop 4) else none

/-- `read_num`, into a value -/
def readNumVal (double : DoubleReader F) (cur : Bytes) : Option (Scalar (YyjsonNum F) × Bytes) :=
  (readNum double cur).map fun (n, cur) => (.num n, cur)

/-- `read_str`, into a value, with `cur` at the quote -/
def readStrVal (cur : Bytes) : Option (Scalar (YyjsonNum F) × Bytes) :=
  (readStr (cur.drop 1)).map fun (s, cur) => (.str s, cur)

/-! ## The state machine -/

inductive Label
  | arrValBegin
  | arrValEnd
  | objKeyBegin
  | objKeyEnd
  | objValBegin
  | objValEnd

/-- The variables of a reader. `val` is the last of `vals`; `ctn` is an index into them. -/
structure Reader (F : Type) where
  label : Label
  cur : Bytes
  vals : List (Val F)
  ctn : Nat
  ctnLen : Nat

/-- Where a label leads: to a label, to `doc_end`, or to a failure. -/
inductive Next (F : Type)
  | goto (r : Reader F)
  | docEnd (cur : Bytes) (vals : List (Val F))
  | fail

namespace Reader

variable (double : DoubleReader F) (pretty : Bool)

/-- `if (*cur == '\n') cur++;` in the pretty reader -/
def skipLine (cur : Bytes) : Bytes :=
  if pretty && peek cur 0 == 0x0A then cur.drop 1 else cur

/-- `while (byte_match_2(cur, "  ")) cur += 2;` -/
def skipPairs : Bytes → Bytes
  | 0x20 :: 0x20 :: cur => skipPairs cur
  | cur => cur

/-- The same in the pretty reader only -/
def skipIndent (cur : Bytes) : Bytes := if pretty then skipPairs cur else cur

/-- `val_incr(); ctn_len++;`, and the value that is read there -/
def add (r : Reader F) (label : Label) : Option (Scalar (YyjsonNum F) × Bytes) → Next F
  | none => .fail
  | some (s, cur) =>
      .goto { r with label, cur, vals := r.vals ++ [.scalar s], ctnLen := r.ctnLen + 1 }

/-- `arr_begin` and `obj_begin`, with `cur` behind the bracket -/
def ctnBegin (r : Reader F) (kind : Kind) (label : Label) (cur : Bytes) : Next F :=
  let vals := r.vals.modify r.ctn (Val.setLen (r.ctnLen + 1))
  .goto {
    label
    cur := skipLine pretty cur
    vals := vals ++ [.ctn kind 0 (vals.length - r.ctn)]
    ctn := vals.length
    ctnLen := 0 }

def arrBegin (r : Reader F) (cur : Bytes) : Next F := ctnBegin pretty r .arr .arrValBegin cur

def objBegin (r : Reader F) (cur : Bytes) : Next F := ctnBegin pretty r .obj .objKeyBegin cur

/-- `arr_end` and `obj_end`, with `cur` behind the bracket -/
def ctnEnd (r : Reader F) (kind : Kind) (len : Nat) (cur : Bytes) : Next F :=
  let parent := r.ctn - (r.vals.getD r.ctn (.scalar .null)).ofs
  let vals := r.vals.set r.ctn (.ctn kind len (r.vals.length - r.ctn))
  if r.ctn = parent then .docEnd cur vals
  else
    let outer := vals.getD parent (.scalar .null)
    .goto {
      label := if outer.isObj then .objValEnd else .arrValEnd
      cur := skipLine pretty cur
      vals
      ctn := parent
      ctnLen := outer.len }

def arrEnd (r : Reader F) (cur : Bytes) : Next F := ctnEnd pretty r .arr r.ctnLen cur

/-- The size of an object is the number of its members. -/
def objEnd (r : Reader F) (cur : Bytes) : Next F := ctnEnd pretty r .obj (r.ctnLen / 2) cur

def arrValBegin (r : Reader F) : Next F :=
  let cur := skipIndent pretty r.cur
  if peek cur 0 = 0x7B then objBegin pretty r (cur.drop 1)
  else if peek cur 0 = 0x5B then arrBegin pretty r (cur.drop 1)
  else if charIsNum (peek cur 0) then r.add .arrValEnd (readNumVal double cur)
  else if peek cur 0 = 0x22 then r.add .arrValEnd (readStrVal cur)
  else if peek cur 0 = 0x74 then r.add .arrValEnd (readTrue cur)
  else if peek cur 0 = 0x66 then r.add .arrValEnd (readFalse cur)
  else if peek cur 0 = 0x6E then r.add .arrValEnd (readNull cur)
  else if peek cur 0 = 0x5D then
    if r.ctnLen = 0 then arrEnd pretty r (cur.drop 1) else .fail
  else if charIsSpace (peek cur 0) then .goto { r with cur := skipSpace (cur.drop 1) }
  else .fail

def arrValEnd (r : Reader F) : Next F :=
  if pretty && byteMatch r.cur [0x2C, 0x0A] then
    .goto { r with label := .arrValBegin, cur := r.cur.drop 2 }
  else if peek r.cur 0 = 0x2C then .goto { r with label := .arrValBegin, cur := r.cur.drop 1 }
  else if peek r.cur 0 = 0x5D then arrEnd pretty r (r.cur.drop 1)
  else if charIsSpace (peek r.cur 0) then .goto { r with cur := skipSpace (r.cur.drop 1) }
  else .fail

def objKeyBegin (r : Reader F) : Next F :=
  let cur := skipIndent pretty r.cur
  if peek cur 0 = 0x22 then r.add .objKeyEnd (readStrVal cur)
  else if peek cur 0 = 0x7D then
    if r.ctnLen = 0 then objEnd pretty r (cur.drop 1) else .fail
  else if charIsSpace (peek cur 0) then .goto { r with cur := skipSpace (cur.drop 1) }
  else .fail

def objKeyEnd (r : Reader F) : Next F :=
  if pretty && byteMatch r.cur [0x3A, 0x20] then
    .goto { r with label := .objValBegin, cur := r.cur.drop 2 }
  else if peek r.cur 0 = 0x3A then .goto { r with label := .objValBegin, cur := r.cur.drop 1 }
  else if charIsSpace (peek r.cur 0) then .goto { r with cur := skipSpace (r.cur.drop 1) }
  else .fail

def objValBegin (r : Reader F) : Next F :=
  if peek r.cur 0 = 0x22 then r.add .objValEnd (readStrVal r.cur)
  else if charIsNum (peek r.cur 0) then r.add .objValEnd (readNumVal double r.cur)
  else if peek r.cur 0 = 0x7B then objBegin pretty r (r.cur.drop 1)
  else if peek r.cur 0 = 0x5B then arrBegin pretty r (r.cur.drop 1)
  else if peek r.cur 0 = 0x74 then r.add .objValEnd (readTrue r.cur)
  else if peek r.cur 0 = 0x66 then r.add .objValEnd (readFalse r.cur)
  else if peek r.cur 0 = 0x6E then r.add .objValEnd (readNull r.cur)
  else if charIsSpace (peek r.cur 0) then .goto { r with cur := skipSpace (r.cur.drop 1) }
  else .fail

def objValEnd (r : Reader F) : Next F :=
  if pretty && byteMatch r.cur [0x2C, 0x0A] then
    .goto { r with label := .objKeyBegin, cur := r.cur.drop 2 }
  else if peek r.cur 0 = 0x2C then .goto { r with label := .objKeyBegin, cur := r.cur.drop 1 }
  else if peek r.cur 0 = 0x7D then objEnd pretty r (r.cur.drop 1)
  else if charIsSpace (peek r.cur 0) then .goto { r with cur := skipSpace (r.cur.drop 1) }
  else .fail

def step (r : Reader F) : Next F :=
  match r.label with
  | .arrValBegin => arrValBegin double pretty r
  | .arrValEnd => arrValEnd pretty r
  | .objKeyBegin => objKeyBegin pretty r
  | .objKeyEnd => objKeyEnd pretty r
  | .objValBegin => objValBegin double pretty r
  | .objValEnd => objValEnd pretty r

/-- From a label to the end: what is left at `doc_end`, and the values. -/
def run : Nat → Reader F → Option (Bytes × List (Val F))
  | 0, _ => none
  | fuel + 1, r =>
      match step double pretty r with
      | .goto r => run fuel r
      | .docEnd cur vals => some (cur, vals)
      | .fail => none

end Reader

/-! ## `yyjson_read` -/

section
variable (double : DoubleReader F)

/-- The check at `doc_end`: nothing but whitespace follows. -/
def docEnd : Bytes × List (Val F) → Option (List (Val F))
  | (cur, vals) => if skipSpace cur = [] then some vals else none

/-- The tests of `read_root_single` -/
def readScalar (cur : Bytes) : Option (Scalar (YyjsonNum F) × Bytes) :=
  if charIsNum (peek cur 0) then readNumVal double cur
  else if peek cur 0 = 0x22 then readStrVal cur
  else if peek cur 0 = 0x74 then readTrue cur
  else if peek cur 0 = 0x66 then readFalse cur
  else if peek cur 0 = 0x6E then readNull cur
  else none

/-- `read_root_single` -/
def readRootSingle (cur : Bytes) : Option (List (Val F)) :=
  (readScalar double cur).bind fun (s, cur) => docEnd (cur, [.scalar s])

/-- `read_root_minify` and `read_root_pretty`. Each label consumes a byte. -/
def readRoot (pretty : Bool) (cur : Bytes) : Option (List (Val F)) :=
  let r : Reader F :=
    if peek cur 0 = 0x7B then
      ⟨.objKeyBegin, Reader.skipLine pretty (cur.drop 1), [.ctn .obj 0 0], 0, 0⟩
    else ⟨.arrValBegin, Reader.skipLine pretty (cur.drop 1), [.ctn .arr 0 0], 0, 0⟩
  (Reader.run double pretty (cur.length + 1) r).bind docEnd

def readRootMinify (cur : Bytes) : Option (List (Val F)) := readRoot double false cur

def readRootPretty (cur : Bytes) : Option (List (Val F)) := readRoot double true cur

/-- `yyjson_read`: the values of the document, the root first. -/
def yyjsonRead (dat : Bytes) : Option (List (Val F)) :=
  if dat = [] then none
  else
    let cur := if !charIsCtn (peek dat 0) then skipSpace dat else dat
    if cur = [] then none
    else if charIsCtn (peek cur 0) then
      if charIsSpace (peek cur 1) && charIsSpace (peek cur 2) then readRootPretty double cur
      else readRootMinify double cur
    else readRootSingle double cur

end

end ServerBase.Yyjson
