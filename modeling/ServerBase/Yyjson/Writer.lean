import ServerBase.Yyjson.Scalars
import ServerBase.Lib.Json.Tokens

/-!
# The document writer of `utils/yyjson.c`

A document that is being built is a graph of values with pointers: a container points to its last
element, or to its last key, and the elements form a ring. `yyjson_mut_write` follows the pointers
without recursion.

**The buffer.** The text grows from the front of one buffer, and the stack of open containers from
its end; `incr_len` makes room between them. A write that does not fit between the two is the
outcome `overflow`.

**Not modelled.** The flags are 0, values of the type `RAW` do not occur, and memory does not run
out.
-/

namespace ServerBase.Yyjson

open Json (Kind)

variable {F : Type}

/-! ## Values with pointers -/

/-- An address of a `yyjson_mut_val` -/
abbrev Addr := Nat

/-- A string, and whether its tag says `YYJSON_SUBTYPE_NOESC`. -/
structure MutStr where
  bytes : Bytes
  noesc : Bool
  plain : noesc = true → ∀ c ∈ bytes, 0x20 ≤ c ∧ c ≤ 0x7E ∧ c ≠ 0x22 ∧ c ≠ 0x5C

inductive MutBody (F : Type)
  | null
  | bool (b : Bool)
  | num (n : YyjsonNum F)
  | str (s : MutStr)
  /-- A container, with its size and the pointer to its last element or key. -/
  | ctn (kind : Kind) (len : Nat) (ptr : Addr)

/-- `yyjson_mut_val` -/
structure MutVal (F : Type) where
  body : MutBody F
  next : Addr

abbrev Heap (F : Type) := Addr → MutVal F

/-! ## The buffer -/

/-- The variables of `yyjson_mut_write_minify`. An entry of `ctx` has 16 bytes. -/
structure Writer where
  cur : Bytes
  val : Addr
  ctn : Addr
  ctnLen : Nat
  ctnObj : Bool
  ctx : List (Addr × Nat × Bool)
  alcLen : Nat

inductive WriterLabel
  | valBegin
  | valEnd
  | ctnEnd

inductive WriterNext
  | goto (label : WriterLabel) (w : Writer)
  | docEnd (text : Bytes)
  | fail
  | overflow

namespace Writer

/-- The position of `ctx` in the buffer -/
def ctxPos (w : Writer) : Nat := w.alcLen - 16 * w.ctx.length

/-- `size_align_up(size, 16)` -/
def sizeAlignUp (size : Nat) : Nat := (size + 15) / 16 * 16

/-- `incr_len` -/
def incrLen (w : Writer) (extLen : Nat) : Writer :=
  if w.cur.length + extLen ≥ w.ctxPos then
    { w with alcLen := w.alcLen + sizeAlignUp (max (w.alcLen / 2) extLen) }
  else w

/-- `text` is written, and bytes up to `extent` behind `cur` are touched. -/
def put (w : Writer) (text : Bytes) (extent : Nat) (label : WriterLabel) : WriterNext :=
  if w.cur.length + extent ≤ w.ctxPos then .goto label { w with cur := w.cur ++ text }
  else .overflow

/-! ## The labels -/

def opening (kind : Kind) : UInt8 := if kind = .obj then 0x7B else 0x5B
def closing (kind : Kind) : UInt8 := if kind = .obj then 0x7D else 0x5D

def kindOfBool (obj : Bool) : Kind := if obj then .obj else .arr

/-- `yyjson_mut_write_ctx_set`, and the variables of the new container -/
def enter (w : Writer) (ctn : Addr) (kind : Kind) (len : Nat) (first : Addr) : Writer where
  cur := w.cur
  val := first
  ctn := ctn
  ctnLen := if kind = .obj then len * 2 else len
  ctnObj := kind == .obj
  ctx := (w.ctn, w.ctnLen, w.ctnObj) :: w.ctx
  alcLen := w.alcLen

section
variable (double : DoubleWriter F) (heap : Heap F)

/-- The first element or key of a container whose last one is `tail`. -/
def firstOf (kind : Kind) (tail : Addr) : Addr :=
  if kind = .obj then (heap (heap tail).next).next else (heap tail).next

/-- `write_null` and `write_bool`, which copy 8 bytes, and the comma behind them -/
def putLiteral (w : Writer) (text : Bytes) : WriterNext :=
  (w.incrLen 16).put (text ++ [0x2C]) 8 .valEnd

def putStr (w : Writer) (s : MutStr) : WriterNext :=
  let isKey := w.ctnObj && w.ctnLen % 2 == 0
  let w := w.incrLen (s.bytes.length * 6 + 16)
  match if s.noesc then some (writeStrNoesc s.bytes) else writeStr s.bytes with
  | none => .fail
  | some text => w.put (text ++ [if isKey then 0x3A else 0x2C]) (text.length + 1) .valEnd

def putNum (w : Writer) (n : YyjsonNum F) : WriterNext :=
  match writeNum double n with
  | none => .fail
  | some text => (w.incrLen FP_BUF_LEN).put (text ++ [0x2C]) FP_BUF_LEN .valEnd

/-- A container: an empty one is written, any other is entered. -/
def putCtn (w : Writer) (kind : Kind) (len : Nat) (tail : Addr) : WriterNext :=
  let w := w.incrLen 16
  if len = 0 then w.put [opening kind, closing kind, 0x2C] 3 .valEnd
  else if w.cur.length + 16 ≤ w.ctxPos then
    (w.enter w.val kind len (firstOf heap kind tail)).put [opening kind] 1 .valBegin
  else .overflow

def valBegin (w : Writer) : WriterNext :=
  match (heap w.val).body with
  | .str s => putStr w s
  | .num n => putNum double w n
  | .ctn kind len tail => putCtn heap w kind len tail
  | .bool true => w.putLiteral [0x74, 0x72, 0x75, 0x65]
  | .bool false => w.putLiteral [0x66, 0x61, 0x6C, 0x73, 0x65]
  | .null => w.putLiteral [0x6E, 0x75, 0x6C, 0x6C]

def valEnd (w : Writer) : WriterNext :=
  let w := { w with ctnLen := w.ctnLen - 1 }
  if w.ctnLen = 0 then .goto .ctnEnd w
  else .goto .valBegin { w with val := (heap w.val).next }

/-- The bracket takes the place of the last comma. -/
def ctnEnd (w : Writer) : WriterNext :=
  let w := { w with cur := w.cur.dropLast }
  match w.put [closing (kindOfBool w.ctnObj), 0x2C] 2 .ctnEnd with
  | .goto _ w =>
      match w.ctx with
      | [] => .docEnd w.cur.dropLast
      | (ctn, ctnLen, ctnObj) :: ctx =>
          let w := { w with val := (heap w.ctn).next, ctn, ctnLen := ctnLen - 1, ctnObj, ctx }
          if w.ctnLen > 0 then .goto .valBegin w else .goto .ctnEnd w
  | other => other

def step (label : WriterLabel) (w : Writer) : WriterNext :=
  match label with
  | .valBegin => valBegin double heap w
  | .valEnd => valEnd heap w
  | .ctnEnd => ctnEnd heap w

/-- The labels one after the other: nothing yet, or the outcome. -/
def run : Nat → WriterLabel → Writer → Option WriterNext
  | 0, _, _ => none
  | fuel + 1, label, w =>
      match step double heap label w with
      | .goto label w => run fuel label w
      | other => some other

/-- `doc_begin`, with the estimate `estimatedValNum` of the number of values -/
def begin (root : Addr) (kind : Kind) (len : Nat) (tail : Addr) (estimatedValNum : Nat) :
    Writer where
  cur := [opening kind]
  val := firstOf heap kind tail
  ctn := root
  ctnLen := if kind = .obj then len * 2 else len
  ctnObj := kind == Kind.obj
  ctx := []
  alcLen := sizeAlignUp (estimatedValNum * 18 + 64)

end

end Writer

/-! ## `yyjson_mut_write` -/

section
variable (double : DoubleWriter F) (heap : Heap F)

/-- `yyjson_write_single` -/
def writeSingle : MutBody F → WriterNext
  | .str s =>
      match if s.noesc then some (writeStrNoesc s.bytes) else writeStr s.bytes with
      | none => .fail
      | some text => .docEnd text
  | .num n =>
      match writeNum double n with
      | none => .fail
      | some text => .docEnd text
  | .bool true => .docEnd [0x74, 0x72, 0x75, 0x65]
  | .bool false => .docEnd [0x66, 0x61, 0x6C, 0x73, 0x65]
  | .null => .docEnd [0x6E, 0x75, 0x6C, 0x6C]
  | .ctn kind _ _ => .docEnd [Writer.opening kind, Writer.closing kind]

/-- `yyjson_mut_write_opts_impl`, for a root that is not null: nothing yet, or the outcome. -/
def yyjsonMutWrite (fuel : Nat) (root : Addr) (estimatedValNum : Nat) : Option WriterNext :=
  match (heap root).body with
  | .ctn kind (len + 1) tail =>
      Writer.run double heap fuel .valBegin
        (Writer.begin heap root kind (len + 1) tail estimatedValNum)
  | body => some (writeSingle double body)

end

end ServerBase.Yyjson
