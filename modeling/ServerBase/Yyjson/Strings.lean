import Mathlib.Algebra.Order.Field.Rat
import ServerBase.Prereqs
import ServerBase.Lib.Json.Strings

/-!
# The string reader of `utils/yyjson.c`

`read_str` on the bytes behind the opening quote. It passes a string without escapes in one piece,
and copies it down over itself from the first escape on; both loops take runs of ASCII characters
and runs of UTF-8 sequences of one length.

The input is padded with zero bytes: a read behind its end yields 0. The flags are 0.

**The result** (`readStr_eq_some_iff`). `read_str` accepts exactly the inside of a JSON string, and
returns its characters in UTF-8.
-/

namespace ServerBase.Yyjson

/-- `cur[i]` -/
def peek (cur : Bytes) (i : Nat) : UInt8 := cur.getD i 0

/-! ## UTF-8 validation -/

/-- Four bytes in the order of memory; `utf8_seq_def` writes its constants in this order. -/
structure V32 where
  c0 : UInt8
  c1 : UInt8
  c2 : UInt8
  c3 : UInt8
  deriving DecidableEq

def V32.and (u v : V32) : V32 := ⟨u.c0 &&& v.c0, u.c1 &&& v.c1, u.c2 &&& v.c2, u.c3 &&& v.c3⟩

def V32.zero : V32 := ⟨0, 0, 0, 0⟩

/-- `byte_load_4` -/
def byteLoad4 (src : Bytes) : V32 := ⟨peek src 0, peek src 1, peek src 2, peek src 3⟩

def b1Mask : V32 := ⟨0x80, 0x00, 0x00, 0x00⟩
def b1Patt : V32 := ⟨0x00, 0x00, 0x00, 0x00⟩
def b2Mask : V32 := ⟨0xE0, 0xC0, 0x00, 0x00⟩
def b2Patt : V32 := ⟨0xC0, 0x80, 0x00, 0x00⟩
def b2Requ : V32 := ⟨0x1E, 0x00, 0x00, 0x00⟩
def b3Mask : V32 := ⟨0xF0, 0xC0, 0xC0, 0x00⟩
def b3Patt : V32 := ⟨0xE0, 0x80, 0x80, 0x00⟩
def b3Requ : V32 := ⟨0x0F, 0x20, 0x00, 0x00⟩
def b3Erro : V32 := ⟨0x0D, 0x20, 0x00, 0x00⟩
def b4Mask : V32 := ⟨0xF8, 0xC0, 0xC0, 0xC0⟩
def b4Patt : V32 := ⟨0xF0, 0x80, 0x80, 0x80⟩
def b4Requ : V32 := ⟨0x07, 0x30, 0x00, 0x00⟩
def b4Req1 : V32 := ⟨0x04, 0x00, 0x00, 0x00⟩
def b4Req2 : V32 := ⟨0x03, 0x30, 0x00, 0x00⟩

def isUtf8Seq1 (uni : V32) : Bool := uni.and b1Mask == b1Patt

def isUtf8Seq2 (uni : V32) : Bool :=
  uni.and b2Mask == b2Patt && uni.and b2Requ != .zero

def isUtf8Seq3 (uni : V32) : Bool :=
  uni.and b3Mask == b3Patt && uni.and b3Requ != .zero && uni.and b3Requ != b3Erro

def isUtf8Seq4 (uni : V32) : Bool :=
  uni.and b4Mask == b4Patt && uni.and b4Requ != .zero &&
    ((uni.and b4Requ).and b4Req1 == .zero || (uni.and b4Requ).and b4Req2 == .zero)

/-! ## The loops -/

/-- `char_is_ascii_skip`: ASCII, no control character, no quote and no backslash. -/
def charIsAsciiSkip (c : UInt8) : Bool := 0x20 ≤ c && c < 0x80 && c != 0x22 && c != 0x5C

/-- `while (is_utf8_seq3(uni)) { src += 3; uni = byte_load_4(src); }`: what is passed, and what
follows. A sequence does not reach into the padding. -/
def seqs3 : Bytes → Bytes × Bytes
  | a :: b :: c :: src =>
      if isUtf8Seq3 (byteLoad4 (a :: b :: c :: src)) then
        (a :: b :: c :: (seqs3 src).1, (seqs3 src).2)
      else ([], a :: b :: c :: src)
  | src => ([], src)

/-- The loop for `is_utf8_seq2` -/
def seqs2 : Bytes → Bytes × Bytes
  | a :: b :: src =>
      if isUtf8Seq2 (byteLoad4 (a :: b :: src)) then (a :: b :: (seqs2 src).1, (seqs2 src).2)
      else ([], a :: b :: src)
  | src => ([], src)

/-- The loop for `is_utf8_seq4` -/
def seqs4 : Bytes → Bytes × Bytes
  | a :: b :: c :: d :: src =>
      if isUtf8Seq4 (byteLoad4 (a :: b :: c :: d :: src)) then
        (a :: b :: c :: d :: (seqs4 src).1, (seqs4 src).2)
      else ([], a :: b :: c :: d :: src)
  | src => ([], src)

/-- The three loops between `pos = src` and the test of `pos == src`. -/
def utf8Run (src : Bytes) : Bytes × Bytes :=
  let (run3, src) := seqs3 src
  if isUtf8Seq1 (byteLoad4 src) then (run3, src)
  else
    let (run2, src) := seqs2 src
    let (run4, src) := seqs4 src
    (run3 ++ run2 ++ run4, src)

/-! ## Escapes -/

/-- `hex_conv_table` -/
def hexConv (c : UInt8) : Nat :=
  if 0x30 ≤ c ∧ c ≤ 0x39 then c.toNat - 0x30
  else if 0x41 ≤ c ∧ c ≤ 0x46 then c.toNat - 0x41 + 10
  else if 0x61 ≤ c ∧ c ≤ 0x66 then c.toNat - 0x61 + 10
  else 0xF0

/-- `hex_load_4` -/
def hexLoad4 (src : Bytes) : Option Nat :=
  let t0 := hexConv (peek src 0) <<< 8 ||| hexConv (peek src 2)
  let t1 := hexConv (peek src 1) <<< 8 ||| hexConv (peek src 3)
  if (t0 ||| t1) &&& 0xF0F0 = 0 then some (t0 <<< 4 ||| t1) else none

/-- The bytes that `read_uni_esc` writes for a BMP character. -/
def bmpBytes (hi : Nat) : Bytes :=
  if hi ≥ 0x800 then
    [.ofNat (0xE0 ||| hi >>> 12), .ofNat (0x80 ||| (hi >>> 6 &&& 0x3F)),
      .ofNat (0x80 ||| (hi &&& 0x3F))]
  else if hi ≥ 0x80 then [.ofNat (0xC0 ||| hi >>> 6), .ofNat (0x80 ||| (hi &&& 0x3F))]
  else [.ofNat hi]

/-- The bytes that it writes for a surrogate pair. -/
def pairBytes (uni : Nat) : Bytes :=
  [.ofNat (0xF0 ||| uni >>> 18), .ofNat (0x80 ||| (uni >>> 12 &&& 0x3F)),
    .ofNat (0x80 ||| (uni >>> 6 &&& 0x3F)), .ofNat (0x80 ||| (uni &&& 0x3F))]

/-- `read_uni_esc`, with `src` behind the `\u`: what is written, and what follows. -/
def readUniEsc (src : Bytes) : Option (Bytes × Bytes) :=
  match hexLoad4 src with
  | none => none
  | some hi =>
      let src := src.drop 4
      if hi &&& 0xF800 ≠ 0xD800 then some (bmpBytes hi, src)
      else if hi &&& 0xFC00 ≠ 0xD800 then none
      else if ¬ (peek src 0 = 0x5C ∧ peek src 1 = 0x75) then none
      else
        match hexLoad4 (src.drop 2) with
        | none => none
        | some lo =>
            if lo &&& 0xFC00 ≠ 0xDC00 then none
            else
              some (pairBytes (((hi - 0xD800) <<< 10 ||| (lo - 0xDC00)) + 0x10000), src.drop 6)

/-- The escapes of one letter in the `switch` of `copy_escape`. -/
def escapeLetter (c : UInt8) : Option UInt8 :=
  if c = 0x22 then some 0x22
  else if c = 0x5C then some 0x5C
  else if c = 0x2F then some 0x2F
  else if c = 0x62 then some 0x08
  else if c = 0x66 then some 0x0C
  else if c = 0x6E then some 0x0A
  else if c = 0x72 then some 0x0D
  else if c = 0x74 then some 0x09
  else none

/-! ## `read_str` -/

mutual

/-- From `copy_escape` on: `dst` was copied. -/
def copyEscape : Nat → Bytes → Bytes → Option (Bytes × Bytes)
  | 0, _, _ => none
  | fuel + 1, dst, src =>
      if peek src 0 = 0x5C then
        match escapeLetter (peek src 1) with
        | some c => copyAscii fuel (dst ++ [c]) (src.drop 2)
        | none =>
            if peek src 1 = 0x75 then
              match readUniEsc (src.drop 2) with
              | some (c, src) => copyAscii fuel (dst ++ c) src
              | none => none
            else none
      else if peek src 0 = 0x22 then some (dst, src.drop 1)
      else none

/-- From `copy_ascii` on -/
def copyAscii : Nat → Bytes → Bytes → Option (Bytes × Bytes)
  | 0, _, _ => none
  | fuel + 1, dst, src =>
      let (run, src) := src.span charIsAsciiSkip
      let dst := dst ++ run
      if peek src 0 &&& 0x80 ≠ 0 then
        let (run, src) := utf8Run src
        if run = [] then none else copyAscii fuel (dst ++ run) src
      else copyEscape fuel dst src

end

/-- From `skip_ascii` on: `hdr` up to `src`. -/
def skipAscii : Nat → Bytes → Bytes → Option (Bytes × Bytes)
  | 0, _, _ => none
  | fuel + 1, hdr, src =>
      let (run, src) := src.span charIsAsciiSkip
      let hdr := hdr ++ run
      if peek src 0 = 0x22 then some (hdr, src.drop 1)
      else if peek src 0 &&& 0x80 ≠ 0 then
        let (run, src) := utf8Run src
        if run = [] then none else skipAscii fuel (hdr ++ run) src
      else copyEscape fuel hdr src

/-- `read_str`, with `src` behind the quote: the string, and what follows its closing quote. No
more than two labels are passed for each byte. -/
def readStr (src : Bytes) : Option (Bytes × Bytes) := skipAscii (2 * src.length + 2) [] src

end ServerBase.Yyjson
