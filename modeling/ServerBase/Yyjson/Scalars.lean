import ServerBase.Yyjson.Numbers

/-!
# How `utils/yyjson.c` writes strings and numbers

`write_u64` divides with multiplications and shifts and takes two digits at a time from a table.
`write_str` copies ASCII and UTF-8 and escapes the rest.

**Parameters.** The text of a double is a parameter: the source comes to it with tables of powers
and 128-bit products. It has no text for a number that is infinite or not a number.
-/

namespace ServerBase.Yyjson

variable {F : Type}

/-! ## Integers -/

/-- `digit_table + k * 2`: the two digits of `k`. -/
def digitTable (k : Nat) : Bytes := [.ofNat (0x30 + k / 10), .ofNat (0x30 + k % 10)]

/-- A product of `u32`, shifted. -/
def mulShift32 (val mul shift : Nat) : Nat := (val * mul % 2 ^ 32) >>> shift

/-- A product of `u64`, shifted and cut to `u32`. -/
def mulShift64 (val mul shift : Nat) : Nat := ((val * mul % 2 ^ 64) >>> shift) % 2 ^ 32

def writeU32Len8 (val : Nat) : Bytes :=
  let aabb := mulShift64 val 109951163 40
  let ccdd := val - aabb * 10000
  let aa := mulShift32 aabb 5243 19
  let cc := mulShift32 ccdd 5243 19
  let bb := aabb - aa * 100
  let dd := ccdd - cc * 100
  digitTable aa ++ digitTable bb ++ digitTable cc ++ digitTable dd

def writeU32Len4 (val : Nat) : Bytes :=
  let aa := mulShift32 val 5243 19
  let bb := val - aa * 100
  digitTable aa ++ digitTable bb

/-- `lz` drops a leading zero. -/
def writeU32Len1To8 (val : Nat) : Bytes :=
  if val < 100 then
    let lz := if val < 10 then 1 else 0
    (digitTable val).drop lz
  else if val < 10000 then
    let aa := mulShift32 val 5243 19
    let bb := val - aa * 100
    let lz := if aa < 10 then 1 else 0
    (digitTable aa).drop lz ++ digitTable bb
  else if val < 1000000 then
    let aa := mulShift64 val 429497 32
    let bbcc := val - aa * 10000
    let bb := mulShift32 bbcc 5243 19
    let cc := bbcc - bb * 100
    let lz := if aa < 10 then 1 else 0
    (digitTable aa).drop lz ++ digitTable bb ++ digitTable cc
  else
    let aabb := mulShift64 val 109951163 40
    let ccdd := val - aabb * 10000
    let aa := mulShift32 aabb 5243 19
    let cc := mulShift32 ccdd 5243 19
    let bb := aabb - aa * 100
    let dd := ccdd - cc * 100
    let lz := if aa < 10 then 1 else 0
    (digitTable aa).drop lz ++ digitTable bb ++ digitTable cc ++ digitTable dd

def writeU32Len5To8 (val : Nat) : Bytes :=
  if val < 1000000 then
    let aa := mulShift64 val 429497 32
    let bbcc := val - aa * 10000
    let bb := mulShift32 bbcc 5243 19
    let cc := bbcc - bb * 100
    let lz := if aa < 10 then 1 else 0
    (digitTable aa).drop lz ++ digitTable bb ++ digitTable cc
  else
    let aabb := mulShift64 val 109951163 40
    let ccdd := val - aabb * 10000
    let aa := mulShift32 aabb 5243 19
    let cc := mulShift32 ccdd 5243 19
    let bb := aabb - aa * 100
    let dd := ccdd - cc * 100
    let lz := if aa < 10 then 1 else 0
    (digitTable aa).drop lz ++ digitTable bb ++ digitTable cc ++ digitTable dd

def writeU64 (val : Nat) : Bytes :=
  if val < 100000000 then writeU32Len1To8 val
  else if val < 100000000 * 100000000 then
    let hgh := val / 100000000
    let low := val - hgh * 100000000
    writeU32Len1To8 hgh ++ writeU32Len8 low
  else
    let tmp := val / 100000000
    let low := val - tmp * 100000000
    let hgh := tmp / 10000
    let mid := tmp - hgh * 10000
    writeU32Len5To8 hgh ++ writeU32Len4 mid ++ writeU32Len8 low

/-! ## Numbers -/

/-- The room of a number in the buffer -/
def FP_BUF_LEN : Nat := 40

/-- `write_f64_raw`: the sign, the digits and the exponent of the text. A double never has the text
of an integer, and has room in the buffer. -/
structure DoubleWriter (F : Type) where
  write : F → Option Json.Numeral
  write_isInt : ∀ f l, write f = some l → l.isInt = false
  write_length : ∀ f l, write f = some l → l.text.length < FP_BUF_LEN

/-- `write_num`: the 64 bits of an integer are the same with and without a sign. -/
def writeNum (double : DoubleWriter F) : YyjsonNum F → Option Bytes
  | .int i =>
      let pos := UInt64.ofInt i.val
      let neg := ~~~pos + 1
      some (if i.val < 0 then 0x2D :: writeU64 neg.toNat else writeU64 pos.toNat)
  | .real f => (double.write f).map Json.Numeral.text

/-! ## Strings -/

/-- `enc_table_cpy` -/
def encTable (c : UInt8) : Nat :=
  if c < 0x20 then
    if c = 0x08 ∨ c = 0x09 ∨ c = 0x0A ∨ c = 0x0C ∨ c = 0x0D then 2 else 3
  else if c = 0x22 ∨ c = 0x5C then 2
  else if c < 0x80 then 0
  else if c < 0xC0 then 1
  else if c < 0xE0 then 4
  else if c < 0xF0 then 6
  else if c < 0xF8 then 8
  else 1

/-- `esc_single_char_table`, where `enc_table_cpy` says `CHAR_ENC_ESC_A`. -/
def escSingleChar (c : UInt8) : Bytes :=
  if c = 0x08 then [0x5C, 0x62]
  else if c = 0x09 then [0x5C, 0x74]
  else if c = 0x0A then [0x5C, 0x6E]
  else if c = 0x0C then [0x5C, 0x66]
  else if c = 0x0D then [0x5C, 0x72]
  else if c = 0x22 then [0x5C, 0x22]
  else if c = 0x2F then [0x5C, 0x2F]
  else if c = 0x5C then [0x5C, 0x5C]
  else [0x20, 0x20]

def hexChar (k : Nat) : UInt8 := if k < 10 then .ofNat (0x30 + k) else .ofNat (0x41 + (k - 10))

/-- `esc_hex_char_table` -/
def escHexChar (c : UInt8) : Bytes := [hexChar (c.toNat / 16), hexChar (c.toNat % 16)]

mutual

/-- From `copy_ascii` on: `cur` was written. -/
def writeAscii : Nat → Bytes → Bytes → Option Bytes
  | 0, _, _ => none
  | fuel + 1, cur, src =>
      let (run, src) := src.span fun c => encTable c == 0
      if src = [] then some (cur ++ run ++ [0x22]) else writeUtf8 fuel (cur ++ run) src

/-- From `copy_utf8` on -/
def writeUtf8 : Nat → Bytes → Bytes → Option Bytes
  | 0, _, _ => none
  | fuel + 1, cur, src =>
      if src = [] then some (cur ++ [0x22])
      else if src.length < 4 ∧ src.length < encTable (peek src 0) / 2 then none
      else
        match encTable (peek src 0) with
        | 0 => writeAscii fuel (cur ++ src.take 1) (src.drop 1)
        | 4 =>
            if isUtf8Seq2 (byteLoad4 src) then writeUtf8 fuel (cur ++ src.take 2) (src.drop 2)
            else none
        | 6 =>
            if isUtf8Seq3 (byteLoad4 src) then writeUtf8 fuel (cur ++ src.take 3) (src.drop 3)
            else none
        | 8 =>
            if isUtf8Seq4 (byteLoad4 src) then writeUtf8 fuel (cur ++ src.take 4) (src.drop 4)
            else none
        | 2 => writeUtf8 fuel (cur ++ escSingleChar (peek src 0)) (src.drop 1)
        | 3 =>
            writeUtf8 fuel (cur ++ [0x5C, 0x75, 0x30, 0x30] ++ escHexChar (peek src 0)) (src.drop 1)
        | _ => none

end

/-- `write_str`, with neither escaped nor invalid Unicode. -/
def writeStr (str : Bytes) : Option Bytes := writeAscii (2 * str.length + 2) [0x22] str

/-- `write_str_noesc` -/
def writeStrNoesc (str : Bytes) : Bytes := 0x22 :: (str ++ [0x22])

end ServerBase.Yyjson
