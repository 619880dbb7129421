import Mathlib.Algebra.Order.Field.Rat
import ServerBase.Yyjson.Strings

/-!
# The number reader of `utils/yyjson.c`

`read_num`: an integer that fits into 64 bits is an integer, every other number is a double.

**Parameters.** What a decimal number is as a `double` is a parameter: the source comes to it with
tables of powers, 128-bit products and big integers. It has no value for a number whose double is
infinite.
-/

namespace ServerBase.Yyjson

open Json (Numeral Exponent)

/-! ## Numbers -/

/-- The values of `uint64_t` and `int64_t`. -/
def Int64OrUInt64 : Type := {i : Int // -2 ^ 63 ≤ i ∧ i < 2 ^ 64}

namespace Int64OrUInt64

def ofUInt64 (v : UInt64) : Int64OrUInt64 :=
  ⟨v.toNat, by have := v.toNat_lt; omega⟩

def ofInt64 (v : Int64) : Int64OrUInt64 :=
  ⟨v.toInt, by have := v.toInt_lt; have := v.le_toInt; omega⟩

end Int64OrUInt64

/-- A number of a document. `YYJSON_SUBTYPE_UINT` and `YYJSON_SUBTYPE_SINT` are one case. -/
inductive YyjsonNum (F : Type)
  | int (i : Int64OrUInt64)
  | real (f : F)

/-- The doubles `F`, and the conversion of a sign and a decimal number; `none` is infinity. -/
structure DoubleReader (F : Type) where
  ofDecimal : Bool → ℚ → Option F
  zero : Bool → F
  ofDecimal_zero : ∀ sign, ofDecimal sign 0 = some (zero sign)

/-! ## Characters -/

abbrev charIsDigit : UInt8 → Bool := Decimal.isDigit
def charIsNonzero (c : UInt8) : Bool := Decimal.isDigit c && c != 0x30
def charIsSign (c : UInt8) : Bool := c == 0x2B || c == 0x2D
def charIsExp (c : UInt8) : Bool := c == 0x65 || c == 0x45
def charIsFp (c : UInt8) : Bool := c == 0x2E || charIsExp c
def charIsDigitOrFp (c : UInt8) : Bool := charIsDigit c || charIsFp c

/-! ## `read_num` -/

section
variable {F : Type} (double : DoubleReader F)

/-- `return_i64` -/
def returnI64 (sign : Bool) (v : UInt64) : YyjsonNum F :=
  if sign then .int (.ofInt64 (~~~v + 1).toInt64) else .int (.ofUInt64 v)

/-- From `digi_finish` on: the digits before and behind the point, and the exponent. -/
def digiFinish (sign : Bool) (intg frac : Bytes) (exp : Int) : Option (YyjsonNum F) :=
  (double.ofDecimal sign (Decimal.value (intg ++ frac) * 10 ^ (exp - frac.length))).map .real

/-- An integral part with neither a point nor an exponent. -/
def returnIntg (sign : Bool) (intg : Bytes) : Option (YyjsonNum F) :=
  let sig := Decimal.value (intg.take 19)
  if intg.length ≤ 18 then some (returnI64 sign (.ofNat sig))
  else if intg.length = 19 then
    if sign && decide (sig > 1 <<< 63) then digiFinish double sign intg [] 0
    else some (returnI64 sign (.ofNat sig))
  else if intg.length = 20 then
    let num := (peek intg 19).toNat - 0x30
    if sig < (2 ^ 64 - 1) / 10 ∨ sig = (2 ^ 64 - 1) / 10 ∧ num ≤ (2 ^ 64 - 1) % 10 then
      if sign then digiFinish double sign intg [] 0
      else some (returnI64 sign (.ofNat (num + sig * 10)))
    else digiFinish double sign intg [] 0
  else digiFinish double sign intg [] 0

/-- `digi_exp_more`, with `cur` at the letter. -/
def digiExpMore (sign : Bool) (intg frac cur : Bytes) : Option (YyjsonNum F × Bytes) :=
  let cur := cur.drop 1
  let expSign := peek cur 0 == 0x2D
  let cur := if charIsSign (peek cur 0) then cur.drop 1 else cur
  if !charIsDigit (peek cur 0) then none
  else
    let (lit, cur) := cur.span charIsDigit
    let exp : Int := if expSign then -(Decimal.value lit) else Decimal.value lit
    (digiFinish double sign intg frac exp).map (·, cur)

/-- The digits behind the point, with `cur` at the first of them. -/
def digiFrac (sign : Bool) (intg cur : Bytes) : Option (YyjsonNum F × Bytes) :=
  if !charIsDigit (peek cur 0) then none
  else
    let (frac, cur) := cur.span charIsDigit
    if charIsExp (peek cur 0) then digiExpMore double sign intg frac cur
    else (digiFinish double sign intg frac 0).map (·, cur)

/-- A number that begins with a digit that is not zero. -/
def readNonzero (sign : Bool) (cur : Bytes) : Option (YyjsonNum F × Bytes) :=
  let (intg, cur) := cur.span charIsDigit
  if !charIsFp (peek cur 0) then (returnIntg double sign intg).map (·, cur)
  else if peek cur 0 = 0x2E then digiFrac double sign intg (cur.drop 1)
  else digiExpMore double sign intg [] cur

/-- Zero with any exponent is still zero. -/
def readZeroExp (sign : Bool) (cur : Bytes) : Option (YyjsonNum F × Bytes) :=
  if charIsDigit (peek cur 0) then none
  else if charIsExp (peek cur 0) then
    let cur := if charIsSign (peek cur 1) then cur.drop 2 else cur.drop 1
    if !charIsDigit (peek cur 0) then none
    else some (.real (double.zero sign), cur.dropWhile charIsDigit)
  else some (.real (double.zero sign), cur)

/-- A number that begins with zero, with `cur` behind it. -/
def readZero (sign : Bool) (cur : Bytes) : Option (YyjsonNum F × Bytes) :=
  if !charIsDigitOrFp (peek cur 0) then some (returnI64 sign 0, cur)
  else if peek cur 0 = 0x2E then
    let dot := cur.drop 1
    if !charIsDigit (peek dot 0) then none
    else
      let cur := dot.dropWhile (· == 0x30)
      if charIsDigit (peek cur 0) then digiFrac double sign [0x30] dot
      else readZeroExp double sign cur
  else readZeroExp double sign cur

/-- `read_num`: the number, and what follows. -/
def readNum (cur : Bytes) : Option (YyjsonNum F × Bytes) :=
  let sign := peek cur 0 == 0x2D
  let cur := if sign then cur.drop 1 else cur
  if !charIsNonzero (peek cur 0) then
    if peek cur 0 ≠ 0x30 then none else readZero double sign (cur.drop 1)
  else readNonzero double sign cur

end

/-! ## What a numeral means -/

/-- The integer of a numeral without a fraction and an exponent. -/
def intValue (l : Numeral) : Int :=
  if l.neg then -(Decimal.value l.int : Int) else Decimal.value l.int

/-- An integer, if the numeral is one and has room in 64 bits; a double otherwise. -/
def numeralValue {F : Type} (double : DoubleReader F) (l : Numeral) : Option (YyjsonNum F) :=
  if h : l.isInt = true ∧ -2 ^ 63 ≤ intValue l ∧ intValue l < 2 ^ 64 then
    some (.int ⟨intValue l, h.2⟩)
  else (double.ofDecimal l.neg l.magnitude).map .real

end ServerBase.Yyjson
