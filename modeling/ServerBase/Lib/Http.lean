import Mathlib.Data.List.DropRight
import ServerBase.Lib.Decimal

/-!
# HTTP messages

A reader of HTTP/1.1 responses: lines that end in CRLF, a status line, headers up to the blank line,
and as many bytes of body as `Content-Length` says.

**The head** (`readHeaders_append`). A head that is written line by line is read back, whatever
follows it.

**The body** (`decode_append`). Behind such a head the body is a prefix of what follows, of the
length announced.
-/

namespace Http

abbrev CR : UInt8 := 13
abbrev LF : UInt8 := 10
abbrev COLON : UInt8 := 58
abbrev SP : UInt8 := 32

structure Header where
  name : List UInt8
  value : List UInt8
  deriving DecidableEq

structure Message where
  statusLine : List UInt8
  headers : List Header
  body : List UInt8

/-! ## Reading -/

/-- A line, and what follows its CRLF. -/
def readLine : List UInt8 → Option (List UInt8 × List UInt8)
  | [] => none
  | c :: rest =>
      if c = CR ∧ rest.head? = some LF then some ([], rest.tail)
      else (readLine rest).map fun lr => (c :: lr.1, lr.2)

/-- A space or a tab. -/
def isBlank (c : UInt8) : Bool := c == SP || c == 9

/-- A value without the blanks around it. -/
def trim (value : List UInt8) : List UInt8 := (value.dropWhile isBlank).rdropWhile isBlank

/-- `name: value` -/
def readHeader (line : List UInt8) : Option Header :=
  match line.dropWhile (· != COLON) with
  | [] => none
  | _ :: value =>
      let name := line.takeWhile (· != COLON)
      if name = [] then none else some ⟨name, trim value⟩

theorem readLine_length {msg line rest : List UInt8} (h : readLine msg = some (line, rest)) :
    rest.length < msg.length := by
  induction msg generalizing line with
  | nil => cases h
  | cons c msg ih =>
      rw [readLine] at h
      split at h
      · obtain ⟨-, rfl⟩ := Prod.mk.inj (Option.some.inj h)
        rw [List.length_tail, List.length_cons]
        omega
      · obtain ⟨⟨line', rest'⟩, hline, heq⟩ := Option.map_eq_some_iff.1 h
        obtain ⟨-, rfl⟩ := Prod.mk.inj heq
        exact (ih hline).trans (Nat.lt_succ_self _)

/-- The headers up to the blank line, and what follows it. -/
def readHeaders (msg : List UInt8) : Option (List Header × List UInt8) :=
  match h : readLine msg with
  | none => none
  | some ([], rest) => some ([], rest)
  | some (line, rest) =>
      (readHeader line).bind fun header =>
        have := readLine_length h
        (readHeaders rest).map fun hr => (header :: hr.1, hr.2)
termination_by msg.length

def lower (c : UInt8) : UInt8 := if 65 ≤ c && c ≤ 90 then c + 32 else c

/-- `content-length` -/
def contentLengthName : List UInt8 :=
  [99, 111, 110, 116, 101, 110, 116, 45, 108, 101, 110, 103, 116, 104]

/-- The number in the first `Content-Length` header. -/
def contentLength (headers : List Header) : Option Nat :=
  (headers.find? fun h => h.name.map lower = contentLengthName).bind fun h =>
    if h.value ≠ [] ∧ h.value.all Decimal.isDigit = true then some (Decimal.value h.value)
    else none

/-- `HTTP/1.1`, a space, three digits and a space. -/
def isStatusLine (line : List UInt8) : Bool :=
  line.take 9 == [72, 84, 84, 80, 47, 49, 46, 49, 32] &&
    ((line.drop 9).take 3).all Decimal.isDigit && (line.drop 12).head? == some SP

/-- The message at the beginning of the bytes. -/
def decode (msg : List UInt8) : Option Message :=
  (readLine msg).bind fun sr =>
    if isStatusLine sr.1 then
      (readHeaders sr.2).bind fun hr =>
        (contentLength hr.1).bind fun len =>
          if len ≤ hr.2.length then some ⟨sr.1, hr.1, hr.2.take len⟩ else none
    else none

/-! ## Writing -/

/-- `name: value` and a CRLF -/
def writeHeader (header : Header) : List UInt8 :=
  header.name ++ COLON :: SP :: (header.value ++ [CR, LF])

def writeHead (statusLine : List UInt8) (headers : List Header) : List UInt8 :=
  statusLine ++ [CR, LF] ++ headers.flatMap writeHeader ++ [CR, LF]

/-- A header that can be written: no colon in the name, no line end, no blank around the value. -/
structure Header.Plain (header : Header) : Prop where
  name_ne : header.name ≠ []
  name : ∀ c ∈ header.name, c ≠ COLON ∧ c ≠ CR
  value : ∀ c ∈ header.value, c ≠ CR
  first : ∀ c ∈ header.value.head?, isBlank c = false
  last : ∀ c ∈ header.value.getLast?, isBlank c = false

/-- A value without blanks and line ends. -/
theorem Header.Plain.of_solid {header : Header} (hne : header.name ≠ [])
    (hname : ∀ c ∈ header.name, c ≠ COLON ∧ c ≠ CR)
    (hvalue : ∀ c ∈ header.value, c ≠ CR ∧ isBlank c = false) : header.Plain where
  name_ne := hne
  name := hname
  value c hc := (hvalue c hc).1
  first c hc := (hvalue c (List.mem_of_mem_head? hc)).2
  last c hc := (hvalue c (List.mem_of_mem_getLast? hc)).2

/-- A number as the value. -/
theorem Header.Plain.of_digits {name : List UInt8} (hne : name ≠ [])
    (hname : ∀ c ∈ name, c ≠ COLON ∧ c ≠ CR) (k : Nat) :
    (⟨name, Decimal.digits k⟩ : Header).Plain := by
  refine .of_solid hne hname fun c hc => ?_
  have hrange := Decimal.isDigit_iff.1 (Decimal.isDigit_of_mem_digits hc)
  constructor
  · rintro rfl
    revert hrange
    decide
  · simp only [isBlank, Bool.or_eq_false_iff, beq_eq_false_iff_ne, ne_eq, ← UInt8.toNat_inj]
    exact ⟨fun h => absurd (h ▸ hrange.1) (by decide), fun h => absurd (h ▸ hrange.1) (by decide)⟩

/-- The first `Content-Length` header counts. -/
theorem contentLength_digits (front : List Header) {back : List Header} {name : List UInt8}
    (hfront : ∀ header ∈ front, header.name.map lower ≠ contentLengthName)
    (hname : name.map lower = contentLengthName) (k : Nat) :
    contentLength (front ++ ⟨name, Decimal.digits k⟩ :: back) = some k := by
  have hfind : (front ++ (⟨name, Decimal.digits k⟩ : Header) :: back).find?
      (fun h => decide (h.name.map lower = contentLengthName)) = some ⟨name, Decimal.digits k⟩ := by
    rw [List.find?_append, List.find?_eq_none.2 fun header hheader => by
      simpa using hfront header hheader, Option.none_or,
      List.find?_cons_of_pos (by simpa using hname)]
  rw [contentLength, hfind, Option.bind_some, if_pos, Decimal.value_digits]
  exact ⟨Decimal.digits_ne_nil k,
    List.all_eq_true.2 fun c hc => Decimal.isDigit_of_mem_digits hc⟩

/-! ## The round trip -/

theorem readLine_append {line : List UInt8} (h : ∀ c ∈ line, c ≠ CR) (rest : List UInt8) :
    readLine (line ++ CR :: LF :: rest) = some (line, rest) := by
  induction line with
  | nil => rfl
  | cons c line ih =>
      have hc : c ≠ CR := h c (by simp)
      rw [List.cons_append, readLine, if_neg (fun hcr => hc hcr.1),
        ih fun d hd => h d (by simp [hd])]
      rfl

theorem trim_of_plain {value : List UInt8} (hfirst : ∀ c ∈ value.head?, isBlank c = false)
    (hlast : ∀ c ∈ value.getLast?, isBlank c = false) : trim (SP :: value) = value := by
  have hdrop : (SP :: value).dropWhile isBlank = value := by
    rw [List.dropWhile_cons_of_pos (by rfl)]
    cases value with
    | nil => rfl
    | cons c value => exact List.dropWhile_cons_of_neg (by simp [hfirst c rfl])
  rw [trim, hdrop, List.rdropWhile_eq_self_iff]
  intro hne
  rw [hlast _ (List.getLast?_eq_getLast_of_ne_nil hne)]
  simp

theorem readHeader_write {header : Header} (h : header.Plain) :
    readHeader (header.name ++ COLON :: SP :: header.value) = some header := by
  have hname : ∀ c ∈ header.name, (c != COLON) = true := fun c hc => by simpa using (h.name c hc).1
  have htake : (header.name ++ COLON :: SP :: header.value).takeWhile (· != COLON) =
      header.name := by
    rw [List.takeWhile_append_of_pos hname, List.takeWhile_cons_of_neg (by simp), List.append_nil]
  have hdrop : (header.name ++ COLON :: SP :: header.value).dropWhile (· != COLON) =
      COLON :: SP :: header.value := by
    rw [List.dropWhile_append_of_pos hname, List.dropWhile_cons_of_neg (by simp)]
  rw [readHeader, hdrop]
  simp only [htake, if_neg h.name_ne, trim_of_plain h.first h.last]

theorem Header.Plain.noCR {header : Header} (h : header.Plain) :
    ∀ c ∈ header.name ++ COLON :: SP :: header.value, c ≠ CR := by
  intro c hc
  simp only [List.mem_append, List.mem_cons] at hc
  rcases hc with hc | rfl | rfl | hc
  · exact (h.name c hc).2
  · decide
  · decide
  · exact h.value c hc

/-- **The head is read back.** -/
theorem readHeaders_append {headers : List Header} (h : ∀ header ∈ headers, header.Plain)
    (rest : List UInt8) :
    readHeaders (headers.flatMap writeHeader ++ CR :: LF :: rest) = some (headers, rest) := by
  induction headers with
  | nil =>
      have hblank : readLine ([] ++ CR :: LF :: rest) = some ([], rest) :=
        readLine_append (fun c hc => by cases hc) rest
      rw [List.flatMap_nil, readHeaders]
      split
      · next heq => rw [hblank] at heq; cases heq
      · next heq =>
        rw [hblank] at heq
        rw [(Prod.mk.inj (Option.some.inj heq)).2]
      · next hne heq =>
        rw [hblank] at heq
        exact absurd (Prod.mk.inj (Option.some.inj heq)).1.symm hne
  | cons header headers ih =>
      have hplain := h header (by simp)
      have hline : readLine ((header :: headers).flatMap writeHeader ++ CR :: LF :: rest) =
          some (header.name ++ COLON :: SP :: header.value,
            headers.flatMap writeHeader ++ CR :: LF :: rest) := by
        have happend := @readLine_append (header.name ++ COLON :: SP :: header.value) hplain.noCR
          (headers.flatMap writeHeader ++ CR :: LF :: rest)
        simpa [writeHeader] using happend
      rw [readHeaders]
      split
      · next heq => rw [hline] at heq; cases heq
      · next heq =>
        rw [hline] at heq
        simp at heq
      · next heq =>
        rw [hline] at heq
        obtain ⟨rfl, rfl⟩ := Prod.mk.inj (Option.some.inj heq)
        rw [readHeader_write hplain, Option.bind_some, ih fun g hg => h g (by simp [hg])]
        rfl

/-- **The body** is what follows the head, up to the length announced. -/
theorem decode_append {statusLine : List UInt8} {headers : List Header} {len : Nat}
    (hstatus : isStatusLine statusLine = true) (hline : ∀ c ∈ statusLine, c ≠ CR)
    (hheaders : ∀ header ∈ headers, header.Plain) (hlen : contentLength headers = some len)
    (rest : List UInt8) :
    decode (writeHead statusLine headers ++ rest) =
      if len ≤ rest.length then some ⟨statusLine, headers, rest.take len⟩ else none := by
  have hread : readLine (writeHead statusLine headers ++ rest) =
      some (statusLine, headers.flatMap writeHeader ++ CR :: LF :: rest) := by
    have happend := readLine_append hline (headers.flatMap writeHeader ++ CR :: LF :: rest)
    simpa [writeHead] using happend
  rw [decode, hread, Option.bind_some]
  simp only [hstatus, if_true, readHeaders_append hheaders, Option.bind_some, hlen]

end Http
