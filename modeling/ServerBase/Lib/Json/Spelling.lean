import Mathlib.Algebra.Order.Field.Rat
import Mathlib.Data.List.TakeWhile
import ServerBase.Lib.Decimal
import ServerBase.Lib.Json.Tokens

/-!
# JSON texts

How a token is written in bytes, and the texts of a value: its tokens one after the other, with
whitespace around them.

**Strings.** A string is a sequence of characters, each of which is written in UTF-8 or escaped. Its
value is the UTF-8 encoding of the characters.

**Numbers.** What a numeral means is a parameter: a partial function from numerals to numbers.

**Reading** (`Accepts`). What remains to be read in a state of the automaton. A reader that takes
whitespace (`accepts_ws`) or one token (`Lexer.accepts_iff`) away never changes what is accepted.
-/

namespace Json

variable {N : Type}

/-! ## Whitespace -/

def isWs (c : UInt8) : Bool := c == 0x20 || c == 0x09 || c == 0x0A || c == 0x0D

def Ws (b : List UInt8) : Prop := ∀ c ∈ b, isWs c = true

/-! ## Strings -/

/-- The character that is escaped with one letter. -/
def escapes (e : UInt8) : Option Char :=
  if e = 0x22 then some '"'
  else if e = 0x5C then some '\\'
  else if e = 0x2F then some '/'
  else if e = 0x62 then some '\x08'
  else if e = 0x66 then some '\x0c'
  else if e = 0x6E then some '\n'
  else if e = 0x72 then some '\r'
  else if e = 0x74 then some '\t'
  else none

def hexDigit (c : UInt8) : Option Nat :=
  if 0x30 ≤ c ∧ c ≤ 0x39 then some (c.toNat - 0x30)
  else if 0x41 ≤ c ∧ c ≤ 0x46 then some (c.toNat - 0x41 + 10)
  else if 0x61 ≤ c ∧ c ≤ 0x66 then some (c.toNat - 0x61 + 10)
  else none

/-- The value of four hexadecimal digits. -/
def hex4 : List UInt8 → Option Nat
  | [a, b, c, d] => do
      let a ← hexDigit a
      let b ← hexDigit b
      let c ← hexDigit c
      let d ← hexDigit d
      return ((a * 16 + b) * 16 + c) * 16 + d
  | _ => none

/-- How one character may be written. -/
inductive CharText : Char → List UInt8 → Prop
  | plain {c : Char} (hc : 0x20 ≤ c.toNat) (hquote : c ≠ '"') (hback : c ≠ '\\') :
      CharText c (String.utf8EncodeChar c)
  | escape {c : Char} {e : UInt8} (h : escapes e = some c) : CharText c [0x5C, e]
  | unicode {c : Char} {h : List UInt8} (hh : hex4 h = some c.toNat) :
      CharText c (0x5C :: 0x75 :: h)
  | pair {c : Char} {h l : List UInt8} {hi lo : Nat} (hh : hex4 h = some hi) (hl : hex4 l = some lo)
      (hhi : 0xD800 ≤ hi ∧ hi < 0xDC00) (hlo : 0xDC00 ≤ lo ∧ lo < 0xE000)
      (hc : c.toNat = 0x10000 + (hi - 0xD800) * 0x400 + (lo - 0xDC00)) :
      CharText c (0x5C :: 0x75 :: (h ++ 0x5C :: 0x75 :: l))

/-- How characters may be written one after the other. -/
inductive CharsText : List Char → List UInt8 → Prop
  | nil : CharsText [] []
  | cons {c : Char} {cs : List Char} {x t : List UInt8} (hc : CharText c x) (hcs : CharsText cs t) :
      CharsText (c :: cs) (x ++ t)

/-- The UTF-8 encoding of characters. -/
def utf8 (cs : List Char) : List UInt8 := cs.flatMap String.utf8EncodeChar

/-- How the string `s` may be written between its quotes. -/
def StrText (s t : List UInt8) : Prop := ∃ cs, utf8 cs = s ∧ CharsText cs t

/-! ## Numerals -/

structure Exponent where
  letter : UInt8
  sign : Option UInt8
  digits : List UInt8
  letter_eq : letter = 0x65 ∨ letter = 0x45
  sign_eq : ∀ c ∈ sign, c = 0x2B ∨ c = 0x2D
  isDigit : ∀ c ∈ digits, Decimal.isDigit c = true
  ne_nil : digits ≠ []

/-- A number as it is written: no leading zero, and a digit behind the point and behind the letter
of the exponent. -/
structure Numeral where
  neg : Bool
  int : List UInt8
  frac : Option (List UInt8)
  exp : Option Exponent
  int_isDigit : ∀ c ∈ int, Decimal.isDigit c = true
  int_ne_nil : int ≠ []
  int_leading : int.head? = some 0x30 → int = [0x30]
  frac_isDigit : ∀ ds ∈ frac, ∀ c ∈ ds, Decimal.isDigit c = true
  frac_ne_nil : ∀ ds ∈ frac, ds ≠ []

def Exponent.text (e : Exponent) : List UInt8 := e.letter :: (e.sign.toList ++ e.digits)

def Exponent.value (e : Exponent) : Int :=
  if e.sign = some 0x2D then -(Decimal.value e.digits : Int) else Decimal.value e.digits

namespace Numeral

def text (l : Numeral) : List UInt8 :=
  (if l.neg then [0x2D] else []) ++ l.int ++ (l.frac.elim [] fun ds => 0x2E :: ds) ++
    l.exp.elim [] Exponent.text

/-- Without a fraction and an exponent. -/
def isInt (l : Numeral) : Bool := l.frac.isNone && l.exp.isNone

/-- The number without its sign. -/
def magnitude (l : Numeral) : ℚ :=
  Decimal.value (l.int ++ l.frac.getD []) *
    10 ^ ((l.exp.elim 0 Exponent.value : Int) - (l.frac.getD []).length)

end Numeral

/-! ## Tokens and texts -/

/-- How a token may be written, where `read` says what numerals mean. -/
def TokenText (read : Numeral → Option N) : Token N → List UInt8 → Prop
  | .scalar .null, t => t = [0x6E, 0x75, 0x6C, 0x6C]
  | .scalar (.bool true), t => t = [0x74, 0x72, 0x75, 0x65]
  | .scalar (.bool false), t => t = [0x66, 0x61, 0x6C, 0x73, 0x65]
  | .scalar (.num n), t => ∃ l : Numeral, l.text = t ∧ read l = some n
  | .scalar (.str s), t => ∃ body, StrText s body ∧ t = 0x22 :: (body ++ [0x22])
  | .opens .arr, t => t = [0x5B]
  | .opens .obj, t => t = [0x7B]
  | .closes .arr, t => t = [0x5D]
  | .closes .obj, t => t = [0x7D]
  | .comma, t => t = [0x2C]
  | .colon, t => t = [0x3A]

/-- The tokens are written one after the other, with whitespace around them. -/
inductive Spells (read : Numeral → Option N) : List (Token N) → List UInt8 → Prop
  | nil {ws : List UInt8} (hws : Ws ws) : Spells read [] ws
  | cons {t : Token N} {ts : List (Token N)} {ws x rest : List UInt8} (hws : Ws ws)
      (ht : TokenText read t x) (hts : Spells read ts rest) :
      Spells read (t :: ts) (ws ++ x ++ rest)

/-- A JSON text of the value `v`. -/
def Text (read : Numeral → Option N) (v : Value N) (b : List UInt8) : Prop :=
  Spells read v.tokens b

/-- From the state `S` on, the bytes lead to the value `v`. -/
def Accepts (read : Numeral → Option N) (S : State N) (b : List UInt8) (v : Value N) : Prop :=
  ∃ ts, Spells read ts b ∧ S.run ts = some (.done v)

theorem accepts_start_iff {read : Numeral → Option N} {b : List UInt8} {v : Value N} :
    Accepts read .start b v ↔ Text read v b := by
  constructor
  · rintro ⟨ts, hts, hrun⟩
    obtain rfl := State.run_start_iff.1 hrun
    exact hts
  · intro h
    exact ⟨v.tokens, h, State.run_start_iff.2 rfl⟩

/-! ## The first byte of a token -/

/-- A byte of a numeral. -/
def isNumChar (c : UInt8) : Bool :=
  Decimal.isDigit c || c == 0x2E || c == 0x65 || c == 0x45

theorem digit_ne {c : UInt8} (h : Decimal.isDigit c = true) {d : UInt8}
    (hd : Decimal.isDigit d = false) : c ≠ d := by
  rintro rfl
  rw [h] at hd
  cases hd

/-- A numeral begins with its sign or a digit. -/
theorem Numeral.text_head (l : Numeral) :
    ∃ c t, l.text = c :: t ∧ (c = 0x2D ∨ Decimal.isDigit c = true) := by
  cases hneg : l.neg with
  | true => exact ⟨0x2D, _, by rw [text, hneg, if_pos rfl]; rfl, .inl rfl⟩
  | false =>
      cases hint : l.int with
      | nil => exact absurd hint l.int_ne_nil
      | cons c ds =>
          refine ⟨c, _, by rw [text, hneg, hint, if_neg Bool.false_ne_true]; rfl, .inr ?_⟩
          exact l.int_isDigit c (by simp [hint])

variable {read : Numeral → Option N} {t : Token N} {x : List UInt8}

/-- The first byte of a token is no whitespace. It belongs to numerals in a number only. -/
theorem TokenText.head (h : TokenText read t x) :
    ∃ c x', x = c :: x' ∧ isWs c = false ∧
      (isNumChar c = true → ∃ n, t = .scalar (.num n)) := by
  have hdigit : ∀ {c : UInt8}, c = 0x2D ∨ Decimal.isDigit c = true → isWs c = false := by
    rintro c (rfl | hc)
    · decide
    · simp only [isWs, Bool.or_eq_false_iff, beq_eq_false_iff_ne]
      exact ⟨⟨⟨digit_ne hc (by decide), digit_ne hc (by decide)⟩, digit_ne hc (by decide)⟩,
        digit_ne hc (by decide)⟩
  rcases t with (- | ⟨- | -⟩ | n | s) | (- | -) | (- | -) | - | -
  case scalar.num =>
    obtain ⟨l, rfl, -⟩ := h
    obtain ⟨c, x', heq, hc⟩ := l.text_head
    exact ⟨c, x', heq, hdigit hc, fun _ => ⟨n, rfl⟩⟩
  case scalar.str =>
    obtain ⟨body, -, rfl⟩ := h
    exact ⟨_, _, rfl, by decide, fun hc => absurd hc (by decide)⟩
  all_goals
    obtain rfl := h
    exact ⟨_, _, rfl, by decide, fun hc => absurd hc (by decide)⟩

/-! ## Whitespace can be skipped -/

theorem Spells.skip {ts : List (Token N)} {w b : List UInt8} (hw : Ws w) :
    Spells read ts (w ++ b) ↔ Spells read ts b := by
  constructor
  · intro h
    generalize hb : w ++ b = b' at h
    cases h with
    | nil hws =>
        subst hb
        exact .nil fun c hc => hws c (List.mem_append_right w hc)
    | @cons t ts ws x rest hws ht hts =>
        -- the token begins behind the whitespace
        obtain ⟨c, x', rfl, hc, -⟩ := ht.head
        rw [List.append_assoc, List.append_eq_append_iff] at hb
        rcases hb with ⟨as, rfl, rfl⟩ | ⟨bs, rfl, hbs⟩
        · rw [← List.append_assoc]
          exact .cons (fun d hd => hws d (List.mem_append_right w hd)) ht hts
        · cases bs with
          | nil =>
              have hempty : Ws [] := fun d hd => by cases hd
              rw [List.nil_append] at hbs
              rw [← hbs, ← List.nil_append (c :: x' ++ rest), ← List.append_assoc]
              exact .cons hempty ht hts
          | cons d bs =>
              obtain ⟨rfl, -⟩ := List.cons.inj hbs
              rw [hw c (by simp)] at hc
              cases hc
  · intro h
    cases h with
    | nil hws =>
        exact .nil fun c hc => (List.mem_append.1 hc).elim (hw c) (hws c)
    | cons hws ht hts =>
        rw [List.append_assoc, ← List.append_assoc w, ← List.append_assoc (w ++ _)]
        exact .cons (fun c hc => (List.mem_append.1 hc).elim (hw c) (hws c)) ht hts

theorem accepts_ws {S : State N} {w b : List UInt8} {v : Value N} (hw : Ws w) :
    Accepts read S (w ++ b) v ↔ Accepts read S b v :=
  exists_congr fun _ => and_congr_left fun _ => Spells.skip hw

/-- Behind the value only whitespace may follow. -/
theorem accepts_done_iff {w v : Value N} {b : List UInt8} :
    Accepts read (.done w) b v ↔ Ws b ∧ w = v := by
  constructor
  · rintro ⟨ts, hts, hrun⟩
    cases hts with
    | nil hws => exact ⟨hws, State.done.inj (Option.some.inj hrun)⟩
    | cons => cases hrun
  · rintro ⟨hb, rfl⟩
    exact ⟨[], .nil hb, rfl⟩

/-- Before the value is complete something must follow. -/
theorem not_accepts_of_ws {S : State N} {b : List UInt8} {v : Value N} (hS : ∀ w, S ≠ .done w)
    (hb : Ws b) : ¬ Accepts read S b v := by
  rintro ⟨ts, hts, hrun⟩
  cases hts with
  | nil => exact hS v (Option.some.inj hrun)
  | @cons t ts ws x rest hws ht hts =>
      obtain ⟨c, x', rfl, hc, -⟩ := ht.head
      rw [hb c (by simp)] at hc
      cases hc

/-! ## One token -/

/-- No scalar follows a scalar. -/
theorem State.next_scalar_scalar {S S' : State N} {a : Scalar N}
    (h : S.next (.scalar a) = some S') (b : Scalar N) : S'.next (.scalar b) = none := by
  have hgive : ∀ (v : Value N) (outer : List (Frame N)), State.give v outer = some S' →
      S'.next (.scalar b) = none := by
    rintro v (- | ⟨⟨elems⟩ | ⟨members⟩ | ⟨members, key⟩, outer⟩) hv
    · obtain rfl := Option.some.inj hv
      rfl
    · obtain rfl := Option.some.inj hv
      rfl
    · cases hv
    · obtain rfl := Option.some.inj hv
      rfl
  rcases S with - | ⟨begins, frame, outer⟩ | w
  · exact hgive _ [] h
  · cases begins with
    | false => cases frame <;> cases h
    | true =>
        cases frame with
        | arr elems => exact hgive _ (.arr elems :: outer) h
        | member members key => exact hgive _ (.member members key :: outer) h
        | obj members =>
            cases a with
            | str key =>
                obtain rfl := Option.some.inj h
                rfl
            | null => cases h
            | bool => cases h
            | num => cases h
  · cases h

/-- A function that takes one token away, the longest one where it is a number. -/
structure Lexer (read : Numeral → Option N) where
  lex : List UInt8 → Option (Token N × List UInt8)
  sound : ∀ {b rest t}, lex b = some (t, rest) → ∃ x, b = x ++ rest ∧ TokenText read t x
  complete : ∀ {t x rest}, TokenText read t x →
    ((∃ n, t = .scalar (.num n)) → ∀ c ∈ rest.head?, isNumChar c = false) →
      lex (x ++ rest) = some (t, rest)

namespace Lexer

variable (L : Lexer read) {S : State N} {b rest : List UInt8} {v : Value N}

/-- The first token of accepted bytes is the one that the lexer finds. -/
theorem of_accepts {c : UInt8} (hc : isWs c = false) (hS : ∀ w, S ≠ .done w)
    (h : Accepts read S (c :: b) v) :
    ∃ t rest S', L.lex (c :: b) = some (t, rest) ∧ S.next t = some S' ∧
      Accepts read S' rest v := by
  obtain ⟨ts, hts, hrun⟩ := h
  generalize hb : c :: b = b' at hts
  cases hts with
  | nil => exact absurd (Option.some.inj hrun) (hS v)
  | @cons t ts ws x rest hws ht hts =>
      obtain ⟨S', hnext, hrest⟩ := Option.bind_eq_some_iff.1 hrun
      have hnil : ws = [] := by
        cases ws with
        | nil => rfl
        | cons d ws =>
            obtain ⟨rfl, -⟩ := List.cons.inj hb
            rw [hws c (by simp)] at hc
            cases hc
      subst hnil
      refine ⟨t, rest, S', L.complete ht ?_, hnext, ts, hts, hrest⟩
      -- a numeral that goes on would be a second number
      rintro ⟨n, rfl⟩ d hd
      cases hts with
      | nil hws' =>
          have hdws := hws' d (List.mem_of_mem_head? hd)
          cases hnum : isNumChar d with
          | false => rfl
          | true =>
              simp only [isWs, Bool.or_eq_true, beq_iff_eq] at hdws
              rcases hdws with ((rfl | rfl) | rfl) | rfl <;> cases hnum
      | @cons t' ts' ws' x' rest' hws' ht' hts' =>
          obtain ⟨e, x'', rfl, he, hnum⟩ := ht'.head
          cases ws' with
          | cons f ws' =>
              obtain rfl : f = d := by simpa using hd
              have hfws := hws' f (by simp)
              cases hnumf : isNumChar f with
              | false => rfl
              | true =>
                  simp only [isWs, Bool.or_eq_true, beq_iff_eq] at hfws
                  rcases hfws with ((rfl | rfl) | rfl) | rfl <;> cases hnumf
          | nil =>
              obtain rfl : e = d := by simpa using hd
              cases hnume : isNumChar e with
              | false => rfl
              | true =>
                  obtain ⟨m, rfl⟩ := hnum hnume
                  rw [State.run, State.next_scalar_scalar hnext] at hrest
                  cases hrest

/-- **A token can be taken away.** -/
theorem accepts_iff {t : Token N} (hS : ∀ w, S ≠ .done w) (hlex : L.lex b = some (t, rest)) :
    Accepts read S b v ↔ ∃ S', S.next t = some S' ∧ Accepts read S' rest v := by
  obtain ⟨x, rfl, ht⟩ := L.sound hlex
  constructor
  · intro h
    obtain ⟨c, x', rfl, hc, -⟩ := ht.head
    obtain ⟨t', rest', S', hlex', hnext, hrest⟩ := L.of_accepts hc hS h
    rw [show c :: x'.append rest = c :: x' ++ rest from rfl, hlex] at hlex'
    obtain ⟨rfl, rfl⟩ := Prod.mk.inj (Option.some.inj hlex')
    exact ⟨S', hnext, hrest⟩
  · rintro ⟨S', hnext, ts, hts, hrun⟩
    refine ⟨t :: ts, ?_, by rw [State.run, hnext]; exact hrun⟩
    exact @Spells.cons _ _ _ _ [] _ _ (fun c hc => by cases hc) ht hts

/-- **A text has one value.** -/
theorem unique (L : Lexer read) {w : Value N} (hv : Accepts read S b v)
    (hw : Accepts read S b w) : v = w := by
  induction hn : b.length using Nat.strong_induction_on generalizing S b with
  | _ n ih =>
      by_cases hS : ∀ u, S ≠ .done u
      swap
      · obtain ⟨u, hu⟩ := not_forall_not.1 hS
        subst hu
        exact (accepts_done_iff.1 hv).2.symm.trans (accepts_done_iff.1 hw).2
      have hws : Ws (b.takeWhile isWs) := fun c hc => List.mem_takeWhile_imp hc
      have hskip : ∀ {u}, Accepts read S b u → Accepts read S (b.dropWhile isWs) u := by
        intro u hu
        rw [← List.takeWhile_append_dropWhile (p := isWs) (l := b)] at hu
        exact (accepts_ws hws).1 hu
      replace hv := hskip hv
      replace hw := hskip hw
      have hle := (List.dropWhile_sublist isWs (l := b)).length_le
      have hhead := List.head?_dropWhile_not isWs b
      cases hb : b.dropWhile isWs with
      | nil =>
          rw [hb] at hv
          exact absurd hv (not_accepts_of_ws hS fun c hc => by cases hc)
      | cons c t =>
          rw [hb] at hv hw hle hhead
          obtain ⟨tok, rest, S', hlex, hnext, hv'⟩ := L.of_accepts hhead hS hv
          obtain ⟨tok', rest', S'', hlex', hnext', hw'⟩ := L.of_accepts hhead hS hw
          obtain ⟨rfl, rfl⟩ := Prod.mk.inj (Option.some.inj (hlex.symm.trans hlex'))
          obtain rfl := Option.some.inj (hnext.symm.trans hnext')
          obtain ⟨x, hx, htext⟩ := L.sound hlex
          obtain ⟨d, x', rfl, -⟩ := htext.head
          have hlen := congrArg List.length hx
          simp only [List.length_append, List.length_cons] at hlen hle
          exact ih rest.length (by omega) hv' hw' rfl

end Lexer

end Json
