import ServerBase.Yyjson.Mutable
import ServerBase.Yyjson.WriterProof

/-!
# How long a text is

The buffers that a text is printed into have a fixed size, so its length has to be bounded by the
value alone.

**Strings.** A string in which no byte needs an escape is written with two quotes and nothing else.

**The bound** (`length_written`). The text of a value is no longer than `textBound`, which counts
every string with its quotes, every number with `FP_BUF_LEN` bytes, and the punctuation.
-/

namespace ServerBase.Yyjson

open Json (Scalar Token Value separated elemTokens memberTokens)

variable {F : Type}

/-! ## The bounds -/

/-- No byte of the string needs an escape. -/
def isPlain (str : Bytes) : Bool := str.all isNoesc

def strBound (str : Bytes) : Nat := if isPlain str then str.length + 2 else str.length * 6 + 2

def scalarBound : Scalar (YyjsonNum F) → Nat
  | .null => 4
  | .bool _ => 5
  | .num _ => FP_BUF_LEN
  | .str s => strBound s

def tokenBound : Token (YyjsonNum F) → Nat
  | .scalar s => scalarBound s
  | _ => 1

def tokensBound (ts : List (Token (YyjsonNum F))) : Nat := (ts.map tokenBound).sum

mutual

/-- The bound of a value, with a separator for each of its elements. -/
def textBound : Value (YyjsonNum F) → Nat
  | .scalar s => scalarBound s
  | .arr elems => elemsBound elems + 2
  | .obj members => membersBound members + 2

def elemsBound : List (Value (YyjsonNum F)) → Nat
  | [] => 0
  | v :: elems => textBound v + 1 + elemsBound elems

def membersBound : List (Bytes × Value (YyjsonNum F)) → Nat
  | [] => 0
  | (k, v) :: members => strBound k + 1 + textBound v + 1 + membersBound members

end

@[simp] theorem scalarBound_num (n : YyjsonNum F) : scalarBound (.num n) = 40 := rfl

@[simp] theorem scalarBound_str (s : Bytes) : scalarBound (F := F) (.str s) = strBound s := rfl

/-! ## Tokens -/

theorem strBound_of_plain {str : Bytes} (h : isPlain str = true) : strBound str = str.length + 2 :=
  if_pos h

theorem length_writeStr_le {str x : Bytes} (h : writeStr str = some x) :
    x.length ≤ strBound str := by
  unfold strBound
  split
  · next hplain =>
    rw [isPlain, List.all_eq_true] at hplain
    have hbytes : ∀ c ∈ str, 0x20 ≤ c ∧ c ≤ 0x7E ∧ c ≠ 0x22 ∧ c ≠ 0x5C := by
      intro c hc
      have hnoesc := hplain c hc
      simp only [isNoesc, Bool.and_eq_true, decide_eq_true_eq, bne_iff_ne] at hnoesc
      exact ⟨hnoesc.1.1.1, hnoesc.1.1.2, hnoesc.1.2, hnoesc.2⟩
    rw [writeStr_plain hbytes] at h
    obtain rfl := Option.some.inj h
    rw [writeStrNoesc, List.length_cons, List.length_append, List.length_singleton]
  · exact length_writeStr h

theorem length_tokenOut {double : DoubleWriter F} {t : Token (YyjsonNum F)} {x : Bytes}
    (h : tokenOut double t = some x) : x.length ≤ tokenBound t := by
  rcases t with (- | ⟨- | -⟩ | n | s) | (- | -) | (- | -) | - | -
  case scalar.num => exact (length_writeNum h).le
  case scalar.str => exact length_writeStr_le h
  all_goals
    obtain rfl := Option.some.inj h
    exact Nat.le_of_ble_eq_true rfl

theorem length_written_tokens {double : DoubleWriter F} {ts : List (Token (YyjsonNum F))}
    {b : Bytes} (h : written double ts = some b) : b.length ≤ tokensBound ts := by
  induction ts generalizing b with
  | nil =>
      obtain rfl := Option.some.inj h
      exact Nat.zero_le _
  | cons t ts ih =>
      obtain ⟨x, hx, hmap⟩ := Option.bind_eq_some_iff.1 h
      obtain ⟨y, hy, rfl⟩ := Option.map_eq_some_iff.1 hmap
      rw [List.length_append, tokensBound, List.map_cons, List.sum_cons]
      exact Nat.add_le_add (length_tokenOut hx) (ih hy)

/-! ## Values -/

@[simp] theorem tokensBound_nil : tokensBound ([] : List (Token (YyjsonNum F))) = 0 := rfl

@[simp] theorem tokensBound_cons (t : Token (YyjsonNum F)) (ts : List (Token (YyjsonNum F))) :
    tokensBound (t :: ts) = tokenBound t + tokensBound ts := by
  rw [tokensBound, List.map_cons, List.sum_cons, tokensBound]

@[simp] theorem tokensBound_append (ts us : List (Token (YyjsonNum F))) :
    tokensBound (ts ++ us) = tokensBound ts + tokensBound us := by
  rw [tokensBound, List.map_append, List.sum_append, tokensBound, tokensBound]

/-- A separator for each item is enough. -/
theorem tokensBound_separated (item : List (Token (YyjsonNum F)))
    (items : List (List (Token (YyjsonNum F)))) :
    tokensBound (separated (item :: items)) ≤
      tokensBound item + 1 + tokensBound (separated items) := by
  cases items with
  | nil =>
      rw [separated, List.intercalate_singleton]
      omega
  | cons item' items =>
      rw [separated, List.intercalate_cons_of_ne_nil (List.cons_ne_nil _ _)]
      simp only [tokensBound_append, tokensBound_cons, tokensBound_nil]
      exact Nat.le_refl _

mutual

theorem tokensBound_value : ∀ v : Value (YyjsonNum F), tokensBound v.tokens ≤ textBound v
  | .scalar s => by
      rw [Value.tokens, textBound]
      simp [tokenBound]
  | .arr elems => by
      have helems := tokensBound_elems elems
      rw [Value.tokens, textBound]
      simp only [tokensBound_append, tokensBound_cons, tokensBound_nil, tokenBound]
      omega
  | .obj members => by
      have hmembers := tokensBound_members members
      rw [Value.tokens, textBound]
      simp only [tokensBound_append, tokensBound_cons, tokensBound_nil, tokenBound]
      omega

theorem tokensBound_elems : ∀ elems : List (Value (YyjsonNum F)),
    tokensBound (separated (elemTokens elems)) ≤ elemsBound elems
  | [] => Nat.le_refl _
  | v :: elems => by
      have hv := tokensBound_value v
      have helems := tokensBound_elems elems
      have hitem := tokensBound_separated v.tokens (elemTokens elems)
      rw [elemTokens, elemsBound]
      omega

theorem tokensBound_members : ∀ members : List (Bytes × Value (YyjsonNum F)),
    tokensBound (separated (memberTokens members)) ≤ membersBound members
  | [] => Nat.le_refl _
  | (k, v) :: members => by
      have hv := tokensBound_value v
      have hmembers := tokensBound_members members
      have hitem := tokensBound_separated (.scalar (.str k) :: .colon :: v.tokens)
        (memberTokens members)
      rw [memberTokens, membersBound]
      simp only [tokensBound_cons, tokenBound, scalarBound] at hitem
      omega

end

/-- **The length of a text.** -/
theorem length_written {double : DoubleWriter F} {v : Value (YyjsonNum F)} {text : Bytes}
    (h : written double v.tokens = some text) : text.length ≤ textBound v :=
  (length_written_tokens h).trans (tokensBound_value v)

end ServerBase.Yyjson
