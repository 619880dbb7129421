import ServerBase.Yyjson.NumbersProof
import ServerBase.Yyjson.Reader
import ServerBase.Yyjson.StringsProof

/-!
# What the document reader accepts

**Layout** (`layout`). How a value lies in the array: each container carries its size and its
extent.

**Simulation** (`Sim`). The reader keeps its open containers in the array that it fills: the saved
sizes and the distances to the parents are the stack of the token automaton. Each label does what
the automaton does with the next token, or skips whitespace.

**The result** (`readRoot_eq_some_iff`). The reader accepts the JSON texts of containers, and what
it fills is the layout of the value. The pretty reader and the minified one agree
(`readRootPretty_eq`).
-/

namespace ServerBase.Yyjson

open Json (Scalar Kind Token Value Frame State Numeral Accepts)

variable {F : Type}

/-! ## Layout -/

mutual

def layout : Value (YyjsonNum F) → List (Val F)
  | .scalar s => [.scalar s]
  | .arr elems => .ctn .arr elems.length ((layoutElems elems).length + 1) :: layoutElems elems
  | .obj members =>
      .ctn .obj members.length ((layoutMembers members).length + 1) :: layoutMembers members

def layoutElems : List (Value (YyjsonNum F)) → List (Val F)
  | [] => []
  | v :: elems => layout v ++ layoutElems elems

def layoutMembers : List (Bytes × Value (YyjsonNum F)) → List (Val F)
  | [] => []
  | (k, v) :: members => .scalar (.str k) :: (layout v ++ layoutMembers members)

end

theorem layoutElems_append (vs ws : List (Value (YyjsonNum F))) :
    layoutElems (vs ++ ws) = layoutElems vs ++ layoutElems ws := by
  induction vs with
  | nil => rfl
  | cons v vs ih => rw [List.cons_append, layoutElems, layoutElems, ih, List.append_assoc]

theorem layoutMembers_append (ms ns : List (Bytes × Value (YyjsonNum F))) :
    layoutMembers (ms ++ ns) = layoutMembers ms ++ layoutMembers ns := by
  induction ms with
  | nil => rfl
  | cons m ms ih =>
      rw [List.cons_append, layoutMembers, layoutMembers, ih, List.cons_append, List.append_assoc]

/-! ## Tokens -/

/-- The tokens of one byte. -/
def punctuation (c : UInt8) : Option (Token (YyjsonNum F)) :=
  if c = 0x7B then some (.opens .obj)
  else if c = 0x5B then some (.opens .arr)
  else if c = 0x7D then some (.closes .obj)
  else if c = 0x5D then some (.closes .arr)
  else if c = 0x2C then some .comma
  else if c = 0x3A then some .colon
  else none

/-- The token in front, by the functions that the labels call. -/
def lexToken (double : DoubleReader F) (cur : Bytes) : Option (Token (YyjsonNum F) × Bytes) :=
  match punctuation (peek cur 0) with
  | some t => some (t, cur.drop 1)
  | none => (readScalar double cur).map fun p => (.scalar p.1, p.2)

section
variable (double : DoubleReader F)

theorem byteMatch_iff {cur pat : Bytes} : byteMatch cur pat = true ↔ ∃ rest, cur = pat ++ rest := by
  rw [byteMatch, List.isPrefixOf_iff_prefix]
  exact exists_congr fun rest => eq_comm

/-- A byte in front that is not the padding. -/
theorem exists_cons_of_peek {cur : Bytes} {c : UInt8} (hc : c ≠ 0) (h : peek cur 0 = c) :
    ∃ t, cur = c :: t := by
  cases cur with
  | nil => exact absurd h.symm hc
  | cons d t =>
      obtain rfl : d = c := h
      exact ⟨t, rfl⟩

/-- The functions that read a scalar take a text of it away. -/
theorem readScalar_sound {cur rest : Bytes} {s : Scalar (YyjsonNum F)}
    (h : readScalar double cur = some (s, rest)) :
    ∃ x, cur = x ++ rest ∧ Json.TokenText (numeralValue double) (.scalar s) x := by
  unfold readScalar at h
  by_cases hnum : charIsNum (peek cur 0) = true
  · rw [if_pos hnum] at h
    obtain ⟨⟨n, rest'⟩, hread, heq⟩ := Option.map_eq_some_iff.1 h
    obtain ⟨rfl, rfl⟩ := Prod.mk.inj heq
    obtain ⟨l, htext, hval⟩ := readNum_sound double hread
    exact ⟨l.text, htext, l, rfl, hval⟩
  rw [if_neg hnum] at h
  by_cases hstr : peek cur 0 = 0x22
  · rw [if_pos hstr] at h
    obtain ⟨t, rfl⟩ := exists_cons_of_peek (by decide) hstr
    obtain ⟨⟨b, rest'⟩, hread, heq⟩ := Option.map_eq_some_iff.1 h
    obtain ⟨rfl, rfl⟩ := Prod.mk.inj heq
    obtain ⟨body, hbody, htext⟩ := readStr_eq_some_iff.1 hread
    refine ⟨0x22 :: (body ++ [0x22]), ?_, body, hbody, rfl⟩
    rw [show t = (0x22 :: t).drop 1 from rfl, htext]
    simp
  rw [if_neg hstr] at h
  by_cases htrue : peek cur 0 = 0x74
  · rw [if_pos htrue, readTrue] at h
    split_ifs at h with hmatch
    obtain ⟨u, rfl⟩ := byteMatch_iff.1 hmatch
    obtain ⟨rfl, rfl⟩ := Prod.mk.inj (Option.some.inj h)
    exact ⟨_, rfl, rfl⟩
  rw [if_neg htrue] at h
  by_cases hfalse : peek cur 0 = 0x66
  · rw [if_pos hfalse, readFalse] at h
    obtain ⟨t, rfl⟩ := exists_cons_of_peek (by decide) hfalse
    split_ifs at h with hmatch
    obtain ⟨u, htext⟩ := byteMatch_iff.1 hmatch
    obtain rfl : t = _ := htext
    obtain ⟨rfl, rfl⟩ := Prod.mk.inj (Option.some.inj h)
    exact ⟨_, rfl, rfl⟩
  rw [if_neg hfalse, readNull] at h
  split_ifs at h with hnull hmatch
  obtain ⟨u, rfl⟩ := byteMatch_iff.1 hmatch
  obtain ⟨rfl, rfl⟩ := Prod.mk.inj (Option.some.inj h)
  exact ⟨_, rfl, rfl⟩

theorem punctuation_sound {c : UInt8} {t : Token (YyjsonNum F)} (h : punctuation c = some t) :
    Json.TokenText (numeralValue double) t [c] ∧ c ≠ 0 := by
  unfold punctuation at h
  split_ifs at h with h1 h2 h3 h4 h5 h6 <;> obtain rfl := Option.some.inj h <;> subst c <;>
    exact ⟨rfl, by decide⟩

theorem lexToken_sound {cur rest : Bytes} {t : Token (YyjsonNum F)}
    (h : lexToken double cur = some (t, rest)) :
    ∃ x, cur = x ++ rest ∧ Json.TokenText (numeralValue double) t x := by
  unfold lexToken at h
  split at h
  · next t' hpunct =>
    obtain ⟨rfl, rfl⟩ := Prod.mk.inj (Option.some.inj h)
    obtain ⟨htext, hne⟩ := punctuation_sound double hpunct
    obtain ⟨u, hu⟩ := exists_cons_of_peek hne rfl
    refine ⟨_, ?_, htext⟩
    rw [hu]
    rfl
  · obtain ⟨⟨s, rest'⟩, hread, heq⟩ := Option.map_eq_some_iff.1 h
    obtain ⟨rfl, rfl⟩ := Prod.mk.inj heq
    exact readScalar_sound double hread

theorem charIsNum_of_text {c : UInt8} (h : c = 0x2D ∨ Decimal.isDigit c = true) :
    charIsNum c = true := by
  rcases h with rfl | h
  · decide
  · rw [charIsNum, h]
    rfl

/-- A byte of a number is no other token's first. -/
theorem ne_of_charIsNum {c d : UInt8} (h : charIsNum c = true) (hd : charIsNum d = false) :
    c ≠ d := by
  rintro rfl
  rw [h] at hd
  cases hd

theorem punctuation_of_charIsNum {c : UInt8} (h : charIsNum c = true) :
    (punctuation c : Option (Token (YyjsonNum F))) = none := by
  unfold punctuation
  rw [if_neg (ne_of_charIsNum h (by decide)), if_neg (ne_of_charIsNum h (by decide)),
    if_neg (ne_of_charIsNum h (by decide)), if_neg (ne_of_charIsNum h (by decide)),
    if_neg (ne_of_charIsNum h (by decide)), if_neg (ne_of_charIsNum h (by decide))]

theorem lexToken_complete {t : Token (YyjsonNum F)} {x rest : Bytes}
    (h : Json.TokenText (numeralValue double) t x)
    (hrest : (∃ n, t = .scalar (.num n)) → ∀ c ∈ rest.head?, Json.isNumChar c = false) :
    lexToken double (x ++ rest) = some (t, rest) := by
  rcases t with (- | ⟨- | -⟩ | n | s) | (- | -) | (- | -) | - | -
  case scalar.num =>
    obtain ⟨l, rfl, hval⟩ := h
    obtain ⟨c, u, htext, hc⟩ := l.text_head
    have hread := readNum_complete double hval (hrest ⟨n, rfl⟩)
    have hnum : charIsNum (peek (l.text ++ rest) 0) = true := by
      rw [htext, List.cons_append, peek_cons]
      exact charIsNum_of_text hc
    rw [lexToken, punctuation_of_charIsNum hnum, readScalar, if_pos hnum, readNumVal, hread]
    rfl
  case scalar.str =>
    obtain ⟨body, hbody, rfl⟩ := h
    have hread := readStr_eq_some_iff.2 ⟨body, hbody, (rfl : body ++ 0x22 :: rest = _)⟩
    have hcons : 0x22 :: (body ++ [0x22]) ++ rest = 0x22 :: (body ++ 0x22 :: rest) := by simp
    rw [hcons]
    show (readStrVal (0x22 :: (body ++ 0x22 :: rest))).map _ = _
    rw [readStrVal, show (0x22 :: (body ++ 0x22 :: rest)).drop 1 = body ++ 0x22 :: rest from rfl,
      hread]
    rfl
  all_goals
    obtain rfl := h
    rfl

/-- The reader's tokens. -/
def lexer : Json.Lexer (numeralValue double) where
  lex := lexToken double
  sound := lexToken_sound double
  complete := lexToken_complete double

end

/-! ## Open containers -/

def kindOf : Frame (YyjsonNum F) → Kind
  | .arr _ => .arr
  | .obj _ => .obj
  | .member _ _ => .obj

/-- What a container holds so far. -/
def contents : Frame (YyjsonNum F) → List (Val F)
  | .arr elems => layoutElems elems
  | .obj members => layoutMembers members
  | .member members key => layoutMembers members ++ [.scalar (.str key)]

/-- `ctn_len`: a key and a value count one each. -/
def count : Frame (YyjsonNum F) → Nat
  | .arr elems => elems.length
  | .obj members => 2 * members.length
  | .member members _ => 2 * members.length + 1

/-- How far the parent is; the root is its own. -/
def distance : List (Frame (YyjsonNum F)) → Nat
  | [] => 0
  | frame :: _ => (contents frame).length + 1

/-- The array up to the current container. -/
def outerVals : List (Frame (YyjsonNum F)) → List (Val F)
  | [] => []
  | frame :: outer =>
      outerVals outer ++ .ctn (kindOf frame) (count frame + 1) (distance outer) :: contents frame

def labelOf : Bool → Frame (YyjsonNum F) → Label
  | true, .arr _ => .arrValBegin
  | false, .arr _ => .arrValEnd
  | true, .obj _ => .objKeyBegin
  | false, .obj _ => .objValEnd
  | true, .member _ _ => .objValBegin
  | false, .member _ _ => .objKeyEnd

/-- The reader in the state of the automaton. The size in the tag of the current container is an
old one. -/
structure Sim (begins : Bool) (frame : Frame (YyjsonNum F)) (outer : List (Frame (YyjsonNum F)))
    (r : Reader F) : Prop where
  label : r.label = labelOf begins frame
  vals : ∃ len, r.vals = outerVals outer ++ .ctn (kindOf frame) len (distance outer) ::
    contents frame
  ctn : r.ctn = (outerVals outer).length
  ctnLen : r.ctnLen = count frame
  awaits : ∀ f ∈ outer, ∀ members, f ≠ .obj members

/-- A container that awaits a value takes it. -/
theorem exists_give (v : Value (YyjsonNum F)) {f : Frame (YyjsonNum F)}
    (hf : ∀ members, f ≠ .obj members) (outer : List (Frame (YyjsonNum F))) :
    ∃ f', State.give v (f :: outer) = some (.inside false f' outer) ∧ kindOf f' = kindOf f ∧
      contents f' = contents f ++ layout v ∧ count f' = count f + 1 ∧
      labelOf false f' = if kindOf f = .obj then .objValEnd else .arrValEnd := by
  cases f with
  | arr elems =>
      refine ⟨.arr (elems ++ [v]), rfl, rfl, ?_, List.length_append, rfl⟩
      rw [contents, contents, layoutElems_append, layoutElems, layoutElems, List.append_nil]
  | obj members => exact absurd rfl (hf members)
  | member members key =>
      refine ⟨.obj (members ++ [(key, v)]), rfl, rfl, ?_, ?_, rfl⟩
      · rw [contents, contents, layoutMembers_append, layoutMembers, layoutMembers, List.append_nil,
          List.append_assoc]
        rfl
      · rw [count, count, List.length_append]
        rfl

theorem awaiting_cons {f : Frame (YyjsonNum F)} (hf : ∀ members, f ≠ .obj members)
    (outer : List (Frame (YyjsonNum F))) :
    State.awaiting (f :: outer) = some (.inside true f outer) := by
  cases f with
  | arr elems => rfl
  | obj members => exact absurd rfl (hf members)
  | member members key => rfl

/-! ## What a label does -/

/-- The label did what the automaton does, and took something away. -/
def Next.Follows (double : DoubleReader F) (S : State (YyjsonNum F)) (cur : Bytes) :
    Next F → Prop
  | .goto r => r.cur.length < cur.length ∧ ∃ begins frame outer, Sim begins frame outer r ∧
      ∀ v, Accepts (numeralValue double) S cur v ↔
        Accepts (numeralValue double) (.inside begins frame outer) r.cur v
  | .docEnd rest vals => ∃ w, vals = layout w ∧
      ∀ v, Accepts (numeralValue double) S cur v ↔ Accepts (numeralValue double) (.done w) rest v
  | .fail => ∀ v, ¬ Accepts (numeralValue double) S cur v

section
variable {double : DoubleReader F} {pretty : Bool} {r : Reader F} {begins : Bool}
  {frame : Frame (YyjsonNum F)} {outer : List (Frame (YyjsonNum F))}

/-- Whitespace in front changes nothing. -/
theorem Next.Follows.skip {S : State (YyjsonNum F)} {w cur : Bytes} {next : Next F}
    (hw : Json.Ws w) (h : next.Follows double S cur) : next.Follows double S (w ++ cur) := by
  cases next with
  | goto r =>
      obtain ⟨hlen, begins, frame, outer, hsim, haccepts⟩ := h
      refine ⟨?_, begins, frame, outer, hsim, fun v => (Json.accepts_ws hw).trans (haccepts v)⟩
      rw [List.length_append]
      omega
  | docEnd rest vals =>
      obtain ⟨w', hvals, haccepts⟩ := h
      exact ⟨w', hvals, fun v => (Json.accepts_ws hw).trans (haccepts v)⟩
  | fail => exact fun v hv => h v ((Json.accepts_ws hw).1 hv)

theorem ws_takeWhile (cur : Bytes) : Json.Ws (cur.takeWhile charIsSpace) :=
  fun _ hc => List.mem_takeWhile_imp (p := charIsSpace) hc

/-- The branch that skips whitespace. -/
theorem follows_space (hsim : Sim begins frame outer r) {cur : Bytes}
    (hcur : charIsSpace (peek cur 0) = true) :
    (Next.goto { r with cur := skipSpace (cur.drop 1) }).Follows double
      (.inside begins frame outer) cur := by
  obtain ⟨c, t, rfl, hc⟩ := peek_eq_head (p := charIsSpace) (by decide) hcur
  have hskip : c :: t = (c :: t.takeWhile charIsSpace) ++ skipSpace t := by
    rw [List.cons_append, skipSpace, List.takeWhile_append_dropWhile]
  refine ⟨?_, begins, frame, outer, ⟨hsim.label, hsim.vals, hsim.ctn, hsim.ctnLen, hsim.awaits⟩,
    fun v => ?_⟩
  · rw [List.drop_succ_cons, List.drop_zero, List.length_cons]
    exact Nat.lt_succ_of_le (List.dropWhile_sublist _).length_le
  · show Accepts _ _ (c :: t) v ↔ Accepts _ _ (skipSpace t) v
    rw [hskip]
    refine Json.accepts_ws fun d hd => ?_
    rcases List.mem_cons.1 hd with rfl | hd
    · exact hc
    · exact ws_takeWhile t d hd

/-- What the first byte of a token is. -/
def Begins : Token (YyjsonNum F) → UInt8 → Prop
  | .scalar .null, c => c = 0x6E
  | .scalar (.bool true), c => c = 0x74
  | .scalar (.bool false), c => c = 0x66
  | .scalar (.num _), c => charIsNum c = true
  | .scalar (.str _), c => c = 0x22
  | .opens .arr, c => c = 0x5B
  | .opens .obj, c => c = 0x7B
  | .closes .arr, c => c = 0x5D
  | .closes .obj, c => c = 0x7D
  | .comma, c => c = 0x2C
  | .colon, c => c = 0x3A

theorem begins_of_text {x : Bytes} {t : Token (YyjsonNum F)}
    (h : Json.TokenText (numeralValue double) t x) (rest : Bytes) :
    Begins t (peek (x ++ rest) 0) := by
  rcases t with (- | ⟨- | -⟩ | n | s) | (- | -) | (- | -) | - | -
  case scalar.num =>
    obtain ⟨l, rfl, -⟩ := h
    obtain ⟨c, u, htext, hc⟩ := l.text_head
    rw [htext, List.cons_append, peek_cons]
    exact charIsNum_of_text hc
  case scalar.str =>
    obtain ⟨body, -, rfl⟩ := h
    rfl
  all_goals
    obtain rfl := h
    rfl

theorem begins_of_lexToken {cur rest : Bytes} {t : Token (YyjsonNum F)}
    (h : lexToken double cur = some (t, rest)) : Begins t (peek cur 0) := by
  obtain ⟨x, rfl, htext⟩ := lexToken_sound double h
  exact begins_of_text htext rest

theorem punctuation_of_begins {c : UInt8} {s : Scalar (YyjsonNum F)} (h : Begins (.scalar s) c) :
    punctuation c = (none : Option (Token (YyjsonNum F))) := by
  rcases s with - | (- | -) | n | s
  case num => exact punctuation_of_charIsNum h
  all_goals
    obtain rfl := h
    rfl

theorem lexToken_punctuation {cur : Bytes} {c : UInt8} {t : Token (YyjsonNum F)}
    (h : peek cur 0 = c) (hc : punctuation c = some t) :
    lexToken double cur = some (t, cur.drop 1) := by
  rw [lexToken, h, hc]

theorem inside_ne_done (w : Value (YyjsonNum F)) : State.inside begins frame outer ≠ .done w :=
  fun h => by cases h

/-- A branch that takes one token away. -/
theorem follows_token {cur rest : Bytes} {t : Token (YyjsonNum F)} {begins' : Bool}
    {frame' : Frame (YyjsonNum F)} {outer' : List (Frame (YyjsonNum F))} {r' : Reader F}
    (hlex : lexToken double cur = some (t, rest))
    (hnext : State.next (.inside begins frame outer) t = some (.inside begins' frame' outer'))
    (hsim : Sim begins' frame' outer' r') (hrest : ∃ w, Json.Ws w ∧ rest = w ++ r'.cur) :
    (Next.goto r').Follows double (.inside begins frame outer) cur := by
  obtain ⟨w, hw, rfl⟩ := hrest
  have haccepts := fun v =>
    (lexer double).accepts_iff (v := v) (@inside_ne_done _ begins frame outer) hlex
  refine ⟨?_, begins', frame', outer', hsim, fun v => (haccepts v).trans ?_⟩
  · obtain ⟨x, rfl, htext⟩ := lexToken_sound double hlex
    obtain ⟨c, x', rfl, -⟩ := htext.head
    simp only [List.length_append, List.length_cons]
    omega
  · rw [← Json.accepts_ws hw]
    constructor
    · rintro ⟨S', hS', h⟩
      obtain rfl := Option.some.inj (hnext.symm.trans hS')
      exact h
    · exact fun h => ⟨_, hnext, h⟩

/-- A branch that fails: no token comes, or one that the automaton refuses. -/
theorem follows_fail {cur : Bytes} (hspace : charIsSpace (peek cur 0) = false)
    (hreject : ∀ t rest, lexToken double cur = some (t, rest) →
      State.next (.inside begins frame outer) t = none) :
    (Next.fail : Next F).Follows double (.inside begins frame outer) cur := by
  intro v hv
  have hS := @inside_ne_done _ begins frame outer
  cases cur with
  | nil => exact Json.not_accepts_of_ws hS (fun c hc => by cases hc) hv
  | cons c t =>
      obtain ⟨t', rest, S', hlex, hnext, -⟩ := (lexer double).of_accepts hspace hS hv
      rw [hreject t' rest hlex] at hnext
      cases hnext

theorem ws_nil : Json.Ws [] := fun _ hc => by cases hc

variable (pretty) in
theorem skipLine_eq (cur : Bytes) :
    ∃ w, Json.Ws w ∧ cur = w ++ Reader.skipLine pretty cur := by
  unfold Reader.skipLine
  split_ifs with h
  · obtain ⟨t, rfl⟩ := exists_cons_of_peek (c := 0x0A) (by decide)
      (beq_iff_eq.1 (Bool.and_eq_true_iff.1 h).2)
    refine ⟨[0x0A], fun b hb => ?_, rfl⟩
    rw [List.mem_singleton.1 hb]
    rfl
  · exact ⟨[], ws_nil, rfl⟩

theorem skipPairs_eq (cur : Bytes) : ∃ w, Json.Ws w ∧ cur = w ++ Reader.skipPairs cur := by
  fun_induction Reader.skipPairs cur with
  | case1 cur ih =>
      obtain ⟨w, hw, heq⟩ := ih
      refine ⟨0x20 :: 0x20 :: w, ?_, by rw [List.cons_append, List.cons_append, ← heq]⟩
      intro c hc
      rcases List.mem_cons.1 hc with rfl | hc
      · decide
      · rcases List.mem_cons.1 hc with rfl | hc
        · decide
        · exact hw c hc
  | case2 cur => exact ⟨[], ws_nil, rfl⟩

variable (pretty) in
theorem skipIndent_eq (cur : Bytes) :
    ∃ w, Json.Ws w ∧ cur = w ++ Reader.skipIndent pretty cur := by
  unfold Reader.skipIndent
  split_ifs
  · exact skipPairs_eq cur
  · exact ⟨[], ws_nil, rfl⟩

/-! ## The branches -/

/-- The label behind a value. -/
def behind (frame : Frame (YyjsonNum F)) : Label :=
  if kindOf frame = .obj then .objValEnd else .arrValEnd

variable (double) in
theorem lexToken_scalar {cur : Bytes}
    (hpunct : punctuation (peek cur 0) = (none : Option (Token (YyjsonNum F)))) :
    lexToken double cur = (readScalar double cur).map fun p => (.scalar p.1, p.2) := by
  rw [lexToken, hpunct]

/-- A scalar where a value is awaited. -/
theorem follows_add (hsim : Sim true frame outer r) (hf : ∀ members, frame ≠ .obj members)
    {cur : Bytes} (hspace : charIsSpace (peek cur 0) = false)
    (hpunct : punctuation (peek cur 0) = (none : Option (Token (YyjsonNum F)))) :
    (r.add (behind frame) (readScalar double cur)).Follows double (.inside true frame outer)
      cur := by
  have hlex := lexToken_scalar double hpunct
  cases hread : readScalar double cur with
  | none =>
      rw [hread] at hlex
      exact follows_fail hspace fun t rest h => by rw [hlex] at h; cases h
  | some p =>
      obtain ⟨s, rest⟩ := p
      rw [hread] at hlex
      obtain ⟨f', hgive, hkind, hcontents, hcount, hlabel⟩ := exists_give (.scalar s) hf outer
      obtain ⟨len, hvals⟩ := hsim.vals
      refine follows_token hlex ((State.next_scalar (awaiting_cons hf outer) s).trans hgive)
        ⟨hlabel.symm, ⟨len, ?_⟩, hsim.ctn, ?_, hsim.awaits⟩ ⟨[], ws_nil, rfl⟩
      · show r.vals ++ [.scalar s] = _
        rw [hvals, hkind, hcontents, layout]
        simp
      · show r.ctnLen + 1 = _
        rw [hsim.ctnLen, hcount]

theorem modify_length_append {α : Type} (as : List α) (b : α) (bs : List α) (f : α → α) :
    (as ++ b :: bs).modify as.length f = as ++ f b :: bs := by
  induction as with
  | nil => rfl
  | cons a as ih =>
      rw [List.cons_append, List.length_cons, List.modify_succ_cons, ih, List.cons_append]

theorem set_length_append {α : Type} (as : List α) (b c : α) (bs : List α) :
    (as ++ b :: bs).set as.length c = as ++ c :: bs := by
  rw [List.set_append_right _ _ (Nat.le_refl _), Nat.sub_self, List.set_cons_zero]

theorem getD_length_append {α : Type} (as : List α) (b c : α) (bs : List α) :
    (as ++ b :: bs).getD as.length c = b := by
  rw [List.getD_eq_getElem?_getD, List.getElem?_append_right (Nat.le_refl _), Nat.sub_self,
    List.getElem?_cons_zero, Option.getD_some]

/-- `arr_begin` and `obj_begin` -/
theorem follows_ctnBegin (hsim : Sim true frame outer r) (hf : ∀ members, frame ≠ .obj members)
    {cur rest : Bytes} {kind : Kind} (hlex : lexToken double cur = some (.opens kind, rest)) :
    (r.ctnBegin pretty kind (labelOf true (kind.frame : Frame (YyjsonNum F))) rest).Follows double
      (.inside true frame outer) cur := by
  obtain ⟨len, hvals⟩ := hsim.vals
  have hsaved : r.vals.modify r.ctn (Val.setLen (r.ctnLen + 1)) = outerVals (frame :: outer) := by
    rw [hvals, hsim.ctn, hsim.ctnLen, modify_length_append]
    rfl
  have hdistance : (outerVals (frame :: outer)).length - r.ctn = distance (frame :: outer) := by
    rw [hsim.ctn, outerVals, List.length_append, Nat.add_sub_cancel_left]
    rfl
  unfold Reader.ctnBegin
  dsimp only
  rw [hsaved, hdistance]
  refine follows_token hlex (State.next_opens (awaiting_cons hf outer) kind)
    ⟨rfl, ⟨0, ?_⟩, rfl, ?_, ?_⟩ (skipLine_eq pretty rest)
  · cases kind <;> rfl
  · cases kind <;> rfl
  · rintro f (- | ⟨_, hmem⟩)
    · exact hf
    · exact hsim.awaits f hmem

/-- `arr_end` and `obj_end` -/
theorem follows_ctnEnd (hsim : Sim begins frame outer r) {cur rest : Bytes} {len : Nat}
    {v : Value (YyjsonNum F)} (hlex : lexToken double cur = some (.closes (kindOf frame), rest))
    (hnext : State.next (.inside begins frame outer) (.closes (kindOf frame)) = State.give v outer)
    (hv : layout v = .ctn (kindOf frame) len ((contents frame).length + 1) :: contents frame) :
    (r.ctnEnd pretty (kindOf frame) len rest).Follows double (.inside begins frame outer) cur := by
  obtain ⟨old, hvals⟩ := hsim.vals
  have hsize : r.vals.length - r.ctn = (contents frame).length + 1 := by
    rw [hvals, hsim.ctn, List.length_append, Nat.add_sub_cancel_left, List.length_cons]
  have hclosed : r.vals.set r.ctn (.ctn (kindOf frame) len (r.vals.length - r.ctn)) =
      outerVals outer ++ layout v := by
    rw [hsize, hvals, hsim.ctn, set_length_append, hv]
  have hofs : (r.vals.getD r.ctn (.scalar .null)).ofs = distance outer := by
    rw [hvals, hsim.ctn, getD_length_append]
    rfl
  unfold Reader.ctnEnd
  dsimp only
  rw [hclosed, hofs]
  cases outer with
  | nil =>
      rw [distance, Nat.sub_zero, if_pos rfl]
      refine ⟨v, rfl, fun w => ?_⟩
      rw [(lexer double).accepts_iff inside_ne_done hlex]
      constructor
      · rintro ⟨S', hS', h⟩
        obtain rfl := Option.some.inj (hnext.symm.trans hS')
        exact h
      · exact fun h => ⟨_, hnext, h⟩
  | cons f outer =>
      have hf := hsim.awaits f (by simp)
      obtain ⟨f', hgive, hkind, hcontents, hcount, hlabel⟩ := exists_give v hf outer
      have hparent : r.ctn - distance (f :: outer) = (outerVals outer).length := by
        rw [hsim.ctn, outerVals, List.length_append, distance, List.length_cons,
          Nat.add_sub_cancel]
      have hne : ¬ r.ctn = (outerVals outer).length := by
        rw [hsim.ctn, outerVals, List.length_append, List.length_cons]
        omega
      have houter : outerVals (f :: outer) ++ layout v = outerVals outer ++
          .ctn (kindOf f) (count f + 1) (distance outer) :: (contents f ++ layout v) := by
        rw [outerVals, List.append_assoc, List.cons_append]
      rw [hparent, if_neg hne, houter, getD_length_append]
      refine follows_token hlex (hnext.trans hgive) ⟨?_, ⟨count f + 1, ?_⟩, rfl, ?_, ?_⟩
        (skipLine_eq pretty rest)
      · rw [hlabel]
        cases kindOf f <;> rfl
      · rw [hkind, hcontents]
      · exact hcount.symm
      · exact fun g hg => hsim.awaits g (by simp [hg])

/-- A separator, and in the pretty reader the byte that usually follows it. -/
theorem follows_separator (hsim : Sim false frame outer r) (frame' : Frame (YyjsonNum F))
    {label : Label} {c d : UInt8} {t : Token (YyjsonNum F)} (hc : punctuation c = some t)
    (hd : charIsSpace d = true) (hlabel : labelOf true frame' = label)
    (hnext : State.next (.inside false frame outer) t = some (.inside true frame' outer))
    (hkind : kindOf frame' = kindOf frame) (hcontents : contents frame' = contents frame)
    (hcount : count frame' = count frame) {next : Next F}
    (hnot : (pretty && byteMatch r.cur [c, d]) = false → peek r.cur 0 ≠ c →
      next.Follows double (.inside false frame outer) r.cur) :
    (if (pretty && byteMatch r.cur [c, d]) = true then
        Next.goto { r with label := label, cur := r.cur.drop 2 }
      else if peek r.cur 0 = c then Next.goto { r with label := label, cur := r.cur.drop 1 }
      else next).Follows double (.inside false frame outer) r.cur := by
  have hsim' : ∀ cur, Sim true frame' outer { r with label := label, cur := cur } := by
    obtain ⟨len, hvals⟩ := hsim.vals
    exact fun cur => ⟨hlabel.symm, ⟨len, by rw [hkind, hcontents]; exact hvals⟩, hsim.ctn,
      hsim.ctnLen.trans hcount.symm, hsim.awaits⟩
  split_ifs with hmatch hpeek
  · obtain ⟨u, hu⟩ := byteMatch_iff.1 (Bool.and_eq_true_iff.1 hmatch).2
    have hlex : lexToken double r.cur = some (t, r.cur.drop 1) :=
      lexToken_punctuation (by rw [hu]; rfl) hc
    refine follows_token hlex hnext (hsim' _) ⟨[d], ?_, by rw [hu]; rfl⟩
    intro e he
    obtain rfl := List.mem_singleton.1 he
    exact hd
  · exact follows_token (lexToken_punctuation hpeek hc) hnext (hsim' _) ⟨[], ws_nil, rfl⟩
  · exact hnot (by simpa using hmatch) hpeek

theorem follows_arrValEnd {elems : List (Value (YyjsonNum F))}
    (hsim : Sim false (.arr elems) outer r) :
    (r.arrValEnd pretty).Follows double (.inside false (.arr elems) outer) r.cur := by
  refine follows_separator hsim (.arr elems) rfl (by decide) rfl rfl rfl rfl
    rfl fun _ hcomma => ?_
  split_ifs with hclose hspace
  · rw [Reader.arrEnd, hsim.ctnLen]
    exact follows_ctnEnd hsim (v := .arr elems) (lexToken_punctuation hclose rfl) rfl rfl
  · exact follows_space hsim hspace
  · refine follows_fail (Bool.eq_false_iff.2 hspace) fun t rest hlex => ?_
    have hbegins := begins_of_lexToken hlex
    rcases t with s | (- | -) | (- | -) | - | -
    case closes.arr => exact absurd hbegins hclose
    case comma => exact absurd hbegins hcomma
    all_goals rfl

theorem follows_objValEnd {members : List (Bytes × Value (YyjsonNum F))}
    (hsim : Sim false (.obj members) outer r) :
    (r.objValEnd pretty).Follows double (.inside false (.obj members) outer) r.cur := by
  refine follows_separator hsim (.obj members) rfl (by decide) rfl rfl rfl rfl
    rfl fun _ hcomma => ?_
  split_ifs with hclose hspace
  · rw [Reader.objEnd, hsim.ctnLen, count, Nat.mul_div_cancel_left _ (by decide)]
    exact follows_ctnEnd hsim (v := .obj members) (lexToken_punctuation hclose rfl) rfl rfl
  · exact follows_space hsim hspace
  · refine follows_fail (Bool.eq_false_iff.2 hspace) fun t rest hlex => ?_
    have hbegins := begins_of_lexToken hlex
    rcases t with s | (- | -) | (- | -) | - | -
    case closes.obj => exact absurd hbegins hclose
    case comma => exact absurd hbegins hcomma
    all_goals rfl

theorem follows_objKeyEnd {members : List (Bytes × Value (YyjsonNum F))} {key : Bytes}
    (hsim : Sim false (.member members key) outer r) :
    (r.objKeyEnd pretty).Follows double (.inside false (.member members key) outer) r.cur := by
  refine follows_separator hsim (.member members key) rfl (by decide) rfl rfl
    rfl rfl rfl fun _ hcolon => ?_
  split_ifs with hspace
  · exact follows_space hsim hspace
  · refine follows_fail (Bool.eq_false_iff.2 hspace) fun t rest hlex => ?_
    have hbegins := begins_of_lexToken hlex
    rcases t with s | (- | -) | (- | -) | - | -
    case colon => exact absurd hbegins hcolon
    all_goals rfl

theorem charIsSpace_of_charIsNum {c : UInt8} (h : charIsNum c = true) : charIsSpace c = false := by
  simp only [charIsSpace, Bool.or_eq_false_iff, beq_eq_false_iff_ne]
  exact ⟨⟨⟨ne_of_charIsNum h (by decide), ne_of_charIsNum h (by decide)⟩,
    ne_of_charIsNum h (by decide)⟩, ne_of_charIsNum h (by decide)⟩

/-- A branch for one kind of scalar. -/
theorem follows_scalar (hsim : Sim true frame outer r) (hf : ∀ members, frame ≠ .obj members)
    {cur : Bytes} {c : UInt8} (hc : peek cur 0 = c) (hspace : charIsSpace c = false)
    (hpunct : punctuation c = (none : Option (Token (YyjsonNum F)))) {label : Label}
    (hlabel : behind frame = label) {read : Option (Scalar (YyjsonNum F) × Bytes)}
    (hread : readScalar double cur = read) :
    (r.add label read).Follows double (.inside true frame outer) cur := by
  subst hc hlabel hread
  exact follows_add hsim hf hspace hpunct

theorem follows_num (hsim : Sim true frame outer r) (hf : ∀ members, frame ≠ .obj members)
    {cur : Bytes} (hnum : charIsNum (peek cur 0) = true) {label : Label}
    (hlabel : behind frame = label) :
    (r.add label (readNumVal double cur)).Follows double (.inside true frame outer) cur :=
  follows_scalar hsim hf rfl (charIsSpace_of_charIsNum hnum) (punctuation_of_charIsNum hnum) hlabel
    (if_pos hnum)

theorem follows_str (hsim : Sim true frame outer r) (hf : ∀ members, frame ≠ .obj members)
    {cur : Bytes} (h : peek cur 0 = 0x22) {label : Label} (hlabel : behind frame = label) :
    (r.add label (readStrVal cur)).Follows double (.inside true frame outer) cur :=
  follows_scalar hsim hf h (by decide) rfl hlabel (by rw [readScalar, h]; rfl)

theorem follows_true (hsim : Sim true frame outer r) (hf : ∀ members, frame ≠ .obj members)
    {cur : Bytes} (h : peek cur 0 = 0x74) {label : Label} (hlabel : behind frame = label) :
    (r.add label (readTrue cur)).Follows double (.inside true frame outer) cur :=
  follows_scalar hsim hf h (by decide) rfl hlabel (by rw [readScalar, h]; rfl)

theorem follows_false (hsim : Sim true frame outer r) (hf : ∀ members, frame ≠ .obj members)
    {cur : Bytes} (h : peek cur 0 = 0x66) {label : Label} (hlabel : behind frame = label) :
    (r.add label (readFalse cur)).Follows double (.inside true frame outer) cur :=
  follows_scalar hsim hf h (by decide) rfl hlabel (by rw [readScalar, h]; rfl)

theorem follows_null (hsim : Sim true frame outer r) (hf : ∀ members, frame ≠ .obj members)
    {cur : Bytes} (h : peek cur 0 = 0x6E) {label : Label} (hlabel : behind frame = label) :
    (r.add label (readNull cur)).Follows double (.inside true frame outer) cur :=
  follows_scalar hsim hf h (by decide) rfl hlabel (by rw [readScalar, h]; rfl)

theorem follows_objBegin (hsim : Sim true frame outer r) (hf : ∀ members, frame ≠ .obj members)
    {cur : Bytes} (h : peek cur 0 = 0x7B) :
    (r.objBegin pretty (cur.drop 1)).Follows double (.inside true frame outer) cur :=
  follows_ctnBegin hsim hf (lexToken_punctuation h rfl)

theorem follows_arrBegin (hsim : Sim true frame outer r) (hf : ∀ members, frame ≠ .obj members)
    {cur : Bytes} (h : peek cur 0 = 0x5B) :
    (r.arrBegin pretty (cur.drop 1)).Follows double (.inside true frame outer) cur :=
  follows_ctnBegin hsim hf (lexToken_punctuation h rfl)

/-- Where a value is awaited every scalar is read. -/
theorem begins_scalar {cur rest : Bytes} {s : Scalar (YyjsonNum F)}
    (hlex : lexToken double cur = some (.scalar s, rest)) :
    charIsNum (peek cur 0) = true ∨ peek cur 0 = 0x22 ∨ peek cur 0 = 0x74 ∨ peek cur 0 = 0x66 ∨
      peek cur 0 = 0x6E := by
  have hbegins := begins_of_lexToken hlex
  rcases s with - | (- | -) | n | s
  · exact .inr (.inr (.inr (.inr hbegins)))
  · exact .inr (.inr (.inr (.inl hbegins)))
  · exact .inr (.inr (.inl hbegins))
  · exact .inl hbegins
  · exact .inr (.inl hbegins)

theorem follows_arrValBegin {elems : List (Value (YyjsonNum F))}
    (hsim : Sim true (.arr elems) outer r) :
    (r.arrValBegin double pretty).Follows double (.inside true (.arr elems) outer) r.cur := by
  have hf : ∀ members, Frame.arr elems ≠ .obj members := fun members h => by cases h
  obtain ⟨w, hw, hcur⟩ := skipIndent_eq pretty r.cur
  unfold Reader.arrValBegin
  dsimp only
  generalize Reader.skipIndent pretty r.cur = cur at hcur
  rw [hcur]
  refine Next.Follows.skip hw ?_
  split_ifs with hobj harr hnum hstr htrue hfalse hnull hclose hempty hspace
  · exact follows_objBegin hsim hf hobj
  · exact follows_arrBegin hsim hf harr
  · exact follows_num hsim hf hnum rfl
  · exact follows_str hsim hf hstr rfl
  · exact follows_true hsim hf htrue rfl
  · exact follows_false hsim hf hfalse rfl
  · exact follows_null hsim hf hnull rfl
  · obtain rfl := List.eq_nil_of_length_eq_zero (hsim.ctnLen.symm.trans hempty)
    rw [Reader.arrEnd, hempty]
    exact follows_ctnEnd hsim (v := .arr []) (lexToken_punctuation hclose rfl) rfl rfl
  · -- a trailing comma
    refine follows_fail (by rw [hclose]; rfl) fun t rest hlex => ?_
    rw [lexToken_punctuation hclose rfl] at hlex
    obtain ⟨rfl, -⟩ := Prod.mk.inj (Option.some.inj hlex)
    cases elems with
    | nil => exact absurd hsim.ctnLen hempty
    | cons v elems => rfl
  · exact follows_space hsim hspace
  · refine follows_fail (Bool.eq_false_iff.2 hspace) fun t rest hlex => ?_
    have hbegins := begins_of_lexToken hlex
    rcases t with s | (- | -) | (- | -) | - | -
    case scalar => rcases begins_scalar hlex with h | h | h | h | h <;> contradiction
    case opens.arr => exact absurd hbegins harr
    case opens.obj => exact absurd hbegins hobj
    case closes.arr => exact absurd hbegins hclose
    all_goals rfl

theorem follows_objValBegin {members : List (Bytes × Value (YyjsonNum F))} {key : Bytes}
    (hsim : Sim true (.member members key) outer r) :
    (r.objValBegin double pretty).Follows double (.inside true (.member members key) outer)
      r.cur := by
  have hf : ∀ ms, Frame.member members key ≠ .obj ms := fun ms h => by cases h
  unfold Reader.objValBegin
  split_ifs with hstr hnum hobj harr htrue hfalse hnull hspace
  · exact follows_str hsim hf hstr rfl
  · exact follows_num hsim hf hnum rfl
  · exact follows_objBegin hsim hf hobj
  · exact follows_arrBegin hsim hf harr
  · exact follows_true hsim hf htrue rfl
  · exact follows_false hsim hf hfalse rfl
  · exact follows_null hsim hf hnull rfl
  · exact follows_space hsim hspace
  · refine follows_fail (Bool.eq_false_iff.2 hspace) fun t rest hlex => ?_
    have hbegins := begins_of_lexToken hlex
    rcases t with s | (- | -) | (- | -) | - | -
    case scalar => rcases begins_scalar hlex with h | h | h | h | h <;> contradiction
    case opens.arr => exact absurd hbegins harr
    case opens.obj => exact absurd hbegins hobj
    all_goals rfl

theorem follows_objKeyBegin {members : List (Bytes × Value (YyjsonNum F))}
    (hsim : Sim true (.obj members) outer r) :
    (r.objKeyBegin pretty).Follows double (.inside true (.obj members) outer) r.cur := by
  obtain ⟨w, hw, hcur⟩ := skipIndent_eq pretty r.cur
  unfold Reader.objKeyBegin
  dsimp only
  generalize Reader.skipIndent pretty r.cur = cur at hcur
  rw [hcur]
  refine Next.Follows.skip hw ?_
  split_ifs with hstr hclose hempty hspace
  · have hlex : lexToken double cur = (readStrVal cur).map fun p => (.scalar p.1, p.2) := by
      rw [lexToken_scalar double (by rw [hstr]; rfl), readScalar, hstr]
      rfl
    rw [readStrVal] at hlex ⊢
    cases hread : readStr (cur.drop 1) with
    | none =>
        rw [hread] at hlex
        exact follows_fail (by rw [hstr]; rfl) fun t rest h => by rw [hlex] at h; cases h
    | some p =>
        obtain ⟨key, rest⟩ := p
        rw [hread] at hlex
        obtain ⟨len, hvals⟩ := hsim.vals
        have hnext : State.next (.inside true (.obj members) outer)
            (.scalar (.str key) : Token (YyjsonNum F)) =
              some (.inside false (.member members key) outer) := rfl
        refine follows_token hlex hnext
          ⟨rfl, ⟨len, ?_⟩, hsim.ctn, ?_, hsim.awaits⟩ ⟨[], ws_nil, rfl⟩
        · show r.vals ++ [.scalar (.str key)] = _
          rw [hvals, contents, contents]
          simp [kindOf]
        · show r.ctnLen + 1 = _
          rw [hsim.ctnLen, count, count]
  · have hnil : members = [] := by
      have hcount : 2 * members.length = 0 := hsim.ctnLen.symm.trans hempty
      exact List.eq_nil_of_length_eq_zero (by omega)
    subst hnil
    rw [Reader.objEnd, hempty]
    exact follows_ctnEnd hsim (v := .obj []) (lexToken_punctuation hclose rfl) rfl rfl
  · refine follows_fail (by rw [hclose]; rfl) fun t rest hlex => ?_
    rw [lexToken_punctuation hclose rfl] at hlex
    obtain ⟨rfl, -⟩ := Prod.mk.inj (Option.some.inj hlex)
    cases members with
    | nil => exact absurd hsim.ctnLen hempty
    | cons m members => rfl
  · exact follows_space hsim hspace
  · refine follows_fail (Bool.eq_false_iff.2 hspace) fun t rest hlex => ?_
    have hbegins := begins_of_lexToken hlex
    rcases t with (- | ⟨- | -⟩ | n | s) | (- | -) | (- | -) | - | -
    case scalar.str => exact absurd hbegins hstr
    case closes.obj => exact absurd hbegins hclose
    all_goals rfl

/-- **One label.** -/
theorem follows_step (hsim : Sim begins frame outer r) :
    (r.step double pretty).Follows double (.inside begins frame outer) r.cur := by
  have hlabel := hsim.label
  unfold Reader.step
  rcases begins with - | - <;> rcases frame with elems | members | ⟨members, key⟩ <;> rw [hlabel]
  · exact follows_arrValEnd hsim
  · exact follows_objValEnd hsim
  · exact follows_objKeyEnd hsim
  · exact follows_arrValBegin hsim
  · exact follows_objKeyBegin hsim
  · exact follows_objValBegin hsim

/-! ## Documents -/

theorem docEnd_eq_some_iff {rest : Bytes} {vals vals' : List (Val F)} :
    docEnd (rest, vals') = some vals ↔ Json.Ws rest ∧ vals = vals' := by
  have hws : skipSpace rest = [] ↔ Json.Ws rest := List.dropWhile_eq_nil_iff
  rw [docEnd, ← hws]
  split_ifs with h
  · exact ⟨fun heq => ⟨h, (Option.some.inj heq).symm⟩, fun heq => congrArg some heq.2.symm⟩
  · exact ⟨fun heq => (by cases heq), fun heq => absurd heq.1 h⟩

/-- **From a label to the end.** -/
theorem run_eq_some_iff {fuel : Nat} (hsim : Sim begins frame outer r)
    (hfuel : r.cur.length < fuel) {vals : List (Val F)} :
    (Reader.run double pretty fuel r).bind docEnd = some vals ↔
      ∃ v, Accepts (numeralValue double) (.inside begins frame outer) r.cur v ∧
        vals = layout v := by
  induction fuel generalizing r begins frame outer with
  | zero => exact absurd hfuel (Nat.not_lt_zero _)
  | succ fuel ih =>
      have hstep : (r.step double pretty).Follows double (.inside begins frame outer) r.cur :=
        follows_step hsim
      unfold Reader.run
      cases hnext : r.step double pretty with
      | goto r' =>
          rw [hnext] at hstep
          obtain ⟨hlen, begins', frame', outer', hsim', haccepts⟩ := hstep
          exact (ih hsim' (by omega)).trans
            (exists_congr fun v => and_congr_left fun _ => (haccepts v).symm)
      | docEnd rest vals' =>
          rw [hnext] at hstep
          obtain ⟨w, rfl, haccepts⟩ := hstep
          simp only [haccepts, Json.accepts_done_iff, Option.bind_some, docEnd_eq_some_iff]
          exact ⟨fun ⟨hrest, h⟩ => ⟨w, ⟨hrest, rfl⟩, h⟩, fun ⟨v, ⟨hrest, hv⟩, h⟩ =>
            ⟨hrest, hv ▸ h⟩⟩
      | fail =>
          rw [hnext] at hstep
          exact ⟨fun h => (by cases h), fun ⟨v, hv, _⟩ => absurd hv (hstep v)⟩

end

section
variable (double : DoubleReader F) {cur : Bytes} {vals : List (Val F)}

theorem charIsCtn_iff {c : UInt8} : charIsCtn c = true ↔ c = 0x7B ∨ c = 0x5B := by
  rw [charIsCtn, beq_iff_eq]
  exact forall_byte (p := fun c => c &&& 0xDF = 0x5B ↔ c = 0x7B ∨ c = 0x5B) (by decide) c

/-- **The text of a container.** -/
theorem readRoot_eq_some_iff (pretty : Bool) (hcur : charIsCtn (peek cur 0) = true) :
    readRoot double pretty cur = some vals ↔
      ∃ v, Json.Text (numeralValue double) v cur ∧ vals = layout v := by
  have hroot : ∀ kind : Kind, lexToken double cur = some (.opens kind, cur.drop 1) →
      ((Reader.run double pretty (cur.length + 1)
          ⟨labelOf true (kind.frame : Frame (YyjsonNum F)), Reader.skipLine pretty (cur.drop 1),
            [.ctn kind 0 0], 0, 0⟩).bind docEnd = some vals ↔
        ∃ v, Json.Text (numeralValue double) v cur ∧ vals = layout v) := by
    intro kind hlex
    obtain ⟨w, hw, hskip⟩ := skipLine_eq pretty (cur.drop 1)
    have hlen := congrArg List.length hskip
    rw [List.length_drop, List.length_append] at hlen
    have hsim : Sim true kind.frame [] (⟨labelOf true (kind.frame : Frame (YyjsonNum F)),
        Reader.skipLine pretty (cur.drop 1), [.ctn kind 0 0], 0, 0⟩ : Reader F) := by
      refine ⟨rfl, ⟨0, ?_⟩, rfl, ?_, fun f hf => by cases hf⟩ <;> cases kind <;> rfl
    rw [run_eq_some_iff hsim (by show (Reader.skipLine _ _).length < _; omega)]
    refine exists_congr fun v => and_congr_left fun _ => ?_
    rw [← Json.accepts_start_iff,
      (lexer double).accepts_iff (S := .start) (fun w h => by cases h) hlex]
    show Accepts _ _ (Reader.skipLine _ _) v ↔ _
    rw [← Json.accepts_ws hw, ← hskip]
    constructor
    · exact fun h => ⟨_, rfl, h⟩
    · rintro ⟨S', hS', h⟩
      obtain rfl := Option.some.inj hS'
      exact h
  unfold readRoot
  dsimp only
  rcases charIsCtn_iff.1 hcur with h | h
  · rw [if_pos h]
    exact hroot .obj (lexToken_punctuation h rfl)
  · rw [if_neg (by rw [h]; decide)]
    exact hroot .arr (lexToken_punctuation h rfl)

/-- **The text of a scalar.** -/
theorem readRootSingle_eq_some_iff (hspace : charIsSpace (peek cur 0) = false)
    (hcur : charIsCtn (peek cur 0) = false) :
    readRootSingle double cur = some vals ↔
      ∃ v, Json.Text (numeralValue double) v cur ∧ vals = layout v := by
  have hstart : ∀ w : Value (YyjsonNum F), State.start ≠ .done w := fun w h => by cases h
  unfold readRootSingle
  cases hread : readScalar double cur with
  | none =>
      refine ⟨fun h => (by cases h), ?_⟩
      rintro ⟨v, hv, -⟩
      rw [← Json.accepts_start_iff] at hv
      cases cur with
      | nil => exact absurd hv (Json.not_accepts_of_ws hstart ws_nil)
      | cons c t =>
          -- the automaton begins with a scalar or with a container
          obtain ⟨tok, rest, S', hlex, hnext, -⟩ :=
            (lexer double).of_accepts (c := c) hspace hstart hv
          have hbegins := begins_of_lexToken hlex
          rcases tok with s | (- | -) | (- | -) | - | -
          · have hscalar := lexToken_scalar double (punctuation_of_begins hbegins)
            rw [hread] at hscalar
            exact absurd (hscalar.symm.trans hlex) (by simp)
          · exact absurd (charIsCtn_iff.2 (.inr hbegins)) (ne_true_of_eq_false hcur)
          · exact absurd (charIsCtn_iff.2 (.inl hbegins)) (ne_true_of_eq_false hcur)
          all_goals cases hnext
  | some p =>
      obtain ⟨s, rest⟩ := p
      have hpunct : punctuation (peek cur 0) = (none : Option (Token (YyjsonNum F))) := by
        obtain ⟨x, hx, htext⟩ := readScalar_sound double hread
        rw [hx]
        exact punctuation_of_begins (begins_of_text htext rest)
      have hlex : lexToken double cur = some (.scalar s, rest) := by
        rw [lexToken_scalar double hpunct, hread]
        rfl
      rw [Option.bind_some, docEnd_eq_some_iff]
      have haccepts : ∀ v, Json.Text (numeralValue double) v cur ↔
          Json.Ws rest ∧ Value.scalar s = v := by
        intro v
        rw [← Json.accepts_start_iff, (lexer double).accepts_iff hstart hlex,
          ← @Json.accepts_done_iff _ (numeralValue double)]
        constructor
        · rintro ⟨S', hS', h⟩
          obtain rfl := Option.some.inj hS'
          exact h
        · exact fun h => ⟨_, rfl, h⟩
      constructor
      · exact fun ⟨hrest, h⟩ => ⟨.scalar s, (haccepts _).2 ⟨hrest, rfl⟩, h⟩
      · rintro ⟨v, hv, h⟩
        obtain ⟨hrest, rfl⟩ := (haccepts v).1 hv
        exact ⟨hrest, h⟩

/-- **`yyjson_read`.** It accepts exactly the JSON texts, and lays out their values. -/
theorem yyjsonRead_eq_some_iff {dat : Bytes} :
    yyjsonRead double dat = some vals ↔
      ∃ v, Json.Text (numeralValue double) v dat ∧ vals = layout v := by
  have hnone : ∀ {b : Bytes}, Json.Ws b →
      ¬ ∃ v, Json.Text (numeralValue double) v b ∧ vals = layout v := by
    rintro b hb ⟨v, hv, -⟩
    exact Json.not_accepts_of_ws (fun w h => by cases h) hb (Json.accepts_start_iff.2 hv)
  unfold yyjsonRead
  by_cases hnil : dat = []
  · rw [if_pos hnil]
    exact iff_of_false (fun h => by cases h) (hnone (hnil ▸ ws_nil))
  rw [if_neg hnil]
  dsimp only
  obtain ⟨cur, hskip, w, hw, rfl, hspace⟩ : ∃ cur,
      (if !charIsCtn (peek dat 0) then skipSpace dat else dat) = cur ∧
        ∃ w, Json.Ws w ∧ dat = w ++ cur ∧ charIsSpace (peek cur 0) = false := by
    by_cases hctn : charIsCtn (peek dat 0) = true
    · refine ⟨dat, if_neg (by simp [hctn]), [], ws_nil, rfl, ?_⟩
      rcases charIsCtn_iff.1 hctn with h | h <;> rw [h] <;> decide
    · refine ⟨skipSpace dat, if_pos (by simpa using hctn), dat.takeWhile charIsSpace,
        ws_takeWhile dat, List.takeWhile_append_dropWhile.symm, ?_⟩
      refine peek_of_head (by decide) fun c hc => ?_
      have hhead := List.head?_dropWhile_not charIsSpace dat
      rw [show dat.dropWhile charIsSpace = skipSpace dat from rfl, Option.mem_def.1 hc] at hhead
      exact hhead
  rw [hskip]
  have htext : (∃ v, Json.Text (numeralValue double) v (w ++ cur) ∧ vals = layout v) ↔
      ∃ v, Json.Text (numeralValue double) v cur ∧ vals = layout v :=
    exists_congr fun v => and_congr_left fun _ => by
      rw [← Json.accepts_start_iff, Json.accepts_ws hw, Json.accepts_start_iff]
  rw [htext]
  split_ifs with hempty hctn hpretty
  · exact iff_of_false (fun h => by cases h) (hnone (hempty ▸ ws_nil))
  · exact readRoot_eq_some_iff double true hctn
  · exact readRoot_eq_some_iff double false hctn
  · exact readRootSingle_eq_some_iff double hspace (Bool.eq_false_iff.2 hctn)

/-- **The two readers agree.** -/
theorem readRootPretty_eq (hcur : charIsCtn (peek cur 0) = true) :
    readRootPretty double cur = readRootMinify double cur :=
  Option.ext fun _ => (readRoot_eq_some_iff double true hcur).trans
    (readRoot_eq_some_iff double false hcur).symm

/-- **Texts are read, and nothing else.** A text is read as its only value; what is no text is an
error. -/
theorem yyjsonRead_texts (dat : Bytes) :
    (∀ v, Json.Text (numeralValue double) v dat →
      yyjsonRead double dat = some (layout v) ∧
        ∀ w, Json.Text (numeralValue double) w dat → w = v) ∧
      ((∀ v, ¬ Json.Text (numeralValue double) v dat) → yyjsonRead double dat = none) := by
  refine ⟨fun v hv => ⟨(yyjsonRead_eq_some_iff double).2 ⟨v, hv, rfl⟩, fun w hw => ?_⟩,
    fun hno => ?_⟩
  · exact (lexer double).unique (Json.accepts_start_iff.2 hw) (Json.accepts_start_iff.2 hv)
  · refine Option.eq_none_iff_forall_ne_some.2 fun vals hvals => ?_
    obtain ⟨v, hv, -⟩ := (yyjsonRead_eq_some_iff double).1 hvals
    exact hno v hv

end

/-- Doubles of any size and precision -/
def exactReader : DoubleReader ℚ where
  ofDecimal sign q := some (if sign then -q else q)
  zero _ := 0
  ofDecimal_zero sign := by cases sign <;> rfl

theorem readRootPretty_eq_pair :
    readRootPretty exactReader (bytes "[1,\"a\"]") =
      readRootMinify exactReader (bytes "[1,\"a\"]") :=
  readRootPretty_eq exactReader (by decide)

end ServerBase.Yyjson
