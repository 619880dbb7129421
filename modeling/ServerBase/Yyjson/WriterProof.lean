import ServerBase.Yyjson.WriterBuffer

/-!
# What the document writer writes

**Representation** (`Rep`). A value lies at an address: a container points to the element, or to
the key, that the ring of its elements closes with.

**The text** (`written`). The tokens of the value one after the other; there is none if a string is
not UTF-8 or a number is not finite.

**The loop.** A value is written behind what is there, with a comma (`runs_value`); the items of a
container are written one after the other, each with its comma (`runs_elems`, `runs_members`), and
the bracket takes the place of the last one (`runs_ctnEnd`).

**The result** (`yyjsonMutWrite_eq`). For a value that is represented the writer ends, with the
text of the value or with an error.
-/

namespace ServerBase.Yyjson

open Json (Scalar Kind Token Value)

variable {F : Type}

/-! ## Representation -/

/-- A body that is a scalar -/
inductive Shows : MutBody F → Scalar (YyjsonNum F) → Prop
  | null : Shows .null .null
  | bool (b : Bool) : Shows (.bool b) (.bool b)
  | num (n : YyjsonNum F) : Shows (.num n) (.num n)
  | str (s : MutStr) : Shows (.str s) (.str s.bytes)

section
variable (heap : Heap F)

mutual

/-- The value at the address `p` -/
def Rep (p : Addr) : Value (YyjsonNum F) → Prop
  | .scalar s => Shows (heap p).body s
  | .arr elems =>
      ∃ tail, (heap p).body = .ctn .arr elems.length tail ∧ RepElems (heap tail).next elems
  | .obj members =>
      ∃ tail, (heap p).body = .ctn .obj members.length tail ∧
        RepMembers (heap (heap tail).next).next members

/-- The elements from the address `p` on -/
def RepElems (p : Addr) : List (Value (YyjsonNum F)) → Prop
  | [] => True
  | v :: elems => Rep p v ∧ RepElems (heap p).next elems

/-- The keys and values from the address `p` on -/
def RepMembers (p : Addr) : List (Bytes × Value (YyjsonNum F)) → Prop
  | [] => True
  | (k, v) :: members =>
      Shows (heap p).body (.str k) ∧ Rep (heap p).next v ∧
        RepMembers (heap (heap p).next).next members

end

end

/-! ## The text -/

section
variable (double : DoubleWriter F)

def tokenOut : Token (YyjsonNum F) → Option Bytes
  | .scalar .null => some [0x6E, 0x75, 0x6C, 0x6C]
  | .scalar (.bool true) => some [0x74, 0x72, 0x75, 0x65]
  | .scalar (.bool false) => some [0x66, 0x61, 0x6C, 0x73, 0x65]
  | .scalar (.num n) => writeNum double n
  | .scalar (.str s) => writeStr s
  | .opens kind => some [Writer.opening kind]
  | .closes kind => some [Writer.closing kind]
  | .comma => some [0x2C]
  | .colon => some [0x3A]

def written : List (Token (YyjsonNum F)) → Option Bytes
  | [] => some []
  | t :: ts => (tokenOut double t).bind fun x => (written ts).map (x ++ ·)

/-- What happens after a text: there is none, and the outcome is an error; or the outcome is what
follows on it. -/
def After (text : Option Bytes) (out : WriterNext) (next : Bytes → Prop) : Prop :=
  match text with
  | none => out = .fail
  | some t => next t

variable {double} {out : WriterNext} {next next' : Bytes → Prop}

theorem After.imp {text : Option Bytes} (h : After text out next) (himp : ∀ t, next t → next' t) :
    After text out next' := by
  cases text with
  | none => exact h
  | some t => exact himp t h

theorem after_append {ts us : List (Token (YyjsonNum F))} :
    After (written double (ts ++ us)) out next ↔
      After (written double ts) out fun s =>
        After (written double us) out fun t => next (s ++ t) := by
  induction ts generalizing next with
  | nil => rfl
  | cons t ts ih =>
      rw [List.cons_append, written, written]
      cases tokenOut double t with
      | none => rfl
      | some x =>
          have hcons : ∀ ts : List (Token (YyjsonNum F)), ∀ next : Bytes → Prop,
              After ((written double ts).map (x ++ ·)) out next ↔
                After (written double ts) out fun s => next (x ++ s) := by
            intro ts next
            cases written double ts <;> rfl
          rw [Option.bind_some, Option.bind_some, hcons, hcons, ih]
          simp only [List.append_assoc]

theorem after_cons {t : Token (YyjsonNum F)} {ts : List (Token (YyjsonNum F))} :
    After (written double (t :: ts)) out next ↔
      After (tokenOut double t) out fun s =>
        After (written double ts) out fun u => next (s ++ u) := by
  rw [← List.singleton_append, after_append, written]
  cases tokenOut double t with
  | none => rfl
  | some x =>
      rw [Option.bind_some, written, Option.map_some, List.append_nil]

theorem after_singleton {t : Token (YyjsonNum F)} :
    After (written double [t]) out next ↔ After (tokenOut double t) out next := by
  rw [after_cons]
  simp only [written, After, List.append_nil]

end

/-! ## Strings without an escape -/

/-- An ASCII string that needs no escape is copied by either function. -/
theorem writeStr_plain {str : Bytes}
    (h : ∀ c ∈ str, 0x20 ≤ c ∧ c ≤ 0x7E ∧ c ≠ 0x22 ∧ c ≠ 0x5C) :
    writeStr str = some (writeStrNoesc str) := by
  have hrun : ∀ b ∈ str, encTable b = 0 := by
    have hbyte : ∀ b : UInt8, 0x20 ≤ b ∧ b ≤ 0x7E ∧ b ≠ 0x22 ∧ b ≠ 0x5C → encTable b = 0 :=
      forall_byte (by decide)
    exact fun b hb => hbyte b (h b hb)
  have hwrites : Writes [0x22] str (writeStrNoesc str) := by
    rw [← List.append_nil str, writes_run hrun, writes_nil, writeStrNoesc, List.append_nil]
    rfl
  exact ((writeLoops _).1 _ _ (Nat.le_refl _)).2 hwrites

theorem strText_eq (s : MutStr) :
    (if s.noesc then some (writeStrNoesc s.bytes) else writeStr s.bytes) = writeStr s.bytes := by
  split_ifs with h
  · exact (writeStr_plain (s.plain h)).symm
  · rfl

namespace Writer

section
variable (double : DoubleWriter F) (heap : Heap F)

/-! ## Runs -/

/-- From the label on, the outcome is `out`. -/
def Runs (label : WriterLabel) (w : Writer) (out : WriterNext) : Prop :=
  ∃ n, ∀ fuel, n ≤ fuel → run double heap fuel label w = some out

variable {double heap} {label label' : WriterLabel} {w w' : Writer} {out : WriterNext}

theorem runs_of_goto (hstep : step double heap label w = .goto label' w')
    (h : Runs double heap label' w' out) : Runs double heap label w out := by
  obtain ⟨n, hn⟩ := h
  refine ⟨n + 1, fun fuel hfuel => ?_⟩
  obtain ⟨fuel, rfl⟩ : ∃ k, fuel = k + 1 := ⟨fuel - 1, by omega⟩
  rw [run, hstep]
  exact hn fuel (by omega)

theorem runs_of_outcome (hstep : step double heap label w = out)
    (hout : ∀ label w, out ≠ .goto label w) : Runs double heap label w out := by
  refine ⟨1, fun fuel hfuel => ?_⟩
  obtain ⟨fuel, rfl⟩ : ∃ k, fuel = k + 1 := ⟨fuel - 1, by omega⟩
  rw [run, hstep]
  cases out with
  | goto label w => exact absurd rfl (hout label w)
  | docEnd text => rfl
  | fail => rfl
  | overflow => rfl

theorem runs_fail (hstep : step double heap label w = .fail) (hout : out = .fail) :
    Runs double heap label w out := by
  subst hout
  exact runs_of_outcome hstep fun _ _ h => by cases h

/-! ## One value -/

/-- The writer stands behind the value where `w` was, with `text` written: at the next value of the
container, or at its end. -/
structure Behind (heap : Heap F) (w : Writer) (text : Bytes) (label : WriterLabel) (w' : Writer) :
    Prop where
  cur : w'.cur = w.cur ++ text
  ctn : w'.ctn = w.ctn
  ctnLen : w'.ctnLen = w.ctnLen - 1
  ctnObj : w'.ctnObj = w.ctnObj
  ctx : w'.ctx = w.ctx
  room : Room label w'
  more : w.ctnLen ≠ 1 → label = .valBegin ∧ w'.val = (heap w.val).next
  last : w.ctnLen = 1 → label = .ctnEnd

/-- What is written within one label. -/
structure Put (w : Writer) (text : Bytes) (w' : Writer) : Prop where
  cur : w'.cur = w.cur ++ text
  val : w'.val = w.val
  ctn : w'.ctn = w.ctn
  ctnLen : w'.ctnLen = w.ctnLen
  ctnObj : w'.ctnObj = w.ctnObj
  ctx : w'.ctx = w.ctx

/-- There is room for what a label writes. -/
theorem put_eq {text : Bytes} {extent ext : Nat}
    (h : Safe ((w.incrLen ext).put text extent label)) :
    ∃ w', (w.incrLen ext).put text extent label = .goto label w' ∧ Put w text w' := by
  unfold put at h ⊢
  split_ifs at h ⊢
  · refine ⟨_, rfl, ?_⟩
    constructor <;> simp
  · exact h.elim

/-- The step behind a value that was written within one label. -/
theorem behind_of_put {text : Bytes} (hput : Put w text w') (hroom : Room .valEnd w')
    (hlen : 0 < w.ctnLen)
    (hnext : ∀ label w'', Behind heap w text label w'' → Runs double heap label w'' out) :
    Runs double heap .valEnd w' out := by
  have hsafe := safe_valEnd heap hroom
  by_cases hlast : w.ctnLen = 1
  · have hstep : valEnd heap w' = .goto .ctnEnd { w' with ctnLen := w'.ctnLen - 1 } :=
      if_pos (by dsimp only; rw [hput.ctnLen]; omega)
    rw [hstep] at hsafe
    refine runs_of_goto hstep (hnext _ _ ?_)
    exact ⟨hput.cur, hput.ctn, congrArg (· - 1) hput.ctnLen, hput.ctnObj, hput.ctx, hsafe,
      fun hne => absurd hlast hne, fun _ => rfl⟩
  · have hstep : valEnd heap w' =
        .goto .valBegin { w' with ctnLen := w'.ctnLen - 1, val := (heap w'.val).next } :=
      if_neg (by dsimp only; rw [hput.ctnLen]; omega)
    rw [hstep] at hsafe
    refine runs_of_goto hstep (hnext _ _ ?_)
    exact ⟨hput.cur, hput.ctn, congrArg (· - 1) hput.ctnLen, hput.ctnObj, hput.ctx, hsafe,
      fun _ => ⟨rfl, by rw [hput.val]⟩, fun h => absurd h hlast⟩

/-- What is put behind a scalar -/
def separator (w : Writer) (s : Scalar (YyjsonNum F)) : UInt8 :=
  match s with
  | .str _ => if w.ctnObj && w.ctnLen % 2 == 0 then 0x3A else 0x2C
  | _ => 0x2C

variable (double) in
/-- **A scalar is written within one label.** -/
theorem valBegin_scalar {s : Scalar (YyjsonNum F)} (hs : Shows (heap w.val).body s)
    (hroom : Room .valBegin w) :
    match tokenOut double (.scalar s) with
    | none => valBegin double heap w = .fail
    | some t => ∃ w', valBegin double heap w = .goto .valEnd w' ∧
        Put w (t ++ [separator w s]) w' := by
  have hsafe := safe_valBegin double heap hroom
  unfold valBegin at hsafe ⊢
  generalize (heap w.val).body = body at hs hsafe ⊢
  cases hs with
  | null => exact put_eq hsafe
  | bool b => cases b <;> exact put_eq hsafe
  | num n =>
      dsimp only [tokenOut] at hsafe ⊢
      unfold putNum at hsafe ⊢
      cases hn : writeNum double n with
      | none => rfl
      | some t =>
          rw [hn] at hsafe
          exact put_eq hsafe
  | str s =>
      dsimp only [tokenOut] at hsafe ⊢
      unfold putStr at hsafe ⊢
      dsimp only at hsafe ⊢
      rw [strText_eq] at hsafe ⊢
      cases hn : writeStr s.bytes with
      | none => rfl
      | some t =>
          rw [hn] at hsafe
          exact put_eq hsafe

theorem runs_scalar {s : Scalar (YyjsonNum F)} (hs : Shows (heap w.val).body s)
    (hroom : Room .valBegin w) (hlen : 0 < w.ctnLen)
    (hnext : After (tokenOut double (.scalar s)) out fun t => ∀ label w',
      Behind heap w (t ++ [separator w s]) label w' → Runs double heap label w' out) :
    Runs double heap .valBegin w out := by
  have hscalar := valBegin_scalar double hs hroom
  have hsafe := safe_valBegin double heap hroom
  cases ht : tokenOut double (.scalar s) with
  | none =>
      rw [ht] at hscalar hnext
      exact runs_fail hscalar hnext
  | some t =>
      rw [ht] at hscalar hnext
      obtain ⟨w', hstep, hput⟩ := hscalar
      rw [hstep] at hsafe
      exact runs_of_goto hstep (behind_of_put hput hsafe hlen hnext)

/-! ## Containers -/

/-- The bracket takes the place of the last comma. -/
theorem put_closing {text : Bytes} {kind : Kind} (hcur : w.cur = text ++ [0x2C])
    (hkind : kindOfBool w.ctnObj = kind) (hroom : Room .ctnEnd w) :
    put { w with cur := w.cur.dropLast } [closing (kindOfBool w.ctnObj), 0x2C] 2 .ctnEnd =
      .goto .ctnEnd { w with cur := text ++ [closing kind, 0x2C] } := by
  have hfits := hroom.fits
  rw [hcur, List.length_append, List.length_singleton, slack] at hfits
  unfold put ctxPos
  dsimp only
  rw [hcur, List.dropLast_concat, hkind, if_pos (by omega)]

/-- The end of a container, with the last comma in `cur`. -/
theorem runs_ctnEnd (text : Bytes) (kind : Kind) (hcur : w.cur = text ++ [0x2C])
    (hkind : kindOfBool w.ctnObj = kind) (hroom : Room .ctnEnd w) :
    (w.ctx = [] → out = .docEnd (text ++ [closing kind])) →
    (∀ ctn ctnLen ctnObj ctx, w.ctx = (ctn, ctnLen, ctnObj) :: ctx →
      ∀ label w', w'.cur = text ++ [closing kind, 0x2C] → w'.ctn = ctn → w'.ctnLen = ctnLen - 1 →
        w'.ctnObj = ctnObj → w'.ctx = ctx → Room label w' →
        (ctnLen - 1 ≠ 0 → label = .valBegin ∧ w'.val = (heap w.ctn).next) →
        (ctnLen - 1 = 0 → label = .ctnEnd) → Runs double heap label w' out) →
    Runs double heap .ctnEnd w out := by
  intro hdone hpop
  have hsafe := safe_ctnEnd heap hroom
  cases hctx : w.ctx with
  | nil =>
      have hput : ctnEnd heap w = .docEnd (text ++ [closing kind]) := by
        unfold ctnEnd
        dsimp only
        rw [put_closing hcur hkind hroom]
        dsimp only
        rw [hctx]
        simp
      rw [hdone hctx]
      exact runs_of_outcome hput fun _ _ h => by cases h
  | cons frame ctx =>
      obtain ⟨ctn, ctnLen, ctnObj⟩ := frame
      have hput : ctnEnd heap w =
          if ctnLen - 1 > 0 then
            .goto .valBegin { w with
              cur := text ++ [closing kind, 0x2C], val := (heap w.ctn).next, ctn,
              ctnLen := ctnLen - 1, ctnObj, ctx }
          else
            .goto .ctnEnd { w with
              cur := text ++ [closing kind, 0x2C], val := (heap w.ctn).next, ctn,
              ctnLen := ctnLen - 1, ctnObj, ctx } := by
        unfold ctnEnd
        dsimp only
        rw [put_closing hcur hkind hroom]
        dsimp only
        rw [hctx]
      rw [hput] at hsafe
      by_cases hmore : ctnLen - 1 > 0
      · rw [if_pos hmore] at hput hsafe
        exact runs_of_goto hput (hpop _ _ _ _ hctx _ _ rfl rfl rfl rfl rfl hsafe
          (fun _ => ⟨rfl, rfl⟩) fun h => by omega)
      · rw [if_neg hmore] at hput hsafe
        exact runs_of_goto hput (hpop _ _ _ _ hctx _ _ rfl rfl rfl rfl rfl hsafe
          (fun h => by omega) fun _ => rfl)

/-- The writer stands at the end of the container where `w` was, with `text` written. -/
structure AtEnd (w : Writer) (text : Bytes) (w' : Writer) : Prop where
  cur : w'.cur = w.cur ++ text
  ctn : w'.ctn = w.ctn
  ctnObj : w'.ctnObj = w.ctnObj
  ctx : w'.ctx = w.ctx
  room : Room .ctnEnd w'

/-- A value of a container, with a comma behind it. -/
def WritesValue (double : DoubleWriter F) (heap : Heap F) (v : Value (YyjsonNum F)) : Prop :=
  ∀ w out, Rep heap w.val v → Room .valBegin w → 0 < w.ctnLen →
    (w.ctnObj && w.ctnLen % 2 == 0) = false →
    (After (written double (v.tokens ++ [.comma])) out fun t => ∀ label w',
      Behind heap w t label w' → Runs double heap label w' out) →
    Runs double heap .valBegin w out

/-- The items of a container -/
def WritesElems (double : DoubleWriter F) (heap : Heap F) (elems : List (Value (YyjsonNum F))) :
    Prop :=
  ∀ w out, elems ≠ [] → RepElems heap w.val elems → Room .valBegin w →
    w.ctnLen = elems.length → w.ctnObj = false →
    (After (written double (Json.leading (Json.elemTokens elems))) out fun t => ∀ w',
      AtEnd w t w' → Runs double heap .ctnEnd w' out) →
    Runs double heap .valBegin w out

def WritesMembers (double : DoubleWriter F) (heap : Heap F)
    (members : List (Bytes × Value (YyjsonNum F))) : Prop :=
  ∀ w out, members ≠ [] → RepMembers heap w.val members → Room .valBegin w →
    w.ctnLen = members.length * 2 → w.ctnObj = true →
    (After (written double (Json.leading (Json.memberTokens members))) out fun t => ∀ w',
      AtEnd w t w' → Runs double heap .ctnEnd w' out) →
    Runs double heap .valBegin w out

/-- A container that is not empty is entered. -/
theorem valBegin_ctn {kind : Kind} {len : Nat} {tail : Addr}
    (hbody : (heap w.val).body = .ctn kind len tail) (hlen : len ≠ 0) (hroom : Room .valBegin w) :
    ∃ w', valBegin double heap w = .goto .valBegin w' ∧ Room .valBegin w' ∧
      w'.cur = w.cur ++ [opening kind] ∧ w'.val = firstOf heap kind tail ∧ w'.ctn = w.val ∧
      (w'.ctnLen = if kind = .obj then len * 2 else len) ∧ w'.ctnObj = (kind == .obj) ∧
      w'.ctx = (w.ctn, w.ctnLen, w.ctnObj) :: w.ctx := by
  have hsafe := safe_valBegin double heap hroom
  have hstep : valBegin double heap w = putCtn heap w kind len tail := by rw [valBegin, hbody]
  rw [hstep] at hsafe ⊢
  unfold putCtn at hsafe ⊢
  dsimp only at hsafe ⊢
  rw [if_neg hlen] at hsafe ⊢
  by_cases hpush : (w.incrLen 16).cur.length + 16 ≤ (w.incrLen 16).ctxPos
  · rw [if_pos hpush] at hsafe ⊢
    unfold put at hsafe ⊢
    split at hsafe
    · next hfit =>
      rw [if_pos hfit]
      refine ⟨_, rfl, hsafe, ?_, rfl, ?_, rfl, rfl, ?_⟩ <;> simp [enter]
    · exact False.elim hsafe
  · rw [if_neg hpush] at hsafe
    exact False.elim hsafe

theorem kindOfBool_beq (kind : Kind) : kindOfBool (kind == .obj) = kind := by
  cases kind <;> rfl

/-- **A container whose items are written.** -/
theorem runs_items {kind : Kind} {items : List (List (Token (YyjsonNum F)))} {wIn : Writer}
    (hne : items ≠ []) (hcur : wIn.cur = w.cur ++ [opening kind]) (hctn : wIn.ctn = w.val)
    (hobj : wIn.ctnObj = (kind == .obj))
    (hctx : wIn.ctx = (w.ctn, w.ctnLen, w.ctnObj) :: w.ctx) (hlen : 0 < w.ctnLen)
    (hitems : (After (written double (Json.leading items)) out fun t => ∀ w',
      AtEnd wIn t w' → Runs double heap .ctnEnd w' out) → Runs double heap .valBegin wIn out)
    (hnext : After
      (written double (.opens kind :: (Json.separated items ++ [.closes kind]) ++ [.comma]))
      out fun t => ∀ label w', Behind heap w t label w' → Runs double heap label w' out) :
    Runs double heap .valBegin wIn out := by
  apply hitems
  rw [Json.leading_of_ne_nil hne, after_append]
  rw [List.cons_append, List.append_assoc, after_cons] at hnext
  simp only [tokenOut, After.eq_def (some _)] at hnext
  rw [after_append] at hnext
  refine hnext.imp fun s hs => ?_
  rw [List.singleton_append, after_cons] at hs
  simp only [after_singleton, tokenOut, After.eq_def (some _)] at hs ⊢
  rintro w' ⟨hcur', hctn', hobj', hctx', hroom'⟩
  refine runs_ctnEnd (w.cur ++ ([opening kind] ++ s)) kind ?_ ?_ hroom' ?_ ?_
  · rw [hcur', hcur]
    simp
  · rw [hobj', hobj, kindOfBool_beq]
  · intro hnil
    rw [hctx', hctx] at hnil
    cases hnil
  · intro ctn ctnLen ctnObj ctx heq label w₂ hcur₂ hctn₂ hlen₂ hobj₂ hctx₂ hroom₂ hmore hlast
    rw [hctx', hctx] at heq
    obtain ⟨⟨rfl, rfl, rfl⟩, rfl⟩ : (w.ctn = ctn ∧ w.ctnLen = ctnLen ∧ w.ctnObj = ctnObj) ∧
        w.ctx = ctx := by simpa using heq
    rw [hctn', hctn] at hmore
    refine hs label w₂ ⟨?_, hctn₂, hlen₂, hobj₂, hctx₂, hroom₂, ?_, ?_⟩
    · rw [hcur₂]
      simp
    · exact fun h => hmore (by omega)
    · exact fun h => hlast (by omega)

/-- An empty container is written within one label. -/
theorem runs_empty {kind : Kind} {tail : Addr} (hbody : (heap w.val).body = .ctn kind 0 tail)
    (hroom : Room .valBegin w) (hlen : 0 < w.ctnLen)
    (hnext : ∀ label w', Behind heap w [opening kind, closing kind, 0x2C] label w' →
      Runs double heap label w' out) :
    Runs double heap .valBegin w out := by
  have hsafe := safe_valBegin double heap hroom
  have hstep : valBegin double heap w =
      (w.incrLen 16).put [opening kind, closing kind, 0x2C] 3 .valEnd := by
    rw [valBegin, hbody]
    rfl
  rw [hstep] at hsafe
  obtain ⟨w', hput, hw'⟩ := put_eq hsafe
  rw [hput] at hsafe
  exact runs_of_goto (hstep.trans hput) (behind_of_put hw' hsafe hlen hnext)

/-! ## Every value -/

mutual

/-- **A value is written with a comma behind it.** -/
theorem runs_value : ∀ v, WritesValue double heap v
  | .scalar s => by
      intro w out hrep hroom hlen hkey hnext
      refine runs_scalar hrep hroom hlen ?_
      have hsep : separator w s = 0x2C := by
        cases s with
        | str => exact if_neg (by rw [hkey]; exact Bool.false_ne_true)
        | null => rfl
        | bool => rfl
        | num => rfl
      rw [Json.Value.tokens, after_append, after_singleton] at hnext
      refine hnext.imp fun t ht => ?_
      rw [after_singleton] at ht
      rw [hsep]
      exact ht
  | .arr elems => by
      intro w out hrep hroom hlen hkey hnext
      obtain ⟨tail, hbody, helems⟩ := hrep
      by_cases hne : elems = []
      · subst hne
        exact runs_empty hbody hroom hlen hnext
      · obtain ⟨w', hstep, hroom', hcur, hval, hctn, hctnLen, hobj, hctx⟩ :=
          valBegin_ctn hbody (mt List.length_eq_zero_iff.1 hne) hroom
        refine runs_of_goto hstep (runs_items ?_ hcur hctn hobj hctx hlen ?_ hnext)
        · cases elems with
          | nil => exact absurd rfl hne
          | cons => exact List.cons_ne_nil _ _
        · refine runs_elems elems _ _ hne ?_ hroom' hctnLen hobj
          rw [hval]
          exact helems
  | .obj members => by
      intro w out hrep hroom hlen hkey hnext
      obtain ⟨tail, hbody, hmembers⟩ := hrep
      by_cases hne : members = []
      · subst hne
        exact runs_empty hbody hroom hlen hnext
      · obtain ⟨w', hstep, hroom', hcur, hval, hctn, hctnLen, hobj, hctx⟩ :=
          valBegin_ctn hbody (mt List.length_eq_zero_iff.1 hne) hroom
        refine runs_of_goto hstep (runs_items ?_ hcur hctn hobj hctx hlen ?_ hnext)
        · cases members with
          | nil => exact absurd rfl hne
          | cons => exact List.cons_ne_nil _ _
        · refine runs_members members _ _ hne ?_ hroom' hctnLen hobj
          rw [hval]
          exact hmembers

theorem runs_elems : ∀ elems, WritesElems double heap elems
  | [] => fun _ _ hne => absurd rfl hne
  | v :: elems => by
      intro w out _ hrep hroom hlen hobj hnext
      obtain ⟨hv, helems⟩ := hrep
      rw [List.length_cons] at hlen
      refine runs_value v _ _ hv hroom (by omega) (by rw [hobj]; rfl) ?_
      rw [Json.elemTokens, Json.leading, List.flatMap_cons, ← Json.leading, after_append] at hnext
      refine hnext.imp fun t ht label w₁ hw₁ => ?_
      by_cases hne : elems = []
      · subst hne
        obtain rfl := hw₁.last hlen
        exact ht w₁ ⟨by rw [hw₁.cur, List.append_nil], hw₁.ctn, hw₁.ctnObj, hw₁.ctx, hw₁.room⟩
      · have hpos := List.length_pos_of_ne_nil hne
        obtain ⟨rfl, hval⟩ := hw₁.more (by omega)
        refine runs_elems elems _ _ hne (hval ▸ helems) hw₁.room ?_ (hw₁.ctnObj.trans hobj) ?_
        · rw [hw₁.ctnLen]
          omega
        · refine ht.imp fun u hu w₂ hw₂ => hu w₂ ⟨?_, hw₂.ctn.trans hw₁.ctn,
            hw₂.ctnObj.trans hw₁.ctnObj, hw₂.ctx.trans hw₁.ctx, hw₂.room⟩
          rw [hw₂.cur, hw₁.cur, List.append_assoc]

theorem runs_members : ∀ members, WritesMembers double heap members
  | [] => fun _ _ hne => absurd rfl hne
  | (k, v) :: members => by
      intro w out _ hrep hroom hlen hobj hnext
      obtain ⟨hk, hv, hmembers⟩ := hrep
      rw [List.length_cons] at hlen
      -- the number of keys and values that are left tells a key from a value
      have hsep : separator (F := F) w (.str k) = 0x3A := by
        refine if_pos ?_
        rw [hobj, Bool.true_and, beq_iff_eq]
        omega
      refine runs_scalar hk hroom (by omega) ?_
      rw [Json.memberTokens, Json.leading, List.flatMap_cons, ← Json.leading, after_append,
        List.cons_append, after_cons] at hnext
      refine hnext.imp fun t ht label w₁ hw₁ => ?_
      rw [hsep] at hw₁
      rw [List.cons_append, after_cons] at ht
      change After (written double (v.tokens ++ [.comma])) out _ at ht
      obtain ⟨rfl, hval⟩ := hw₁.more (by omega)
      have hlen₁ : w₁.ctnLen = members.length * 2 + 1 := by
        rw [hw₁.ctnLen]
        omega
      refine runs_value v _ _ (hval ▸ hv) hw₁.room (by omega) ?_ ?_
      · rw [Bool.and_eq_false_iff, beq_eq_false_iff_ne]
        exact .inr (by omega)
      refine ht.imp fun u hu label w₂ hw₂ => ?_
      by_cases hne : members = []
      · subst hne
        obtain rfl := hw₂.last hlen₁
        refine hu w₂ ⟨?_, hw₂.ctn.trans hw₁.ctn, hw₂.ctnObj.trans hw₁.ctnObj,
          hw₂.ctx.trans hw₁.ctx, hw₂.room⟩
        rw [hw₂.cur, hw₁.cur]
        simp
      · have hpos := List.length_pos_of_ne_nil hne
        obtain ⟨rfl, hval₂⟩ := hw₂.more (by omega)
        refine runs_members members _ _ hne (hval₂ ▸ hval ▸ hmembers) hw₂.room ?_
          (hw₂.ctnObj.trans (hw₁.ctnObj.trans hobj)) ?_
        · rw [hw₂.ctnLen]
          omega
        · refine hu.imp fun s hs w₃ hw₃ => hs w₃ ⟨?_, hw₃.ctn.trans (hw₂.ctn.trans hw₁.ctn),
            hw₃.ctnObj.trans (hw₂.ctnObj.trans hw₁.ctnObj),
            hw₃.ctx.trans (hw₂.ctx.trans hw₁.ctx), hw₃.room⟩
          rw [hw₃.cur, hw₂.cur, hw₁.cur]
          simp

end

/-- **A document whose items are written.** -/
theorem runs_root (kind : Kind) {items : List (List (Token (YyjsonNum F)))} (hne : items ≠ [])
    (hcur : w.cur = [opening kind]) (hobj : w.ctnObj = (kind == .obj)) (hctx : w.ctx = [])
    (hitems : (After (written double (Json.leading items)) out fun t => ∀ w',
      AtEnd w t w' → Runs double heap .ctnEnd w' out) → Runs double heap .valBegin w out)
    (hnext : After (written double (.opens kind :: (Json.separated items ++ [.closes kind]))) out
      fun t => out = .docEnd t) :
    Runs double heap .valBegin w out := by
  apply hitems
  rw [Json.leading_of_ne_nil hne, after_append]
  rw [after_cons] at hnext
  change After (written double (Json.separated items ++ [.closes kind])) out _ at hnext
  rw [after_append] at hnext
  refine hnext.imp fun s hs => ?_
  simp only [after_singleton, tokenOut, After.eq_def (some _)] at hs ⊢
  rintro w' ⟨hcur', -, hobj', hctx', hroom'⟩
  refine runs_ctnEnd ([opening kind] ++ s) kind ?_ ?_ hroom' ?_ ?_
  · rw [hcur', hcur]
    simp
  · rw [hobj', hobj, kindOfBool_beq]
  · intro _
    rw [hs, List.append_assoc]
  · intro ctn ctnLen ctnObj ctx heq
    rw [hctx', hctx] at heq
    cases heq

end

end Writer

/-! ## `yyjson_mut_write` -/

section
variable (double : DoubleWriter F) {heap : Heap F}

/-- The outcome for a value: its text, or an error. -/
def outcome (v : Value (YyjsonNum F)) : WriterNext :=
  match written double v.tokens with
  | none => .fail
  | some t => .docEnd t

theorem after_outcome (v : Value (YyjsonNum F)) :
    After (written double v.tokens) (outcome double v) fun t => outcome double v = .docEnd t := by
  unfold outcome
  cases written double v.tokens <;> rfl

theorem writeSingle_scalar {body : MutBody F} {s : Scalar (YyjsonNum F)} (h : Shows body s) :
    writeSingle double body = outcome double (.scalar s) := by
  have hwritten : written double (Value.scalar s).tokens = tokenOut double (.scalar s) := by
    rw [Value.tokens, written]
    cases tokenOut double (.scalar s) with
    | none => rfl
    | some x => rw [Option.bind_some, written, Option.map_some, List.append_nil]
  rw [outcome, hwritten]
  cases h with
  | null => rfl
  | bool b => cases b <;> rfl
  | num n => rfl
  | str s =>
      rw [writeSingle, strText_eq]
      rfl

/-- **`yyjson_mut_write`.** The text of a value that is represented is written, or there is none. -/
theorem yyjsonMutWrite_eq {root : Addr} {v : Value (YyjsonNum F)} (h : Rep heap root v)
    (estimatedValNum : Nat) :
    ∃ n, ∀ fuel, n ≤ fuel →
      yyjsonMutWrite double heap fuel root estimatedValNum = some (outcome double v) := by
  have hafter := after_outcome double v
  cases v with
  | scalar s =>
      refine ⟨0, fun fuel _ => ?_⟩
      have hs : Shows (heap root).body s := h
      rw [← writeSingle_scalar double hs, yyjsonMutWrite]
      generalize (heap root).body = body at hs ⊢
      cases hs <;> rfl
  | arr elems =>
      obtain ⟨tail, hbody, helems⟩ := h
      cases elems with
      | nil => exact ⟨0, fun fuel _ => by rw [yyjsonMutWrite, hbody]; rfl⟩
      | cons v elems =>
          rw [List.length_cons] at hbody
          simp only [yyjsonMutWrite, hbody]
          refine Writer.runs_root .arr (List.cons_ne_nil _ _) rfl rfl rfl ?_ hafter
          exact Writer.runs_elems _ _ _ (List.cons_ne_nil _ _) helems (Writer.room_begin ..) rfl rfl
  | obj members =>
      obtain ⟨tail, hbody, hmembers⟩ := h
      cases members with
      | nil => exact ⟨0, fun fuel _ => by rw [yyjsonMutWrite, hbody]; rfl⟩
      | cons m members =>
          rw [List.length_cons] at hbody
          simp only [yyjsonMutWrite, hbody]
          refine Writer.runs_root .obj (List.cons_ne_nil _ _) rfl rfl rfl ?_ hafter
          exact Writer.runs_members _ _ _ (List.cons_ne_nil _ _) hmembers (Writer.room_begin ..)
            rfl rfl

end

end ServerBase.Yyjson
