import Mathlib.Data.List.Basic

/-!
# JSON values and their tokens

A value is written as a sequence of tokens: scalars, brackets, commas and colons. Numbers are of any
type, strings are lists of bytes.

**The automaton** (`State.next`). A stack of open containers reads the tokens one at a time and
builds the value.

**The result** (`run_start_iff`). The automaton ends with the value `v` exactly on the tokens of
`v`.
-/

namespace Json

/-- A value that is one token. -/
inductive Scalar (N : Type)
  | null
  | bool (b : Bool)
  | num (n : N)
  | str (s : List UInt8)
  deriving DecidableEq

inductive Value (N : Type)
  | scalar (s : Scalar N)
  | arr (elems : List (Value N))
  | obj (members : List (List UInt8 × Value N))

inductive Kind
  | arr
  | obj
  deriving DecidableEq

inductive Token (N : Type)
  | scalar (s : Scalar N)
  /-- `[` or an opening brace -/
  | opens (k : Kind)
  | closes (k : Kind)
  | comma
  | colon
  deriving DecidableEq

variable {N : Type}

/-! ## The tokens of a value -/

/-- Items with commas between them. -/
def separated (items : List (List (Token N))) : List (Token N) :=
  List.intercalate [.comma] items

mutual

def Value.tokens : Value N → List (Token N)
  | .scalar s => [.scalar s]
  | .arr elems => .opens .arr :: (separated (elemTokens elems) ++ [.closes .arr])
  | .obj members => .opens .obj :: (separated (memberTokens members) ++ [.closes .obj])

def elemTokens : List (Value N) → List (List (Token N))
  | [] => []
  | v :: elems => v.tokens :: elemTokens elems

def memberTokens : List (List UInt8 × Value N) → List (List (Token N))
  | [] => []
  | (k, v) :: members => (.scalar (.str k) :: .colon :: v.tokens) :: memberTokens members

end

theorem elemTokens_append (vs ws : List (Value N)) :
    elemTokens (vs ++ ws) = elemTokens vs ++ elemTokens ws := by
  induction vs with
  | nil => rfl
  | cons v vs ih => rw [List.cons_append, elemTokens, elemTokens, ih, List.cons_append]

theorem memberTokens_append (ms ns : List (List UInt8 × Value N)) :
    memberTokens (ms ++ ns) = memberTokens ms ++ memberTokens ns := by
  induction ms with
  | nil => rfl
  | cons m ms ih => rw [List.cons_append, memberTokens, memberTokens, ih, List.cons_append]

/-- Items with a comma behind each. -/
def leading (items : List (List (Token N))) : List (Token N) :=
  items.flatMap (· ++ [.comma])

theorem separated_append (items : List (List (Token N))) (item : List (Token N)) :
    separated (items ++ [item]) = leading items ++ item := by
  induction items with
  | nil => exact List.intercalate_singleton
  | cons i items ih =>
      have hne : items ++ [item] ≠ [] := by simp
      rw [List.cons_append, separated, List.intercalate_cons_of_ne_nil hne]
      rw [separated] at ih
      rw [ih, leading, leading, List.flatMap_cons]
      simp only [List.append_assoc]

theorem leading_append (items : List (List (Token N))) (item : List (Token N)) :
    leading (items ++ [item]) = separated (items ++ [item]) ++ [.comma] := by
  rw [separated_append, leading, List.flatMap_append, ← leading]
  simp

theorem leading_of_ne_nil {items : List (List (Token N))} (h : items ≠ []) :
    leading items = separated items ++ [.comma] := by
  rw [← List.dropLast_concat_getLast h]
  exact leading_append _ _

theorem mem_separated {items : List (List (Token N))} {t : Token N} (h : t ∈ separated items) :
    t = .comma ∨ ∃ item ∈ items, t ∈ item := by
  by_cases hne : items = []
  · subst hne
    cases h
  · have hmem : t ∈ leading items := by
      rw [leading_of_ne_nil hne]
      exact List.mem_append_left _ h
    obtain ⟨item, hitem, ht⟩ := List.mem_flatMap.1 hmem
    rw [List.mem_append, List.mem_singleton] at ht
    exact ht.symm.imp_right fun ht => ⟨item, hitem, ht⟩

theorem mem_memberTokens {members : List (List UInt8 × Value N)} {item : List (Token N)}
    (h : item ∈ memberTokens members) :
    ∃ m ∈ members, item = .scalar (.str m.1) :: .colon :: m.2.tokens := by
  induction members with
  | nil => cases h
  | cons m members ih =>
      rw [memberTokens, List.mem_cons] at h
      rcases h with rfl | h
      · exact ⟨m, List.mem_cons_self, rfl⟩
      · obtain ⟨n, hn, rfl⟩ := ih h
        exact ⟨n, List.mem_cons_of_mem _ hn, rfl⟩

/-! ## The automaton -/

/-- A container that is not complete. -/
inductive Frame (N : Type)
  | arr (elems : List (Value N))
  | obj (members : List (List UInt8 × Value N))
  /-- An object with a key that has no value yet. -/
  | member (members : List (List UInt8 × Value N)) (key : List UInt8)

def Kind.frame : Kind → Frame N
  | .arr => .arr []
  | .obj => .obj []

/-- What the automaton has read: nothing, the value, or the inside of some containers, the innermost
first. `begins` says that an item is next, and not the token behind one. -/
inductive State (N : Type)
  | start
  | inside (begins : Bool) (frame : Frame N) (outer : List (Frame N))
  | done (v : Value N)

namespace State

/-- A value is complete. -/
def give (v : Value N) : List (Frame N) → Option (State N)
  | [] => some (.done v)
  | .arr elems :: outer => some (.inside false (.arr (elems ++ [v])) outer)
  | .member members key :: outer => some (.inside false (.obj (members ++ [(key, v)])) outer)
  | .obj _ :: _ => none

def next : State N → Token N → Option (State N)
  | .start, .scalar s => give (.scalar s) []
  | .start, .opens k => some (.inside true k.frame [])
  | .inside true (.obj members) outer, .scalar (.str key) =>
      some (.inside false (.member members key) outer)
  | .inside true frame outer, .scalar s => give (.scalar s) (frame :: outer)
  | .inside true (.obj _) _, .opens _ => none
  | .inside true frame outer, .opens k => some (.inside true k.frame (frame :: outer))
  | .inside true (.arr []) outer, .closes .arr => give (.arr []) outer
  | .inside true (.obj []) outer, .closes .obj => give (.obj []) outer
  | .inside false (.arr elems) outer, .comma => some (.inside true (.arr elems) outer)
  | .inside false (.arr elems) outer, .closes .arr => give (.arr elems) outer
  | .inside false (.obj members) outer, .comma => some (.inside true (.obj members) outer)
  | .inside false (.obj members) outer, .closes .obj => give (.obj members) outer
  | .inside false (.member members key) outer, .colon =>
      some (.inside true (.member members key) outer)
  | _, _ => none

def run : State N → List (Token N) → Option (State N)
  | S, [] => some S
  | S, t :: ts => (S.next t).bind fun S' => run S' ts

/-! ## What was read -/

/-- The tokens of a container that is not complete, up to an item or up to the token behind one. -/
def soFar (begins : Bool) : Frame N → List (Token N)
  | .arr elems =>
      .opens .arr :: if begins then leading (elemTokens elems) else separated (elemTokens elems)
  | .obj members =>
      .opens .obj ::
        if begins then leading (memberTokens members) else separated (memberTokens members)
  | .member members key =>
      .opens .obj :: (leading (memberTokens members) ++
        if begins then [.scalar (.str key), .colon] else [.scalar (.str key)])

def outerTokens : List (Frame N) → List (Token N)
  | [] => []
  | frame :: outer => outerTokens outer ++ soFar true frame

/-- The tokens that lead to a state. -/
def consumed : State N → List (Token N)
  | .start => []
  | .inside begins frame outer => outerTokens outer ++ soFar begins frame
  | .done v => v.tokens

theorem consumed_give {v : Value N} {outer : List (Frame N)} {S : State N}
    (h : give v outer = some S) : consumed S = outerTokens outer ++ v.tokens := by
  rcases outer with - | ⟨⟨elems⟩ | ⟨members⟩ | ⟨members, key⟩, outer⟩
  · obtain rfl := Option.some.inj h
    rfl
  · obtain rfl := Option.some.inj h
    simp [consumed, outerTokens, soFar, elemTokens_append, elemTokens, separated_append]
  · cases h
  · obtain rfl := Option.some.inj h
    simp [consumed, outerTokens, soFar, memberTokens_append, memberTokens, separated_append]

/-- The items of a container behind one of which the automaton stands. -/
def HasItem : State N → Prop
  | .start | .done _ => True
  | .inside true _ _ => True
  | .inside false (.arr elems) _ => elems ≠ []
  | .inside false (.obj members) _ => members ≠ []
  | .inside false (.member _ _) _ => True

theorem hasItem_give {v : Value N} {outer : List (Frame N)} {S : State N}
    (h : give v outer = some S) : HasItem S := by
  rcases outer with - | ⟨⟨elems⟩ | ⟨members⟩ | ⟨members, key⟩, outer⟩
  · obtain rfl := Option.some.inj h
    trivial
  · obtain rfl := Option.some.inj h
    exact List.concat_ne_nil _ _
  · cases h
  · obtain rfl := Option.some.inj h
    exact List.concat_ne_nil _ _

/-- **One token.** -/
theorem consumed_next {S S' : State N} {t : Token N} (h : S.next t = some S') (hitem : HasItem S) :
    consumed S' = consumed S ++ [t] ∧ HasItem S' := by
  have hgive : ∀ {v : Value N} {outer : List (Frame N)}, give v outer = some S' →
      outerTokens outer ++ v.tokens = consumed S ++ [t] →
        consumed S' = consumed S ++ [t] ∧ HasItem S' :=
    fun hv heq => ⟨(consumed_give hv).trans heq, hasItem_give hv⟩
  unfold next at h
  split at h
  · exact hgive h rfl
  · next k =>
    obtain rfl := Option.some.inj h
    cases k <;> exact ⟨rfl, trivial⟩
  · obtain rfl := Option.some.inj h
    exact ⟨by simp [consumed, soFar], trivial⟩
  · exact hgive h rfl
  · cases h
  · next k _ =>
    obtain rfl := Option.some.inj h
    cases k <;> exact ⟨rfl, trivial⟩
  · exact hgive h (by simp [consumed, soFar, elemTokens, leading, Value.tokens, separated])
  · exact hgive h (by simp [consumed, soFar, memberTokens, leading, Value.tokens, separated])
  · next elems outer =>
    obtain rfl := Option.some.inj h
    have hne : elemTokens elems ≠ [] := by
      cases elems with
      | nil => exact absurd rfl hitem
      | cons v elems => exact List.cons_ne_nil _ _
    exact ⟨by simp [consumed, soFar, leading_of_ne_nil hne], trivial⟩
  · exact hgive h (by simp [consumed, soFar, Value.tokens])
  · next members outer =>
    obtain rfl := Option.some.inj h
    have hne : memberTokens members ≠ [] := by
      cases members with
      | nil => exact absurd rfl hitem
      | cons m members => exact List.cons_ne_nil _ _
    exact ⟨by simp [consumed, soFar, leading_of_ne_nil hne], trivial⟩
  · exact hgive h (by simp [consumed, soFar, Value.tokens])
  · obtain rfl := Option.some.inj h
    exact ⟨by simp [consumed, soFar], trivial⟩
  · cases h

theorem consumed_run {S S' : State N} {ts : List (Token N)} (h : S.run ts = some S')
    (hitem : HasItem S) : consumed S' = consumed S ++ ts := by
  induction ts generalizing S with
  | nil =>
      obtain rfl := Option.some.inj h
      exact (List.append_nil _).symm
  | cons t ts ih =>
      obtain ⟨S₁, hnext, hrun⟩ := Option.bind_eq_some_iff.1 h
      obtain ⟨hone, hitem₁⟩ := consumed_next hnext hitem
      rw [ih hrun hitem₁, hone, List.append_assoc]
      rfl

/-! ## What is read -/

theorem run_append (S : State N) (ts us : List (Token N)) :
    S.run (ts ++ us) = (S.run ts).bind fun S' => S'.run us := by
  induction ts generalizing S with
  | nil => rfl
  | cons t ts ih =>
      rw [List.cons_append, run, run, Option.bind_assoc]
      exact Option.bind_congr fun S' _ => ih S'

/-- The automaton with a value next, behind an opening bracket, a comma or a colon. -/
def awaiting : List (Frame N) → Option (State N)
  | [] => some .start
  | .obj _ :: _ => none
  | frame :: outer => some (.inside true frame outer)

theorem next_scalar {S : State N} {outer : List (Frame N)} (h : awaiting outer = some S)
    (s : Scalar N) : S.next (.scalar s) = give (.scalar s) outer := by
  rcases outer with - | ⟨⟨elems⟩ | ⟨members⟩ | ⟨members, key⟩, outer⟩
  · obtain rfl := Option.some.inj h
    rfl
  · obtain rfl := Option.some.inj h
    rfl
  · cases h
  · obtain rfl := Option.some.inj h
    rfl

theorem next_opens {S : State N} {outer : List (Frame N)} (h : awaiting outer = some S)
    (k : Kind) : S.next (.opens k) = some (.inside true k.frame outer) := by
  rcases outer with - | ⟨⟨elems⟩ | ⟨members⟩ | ⟨members, key⟩, outer⟩
  · obtain rfl := Option.some.inj h
    rfl
  · obtain rfl := Option.some.inj h
    rfl
  · cases h
  · obtain rfl := Option.some.inj h
    rfl

/-- The elements behind the ones that were read, and the closing bracket. -/
theorem run_elems {elems : List (Value N)}
    (hvalue : ∀ v ∈ elems, ∀ (S : State N) (outer : List (Frame N)), awaiting outer = some S →
      S.run v.tokens = give v outer)
    (read : List (Value N)) (outer : List (Frame N)) :
    (State.inside true (.arr read) outer).run
        (separated (elemTokens elems) ++ [.closes .arr]) =
      if elems = [] ∧ read ≠ [] then none else give (.arr (read ++ elems)) outer := by
  induction elems generalizing read with
  | nil =>
      cases read with
      | nil => simp [elemTokens, separated, run, next]
      | cons v read => simp [elemTokens, separated, run, next]
  | cons v elems ih =>
      have hfirst : (State.inside true (.arr read) outer).run v.tokens =
          some (.inside false (.arr (read ++ [v])) outer) :=
        hvalue v (by simp) _ (.arr read :: outer) rfl
      rw [if_neg (by simp), elemTokens]
      cases helems : elems with
      | nil =>
          simp [elemTokens, separated, List.intercalate_singleton, run_append, hfirst, run, next]
      | cons w elems' =>
          have hne : elemTokens elems ≠ [] := by rw [helems]; exact List.cons_ne_nil _ _
          rw [← helems, separated, List.intercalate_cons_of_ne_nil hne, List.append_assoc,
            List.append_assoc, run_append, hfirst, Option.bind_some]
          have hrest := ih (fun u hu => hvalue u (by simp [hu])) (read ++ [v])
          rw [if_neg (by simp [helems]), List.append_assoc] at hrest
          exact hrest

/-- The members behind the ones that were read, and the closing bracket. -/
theorem run_members {members : List (List UInt8 × Value N)}
    (hvalue : ∀ m ∈ members, ∀ (S : State N) (outer : List (Frame N)), awaiting outer = some S →
      S.run m.2.tokens = give m.2 outer)
    (read : List (List UInt8 × Value N)) (outer : List (Frame N)) :
    (State.inside true (.obj read) outer).run
        (separated (memberTokens members) ++ [.closes .obj]) =
      if members = [] ∧ read ≠ [] then none else give (.obj (read ++ members)) outer := by
  induction members generalizing read with
  | nil =>
      cases read with
      | nil => simp [memberTokens, separated, run, next]
      | cons m read => simp [memberTokens, separated, run, next]
  | cons m members ih =>
      obtain ⟨k, v⟩ := m
      have hfirst : (State.inside true (.obj read) outer).run
          (.scalar (.str k) :: .colon :: v.tokens) =
            some (.inside false (.obj (read ++ [(k, v)])) outer) :=
        hvalue (k, v) (by simp) _ (.member read k :: outer) rfl
      rw [if_neg (by simp), memberTokens]
      cases hmembers : members with
      | nil =>
          simp only [memberTokens, separated, List.intercalate_singleton, run_append, hfirst]
          simp [run, next]
      | cons n members' =>
          have hne : memberTokens members ≠ [] := by rw [hmembers]; exact List.cons_ne_nil _ _
          rw [← hmembers, separated, List.intercalate_cons_of_ne_nil hne, List.append_assoc,
            List.append_assoc, run_append, hfirst, Option.bind_some]
          have hrest := ih (fun n hn => hvalue n (by simp [hn])) (read ++ [(k, v)])
          rw [if_neg (by simp [hmembers]), List.append_assoc] at hrest
          exact hrest

/-- **Where a value is next, its tokens complete it.** -/
theorem run_tokens : ∀ (v : Value N) (S : State N) (outer : List (Frame N)),
    awaiting outer = some S → S.run v.tokens = give v outer
  | .scalar s, S, outer, h => by
      rw [Value.tokens, run, next_scalar h]
      exact Option.bind_fun_some _
  | .arr elems, S, outer, h => by
      rw [Value.tokens, run, next_opens h, Option.bind_some]
      exact (run_elems (fun v hv => run_tokens v) [] outer).trans (if_neg (by simp))
  | .obj members, S, outer, h => by
      rw [Value.tokens, run, next_opens h, Option.bind_some]
      exact (run_members (fun m hm => run_tokens m.2) [] outer).trans (if_neg (by simp))
termination_by v => sizeOf v
decreasing_by
  · have hlt := List.sizeOf_lt_of_mem hv
    simp only [Value.arr.sizeOf_spec]
    omega
  · have hlt := List.sizeOf_lt_of_mem hm
    have hpair : sizeOf m.2 < sizeOf m := by
      cases m
      simp only [Prod.mk.sizeOf_spec]
      omega
    simp only [Value.obj.sizeOf_spec]
    omega

/-- **The automaton reads the tokens of a value, and no others.** -/
theorem run_start_iff {ts : List (Token N)} {v : Value N} :
    State.start.run ts = some (.done v) ↔ ts = v.tokens := by
  constructor
  · intro h
    exact (consumed_run h trivial).symm
  · rintro rfl
    exact run_tokens v _ [] rfl

end State

end Json
