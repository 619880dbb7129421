import ServerBase.Network
import ServerBase.Yyjson.ReaderProof

/-!
# Reading a document

`yyjson_obj_get` and `yyjson_arr_get` walk over the array of values: from a value to its next
sibling with the extent that a container carries. An array that holds no containers is indexed
directly.

**The results** (`objGetn_layout`, `arrGet_layout`). On the layout of a value they find the value's
first member of that name and its element of that index.
-/

namespace ServerBase.Yyjson

open Json (Scalar Kind Value)

variable {F : Type}

/-! ## Pointers into a document -/

/-- `*val`, for a pointer `val` into the array -/
def deref (vals : List (Val F)) (val : Nat) : Val F := vals.getD val (.scalar .null)

/-- `unsafe_yyjson_get_next` -/
def getNext (vals : List (Val F)) (val : Nat) : Nat :=
  match deref vals val with
  | .ctn _ _ ofs => val + ofs
  | .scalar _ => val + 1

/-- `unsafe_yyjson_equals_strn` -/
def equalsStrn (vals : List (Val F)) (val : Nat) (str : Bytes) : Bool :=
  match deref vals val with
  | .scalar (.str s) => s == str
  | _ => false

/-- `unsafe_yyjson_arr_is_flat` -/
def arrIsFlat (vals : List (Val F)) (val : Nat) : Bool :=
  (deref vals val).len + 1 == (deref vals val).ofs

/-- `while (idx-- > 0) val = unsafe_yyjson_get_next(val);` -/
def skipVals (vals : List (Val F)) : Nat → Nat → Nat
  | 0, val => val
  | idx + 1, val => skipVals vals idx (getNext vals val)

/-- `yyjson_arr_get`, for a pointer that is not null -/
def arrGet (vals : List (Val F)) (arr idx : Nat) : Option Nat :=
  match deref vals arr with
  | .ctn .arr len _ =>
      if idx < len then
        if arrIsFlat vals arr then some (arr + 1 + idx) else some (skipVals vals idx (arr + 1))
      else none
  | _ => none

/-- `yyjson_arr_size` -/
def arrSize (vals : List (Val F)) (arr : Nat) : Nat :=
  match deref vals arr with
  | .ctn .arr len _ => len
  | _ => 0

/-- The loop of `yyjson_obj_getn` -/
def findKey (vals : List (Val F)) (str : Bytes) : Nat → Nat → Option Nat
  | 0, _ => none
  | len + 1, key =>
      if equalsStrn vals key str then some (key + 1)
      else findKey vals str len (getNext vals (key + 1))

/-- `yyjson_obj_getn`, for pointers that are not null -/
def objGetn (vals : List (Val F)) (obj : Nat) (str : Bytes) : Option Nat :=
  match deref vals obj with
  | .ctn .obj len _ => findKey vals str len (obj + 1)
  | _ => none

/-! ## Values in a document -/

/-- The value `v` lies at `i`. -/
def At (vals : List (Val F)) (i : Nat) (v : Value (YyjsonNum F)) : Prop :=
  layout v <+: vals.drop i

section
variable {vals : List (Val F)} {i : Nat} {v : Value (YyjsonNum F)}

theorem layout_ne_nil (v : Value (YyjsonNum F)) : 1 ≤ (layout v).length := by
  cases v <;> rw [layout] <;> simp

theorem deref_of_drop {c : Val F} {cs : List (Val F)} (h : c :: cs <+: vals.drop i) :
    deref vals i = c := by
  obtain ⟨rest, hrest⟩ := h
  have hget := congrArg (·[0]?) hrest
  rw [List.cons_append, List.getElem?_cons_zero, List.getElem?_drop, Nat.add_zero] at hget
  rw [deref, List.getD_eq_getElem?_getD, ← hget]
  rfl

/-- Behind a part of the array is the rest of it. -/
theorem drop_of_append {s t : List (Val F)} (h : s ++ t <+: vals.drop i) :
    t <+: vals.drop (i + s.length) := by
  obtain ⟨rest, hrest⟩ := h
  refine ⟨rest, ?_⟩
  rw [← List.drop_drop, ← hrest, List.append_assoc, List.drop_left]

/-- **The next sibling.** -/
theorem getNext_of_at (h : At vals i v) : getNext vals i = i + (layout v).length := by
  cases v with
  | scalar s =>
      rw [getNext, deref_of_drop h]
      rfl
  | arr elems =>
      rw [getNext, deref_of_drop h]
      rfl
  | obj members =>
      rw [getNext, deref_of_drop h]
      rfl

/-! ## Elements -/

theorem skipVals_layout {elems : List (Value (YyjsonNum F))} {idx : Nat} {w : Value (YyjsonNum F)}
    (h : layoutElems elems <+: vals.drop i) (hw : elems[idx]? = some w) :
    At vals (skipVals vals idx i) w := by
  induction elems generalizing i idx with
  | nil => cases hw
  | cons v elems ih =>
      have hv : At vals i v := (List.prefix_append _ _).trans h
      cases idx with
      | zero =>
          obtain rfl := Option.some.inj hw
          exact hv
      | succ idx =>
          rw [skipVals, getNext_of_at hv]
          exact ih (drop_of_append h) hw

/-- As many values as elements: every element is a scalar. -/
theorem skipVals_flat {elems : List (Value (YyjsonNum F))} {idx : Nat}
    (h : layoutElems elems <+: vals.drop i) (hflat : (layoutElems elems).length = elems.length)
    (hidx : idx ≤ elems.length) : skipVals vals idx i = i + idx := by
  have hle : ∀ es : List (Value (YyjsonNum F)), es.length ≤ (layoutElems es).length := by
    intro es
    induction es with
    | nil => exact Nat.le_refl _
    | cons e es ih =>
        have hone := layout_ne_nil e
        rw [layoutElems, List.length_append, List.length_cons]
        omega
  induction elems generalizing i idx with
  | nil =>
      obtain rfl : idx = 0 := Nat.le_zero.1 hidx
      rfl
  | cons v elems ih =>
      have hv : At vals i v := (List.prefix_append _ _).trans h
      have hrest := hle elems
      have hone := layout_ne_nil v
      rw [layoutElems, List.length_append, List.length_cons] at hflat
      cases idx with
      | zero => rfl
      | succ idx =>
          rw [List.length_cons] at hidx
          rw [skipVals, getNext_of_at hv, ih (drop_of_append h) (by omega) (by omega)]
          omega

/-- **`yyjson_arr_get`.** With or without the shortcut it finds the element of that index. -/
theorem arrGet_layout {elems : List (Value (YyjsonNum F))} (h : At vals i (.arr elems))
    (idx : Nat) :
    match elems[idx]? with
    | some w => ∃ j, arrGet vals i idx = some j ∧ At vals j w
    | none => arrGet vals i idx = none := by
  have helems : layoutElems elems <+: vals.drop (i + 1) := drop_of_append (s := [_]) h
  have hderef : deref vals i = .ctn .arr elems.length ((layoutElems elems).length + 1) :=
    deref_of_drop h
  rw [arrGet, hderef]
  dsimp only
  cases hw : elems[idx]? with
  | none => rw [if_neg (Nat.not_lt.2 (List.getElem?_eq_none_iff.1 hw))]
  | some w =>
      have hlt : idx < elems.length := (List.getElem?_eq_some_iff.1 hw).1
      have hat := skipVals_layout helems hw
      rw [if_pos hlt]
      split_ifs with hflat
      · rw [arrIsFlat, hderef, beq_iff_eq] at hflat
        rw [skipVals_flat helems (Nat.succ.inj hflat).symm hlt.le] at hat
        exact ⟨_, rfl, hat⟩
      · exact ⟨_, rfl, hat⟩

/-- An array that is not flat -/
def nestedArr : Value (YyjsonNum Nat) := .arr [.arr [.scalar .null], .scalar (.bool true)]

theorem arrGet_layout_nested :
    ∃ j, arrGet (layout nestedArr) 0 1 = some j ∧ At (layout nestedArr) j (.scalar (.bool true)) :=
  @arrGet_layout Nat (layout nestedArr) 0 [.arr [.scalar .null], .scalar (.bool true)]
    (List.prefix_refl _) 1

/-! ## Members -/

theorem findKey_layout {members : List (Bytes × Value (YyjsonNum F))} (key : Bytes)
    (h : layoutMembers members <+: vals.drop i) :
    match members.lookup key with
    | some w => ∃ j, findKey vals key members.length i = some j ∧ At vals j w
    | none => findKey vals key members.length i = none := by
  induction members generalizing i with
  | nil => rfl
  | cons m members ih =>
      obtain ⟨k, v⟩ := m
      have hbehind : layout v ++ layoutMembers members <+: vals.drop (i + 1) :=
        drop_of_append (s := [_]) h
      have hv : At vals (i + 1) v := (List.prefix_append _ _).trans hbehind
      have hkey : equalsStrn vals i key = (k == key) := by
        rw [equalsStrn, deref_of_drop h]
      have hcomm : (key == k) = (k == key) := BEq.comm
      rw [List.length_cons, findKey, hkey, List.lookup_cons, hcomm]
      cases hk : (k == key) with
      | true => exact ⟨i + 1, rfl, hv⟩
      | false =>
          have hrest := ih (drop_of_append hbehind)
          rw [← getNext_of_at hv] at hrest
          exact hrest

/-- **`yyjson_obj_getn`.** It finds the first member of that name. -/
theorem objGetn_layout {members : List (Bytes × Value (YyjsonNum F))} (h : At vals i (.obj members))
    (key : Bytes) :
    match members.lookup key with
    | some w => ∃ j, objGetn vals i key = some j ∧ At vals j w
    | none => objGetn vals i key = none := by
  have hmembers : layoutMembers members <+: vals.drop (i + 1) := drop_of_append (s := [_]) h
  rw [objGetn, deref_of_drop h]
  exact findKey_layout key hmembers

end

/-- Two members of one name -/
def twiceObj : Value (YyjsonNum Nat) := .obj [([97], .scalar .null), ([97], .scalar (.bool true))]

theorem objGetn_layout_twice :
    ∃ j, objGetn (layout twiceObj) 0 [97] = some j ∧ At (layout twiceObj) j (.scalar .null) :=
  @objGetn_layout Nat (layout twiceObj) 0 [([97], .scalar .null), ([97], .scalar (.bool true))]
    (List.prefix_refl _) [97]

end ServerBase.Yyjson
