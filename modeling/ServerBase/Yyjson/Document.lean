import ServerBase.Yyjson.Access

/-!
# What a request handler sees of a document

A handler walks over the array with the functions of `yyjson.h`: it sees a tree in which a number is
what `yyjson_get_num` makes of it.

**Parameter.** `num` is `yyjson_get_num` on a number: its value as a double.

**The result** (`parse_eq_some_iff`). The reader and the walk together are a function from texts to
trees: a JSON text is seen as its value, and nothing else is seen at all.
-/

namespace ServerBase.Yyjson

open Json (Scalar Kind Value)

variable {F : Type}

section
variable (num : YyjsonNum F → Rat)

/-! ## The tree of a value -/

def viewScalar : Scalar (YyjsonNum F) → YyjsonVal
  | .null => .null
  | .bool b => .bool b
  | .num n => .num (num n)
  | .str s => .str s

mutual

def view : Value (YyjsonNum F) → YyjsonVal
  | .scalar s => viewScalar num s
  | .arr elems => .arr (viewElems elems)
  | .obj members => .obj (viewMembers members)

def viewElems : List (Value (YyjsonNum F)) → List YyjsonVal
  | [] => []
  | v :: elems => view v :: viewElems elems

def viewMembers : List (Bytes × Value (YyjsonNum F)) → List (Bytes × YyjsonVal)
  | [] => []
  | (k, v) :: members => (k, view v) :: viewMembers members

end

/-! ## The walk -/

/-- The elements of an array from `val` on: `yyjson_arr_foreach`. -/
def arrForeach (vals : List (Val F)) : Nat → Nat → List Nat
  | 0, _ => []
  | max + 1, val => val :: arrForeach vals max (getNext vals val)

/-- The keys of an object from `key` on: `yyjson_obj_foreach`. The value is behind its key. -/
def objForeach (vals : List (Val F)) : Nat → Nat → List Nat
  | 0, _ => []
  | max + 1, key => key :: objForeach vals max (getNext vals (key + 1))

/-- `yyjson_get_str` of a key -/
def keyStr (vals : List (Val F)) (key : Nat) : Bytes :=
  match deref vals key with
  | .scalar (.str s) => s
  | _ => []

/-- What is seen from `val`, to the depth `fuel`. -/
def walk (vals : List (Val F)) : Nat → Nat → YyjsonVal
  | 0, _ => .null
  | fuel + 1, val =>
      match deref vals val with
      | .scalar s => viewScalar num s
      | .ctn .arr len _ => .arr ((arrForeach vals len (val + 1)).map (walk vals fuel))
      | .ctn .obj len _ =>
          .obj ((objForeach vals len (val + 1)).map fun key =>
            (keyStr vals key, walk vals fuel (key + 1)))

/-- `yyjson_read`, and what is seen from the root. -/
def parse (double : DoubleReader F) (dat : Bytes) : Option YyjsonVal :=
  (yyjsonRead double dat).map fun vals => walk num vals vals.length 0

/-! ## The walk sees the value -/

variable {vals : List (Val F)}

theorem arrForeach_layout {elems : List (Value (YyjsonNum F))} {i fuel : Nat}
    (h : layoutElems elems <+: vals.drop i)
    (hwalk : ∀ v ∈ elems, ∀ j, At vals j v → walk num vals fuel j = view num v) :
    (arrForeach vals elems.length i).map (walk num vals fuel) = viewElems num elems := by
  induction elems generalizing i with
  | nil => rfl
  | cons v elems ih =>
      have hv : At vals i v := (List.prefix_append _ _).trans h
      rw [List.length_cons, arrForeach, List.map_cons, hwalk v (by simp) i hv, getNext_of_at hv,
        ih (drop_of_append h) fun w hw => hwalk w (by simp [hw]), viewElems]

theorem objForeach_layout {members : List (Bytes × Value (YyjsonNum F))} {i fuel : Nat}
    (h : layoutMembers members <+: vals.drop i)
    (hwalk : ∀ m ∈ members, ∀ j, At vals j m.2 → walk num vals fuel j = view num m.2) :
    (objForeach vals members.length i).map
        (fun key => (keyStr vals key, walk num vals fuel (key + 1))) =
      viewMembers num members := by
  induction members generalizing i with
  | nil => rfl
  | cons m members ih =>
      obtain ⟨k, v⟩ := m
      have hbehind : layout v ++ layoutMembers members <+: vals.drop (i + 1) :=
        drop_of_append (s := [_]) h
      have hv : At vals (i + 1) v := (List.prefix_append _ _).trans hbehind
      have hkey : keyStr vals i = k := by rw [keyStr, deref_of_drop h]
      rw [List.length_cons, objForeach, List.map_cons, hkey, hwalk (k, v) (by simp) (i + 1) hv,
        getNext_of_at hv, ih (drop_of_append hbehind) fun w hw => hwalk w (by simp [hw]),
        viewMembers]

theorem length_layout_elem {elems : List (Value (YyjsonNum F))} {v : Value (YyjsonNum F)}
    (h : v ∈ elems) : (layout v).length ≤ (layoutElems elems).length := by
  induction elems with
  | nil => cases h
  | cons w elems ih =>
      rw [layoutElems, List.length_append]
      rcases List.mem_cons.1 h with rfl | h
      · omega
      · have := ih h
        omega

theorem length_layout_member {members : List (Bytes × Value (YyjsonNum F))}
    {m : Bytes × Value (YyjsonNum F)} (h : m ∈ members) :
    (layout m.2).length ≤ (layoutMembers members).length := by
  induction members with
  | nil => cases h
  | cons n members ih =>
      rw [layoutMembers, List.length_cons, List.length_append]
      rcases List.mem_cons.1 h with rfl | h
      · omega
      · have := ih h
        omega

/-- **What is seen of a value.** -/
theorem walk_layout {fuel : Nat} {v : Value (YyjsonNum F)} {i : Nat} (h : At vals i v)
    (hfuel : (layout v).length ≤ fuel) : walk num vals fuel i = view num v := by
  induction fuel generalizing v i with
  | zero => exact absurd hfuel (Nat.not_le.2 (layout_ne_nil v))
  | succ fuel ih =>
      cases v with
      | scalar s => rw [walk, deref_of_drop h, view]
      | arr elems =>
          rw [layout, List.length_cons] at hfuel
          rw [walk, deref_of_drop h, view]
          refine congrArg YyjsonVal.arr (arrForeach_layout num (drop_of_append (s := [_]) h) ?_)
          exact fun v hv j hj => ih hj (by have := length_layout_elem hv; omega)
      | obj members =>
          rw [layout, List.length_cons] at hfuel
          rw [walk, deref_of_drop h, view]
          refine congrArg YyjsonVal.obj (objForeach_layout num (drop_of_append (s := [_]) h) ?_)
          exact fun m hm j hj => ih hj (by have := length_layout_member hm; omega)

/-- **Texts and trees.** -/
theorem parse_eq_some_iff (double : DoubleReader F) {dat : Bytes} {root : YyjsonVal} :
    parse num double dat = some root ↔
      ∃ v, Json.Text (numeralValue double) v dat ∧ root = view num v := by
  have hroot : ∀ v : Value (YyjsonNum F), walk num (layout v) (layout v).length 0 = view num v :=
    fun v => walk_layout num (List.prefix_refl _) (Nat.le_refl _)
  rw [parse, Option.map_eq_some_iff]
  constructor
  · rintro ⟨vals, hread, rfl⟩
    obtain ⟨v, hv, rfl⟩ := (yyjsonRead_eq_some_iff double).1 hread
    exact ⟨v, hv, hroot v⟩
  · rintro ⟨v, hv, rfl⟩
    exact ⟨layout v, (yyjsonRead_eq_some_iff double).2 ⟨v, hv, rfl⟩, hroot v⟩

end

end ServerBase.Yyjson
