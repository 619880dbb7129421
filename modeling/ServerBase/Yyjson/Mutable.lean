import Mathlib.Logic.Function.Basic
import ServerBase.Yyjson.Writer

/-!
# Building a document with `utils/yyjson.h`

The functions of the mutable API that the servers call: an object is created, and keys and values
are added to it.

**Parameter.** `constantP` is `yyjson_constant_p`: whether the compiler knows the length of a
string. Only then `unsafe_yyjson_is_str_noesc` looks at it.

**Not modelled.** The addresses of a document are the natural numbers in the order of allocation,
and memory does not run out. The pointer of an empty object is read by no function.
-/

namespace ServerBase.Yyjson

open Json (Kind)

variable {F : Type}

/-! ## Documents -/

/-- `yyjson_mut_doc`: the values, and `val_pool.cur`. -/
structure MutDoc (F : Type) where
  heap : Heap F
  cur : Addr
  root : Option Addr

/-- `yyjson_mut_doc_new(NULL)`, with what the memory of the values holds. -/
def mutDocNew (memory : Heap F) : MutDoc F := { heap := memory, cur := 0, root := none }

/-- `unsafe_yyjson_mut_val` -/
def unsafeMutVal (doc : MutDoc F) (count : Nat) : Addr × MutDoc F :=
  (doc.cur, { doc with cur := doc.cur + count })

/-- `val->tag` and `val->uni` are set. -/
def setBody (heap : Heap F) (val : Addr) (body : MutBody F) : Heap F :=
  Function.update heap val { heap val with body }

/-- `val->next` is set. -/
def setNext (heap : Heap F) (val next : Addr) : Heap F :=
  Function.update heap val { heap val with next }

/-- `yyjson_mut_doc_set_root` -/
def docSetRoot (doc : MutDoc F) (root : Addr) : MutDoc F := { doc with root := some root }

/-! ## Strings -/

/-- A character that is copied: neither a control character nor one with an escape. -/
def isNoesc (c : UInt8) : Bool := 0x20 ≤ c && c ≤ 0x7E && c != 0x22 && c != 0x5C

section
variable (constantP : Bytes → Bool)

/-- `unsafe_yyjson_is_str_noesc` -/
def isStrNoesc (str : Bytes) : Bool := constantP str && str.length ≤ 32 && str.all isNoesc

/-- A C string with its length and its subtype -/
def mutStr (str : Bytes) : MutStr where
  bytes := str
  noesc := isStrNoesc constantP str
  plain h c hc := by
    simp only [isStrNoesc, Bool.and_eq_true, List.all_eq_true, isNoesc, decide_eq_true_eq,
      bne_iff_ne] at h
    obtain ⟨⟨⟨h1, h2⟩, h3⟩, h4⟩ := h.2 c hc
    exact ⟨h1, h2, h3, h4⟩

/-! ## Objects -/

/-- A new value with the body `body` -/
def mutVal (doc : MutDoc F) (body : MutBody F) : Addr × MutDoc F :=
  let (val, doc) := unsafeMutVal doc 1
  (val, { doc with heap := setBody doc.heap val body })

/-- `yyjson_mut_obj` -/
def mutObj (doc : MutDoc F) : Addr × MutDoc F := mutVal doc (.ctn .obj 0 0)

/-- `yyjson_mut_null` -/
def mutNull (doc : MutDoc F) : Addr × MutDoc F := mutVal doc .null

/-- `unsafe_yyjson_mut_obj_add`, for an object of `len` members whose last key is `tail`. -/
def unsafeObjAdd (heap : Heap F) (obj key val : Addr) (len : Nat) (tail : Addr) : Heap F :=
  let heap :=
    if len ≠ 0 then
      let prevVal := (heap tail).next
      let nextKey := (heap prevVal).next
      setNext (setNext heap prevVal key) val nextKey
    else setNext heap val key
  setBody (setNext heap key val) obj (.ctn .obj (len + 1) key)

/-- `yyjson_mut_obj_add_func`. `func` sets the value, with `key + 1` in `val`, or chooses
another. -/
def objAddFunc (doc : MutDoc F) (obj : Addr) (_key : Bytes)
    (func : Heap F → Addr → Heap F × Addr) : Bool × MutDoc F :=
  match (doc.heap obj).body with
  | .ctn .obj len tail =>
      let (key, doc) := unsafeMutVal doc 2
      let heap := setBody doc.heap key (.str (mutStr constantP _key))
      let (heap, val) := func heap (key + 1)
      (true, { doc with heap := unsafeObjAdd heap obj key val len tail })
  | _ => (false, doc)

/-- The members of the family that set a scalar -/
def objAddBody (doc : MutDoc F) (obj : Addr) (_key : Bytes) (body : MutBody F) : Bool × MutDoc F :=
  objAddFunc constantP doc obj _key fun heap val => (setBody heap val body, val)

/-- `yyjson_mut_obj_add_str` -/
def objAddStr (doc : MutDoc F) (obj : Addr) (_key _val : Bytes) : Bool × MutDoc F :=
  objAddBody constantP doc obj _key (.str (mutStr constantP _val))

/-- `yyjson_mut_obj_add_int` -/
def objAddInt (doc : MutDoc F) (obj : Addr) (_key : Bytes) (_val : Int64) : Bool × MutDoc F :=
  objAddBody constantP doc obj _key (.num (.int (.ofInt64 _val)))

/-- `yyjson_mut_obj_add_uint` -/
def objAddUint (doc : MutDoc F) (obj : Addr) (_key : Bytes) (_val : UInt64) : Bool × MutDoc F :=
  objAddBody constantP doc obj _key (.num (.int (.ofUInt64 _val)))

/-- `yyjson_mut_obj_add_double` -/
def objAddDouble (doc : MutDoc F) (obj : Addr) (_key : Bytes) (_val : F) : Bool × MutDoc F :=
  objAddBody constantP doc obj _key (.num (.real _val))

/-- `yyjson_mut_obj_add_val` -/
def objAddVal (doc : MutDoc F) (obj : Addr) (_key : Bytes) (_val : Addr) : Bool × MutDoc F :=
  objAddFunc constantP doc obj _key fun heap _ => (heap, _val)

/-- `yyjson_mut_obj_add_obj`: the new object, or a null pointer. -/
def objAddObj (doc : MutDoc F) (obj : Addr) (_key : Bytes) : Option Addr × MutDoc F :=
  let (key, doc) := mutVal doc (.str (mutStr constantP _key))
  let (val, doc) := mutObj doc
  match (doc.heap obj).body with
  | .ctn .obj len tail =>
      (some val, { doc with heap := unsafeObjAdd doc.heap obj key val len tail })
  | _ => (none, doc)

end

end ServerBase.Yyjson
