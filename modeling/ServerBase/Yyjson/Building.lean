import ServerBase.Lib.Pointers
import ServerBase.Yyjson.Mutable
import ServerBase.Yyjson.WriterProof

/-!
# What is built

**Store.** Without pointers a document is a map: an address holds a scalar, or an object that lists
the addresses of its keys and values.

**Refinement** (`Refines`). The keys and values of each object are a ring in the heap, and no value
is in two rings. Adding a member is adding to a list (`refines_add`); it may be added to any object
at any time, also to one that is already a member of another.

**The result** (`rep_of_denotes`). The writer finds in the heap what the store says.
-/

namespace ServerBase.Yyjson

open Json (Scalar Value)
open Pointers (Seg seg_append)

variable {F : Type}

/-! ## Store -/

structure Member where
  key : Bytes
  keyAddr : Addr
  valAddr : Addr

inductive Node (F : Type)
  | scalar (s : Scalar (YyjsonNum F))
  | obj (members : List Member)

abbrev Store (F : Type) := Addr → Option (Node F)

/-- The nodes of the ring -/
def links (members : List Member) : List Addr :=
  members.flatMap fun m => [m.keyAddr, m.valAddr]

/-- Some object has the address in its ring. -/
def Linked (store : Store F) (a : Addr) : Prop :=
  ∃ p ms, store p = some (.obj ms) ∧ a ∈ links ms

section
variable (store : Store F)

mutual

/-- The value at the address `p` -/
def Denotes (p : Addr) : Value (YyjsonNum F) → Prop
  | .scalar s => store p = some (.scalar s)
  | .arr _ => False
  | .obj members => ∃ ms, store p = some (.obj ms) ∧ DenotesMembers ms members

def DenotesMembers : List Member → List (Bytes × Value (YyjsonNum F)) → Prop
  | [], [] => True
  | m :: ms, (k, v) :: members => m.key = k ∧ Denotes m.valAddr v ∧ DenotesMembers ms members
  | _, _ => False

end

end

/-! ## Refinement -/

def nextOf (heap : Heap F) (a : Addr) : Addr := (heap a).next

/-- What a node is in the heap -/
def Holds (heap : Heap F) (p : Addr) : Node F → Prop
  | .scalar s => Shows (heap p).body s
  | .obj ms => ∃ tail, (heap p).body = .ctn .obj ms.length tail ∧
      ∀ m ∈ ms.getLast?, tail = m.keyAddr

structure Refines (doc : MutDoc F) (store : Store F) : Prop where
  holds : ∀ p node, store p = some node → Holds doc.heap p node
  ring : ∀ p ms, store p = some (.obj ms) → Pointers.Ring (nextOf doc.heap) (links ms)
  key : ∀ p ms, store p = some (.obj ms) → ∀ m ∈ ms, Shows (doc.heap m.keyAddr).body (.str m.key)
  keyFree : ∀ p ms, store p = some (.obj ms) → ∀ m ∈ ms, store m.keyAddr = none
  nodup : ∀ p ms, store p = some (.obj ms) → (links ms).Nodup
  disjoint : ∀ p q ms ns, store p = some (.obj ms) → store q = some (.obj ns) → p ≠ q →
    (links ms).Disjoint (links ns)
  fresh : ∀ p, doc.cur ≤ p → store p = none ∧ ¬ Linked store p

variable {doc : MutDoc F} {store : Store F}

theorem links_append (ms ns : List Member) : links (ms ++ ns) = links ms ++ links ns :=
  List.flatMap_append

theorem keyAddr_mem {ms : List Member} {m : Member} (h : m ∈ ms) : m.keyAddr ∈ links ms :=
  List.mem_flatMap.2 ⟨m, h, by simp⟩

theorem valAddr_mem {ms : List Member} {m : Member} (h : m ∈ ms) : m.valAddr ∈ links ms :=
  List.mem_flatMap.2 ⟨m, h, by simp⟩

/-! ## What the writer finds -/

mutual

theorem rep_of_denotes_at (h : Refines doc store) :
    ∀ v p, Denotes store p v → Rep doc.heap p v
  | .scalar s => fun p hp => h.holds p _ hp
  | .arr _ => fun p hp => hp.elim
  | .obj members => fun p hp => by
      obtain ⟨ms, hms, hmembers⟩ := hp
      obtain ⟨tail, hbody, htail⟩ := h.holds p _ hms
      have hring := h.ring p ms hms
      have hlen : ms.length = members.length := by
        clear hring htail hbody hms
        induction ms generalizing members with
        | nil =>
            cases members with
            | nil => rfl
            | cons => exact hmembers.elim
        | cons m ms ih =>
            cases members with
            | nil => exact hmembers.elim
            | cons q members => exact congrArg (· + 1) (ih members hmembers.2.2)
      refine ⟨tail, hlen ▸ hbody, ?_⟩
      cases ms with
      | nil =>
          cases members with
          | nil => exact trivial
          | cons => exact hmembers.elim
      | cons m ms =>
          -- the last value of the ring points to the first key
          have hfirst : (doc.heap (doc.heap tail).next).next = m.keyAddr := by
            obtain ⟨n, hn⟩ : ∃ n, (m :: ms).getLast? = some n := ⟨_, List.getLast?_cons⟩
            obtain ⟨init, hinit⟩ : ∃ init, m :: ms = init ++ [n] :=
              ⟨_, (List.dropLast_append_getLast? _ hn).symm⟩
            obtain rfl := htail n hn
            have hhead : (links (m :: ms)).head? = some m.keyAddr := rfl
            have hseg := hring _ hhead
            rw [hinit, links_append] at hseg
            obtain ⟨b, -, hlast⟩ := seg_append.1 hseg
            obtain ⟨-, hval, hend⟩ := hlast
            rw [← hend]
            exact congrArg (fun a => (doc.heap a).next) hval
          rw [hfirst]
          exact repMembers_of_denotes h members (m :: ms) m.keyAddr m.keyAddr
            (fun n hn => h.key p _ hms n hn) hmembers (hring _ rfl)

theorem repMembers_of_denotes (h : Refines doc store) :
    ∀ (members : List (Bytes × Value (YyjsonNum F))) (ms : List Member) (p q : Addr),
      (∀ m ∈ ms, Shows (doc.heap m.keyAddr).body (.str m.key)) → DenotesMembers store ms members →
      Seg (nextOf doc.heap) p (links ms) q → RepMembers doc.heap p members
  | [] => fun _ _ _ _ _ _ => trivial
  | (k, v) :: members => fun ms p q hkeys hms hseg => by
      cases ms with
      | nil => exact hms.elim
      | cons m ms =>
          obtain ⟨rfl, hv, hrest⟩ := hms
          obtain ⟨rfl, hval, hseg⟩ := hseg
          have hval : (doc.heap m.keyAddr).next = m.valAddr := hval
          refine ⟨hkeys m (by simp), ?_, ?_⟩
          · rw [hval]
            exact rep_of_denotes_at h v _ hv
          · rw [hval]
            exact repMembers_of_denotes h members ms _ q (fun n hn => hkeys n (by simp [hn])) hrest
              hseg

end

/-! ## New values -/

theorem refines_mutDocNew (memory : Heap F) : Refines (mutDocNew memory) (fun _ => none) where
  holds _ _ hp := by cases hp
  ring _ _ hp := by cases hp
  key _ _ hp := by cases hp
  keyFree _ _ hp := by cases hp
  nodup _ _ hp := by cases hp
  disjoint _ _ _ _ hp := by cases hp
  fresh _ _ := ⟨rfl, fun ⟨_, _, hp, _⟩ => by cases hp⟩

theorem setBody_next (heap : Heap F) (p a : Addr) (body : MutBody F) :
    nextOf (setBody heap p body) a = nextOf heap a := by
  unfold nextOf setBody
  by_cases h : a = p
  · subst h
    rw [Function.update_self]
  · rw [Function.update_of_ne h]

theorem setBody_body (heap : Heap F) (p a : Addr) (body : MutBody F) :
    (setBody heap p body a).body = if a = p then body else (heap a).body := by
  unfold setBody
  split_ifs with h
  · rw [h, Function.update_self]
  · rw [Function.update_of_ne h]

theorem Refines.lt_of_node (h : Refines doc store) {p : Addr} {node : Node F}
    (hp : store p = some node) : p < doc.cur := by
  by_contra hle
  rw [(h.fresh p (Nat.not_lt.1 hle)).1] at hp
  cases hp

theorem Refines.lt_of_linked (h : Refines doc store) {p : Addr} (hp : Linked store p) :
    p < doc.cur := by
  by_contra hle
  exact (h.fresh p (Nat.not_lt.1 hle)).2 hp

theorem Holds.congr {heap heap' : Heap F} {p : Addr} {node : Node F} (h : Holds heap p node)
    (heq : (heap' p).body = (heap p).body) : Holds heap' p node := by
  cases node with
  | scalar s =>
      rw [Holds, heq]
      exact h
  | obj ms =>
      obtain ⟨tail, hbody, htail⟩ := h
      exact ⟨tail, heq.trans hbody, htail⟩

/-- **Frame.** What is not yet allocated may be written. -/
theorem Refines.alloc {doc' : MutDoc F} (h : Refines doc store) (hcur : doc.cur ≤ doc'.cur)
    (heq : ∀ p < doc.cur, doc'.heap p = doc.heap p) : Refines doc' store where
  holds p node hp := (h.holds p node hp).congr (congrArg MutVal.body (heq p (h.lt_of_node hp)))
  ring p ms hp := (h.ring p ms hp).congr fun a ha =>
    congrArg MutVal.next (heq a (h.lt_of_linked ⟨p, ms, hp, ha⟩))
  key p ms hp m hm := by
    rw [heq m.keyAddr (h.lt_of_linked ⟨p, ms, hp, keyAddr_mem hm⟩)]
    exact h.key p ms hp m hm
  keyFree := h.keyFree
  nodup := h.nodup
  disjoint := h.disjoint
  fresh p hp := h.fresh p (Nat.le_trans hcur hp)

theorem obj_of_update {p q : Addr} {node : Node F} {ms : List Member}
    (hnode : ∀ ns, node = .obj ns → ns = [])
    (hp : Function.update store q (some node) p = some (.obj ms)) :
    store p = some (.obj ms) ∨ p = q ∧ ms = [] := by
  by_cases h : p = q
  · subst h
    rw [Function.update_self] at hp
    exact .inr ⟨rfl, hnode ms (Option.some.inj hp)⟩
  · rw [Function.update_of_ne h] at hp
    exact .inl hp

/-- An address outside of every ring becomes a scalar or an empty object. -/
theorem Refines.node (h : Refines doc store) {q : Addr} {node : Node F} (hlt : q < doc.cur)
    (hlinked : ¬ Linked store q) (hholds : Holds doc.heap q node)
    (hnode : ∀ ns, node = .obj ns → ns = []) :
    Refines doc (Function.update store q (some node)) where
  holds p n hp := by
    by_cases hpq : p = q
    · subst hpq
      rw [Function.update_self] at hp
      exact Option.some.inj hp ▸ hholds
    · rw [Function.update_of_ne hpq] at hp
      exact h.holds p n hp
  ring p ms hp := by
    rcases obj_of_update hnode hp with hp | ⟨-, rfl⟩
    · exact h.ring p ms hp
    · exact fun a ha => by cases ha
  key p ms hp := by
    rcases obj_of_update hnode hp with hp | ⟨-, rfl⟩
    · exact h.key p ms hp
    · exact fun m hm => by cases hm
  keyFree p ms hp m hm := by
    rcases obj_of_update hnode hp with hp | ⟨-, rfl⟩
    · have hne : m.keyAddr ≠ q := fun heq => hlinked (heq ▸ ⟨p, ms, hp, keyAddr_mem hm⟩)
      rw [Function.update_of_ne hne]
      exact h.keyFree p ms hp m hm
    · cases hm
  nodup p ms hp := by
    rcases obj_of_update hnode hp with hp | ⟨-, rfl⟩
    · exact h.nodup p ms hp
    · exact List.nodup_nil
  disjoint p r ms ns hp hr hne := by
    rcases obj_of_update hnode hp with hp | ⟨-, rfl⟩
    · rcases obj_of_update hnode hr with hr | ⟨-, rfl⟩
      · exact h.disjoint p r ms ns hp hr hne
      · exact List.disjoint_nil_right _
    · exact List.disjoint_nil_left _
  fresh p hp := by
    obtain ⟨hnone, hfree⟩ := h.fresh p hp
    refine ⟨?_, ?_⟩
    · rw [Function.update_of_ne (Nat.ne_of_gt (Nat.lt_of_lt_of_le hlt hp))]
      exact hnone
    · rintro ⟨r, ms, hr, hmem⟩
      rcases obj_of_update hnode hr with hr | ⟨-, rfl⟩
      · exact hfree ⟨r, ms, hr, hmem⟩
      · cases hmem

/-! ## Adding a member -/

/-- The last key and the last value of a ring. -/
theorem ring_last {next : Addr → Addr} {ms : List Member} {m : Member}
    (h : Pointers.Ring next (links (ms ++ [m]))) : next m.keyAddr = m.valAddr := by
  rw [links_append] at h
  obtain ⟨a, ha⟩ : ∃ a, (links ms ++ links [m]).head? = some a := by
    cases hms : links ms with
    | nil => exact ⟨_, rfl⟩
    | cons b L => exact ⟨b, rfl⟩
  obtain ⟨b, -, hb⟩ := seg_append.1 (h a ha)
  exact hb.2.1

section
variable {heap : Heap F} {obj key val tail : Addr} {len : Nat}

theorem unsafeObjAdd_body (p : Addr) :
    (unsafeObjAdd heap obj key val len tail p).body =
      if p = obj then .ctn .obj (len + 1) key else (heap p).body := by
  have hnext : ∀ (heap : Heap F) (a b q : Addr), (setNext heap a b q).body = (heap q).body := by
    intro heap a b q
    unfold setNext
    by_cases h : q = a
    · subst h
      rw [Function.update_self]
    · rw [Function.update_of_ne h]
  rw [unsafeObjAdd, setBody_body, hnext]
  by_cases hlen : len ≠ 0
  · rw [if_pos hlen]
    simp only [hnext]
  · rw [if_neg hlen, hnext]

theorem setNext_next (a b q : Addr) :
    nextOf (setNext heap a b) q = if q = a then b else nextOf heap q := by
  unfold nextOf setNext
  split_ifs with h
  · rw [h, Function.update_self]
  · rw [Function.update_of_ne h]

/-- The pointers behind `unsafe_yyjson_mut_obj_add` to an empty object -/
theorem unsafeObjAdd_next_empty (p : Addr) :
    nextOf (unsafeObjAdd heap obj key val 0 tail) p =
      if p = key then val else if p = val then key else nextOf heap p := by
  rw [unsafeObjAdd, setBody_next, setNext_next, if_neg (not_not.2 rfl), setNext_next]

/-- The pointers behind `unsafe_yyjson_mut_obj_add` to an object whose last value is `last` -/
theorem unsafeObjAdd_next {last : Addr} (hlen : len ≠ 0) (hlast : nextOf heap tail = last)
    (p : Addr) :
    nextOf (unsafeObjAdd heap obj key val len tail) p =
      if p = key then val
      else if p = val then nextOf heap last
      else if p = last then key
      else nextOf heap p := by
  rw [unsafeObjAdd, setBody_next, setNext_next, if_pos hlen, setNext_next, setNext_next,
    show (heap tail).next = last from hlast]
  rfl

end

/-- The ring with two more nodes. -/
theorem ring_add {heap : Heap F} {obj key val tail : Addr} {ms : List Member} (k : Bytes)
    (htail : ∀ m ∈ ms.getLast?, tail = m.keyAddr) (hring : Pointers.Ring (nextOf heap) (links ms))
    (hnodup : (links ms).Nodup) (hkey : key ∉ links ms) (hval : val ∉ links ms) (hne : key ≠ val) :
    Pointers.Ring (nextOf (unsafeObjAdd heap obj key val ms.length tail))
      (links (ms ++ [⟨k, key, val⟩])) := by
  rw [links_append]
  rcases List.eq_nil_or_concat ms with rfl | ⟨init, m, rfl⟩
  · intro a ha
    obtain rfl : key = a := by simpa [links] using ha
    refine ⟨rfl, ?_, ?_⟩
    · rw [List.length_nil, unsafeObjAdd_next_empty, if_pos rfl]
    · show nextOf _ val = key
      rw [List.length_nil, unsafeObjAdd_next_empty, if_neg hne.symm, if_pos rfl]
  · rw [List.concat_eq_append] at *
    obtain rfl := htail m (by simp)
    have hlast := ring_last hring
    have hnext := fun p => @unsafeObjAdd_next F heap obj key val m.keyAddr (init ++ [m]).length
      m.valAddr (by simp) hlast p
    have hlinks : links (init ++ [m]) = links init ++ [m.keyAddr] ++ [m.valAddr] := by
      rw [links_append, List.append_assoc]
      rfl
    rw [hlinks] at hring hnodup hkey hval ⊢
    have hnot : m.valAddr ∉ links init ++ [m.keyAddr] := fun hmem =>
      (List.nodup_append.1 hnodup).2.2 _ hmem _ (by simp) rfl
    refine hring.splice (fun a ha => ?_) ?_
    · rw [hnext, if_neg, if_neg, if_neg]
      · rintro rfl
        exact hnot ha
      · rintro rfl
        exact hval (List.mem_append_left _ ha)
      · rintro rfl
        exact hkey (List.mem_append_left _ ha)
    · have hmem : m.valAddr ∈ links init ++ [m.keyAddr] ++ [m.valAddr] := by simp
      have hkey' : m.valAddr ≠ key := fun heq => hkey (heq ▸ hmem)
      have hval' : m.valAddr ≠ val := fun heq => hval (heq ▸ hmem)
      refine ⟨?_, ?_, ?_⟩
      · rw [hnext, if_neg hkey', if_neg hval', if_pos rfl]
      · rw [hnext, if_pos rfl]
      · show nextOf _ val = nextOf heap m.valAddr
        rw [hnext, if_neg hne.symm, if_pos rfl]

/-- The pointers of the other rings stay. -/
theorem ring_other {heap : Heap F} {obj key val tail : Addr} {ms ns : List Member}
    (htail : ∀ m ∈ ms.getLast?, tail = m.keyAddr) (hms : Pointers.Ring (nextOf heap) (links ms))
    (hns : Pointers.Ring (nextOf heap) (links ns)) (hdisjoint : (links ms).Disjoint (links ns))
    (hkey : key ∉ links ns) (hval : val ∉ links ns) :
    Pointers.Ring (nextOf (unsafeObjAdd heap obj key val ms.length tail)) (links ns) := by
  refine hns.congr fun a ha => ?_
  have hakey : a ≠ key := fun heq => hkey (heq ▸ ha)
  have haval : a ≠ val := fun heq => hval (heq ▸ ha)
  rcases List.eq_nil_or_concat ms with rfl | ⟨init, m, rfl⟩
  · rw [List.length_nil, unsafeObjAdd_next_empty, if_neg hakey, if_neg haval]
  · rw [List.concat_eq_append] at *
    obtain rfl := htail m (by simp)
    have hlast : a ≠ m.valAddr := fun heq =>
      hdisjoint (valAddr_mem (List.mem_append_right _ (List.mem_singleton_self m))) (heq ▸ ha)
    rw [unsafeObjAdd_next (by simp) (ring_last hms), if_neg hakey, if_neg haval, if_neg hlast]

/-- A key and a value that may be added to the object `obj`. -/
structure Addable (doc : MutDoc F) (store : Store F) (obj key val tail : Addr) (ms : List Member)
    (k : Bytes) : Prop where
  refines : Refines doc store
  isObj : store obj = some (.obj ms)
  ctn : (doc.heap obj).body = .ctn .obj ms.length tail
  keyBody : Shows (doc.heap key).body (.str k)
  keyFree : store key = none
  key_unlinked : ¬ Linked store key
  val_unlinked : ¬ Linked store val
  ne : key ≠ val
  key_lt : key < doc.cur
  val_lt : val < doc.cur

namespace Addable

variable {obj key val tail p q : Addr} {ms ns : List Member} {k : Bytes}

/-- The object with the new member -/
abbrev added (store : Store F) (obj key val : Addr) (ms : List Member) (k : Bytes) : Store F :=
  Function.update store obj (some (.obj (ms ++ [⟨k, key, val⟩])))

theorem last (h : Addable doc store obj key val tail ms k) :
    ∀ m ∈ ms.getLast?, tail = m.keyAddr := by
  obtain ⟨tail', hbody', htail⟩ := h.refines.holds obj _ h.isObj
  obtain rfl : tail = tail' := by
    have hbody := h.ctn.symm.trans hbody'
    injection hbody
  exact htail

theorem key_notMem (h : Addable doc store obj key val tail ms k) (hp : store p = some (.obj ns)) :
    key ∉ links ns := fun hmem => h.key_unlinked ⟨p, ns, hp, hmem⟩

theorem val_notMem (h : Addable doc store obj key val tail ms k) (hp : store p = some (.obj ns)) :
    val ∉ links ns := fun hmem => h.val_unlinked ⟨p, ns, hp, hmem⟩

/-- A free address is not the object. -/
theorem ne_obj (h : Addable doc store obj key val tail ms k) (hp : store p = none) : p ≠ obj := by
  rintro rfl
  rw [h.isObj] at hp
  cases hp

/-- What an object of the new store is -/
theorem of_added (hp : added store obj key val ms k p = some (.obj ns)) :
    p = obj ∧ ns = ms ++ [⟨k, key, val⟩] ∨ p ≠ obj ∧ store p = some (.obj ns) := by
  by_cases hpo : p = obj
  · subst hpo
    rw [added, Function.update_self] at hp
    exact .inl ⟨rfl, (Node.obj.inj (Option.some.inj hp)).symm⟩
  · rw [added, Function.update_of_ne hpo] at hp
    exact .inr ⟨hpo, hp⟩

theorem disjoint_other (h : Addable doc store obj key val tail ms k) (hpo : p ≠ obj)
    (hp : store p = some (.obj ns)) :
    (links (ms ++ [⟨k, key, val⟩])).Disjoint (links ns) := by
  rw [links_append, List.disjoint_append_left]
  refine ⟨h.refines.disjoint obj p ms ns h.isObj hp hpo.symm, ?_⟩
  intro a ha
  obtain rfl | rfl : a = key ∨ a = val := by simpa [links] using ha
  · exact h.key_notMem hp
  · exact h.val_notMem hp

theorem holds (h : Addable doc store obj key val tail ms k) {node : Node F}
    (hp : added store obj key val ms k p = some node) :
    Holds (unsafeObjAdd doc.heap obj key val ms.length tail) p node := by
  by_cases hpo : p = obj
  · subst hpo
    rw [added, Function.update_self] at hp
    obtain rfl := Option.some.inj hp
    refine ⟨key, ?_, ?_⟩
    · rw [unsafeObjAdd_body, if_pos rfl, List.length_append]
      rfl
    · intro m hm
      obtain rfl : (⟨k, key, val⟩ : Member) = m := by simpa using hm
      rfl
  · rw [added, Function.update_of_ne hpo] at hp
    refine (h.refines.holds p node hp).congr ?_
    rw [unsafeObjAdd_body, if_neg hpo]

theorem ring (h : Addable doc store obj key val tail ms k)
    (hp : added store obj key val ms k p = some (.obj ns)) :
    Pointers.Ring (nextOf (unsafeObjAdd doc.heap obj key val ms.length tail)) (links ns) := by
  have hms := h.refines.ring _ ms h.isObj
  rcases of_added hp with ⟨rfl, rfl⟩ | ⟨hpo, hp⟩
  · exact ring_add k h.last hms (h.refines.nodup _ ms h.isObj) (h.key_notMem h.isObj)
      (h.val_notMem h.isObj) h.ne
  · exact ring_other h.last hms (h.refines.ring p ns hp)
      (h.refines.disjoint _ p ms ns h.isObj hp (Ne.symm hpo)) (h.key_notMem hp) (h.val_notMem hp)

/-- A member of the new store is the new one, or is a member of the old store. -/
theorem key_cases (hp : added store obj key val ms k p = some (.obj ns)) {m : Member}
    (hobj : store obj = some (.obj ms)) (hm : m ∈ ns) :
    m = ⟨k, key, val⟩ ∨ ∃ q ls, store q = some (.obj ls) ∧ m ∈ ls := by
  rcases of_added hp with ⟨rfl, rfl⟩ | ⟨-, hp⟩
  · rcases List.mem_append.1 hm with hm | hm
    · exact .inr ⟨_, ms, hobj, hm⟩
    · exact .inl (List.mem_singleton.1 hm)
  · exact .inr ⟨p, ns, hp, hm⟩

theorem shows_key (h : Addable doc store obj key val tail ms k)
    (hp : added store obj key val ms k p = some (.obj ns)) {m : Member} (hm : m ∈ ns) :
    Shows (unsafeObjAdd doc.heap obj key val ms.length tail m.keyAddr).body (.str m.key) := by
  rcases key_cases hp h.isObj hm with rfl | ⟨q, ls, hq, hm⟩
  · rw [unsafeObjAdd_body, if_neg (h.ne_obj h.keyFree)]
    exact h.keyBody
  · rw [unsafeObjAdd_body, if_neg (h.ne_obj (h.refines.keyFree q ls hq m hm))]
    exact h.refines.key q ls hq m hm

theorem key_none (h : Addable doc store obj key val tail ms k)
    (hp : added store obj key val ms k p = some (.obj ns)) {m : Member} (hm : m ∈ ns) :
    added store obj key val ms k m.keyAddr = none := by
  rcases key_cases hp h.isObj hm with rfl | ⟨q, ls, hq, hm⟩
  · rw [added, Function.update_of_ne (h.ne_obj h.keyFree)]
    exact h.keyFree
  · have hfree := h.refines.keyFree q ls hq m hm
    rw [added, Function.update_of_ne (h.ne_obj hfree)]
    exact hfree

theorem nodup (h : Addable doc store obj key val tail ms k)
    (hp : added store obj key val ms k p = some (.obj ns)) : (links ns).Nodup := by
  rcases of_added hp with ⟨rfl, rfl⟩ | ⟨-, hp⟩
  · rw [links_append, List.nodup_append]
    refine ⟨h.refines.nodup _ ms h.isObj, by simpa [links] using h.ne, ?_⟩
    rintro a ha b hb rfl
    obtain rfl | rfl : a = key ∨ a = val := by simpa [links] using hb
    · exact h.key_notMem h.isObj ha
    · exact h.val_notMem h.isObj ha
  · exact h.refines.nodup p ns hp

theorem disjoint (h : Addable doc store obj key val tail ms k) {ls : List Member}
    (hp : added store obj key val ms k p = some (.obj ns))
    (hq : added store obj key val ms k q = some (.obj ls)) (hpq : p ≠ q) :
    (links ns).Disjoint (links ls) := by
  rcases of_added hp with ⟨rfl, rfl⟩ | ⟨hpo, hpOld⟩
  · rcases of_added hq with ⟨rfl, rfl⟩ | ⟨hqo, hqOld⟩
    · exact absurd rfl hpq
    · exact h.disjoint_other hqo hqOld
  · rcases of_added hq with ⟨rfl, rfl⟩ | ⟨hqo, hqOld⟩
    · exact fun a ha hb => h.disjoint_other hpo hpOld hb ha
    · exact h.refines.disjoint p q ns ls hpOld hqOld hpq

theorem fresh (h : Addable doc store obj key val tail ms k) (hp : doc.cur ≤ p) :
    added store obj key val ms k p = none ∧ ¬ Linked (added store obj key val ms k) p := by
  obtain ⟨hnone, hfree⟩ := h.refines.fresh p hp
  have hlt := h.refines.lt_of_node h.isObj
  refine ⟨?_, ?_⟩
  · rw [added, Function.update_of_ne (Nat.ne_of_gt (Nat.lt_of_lt_of_le hlt hp))]
    exact hnone
  · rintro ⟨q, ns, hq, hmem⟩
    rcases of_added hq with ⟨rfl, rfl⟩ | ⟨-, hq⟩
    · rw [links_append, List.mem_append] at hmem
      rcases hmem with hmem | hmem
      · exact hfree ⟨_, ms, h.isObj, hmem⟩
      · obtain rfl | rfl : p = key ∨ p = val := by simpa [links] using hmem
        · exact absurd h.key_lt (Nat.not_lt.2 hp)
        · exact absurd h.val_lt (Nat.not_lt.2 hp)
    · exact hfree ⟨q, ns, hq, hmem⟩

end Addable

/-- **A member is added.** -/
theorem refines_add {obj key val tail : Addr} {ms : List Member} {k : Bytes}
    (h : Addable doc store obj key val tail ms k) :
    Refines { doc with heap := unsafeObjAdd doc.heap obj key val ms.length tail }
      (Function.update store obj (some (.obj (ms ++ [⟨k, key, val⟩])))) where
  holds _ _ hp := h.holds hp
  ring _ _ hp := h.ring hp
  key _ _ hp _ hm := h.shows_key hp hm
  keyFree _ _ hp _ hm := h.key_none hp hm
  nodup _ _ hp := h.nodup hp
  disjoint _ _ _ _ hp hq hpq := h.disjoint hp hq hpq
  fresh _ hp := h.fresh hp

/-! ## The functions -/

section
variable (constantP : Bytes → Bool)

/-- **`yyjson_mut_obj`** -/
theorem refines_mutVal (h : Refines doc store) {body : MutBody F} {node : Node F}
    (hholds : ∀ heap : Heap F, ∀ p, (heap p).body = body → Holds heap p node)
    (hnode : ∀ ns, node = .obj ns → ns = []) :
    Refines (mutVal doc body).2 (Function.update store (mutVal doc body).1 (some node)) := by
  obtain ⟨-, hfree⟩ := h.fresh doc.cur (Nat.le_refl _)
  refine Refines.node (h.alloc (Nat.le_succ _) fun p hp => ?_) (Nat.lt_succ_self _) hfree ?_ hnode
  · exact Function.update_of_ne (Nat.ne_of_lt hp) _ _
  · refine hholds _ _ ?_
    exact (setBody_body _ _ _ _).trans (if_pos rfl)

theorem holds_empty (heap : Heap F) (p : Addr) (h : (heap p).body = .ctn .obj 0 0) :
    Holds heap p (.obj []) := ⟨0, h, fun m hm => by cases hm⟩

theorem refines_mutObj (h : Refines doc store) :
    Refines (mutObj doc).2 (Function.update store (mutObj doc).1 (some (.obj []))) :=
  refines_mutVal h holds_empty fun _ hns => (Node.obj.inj hns).symm

theorem refines_mutNull (h : Refines doc store) :
    Refines (mutNull doc).2 (Function.update store (mutNull doc).1 (some (.scalar .null))) := by
  refine refines_mutVal h (fun heap p hp => ?_) fun _ hns => by cases hns
  rw [Holds, hp]
  exact .null

/-- A key, and the value that was chosen, are added. -/
theorem refines_objAddFunc {obj : Addr} {ms : List Member} {k : Bytes}
    {func : Heap F → Addr → Heap F × Addr} {heap' : Heap F} {val : Addr} {store' : Store F}
    (hobj : store' obj = some (.obj ms))
    (hfunc : func (setBody doc.heap doc.cur (.str (mutStr constantP k))) (doc.cur + 1) =
      (heap', val))
    (hkeyBody : (heap' doc.cur).body = .str (mutStr constantP k))
    (hobjBody : (heap' obj).body = (doc.heap obj).body)
    (hrefines : Refines { doc with heap := heap', cur := doc.cur + 2 } store')
    (hkeyFree : store' doc.cur = none) (hkey : ¬ Linked store' doc.cur)
    (hval : ¬ Linked store' val) (hne : doc.cur ≠ val) (hlt : val < doc.cur + 2) :
    Refines (objAddFunc constantP doc obj k func).2
      (Function.update store' obj (some (.obj (ms ++ [⟨k, doc.cur, val⟩])))) := by
  obtain ⟨tail, hbody, -⟩ := hrefines.holds obj _ hobj
  have hbody' : (doc.heap obj).body = .ctn .obj ms.length tail := hobjBody ▸ hbody
  unfold objAddFunc unsafeMutVal
  rw [hbody']
  dsimp only
  rw [hfunc]
  refine refines_add ⟨hrefines, hobj, hbody, ?_, hkeyFree, hkey, hval, hne,
    Nat.lt_add_of_pos_right (by decide), hlt⟩
  show Shows (heap' doc.cur).body (.str k)
  rw [hkeyBody]
  exact .str (mutStr constantP k)

/-- **A scalar is added.** -/
theorem refines_objAddBody (h : Refines doc store) {obj : Addr} {ms : List Member} (k : Bytes)
    {body : MutBody F} {s : Scalar (YyjsonNum F)} (hobj : store obj = some (.obj ms))
    (hbody : Shows body s) :
    Refines (objAddBody constantP doc obj k body).2
      (Function.update (Function.update store (doc.cur + 1) (some (.scalar s))) obj
        (some (.obj (ms ++ [⟨k, doc.cur, doc.cur + 1⟩])))) := by
  have hlt := h.lt_of_node hobj
  have hkeyFree := h.fresh doc.cur (Nat.le_refl _)
  have hvalFree := h.fresh (doc.cur + 1) (Nat.le_succ _)
  have hlinked : ∀ p, Linked (Function.update store (doc.cur + 1) (some (.scalar s))) p →
      Linked store p := by
    rintro p ⟨q, ns, hq, hmem⟩
    rcases obj_of_update (fun _ hns => by cases hns) hq with hq | ⟨-, rfl⟩
    · exact ⟨q, ns, hq, hmem⟩
    · cases hmem
  have hne : doc.cur ≠ doc.cur + 1 := Nat.ne_of_lt (Nat.lt_succ_self _)
  have hobjVal : obj ≠ doc.cur + 1 := Nat.ne_of_lt (Nat.lt_succ_of_lt hlt)
  have hstep : Refines { doc with
      heap := setBody (setBody doc.heap doc.cur (.str (mutStr constantP k))) (doc.cur + 1) body,
      cur := doc.cur + 2 } store := by
    refine h.alloc (Nat.le_add_right _ _) fun p hp => ?_
    exact (Function.update_of_ne (Nat.ne_of_lt (Nat.lt_succ_of_lt hp)) _ _).trans
      (Function.update_of_ne (Nat.ne_of_lt hp) _ _)
  refine refines_objAddFunc constantP ?_ rfl ?_ ?_ (hstep.node (Nat.lt_succ_self _) hvalFree.2
    ?_ fun _ hns => by cases hns) ?_ (fun hl => hkeyFree.2 (hlinked _ hl))
    (fun hl => hvalFree.2 (hlinked _ hl)) hne (Nat.lt_succ_self _)
  · rw [Function.update_of_ne hobjVal]
    exact hobj
  · rw [setBody_body, if_neg hne, setBody_body, if_pos rfl]
  · rw [setBody_body, if_neg hobjVal, setBody_body, if_neg (Nat.ne_of_lt hlt)]
  · show Shows (setBody _ _ body (doc.cur + 1)).body s
    rw [setBody_body, if_pos rfl]
    exact hbody
  · rw [Function.update_of_ne hne]
    exact hkeyFree.1

/-- **A value that is in no object is added.** -/
theorem refines_objAddVal (h : Refines doc store) {obj val : Addr} {ms : List Member} (k : Bytes)
    (hobj : store obj = some (.obj ms)) (hval : ¬ Linked store val) (hlt : val < doc.cur) :
    Refines (objAddVal constantP doc obj k val).2
      (Function.update store obj (some (.obj (ms ++ [⟨k, doc.cur, val⟩])))) := by
  have hkeyFree := h.fresh doc.cur (Nat.le_refl _)
  refine refines_objAddFunc constantP hobj rfl ?_ ?_ (h.alloc (Nat.le_add_right _ _) fun p hp => ?_)
    hkeyFree.1 hkeyFree.2 hval (Nat.ne_of_gt hlt) (Nat.lt_add_right _ hlt)
  · rw [setBody_body, if_pos rfl]
  · rw [setBody_body, if_neg (Nat.ne_of_lt (h.lt_of_node hobj))]
  · exact Function.update_of_ne (Nat.ne_of_lt hp) _ _

/-- The document with a new key and a new object, before the object is added -/
def keyAndObj (doc : MutDoc F) (k : Bytes) : MutDoc F :=
  (mutObj (mutVal doc (.str (mutStr constantP k))).2).2

theorem keyAndObj_body (doc : MutDoc F) (k : Bytes) (p : Addr) :
    ((keyAndObj constantP doc k).heap p).body =
      if p = doc.cur + 1 then .ctn .obj 0 0
      else if p = doc.cur then .str (mutStr constantP k)
      else (doc.heap p).body := by
  show (setBody (setBody doc.heap doc.cur (.str (mutStr constantP k))) (doc.cur + 1)
    (.ctn .obj 0 0) p).body = _
  rw [setBody_body, setBody_body]

theorem refines_keyAndObj (h : Refines doc store) (k : Bytes) :
    Refines (keyAndObj constantP doc k)
      (Function.update store (doc.cur + 1) (some (.obj []))) := by
  have hstep : Refines (keyAndObj constantP doc k) store := by
    refine h.alloc (show doc.cur ≤ doc.cur + 2 from Nat.le_add_right _ _) fun p hp => ?_
    exact (Function.update_of_ne (Nat.ne_of_lt (Nat.lt_succ_of_lt hp)) _ _).trans
      (Function.update_of_ne (Nat.ne_of_lt hp) _ _)
  exact hstep.node (Nat.lt_succ_self (doc.cur + 1)) (h.fresh (doc.cur + 1) (Nat.le_succ _)).2
    (holds_empty _ _ ((keyAndObj_body ..).trans (if_pos rfl)))
    fun _ hns => (Node.obj.inj hns).symm

theorem objAddObj_of_obj {obj tail : Addr} {k : Bytes} {len : Nat}
    (h : ((keyAndObj constantP doc k).heap obj).body = .ctn .obj len tail) :
    objAddObj constantP doc obj k = (some (doc.cur + 1), { keyAndObj constantP doc k with
      heap := unsafeObjAdd (keyAndObj constantP doc k).heap obj doc.cur (doc.cur + 1) len
        tail }) := by
  dsimp only [objAddObj, mutObj, mutVal]
  split
  · next len' tail' hctn =>
    cases h.symm.trans hctn
    rfl
  · next hno => exact absurd h (hno _ _)

theorem objAddObj_of_not_obj {obj : Addr} {k : Bytes}
    (h : ∀ len tail, ((keyAndObj constantP doc k).heap obj).body ≠ .ctn .obj len tail) :
    objAddObj constantP doc obj k = (none, keyAndObj constantP doc k) := by
  dsimp only [objAddObj, mutObj, mutVal]
  split
  · next len tail hctn => exact absurd hctn (h len tail)
  · rfl

/-- **A new object is added.** -/
theorem refines_objAddObj (h : Refines doc store) {obj : Addr} {ms : List Member} (k : Bytes)
    (hobj : store obj = some (.obj ms)) :
    (objAddObj constantP doc obj k).1 = some (doc.cur + 1) ∧
      Refines (objAddObj constantP doc obj k).2
        (Function.update (Function.update store (doc.cur + 1) (some (.obj []))) obj
          (some (.obj (ms ++ [⟨k, doc.cur, doc.cur + 1⟩])))) := by
  obtain ⟨tail, hbody, htail⟩ := h.holds obj _ hobj
  have hlt := h.lt_of_node hobj
  have hkeyFree := h.fresh doc.cur (Nat.le_refl _)
  have hvalFree := h.fresh (doc.cur + 1) (Nat.le_succ _)
  have hne : doc.cur ≠ doc.cur + 1 := Nat.ne_of_lt (Nat.lt_succ_self _)
  have hobjVal : obj ≠ doc.cur + 1 := Nat.ne_of_lt (Nat.lt_succ_of_lt hlt)
  have hlinked : ∀ p, Linked (Function.update store (doc.cur + 1) (some (Node.obj []))) p →
      Linked store p := by
    rintro p ⟨q, ns, hq, hmem⟩
    rcases obj_of_update (fun _ hns => (Node.obj.inj hns).symm) hq with hq | ⟨-, rfl⟩
    · exact ⟨q, ns, hq, hmem⟩
    · cases hmem
  have hbody' : ((keyAndObj constantP doc k).heap obj).body = .ctn .obj ms.length tail := by
    rw [keyAndObj_body, if_neg hobjVal, if_neg (Nat.ne_of_lt hlt)]
    exact hbody
  have hkeyBody : ((keyAndObj constantP doc k).heap doc.cur).body =
      .str (mutStr constantP k) := by
    rw [keyAndObj_body, if_neg hne, if_pos rfl]
  rw [objAddObj_of_obj constantP hbody']
  refine ⟨rfl, refines_add ⟨refines_keyAndObj constantP h k, ?_, hbody', ?_, ?_,
    fun hl => hkeyFree.2 (hlinked _ hl), fun hl => hvalFree.2 (hlinked _ hl), hne,
    Nat.lt_succ_of_lt (Nat.lt_succ_self _), Nat.lt_succ_self _⟩⟩
  · rw [Function.update_of_ne hobjVal]
    exact hobj
  · rw [hkeyBody]
    exact .str (mutStr constantP k)
  · rw [Function.update_of_ne hne]
    exact hkeyFree.1

end

/-! ## Runs -/

/-- A call of the API, with a scalar where the functions of the family differ. -/
inductive Call (F : Type)
  | newScalar (body : MutBody F) (s : Scalar (YyjsonNum F)) (shows : Shows body s)
  | newObj
  | addScalar (obj : Addr) (key : Bytes) (body : MutBody F) (s : Scalar (YyjsonNum F))
      (shows : Shows body s)
  | addObj (obj : Addr) (key : Bytes)
  | addVal (obj : Addr) (key : Bytes) (val : Addr)

/-- What a call does to the heap. -/
def Call.exec (constantP : Bytes → Bool) (doc : MutDoc F) : Call F → MutDoc F
  | .newScalar body _ _ => (mutVal doc body).2
  | .newObj => (mutObj doc).2
  | .addScalar obj key body _ _ => (objAddBody constantP doc obj key body).2
  | .addObj obj key => (objAddObj constantP doc obj key).2
  | .addVal obj key val => (objAddVal constantP doc obj key val).2

/-- What a call does to the store, with `cur` as the next address. -/
def Call.spec (cur : Addr) (store : Store F) : Call F → Store F
  | .newScalar _ s _ => Function.update store cur (some (.scalar s))
  | .newObj => Function.update store cur (some (.obj []))
  | .addScalar obj key _ s _ =>
      match store obj with
      | some (.obj ms) =>
          Function.update (Function.update store (cur + 1) (some (.scalar s))) obj
            (some (.obj (ms ++ [⟨key, cur, cur + 1⟩])))
      | _ => store
  | .addObj obj key =>
      match store obj with
      | some (.obj ms) =>
          Function.update (Function.update store (cur + 1) (some (.obj []))) obj
            (some (.obj (ms ++ [⟨key, cur, cur + 1⟩])))
      | _ => Function.update store (cur + 1) (some (.obj []))
  | .addVal obj key val =>
      match store obj with
      | some (.obj ms) => Function.update store obj (some (.obj (ms ++ [⟨key, cur, val⟩])))
      | _ => store

/-- A value is added to a value of the document, and is in no object yet. -/
def Call.Allowed (cur : Addr) (store : Store F) : Call F → Prop
  | .newScalar .. => True
  | .newObj => True
  | .addScalar obj .. => store obj ≠ none
  | .addObj obj _ => store obj ≠ none
  | .addVal obj _ val => store obj ≠ none ∧ ¬ Linked store val ∧ val < cur

/-- A document and its store behind some calls. -/
inductive Reaches (constantP : Bytes → Bool) : MutDoc F → Store F → List (Call F) → Prop
  | nil (memory : Heap F) : Reaches constantP (mutDocNew memory) (fun _ => none) []
  | call {doc : MutDoc F} {store : Store F} {calls : List (Call F)} (c : Call F)
      (h : Reaches constantP doc store calls) (hc : c.Allowed doc.cur store) :
      Reaches constantP (c.exec constantP doc) (c.spec doc.cur store) (calls ++ [c])

section
variable (constantP : Bytes → Bool)

theorem body_of_scalar (h : Refines doc store) {obj : Addr} {s : Scalar (YyjsonNum F)}
    (hobj : store obj = some (.scalar s)) :
    ∀ kind len tail, (doc.heap obj).body ≠ .ctn kind len tail := by
  intro kind len tail hbody
  have hshows : Shows (doc.heap obj).body s := h.holds obj _ hobj
  rw [hbody] at hshows
  cases hshows

/-- To a scalar nothing is added. -/
theorem objAddFunc_scalar (h : Refines doc store) {obj : Addr} {s : Scalar (YyjsonNum F)}
    (hobj : store obj = some (.scalar s)) (k : Bytes) (func : Heap F → Addr → Heap F × Addr) :
    objAddFunc constantP doc obj k func = (false, doc) := by
  have hbody := body_of_scalar h hobj
  unfold objAddFunc
  split
  · next len tail heq => exact absurd heq (hbody _ len tail)
  · rfl

/-- **One call.** -/
theorem refines_exec (h : Refines doc store) (c : Call F) (hc : c.Allowed doc.cur store) :
    Refines (c.exec constantP doc) (c.spec doc.cur store) := by
  cases c with
  | newScalar body s shows' =>
      refine refines_mutVal h (fun heap p hp => ?_) fun _ hns => by cases hns
      rw [Holds, hp]
      exact shows'
  | newObj => exact refines_mutObj h
  | addScalar obj key body s shows' =>
      rw [Call.spec]
      cases hobj : store obj with
      | none => exact absurd hobj hc
      | some node =>
          cases node with
          | obj ms => exact refines_objAddBody constantP h key hobj shows'
          | scalar t =>
              rw [Call.exec, objAddBody, objAddFunc_scalar constantP h hobj]
              exact h
  | addVal obj key val =>
      obtain ⟨hne, hval, hlt⟩ := hc
      rw [Call.spec]
      cases hobj : store obj with
      | none => exact absurd hobj hne
      | some node =>
          cases node with
          | obj ms => exact refines_objAddVal constantP h key hobj hval hlt
          | scalar t =>
              rw [Call.exec, objAddVal, objAddFunc_scalar constantP h hobj]
              exact h
  | addObj obj key =>
      rw [Call.spec]
      cases hobj : store obj with
      | none => exact absurd hobj hc
      | some node =>
          cases node with
          | obj ms => exact (refines_objAddObj constantP h key hobj).2
          | scalar t =>
              -- the key and the object are new, but nothing points to them
              have hlt := h.lt_of_node hobj
              have hbody := body_of_scalar h hobj
              have hnot : ∀ len tail,
                  ((keyAndObj constantP doc key).heap obj).body ≠ .ctn .obj len tail := by
                rw [keyAndObj_body, if_neg (Nat.ne_of_lt (Nat.lt_succ_of_lt hlt)),
                  if_neg (Nat.ne_of_lt hlt)]
                exact hbody .obj
              rw [Call.exec, objAddObj_of_not_obj constantP hnot]
              exact refines_keyAndObj constantP h key

/-- **The heap refines the store** in every run. -/
theorem refines_of_reaches {calls : List (Call F)} (h : Reaches constantP doc store calls) :
    Refines doc store := by
  induction h with
  | nil memory => exact refines_mutDocNew memory
  | call c h hc ih => exact refines_exec constantP ih c hc

/-- **Every run of the API.** The store that was built by adding to lists says what the writer
finds in the heap. -/
theorem rep_of_reaches {calls : List (Call F)} (h : Reaches constantP doc store calls) {p : Addr}
    {v : Value (YyjsonNum F)} (hp : Denotes store p v) : Rep doc.heap p v :=
  rep_of_denotes_at (refines_of_reaches constantP h) v p hp

end

/-- An object is put into another one, and gets a member afterwards. -/
theorem rep_of_reaches_nested :
    ∃ doc : MutDoc Nat, Rep doc.heap 0
      (.obj [(bytes "error", .obj [(bytes "code", .scalar .null)])]) :=
  ⟨_, rep_of_reaches (fun _ => true)
    (((Reaches.nil fun _ => ⟨.null, 0⟩).call .newObj trivial).call (.addObj 0 (bytes "error"))
      (by exact fun h => by cases h) |>.call (.addScalar 2 (bytes "code") .null .null .null)
        (by exact fun h => by cases h))
    ⟨[⟨bytes "error", 1, 2⟩], rfl, rfl, ⟨[⟨bytes "code", 3, 4⟩], rfl, rfl, rfl, trivial⟩, trivial⟩⟩

end ServerBase.Yyjson
