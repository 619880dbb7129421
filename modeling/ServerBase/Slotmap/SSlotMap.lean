import ServerBase.Lib.Machine
import ServerBase.Slotmap.SlotMapTracker

/-!
# Slot maps

`SSlotMap` of `utils/slotmap/SlotMap.h`: a vector of entries, each under the handle it was granted,
and a tracker that grants the handles. A pointer to an entry is its index.

**The invariant** (`Inv`). The counter is the size of the vector, the ids of the free list are a
valid pool, and every slot stores either a plain handle with its own id, which is then used, or the
marked form of the handle that waits for it on the free list.

**Conditions.** `add` keeps it while a slot is left (`Room`), and `remove` keeps it unless it is
called with the handle that a removed slot stores (`StoredByRemoved`).
-/

namespace ServerBase

/-- `T` with its member `mHandle`; `α` is what else is in it. -/
structure Entry (α : Type*) where
  mHandle : ObjectHandle := nullObjectHandle
  val : α

structure SSlotMap (α : Type*) where
  mTracker : SlotMapTracker := {}
  mData : List (Entry α) := []

namespace SSlotMap

variable {α : Type*}

/-- `(ushort)mData.size()` -/
def sizeUshort (m : SSlotMap α) : Ushort := BitVec.ofNat 16 m.mData.length

/-- `Add`: the entry it returns, as an index. -/
def addIndex (m : SSlotMap α) : ℕ :=
  let arrayidx := getHandleID m.mTracker.grantedHandle
  if arrayidx < m.sizeUshort then arrayidx.toNat else m.mData.length

/-- `Add`; the handle of the new entry is `mTracker.grantedHandle`. -/
def add [Inhabited α] (m : SSlotMap α) : SSlotMap α :=
  let handle := m.mTracker.grantedHandle
  let arrayidx := getHandleID handle
  let entry : Entry α := { mHandle := handle, val := default }
  { mTracker := m.mTracker.grantHandle
    mData := if arrayidx < m.sizeUshort then m.mData.set arrayidx.toNat entry
             else m.mData ++ [entry] }

/-- `Get`: the index of the entry it returns. -/
def get (m : SSlotMap α) (handle : ObjectHandle) : Option ℕ :=
  if handle = nullObjectHandle then none
  else
    let arrayidx := getHandleID handle
    if arrayidx < m.sizeUshort ∧ (m.mData[arrayidx.toNat]?).map Entry.mHandle = some handle then
      some arrayidx.toNat
    else none

/-- `Remove`, with the checks of `Get`. -/
def remove (m : SSlotMap α) (handle : ObjectHandle) : SSlotMap α :=
  match m.get handle with
  | none => m
  | some arrayidx =>
      let newhandle := nextHandle handle
      { mTracker := { m.mTracker with mFreeIds := m.mTracker.mFreeIds ++ [newhandle] }
        mData := m.mData.modify arrayidx fun e => { e with mHandle := markDeleted newhandle true } }

/-- `count`: a difference of `size_t`, returned as a `uint`. -/
def count (m : SSlotMap α) : BitVec 32 :=
  (BitVec.ofNat 64 m.mData.length - BitVec.ofNat 64 m.mTracker.mFreeIds.length).setWidth 32

/-- `operator[]` -/
def entryAt (m : SSlotMap α) (index : ℕ) : Option (Entry α) :=
  match m.mData[index]? with
  | none => none
  | some e => if deletedBit e.mHandle then none else some e

/-- Other members of the entry `index` are written through a pointer to it. -/
def write (m : SSlotMap α) (index : ℕ) (val : α) : SSlotMap α :=
  { m with mData := m.mData.modify index fun e => { e with val := val } }

/-- The slot `i` stores a handle that is not marked as deleted. -/
def Live (m : SSlotMap α) (i : ℕ) : Prop :=
  ∃ e, m.mData[i]? = some e ∧ deletedBit e.mHandle = false

/-- A removed slot stores the handle. -/
def StoredByRemoved (m : SSlotMap α) (handle : ObjectHandle) : Prop :=
  ∃ e ∈ m.mData, deletedBit e.mHandle = true ∧ e.mHandle = handle

instance (m : SSlotMap α) (handle : ObjectHandle) : Decidable (m.StoredByRemoved handle) :=
  List.decidableBEx _ _

/-! ## The invariant -/

/-- What the slot `i` may store. -/
inductive SlotOk (m : SSlotMap α) (i : ℕ) (e : Entry α) : Prop
  | live : Plain e.mHandle → idOf e.mHandle = i → m.mTracker.ids.Used i → SlotOk m i e
  | removed (f : ObjectHandle) : f ∈ m.mTracker.mFreeIds → Plain f → idOf f = i →
      e.mHandle = markDeleted f true → SlotOk m i e

structure Inv (m : SSlotMap α) : Prop where
  highest : m.mTracker.mHighestUnrecycledId.toNat = m.mData.length
  length_le : m.mData.length ≤ 2 ^ 15
  pool : m.mTracker.ids.Valid
  slot : ∀ i e, m.mData[i]? = some e → SlotOk m i e

variable {m : SSlotMap α} {h : ObjectHandle} {i : ℕ} {e : Entry α}

theorem entryAt_eq_some :
    m.entryAt i = some e ↔ m.mData[i]? = some e ∧ deletedBit e.mHandle = false := by
  unfold entryAt
  cases m.mData[i]? with
  | none => simp
  | some e' =>
      simp only [Option.some.injEq, Option.ite_none_left_eq_some, Bool.not_eq_true]
      constructor
      · rintro ⟨hdel, rfl⟩
        exact ⟨rfl, hdel⟩
      · rintro ⟨rfl, hdel⟩
        exact ⟨hdel, rfl⟩

theorem inv_init : Inv ({} : SSlotMap α) := ⟨rfl, by simp, IdPool.valid_empty, by simp⟩

theorem toNat_sizeUshort (hle : m.mData.length ≤ 2 ^ 15) : m.sizeUshort.toNat = m.mData.length := by
  rw [sizeUshort, BitVec.toNat_ofNat]
  exact Nat.mod_eq_of_lt (by omega)

theorem getHandleID_lt_size (hle : m.mData.length ≤ 2 ^ 15) (h : ObjectHandle) :
    getHandleID h < m.sizeUshort ↔ idOf h < m.mData.length := by
  rw [BitVec.lt_def, toNat_sizeUshort hle, idOf]

/-- `Get` returns the slot of the handle if that stores it. -/
theorem get_eq_some (hle : m.mData.length ≤ 2 ^ 15) :
    m.get h = some i ↔
      h ≠ nullObjectHandle ∧ i = idOf h ∧ ∃ e, m.mData[i]? = some e ∧ e.mHandle = h := by
  unfold get
  by_cases hnull : h = nullObjectHandle
  · simp [hnull]
  · rw [if_neg hnull, Option.ite_none_right_eq_some, getHandleID_lt_size hle]
    simp only [Option.map_eq_some_iff, Option.some.injEq]
    constructor
    · rintro ⟨⟨-, e, he, hh⟩, rfl⟩
      exact ⟨hnull, rfl, e, he, hh⟩
    · rintro ⟨-, rfl, e, he, hh⟩
      exact ⟨⟨(List.getElem?_eq_some_iff.1 he).1, e, he, hh⟩, rfl⟩

theorem remove_of_get_none (hget : m.get h = none) : m.remove h = m := by simp [remove, hget]

theorem remove_of_get_some (hget : m.get h = some i) :
    m.remove h = { mTracker := { m.mTracker with
                     mFreeIds := m.mTracker.mFreeIds ++ [nextHandle h] }
                   mData := m.mData.modify i fun e =>
                     { e with mHandle := markDeleted (nextHandle h) true } } := by
  simp [remove, hget]

/-- `remove` writes the handle of the slot it found and no other. -/
theorem getElem?_remove (hget : m.get h = some i) (j : ℕ) :
    (m.remove h).mData[j]? = if i = j
      then (m.mData[j]?).map fun e => { e with mHandle := markDeleted (nextHandle h) true }
      else m.mData[j]? := by
  rw [remove_of_get_some hget, List.getElem?_modify]
  by_cases hij : i = j
  · simp [hij]
  · simp [hij]

/-- `write` leaves the handles alone. -/
theorem getElem?_write (v : α) (j : ℕ) :
    (m.write i v).mData[j]? =
      (m.mData[j]?).map fun e => { e with val := if i = j then v else e.val } := by
  rw [write, List.getElem?_modify]
  by_cases hij : i = j
  · simp [hij]
  · simp [hij]

theorem modify_of_getElem? {β : Type*} {l : List β} {b : β} (hi : l[i]? = some b) (f : β → β) :
    l.modify i f = l.set i (f b) := by
  refine List.ext_getElem? fun j => ?_
  rw [List.getElem?_modify, List.getElem?_set]
  have hlt := (List.getElem?_eq_some_iff.1 hi).1
  by_cases hij : i = j
  · rw [← hij, hi, if_pos rfl, if_pos hlt]
    simp
  · simp [hij]

/-- A granted handle whose slot is there already is put into it. -/
theorem add_of_lt [Inhabited α] (hle : m.mData.length ≤ 2 ^ 15)
    (hlt : idOf m.mTracker.grantedHandle < m.mData.length) :
    m.add = { mTracker := m.mTracker.grantHandle
              mData := m.mData.set (idOf m.mTracker.grantedHandle)
                ⟨m.mTracker.grantedHandle, default⟩ } := by
  rw [add, if_pos ((getHandleID_lt_size hle _).2 hlt)]
  rfl

theorem addIndex_of_lt (hle : m.mData.length ≤ 2 ^ 15)
    (hlt : idOf m.mTracker.grantedHandle < m.mData.length) :
    m.addIndex = idOf m.mTracker.grantedHandle :=
  if_pos ((getHandleID_lt_size hle _).2 hlt)

theorem ids_add [Inhabited α] (hroom : m.mTracker.Room) :
    m.add.mTracker.ids = m.mTracker.ids.grant :=
  SlotMapTracker.ids_grantHandle hroom

/-- `remove` leaves the other members alone. -/
theorem map_val_remove : (m.remove h).mData.map Entry.val = m.mData.map Entry.val := by
  cases hget : m.get h with
  | none => rw [remove_of_get_none hget]
  | some i =>
      refine List.ext_getElem? fun j => ?_
      rw [List.getElem?_map, List.getElem?_map, getElem?_remove hget]
      by_cases hij : i = j
      · simp [hij, Function.comp_def]
      · simp [hij]

theorem length_remove : (m.remove h).mData.length = m.mData.length := by
  have hval := congrArg List.length (map_val_remove (m := m) (h := h))
  rwa [List.length_map, List.length_map] at hval

theorem length_write {v : α} : (m.write i v).mData.length = m.mData.length :=
  List.length_modify ..

/-- What was found is one more handle to grant. -/
theorem length_mFreeIds_remove (hget : m.get h = some i) :
    (m.remove h).mTracker.mFreeIds.length = m.mTracker.mFreeIds.length + 1 := by
  rw [remove_of_get_some hget, List.length_append, List.length_singleton]

theorem map_mHandle_write {v : α} :
    (m.write i v).mData.map Entry.mHandle = m.mData.map Entry.mHandle := by
  refine List.ext_getElem? fun j => ?_
  rw [List.getElem?_map, getElem?_write, List.getElem?_map]
  simp [Function.comp_def]

theorem storedByRemoved_iff :
    m.StoredByRemoved h ↔ h ∈ m.mData.map Entry.mHandle ∧ deletedBit h = true := by
  constructor
  · rintro ⟨e, he, hdel, rfl⟩
    exact ⟨List.mem_map_of_mem he, hdel⟩
  · rintro ⟨hmem, hdel⟩
    obtain ⟨e, he, rfl⟩ := List.mem_map.1 hmem
    exact ⟨e, he, hdel, rfl⟩

/-- What is not marked is not stored by a removed slot. -/
theorem not_storedByRemoved (hh : Plain h) : ¬m.StoredByRemoved h := by
  rintro ⟨e, -, hdel, heq⟩
  rw [heq, hh.not_deleted] at hdel
  exact absurd hdel (by decide)

theorem storedByRemoved_write {v : α} : (m.write i v).StoredByRemoved h ↔ m.StoredByRemoved h := by
  rw [storedByRemoved_iff, storedByRemoved_iff, map_mHandle_write]

/-- Writing other members does not change what is found. -/
theorem get_write {v : α} : (m.write i v).get h = m.get h := by
  have hsize : (m.write i v).sizeUshort = m.sizeUshort := by
    rw [sizeUshort, sizeUshort, length_write]
  have hhandle : ∀ j : ℕ, ((m.write i v).mData[j]?).map Entry.mHandle =
      (m.mData[j]?).map Entry.mHandle := by
    intro j
    rw [← List.getElem?_map, ← List.getElem?_map, map_mHandle_write]
  simp only [get, hsize, hhandle]

theorem map_val_write {v : α} :
    (m.write i v).mData.map Entry.val = (m.mData.map Entry.val).set i v := by
  refine List.ext_getElem? fun j => ?_
  rw [List.getElem?_map, getElem?_write, List.getElem?_set, List.getElem?_map]
  by_cases hij : i = j
  · by_cases hlt : j < m.mData.length
    · simp [hij, hlt]
    · simp [hij, hlt]
  · simp [hij]

namespace Inv

theorem lt_of_used (hm : Inv m) (hi : m.mTracker.ids.Used i) : i < m.mData.length := by
  rw [← hm.highest]
  exact hi.1

/-- A marked handle of a removed slot is on the free list without its mark. -/
theorem removed_of_deleted (hm : Inv m) (he : m.mData[i]? = some e)
    (hdel : deletedBit e.mHandle = true) :
    ∃ f ∈ m.mTracker.mFreeIds, Plain f ∧ idOf f = i ∧ e.mHandle = markDeleted f true := by
  cases hm.slot i e he with
  | live hplain _ _ => simp [hplain.not_deleted] at hdel
  | removed f hf hplain hid heq => exact ⟨f, hf, hplain, hid, heq⟩

theorem live_of_not_deleted (hm : Inv m) (he : m.mData[i]? = some e)
    (hdel : deletedBit e.mHandle = false) :
    Plain e.mHandle ∧ idOf e.mHandle = i ∧ m.mTracker.ids.Used i := by
  cases hm.slot i e he with
  | live hplain hid hused => exact ⟨hplain, hid, hused⟩
  | removed f _ hplain _ heq => simp [heq, hplain.deletedBit_mark] at hdel

theorem idOf_slot (hm : Inv m) (he : m.mData[i]? = some e) : idOf e.mHandle = i := by
  cases hm.slot i e he with
  | live _ hid _ => exact hid
  | removed f _ hplain hid heq => rw [heq, hplain.idOf_mark, hid]

/-- The slot of a handle on the free list stores the marked handle. -/
theorem slot_of_free (hm : Inv m) {f : ObjectHandle} (hf : f ∈ m.mTracker.mFreeIds) :
    Plain f ∧ ∃ e, m.mData[idOf f]? = some e ∧ e.mHandle = markDeleted f true := by
  have hmem : idOf f ∈ m.mTracker.ids.free := List.mem_map_of_mem hf
  have hlt : idOf f < m.mData.length := hm.highest ▸ hm.pool.lt _ hmem
  have he : m.mData[idOf f]? = some m.mData[idOf f] := List.getElem?_eq_getElem hlt
  cases hm.slot _ _ he with
  | live _ _ hused => exact absurd hmem hused.2
  | removed f' hf' hplain hid heq =>
      obtain rfl : f' = f := List.inj_on_of_nodup_map hm.pool.nodup hf' hf hid
      exact ⟨hplain, _, he, heq⟩

/-! ### Adding -/

section Add

variable [Inhabited α]

/-- What `add` does: the new entry is put behind the others, or into a slot that was free. -/
theorem add_cases (hm : Inv m) (hroom : m.mTracker.Room) :
    (m.mTracker.mFreeIds = [] ∧ idOf m.mTracker.grantedHandle = m.mData.length ∧
      m.add = { mTracker := m.mTracker.grantHandle
                mData := m.mData ++ [⟨m.mTracker.grantedHandle, default⟩] }) ∨
    (m.mTracker.mFreeIds ≠ [] ∧ idOf m.mTracker.grantedHandle < m.mData.length ∧
      m.add = { mTracker := m.mTracker.grantHandle
                mData := m.mData.set (idOf m.mTracker.grantedHandle)
                  ⟨m.mTracker.grantedHandle, default⟩ }) := by
  have hlt := getHandleID_lt_size hm.length_le m.mTracker.grantedHandle
  have hid := SlotMapTracker.idOf_grantedHandle hroom
  by_cases hf : m.mTracker.mFreeIds = []
  · have hnil : m.mTracker.ids.free = [] := by simp [SlotMapTracker.ids, hf]
    have heq : idOf m.mTracker.grantedHandle = m.mData.length := by
      rw [hid, IdPool.granted_of_nil hnil, ← hm.highest]
      rfl
    refine .inl ⟨hf, heq, ?_⟩
    rw [add, if_neg (by rw [hlt, heq]; exact Nat.lt_irrefl _)]
  · rcases m.mTracker.ids.nil_or_concat with hnil | ⟨l, j, hj⟩
    · exact absurd (List.map_eq_nil_iff.1 hnil) hf
    · have hlt' : idOf m.mTracker.grantedHandle < m.mData.length := by
        rw [hid, IdPool.granted_of_concat hj, ← hm.highest]
        exact hm.pool.lt j (by simp [hj])
      exact .inr ⟨hf, hlt', add_of_lt hm.length_le hlt'⟩

/-- `add` writes the slot of the granted handle and no other. -/
theorem getElem?_add (hm : Inv m) (hroom : m.mTracker.Room) (i : ℕ) :
    m.add.mData[i]? = if i = idOf m.mTracker.grantedHandle
      then some ⟨m.mTracker.grantedHandle, default⟩ else m.mData[i]? := by
  rcases hm.add_cases hroom with ⟨-, hid, hadd⟩ | ⟨-, hid, hadd⟩
  · rw [hadd, hid]
    by_cases hi : i = m.mData.length
    · simp [hi]
    · rw [if_neg hi, List.getElem?_append]
      split
      · rfl
      · next hlt =>
        rw [List.getElem?_eq_none (l := m.mData) (by omega)]
        exact List.getElem?_eq_none (by simp; omega)
  · rw [hadd]
    change (m.mData.set _ _)[i]? = _
    rw [List.getElem?_set]
    by_cases hi : i = idOf m.mTracker.grantedHandle
    · rw [if_pos hi, if_pos hi.symm, if_pos hid]
    · rw [if_neg hi, if_neg (Ne.symm hi)]

theorem addIndex_eq (hm : Inv m) (hroom : m.mTracker.Room) :
    m.addIndex = idOf m.mTracker.grantedHandle := by
  rcases hm.add_cases hroom with ⟨-, hid, -⟩ | ⟨-, hid, -⟩
  · refine Eq.trans (if_neg fun hlt => ?_) hid.symm
    rw [getHandleID_lt_size hm.length_le, hid] at hlt
    exact Nat.lt_irrefl _ hlt
  · exact addIndex_of_lt hm.length_le hid

/-- `add` followed by writing the new entry. -/
theorem add_write_cases (hm : Inv m) (hroom : m.mTracker.Room) (v : α) :
    (m.mTracker.mFreeIds = [] ∧
      (m.add.write m.addIndex v).mData = m.mData ++ [⟨m.mTracker.grantedHandle, v⟩]) ∨
    (m.mTracker.mFreeIds ≠ [] ∧ idOf m.mTracker.grantedHandle < m.mData.length ∧
      (m.add.write m.addIndex v).mData =
        m.mData.set (idOf m.mTracker.grantedHandle) ⟨m.mTracker.grantedHandle, v⟩) := by
  have hnew : m.add.mData[idOf m.mTracker.grantedHandle]? =
      some ⟨m.mTracker.grantedHandle, default⟩ := by rw [hm.getElem?_add hroom, if_pos rfl]
  have hwrite : (m.add.write m.addIndex v).mData =
      m.add.mData.set (idOf m.mTracker.grantedHandle) ⟨m.mTracker.grantedHandle, v⟩ := by
    rw [hm.addIndex_eq hroom]
    exact modify_of_getElem? hnew _
  rcases hm.add_cases hroom with ⟨hf, hid, hadd⟩ | ⟨hf, hid, hadd⟩
  · refine .inl ⟨hf, ?_⟩
    rw [hwrite, hadd, hid, List.set_append_right _ _ (Nat.le_refl _), Nat.sub_self]
    rfl
  · refine .inr ⟨hf, hid, ?_⟩
    rw [hwrite, hadd, List.set_set]

theorem getElem?_add_write (hm : Inv m) (hroom : m.mTracker.Room) (v : α) (i : ℕ) :
    (m.add.write m.addIndex v).mData[i]? = if i = idOf m.mTracker.grantedHandle
      then some ⟨m.mTracker.grantedHandle, v⟩ else m.mData[i]? := by
  rw [getElem?_write, hm.getElem?_add hroom, hm.addIndex_eq hroom]
  by_cases hi : i = idOf m.mTracker.grantedHandle
  · simp [hi]
  · rw [if_neg hi, if_neg hi]
    simp [Ne.symm hi]

theorem length_add (hm : Inv m) (hroom : m.mTracker.Room) :
    m.add.mData.length = m.mTracker.ids.grant.next := by
  rcases hm.add_cases hroom with ⟨hf, -, hadd⟩ | ⟨hf, -, hadd⟩
  · rw [hadd, IdPool.grant_of_nil (by simp [SlotMapTracker.ids, hf]), List.length_append,
      ← hm.highest]
    rfl
  · have hne : m.mTracker.ids.free ≠ [] := by simpa [SlotMapTracker.ids] using hf
    rw [hadd, IdPool.grant, if_neg hne, List.length_set, ← hm.highest]
    rfl

theorem length_add_le (hm : Inv m) (hroom : m.mTracker.Room) : m.add.mData.length ≤ 2 ^ 15 := by
  rcases hm.add_cases hroom with ⟨hf, -, hadd⟩ | ⟨-, -, hadd⟩
  · have hlt := hroom hf
    rw [hm.highest] at hlt
    rw [hadd, List.length_append]
    exact hlt
  · rw [hadd, List.length_set]
    exact hm.length_le

theorem add (hm : Inv m) (hroom : m.mTracker.Room) : Inv m.add := by
  have hids := ids_add (m := m) hroom
  have hgranted := SlotMapTracker.idOf_grantedHandle hroom
  refine ⟨?_, hm.length_add_le hroom, hids ▸ hm.pool.grant, fun i e he => ?_⟩
  · rw [hm.length_add hroom, ← hids]
    rfl
  · rw [hm.getElem?_add hroom] at he
    have hused : ∀ j, m.mTracker.ids.Used j → m.add.mTracker.ids.Used j := fun j hj =>
      hids ▸ hm.pool.used_grant.2 (.inr hj)
    split at he
    · next hi =>
      obtain rfl := Option.some.inj he
      refine .live (SlotMapTracker.plain_grantedHandle _) hi.symm ?_
      rw [hids, hm.pool.used_grant]
      exact .inl (hi.trans hgranted)
    · next hi =>
      cases hm.slot i e he with
      | live hplain hid hu => exact .live hplain hid (hused _ hu)
      | removed f hf hplain hid heq =>
          refine .removed f ?_ hplain hid heq
          exact SlotMapTracker.mem_free_grantHandle hf (hid ▸ hi)

end Add

/-! ### Removing -/

/-- What a successful `remove` was called with: a live entry's handle. -/
theorem live_of_get (hm : Inv m) (hget : m.get h = some i) (hst : ¬m.StoredByRemoved h) :
    i = idOf h ∧ Plain h ∧ m.mTracker.ids.Used i ∧
      ∃ e, m.mData[i]? = some e ∧ e.mHandle = h := by
  obtain ⟨-, hi, e, he, hh⟩ := (get_eq_some hm.length_le).1 hget
  have hdel : deletedBit e.mHandle = false := by
    rw [Bool.eq_false_iff]
    exact fun hdel => hst ⟨e, List.mem_of_getElem? he, hdel, hh⟩
  obtain ⟨hplain, -, hused⟩ := hm.live_of_not_deleted he hdel
  exact ⟨hi, hh ▸ hplain, hused, e, he, hh⟩

theorem remove (hm : Inv m) (hst : ¬m.StoredByRemoved h) : Inv (m.remove h) := by
  cases hget : m.get h with
  | none =>
      rw [remove_of_get_none hget]
      exact hm
  | some i =>
      obtain ⟨hi, -, hused, -⟩ := hm.live_of_get hget hst
      have hids : (m.remove h).mTracker.ids = m.mTracker.ids.release i := by
        simp [remove_of_get_some hget, SlotMapTracker.ids, IdPool.release, hi]
      have hfree : ∀ f, f ∈ (m.remove h).mTracker.mFreeIds ↔
          f ∈ m.mTracker.mFreeIds ∨ f = nextHandle h := by
        simp [remove_of_get_some hget]
      have hlength : (m.remove h).mData.length = m.mData.length := length_remove
      refine ⟨?_, hlength ▸ hm.length_le, hids ▸ hm.pool.release hused, fun j e he => ?_⟩
      · rw [hlength, remove_of_get_some hget]
        exact hm.highest
      · rw [getElem?_remove hget] at he
        split at he
        · next hij =>
          obtain ⟨e', -, rfl⟩ := Option.map_eq_some_iff.1 he
          refine .removed (nextHandle h) ((hfree _).2 (.inr rfl)) (plain_next h) ?_ rfl
          rw [idOf_next, ← hi, hij]
        · next hij =>
          cases hm.slot j e he with
          | live hplain hid hu =>
              refine .live hplain hid ?_
              rw [hids, IdPool.used_release]
              exact ⟨hu, Ne.symm hij⟩
          | removed f hf hplain hid heq => exact .removed f ((hfree f).2 (.inl hf)) hplain hid heq

/-! ### Writing -/

theorem write (hm : Inv m) (i : ℕ) (v : α) : Inv (m.write i v) := by
  have hlength : (m.write i v).mData.length = m.mData.length := length_write
  refine ⟨hlength ▸ hm.highest, hlength ▸ hm.length_le, hm.pool, fun j e he => ?_⟩
  rw [getElem?_write] at he
  obtain ⟨e', he', rfl⟩ := Option.map_eq_some_iff.1 he
  cases hm.slot j e' he' with
  | live hplain hid hused => exact .live hplain hid hused
  | removed f hf hplain hid heq => exact .removed f hf hplain hid heq

end Inv

end SSlotMap

end ServerBase
