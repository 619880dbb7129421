import ServerBase.Lib.IdPool
import ServerBase.Slotmap.Handle

/-!
# The handle tracker

`SlotMapTracker` of `utils/slotmap/SlotMapTracker.h`.

**The pool** (`ids`). Behind the handles a tracker is a pool of ids: the counter, and the ids of the
handles on the free list. While the counter stays below `2 ^ 15` granting and recycling are the
operations of the pool. At `2 ^ 15` the id of the next handle is cut to 15 bits, and the tracker
starts again at id 0.
-/

namespace ServerBase

structure SlotMapTracker where
  mHighestUnrecycledId : Ushort := 0
  mFreeIds : List ObjectHandle := []

namespace SlotMapTracker

/-- `GrantHandle`: the handle. -/
def grantedHandle (t : SlotMapTracker) : ObjectHandle :=
  match t.mFreeIds.getLast? with
  | some handle => nextHandle handle
  | none => makeObjectHandle t.mHighestUnrecycledId 0

/-- `GrantHandle`: what is left. -/
def grantHandle (t : SlotMapTracker) : SlotMapTracker :=
  if t.mFreeIds.isEmpty then { t with mHighestUnrecycledId := t.mHighestUnrecycledId + 1 }
  else { t with mFreeIds := t.mFreeIds.dropLast }

/-- `RecycleHandle` -/
def recycleHandle (t : SlotMapTracker) (id : ObjectHandle) : SlotMapTracker :=
  if id = nullObjectHandle then t else { t with mFreeIds := t.mFreeIds ++ [id] }

/-- A new id can be granted without being cut. -/
def Room (t : SlotMapTracker) : Prop := t.mFreeIds = [] → t.mHighestUnrecycledId.toNat < 2 ^ 15

/-! ## The pool of ids -/

/-- The pool of ids a tracker keeps. -/
def ids (t : SlotMapTracker) : IdPool := ⟨t.mHighestUnrecycledId.toNat, t.mFreeIds.map idOf⟩

variable {t : SlotMapTracker}

/-- The two ways a tracker can look like before a grant. -/
theorem nil_or_concat (t : SlotMapTracker) :
    t.mFreeIds = [] ∨ ∃ l handle, t.mFreeIds = l ++ [handle] :=
  (List.eq_nil_or_concat t.mFreeIds).imp_right fun ⟨l, i, h⟩ => ⟨l, i, by simpa using h⟩

theorem grantedHandle_of_nil (h : t.mFreeIds = []) :
    t.grantedHandle = makeObjectHandle t.mHighestUnrecycledId 0 := by
  simp [grantedHandle, h]

theorem grantHandle_of_nil (h : t.mFreeIds = []) :
    t.grantHandle = { t with mHighestUnrecycledId := t.mHighestUnrecycledId + 1 } := by
  simp [grantHandle, h]

theorem grantedHandle_of_concat {l : List ObjectHandle} {handle : ObjectHandle}
    (h : t.mFreeIds = l ++ [handle]) : t.grantedHandle = nextHandle handle := by
  simp [grantedHandle, h]

theorem grantHandle_of_concat {l : List ObjectHandle} {handle : ObjectHandle}
    (h : t.mFreeIds = l ++ [handle]) : t.grantHandle = { t with mFreeIds := l } := by
  simp [grantHandle, h]

theorem plain_grantedHandle (t : SlotMapTracker) : Plain t.grantedHandle := by
  rcases t.nil_or_concat with h | ⟨l, handle, h⟩
  · rw [grantedHandle_of_nil h]
    exact plain_make _ _
  · rw [grantedHandle_of_concat h]
    exact plain_next _

/-- A grant takes no handle for another slot off the free list. -/
theorem mem_free_grantHandle {handle : ObjectHandle} (h : handle ∈ t.mFreeIds)
    (hid : idOf handle ≠ idOf t.grantedHandle) : handle ∈ t.grantHandle.mFreeIds := by
  rcases t.nil_or_concat with hf | ⟨l, last, hf⟩
  · simp [hf] at h
  · rw [grantedHandle_of_concat hf, idOf_next] at hid
    rw [grantHandle_of_concat hf]
    rcases List.mem_append.1 (hf ▸ h) with h | h
    · exact h
    · exact absurd (congrArg idOf (List.mem_singleton.1 h)) hid

theorem mFreeIds_grantHandle_subset {handle : ObjectHandle} (h : handle ∈ t.grantHandle.mFreeIds) :
    handle ∈ t.mFreeIds := by
  rcases t.nil_or_concat with hf | ⟨l, last, hf⟩
  · simpa [grantHandle_of_nil hf] using h
  · rw [grantHandle_of_concat hf] at h
    exact hf ▸ List.mem_append_left _ h

theorem idOf_grantedHandle (hroom : t.Room) : idOf t.grantedHandle = t.ids.granted := by
  rcases t.nil_or_concat with h | ⟨l, handle, h⟩
  · rw [grantedHandle_of_nil h, idOf_make, IdPool.granted_of_nil (by simp [ids, h])]
    exact Nat.mod_eq_of_lt (hroom h)
  · have hids : t.ids.free = l.map idOf ++ [idOf handle] := by simp [ids, h]
    rw [grantedHandle_of_concat h, idOf_next, IdPool.granted_of_concat hids]

theorem ids_grantHandle (hroom : t.Room) : t.grantHandle.ids = t.ids.grant := by
  rcases t.nil_or_concat with h | ⟨l, handle, h⟩
  · have hlt := hroom h
    rw [grantHandle_of_nil h, IdPool.grant_of_nil (by simp [ids, h]), ids, h, BitVec.toNat_add]
    refine congrArg (IdPool.mk · []) ?_
    change (t.mHighestUnrecycledId.toNat + 1) % 2 ^ 16 = t.mHighestUnrecycledId.toNat + 1
    omega
  · have hids : t.ids.free = l.map idOf ++ [idOf handle] := by simp [ids, h]
    rw [grantHandle_of_concat h, IdPool.grant_of_concat hids]
    rfl

theorem ids_recycleHandle {id : ObjectHandle} (hid : id ≠ nullObjectHandle) :
    (t.recycleHandle id).ids = t.ids.release (idOf id) := by
  simp [recycleHandle, hid, ids, IdPool.release]

end SlotMapTracker

end ServerBase
