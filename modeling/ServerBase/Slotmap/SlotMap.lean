import Mathlib.Logic.Function.Basic
import ServerBase.Lib.Machine
import ServerBase.Slotmap.SlotMapTracker

/-!
# Handles for objects that live elsewhere

`SlotMap` of `utils/slotmap/SlotMap.h`: a tracker and a hash from handles to pointers.

**Callers** (`Use`). Beside the map stands what its callers know: which object each handle was
granted or occupied for.

**Conditions.** `Allowed` is what a caller has to respect. `OccupiesUnused` is one thing more:
`OccupyHandle` is only called with an id that no mapped handle has and that is not on the free list.
`OccupyHandle` checks neither: it leaves the id where it is, so that a later `GrantHandle` can
come to the very handle that was occupied.

**Fresh grants** (`grantHandle_fresh`). When both are respected, a granted handle was not mapped,
and every handle resolves to its own object.
-/

namespace ServerBase

/-- `std::unordered_map::insert`: a key that is there keeps its value. -/
def insertKey {V : Type*} (m : ObjectHandle → Option V) (k : ObjectHandle) (v : V) :
    ObjectHandle → Option V :=
  if (m k).isSome then m else Function.update m k (some v)

/-- The objects are pointers of type `Option α`, the null pointer being `none`. -/
structure SlotMap (α : Type*) where
  mTracker : SlotMapTracker := {}
  mObjectIdHash : ObjectHandle → Option (Option α) := fun _ => none

namespace SlotMap

variable {α : Type*}

/-- `ReserveId` -/
def reserveId (m : SlotMap α) (id : Ushort) : SlotMap α :=
  if m.mTracker.mHighestUnrecycledId ≤ id then
    { m with mTracker := { m.mTracker with mHighestUnrecycledId := id + 1 } }
  else m

/-- `ReserveHandle` -/
def reserveHandle (m : SlotMap α) (handle : ObjectHandle) : SlotMap α :=
  m.reserveId (getHandleID handle)

/-- `OccupyHandle`; that the handle is in use is only printed. -/
def occupyHandle (m : SlotMap α) (handle : ObjectHandle) (obj : Option α) : SlotMap α :=
  let m := m.reserveId (getHandleID handle)
  { m with mObjectIdHash := insertKey m.mObjectIdHash handle obj }

/-- `GrantHandle`; the handle it returns is `mTracker.grantedHandle`. -/
def grantHandle (m : SlotMap α) (obj : Option α) : SlotMap α :=
  { mTracker := m.mTracker.grantHandle
    mObjectIdHash := insertKey m.mObjectIdHash m.mTracker.grantedHandle obj }

/-- `RecycleHandle` -/
def recycleHandle (m : SlotMap α) (id : ObjectHandle) : SlotMap α :=
  if id = nullObjectHandle then m
  else { mTracker := m.mTracker.recycleHandle id
         mObjectIdHash := Function.update m.mObjectIdHash id none }

/-- `GetObjectByHandle` -/
def getObjectByHandle (m : SlotMap α) (id : ObjectHandle) : Option α :=
  if id = nullObjectHandle then none else (m.mObjectIdHash id).join

/-- The handle is a key of the hash. -/
def Mapped (m : SlotMap α) (h : ObjectHandle) : Prop := (m.mObjectIdHash h).isSome

instance (m : SlotMap α) (h : ObjectHandle) : Decidable (m.Mapped h) :=
  inferInstanceAs (Decidable (_ = true))

/-! ## Callers -/

inductive Op (α : Type*)
  | grantHandle (obj : Option α)
  | occupyHandle (handle : ObjectHandle) (obj : Option α)
  | reserveHandle (handle : ObjectHandle)
  | reserveId (id : Ushort)
  | recycleHandle (id : ObjectHandle)
  | reset

/-- A map and the object each handle is for. -/
structure Use (α : Type*) where
  map : SlotMap α := {}
  own : ObjectHandle → Option (Option α) := fun _ => none

/-- One call. -/
def Use.step (s : Use α) : Op α → Use α
  | .grantHandle obj =>
      { map := s.map.grantHandle obj
        own := Function.update s.own s.map.mTracker.grantedHandle (some obj) }
  | .occupyHandle handle obj =>
      { map := s.map.occupyHandle handle obj
        own := Function.update s.own handle (some obj) }
  | .reserveHandle handle => { s with map := s.map.reserveHandle handle }
  | .reserveId id => { s with map := s.map.reserveId id }
  | .recycleHandle id =>
      { map := s.map.recycleHandle id, own := Function.update s.own id none }
  | .reset => {}

/-- The runs of a map. -/
def uses (α : Type*) : Machine (Use α) (Op α) where
  init s := s = {}
  step s op := some (s.step op)

/-- The largest id a caller may use, plus one. -/
def idLimit : ℕ := 2 ^ 15 - 1

/-- What a caller has to respect. -/
def Allowed (s : Use α) : Op α → Prop
  | .grantHandle _ => s.map.mTracker.mFreeIds = [] →
      s.map.mTracker.mHighestUnrecycledId.toNat < idLimit
  | .occupyHandle handle _ => ¬s.map.Mapped handle ∧ idOf handle < idLimit
  | .reserveHandle _ => True
  | .reserveId id => id.toNat < 2 ^ 15
  | .recycleHandle id => s.map.Mapped id
  | .reset => True

/-- `OccupyHandle` is called with an id that is neither mapped nor on the free list. -/
def OccupiesUnused (s : Use α) : Op α → Prop
  | .occupyHandle handle _ =>
      (∀ h, s.map.Mapped h → idOf h ≠ idOf handle) ∧
        ∀ h ∈ s.map.mTracker.mFreeIds, idOf h ≠ idOf handle
  | _ => True

/-- Both conditions. -/
def Careful (s : Use α) (op : Op α) : Prop := Allowed s op ∧ OccupiesUnused s op

/-! ## The invariant -/

structure Inv (s : Use α) : Prop where
  pool : s.map.mTracker.ids.Valid
  used : ∀ h, s.map.Mapped h → s.map.mTracker.ids.Used (idOf h)
  distinct : ∀ h h', s.map.Mapped h → s.map.Mapped h' → idOf h = idOf h' → h = h'
  notNull : ¬s.map.Mapped nullObjectHandle
  own : s.own = s.map.mObjectIdHash

variable {s : Use α} {m : SlotMap α} {h handle : ObjectHandle} {obj : Option α} {id : Ushort}

theorem room_of_allowed (hok : Allowed s (.grantHandle obj)) : s.map.mTracker.Room :=
  fun hfree => Nat.lt_of_lt_of_le (hok hfree) (by decide)

theorem insertKey_of_not_mapped (hm : ¬m.Mapped h) :
    insertKey m.mObjectIdHash h obj = Function.update m.mObjectIdHash h (some obj) :=
  if_neg hm

theorem ids_reserveId (hid : id.toNat < 2 ^ 15) :
    (m.reserveId id).mTracker.ids = m.mTracker.ids.reserve id.toNat := by
  rw [reserveId, IdPool.reserve]
  by_cases hle : m.mTracker.mHighestUnrecycledId ≤ id
  · have hle' : m.mTracker.ids.next ≤ id.toNat := hle
    have hsucc : (id + 1).toNat = id.toNat + 1 := by
      rw [BitVec.toNat_add]
      change (id.toNat + 1) % 2 ^ 16 = _
      omega
    rw [if_pos hle, if_pos hle', SlotMapTracker.ids, hsucc]
    rfl
  · have hle' : ¬m.mTracker.ids.next ≤ id.toNat := hle
    rw [if_neg hle, if_neg hle']

@[simp] theorem mObjectIdHash_reserveId : (m.reserveId id).mObjectIdHash = m.mObjectIdHash := by
  unfold reserveId
  split <;> rfl

/-- Reserving an id keeps the invariant. -/
theorem Inv.reserveId (hs : Inv s) (hid : id.toNat < 2 ^ 15) :
    Inv { s with map := s.map.reserveId id } := by
  have hmapped : ∀ h, (s.map.reserveId id).Mapped h ↔ s.map.Mapped h := by simp [Mapped]
  constructor
  · change (s.map.reserveId id).mTracker.ids.Valid
    rw [ids_reserveId hid]
    exact hs.pool.reserve
  · intro h hm
    change (s.map.reserveId id).mTracker.ids.Used _
    rw [ids_reserveId hid]
    exact (hs.used h ((hmapped h).1 hm)).reserve
  · exact fun h h' hm hm' => hs.distinct h h' ((hmapped h).1 hm) ((hmapped h').1 hm')
  · exact fun hm => hs.notNull ((hmapped _).1 hm)
  · exact hs.own.trans mObjectIdHash_reserveId.symm

/-- A new handle whose id no mapped handle has keeps the invariant. -/
theorem Inv.insert (hs : Inv s) {t : SlotMapTracker} (ht : t.ids.Valid)
    (hold : ∀ j, s.map.mTracker.ids.Used j → t.ids.Used j) (hnew : t.ids.Used (idOf handle))
    (hne : ∀ h, s.map.Mapped h → idOf h ≠ idOf handle) (hnull : handle ≠ nullObjectHandle) :
    Inv { map := { mTracker := t, mObjectIdHash := insertKey s.map.mObjectIdHash handle obj }
          own := Function.update s.own handle (some obj) } := by
  have hins : insertKey s.map.mObjectIdHash handle obj =
      Function.update s.map.mObjectIdHash handle (some obj) :=
    insertKey_of_not_mapped fun hm => hne handle hm rfl
  have hmapped : ∀ h, SlotMap.Mapped
      { mTracker := t, mObjectIdHash := insertKey s.map.mObjectIdHash handle obj } h ↔
        h = handle ∨ s.map.Mapped h := by
    intro h
    by_cases hh : h = handle
    · simp [Mapped, hins, hh]
    · simp [Mapped, hins, hh]
  constructor
  · exact ht
  · intro h hm
    rcases (hmapped h).1 hm with rfl | hm
    · exact hnew
    · exact hold _ (hs.used h hm)
  · intro h h' hm hm' hid
    rcases (hmapped h).1 hm with he | hold <;> rcases (hmapped h').1 hm' with he' | hold'
    · exact he.trans he'.symm
    · exact absurd (he ▸ hid.symm) (hne h' hold')
    · exact absurd (he' ▸ hid) (hne h hold)
    · exact hs.distinct h h' hold hold' hid
  · intro hm
    rcases (hmapped _).1 hm with he | hm
    · exact hnull he.symm
    · exact hs.notNull hm
  · change Function.update s.own handle (some obj) = insertKey s.map.mObjectIdHash handle obj
    rw [hins, hs.own]

/-- No mapped handle has the id that is granted next. -/
theorem Inv.grantedId (hs : Inv s) (hroom : s.map.mTracker.Room) (hm : s.map.Mapped h) :
    idOf h ≠ idOf s.map.mTracker.grantedHandle := by
  intro hid
  refine IdPool.not_used_granted (p := s.map.mTracker.ids) ?_
  rw [← SlotMapTracker.idOf_grantedHandle hroom, ← hid]
  exact hs.used h hm

theorem Inv.grantHandle (hs : Inv s) (hok : Allowed s (.grantHandle obj)) :
    Inv (s.step (.grantHandle obj)) := by
  have hroom := room_of_allowed hok
  have hids := SlotMapTracker.ids_grantHandle hroom
  refine hs.insert (hids ▸ hs.pool.grant) ?_ ?_ (fun _ => hs.grantedId hroom)
    (SlotMapTracker.plain_grantedHandle _).ne_null
  · intro j hj
    rw [hids]
    exact hs.pool.used_grant.2 (.inr hj)
  · rw [hids]
    exact hs.pool.used_grant.2 (.inl (SlotMapTracker.idOf_grantedHandle hroom))

theorem Inv.occupyHandle (hs : Inv s) (hok : Allowed s (.occupyHandle handle obj))
    (hun : OccupiesUnused s (.occupyHandle handle obj)) :
    Inv (s.step (.occupyHandle handle obj)) := by
  have hid : (getHandleID handle).toNat < 2 ^ 15 := idOf_lt handle
  have hids := ids_reserveId (m := s.map) hid
  have hnotFree : idOf handle ∉ s.map.mTracker.ids.free := by
    intro hmem
    obtain ⟨h, hh, he⟩ := List.mem_map.1 hmem
    exact hun.2 h hh he
  have hnull : handle ≠ nullObjectHandle := by
    rintro rfl
    exact absurd hok.2 (by decide)
  have hreserved := hs.reserveId hid
  have hins := @Inv.insert _ _ handle obj hreserved (s.map.reserveId (getHandleID handle)).mTracker
    (hids ▸ hs.pool.reserve) (fun _ hj => hj) (hids ▸ IdPool.used_reserve_self hnotFree)
    (fun h hm => hun.1 h (by simpa [Mapped] using hm)) hnull
  exact hins

theorem Inv.recycleHandle (hs : Inv s) (hm : s.map.Mapped handle) :
    Inv (s.step (.recycleHandle handle)) := by
  have hnull : handle ≠ nullObjectHandle := by
    rintro rfl
    exact hs.notNull hm
  have hids := SlotMapTracker.ids_recycleHandle (t := s.map.mTracker) hnull
  have hmap : s.map.recycleHandle handle =
      { mTracker := s.map.mTracker.recycleHandle handle
        mObjectIdHash := Function.update s.map.mObjectIdHash handle none } := if_neg hnull
  have hmapped : ∀ h, (s.map.recycleHandle handle).Mapped h ↔ h ≠ handle ∧ s.map.Mapped h := by
    intro h
    by_cases hh : h = handle
    · simp [Mapped, hmap, hh]
    · simp [Mapped, hmap, hh]
  constructor
  · change (s.map.recycleHandle handle).mTracker.ids.Valid
    rw [hmap, hids]
    exact hs.pool.release (hs.used handle hm)
  · intro h hm'
    obtain ⟨hne, hm'⟩ := (hmapped h).1 hm'
    change (s.map.recycleHandle handle).mTracker.ids.Used _
    rw [hmap, hids]
    exact IdPool.used_release.2 ⟨hs.used h hm', fun hid => hne (hs.distinct h handle hm' hm hid)⟩
  · intro h h' hh hh' hid
    exact hs.distinct h h' ((hmapped h).1 hh).2 ((hmapped h').1 hh').2 hid
  · exact fun hh => hs.notNull ((hmapped _).1 hh).2
  · change Function.update s.own handle none = (s.map.recycleHandle handle).mObjectIdHash
    rw [hmap, hs.own]

theorem inv_init : Inv ({} : Use α) := by
  constructor
  · exact IdPool.valid_empty
  · simp [Mapped]
  · simp [Mapped]
  · simp [Mapped]
  · rfl

/-- Every call that respects both conditions keeps the invariant. -/
theorem Inv.step (hs : Inv s) {op : Op α} (hok : Allowed s op) (hun : OccupiesUnused s op) :
    Inv (s.step op) := by
  cases op with
  | grantHandle obj => exact hs.grantHandle hok
  | occupyHandle handle obj => exact hs.occupyHandle hok hun
  | reserveHandle handle => exact hs.reserveId (idOf_lt handle)
  | reserveId id => exact hs.reserveId hok
  | recycleHandle id => exact hs.recycleHandle hok
  | reset => exact inv_init

theorem inv_run (hs : (uses α).Run Careful s) :
    Inv s := by
  refine hs.invariant (fun s hinit => ?_) fun s op s' hinv hok hstep => ?_
  · exact hinit ▸ inv_init
  · cases hstep
    exact hinv.step hok.1 hok.2

/-! ## Fresh grants -/

theorem getObjectByHandle_eq (hs : Inv s) : s.map.getObjectByHandle h = (s.own h).join := by
  rw [getObjectByHandle, hs.own]
  split
  · next hnull =>
    have hnone : s.map.mObjectIdHash nullObjectHandle = none := by
      simpa [Mapped] using hs.notNull
    rw [hnull, hnone]
    rfl
  · rfl

/-- **Grants are fresh.** In every run in which `OccupyHandle` is only called with unused ids, a
granted handle was not mapped, resolves to the object it was granted for, and every handle that was
mapped still resolves to its own object. -/
theorem grantHandle_fresh (hs : (uses α).Run Careful s) (obj : Option α)
    (hok : Allowed s (.grantHandle obj)) :
    ¬s.map.Mapped s.map.mTracker.grantedHandle ∧
      (s.map.grantHandle obj).getObjectByHandle s.map.mTracker.grantedHandle = obj ∧
      ∀ h, s.map.Mapped h → (s.map.grantHandle obj).getObjectByHandle h = (s.own h).join := by
  have hinv := inv_run hs
  have hfresh : ¬s.map.Mapped s.map.mTracker.grantedHandle :=
    fun hm => hinv.grantedId (room_of_allowed hok) hm rfl
  have hafter := fun h => getObjectByHandle_eq (h := h) (hinv.grantHandle hok)
  refine ⟨hfresh, ?_, ?_⟩
  · refine (hafter _).trans ?_
    simp [Use.step]
  · intro h hm
    have hne : h ≠ s.map.mTracker.grantedHandle := fun he => hfresh (he ▸ hm)
    refine (hafter h).trans ?_
    simp [Use.step, hne]

/-- Handle 0 is granted for the object 1 and recycled. -/
def recycledOnce : Use ℕ := (Use.step {} (.grantHandle (some 1))).step (.recycleHandle 0)

/-- Then `handle` is occupied for the object 2. -/
def thenOccupied (handle : ObjectHandle) : Use ℕ :=
  recycledOnce.step (.occupyHandle handle (some 2))

theorem recycledOnce_run : (uses ℕ).Run Careful recycledOnce := by
  have hgrant : Allowed {} (Op.grantHandle (some 1)) := fun _ => by decide
  have hrecycle : Allowed (Use.step {} (.grantHandle (some 1))) (.recycleHandle 0) := by
    change SlotMap.Mapped _ 0
    decide
  have hfirst : (uses ℕ).Run Careful (Use.step {} (.grantHandle (some 1))) :=
    .step (.init rfl) ⟨hgrant, trivial⟩ rfl
  exact hfirst.step ⟨hrecycle, trivial⟩ rfl

theorem recycledOnce_not_mapped (h : ObjectHandle) : ¬recycledOnce.map.Mapped h := by
  have hhash : recycledOnce.map.mObjectIdHash =
      Function.update (insertKey (fun _ => none) 0 (some 1)) 0 none := rfl
  rw [Mapped, hhash]
  by_cases hh : h = 0 <;> simp [insertKey, hh]

theorem thenOccupied_allowed {handle : ObjectHandle} (hid : idOf handle < idLimit) :
    Allowed recycledOnce (.occupyHandle handle (some 2)) :=
  ⟨recycledOnce_not_mapped handle, hid⟩

theorem thenOccupied_unused {handle : ObjectHandle} (hid : idOf handle ≠ 0) :
    OccupiesUnused recycledOnce (.occupyHandle handle (some 2)) := by
  refine ⟨fun h hm => absurd hm (recycledOnce_not_mapped h), fun h hm => ?_⟩
  obtain rfl : h = 0 := List.mem_singleton.1 hm
  exact fun he => hid (he ▸ by decide)

theorem grantHandle_fresh_five :
    ¬(thenOccupied 5).map.Mapped (thenOccupied 5).map.mTracker.grantedHandle ∧
      ((thenOccupied 5).map.grantHandle (some 3)).getObjectByHandle
        (thenOccupied 5).map.mTracker.grantedHandle = some 3 ∧
      ∀ h, (thenOccupied 5).map.Mapped h →
        ((thenOccupied 5).map.grantHandle (some 3)).getObjectByHandle h =
          ((thenOccupied 5).own h).join :=
  grantHandle_fresh
    (recycledOnce_run.step ⟨thenOccupied_allowed (by decide), thenOccupied_unused (by decide)⟩ rfl)
    (some 3) fun _ => by decide

/-- Without the condition on `OccupyHandle` the next grant returns the occupied handle: here the
recycled id 0 is occupied with the version the next grant gives it. -/
theorem grantHandle_not_fresh :
    ¬∀ s, (uses ℕ).Run Allowed s → ∀ obj, Allowed s (.grantHandle obj) →
      ¬s.map.Mapped s.map.mTracker.grantedHandle ∧
        (s.map.grantHandle obj).getObjectByHandle s.map.mTracker.grantedHandle = obj ∧
        ∀ h, s.map.Mapped h → (s.map.grantHandle obj).getObjectByHandle h = (s.own h).join := by
  intro hall
  have hrun : (uses ℕ).Run Allowed (thenOccupied (makeObjectHandle 0 1)) :=
    (recycledOnce_run.mono fun _ _ hok => hok.1).step (thenOccupied_allowed (by decide)) rfl
  exact (hall _ hrun (some 3) fun _ => by decide).1 (by decide)

end SlotMap

end ServerBase
