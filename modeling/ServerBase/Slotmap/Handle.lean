import Mathlib.Algebra.Group.Nat.Defs

/-!
# Object handles

`ObjectHandle` of `utils/prereqs.h` and the functions of `utils/slotmap/SlotMap.cpp` that pack and
unpack it: bits 0 to 14 are the id of a slot, bits 15 to 29 its version, bit 30 says that it is
deleted.

**Arithmetic** (`toNat_getHandleID` and the lemmas beside it). What each function does to the
number a handle stands for; the modules on the slot maps use these and no masks.
-/

namespace ServerBase

/-- `ObjectHandle`, an `int`. -/
abbrev ObjectHandle := BitVec 32

instance : LawfulBEq ObjectHandle := inferInstance

abbrev Ushort := BitVec 16

/-- `NULL_OBJECTHANDLE` -/
def nullObjectHandle : ObjectHandle := -1

/-- `HANDLE_ID_BITS` -/
abbrev handleIdBits : Nat := 15

/-- `HANDLE_VERSION_BITS` -/
abbrev handleVersionBits : Nat := 15

/-- `HANDLE_ID_MASK` -/
def handleIdMask : ObjectHandle := ((1 : ObjectHandle) <<< handleIdBits) - 1

/-- `HANDLE_VERSION_MASK` -/
def handleVersionMask : ObjectHandle := ((1 : ObjectHandle) <<< handleVersionBits) - 1

/-- The mask of the deleted bit, `1 << (HANDLE_ID_BITS + HANDLE_VERSION_BITS)`. -/
def handleDeletedMask : ObjectHandle := (1 : ObjectHandle) <<< (handleIdBits + handleVersionBits)

/-- `GetHandleID` -/
def getHandleID (handle : ObjectHandle) : Ushort := (handle &&& handleIdMask).setWidth 16

/-- `GetRecycleVersion`; `>>` on an `int` keeps the sign. -/
def getRecycleVersion (handle : ObjectHandle) : Ushort :=
  (handle.sshiftRight handleIdBits &&& handleVersionMask).setWidth 16

/-- `DeletedBit` -/
def deletedBit (handle : ObjectHandle) : Bool :=
  (handle.sshiftRight (handleIdBits + handleVersionBits) &&& 1) != 0

/-- `MarkDeleted` -/
def markDeleted (handle : ObjectHandle) (del : Bool) : ObjectHandle :=
  if del then handle ||| handleDeletedMask else handle &&& (handleDeletedMask - 1)

/-- `Make_ObjectHandle` -/
def makeObjectHandle (id recycleVer : Ushort) : ObjectHandle :=
  let idPortion := id.setWidth 32 &&& handleIdMask
  let recyclePortion := (recycleVer.setWidth 32 &&& handleVersionMask) <<< handleIdBits
  recyclePortion ||| idPortion

/-! ## Arithmetic -/

variable (h : ObjectHandle) (id ver : Ushort)

theorem toNat_getHandleID : (getHandleID h).toNat = h.toNat % 2 ^ 15 := by
  have hmask : handleIdMask.toNat = 2 ^ 15 - 1 := by decide
  rw [getHandleID, BitVec.toNat_setWidth, BitVec.toNat_and, hmask, Nat.and_two_pow_sub_one_eq_mod]
  omega

/-- Under a mask the sign does not matter. -/
theorem sshiftRight_and {m : ObjectHandle} {k n : Nat} (hm : m.toNat < 2 ^ n) (hk : k + n ≤ 32) :
    h.sshiftRight k &&& m = h >>> k &&& m := by
  refine BitVec.eq_of_getLsbD_eq fun i hi => ?_
  rw [BitVec.getLsbD_and, BitVec.getLsbD_and, BitVec.getLsbD_sshiftRight,
    BitVec.getLsbD_ushiftRight]
  by_cases hin : i < n
  · simp [show ¬32 ≤ i by omega, show k + i < 32 by omega]
  · have hbit : m.getLsbD i = false := by
      rw [BitVec.getLsbD, Nat.testBit_lt_two_pow]
      exact Nat.lt_of_lt_of_le hm (Nat.pow_le_pow_right (by decide) (by omega))
    simp [hbit]

theorem toNat_getRecycleVersion : (getRecycleVersion h).toNat = h.toNat / 2 ^ 15 % 2 ^ 15 := by
  have hmask : handleVersionMask.toNat = 2 ^ 15 - 1 := by decide
  have hshift : h.sshiftRight 15 &&& handleVersionMask = h >>> 15 &&& handleVersionMask :=
    sshiftRight_and (n := 15) h (by decide) (by decide)
  rw [getRecycleVersion, hshift, BitVec.toNat_setWidth, BitVec.toNat_and, hmask,
    BitVec.toNat_ushiftRight, Nat.shiftRight_eq_div_pow, Nat.and_two_pow_sub_one_eq_mod]
  omega

theorem deletedBit_iff : deletedBit h = true ↔ h.toNat / 2 ^ 30 % 2 = 1 := by
  have hshift : h.sshiftRight (handleIdBits + handleVersionBits) &&& (1 : ObjectHandle) =
      h >>> (30 : Nat) &&& (1 : ObjectHandle) :=
    sshiftRight_and (n := 1) h (by decide) (by decide)
  have hone : (h >>> (30 : Nat) &&& (1 : ObjectHandle)).toNat = h.toNat / 2 ^ 30 % 2 := by
    rw [BitVec.toNat_and, BitVec.toNat_ushiftRight, Nat.shiftRight_eq_div_pow]
    exact Nat.and_one_is_mod _
  have hzero : (0 : ObjectHandle).toNat = 0 := rfl
  rw [deletedBit, hshift, bne_iff_ne, ne_eq, ← BitVec.toNat_inj, hone, hzero]
  omega

theorem toNat_makeObjectHandle :
    (makeObjectHandle id ver).toNat = ver.toNat % 2 ^ 15 * 2 ^ 15 + id.toNat % 2 ^ 15 := by
  have hmask : handleIdMask.toNat = 2 ^ 15 - 1 := by decide
  have hmask' : handleVersionMask.toNat = 2 ^ 15 - 1 := by decide
  have hid : (id.setWidth 32 &&& handleIdMask).toNat = id.toNat % 2 ^ 15 := by
    rw [BitVec.toNat_and, hmask, Nat.and_two_pow_sub_one_eq_mod, BitVec.toNat_setWidth]
    omega
  have hver : (ver.setWidth 32 &&& handleVersionMask).toNat = ver.toNat % 2 ^ 15 := by
    rw [BitVec.toNat_and, hmask', Nat.and_two_pow_sub_one_eq_mod, BitVec.toNat_setWidth]
    omega
  have hlt : ver.toNat % 2 ^ 15 * 2 ^ 15 < 2 ^ 32 := by omega
  rw [makeObjectHandle, BitVec.toNat_or, BitVec.toNat_shiftLeft, hver, hid,
    Nat.shiftLeft_eq, Nat.mod_eq_of_lt hlt, Nat.mul_comm,
    ← Nat.two_pow_add_eq_or_of_lt (Nat.mod_lt _ (by decide))]

theorem toNat_markDeleted (hh : h.toNat < 2 ^ 30) :
    (markDeleted h true).toNat = h.toNat + 2 ^ 30 := by
  have hbit : handleDeletedMask.toNat = 2 ^ 30 * 1 := by decide
  rw [markDeleted, if_pos rfl, BitVec.toNat_or, hbit, Nat.or_comm,
    ← Nat.two_pow_add_eq_or_of_lt hh]
  omega

theorem toNat_unmarkDeleted : (markDeleted h false).toNat = h.toNat % 2 ^ 30 := by
  have hmask : (handleDeletedMask - 1).toNat = 2 ^ 30 - 1 := by decide
  rw [markDeleted, if_neg (by decide), BitVec.toNat_and, hmask, Nat.and_two_pow_sub_one_eq_mod]

/-! ## The parts of a handle as numbers -/

/-- The slot a handle is for. -/
def idOf (h : ObjectHandle) : ℕ := (getHandleID h).toNat

def versionOf (h : ObjectHandle) : ℕ := (getRecycleVersion h).toNat

theorem idOf_eq : idOf h = h.toNat % 2 ^ 15 := toNat_getHandleID h

theorem versionOf_eq : versionOf h = h.toNat / 2 ^ 15 % 2 ^ 15 := toNat_getRecycleVersion h

theorem idOf_lt : idOf h < 2 ^ 15 := by
  rw [idOf_eq]
  exact Nat.mod_lt _ (by decide)

theorem versionOf_lt : versionOf h < 2 ^ 15 := by
  rw [versionOf_eq]
  exact Nat.mod_lt _ (by decide)

@[simp] theorem idOf_make : idOf (makeObjectHandle id ver) = id.toNat % 2 ^ 15 := by
  rw [idOf_eq, toNat_makeObjectHandle]
  omega

@[simp] theorem versionOf_make : versionOf (makeObjectHandle id ver) = ver.toNat % 2 ^ 15 := by
  rw [versionOf_eq, toNat_makeObjectHandle]
  omega

/-- `Make_ObjectHandle(GetHandleID(h), GetRecycleVersion(h) + 1)` -/
def nextHandle : ObjectHandle := makeObjectHandle (getHandleID h) (getRecycleVersion h + 1)

@[simp] theorem idOf_next : idOf (nextHandle h) = idOf h := by
  have := idOf_lt h
  rw [nextHandle, idOf_make]
  exact Nat.mod_eq_of_lt this

@[simp] theorem versionOf_next : versionOf (nextHandle h) = (versionOf h + 1) % 2 ^ 15 := by
  have hlt : versionOf h < 2 ^ 15 := versionOf_lt h
  rw [nextHandle, versionOf_make, BitVec.toNat_add]
  change (versionOf h + 1) % 2 ^ 16 % 2 ^ 15 = _
  omega

/-- A handle as `makeObjectHandle` makes them: neither marked as deleted nor negative. -/
def Plain (h : ObjectHandle) : Prop := h.toNat < 2 ^ 30

instance : Decidable (Plain h) := Nat.decLt _ _

theorem plain_make : Plain (makeObjectHandle id ver) := by
  rw [Plain, toNat_makeObjectHandle]
  omega

theorem plain_next : Plain (nextHandle h) := plain_make _ _

variable {h} {h' : ObjectHandle}

theorem Plain.ne_null (hh : Plain h) : h ≠ nullObjectHandle := by
  intro he
  rw [he] at hh
  exact absurd hh (by decide)

theorem Plain.not_deleted (hh : Plain h) : deletedBit h = false := by
  rw [Bool.eq_false_iff, ne_eq, deletedBit_iff]
  have : h.toNat < 2 ^ 30 := hh
  omega

/-- A plain handle is its id and its version. -/
theorem Plain.ext (hh : Plain h) (hh' : Plain h') (hid : idOf h = idOf h')
    (hver : versionOf h = versionOf h') : h = h' := by
  rw [idOf_eq, idOf_eq] at hid
  rw [versionOf_eq, versionOf_eq] at hver
  have : h.toNat < 2 ^ 30 := hh
  have : h'.toNat < 2 ^ 30 := hh'
  refine BitVec.eq_of_toNat_eq ?_
  omega

theorem Plain.deletedBit_mark (hh : Plain h) : deletedBit (markDeleted h true) = true := by
  have : h.toNat < 2 ^ 30 := hh
  rw [deletedBit_iff, toNat_markDeleted h hh]
  omega

@[simp] theorem Plain.idOf_mark (hh : Plain h) : idOf (markDeleted h true) = idOf h := by
  rw [idOf_eq, idOf_eq, toNat_markDeleted h hh]
  omega

/-- Clearing the mark gives the handle back. -/
theorem Plain.unmark_mark (hh : Plain h) : markDeleted (markDeleted h true) false = h := by
  have hlt : h.toNat < 2 ^ 30 := hh
  refine BitVec.eq_of_toNat_eq ?_
  rw [toNat_unmarkDeleted, toNat_markDeleted h hh]
  omega

end ServerBase
