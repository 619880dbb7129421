import ServerBase.Slotmap.LiveEntries

/-!
# The representation of a slot map

**The invariant** (`represents`). In every run in which `remove` gets handles that `add` has
returned, live or stale, the vector, the free list and the counter stay in step.

**Invalid handles** (`invalid_inert`). A value that is not the handle of a live entry is found and
removed exactly if a removed slot stores it, marked as deleted: `Get` and `Remove` compare the
whole value and do not look at the mark.
-/

namespace ServerBase

namespace SSlotMap

variable {α : Type*}

/-- How the map stores the live entries. -/
structure Represents [Inhabited α] (s : Use α) : Prop where
  highest : s.map.mTracker.mHighestUnrecycledId.toNat = s.map.mData.length
  length_le : s.map.mData.length ≤ 2 ^ 15
  slot_id : ∀ i e, s.map.mData[i]? = some e → (getHandleID e.mHandle).toNat = i
  free_nodup : (s.map.mTracker.mFreeIds.map fun f => (getHandleID f).toNat).Nodup
  mem_free : ∀ i, (i ∈ s.map.mTracker.mFreeIds.map fun f => (getHandleID f).toNat) ↔
    ∃ e, s.map.mData[i]? = some e ∧ deletedBit e.mHandle = true
  free_handle : ∀ f ∈ s.map.mTracker.mFreeIds,
    ∃ e, s.map.mData[(getHandleID f).toNat]? = some e ∧ f = markDeleted e.mHandle false
  live_nodup : s.live.Nodup
  mem_live : ∀ h, h ∈ s.live ↔
    ∃ (i : ℕ) (e : Entry α), s.map.mData[i]? = some e ∧ deletedBit e.mHandle = false ∧ e.mHandle = h
  entryAt : ∀ i, (s.map.entryAt i).isSome ↔ ∃ h ∈ s.live, (getHandleID h).toNat = i
  count : s.map.count.toNat = s.live.length
  get : ∀ h ∈ s.returned, (s.map.get h).isSome ↔
    ∃ (i : ℕ) (e : Entry α), s.map.mData[i]? = some e ∧ deletedBit e.mHandle = false ∧ e.mHandle = h
  add : s.live.length < 2 ^ 15 → ∀ i, s.map.Live i → s.map.add.mData[i]? = s.map.mData[i]?

namespace Sound

variable {s : Use α} {h : ObjectHandle} {i : ℕ}

/-- The live handles are those of the slots that are not marked. -/
theorem mem_live_iff (hs : Sound s) : h ∈ s.live ↔
    ∃ (i : ℕ) (e : Entry α),
      s.map.mData[i]? = some e ∧ deletedBit e.mHandle = false ∧ e.mHandle = h := by
  rw [hs.mem_live]
  constructor
  · rintro ⟨e, he, rfl, hplain⟩
    exact ⟨_, e, he, hplain.not_deleted, rfl⟩
  · rintro ⟨i, e, he, hdel, rfl⟩
    obtain ⟨hplain, hid, -⟩ := hs.map.live_of_not_deleted he hdel
    exact ⟨e, hid ▸ he, rfl, hplain⟩

theorem live_iff (hs : Sound s) : s.map.Live i ↔ ∃ h ∈ s.live, idOf h = i := by
  constructor
  · rintro ⟨e, he, hdel⟩
    exact ⟨e.mHandle, hs.mem_live_iff.2 ⟨i, e, he, hdel, rfl⟩, hs.map.idOf_slot he⟩
  · rintro ⟨h, hh, rfl⟩
    obtain ⟨e, he, rfl, hplain⟩ := (hs.mem_live h).1 hh
    exact ⟨e, he, hplain.not_deleted⟩

theorem entryAt_isSome (i : ℕ) : (s.map.entryAt i).isSome ↔ s.map.Live i := by
  unfold entryAt Live
  cases he : s.map.mData[i]? with
  | none => simp
  | some e => cases hdel : deletedBit e.mHandle <;> simp [hdel]

theorem mem_free (hs : Sound s) : i ∈ s.map.mTracker.mFreeIds.map idOf ↔
    ∃ e, s.map.mData[i]? = some e ∧ deletedBit e.mHandle = true := by
  constructor
  · intro hi
    obtain ⟨f, hf, rfl⟩ := List.mem_map.1 hi
    obtain ⟨hplain, e, he, heq⟩ := hs.map.slot_of_free hf
    exact ⟨e, he, heq ▸ hplain.deletedBit_mark⟩
  · rintro ⟨e, he, hdel⟩
    obtain ⟨f, hf, -, rfl, -⟩ := hs.map.removed_of_deleted he hdel
    exact List.mem_map_of_mem hf

theorem count_eq (hs : Sound s) : s.map.count.toNat = s.live.length := by
  have hcard := hs.card
  have hle := hs.map.length_le
  rw [count, BitVec.toNat_setWidth, BitVec.toNat_sub, BitVec.toNat_ofNat, BitVec.toNat_ofNat]
  omega

/-- `add` leaves the live slots alone. -/
theorem add_other [Inhabited α] (hs : Sound s) (hlt : s.live.length < 2 ^ 15)
    (hi : s.map.Live i) : s.map.add.mData[i]? = s.map.mData[i]? := by
  obtain ⟨h, hh, rfl⟩ := hs.live_iff.1 hi
  rw [hs.map.getElem?_add (hs.room hlt), if_neg (hs.idOf_live_ne_granted hlt hh)]

end Sound

section

variable [Inhabited α] {s : Use α}

/-- **The representation invariant.** Whatever is added, removed under a returned handle, live or
stale, written and cleared. -/
theorem represents (hs : (uses α).Run WithReturned s) : Represents s := by
  have hsound := sound_of_withReturned hs
  exact {
    highest := hsound.map.highest
    length_le := hsound.map.length_le
    slot_id := fun i e he => hsound.map.idOf_slot he
    free_nodup := hsound.map.pool.nodup
    mem_free := fun i => hsound.mem_free
    free_handle := fun f hf => by
      obtain ⟨hplain, e, he, heq⟩ := hsound.map.slot_of_free hf
      exact ⟨e, he, by rw [heq, hplain.unmark_mark]⟩
    live_nodup := hsound.nodup
    mem_live := fun h => hsound.mem_live_iff
    entryAt := fun i => (Sound.entryAt_isSome i).trans hsound.live_iff
    count := hsound.count_eq
    get := fun h hh => by
      rw [← hsound.mem_live_iff]
      exact hsound.get_isSome (not_storedByRemoved (hsound.returned h hh))
    add := fun hlt i hi => hsound.add_other hlt hi }

def twoAdded : Use ℕ := (Use.step {} .add).step .add

/-- Two entries are added and the first is removed; its slot waits on the free list. -/
def oneRemoved : Use ℕ := twoAdded.step (.remove 0)

theorem twoAdded_run :
    (uses ℕ).Run (fun s op => WithReturned s op ∧ WithoutStored s op) twoAdded := by
  have hfits : Fits ({} : Use ℕ) .add := by
    change ({} : Use ℕ).live.length < 2 ^ 15
    decide
  have hfits' : Fits (Use.step ({} : Use ℕ) .add) .add := by
    change (Use.step ({} : Use ℕ) .add).live.length < 2 ^ 15
    decide
  have hone : (uses ℕ).Run (fun s op => WithReturned s op ∧ WithoutStored s op)
      (Use.step {} .add) :=
    .step (.init rfl) ⟨⟨hfits, trivial⟩, hfits, trivial⟩ rfl
  exact hone.step ⟨⟨hfits', trivial⟩, hfits', trivial⟩ rfl

theorem oneRemoved_run :
    (uses ℕ).Run (fun s op => WithReturned s op ∧ WithoutStored s op) oneRemoved := by
  have hret : WithReturned twoAdded (.remove 0) :=
    ⟨trivial, (by decide : (0 : ObjectHandle) ∈ twoAdded.returned)⟩
  have hst : WithoutStored twoAdded (.remove 0) :=
    ⟨trivial, (by decide : ¬twoAdded.map.StoredByRemoved 0)⟩
  exact twoAdded_run.step ⟨hret, hst⟩ rfl

theorem represents_oneRemoved : Represents oneRemoved :=
  represents (oneRemoved_run.mono fun _ _ hok => hok.1)

/-! ## Invalid handles -/

/-- **Invalid handles are inert** exactly if no removed slot stores them; the free list never holds
a slot twice. -/
theorem invalid_inert (hs : (uses α).Run WithoutStored s) :
    (∀ h, h ∉ s.live →
      ((s.map.get h = none ∧ s.map.remove h = s.map) ↔ ¬s.map.StoredByRemoved h)) ∧
    (s.map.mTracker.mFreeIds.map fun f => (getHandleID f).toNat).Nodup := by
  have hsound := sound_of_withoutStored hs
  refine ⟨fun h hlive => ⟨fun hinert hst => ?_, fun hst => ?_⟩, hsound.map.pool.nodup⟩
  · rw [hsound.get_stored hst] at hinert
    exact absurd hinert.1 (by simp)
  · have hget : s.map.get h = none := by
      rw [← Option.not_isSome_iff_eq_none, hsound.get_isSome hst]
      exact hlive
    exact ⟨hget, remove_of_get_none hget⟩

theorem invalid_inert_oneRemoved :
    (∀ h, h ∉ oneRemoved.live →
      ((oneRemoved.map.get h = none ∧ oneRemoved.map.remove h = oneRemoved.map) ↔
        ¬oneRemoved.map.StoredByRemoved h)) ∧
    (oneRemoved.map.mTracker.mFreeIds.map fun f => (getHandleID f).toNat).Nodup :=
  invalid_inert (oneRemoved_run.mono fun _ _ hok => hok.2)

/-- The value a removed entry stores is found again. -/
theorem invalid_not_inert :
    ¬∀ s, (uses ℕ).Run Fits s →
      (∀ h, h ∉ s.live → s.map.get h = none ∧ s.map.remove h = s.map) ∧
      (s.map.mTracker.mFreeIds.map fun f => (getHandleID f).toNat).Nodup := by
  intro hall
  have hrun : (uses ℕ).Run Fits oneRemoved := oneRemoved_run.mono fun _ _ hok => hok.1.1
  have hinert := (hall oneRemoved hrun).1 (markDeleted (makeObjectHandle 0 1) true) (by decide)
  exact absurd hinert.1 (by decide)

end

end SSlotMap

end ServerBase
