import ServerBase.Slotmap.SSlotMap

/-!
# The entries of a slot map

What a slot map is for: a set of entries, each known by the handle it was added under, until it is
removed.

**Callers** (`Use`). Beside the map stand the handles of the live entries, every handle `add` has
returned so far, and every removal with the number of times its slot was granted again since.

**Conditions.** At most `2 ^ 15` entries are live (`Fits`). `RemovesReturned` lets `remove` be
called with handles that `add` has returned, `NotStoredByRemoved` with anything but the handle a
removed slot stores. The second is the weaker one: what `add` returns is never marked as deleted.

**Refinement** (`Sound`). The map is a set of live entries: a handle is live exactly if its slot
stores it without a mark.
-/

namespace ServerBase

namespace SSlotMap

variable {α : Type*}

/-- A live entry was removed under `handle`; its slot was granted `regrants` times since. -/
structure Removal where
  handle : ObjectHandle
  regrants : ℕ := 0

/-- The handle `h` is granted. -/
def Removal.grant (h : ObjectHandle) (r : Removal) : Removal :=
  if idOf h = idOf r.handle then { r with regrants := r.regrants + 1 } else r

structure Use (α : Type*) where
  map : SSlotMap α := {}
  live : List ObjectHandle := []
  returned : List ObjectHandle := []
  removals : List Removal := []

inductive Op (α : Type*)
  | add
  | remove (handle : ObjectHandle)
  | clear
  /-- The caller writes an entry through a pointer. -/
  | write (index : ℕ) (val : α)

/-- One call. -/
def Use.step [Inhabited α] (s : Use α) : Op α → Use α
  | .add =>
      let h := s.map.mTracker.grantedHandle
      { map := s.map.add, live := s.live ++ [h], returned := h :: s.returned
        removals := s.removals.map (Removal.grant h) }
  | .remove h =>
      { s with map := s.map.remove h, live := s.live.erase h
               removals := if h ∈ s.live then { handle := h } :: s.removals else s.removals }
  | .clear => { s with map := {}, live := [], removals := [] }
  | .write index val => { s with map := s.map.write index val }

/-- The runs of a map. -/
def uses (α : Type*) [Inhabited α] : Machine (Use α) (Op α) where
  init s := s = {}
  step s op := some (s.step op)

/-! ## Conditions -/

/-- At most `2 ^ 15` entries are live. -/
def Fits (s : Use α) : Op α → Prop
  | .add => s.live.length < 2 ^ 15
  | _ => True

/-- `remove` is called with a handle that `add` has returned. -/
def RemovesReturned (s : Use α) : Op α → Prop
  | .remove h => h ∈ s.returned
  | _ => True

/-- `remove` is not called with the handle that a removed slot stores. -/
def NotStoredByRemoved (s : Use α) : Op α → Prop
  | .remove h => ¬s.map.StoredByRemoved h
  | _ => True

/-- Calls with at most `2 ^ 15` live entries, in which `remove` gets returned handles. -/
def WithReturned (s : Use α) (op : Op α) : Prop := Fits s op ∧ RemovesReturned s op

/-- Calls with at most `2 ^ 15` live entries, in which `remove` gets nothing a removed slot
stores. -/
def WithoutStored (s : Use α) (op : Op α) : Prop := Fits s op ∧ NotStoredByRemoved s op

/-! ## The set of live entries -/

structure Sound (s : Use α) : Prop where
  map : Inv s.map
  mem_live : ∀ h, h ∈ s.live ↔ ∃ e, s.map.mData[idOf h]? = some e ∧ e.mHandle = h ∧ Plain h
  nodup : s.live.Nodup
  card : s.live.length + s.map.mTracker.mFreeIds.length = s.map.mData.length
  returned : ∀ h ∈ s.returned, Plain h

theorem sound_init : Sound ({} : Use α) := by
  refine ⟨inv_init, ?_, List.nodup_nil, rfl, by simp⟩
  simp

theorem mem_removals_remove [Inhabited α] {s : Use α} {r : Removal} (h : ObjectHandle)
    (hr : r ∈ s.removals) : r ∈ (s.step (.remove h)).removals := by
  change r ∈ if h ∈ s.live then _ else _
  by_cases hh : h ∈ s.live
  · rw [if_pos hh]
    exact List.mem_cons_of_mem _ hr
  · rw [if_neg hh]
    exact hr

namespace Sound

variable {s : Use α} {h : ObjectHandle} {i : ℕ} {e : Entry α}

/-- Two live handles of one slot are the same. -/
theorem live_ext (hs : Sound s) {h h' : ObjectHandle} (hh : h ∈ s.live) (hh' : h' ∈ s.live)
    (hid : idOf h = idOf h') : h = h' := by
  obtain ⟨e, he, heq, -⟩ := (hs.mem_live h).1 hh
  obtain ⟨e', he', heq', -⟩ := (hs.mem_live h').1 hh'
  rw [hid, he'] at he
  exact heq.symm.trans (Option.some.inj he ▸ heq')

theorem plain_of_live (hs : Sound s) (hh : h ∈ s.live) : Plain h := by
  obtain ⟨_, _, _, hplain⟩ := (hs.mem_live h).1 hh
  exact hplain

/-- The slot of a live handle is in use. -/
theorem used_of_live (hs : Sound s) (hh : h ∈ s.live) : s.map.mTracker.ids.Used (idOf h) := by
  obtain ⟨e, he, heq, hplain⟩ := (hs.mem_live h).1 hh
  exact (hs.map.live_of_not_deleted he (heq ▸ hplain.not_deleted)).2.2

/-- Below `2 ^ 15` live entries a slot is left. -/
theorem room (hs : Sound s) (hlt : s.live.length < 2 ^ 15) : s.map.mTracker.Room := by
  intro hfree
  have hcard := hs.card
  rw [hfree, List.length_nil] at hcard
  rw [hs.map.highest]
  omega

/-- A handle no removed slot stores is found exactly if it is live. -/
theorem get_isSome (hs : Sound s) (hst : ¬s.map.StoredByRemoved h) :
    (s.map.get h).isSome ↔ h ∈ s.live := by
  rw [hs.mem_live, Option.isSome_iff_exists]
  constructor
  · rintro ⟨i, hget⟩
    obtain ⟨rfl, hplain, -, e, he, hh⟩ := hs.map.live_of_get hget hst
    exact ⟨e, he, hh, hplain⟩
  · rintro ⟨e, he, hh, hplain⟩
    exact ⟨_, (get_eq_some hs.map.length_le).2 ⟨hplain.ne_null, rfl, e, he, hh⟩⟩

/-- What a removed slot stores is found. -/
theorem get_stored (hs : Sound s) (hst : s.map.StoredByRemoved h) :
    s.map.get h = some (idOf h) := by
  obtain ⟨e, hmem, hdel, rfl⟩ := hst
  obtain ⟨i, hi⟩ := List.getElem?_of_mem hmem
  obtain ⟨f, -, hplain, -, heq⟩ := hs.map.removed_of_deleted hi hdel
  refine (get_eq_some hs.map.length_le).2 ⟨?_, rfl, e, ?_, rfl⟩
  · intro hnull
    have hlt : (markDeleted f true).toNat < 2 ^ 31 := by
      have : f.toNat < 2 ^ 30 := hplain
      rw [toNat_markDeleted f hplain]
      omega
    rw [← heq, hnull] at hlt
    exact absurd hlt (by decide)
  · rw [hs.map.idOf_slot hi]
    exact hi

/-- A returned handle is not stored by a removed slot. -/
theorem notStored_of_returned (hs : Sound s) {op : Op α} (hret : RemovesReturned s op) :
    NotStoredByRemoved s op := by
  cases op with
  | remove h => exact not_storedByRemoved (hs.returned h hret)
  | _ => trivial

/-- The handle of a new entry is not the handle of a live one, and not even in its slot. -/
theorem idOf_live_ne_granted (hs : Sound s) (hlt : s.live.length < 2 ^ 15) (hh : h ∈ s.live) :
    idOf h ≠ idOf s.map.mTracker.grantedHandle := by
  intro hid
  refine IdPool.not_used_granted (p := s.map.mTracker.ids) ?_
  rw [← SlotMapTracker.idOf_grantedHandle (hs.room hlt), ← hid]
  exact hs.used_of_live hh

/-! ### Each call -/

variable [Inhabited α]

theorem add (hs : Sound s) (hlt : s.live.length < 2 ^ 15) : Sound (s.step .add) := by
  have hroom := hs.room hlt
  have hgranted := SlotMapTracker.plain_grantedHandle s.map.mTracker
  refine ⟨hs.map.add hroom, fun h => ?_, ?_, ?_, ?_⟩
  · change h ∈ s.live ++ [s.map.mTracker.grantedHandle] ↔
      ∃ e, s.map.add.mData[idOf h]? = some e ∧ e.mHandle = h ∧ Plain h
    rw [List.mem_append, List.mem_singleton, hs.map.getElem?_add hroom]
    by_cases hid : idOf h = idOf s.map.mTracker.grantedHandle
    · have hnot : h ∉ s.live := fun hh => hs.idOf_live_ne_granted hlt hh hid
      rw [if_pos hid]
      constructor
      · rintro (hh | rfl)
        · exact absurd hh hnot
        · exact ⟨_, rfl, rfl, hgranted⟩
      · rintro ⟨e, he, rfl, -⟩
        obtain rfl := Option.some.inj he
        exact .inr rfl
    · have hne : h ≠ s.map.mTracker.grantedHandle := fun he => hid (congrArg idOf he)
      rw [if_neg hid, ← hs.mem_live, or_iff_left hne]
  · refine List.nodup_append.2 ⟨hs.nodup, List.nodup_singleton _, fun h hh h' hh' heq => ?_⟩
    obtain rfl := List.mem_singleton.1 hh'
    exact hs.idOf_live_ne_granted hlt hh (congrArg idOf heq)
  · have hcount := IdPool.grant_count (p := s.map.mTracker.ids)
    have hcard := hs.card
    have hlen : s.map.mTracker.ids.free.length = s.map.mTracker.mFreeIds.length :=
      List.length_map ..
    have hlen' : s.map.add.mTracker.ids.free.length = s.map.add.mTracker.mFreeIds.length :=
      List.length_map ..
    have hnext : s.map.mTracker.ids.next = s.map.mData.length := hs.map.highest
    rw [ids_add hroom] at hlen'
    change (s.live ++ [_]).length + s.map.add.mTracker.mFreeIds.length = s.map.add.mData.length
    rw [hs.map.length_add hroom, List.length_append, List.length_singleton]
    omega
  · intro h hh
    rcases List.mem_cons.1 hh with rfl | hh
    · exact hgranted
    · exact hs.returned h hh

/-- Removing what is not live changes nothing. -/
theorem step_remove_of_not_live (hs : Sound s) (hst : ¬s.map.StoredByRemoved h)
    (hh : h ∉ s.live) : s.step (.remove h) = s := by
  have hget : s.map.get h = none := by
    rw [← Option.not_isSome_iff_eq_none, hs.get_isSome hst]
    exact hh
  simp only [Use.step, remove_of_get_none hget, List.erase_of_not_mem hh, if_neg hh]

theorem remove (hs : Sound s) (hst : ¬s.map.StoredByRemoved h) : Sound (s.step (.remove h)) := by
  by_cases hmem : h ∈ s.live
  · obtain ⟨i, hget⟩ := Option.isSome_iff_exists.1 ((hs.get_isSome hst).2 hmem)
    obtain ⟨rfl, hplain, -⟩ := hs.map.live_of_get hget hst
    refine ⟨hs.map.remove hst, fun h' => ?_, hs.nodup.erase h, ?_, hs.returned⟩
    · change h' ∈ s.live.erase h ↔
        ∃ e, (s.map.remove h).mData[idOf h']? = some e ∧ e.mHandle = h' ∧ Plain h'
      rw [hs.nodup.mem_erase_iff, getElem?_remove hget]
      by_cases hid : idOf h = idOf h'
      · rw [if_pos hid]
        constructor
        · rintro ⟨hne, hh'⟩
          exact absurd (hs.live_ext hh' hmem hid.symm) hne
        · rintro ⟨e, he, rfl, hplain'⟩
          obtain ⟨e', -, rfl⟩ := Option.map_eq_some_iff.1 he
          have hdel := hplain'.not_deleted
          rw [(plain_next h).deletedBit_mark] at hdel
          exact absurd hdel (by decide)
      · have hne : h' ≠ h := fun he => hid (congrArg idOf he.symm)
        rw [if_neg hid, ← hs.mem_live, and_iff_right hne]
    · have hcard := hs.card
      have hpos := List.length_pos_of_mem hmem
      change (s.live.erase h).length + (s.map.remove h).mTracker.mFreeIds.length =
        (s.map.remove h).mData.length
      rw [length_remove, length_mFreeIds_remove hget, List.length_erase_of_mem hmem]
      omega
  · rw [hs.step_remove_of_not_live hst hmem]
    exact hs

theorem write (hs : Sound s) (index : ℕ) (v : α) : Sound (s.step (.write index v)) := by
  refine ⟨hs.map.write index v, fun h => ?_, hs.nodup, ?_, hs.returned⟩
  · change h ∈ s.live ↔ ∃ e, (s.map.write index v).mData[idOf h]? = some e ∧ e.mHandle = h ∧ Plain h
    rw [hs.mem_live, getElem?_write]
    cases s.map.mData[idOf h]? <;> simp
  · exact hs.card.trans length_write.symm

theorem clear (hs : Sound s) : Sound (s.step .clear) := by
  have hinit : Sound ({} : Use α) := sound_init
  exact ⟨hinit.map, hinit.mem_live, hinit.nodup, hinit.card, hs.returned⟩

/-- Every call that fits and is not given what a removed slot stores. -/
theorem step (hs : Sound s) {op : Op α} (hfits : Fits s op) (hst : NotStoredByRemoved s op) :
    Sound (s.step op) := by
  cases op with
  | add => exact hs.add hfits
  | remove h => exact hs.remove hst
  | clear => exact hs.clear
  | write index v => exact hs.write index v

end Sound

/-! ## Runs -/

section Runs

variable [Inhabited α] {s : Use α}

theorem sound_of_withoutStored (hs : (uses α).Run WithoutStored s) : Sound s := by
  refine hs.invariant (fun s hinit => ?_) fun s op s' hsound hok hstep => ?_
  · exact hinit ▸ sound_init
  · cases hstep
    exact hsound.step hok.1 hok.2

theorem sound_of_withReturned (hs : (uses α).Run WithReturned s) : Sound s := by
  refine hs.invariant (fun s hinit => ?_) fun s op s' hsound hok hstep => ?_
  · exact hinit ▸ sound_init
  · cases hstep
    exact hsound.step hok.1 (hsound.notStored_of_returned hok.2)

end Runs

end SSlotMap

end ServerBase
