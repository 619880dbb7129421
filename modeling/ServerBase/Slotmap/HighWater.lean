import ServerBase.Slotmap.Representation

/-!
# The size of a slot map

A slot map never shrinks, except in `Clear`, and grows only when no removed slot is left.

**The high water mark** (`Watched.peak`). The largest number of entries that were live at the same
time since the last `Clear`.

**The result** (`no_slot_wasted`). The vector has as many slots as entries were live at once, and
the live entries and the free list share them out, each slot once.
-/

namespace ServerBase

namespace SSlotMap

variable {α : Type*}

/-- A map in use, and its high water mark. -/
structure Watched (α : Type*) where
  use : Use α := {}
  peak : ℕ := 0

/-- One call; `Clear` starts again. -/
def Watched.step [Inhabited α] (w : Watched α) (op : Op α) : Watched α :=
  { use := w.use.step op
    peak :=
      match op with
      | .clear => 0
      | _ => max w.peak (w.use.step op).live.length }

/-- The runs of a map that is watched. -/
def watchedUses (α : Type*) [Inhabited α] : Machine (Watched α) (Op α) where
  init w := w = {}
  step w op := some (w.step op)

/-! ## Sharing out the slots -/

namespace Sound

variable {s : Use α}

/-- A slot is live or free. -/
theorem live_or_free (hs : Sound s) {i : ℕ} (hi : i < s.map.mData.length) :
    i ∈ s.live.map idOf ∨ i ∈ s.map.mTracker.mFreeIds.map idOf := by
  have he := List.getElem?_eq_getElem hi
  cases hdel : deletedBit (s.map.mData[i]).mHandle with
  | true => exact .inr (hs.mem_free.2 ⟨_, he, hdel⟩)
  | false =>
      obtain ⟨h, hh, hid⟩ := hs.live_iff.1 ⟨_, he, hdel⟩
      exact .inl (List.mem_map.2 ⟨h, hh, hid⟩)

theorem lt_of_live (hs : Sound s) {i : ℕ} (hi : i ∈ s.live.map idOf) : i < s.map.mData.length := by
  obtain ⟨h, hh, rfl⟩ := List.mem_map.1 hi
  obtain ⟨e, he, -⟩ := hs.live_iff.2 ⟨h, hh, rfl⟩
  exact (List.getElem?_eq_some_iff.1 he).1

theorem lt_of_free (hs : Sound s) {i : ℕ} (hi : i ∈ s.map.mTracker.mFreeIds.map idOf) :
    i < s.map.mData.length := by
  obtain ⟨e, he, -⟩ := hs.mem_free.1 hi
  exact (List.getElem?_eq_some_iff.1 he).1

/-- **Every slot is live or free**, and counted once. -/
theorem perm_range (hs : Sound s) :
    (s.live.map idOf ++ s.map.mTracker.mFreeIds.map idOf).Perm
      (List.range s.map.mData.length) := by
  have hnodup : (s.live.map idOf ++ s.map.mTracker.mFreeIds.map idOf).Nodup := by
    refine List.nodup_append.2 ⟨?_, hs.map.pool.nodup, ?_⟩
    · exact hs.nodup.map_on fun h hh h' hh' hid => hs.live_ext hh hh' hid
    · rintro i hlive j hfree rfl
      obtain ⟨h, hh, hid⟩ := List.mem_map.1 hlive
      obtain ⟨e, he, hdel⟩ := hs.live_iff.2 ⟨h, hh, hid⟩
      obtain ⟨e', he', hdel'⟩ := hs.mem_free.1 hfree
      rw [he] at he'
      obtain rfl := Option.some.inj he'
      rw [hdel] at hdel'
      cases hdel'
  refine (List.perm_ext_iff_of_nodup hnodup List.nodup_range).2 fun i => ?_
  rw [List.mem_append, List.mem_range]
  exact ⟨fun hi => hi.elim hs.lt_of_live hs.lt_of_free, hs.live_or_free⟩

end Sound

/-! ## The high water mark -/

/-- The size of the vector is the high water mark. -/
structure Filled (w : Watched α) : Prop where
  sound : Sound w.use
  size : w.use.map.mData.length = w.peak

namespace Filled

variable {w : Watched α}

theorem live_le (hw : Filled w) : w.use.live.length ≤ w.peak := by
  have hcard := hw.sound.card
  have hsize := hw.size
  omega

variable [Inhabited α]

/-- A call other than `add` and `clear` keeps the size and adds no live entry. -/
theorem of_same (hw : Filled w) {op : Op α} (hsound : Sound (w.use.step op))
    (hsize : (w.use.step op).map.mData.length = w.use.map.mData.length)
    (hlive : (w.use.step op).live.length ≤ w.use.live.length) (hop : op ≠ .clear) :
    Filled (w.step op) := by
  have hpeak : (w.step op).peak = max w.peak (w.use.step op).live.length := by
    cases op with
    | clear => exact absurd rfl hop
    | _ => rfl
  refine ⟨hsound, ?_⟩
  rw [hpeak, Nat.max_eq_left (Nat.le_trans hlive hw.live_le), ← hw.size]
  exact hsize

/-- `add` takes a new slot only when all slots are live. -/
theorem add (hw : Filled w) (hlt : w.use.live.length < 2 ^ 15) : Filled (w.step .add) := by
  have hsound := hw.sound.add hlt
  have hcard := hw.sound.card
  have hsize := hw.size
  have hlive : (w.use.step .add).live.length = w.use.live.length + 1 := by
    change (w.use.live ++ [_]).length = _
    rw [List.length_append, List.length_singleton]
  refine ⟨hsound, ?_⟩
  change w.use.map.add.mData.length = max w.peak (w.use.step .add).live.length
  rw [hlive]
  rcases hw.sound.map.add_cases (hw.sound.room hlt) with ⟨hfree, -, hadd⟩ | ⟨hfree, -, hadd⟩
  · rw [hadd, List.length_append, List.length_singleton]
    rw [hfree, List.length_nil] at hcard
    omega
  · have hpos := List.length_pos_of_ne_nil hfree
    rw [hadd, List.length_set]
    omega

theorem step (hw : Filled w) {op : Op α} (hfits : Fits w.use op)
    (hret : RemovesReturned w.use op) : Filled (w.step op) := by
  have hst := hw.sound.notStored_of_returned hret
  cases op with
  | add => exact hw.add hfits
  | remove h =>
      exact hw.of_same (hw.sound.remove hst) SSlotMap.length_remove (List.length_erase_le ..)
        (by simp)
  | clear => exact ⟨hw.sound.clear, rfl⟩
  | write index v =>
      exact hw.of_same (hw.sound.write index v) SSlotMap.length_write (Nat.le_refl _) (by simp)

theorem run (hw : (watchedUses α).Run (fun w op => WithReturned w.use op) w) : Filled w := by
  refine hw.invariant (fun w hinit => ?_) fun w op w' hfilled hok hstep => ?_
  · exact hinit ▸ ⟨sound_init, rfl⟩
  · cases hstep
    exact hfilled.step hok.1 hok.2

end Filled

section

variable [Inhabited α] {w : Watched α}

/-- **No slot is wasted.** Whatever is added, and removed under a returned handle, since the last
`Clear`. -/
theorem no_slot_wasted (hw : (watchedUses α).Run (fun w op => WithReturned w.use op) w) :
    w.use.map.mData.length = w.peak ∧
      ((w.use.live.map fun h => (getHandleID h).toNat) ++
        w.use.map.mTracker.mFreeIds.map fun f => (getHandleID f).toNat).Perm
          (List.range w.use.map.mData.length) := by
  have hfilled := Filled.run hw
  exact ⟨hfilled.size, hfilled.sound.perm_range⟩

/-- Two entries are added and one is removed. -/
def watchedRemoved : Watched ℕ := ((Watched.step {} .add).step .add).step (.remove 0)

theorem watchedRemoved_run :
    (watchedUses ℕ).Run (fun w op => WithReturned w.use op) watchedRemoved := by
  have hfits : Fits ({} : Use ℕ) .add := by
    change ({} : Use ℕ).live.length < 2 ^ 15
    decide
  have hfits' : Fits (Use.step ({} : Use ℕ) .add) .add := by
    change (Use.step ({} : Use ℕ) .add).live.length < 2 ^ 15
    decide
  have hret : WithReturned twoAdded (.remove 0) :=
    ⟨trivial, (by decide : (0 : ObjectHandle) ∈ twoAdded.returned)⟩
  have hone : (watchedUses ℕ).Run (fun w op => WithReturned w.use op) (Watched.step {} .add) :=
    .step (.init rfl) ⟨hfits, trivial⟩ rfl
  exact (hone.step ⟨hfits', trivial⟩ rfl).step hret rfl

theorem no_slot_wasted_removed :
    watchedRemoved.use.map.mData.length = 2 ∧ watchedRemoved.use.live.length = 1 ∧
      watchedRemoved.peak = 2 := by
  have hsize := (no_slot_wasted watchedRemoved_run).1
  have hlength : watchedRemoved.use.map.mData.length = 2 := by decide
  exact ⟨hlength, by decide, hsize ▸ hlength⟩

end

end SSlotMap

end ServerBase
