import ServerBase.Slotmap.LiveEntries

/-!
# Stale handles

How long a handle stays stale after its entry was removed.

**Two steps a round** (`Removal.Ok`). Removing an entry puts the successor of its handle on the free
list, and granting the slot again takes the successor of that. So after `k` grants the slot stores
the removed handle's version plus `2 * k`, modulo `2 ^ 15`.

**Half the version space** (`stale_get`). The removed handle is found again after `2 ^ 14` grants,
at the moments when the slot is live, and at no other moment before `2 ^ 15` grants.
-/

namespace ServerBase

namespace SSlotMap

variable {α : Type*}

/-- What the versions say about a removal. -/
structure Removal.Ok (s : Use α) (r : Removal) : Prop where
  plain : Plain r.handle
  lt : idOf r.handle < s.map.mData.length
  live : ∀ h ∈ s.live, idOf h = idOf r.handle →
    0 < r.regrants ∧ versionOf h = (versionOf r.handle + 2 * r.regrants) % 2 ^ 15
  free : ∀ f ∈ s.map.mTracker.mFreeIds, idOf f = idOf r.handle →
    versionOf f = (versionOf r.handle + 2 * r.regrants + 1) % 2 ^ 15

/-- `clear` is not called. -/
def NoClear (_ : Use α) : Op α → Prop
  | .clear => False
  | _ => True

/-- Calls of `add` and `remove` that respect the conditions. -/
def AddsAndRemoves (s : Use α) (op : Op α) : Prop := WithoutStored s op ∧ NoClear s op

variable {s : Use α} {r : Removal} {h : ObjectHandle}

theorem addsAndRemoves_add (hlt : s.live.length < 2 ^ 15) : AddsAndRemoves s .add :=
  ⟨⟨hlt, trivial⟩, trivial⟩

theorem addsAndRemoves_remove (hh : Plain h) : AddsAndRemoves s (.remove h) :=
  ⟨⟨trivial, not_storedByRemoved hh⟩, trivial⟩

/-- The handle a grant takes from the free list, if the slot was granted before. -/
theorem granted_of_lt (hs : Sound s) (hroom : s.map.mTracker.Room)
    (hlt : idOf s.map.mTracker.grantedHandle < s.map.mData.length) :
    ∃ f ∈ s.map.mTracker.mFreeIds, s.map.mTracker.grantedHandle = nextHandle f := by
  rcases s.map.mTracker.nil_or_concat with hf | ⟨l, f, hf⟩
  · rw [SlotMapTracker.grantedHandle_of_nil hf, idOf_make, Nat.mod_eq_of_lt (hroom hf),
      hs.map.highest] at hlt
    exact absurd hlt (Nat.lt_irrefl _)
  · exact ⟨f, by simp [hf], SlotMapTracker.grantedHandle_of_concat hf⟩

/-- A handle on the free list after a removal: an old one, or the successor of the removed one. -/
theorem mem_free_remove {f : ObjectHandle} {i : ℕ} (hget : s.map.get h = some i) :
    f ∈ (s.map.remove h).mTracker.mFreeIds ↔ f ∈ s.map.mTracker.mFreeIds ∨ f = nextHandle h := by
  simp [remove_of_get_some hget]

namespace Removal.Ok

variable [Inhabited α]

theorem add (hr : r.Ok s) (hs : Sound s) (hlt : s.live.length < 2 ^ 15) :
    (r.grant s.map.mTracker.grantedHandle).Ok (s.step .add) := by
  have hroom := hs.room hlt
  have hids := ids_add (m := s.map) hroom
  have hlength : s.map.mData.length ≤ s.map.add.mData.length := by
    rcases hs.map.add_cases hroom with ⟨-, -, hadd⟩ | ⟨-, -, hadd⟩ <;> simp [hadd]
  by_cases hid : idOf s.map.mTracker.grantedHandle = idOf r.handle
  · rw [Removal.grant, if_pos hid]
    obtain ⟨f, hf, hgranted⟩ := granted_of_lt hs hroom (hid ▸ hr.lt)
    have hfid : idOf f = idOf r.handle := by rw [← hid, hgranted, idOf_next]
    refine ⟨hr.plain, Nat.lt_of_lt_of_le hr.lt hlength, fun h hh hhid => ⟨Nat.succ_pos _, ?_⟩,
      fun f' hf' hf'id => ?_⟩
    · rcases List.mem_append.1 hh with hh | hh
      · exact absurd (hhid.trans hid.symm) (hs.idOf_live_ne_granted hlt hh)
      · rw [List.mem_singleton.1 hh, hgranted, versionOf_next, hr.free f hf hfid]
        change _ = (versionOf r.handle + 2 * (r.regrants + 1)) % 2 ^ 15
        omega
    · have hused : s.map.add.mTracker.ids.Used (idOf r.handle) := by
        rw [hids, hs.map.pool.used_grant, ← SlotMapTracker.idOf_grantedHandle hroom]
        exact .inl hid.symm
      exact absurd (List.mem_map.2 ⟨f', hf', hf'id⟩) hused.2
  · rw [Removal.grant, if_neg hid]
    refine ⟨hr.plain, Nat.lt_of_lt_of_le hr.lt hlength, fun h hh hhid => ?_,
      fun f hf => hr.free f (SlotMapTracker.mFreeIds_grantHandle_subset hf)⟩
    rcases List.mem_append.1 hh with hh | hh
    · exact hr.live h hh hhid
    · exact absurd (List.mem_singleton.1 hh ▸ hhid) hid

theorem remove (hr : r.Ok s) (hh : h ∈ s.live) (hget : (s.map.get h).isSome) :
    r.Ok (s.step (.remove h)) := by
  obtain ⟨i, hget⟩ := Option.isSome_iff_exists.1 hget
  refine ⟨hr.plain, ?_, fun h' hh' => hr.live h' (List.mem_of_mem_erase hh'), fun f hf hid => ?_⟩
  · change idOf r.handle < (s.map.remove h).mData.length
    rw [length_remove]
    exact hr.lt
  · rcases (mem_free_remove hget).1 hf with hf | rfl
    · exact hr.free f hf hid
    · rw [versionOf_next, (hr.live h hh ((idOf_next h).symm.trans hid)).2]
      omega

/-- The removal itself. -/
theorem new (hs : Sound s) (hh : h ∈ s.live) (hget : (s.map.get h).isSome) :
    Removal.Ok (s.step (.remove h)) { handle := h } := by
  obtain ⟨i, hget⟩ := Option.isSome_iff_exists.1 hget
  have hused := hs.used_of_live hh
  refine ⟨hs.plain_of_live hh, ?_, fun h' hh' hid => ?_, fun f hf hid => ?_⟩
  · change idOf h < (s.map.remove h).mData.length
    rw [length_remove]
    exact hs.map.lt_of_used hused
  · have hmem := (hs.nodup.mem_erase_iff).1 hh'
    exact absurd (hs.live_ext hmem.2 hh hid) hmem.1
  · rcases (mem_free_remove hget).1 hf with hf | rfl
    · exact absurd (List.mem_map.2 ⟨f, hf, hid⟩) hused.2
    · exact versionOf_next h

theorem write (hr : r.Ok s) (index : ℕ) (v : α) : r.Ok (s.step (.write index v)) :=
  ⟨hr.plain, Nat.lt_of_lt_of_eq hr.lt length_write.symm, hr.live, hr.free⟩

end Removal.Ok

/-- A removed handle is live again exactly after half the version space. -/
theorem stale_live (hs : Sound s) (hr : r.Ok s) (hk : r.regrants < 2 ^ 15) :
    r.handle ∈ s.live ↔ r.regrants = 2 ^ 14 ∧ ∃ h ∈ s.live, idOf h = idOf r.handle := by
  have hlt := versionOf_lt r.handle
  constructor
  · intro hlive
    obtain ⟨hpos, hversion⟩ := hr.live _ hlive rfl
    exact ⟨by omega, _, hlive, rfl⟩
  · rintro ⟨hhalf, h, hh, hid⟩
    have hversion := (hr.live h hh hid).2
    have heq : versionOf h = versionOf r.handle := by omega
    exact (hs.plain_of_live hh).ext hr.plain hid heq ▸ hh

variable [Inhabited α]

/-- Every call but `clear` keeps what the versions say. -/
theorem removals_step (hs : Sound s) (hok : ∀ r ∈ s.removals, r.Ok s) {op : Op α}
    (hcall : WithoutStored s op) (hno : NoClear s op) :
    ∀ r ∈ (s.step op).removals, r.Ok (s.step op) := by
  cases op with
  | add =>
      intro r hr
      obtain ⟨r', hr', rfl⟩ := List.mem_map.1 hr
      exact (hok r' hr').add hs hcall.1
  | remove h =>
      by_cases hh : h ∈ s.live
      · have hget : (s.map.get h).isSome := (hs.get_isSome hcall.2).2 hh
        have hremovals : (s.step (.remove h)).removals = { handle := h } :: s.removals := if_pos hh
        intro r hr
        rw [hremovals] at hr
        rcases List.mem_cons.1 hr with rfl | hr
        · exact .new hs hh hget
        · exact (hok r hr).remove hh hget
      · rw [hs.step_remove_of_not_live hcall.2 hh]
        exact hok
  | clear => exact hno.elim
  | write index v => exact fun r hr => (hok r hr).write index v

theorem removals_run (hs : (uses α).Run AddsAndRemoves s) :
    Sound s ∧ ∀ r ∈ s.removals, r.Ok s := by
  refine hs.invariant (P := fun s => Sound s ∧ ∀ r ∈ s.removals, r.Ok s) (fun s hinit => ?_)
    fun s op s' hinv hok hstep => ?_
  · exact hinit ▸ ⟨sound_init, by simp⟩
  · cases hstep
    exact ⟨hinv.1.step hok.1.1 hok.1.2, removals_step hinv.1 hinv.2 hok.1 hok.2⟩

/-- **Stale handles.** Before its slot was granted `2 ^ 15` times, a removed handle is found
exactly when the slot was granted `2 ^ 14` times and is live. -/
theorem stale_get (hs : (uses α).Run AddsAndRemoves s) :
    ∀ r ∈ s.removals, r.regrants < 2 ^ 15 →
      (s.map.get r.handle = none ↔
        ¬(r.regrants = 2 ^ 14 ∧ ∃ h ∈ s.live, (getHandleID h) = getHandleID r.handle)) := by
  intro r hr hk
  obtain ⟨hsound, hok⟩ := removals_run hs
  have hst : ¬s.map.StoredByRemoved r.handle := not_storedByRemoved (hok r hr).plain
  have hslot : (∃ h ∈ s.live, (getHandleID h) = getHandleID r.handle) ↔
      ∃ h ∈ s.live, idOf h = idOf r.handle := by
    simp only [idOf, BitVec.toNat_inj]
  rw [hslot, ← stale_live hsound (hok r hr) hk, ← hsound.get_isSome hst,
    Option.not_isSome_iff_eq_none]

/-! ### Coming round -/

/-- An entry is added and removed again. -/
def Use.round (s : Use α) : Use α :=
  (s.step .add).step (.remove s.map.mTracker.grantedHandle)

/-- One slot was granted, and it is free. -/
structure OneFree (s : Use α) : Prop where
  run : (uses α).Run AddsAndRemoves s
  live : s.live = []
  length : s.map.mData.length = 1

namespace OneFree

theorem live_lt (hs : OneFree s) : s.live.length < 2 ^ 15 := by simp [hs.live]

/-- The one slot waits on the free list, so a grant takes it. -/
theorem add_eq (hs : OneFree s) :
    idOf s.map.mTracker.grantedHandle = 0 ∧ s.map.add.mData.length = 1 := by
  have hsound := (removals_run hs.run).1
  rcases hsound.map.add_cases (hsound.room hs.live_lt) with ⟨hfree, -, -⟩ | ⟨-, hid, hadd⟩
  · have hcard := hsound.card
    rw [hs.live, hfree, hs.length] at hcard
    exact absurd hcard (by decide)
  · rw [hs.length] at hid
    exact ⟨by omega, by rw [hadd, List.length_set, hs.length]⟩

theorem run_add (hs : OneFree s) : (uses α).Run AddsAndRemoves (s.step .add) :=
  hs.run.step (addsAndRemoves_add hs.live_lt) rfl

theorem live_add (hs : OneFree s) : (s.step .add).live = [s.map.mTracker.grantedHandle] := by
  simp [Use.step, hs.live]

theorem round (hs : OneFree s) : OneFree s.round := by
  have hplain := SlotMapTracker.plain_grantedHandle s.map.mTracker
  refine ⟨hs.run_add.step (addsAndRemoves_remove hplain) rfl, ?_, ?_⟩
  · change (s.step .add).live.erase _ = []
    rw [hs.live_add, List.erase_cons_head]
  · change ((s.step .add).map.remove _).mData.length = 1
    exact length_remove.trans hs.add_eq.2

/-- The grant is counted for every removal of the slot. -/
theorem mem_removals_add (hs : OneFree s) (hr : r ∈ s.removals) (hid : idOf r.handle = 0) :
    { r with regrants := r.regrants + 1 } ∈ (s.step .add).removals := by
  refine List.mem_map.2 ⟨r, hr, ?_⟩
  rw [Removal.grant, if_pos (hs.add_eq.1.trans hid.symm)]

theorem mem_removals_round (hs : OneFree s) (hr : r ∈ s.removals) (hid : idOf r.handle = 0) :
    { r with regrants := r.regrants + 1 } ∈ s.round.removals := by
  exact mem_removals_remove _ (hs.mem_removals_add hr hid)

end OneFree

/-- The first entry is added and removed; then there are `n` more rounds. -/
def rounds : ℕ → Use ℕ
  | 0 => (Use.step {} .add).step (.remove 0)
  | n + 1 => (rounds n).round

theorem rounds_spec (n : ℕ) :
    OneFree (rounds n) ∧ { handle := 0, regrants := n } ∈ (rounds n).removals := by
  induction n with
  | zero =>
      have hadd : (uses ℕ).Run AddsAndRemoves (Use.step {} .add) :=
        .step (.init rfl) (addsAndRemoves_add (by decide)) rfl
      have hremove : AddsAndRemoves (Use.step ({} : Use ℕ) .add) (.remove 0) :=
        addsAndRemoves_remove (by decide)
      exact ⟨⟨hadd.step hremove rfl, rfl, rfl⟩, List.mem_cons_self⟩
  | succ n ih =>
      have hid : idOf 0 = 0 := by decide
      exact ⟨ih.1.round, ih.1.mem_removals_round ih.2 hid⟩

theorem stale_get_one : ((rounds 0).step .add).map.get 0 = none := by
  obtain ⟨hfree, hmem⟩ := rounds_spec 0
  have hr := hfree.mem_removals_add hmem (by decide : idOf 0 = 0)
  exact (stale_get hfree.run_add _ hr (by decide)).2 fun hlive => absurd hlive.1 (by decide)

/-- After `2 ^ 14` rounds the first handle is found again. -/
theorem stale_found :
    ¬∀ s, (uses ℕ).Run (fun s op => Fits s op ∧ NoClear s op) s →
      ∀ r ∈ s.removals, r.regrants < 2 ^ 15 → s.map.get r.handle = none := by
  intro hall
  obtain ⟨hfree, hmem⟩ := rounds_spec (2 ^ 14 - 1)
  have hid : idOf 0 = 0 := by decide
  have hr := hfree.mem_removals_add hmem hid
  obtain ⟨hsound, hok⟩ := removals_run hfree.run_add
  have hrun : (uses ℕ).Run (fun s op => Fits s op ∧ NoClear s op)
      ((rounds (2 ^ 14 - 1)).step .add) :=
    hfree.run_add.mono fun _ _ hok => ⟨hok.1.1, hok.2⟩
  have hlive : (0 : ObjectHandle) ∈ ((rounds (2 ^ 14 - 1)).step .add).live := by
    refine (stale_live hsound (hok _ hr) (by decide)).2 ⟨rfl, _, ?_, hfree.add_eq.1.trans hid.symm⟩
    rw [hfree.live_add]
    exact List.mem_singleton.2 rfl
  have hget := (hsound.get_isSome (not_storedByRemoved (by decide : Plain 0))).2 hlive
  rw [hall _ hrun _ hr (by decide)] at hget
  exact absurd hget (by decide)

end SSlotMap

end ServerBase
