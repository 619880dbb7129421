import ServerBase.Coroutines.Places
import ServerBase.Slotmap.LiveEntries

/-!
# The handles of managed coroutines

What `CreateManagedCoroutine` does to the coroutines that are already there.

**Callers** (`Calls`). Beside the manager stand the handles that were created and not destroyed.

**Conditions** (`Careful`). Fewer than `2 ^ 15` managed coroutines are live when one is created, and
`DestroyCoroutine` is not given what a removed entry stores.

**Main result** (`create_undisturbed`). In the states reached like this, creating disturbs no other
coroutine exactly while fewer than `2 ^ 15` are live. With all slots taken the counter is `2 ^ 15`,
the id of the new handle is cut to 0, and the coroutine of slot 0 is overwritten.
-/

namespace ServerBase

namespace CoroutineManager

structure Calls where
  m : CoroutineManager := {}
  live : List ObjectHandle := []

inductive Call
  | createManagedCoroutine (userData : Option ℕ) (autodelete : Bool)
  | destroyCoroutine (handle : ObjectHandle)

def Calls.step (s : Calls) : Call → Calls
  | .createManagedCoroutine userData autodelete =>
      { m := s.m.createManagedCoroutine userData autodelete, live := s.live ++ [s.m.createdHandle] }
  | .destroyCoroutine handle =>
      { m := s.m.destroyCoroutine handle, live := s.live.erase handle }

/-- The runs of a manager whose coroutines are only created and destroyed. -/
def calls : Machine Calls Call where
  init s := s = {}
  step s call := some (s.step call)

def Careful (s : Calls) : Call → Prop
  | .createManagedCoroutine _ _ => s.live.length < 2 ^ 15
  | .destroyCoroutine handle => ¬s.m.mCoroutineData.StoredByRemoved handle

/-- The next `CreateManagedCoroutine` returns a new handle, and every live handle still has its
coroutine. -/
def Undisturbed (s : Calls) (userData : Option ℕ) (autodelete : Bool) : Prop :=
  s.m.createdHandle ≠ nullObjectHandle ∧ s.m.createdHandle ∉ s.live ∧
    ∀ h ∈ s.live,
      (s.m.createManagedCoroutine userData autodelete).getCoroutine h = s.m.getCoroutine h

/-! ## The invariant -/

/-- The slot map as its callers see it. -/
def Calls.use (s : Calls) : SSlotMap.Use Coro := { map := s.m.mCoroutineData, live := s.live }

structure CallsOk (s : Calls) : Prop where
  inv : Inv s.m none []
  use : SSlotMap.Sound s.use

variable {s : Calls} {h : ObjectHandle}

/-- What the callers of a slot map know about removals and returned handles plays no part. -/
theorem sound_use {u : SSlotMap.Use Coro} (hu : SSlotMap.Sound u)
    (hmap : u.map = s.m.mCoroutineData) (hlive : u.live = s.live) : SSlotMap.Sound s.use := by
  obtain ⟨map, live, returned, removals⟩ := u
  cases hmap
  cases hlive
  exact ⟨hu.map, hu.mem_live, hu.nodup, hu.card, by simp [Calls.use]⟩

namespace CallsOk

theorem length_managed (hs : CallsOk s) : s.m.managed.length = s.live.length := by
  have hcard := hs.inv.card
  have hcard' := hs.use.card
  simp only [Calls.use] at hcard'
  omega

theorem room (hs : CallsOk s) (hlt : s.live.length < 2 ^ 15) :
    s.m.mCoroutineData.mTracker.Room :=
  hs.use.room hlt

theorem create (hs : CallsOk s) (hlt : s.live.length < 2 ^ 15) (userData : Option ℕ)
    (autodelete : Bool) : CallsOk (s.step (.createManagedCoroutine userData autodelete)) where
  inv := hs.inv.createManaged (hs.length_managed ▸ hlt) userData autodelete
  use := by
    have hadd : SSlotMap.Sound (s.use.step .add) := hs.use.add hlt
    exact sound_use (hadd.write s.m.mCoroutineData.addIndex
      { mCoro := some s.m.nextCoro, mAutoDelete := autodelete }) rfl rfl

theorem destroy (hs : CallsOk s) (hst : ¬s.m.mCoroutineData.StoredByRemoved h) :
    CallsOk (s.step (.destroyCoroutine h)) where
  inv := hs.inv.destroyCoroutine hst (by simp)
  use := by
    cases hget : s.m.mCoroutineData.get h with
    | none =>
        have hlive : h ∉ s.live := by
          have hsome := hs.use.get_isSome hst
          simp only [Calls.use, hget] at hsome
          exact fun hmem => absurd (hsome.2 hmem) (by simp)
        refine sound_use hs.use ?_ ?_
        · exact congrArg mCoroutineData (destroyCoroutine_of_none hget).symm
        · exact (List.erase_of_not_mem hlive).symm
    | some i =>
        obtain ⟨-, e, co, he, -, hval⟩ := hs.inv.found hst hget
        have hwrite := hs.use.write i { e.val with mCoro := none }
        have hst' : ¬(s.m.mCoroutineData.write i { e.val with mCoro := none }).StoredByRemoved h :=
          fun hst' => hst (SSlotMap.storedByRemoved_write.1 hst')
        refine sound_use (hwrite.remove hst') ?_ rfl
        have heq := destroyCoroutine_of_some hs.inv.settled hget he hval (by simp)
        exact congrArg mCoroutineData heq.symm

theorem run (hs : calls.Run Careful s) : CallsOk s := by
  refine hs.invariant (P := CallsOk) (fun s hinit => ?_) fun s call s' hok hcall hstep => ?_
  · exact hinit ▸ ⟨inv_init, SSlotMap.sound_init⟩
  · cases hstep
    cases call with
    | createManagedCoroutine userData autodelete => exact hok.create hcall _ _
    | destroyCoroutine handle => exact hok.destroy hcall

/-- The coroutine of a live handle is the one in its slot. -/
theorem getCoroutine_live (hs : CallsOk s) (hh : h ∈ s.live) :
    s.m.getCoroutine h = s.m.coroAt (idOf h) := by
  have hplain := hs.use.plain_of_live hh
  have hsome := (hs.use.get_isSome (SSlotMap.not_storedByRemoved hplain)).2 hh
  obtain ⟨i, hget⟩ := Option.isSome_iff_exists.1 hsome
  obtain ⟨-, hi, -⟩ := (SSlotMap.get_eq_some hs.use.map.length_le).1 hget
  have hget' : s.m.mCoroutineData.get h = some i := hget
  rw [getCoroutine, hget', hi]

/-! ## With a slot left -/

theorem undisturbed (hs : CallsOk s) (hlt : s.live.length < 2 ^ 15) (userData : Option ℕ)
    (autodelete : Bool) : Undisturbed s userData autodelete := by
  have hroom := hs.room hlt
  refine ⟨(SlotMapTracker.plain_grantedHandle _).ne_null, fun hmem => ?_, fun h hh => ?_⟩
  · exact hs.use.idOf_live_ne_granted hlt hmem rfl
  · have hid : idOf h ≠ idOf s.m.mCoroutineData.mTracker.grantedHandle :=
      hs.use.idOf_live_ne_granted hlt hh
    have hafter := hs.create hlt userData autodelete
    have hh' : h ∈ (s.step (.createManagedCoroutine userData autodelete)).live :=
      List.mem_append_left _ hh
    refine (hafter.getCoroutine_live hh').trans ?_
    rw [hs.getCoroutine_live hh]
    change ((s.m.addCoro _).mData[idOf h]?).bind _ = _
    rw [addCoro, hs.inv.slots.getElem?_add_write hroom, if_neg hid]
    rfl

/-! ## With no slot left -/

/-- When all slots are taken the granted handle is 0. -/
theorem granted_full (hs : CallsOk s) (hfull : s.live.length = 2 ^ 15) :
    s.m.mCoroutineData.mTracker.mFreeIds = [] ∧ s.m.mCoroutineData.mData.length = 2 ^ 15 ∧
      s.m.mCoroutineData.mTracker.grantedHandle = 0 := by
  have hcard : s.live.length + s.m.mCoroutineData.mTracker.mFreeIds.length =
      s.m.mCoroutineData.mData.length := hs.use.card
  have hle := hs.inv.slots.length_le
  have hfree : s.m.mCoroutineData.mTracker.mFreeIds = [] :=
    List.length_eq_zero_iff.1 (by omega)
  have hlength : s.m.mCoroutineData.mData.length = 2 ^ 15 := by
    rw [← hcard, hfree, hfull]
    rfl
  refine ⟨hfree, hlength, BitVec.eq_of_toNat_eq ?_⟩
  rw [SlotMapTracker.grantedHandle_of_nil hfree, toNat_makeObjectHandle, hs.inv.slots.highest,
    hlength]
  decide

theorem disturbed (hs : CallsOk s) (hfull : s.live.length = 2 ^ 15) (userData : Option ℕ)
    (autodelete : Bool) : ¬Undisturbed s userData autodelete := by
  rintro ⟨-, hnew, hsame⟩
  obtain ⟨hfree, hlength, hgranted⟩ := hs.granted_full hfull
  have hid : idOf s.m.mCoroutineData.mTracker.grantedHandle = 0 := by rw [hgranted]; decide
  have hlt : idOf s.m.mCoroutineData.mTracker.grantedHandle <
      s.m.mCoroutineData.mData.length := by omega
  -- the live entry of slot 0
  obtain ⟨e, he⟩ : ∃ e, s.m.mCoroutineData.mData[0]? = some e :=
    ⟨_, List.getElem?_eq_getElem (by omega)⟩
  obtain ⟨hplain, hslot⟩ : Plain e.mHandle ∧ idOf e.mHandle = 0 := by
    cases hs.inv.slots.slot 0 e he with
    | live hplain hid _ => exact ⟨hplain, hid⟩
    | removed f hf _ _ _ => simp [hfree] at hf
  have hlive : e.mHandle ∈ s.live :=
    (hs.use.mem_live e.mHandle).2 ⟨e, by rw [hslot]; exact he, rfl, hplain⟩
  obtain ⟨co, hco⟩ : ∃ co, e.val.mCoro = some co := by
    refine Option.ne_none_iff_exists'.1 fun hnone => ?_
    rw [← hs.inv.live_iff 0 e he, hplain.not_deleted] at hnone
    cases hnone
  have hbefore : s.m.getCoroutine e.mHandle = some co := by
    rw [hs.getCoroutine_live hlive, hslot]
    exact coroAt_eq_some.2 ⟨e, he, hco⟩
  -- the new entry is written into that slot under another handle
  have hafter : (s.m.createManagedCoroutine userData autodelete).mCoroutineData.mData[0]? =
      some ⟨s.m.mCoroutineData.mTracker.grantedHandle,
        { mCoro := some s.m.nextCoro, mAutoDelete := autodelete }⟩ := by
    change (s.m.addCoro _).mData[0]? = _
    rw [addCoro, SSlotMap.getElem?_write, SSlotMap.addIndex_of_lt (by omega) hlt,
      SSlotMap.add_of_lt (by omega) hlt, hid]
    simp [hlength]
  have hsize : (s.m.createManagedCoroutine userData autodelete).mCoroutineData.mData.length ≤
      2 ^ 15 := by
    change (s.m.addCoro _).mData.length ≤ _
    rw [addCoro, SSlotMap.add_of_lt (by omega) hlt]
    exact ((List.length_modify ..).trans (List.length_set ..)).trans_le hs.inv.slots.length_le
  have hgone : (s.m.createManagedCoroutine userData autodelete).mCoroutineData.get e.mHandle =
      none := by
    refine Option.eq_none_iff_forall_ne_some.2 fun i hget => ?_
    obtain ⟨-, hi, e', he', hh⟩ := (SSlotMap.get_eq_some hsize).1 hget
    rw [hi, hslot, hafter] at he'
    obtain rfl := Option.some.inj he'
    have hh' : s.m.createdHandle = e.mHandle := hh
    rw [hh'] at hnew
    exact hnew hlive
  have hnone : (s.m.createManagedCoroutine userData autodelete).getCoroutine e.mHandle = none := by
    rw [getCoroutine, hgone]
  rw [hsame e.mHandle hlive, hbefore] at hnone
  cases hnone

end CallsOk

/-- **Creating disturbs no other coroutine** exactly while a slot is left. -/
theorem create_undisturbed (hs : calls.Run Careful s) (userData : Option ℕ) (autodelete : Bool) :
    Undisturbed s userData autodelete ↔ s.live.length < 2 ^ 15 := by
  have hok := CallsOk.run hs
  have hle : s.live.length ≤ 2 ^ 15 := by
    have hcard : s.live.length + s.m.mCoroutineData.mTracker.mFreeIds.length =
        s.m.mCoroutineData.mData.length := hok.use.card
    have := hok.inv.slots.length_le
    omega
  refine ⟨fun hun => ?_, fun hlt => hok.undisturbed hlt _ _⟩
  exact Nat.lt_of_le_of_ne hle fun hfull => hok.disturbed hfull _ _ hun

/-- `n` coroutines are created. -/
def created (n : ℕ) : Calls :=
  Nat.rec {} (fun _ s => s.step (.createManagedCoroutine none false)) n

theorem created_run (n : ℕ) (hn : n ≤ 2 ^ 15) :
    calls.Run Careful (created n) ∧ (created n).live.length = n := by
  induction n with
  | zero => exact ⟨.init rfl, rfl⟩
  | succ n ih =>
      obtain ⟨hrun, hlength⟩ := ih (Nat.le_of_succ_le hn)
      have hlt : (created n).live.length < 2 ^ 15 := by
        rw [hlength]
        exact hn
      refine ⟨hrun.step (i := .createManagedCoroutine none false) hlt rfl, ?_⟩
      change ((created n).live ++ [_]).length = n + 1
      rw [List.length_append, hlength]
      rfl

theorem create_undisturbed_three :
    Undisturbed (created 3) none true ↔ (created 3).live.length < 2 ^ 15 :=
  create_undisturbed (created_run 3 (by decide)).1 none true

/-- The coroutine after the first `2 ^ 15` ones overwrites one of them. -/
theorem create_disturbs :
    ¬∀ s, calls.Reachable s → ∀ userData autodelete, Undisturbed s userData autodelete := by
  intro hall
  obtain ⟨hrun, hfull⟩ := created_run (2 ^ 15) (Nat.le_refl _)
  have hreach : calls.Reachable (created (2 ^ 15)) := hrun.mono fun _ _ _ => trivial
  exact (CallsOk.run hrun).disturbed hfull none false (hall _ hreach none false)

end CoroutineManager

end ServerBase
