import ServerBase.Coroutines.Manager
import ServerBase.Lib.History
import ServerBase.Lib.Ledger

/-!
# Who owns a coroutine

**The ledger** (`Inv.balanced`). Every coroutine created so far is held by an entry of the slot map,
or by an entry of the vector, or was destroyed, and each only once.

**User data** (`Inv.frees`). The same ledger for the user data the manager has to free: it is still
to be freed, or was freed once.

**Slots** (`Inv.live_iff`). An entry of the slot map holds a coroutine exactly if it is not deleted.

Each operation of the manager keeps the invariant; `destroyCoroutine` does unless it is given what a
removed slot stores, or the coroutine that runs.
-/

namespace ServerBase

open Ledger History

namespace CoroutineManager

def Event.destroyed? : Event → Option CoroPtr
  | .destroyed co => some co
  | _ => none

def Event.freed? : Event → Option CoroPtr
  | .freed co _ _ => some co
  | _ => none

def Event.entersAll : Event → Bool
  | .destroyAll => true
  | _ => false

def Event.leavesAll : Event → Bool
  | .allDestroyed => true
  | _ => false

/-- `DestroyAllCoroutines` runs. -/
def InDestroyAll (before : List Event) : Prop :=
  Since Event.entersAll Event.leavesAll before = true

/-- User data is freed before its coroutine is destroyed, and outside of `DestroyAllCoroutines` only
when the coroutine is dead. -/
def FreedInOrder (e : Event) (before : List Event) : Prop :=
  match e with
  | .freed co _ state => .destroyed co ∉ before ∧ (state = .dead ∨ InDestroyAll before)
  | _ => True

theorem inDestroyAll_append {es before : List Event}
    (hes : ∀ e ∈ es, e.entersAll = false ∧ e.leavesAll = false) (h : InDestroyAll before) :
    InDestroyAll (es ++ before) :=
  (since_append (fun e he => (hes e he).1) fun e he => (hes e he).2).trans h

section Lists

variable (m : CoroutineManager)

/-- The coroutines of the slot map. -/
def managed : List CoroPtr := (m.mCoroutineData.mData.map Entry.val).filterMap Coro.mCoro

/-- The coroutines of the vector. -/
def untracked : List CoroPtr := m.mUntrackedCoroutines.filterMap Coro2.mCoro

def destroyed : List CoroPtr := m.log.filterMap Event.destroyed?

def freed : List CoroPtr := m.log.filterMap Event.freed?

/-- The coroutine of an entry whose user data is to be freed. -/
def owes (coro : Coro2) : Option CoroPtr :=
  match coro.mCoro with
  | none => none
  | some co => if coro.mUserDataFreeCb ∧ (m.coros co).userData.isSome then some co else none

/-- The coroutines whose user data is still to be freed. -/
def pending : List CoroPtr := m.mUntrackedCoroutines.filterMap m.owes

/-- Every coroutine but the running one is suspended or dead. -/
def Settled (running : Option CoroPtr) : Prop :=
  ∀ co, some co ≠ running → (m.coros co).state = .suspended ∨ (m.coros co).state = .dead

end Lists

/-- Who owns what, while `running` runs; `owed` are the coroutines with user data to be freed. -/
structure Owns (m : CoroutineManager) (running : Option CoroPtr) (owed : List CoroPtr) : Prop where
  isCoro : ∀ coro ∈ m.mUntrackedCoroutines, coro.mCoro.isSome
  balanced : Ledger.Balanced (List.range m.nextCoro) (m.managed ++ m.untracked) m.destroyed
  frees : Ledger.Balanced owed m.pending m.freed
  owed_nodup : owed.Nodup
  owed_lt : ∀ co ∈ owed, co < m.nextCoro
  settled : m.Settled running
  order : AtEach FreedInOrder m.log

/-- The invariant between two operations. -/
structure Inv (m : CoroutineManager) (running : Option CoroPtr) (owed : List CoroPtr) : Prop
    extends Owns m running owed where
  slots : m.mCoroutineData.Inv
  live_iff : ∀ (i : ℕ) (e : Entry Coro), m.mCoroutineData.mData[i]? = some e →
    (deletedBit e.mHandle = true ↔ e.val.mCoro = none)
  card : m.managed.length + m.mCoroutineData.mTracker.mFreeIds.length =
    m.mCoroutineData.mData.length

variable {m : CoroutineManager} {running : Option CoroPtr} {owed : List CoroPtr}
  {h : ObjectHandle} {co : CoroPtr} {i : ℕ} {coro : Coro2}

theorem inv_init : Inv {} none [] where
  slots := SSlotMap.inv_init
  live_iff := by simp
  card := rfl
  isCoro := by simp
  balanced := balanced_nil
  frees := balanced_nil
  owed_nodup := List.nodup_nil
  owed_lt := by simp
  settled := fun _ _ => .inl rfl
  order := trivial

namespace Inv

/-- What is held is below the counter and was not destroyed. -/
theorem lt_of_held (hm : Inv m running owed) (hco : co ∈ m.managed ++ m.untracked) :
    co < m.nextCoro :=
  List.mem_range.1 (hm.balanced.mem_created.2 (.inl hco))

theorem not_destroyed (hm : Inv m running owed) (hco : co ∈ m.managed ++ m.untracked) :
    co ∉ m.destroyed :=
  hm.balanced.not_released List.nodup_range hco

theorem room (hm : Inv m running owed) (hlt : m.managed.length < 2 ^ 15) :
    m.mCoroutineData.mTracker.Room := by
  intro hfree
  have hcard := hm.card
  rw [hfree, List.length_nil] at hcard
  rw [hm.slots.highest]
  omega

end Inv

/-! ## Creating -/

theorem settled_mcoCreate {userData : Option ℕ} (hm : m.Settled running) :
    (m.mcoCreate userData).Settled running := by
  intro co hco
  by_cases hnew : co = m.nextCoro
  · simp [mcoCreate, hnew]
  · simpa [mcoCreate, hnew] using hm co hco

/-- The new coroutine changes nothing about the others. -/
theorem owes_mcoCreate {userData : Option ℕ} (hcoro : coro.mCoro ≠ some m.nextCoro) :
    (m.mcoCreate userData).owes coro = m.owes coro := by
  unfold owes
  cases hco : coro.mCoro with
  | none => rfl
  | some co =>
      have hne : co ≠ m.nextCoro := fun he => hcoro (hco.trans (congrArg some he))
      simp [mcoCreate, hne]

theorem pending_mcoCreate {userData : Option ℕ} (hm : Inv m running owed) :
    m.mUntrackedCoroutines.filterMap (m.mcoCreate userData).owes = m.pending := by
  refine List.filterMap_congr fun coro hcoro => owes_mcoCreate fun hco => ?_
  have hheld : m.nextCoro ∈ m.managed ++ m.untracked :=
    List.mem_append_right _ (List.mem_filterMap.2 ⟨coro, hcoro, hco⟩)
  exact absurd (hm.lt_of_held hheld) (Nat.lt_irrefl _)

theorem Inv.createUntracked (hm : Inv m running owed) (stream : Option StreamId)
    (userData : Option ℕ) (cb : Bool) :
    Inv (m.createUntrackedCoroutine stream userData cb) running
      (if cb ∧ userData.isSome then owed ++ [m.nextCoro] else owed) := by
  have huntracked : (m.createUntrackedCoroutine stream userData cb).untracked =
      m.untracked ++ [m.nextCoro] := List.filterMap_append
  have howes : (m.mcoCreate userData).owes
      { mCoro := some m.nextCoro, mStream := stream, mUserDataFreeCb := cb } =
      if cb ∧ userData.isSome then some m.nextCoro else none := by simp [owes, mcoCreate]
  have hpending : (m.createUntrackedCoroutine stream userData cb).pending =
      m.pending ++ if cb ∧ userData.isSome then [m.nextCoro] else [] := by
    have hold := @pending_mcoCreate _ _ _ userData hm
    rw [← hold]
    refine List.filterMap_append.trans (congrArg _ ?_)
    change List.filterMap (m.mcoCreate userData).owes [_] = _
    rw [List.filterMap_cons, howes]
    split <;> simp_all
  exact {
    slots := hm.slots
    live_iff := hm.live_iff
    card := hm.card
    isCoro := by
      intro coro hcoro
      rcases List.mem_append.1 hcoro with hcoro | hcoro
      · exact hm.isCoro coro hcoro
      · rw [List.mem_singleton.1 hcoro]
        rfl
    balanced := by
      refine hm.balanced.create_range ?_
      rw [huntracked, ← List.append_assoc]
      exact List.perm_append_singleton _ _
    frees := by
      rw [hpending]
      split
      · exact hm.frees.create (List.perm_append_singleton _ _)
      · rw [List.append_nil]
        exact hm.frees
    owed_nodup := by
      split
      · refine List.nodup_append.2 ⟨hm.owed_nodup, List.nodup_singleton _, fun a ha b hb hab => ?_⟩
        obtain rfl := List.mem_singleton.1 hb
        exact absurd (hm.owed_lt a ha) (hab ▸ Nat.lt_irrefl _)
      · exact hm.owed_nodup
    owed_lt := by
      intro co hco
      have hlt : ∀ co ∈ owed, co < m.nextCoro + 1 := fun co hco =>
        Nat.lt_succ_of_lt (hm.owed_lt co hco)
      split at hco
      · rcases List.mem_append.1 hco with hco | hco
        · exact hlt co hco
        · exact List.mem_singleton.1 hco ▸ Nat.lt_succ_self _
      · exact hlt co hco
    settled := settled_mcoCreate hm.settled
    order := hm.order }

/-- The new coroutine is behind the others, or in a slot that held none. -/
theorem managed_createManaged (hm : Inv m running owed) (hlt : m.managed.length < 2 ^ 15)
    (userData : Option ℕ) (autodelete : Bool) :
    (m.createManagedCoroutine userData autodelete).managed.Perm (m.nextCoro :: m.managed) := by
  let coro : Coro := { mCoro := some m.nextCoro, mAutoDelete := autodelete }
  have hroom := hm.room hlt
  have hmanaged : (m.createManagedCoroutine userData autodelete).managed =
      ((m.addCoro coro).mData.map Entry.val).filterMap Coro.mCoro := rfl
  rcases hm.slots.add_write_cases hroom coro with ⟨hf, hdata⟩ | ⟨hf, hid, hdata⟩
  · rw [hmanaged, addCoro, hdata, List.map_append, List.filterMap_append]
    exact List.perm_append_singleton _ _
  · obtain ⟨e, he⟩ : ∃ e, m.mCoroutineData.mData[idOf m.mCoroutineData.mTracker.grantedHandle]? =
        some e := ⟨_, List.getElem?_eq_getElem hid⟩
    have hnone : e.val.mCoro = none := by
      rw [← hm.live_iff _ e he, ← Bool.not_eq_false]
      intro hdel
      have hused := (hm.slots.live_of_not_deleted he hdel).2.2
      rw [SlotMapTracker.idOf_grantedHandle hroom] at hused
      exact IdPool.not_used_granted hused
    have hval : (m.mCoroutineData.mData.map Entry.val)[idOf
        m.mCoroutineData.mTracker.grantedHandle]? = some e.val := by
      rw [List.getElem?_map, he]
      rfl
    rw [hmanaged, addCoro, hdata, List.map_set]
    exact filterMap_fill_perm hval hnone rfl

theorem card_createManaged (hm : Inv m running owed) (hlt : m.managed.length < 2 ^ 15)
    (userData : Option ℕ) (autodelete : Bool) :
    (m.createManagedCoroutine userData autodelete).managed.length +
        m.mCoroutineData.mTracker.grantHandle.mFreeIds.length =
      (m.createManagedCoroutine userData autodelete).mCoroutineData.mData.length := by
  have hroom := hm.room hlt
  have hcard := hm.card
  have hmanaged := (managed_createManaged hm hlt userData autodelete).length_eq
  have hdata : (m.createManagedCoroutine userData autodelete).mCoroutineData.mData.length =
      m.mCoroutineData.mTracker.ids.grant.next :=
    SSlotMap.length_write.trans (hm.slots.length_add hroom)
  have hcount := IdPool.grant_count (p := m.mCoroutineData.mTracker.ids)
  have hnext : m.mCoroutineData.mTracker.ids.next = m.mCoroutineData.mData.length :=
    hm.slots.highest
  have hfree : m.mCoroutineData.mTracker.ids.free.length =
      m.mCoroutineData.mTracker.mFreeIds.length := List.length_map ..
  have hfree' : m.mCoroutineData.mTracker.ids.grant.free.length =
      m.mCoroutineData.mTracker.grantHandle.mFreeIds.length := by
    rw [← SlotMapTracker.ids_grantHandle hroom]
    exact List.length_map ..
  rw [List.length_cons] at hmanaged
  omega

theorem Inv.createManaged (hm : Inv m running owed) (hlt : m.managed.length < 2 ^ 15)
    (userData : Option ℕ) (autodelete : Bool) :
    Inv (m.createManagedCoroutine userData autodelete) running owed := by
  have hroom := hm.room hlt
  have hgranted := SlotMapTracker.plain_grantedHandle m.mCoroutineData.mTracker
  have hdata : ∀ i, (m.createManagedCoroutine userData autodelete).mCoroutineData.mData[i]? = _ :=
    hm.slots.getElem?_add_write hroom { mCoro := some m.nextCoro, mAutoDelete := autodelete }
  exact {
    slots := (hm.slots.add hroom).write _ _
    live_iff := by
      intro i e he
      rw [hdata] at he
      split at he
      · obtain rfl := Option.some.inj he
        simp [hgranted.not_deleted]
      · exact hm.live_iff i e he
    card := card_createManaged hm hlt userData autodelete
    isCoro := hm.isCoro
    balanced := hm.balanced.create_range
      ((managed_createManaged hm hlt userData autodelete).append_right _)
    frees := by
      have hpending : (m.createManagedCoroutine userData autodelete).pending = m.pending :=
        pending_mcoCreate hm
      rw [hpending]
      exact hm.frees
    owed_nodup := hm.owed_nodup
    owed_lt := fun co hco => Nat.lt_succ_of_lt (hm.owed_lt co hco)
    settled := settled_mcoCreate hm.settled
    order := hm.order }

/-! ## States -/

theorem owes_congr {m' : CoroutineManager}
    (h : ∀ co, (m'.coros co).userData = (m.coros co).userData) : m'.owes = m.owes := by
  funext coro
  unfold owes
  cases coro.mCoro with
  | none => rfl
  | some co => simp only [h]

@[simp] theorem userData_setState {state : McoState} {co' : CoroPtr} :
    ((m.setState co state).coros co').userData = (m.coros co').userData := by
  by_cases hco : co' = co
  · simp [setState, hco]
  · simp [setState, hco]

@[simp] theorem state_setState {state : McoState} {co' : CoroPtr} :
    ((m.setState co state).coros co').state = if co' = co then state else (m.coros co').state := by
  by_cases hco : co' = co
  · simp [setState, hco]
  · simp [setState, hco]

@[simp] theorem owes_setState {state : McoState} : (m.setState co state).owes = m.owes :=
  owes_congr fun _ => userData_setState

/-- A change of state that leaves at most `running'` running. -/
theorem Inv.setState (hm : Inv m running owed) {state : McoState} {running' : Option CoroPtr}
    (hsettled : (m.setState co state).Settled running') :
    Inv (m.setState co state) running' owed where
  slots := hm.slots
  live_iff := hm.live_iff
  card := hm.card
  isCoro := hm.isCoro
  balanced := hm.balanced
  frees := by
    have hpending : (m.setState co state).pending = m.pending :=
      congrArg (List.filterMap · m.mUntrackedCoroutines) owes_setState
    rw [hpending]
    exact hm.frees
  owed_nodup := hm.owed_nodup
  owed_lt := hm.owed_lt
  settled := hsettled
  order := hm.order

theorem settled_resume (hm : m.Settled none) : (m.setState co .running).Settled (some co) := by
  intro co' hne
  have hne : co' ≠ co := fun he => hne (congrArg some he)
  rw [state_setState, if_neg hne]
  exact hm co' (by simp)

theorem settled_leave (hm : m.Settled (some co)) {state : McoState}
    (hstate : state = .suspended ∨ state = .dead) : (m.setState co state).Settled none := by
  intro co' _
  rw [state_setState]
  split
  · exact hstate
  · next hne => exact hm co' fun he => hne (Option.some.inj he)

/-! ## Destroying -/

/-- `mco_destroy` of a coroutine that does not run. -/
theorem mcoDestroy_eq (hm : m.Settled running) (hco : some co ≠ running) :
    m.mcoDestroy (some co) = { m.setState co .dead with log := .destroyed co :: m.log } :=
  if_pos (hm co hco)

theorem settled_dead (hm : m.Settled running) : (m.setState co .dead).Settled running := by
  intro co' hne
  rw [state_setState]
  split
  · exact .inr rfl
  · exact hm co' hne

theorem clearCoro_eq {e : Entry Coro} (he : m.mCoroutineData.mData[i]? = some e) :
    m.clearCoro i = { m with
      mCoroutineData := m.mCoroutineData.write i { e.val with mCoro := none } } := by
  have hdata : (m.mCoroutineData.mData.modify i fun e =>
      { e with val := { e.val with mCoro := none } }) =
        (m.mCoroutineData.write i { e.val with mCoro := none }).mData := by
    rw [SSlotMap.modify_of_getElem? he, SSlotMap.write, SSlotMap.modify_of_getElem? he]
  rw [clearCoro, hdata]
  rfl

theorem coroAt_eq_some : m.coroAt i = some co ↔
    ∃ e, m.mCoroutineData.mData[i]? = some e ∧ e.val.mCoro = some co := Option.bind_eq_some_iff

/-- The coroutine of an entry is destroyed and the entry is cleared. -/
theorem destroyEntry_eq (hm : m.Settled running) {e : Entry Coro}
    (he : m.mCoroutineData.mData[i]? = some e) (hval : e.val.mCoro = some co)
    (hco : some co ≠ running) :
    m.destroyEntry i = { m.setState co .dead with
      log := .destroyed co :: m.log
      mCoroutineData := m.mCoroutineData.write i { e.val with mCoro := none } } := by
  rw [destroyEntry, coroAt_eq_some.2 ⟨e, he, hval⟩]
  change (m.mcoDestroy (some co)).clearCoro i = _
  rw [mcoDestroy_eq hm hco]
  exact clearCoro_eq he

/-- Clearing an entry takes its coroutine out of the slot map. -/
theorem managed_write {e : Entry Coro} (he : m.mCoroutineData.mData[i]? = some e)
    (hval : e.val.mCoro = some co) :
    m.managed.Perm (co :: ((m.mCoroutineData.write i { e.val with mCoro := none }).mData.map
      Entry.val).filterMap Coro.mCoro) := by
  rw [SSlotMap.map_val_write]
  refine filterMap_clear_perm ?_ hval rfl
  rw [List.getElem?_map, he]
  rfl

/-- An event that frees nothing has nothing to respect. -/
theorem order_destroyed (h : AtEach FreedInOrder m.log) :
    AtEach FreedInOrder (.destroyed co :: m.log) := ⟨trivial, h⟩

/-- What `DestroyCoroutine` finds is a live entry with its coroutine. -/
theorem Inv.found (hm : Inv m running owed) (hst : ¬m.mCoroutineData.StoredByRemoved h)
    (hget : m.mCoroutineData.get h = some i) :
    Plain h ∧ ∃ e co, m.mCoroutineData.mData[i]? = some e ∧ e.mHandle = h ∧
      e.val.mCoro = some co := by
  obtain ⟨-, hplain, -, e, he, hh⟩ := hm.slots.live_of_get hget hst
  have hsome : e.val.mCoro ≠ none := by
    intro hnone
    rw [← hm.live_iff i e he, hh, hplain.not_deleted] at hnone
    exact absurd hnone (by decide)
  obtain ⟨co, hco⟩ := Option.ne_none_iff_exists'.1 hsome
  exact ⟨hplain, e, co, he, hh, hco⟩

theorem destroyCoroutine_of_none (hget : m.mCoroutineData.get h = none) :
    m.destroyCoroutine h = m := by
  simp [destroyCoroutine, hget, SSlotMap.remove_of_get_none hget]

theorem destroyCoroutine_of_some (hm : m.Settled running) {e : Entry Coro}
    (hget : m.mCoroutineData.get h = some i) (he : m.mCoroutineData.mData[i]? = some e)
    (hval : e.val.mCoro = some co) (hco : some co ≠ running) :
    m.destroyCoroutine h = { m.setState co .dead with
      log := .destroyed co :: m.log
      mCoroutineData := (m.mCoroutineData.write i { e.val with mCoro := none }).remove h } := by
  simp only [destroyCoroutine, hget, destroyEntry_eq hm he hval hco]

theorem Inv.destroyCoroutine (hm : Inv m running owed)
    (hst : ¬m.mCoroutineData.StoredByRemoved h)
    (hrun : ∀ co, m.getCoroutine h = some co → some co ≠ running) :
    Inv (m.destroyCoroutine h) running owed := by
  cases hget : m.mCoroutineData.get h with
  | none =>
      rw [destroyCoroutine_of_none hget]
      exact hm
  | some i =>
      obtain ⟨hplain, e, co, he, hh, hval⟩ := hm.found hst hget
      have hco : some co ≠ running := by
        refine hrun co ?_
        rw [getCoroutine, hget]
        exact coroAt_eq_some.2 ⟨e, he, hval⟩
      have hget' : (m.mCoroutineData.write i { e.val with mCoro := none }).get h = some i := by
        rw [SSlotMap.get_write, hget]
      have hmanaged := managed_write he hval
      have hlength := hmanaged.length_eq
      have hcard := hm.card
      rw [destroyCoroutine_of_some hm.settled hget he hval hco]
      exact {
        slots := (hm.slots.write i _).remove fun hst' => hst (SSlotMap.storedByRemoved_write.1 hst')
        live_iff := by
          intro j e' he'
          rw [SSlotMap.getElem?_remove hget', SSlotMap.getElem?_write] at he'
          by_cases hij : i = j
          · subst hij
            rw [if_pos rfl, he] at he'
            obtain rfl := Option.some.inj he'
            simp [(plain_next h).deletedBit_mark]
          · rw [if_neg hij] at he'
            obtain ⟨e'', he'', rfl⟩ := Option.map_eq_some_iff.1 he'
            simpa [hij] using hm.live_iff j e'' he''
        card := by
          rw [managed, SSlotMap.map_val_remove]
          change _ + ((m.mCoroutineData.write i _).remove h).mTracker.mFreeIds.length =
            ((m.mCoroutineData.write i _).remove h).mData.length
          rw [SSlotMap.length_remove, SSlotMap.length_write, SSlotMap.length_mFreeIds_remove hget']
          change _ + (m.mCoroutineData.mTracker.mFreeIds.length + 1) = _
          rw [List.length_cons] at hlength
          omega
        isCoro := hm.isCoro
        balanced := by
          refine hm.balanced.release (x := co) ?_
          change (m.managed ++ m.untracked).Perm (co :: (((m.mCoroutineData.write i
            _).remove h).mData.map Entry.val).filterMap Coro.mCoro ++ m.untracked)
          rw [SSlotMap.map_val_remove]
          exact hmanaged.append_right _
        frees := by
          refine hm.frees.move (List.Perm.of_eq ?_)
          exact congrArg (List.filterMap · m.mUntrackedCoroutines) owes_setState
        owed_nodup := hm.owed_nodup
        owed_lt := hm.owed_lt
        settled := settled_dead hm.settled
        order := order_destroyed hm.order }

end CoroutineManager

end ServerBase
