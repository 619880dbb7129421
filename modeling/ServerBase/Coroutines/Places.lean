import ServerBase.Coroutines.Process

/-!
# Where a coroutine is

A coroutine is found in a slot of the slot map or at an index of the vector, as long as it is not
destroyed, and it never moves.

**Operations.** `Holds` after each operation that a body may call, in terms of `Holds` before:
creating adds the new coroutine at a place that was empty, destroying takes one coroutine away.
-/

namespace ServerBase

open Ledger

namespace CoroutineManager

/-- A slot of the slot map, or an index of the vector. -/
inductive Place
  | managed (i : ℕ)
  | untracked (i : ℕ)
  deriving DecidableEq

/-- The coroutine at a place. -/
def holder (m : CoroutineManager) : Place → Option CoroPtr
  | .managed i => m.coroAt i
  | .untracked i => (m.mUntrackedCoroutines[i]?).bind Coro2.mCoro

variable {m : CoroutineManager} {running : Option CoroPtr} {owed : List CoroPtr}
  {co : CoroPtr} {place place' : Place} {h : ObjectHandle}

theorem mem_managed_of_coroAt {i : ℕ} (hco : m.coroAt i = some co) : co ∈ m.managed := by
  obtain ⟨e, he, hval⟩ := coroAt_eq_some.1 hco
  refine mem_filterMap_of_getElem? (i := i) ?_ hval
  rw [List.getElem?_map, he]
  rfl

theorem mem_untracked {i : ℕ} (hco : m.holder (.untracked i) = some co) : co ∈ m.untracked := by
  obtain ⟨coro, hi, hval⟩ := Option.bind_eq_some_iff.1 hco
  exact mem_filterMap_of_getElem? hi hval

theorem mem_held (hco : m.holder place = some co) : co ∈ m.managed ++ m.untracked := by
  cases place with
  | managed i => exact List.mem_append_left _ (mem_managed_of_coroAt hco)
  | untracked i => exact List.mem_append_right _ (mem_untracked hco)

/-- A coroutine is at one place only. -/
theorem place_ext (hm : Owns m running owed) (hco : m.holder place = some co)
    (hco' : m.holder place' = some co) : place = place' := by
  have hnodup := hm.balanced.held_nodup List.nodup_range
  obtain ⟨hmanaged, huntracked, hne⟩ := List.nodup_append.1 hnodup
  cases place with
  | managed i =>
      cases place' with
      | managed j =>
          obtain ⟨e, he, hval⟩ := coroAt_eq_some.1 hco
          obtain ⟨e', he', hval'⟩ := coroAt_eq_some.1 hco'
          have hi : (m.mCoroutineData.mData.map Entry.val)[i]? = some e.val := by simp [he]
          have hj : (m.mCoroutineData.mData.map Entry.val)[j]? = some e'.val := by simp [he']
          exact congrArg _ (slot_ext hmanaged hi hval hj hval')
      | untracked j => exact absurd rfl (hne co (mem_managed_of_coroAt hco) co (mem_untracked hco'))
  | untracked i =>
      cases place' with
      | managed j => exact absurd rfl (hne co (mem_managed_of_coroAt hco') co (mem_untracked hco))
      | untracked j =>
          obtain ⟨coro, hi, hval⟩ := Option.bind_eq_some_iff.1 hco
          obtain ⟨coro', hj, hval'⟩ := Option.bind_eq_some_iff.1 hco'
          exact congrArg _ (slot_ext huntracked hi hval hj hval')

/-- What a loop of `StepCoroutines` resumes at a place. -/
def suspendedAt (m : CoroutineManager) : Place → Option CoroPtr
  | .managed i => m.suspendedManaged i
  | .untracked i => m.suspendedUntracked i

theorem suspendedAt_eq_some (hm : Inv m running owed) :
    m.suspendedAt place = some co ↔
      m.holder place = some co ∧ (m.coros co).state = .suspended := by
  cases place with
  | managed i =>
      change m.suspendedManaged i = some co ↔ m.coroAt i = some co ∧ _
      rw [coroAt_eq_some]
      unfold suspendedManaged
      constructor
      · intro h
        split at h
        · cases h
        · next e he =>
          split at h
          · cases h
          · next co' hval =>
            obtain ⟨hstate, rfl⟩ : (m.coros co').state = .suspended ∧ co' = co := by
              simpa using h
            exact ⟨⟨e, (SSlotMap.entryAt_eq_some.1 he).1, hval⟩, hstate⟩
      · rintro ⟨⟨e, he, hval⟩, hstate⟩
        have hdel : deletedBit e.mHandle = false := by
          rw [Bool.eq_false_iff, ne_eq, hm.live_iff i e he, hval]
          simp
        simp [SSlotMap.entryAt_eq_some.2 ⟨he, hdel⟩, hval, hstate]
  | untracked i =>
      change m.suspendedUntracked i = some co ↔ (m.mUntrackedCoroutines[i]?).bind _ = some co ∧ _
      unfold suspendedUntracked
      cases m.mUntrackedCoroutines[i]? with
      | none => simp
      | some coro =>
          cases hval : coro.mCoro with
          | none => simp [hval]
          | some co' =>
              simp only [Option.bind_some, hval, Option.ite_none_right_eq_some, Option.some.injEq]
              constructor
              · rintro ⟨hstate, rfl⟩
                exact ⟨rfl, hstate⟩
              · rintro ⟨rfl, hstate⟩
                exact ⟨hstate, rfl⟩

theorem lt_of_holder (hm : Inv m running owed) (hco : m.holder place = some co) :
    co < m.nextCoro :=
  hm.lt_of_held (mem_held hco)

/-! ## Creating -/

/-- What creating a coroutine does to the places: it puts the new one at an empty one. -/
structure Created (m m' : CoroutineManager) : Prop where
  next : m'.nextCoro = m.nextCoro + 1
  kept : ∀ place co, m.holder place = some co → m'.holder place = some co
  new : ∀ place co, m'.holder place = some co → m.holder place = some co ∨ co = m.nextCoro
  state : ∀ co, co ≠ m.nextCoro → (m'.coros co).state = (m.coros co).state
  size : m.mCoroutineData.mData.length ≤ m'.mCoroutineData.mData.length

theorem state_mcoCreate {userData : Option ℕ} (hco : co ≠ m.nextCoro) :
    ((m.mcoCreate userData).coros co).state = (m.coros co).state := by
  simp [mcoCreate, hco]

theorem created_untracked (stream : Option StreamId) (userData : Option ℕ) (cb : Bool) :
    Created m (m.createUntrackedCoroutine stream userData cb) where
  next := rfl
  kept := by
    intro place co hco
    cases place with
    | managed i => exact hco
    | untracked i =>
        obtain ⟨coro, hi, hval⟩ := Option.bind_eq_some_iff.1 hco
        refine Option.bind_eq_some_iff.2 ⟨coro, ?_, hval⟩
        exact (List.getElem?_append_left (List.getElem?_eq_some_iff.1 hi).1).trans hi
  new := by
    intro place co hco
    cases place with
    | managed i => exact .inl hco
    | untracked i =>
        obtain ⟨coro, hi, hval⟩ := Option.bind_eq_some_iff.1 hco
        change (m.mUntrackedCoroutines ++ [_])[i]? = some coro at hi
        rw [List.getElem?_append] at hi
        split at hi
        · exact .inl (Option.bind_eq_some_iff.2 ⟨coro, hi, hval⟩)
        · obtain rfl := List.mem_singleton.1 (List.mem_of_getElem? hi)
          exact .inr (Option.some.inj hval).symm
  state := fun co hco => state_mcoCreate hco
  size := Nat.le_refl _

theorem created_managed (hm : Inv m running owed) (hlt : m.managed.length < 2 ^ 15)
    (userData : Option ℕ) (autodelete : Bool) :
    Created m (m.createManagedCoroutine userData autodelete) := by
  have hroom := hm.room hlt
  have hdata : ∀ i, (m.createManagedCoroutine userData autodelete).mCoroutineData.mData[i]? = _ :=
    hm.slots.getElem?_add_write hroom { mCoro := some m.nextCoro, mAutoDelete := autodelete }
  exact {
    next := rfl
    kept := by
      intro place co hco
      cases place with
      | untracked i => exact hco
      | managed i =>
          obtain ⟨e, he, hval⟩ := coroAt_eq_some.1 hco
          refine coroAt_eq_some.2 ⟨e, ?_, hval⟩
          rw [hdata, if_neg, he]
          -- a slot that holds a coroutine is not granted
          intro hi
          have hdel : deletedBit e.mHandle = false := by
            rw [Bool.eq_false_iff, ne_eq, hm.live_iff i e he, hval]
            simp
          have hused := (hm.slots.live_of_not_deleted he hdel).2.2
          rw [hi, SlotMapTracker.idOf_grantedHandle hroom] at hused
          exact IdPool.not_used_granted hused
    new := by
      intro place co hco
      cases place with
      | untracked i => exact .inl hco
      | managed i =>
          obtain ⟨e, he, hval⟩ := coroAt_eq_some.1 hco
          rw [hdata] at he
          split at he
          · obtain rfl := Option.some.inj he
            exact .inr (Option.some.inj hval).symm
          · exact .inl (coroAt_eq_some.2 ⟨e, he, hval⟩)
    state := fun co hco => state_mcoCreate hco
    size := by
      have hlength := hm.slots.length_add hroom
      have hnext : m.mCoroutineData.mTracker.ids.next = m.mCoroutineData.mData.length :=
        hm.slots.highest
      have hgrant : m.mCoroutineData.mTracker.ids.next ≤
          m.mCoroutineData.mTracker.ids.grant.next := IdPool.next_le_grant
      have hwrite : (m.createManagedCoroutine userData autodelete).mCoroutineData.mData.length =
          m.mCoroutineData.add.mData.length := SSlotMap.length_write
      omega }

/-! ## Destroying -/

/-- What destroying under a handle does to the places: the coroutine that is found goes away. -/
structure Destroyed (m m' : CoroutineManager) (h : ObjectHandle) : Prop where
  next : m'.nextCoro = m.nextCoro
  holder : ∀ place co, m'.holder place = some co ↔
    m.holder place = some co ∧ m.getCoroutine h ≠ some co
  state : ∀ co, m.getCoroutine h ≠ some co → (m'.coros co).state = (m.coros co).state
  size : m'.mCoroutineData.mData.length = m.mCoroutineData.mData.length

theorem destroyed_destroyCoroutine (hm : Inv m running owed)
    (hst : ¬m.mCoroutineData.StoredByRemoved h)
    (hrun : ∀ co, m.getCoroutine h = some co → some co ≠ running) :
    Destroyed m (m.destroyCoroutine h) h := by
  cases hget : m.mCoroutineData.get h with
  | none =>
      have hnone : m.getCoroutine h = none := by simp [getCoroutine, hget]
      rw [destroyCoroutine_of_none hget]
      exact ⟨rfl, by simp [hnone], fun _ _ => rfl, rfl⟩
  | some i =>
      obtain ⟨-, e, co, he, -, hval⟩ := hm.found hst hget
      have hat : m.coroAt i = some co := coroAt_eq_some.2 ⟨e, he, hval⟩
      have hfound : m.getCoroutine h = some co := by simp [getCoroutine, hget, hat]
      have hget' : (m.mCoroutineData.write i { e.val with mCoro := none }).get h = some i := by
        rw [SSlotMap.get_write, hget]
      have heq := destroyCoroutine_of_some hm.settled hget he hval (hrun co hfound)
      have hcoroAt : ∀ j, (m.destroyCoroutine h).coroAt j = if j = i then none else m.coroAt j := by
        intro j
        rw [heq]
        change (((m.mCoroutineData.write i _).remove h).mData[j]?).bind _ = _
        rw [SSlotMap.getElem?_remove hget', SSlotMap.getElem?_write]
        by_cases hj : j = i
        · simp [hj, he]
        · rw [if_neg (Ne.symm hj), if_neg hj, coroAt, Option.bind_map]
          simp only [if_neg (Ne.symm hj)]
          rfl
      refine ⟨by rw [heq]; rfl, fun place co' => ?_, fun co' hco' => ?_, ?_⟩
      · rw [hfound]
        cases place with
        | managed j =>
            change (m.destroyCoroutine h).coroAt j = some co' ↔ m.coroAt j = some co' ∧ _
            rw [hcoroAt]
            by_cases hj : j = i
            · rw [if_pos hj, hj, hat]
              simp
            · rw [if_neg hj]
              refine ⟨fun hco' => ⟨hco', fun hco => ?_⟩, fun hco' => hco'.1⟩
              obtain rfl := Option.some.inj hco
              have hplace : Place.managed j = .managed i := place_ext hm.toOwns hco' hat
              exact hj (Place.managed.inj hplace)
        | untracked j =>
            have huntracked : (m.destroyCoroutine h).holder (.untracked j) =
                m.holder (.untracked j) := by rw [heq]; rfl
            rw [huntracked]
            refine ⟨fun hco' => ⟨hco', fun hco => ?_⟩, fun hco' => hco'.1⟩
            obtain rfl := Option.some.inj hco
            have hplace : Place.untracked j = .managed i := place_ext hm.toOwns hco' hat
            cases hplace
      · rw [heq]
        change ((m.setState co .dead).coros co').state = _
        rw [state_setState, if_neg]
        intro hco
        exact hco' (hfound.trans (congrArg some hco.symm))
      · rw [heq]
        exact SSlotMap.length_remove.trans SSlotMap.length_write

end CoroutineManager

end ServerBase
