import ServerBase.Coroutines.Accounts

/-!
# Reaping

`CleanupDeadCoroutines` and `DestroyAllCoroutines` on the ledger of coroutines.

**One entry** (`reap_eq`). What the two functions do with an entry of the vector: the user data is
freed where it is owed, then the coroutine is destroyed.

**Cleanup** (`mUntrackedCoroutines_cleanup`). The dead entries are erased while the loop runs over
the vector; what is left are the others, in their order.

**Destroying everything** (`Inv.destroyAll`, `destroyed_destroyAll`). Nothing is held afterwards.
-/

namespace ServerBase

open Ledger History

namespace CoroutineManager

variable {m : CoroutineManager} {owed : List CoroPtr} {co : CoroPtr} {i : ℕ} {coro : Coro2}

/-! ## One entry of the vector -/

/-- What `SAFE_UV_CLOSE` records. -/
def Event.ofStream : Event → Bool
  | .uvClose _ => true
  | .nullStream => true
  | _ => false

theorem safeUvClose_eq (stream : Option StreamId) :
    ∃ closing es, (∀ e ∈ es, e.ofStream = true) ∧
      m.safeUvClose stream = { m with closing := closing, log := es ++ m.log } := by
  cases stream with
  | none => exact ⟨m.closing, [.nullStream], by simp [Event.ofStream], rfl⟩
  | some stream =>
      unfold safeUvClose
      by_cases hclosing : m.closing stream = true
      · exact ⟨m.closing, [], by simp, if_pos hclosing⟩
      · exact ⟨_, [.uvClose stream], by simp [Event.ofStream], if_neg hclosing⟩

/-- The event of the callback, where user data is owed. -/
def freeEvents (m : CoroutineManager) (coro : Coro2) : List Event :=
  match coro.mCoro with
  | none => []
  | some co =>
      match (m.coros co).userData with
      | none => []
      | some data => if coro.mUserDataFreeCb then [.freed co data (m.coros co).state] else []

theorem freeUserData_eq : m.freeUserData coro = { m with log := m.freeEvents coro ++ m.log } := by
  unfold freeUserData freeEvents
  cases coro.mCoro with
  | none => rfl
  | some co =>
      cases hdata : (m.coros co).userData with
      | none => simp [hdata]
      | some data => cases hcb : coro.mUserDataFreeCb <;> simp [hdata]

theorem filterMap_freed_freeEvents :
    (m.freeEvents coro).filterMap Event.freed? = (m.owes coro).toList := by
  unfold freeEvents owes
  cases coro.mCoro with
  | none => rfl
  | some co =>
      cases hdata : (m.coros co).userData with
      | none => simp [hdata]
      | some data => cases hcb : coro.mUserDataFreeCb <;> simp [hdata, Event.freed?]

theorem freeEvents_cases (hco : coro.mCoro = some co) :
    m.freeEvents coro = [] ∨
      ∃ data, m.freeEvents coro = [.freed co data (m.coros co).state] := by
  unfold freeEvents
  simp only [hco]
  split
  · exact .inl rfl
  · next data _ =>
    split
    · exact .inr ⟨data, rfl⟩
    · exact .inl rfl

/-- What reaping an entry does: the events, newest first, are those of the stream, the destroyed
coroutine and the freed user data. -/
theorem reap_eq (hm : m.Settled none) (hco : coro.mCoro = some co) :
    ∃ closing es, (∀ e ∈ es, e.ofStream = true) ∧
      m.reap coro = { m.setState co .dead with
        closing := closing
        log := es ++ .destroyed co :: (m.freeEvents coro ++ m.log) } := by
  have hfree : m.freeUserData coro = { m with log := m.freeEvents coro ++ m.log } :=
    freeUserData_eq
  have hsettled : (m.freeUserData coro).Settled none := hfree ▸ hm
  obtain ⟨closing, es, hes, hclose⟩ :=
    safeUvClose_eq (m := (m.freeUserData coro).mcoDestroy (some co)) coro.mStream
  refine ⟨closing, es, hes, ?_⟩
  rw [reap, hco, hclose, mcoDestroy_eq hsettled (by simp), hfree]
  rfl

theorem filterMap_ofStream {β : Type*} {f : Event → Option β} {es : List Event}
    (hes : ∀ e ∈ es, e.ofStream = true) (hf : ∀ e, e.ofStream = true → f e = none) :
    es.filterMap f = [] :=
  List.filterMap_eq_nil_iff.2 fun e he => hf e (hes e he)

theorem destroyed_of_stream (e : Event) (he : e.ofStream = true) : e.destroyed? = none := by
  cases e <;> simp_all [Event.ofStream, Event.destroyed?]

theorem freed_of_stream (e : Event) (he : e.ofStream = true) : e.freed? = none := by
  cases e <;> simp_all [Event.ofStream, Event.freed?]

theorem not_ofAll_of_stream (e : Event) (he : e.ofStream = true) :
    e.entersAll = false ∧ e.leavesAll = false := by
  cases e <;> simp_all [Event.ofStream, Event.entersAll, Event.leavesAll]

/-- What reaping an entry means for the ledgers. -/
structure Reaped (m m' : CoroutineManager) (coro : Coro2) (co : CoroPtr) : Prop where
  data : m'.mCoroutineData = m.mCoroutineData
  vector : m'.mUntrackedCoroutines = m.mUntrackedCoroutines
  next : m'.nextCoro = m.nextCoro
  coros : m'.coros = (m.setState co .dead).coros
  destroyed : m'.destroyed = co :: m.destroyed
  freed : m'.freed = (m.owes coro).toList ++ m.freed
  order : co ∉ m.destroyed → ((m.coros co).state = .dead ∨ InDestroyAll m.log) →
    AtEach FreedInOrder m.log → AtEach FreedInOrder m'.log
  inAll : InDestroyAll m.log → InDestroyAll m'.log

theorem mem_destroyed : co ∈ m.destroyed ↔ .destroyed co ∈ m.log := by
  unfold destroyed
  rw [List.mem_filterMap]
  constructor
  · rintro ⟨e, he, hco⟩
    cases e with
    | destroyed co' =>
        obtain rfl := Option.some.inj hco
        exact he
    | _ => cases hco
  · exact fun he => ⟨_, he, rfl⟩

theorem reaped_reap (hm : m.Settled none) (hco : coro.mCoro = some co) :
    Reaped m (m.reap coro) coro co := by
  obtain ⟨closing, es, hes, hreap⟩ := reap_eq hm hco
  have hfree := freeEvents_cases (m := m) hco
  have hnotDestroyed : (m.freeEvents coro).filterMap Event.destroyed? = [] := by
    rcases hfree with hfree | ⟨data, hfree⟩ <;> rw [hfree] <;> rfl
  rw [hreap]
  exact {
    data := rfl
    vector := rfl
    next := rfl
    coros := rfl
    destroyed := by
      change (es ++ .destroyed co :: (m.freeEvents coro ++ m.log)).filterMap _ = _
      rw [List.filterMap_append, filterMap_ofStream hes destroyed_of_stream, List.filterMap_cons,
        List.filterMap_append, hnotDestroyed]
      rfl
    freed := by
      change (es ++ .destroyed co :: (m.freeEvents coro ++ m.log)).filterMap _ = _
      rw [List.filterMap_append, filterMap_ofStream hes freed_of_stream, List.filterMap_cons,
        List.filterMap_append, filterMap_freed_freeEvents]
      rfl
    order := by
      intro hnot hdead horder
      refine AtEach.append (fun e he before => ?_) ⟨trivial, ?_⟩
      · have := hes e he
        cases e <;> simp_all [Event.ofStream, FreedInOrder]
      · rcases hfree with hfree | ⟨data, hfree⟩
        · rw [hfree]
          exact horder
        · rw [hfree]
          exact ⟨⟨fun hmem => hnot (mem_destroyed.2 hmem), hdead⟩, horder⟩
    inAll := by
      intro hall
      have hdestroyed : InDestroyAll (.destroyed co :: (m.freeEvents coro ++ m.log)) := by
        refine (since_cons_of_other rfl rfl).trans (inDestroyAll_append ?_ hall)
        rcases hfree with hfree | ⟨data, hfree⟩ <;> rw [hfree] <;>
          simp [Event.entersAll, Event.leavesAll]
      exact inDestroyAll_append (fun e he => not_ofAll_of_stream e (hes e he)) hdestroyed }

namespace Reaped

variable {m' : CoroutineManager}

theorem owes_eq (hr : Reaped m m' coro co) : m'.owes = m.owes :=
  owes_congr fun co' => by rw [hr.coros, userData_setState]

theorem settled (hr : Reaped m m' coro co) (hm : m.Settled none) : m'.Settled none := by
  have hdead : (m.setState co .dead).Settled none := settled_dead hm
  intro co' hne
  rw [hr.coros]
  exact hdead co' hne

/-- The ledgers when the entry is no longer among those that hold something. -/
theorem balanced (hr : Reaped m m' coro co) {created rest others : List CoroPtr}
    (hb : Ledger.Balanced created (others ++ co :: rest) m.destroyed) :
    Ledger.Balanced created (others ++ rest) m'.destroyed := by
  rw [hr.destroyed]
  exact hb.release List.perm_middle

theorem frees (hr : Reaped m m' coro co) {rest : List CoroPtr}
    (hb : Ledger.Balanced owed ((m.owes coro).toList ++ rest) m.freed) :
    Ledger.Balanced owed rest m'.freed := by
  rw [hr.freed]
  cases howes : m.owes coro with
  | none => rwa [howes] at hb
  | some co' =>
      rw [howes] at hb
      exact hb.release (List.Perm.refl _)

end Reaped

/-! ## Cleanup -/

/-- Erasing a reaped entry keeps the invariant. -/
theorem Inv.reap_erase (hm : Inv m none owed) (hi : m.mUntrackedCoroutines[i]? = some coro)
    (hdead : m.isDead coro = true) :
    Inv { m.reap coro with mUntrackedCoroutines := m.mUntrackedCoroutines.eraseIdx i } none
      owed := by
  have hmem := List.mem_of_getElem? hi
  obtain ⟨co, hco⟩ := Option.isSome_iff_exists.1 (hm.isCoro coro hmem)
  have hr := reaped_reap hm.settled hco
  have huntracked : m.untracked.Perm
      (co :: (m.mUntrackedCoroutines.eraseIdx i).filterMap Coro2.mCoro) := by
    have hperm := filterMap_eraseIdx_perm (f := Coro2.mCoro) hi
    rwa [hco] at hperm
  have hnot : co ∉ m.destroyed :=
    hm.not_destroyed (List.mem_append_right _ (List.mem_filterMap.2 ⟨coro, hmem, hco⟩))
  have hstate : (m.coros co).state = .dead := by simpa [isDead, hco] using hdead
  have hmanaged : (m.reap coro).managed = m.managed := by rw [managed, managed, hr.data]
  exact {
    isCoro := fun coro' hcoro' => hm.isCoro coro' (List.mem_of_mem_eraseIdx hcoro')
    balanced := by
      change Ledger.Balanced (List.range (m.reap coro).nextCoro) ((m.reap coro).managed ++
        (m.mUntrackedCoroutines.eraseIdx i).filterMap Coro2.mCoro) (m.reap coro).destroyed
      rw [hmanaged, hr.next]
      exact hr.balanced (hm.balanced.move (huntracked.symm.append_left _))
    frees := by
      change Ledger.Balanced owed ((m.mUntrackedCoroutines.eraseIdx i).filterMap (m.reap coro).owes)
        (m.reap coro).freed
      rw [hr.owes_eq]
      exact hr.frees (hm.frees.move (filterMap_eraseIdx_perm hi).symm)
    owed_nodup := hm.owed_nodup
    owed_lt := fun co' hco' => (hm.owed_lt co' hco').trans_eq hr.next.symm
    settled := hr.settled hm.settled
    order := hr.order hnot (.inl hstate) hm.order
    slots := by
      change (m.reap coro).mCoroutineData.Inv
      rw [hr.data]
      exact hm.slots
    live_iff := by
      change ∀ (i : ℕ) (e : Entry Coro), (m.reap coro).mCoroutineData.mData[i]? = some e → _
      rw [hr.data]
      exact hm.live_iff
    card := by
      change (m.reap coro).managed.length + (m.reap coro).mCoroutineData.mTracker.mFreeIds.length =
        (m.reap coro).mCoroutineData.mData.length
      rw [hmanaged, hr.data]
      exact hm.card }

theorem Inv.cleanupUntracked (hm : Inv m none owed) (n : ℕ) :
    Inv (m.cleanupUntracked i n) none owed := by
  induction n generalizing m i with
  | zero => exact hm
  | succ n ih =>
      unfold CoroutineManager.cleanupUntracked
      split
      · exact hm
      · next coro hi =>
        split
        · next hdead => exact ih (hm.reap_erase hi hdead)
        · exact ih hm

/-- Reaping the dead changes no state. -/
theorem state_reap (hm : m.Settled none) (hcoro : coro.mCoro.isSome)
    (hdead : m.isDead coro = true) (co : CoroPtr) :
    ((m.reap coro).coros co).state = (m.coros co).state := by
  obtain ⟨co', hco'⟩ := Option.isSome_iff_exists.1 hcoro
  have hstate : (m.coros co').state = .dead := by simpa [isDead, hco'] using hdead
  rw [(reaped_reap hm hco').coros, state_setState]
  split
  · next he => rw [he, hstate]
  · rfl

theorem isDead_congr {m' : CoroutineManager}
    (h : ∀ co, (m'.coros co).state = (m.coros co).state) : m'.isDead = m.isDead := by
  funext coro
  unfold isDead
  cases coro.mCoro with
  | none => rfl
  | some co => simp only [h]

/-- The loop erases the dead entries behind `i` and keeps the others in their order. -/
theorem mUntrackedCoroutines_cleanupUntracked (hm : Inv m none owed) {n : ℕ}
    (hn : m.mUntrackedCoroutines.length ≤ i + n) :
    (m.cleanupUntracked i n).mUntrackedCoroutines =
      m.mUntrackedCoroutines.take i ++
        (m.mUntrackedCoroutines.drop i).filter fun coro => !m.isDead coro := by
  induction n generalizing m i with
  | zero =>
      have hle : m.mUntrackedCoroutines.length ≤ i := hn
      rw [List.drop_eq_nil_of_le hle, List.take_of_length_le hle, List.filter_nil, List.append_nil]
      rfl
  | succ n ih =>
      unfold cleanupUntracked
      split
      · next hnone =>
        have hle := List.getElem?_eq_none_iff.1 hnone
        rw [List.drop_eq_nil_of_le hle, List.take_of_length_le hle, List.filter_nil,
          List.append_nil]
      · next coro hi =>
        obtain ⟨hlt, hget⟩ := List.getElem?_eq_some_iff.1 hi
        have hdrop : m.mUntrackedCoroutines.drop i =
            coro :: m.mUntrackedCoroutines.drop (i + 1) := by
          rw [List.drop_eq_getElem_cons hlt, hget]
        split
        · next hdead =>
          have hstate := state_reap hm.settled (hm.isCoro coro (List.mem_of_getElem? hi)) hdead
          have hisDead : CoroutineManager.isDead { m.reap coro with
              mUntrackedCoroutines := m.mUntrackedCoroutines.eraseIdx i } = m.isDead :=
            isDead_congr hstate
          have hlength : (m.mUntrackedCoroutines.eraseIdx i).length ≤ i + n := by
            rw [List.length_eraseIdx_of_lt hlt]
            omega
          rw [ih (hm.reap_erase hi hdead) hlength, hisDead, hdrop]
          change (m.mUntrackedCoroutines.eraseIdx i).take i ++
            ((m.mUntrackedCoroutines.eraseIdx i).drop i).filter _ = _
          rw [List.filter_cons_of_neg (by simp [hdead]), List.eraseIdx_eq_take_drop_succ]
          have htake : (m.mUntrackedCoroutines.take i).length = i :=
            List.length_take_of_le (Nat.le_of_lt hlt)
          rw [List.take_append_of_le_length (by omega), List.take_of_length_le (by omega),
            List.drop_append_of_le_length (by omega), List.drop_of_length_le (by omega)]
          rfl
        · next hdead =>
          rw [ih hm (by omega), hdrop, List.filter_cons_of_pos (by simp [hdead]),
            List.take_add_one, hi]
          simp

/-- What one entry of the slot map means for the cleanup. -/
structure CleanedUp (m m' : CoroutineManager) : Prop where
  vector : m'.mUntrackedCoroutines = m.mUntrackedCoroutines
  state : ∀ co, (m'.coros co).state = (m.coros co).state

theorem cleanupEntry_spec (hm : Inv m none owed) (i : ℕ) :
    Inv (m.cleanupEntry i) none owed ∧ CleanedUp m (m.cleanupEntry i) := by
  have hsame : Inv m none owed ∧ CleanedUp m m := ⟨hm, rfl, fun _ => rfl⟩
  unfold cleanupEntry
  split
  · exact hsame
  · next e hentry =>
    split
    · exact hsame
    · next co hco =>
      split
      · next hdead =>
        obtain ⟨he, hdel⟩ := SSlotMap.entryAt_eq_some.1 hentry
        obtain ⟨hplain, hid, -⟩ := hm.slots.live_of_not_deleted he hdel
        have hst := SSlotMap.not_storedByRemoved (m := m.mCoroutineData) hplain
        have hget : m.mCoroutineData.get e.mHandle = some i :=
          (SSlotMap.get_eq_some hm.slots.length_le).2 ⟨hplain.ne_null, hid.symm, e, he, rfl⟩
        refine ⟨hm.destroyCoroutine hst (by simp), ?_⟩
        rw [destroyCoroutine_of_some hm.settled hget he hco (by simp)]
        refine ⟨rfl, fun co' => ?_⟩
        change ((m.setState co .dead).coros co').state = _
        rw [state_setState]
        split
        · next heq => rw [heq, hdead.2]
        · rfl
      · exact hsame

theorem cleanupEntries_spec (hm : Inv m none owed) (is : List ℕ) :
    Inv (is.foldl cleanupEntry m) none owed ∧ CleanedUp m (is.foldl cleanupEntry m) := by
  induction is generalizing m with
  | nil => exact ⟨hm, rfl, fun _ => rfl⟩
  | cons i is ih =>
      obtain ⟨hinv, hclean⟩ := cleanupEntry_spec hm i
      obtain ⟨hinv', hclean'⟩ := ih hinv
      exact ⟨hinv', hclean'.vector.trans hclean.vector,
        fun co => (hclean'.state co).trans (hclean.state co)⟩

theorem Inv.cleanup (hm : Inv m none owed) : Inv m.cleanupDeadCoroutines none owed :=
  (cleanupEntries_spec hm _).1.cleanupUntracked _

/-- `CleanupDeadCoroutines` keeps the entries that are not dead, in their order. -/
theorem mUntrackedCoroutines_cleanup (hm : Inv m none owed) :
    m.cleanupDeadCoroutines.mUntrackedCoroutines =
      m.mUntrackedCoroutines.filter fun coro => !m.isDead coro := by
  obtain ⟨hinv, hclean⟩ := cleanupEntries_spec hm (List.range m.mCoroutineData.mData.length)
  have hloop := mUntrackedCoroutines_cleanupUntracked (i := 0) hinv
    (Nat.le_of_eq (Nat.zero_add _).symm)
  rw [isDead_congr hclean.state, List.take_zero, List.drop_zero, List.nil_append,
    hclean.vector] at hloop
  rw [cleanupDeadCoroutines, hclean.vector]
  exact hloop

/-! ## Destroying everything -/

/-- `coro->mCoro = nullptr` after `mco_destroy` keeps the ledgers. -/
theorem Owns.destroyLiveEntry (hm : Owns m none owed) (i : ℕ) :
    Owns (m.destroyLiveEntry i) none owed := by
  unfold CoroutineManager.destroyLiveEntry
  split
  · exact hm
  · cases hat : m.coroAt i with
    | none =>
        rw [destroyEntry, hat]
        exact hm
    | some co =>
        obtain ⟨e, he, hval⟩ := coroAt_eq_some.1 hat
        rw [destroyEntry_eq hm.settled he hval (by simp)]
        exact {
          isCoro := hm.isCoro
          balanced := hm.balanced.release ((managed_write he hval).append_right _)
          frees := by
            refine hm.frees.move (List.Perm.of_eq ?_)
            exact congrArg (List.filterMap · m.mUntrackedCoroutines) owes_setState
          owed_nodup := hm.owed_nodup
          owed_lt := hm.owed_lt
          settled := settled_dead hm.settled
          order := order_destroyed hm.order }

theorem Owns.destroyLiveEntries (hm : Owns m none owed) (is : List ℕ) :
    Owns (is.foldl CoroutineManager.destroyLiveEntry m) none owed := by
  induction is generalizing m with
  | nil => exact hm
  | cons i is ih => exact ih (hm.destroyLiveEntry i)

/-- The entries below `k` and the deleted ones hold no coroutine. -/
def ClearedBelow (m : CoroutineManager) (k : ℕ) : Prop :=
  ∀ (i : ℕ) (e : Entry Coro), m.mCoroutineData.mData[i]? = some e →
    i < k ∨ deletedBit e.mHandle = true → e.val.mCoro = none

theorem ClearedBelow.step (hm : Owns m none owed) {k : ℕ} (h : m.ClearedBelow k) :
    (m.destroyLiveEntry k).ClearedBelow (k + 1) := by
  have hskip : (∀ e, m.mCoroutineData.mData[k]? = some e → e.val.mCoro = none) →
      m.ClearedBelow (k + 1) := by
    intro hk i e he hor
    by_cases hik : i = k
    · exact hk e (hik ▸ he)
    · exact h i e he (hor.imp_left fun hlt => by omega)
  unfold CoroutineManager.destroyLiveEntry
  split
  · next hnone =>
    refine hskip fun e he => h k e he (.inr ?_)
    rw [← Bool.not_eq_false]
    intro hdel
    rw [SSlotMap.entryAt_eq_some.2 ⟨he, hdel⟩] at hnone
    cases hnone
  · cases hat : m.coroAt k with
    | none =>
        rw [destroyEntry, hat]
        refine hskip fun e he => ?_
        rwa [coroAt, he] at hat
    | some co =>
        obtain ⟨e, he, hval⟩ := coroAt_eq_some.1 hat
        rw [destroyEntry_eq hm.settled he hval (by simp)]
        intro i e' he' hor
        rw [SSlotMap.getElem?_write] at he'
        obtain ⟨e'', he'', rfl⟩ := Option.map_eq_some_iff.1 he'
        by_cases hik : k = i
        · simp [hik]
        · simp only [if_neg hik]
          exact h i e'' he'' (hor.imp_left fun hlt => by omega)

theorem clearedBelow_range (hm : Owns m none owed) (h : m.ClearedBelow 0) (k : ℕ) :
    ((List.range k).foldl CoroutineManager.destroyLiveEntry m).ClearedBelow k := by
  induction k with
  | zero => exact h
  | succ k ih =>
      rw [List.range_succ, List.foldl_append]
      exact ih.step (hm.destroyLiveEntries _)

/-- What destroying coroutines does not touch. -/
structure Kept (m m' : CoroutineManager) : Prop where
  size : m'.mCoroutineData.mData.length = m.mCoroutineData.mData.length
  next : m'.nextCoro = m.nextCoro
  inAll : InDestroyAll m.log → InDestroyAll m'.log

theorem Kept.trans {m₁ m₂ m₃ : CoroutineManager} (h : Kept m₁ m₂) (h' : Kept m₂ m₃) :
    Kept m₁ m₃ :=
  ⟨h'.size.trans h.size, h'.next.trans h.next, fun hall => h'.inAll (h.inAll hall)⟩

theorem kept_mcoDestroy (co : CoroPtr) : Kept m (m.mcoDestroy (some co)) := by
  rw [mcoDestroy]
  by_cases hstate : (m.coros co).state = .suspended ∨ (m.coros co).state = .dead
  · rw [if_pos hstate]
    exact ⟨rfl, rfl, (since_cons_of_other rfl rfl).trans⟩
  · rw [if_neg hstate]
    exact ⟨rfl, rfl, id⟩

theorem kept_destroyLiveEntry (i : ℕ) : Kept m (m.destroyLiveEntry i) := by
  unfold destroyLiveEntry
  split
  · exact ⟨rfl, rfl, id⟩
  · unfold destroyEntry
    split
    · exact ⟨rfl, rfl, id⟩
    · exact (kept_mcoDestroy _).trans ⟨List.length_modify .., rfl, id⟩

theorem kept_destroyLiveEntries (is : List ℕ) :
    Kept m (is.foldl CoroutineManager.destroyLiveEntry m) := by
  induction is generalizing m with
  | nil => exact ⟨rfl, rfl, id⟩
  | cons i is ih => exact (kept_destroyLiveEntry i).trans ih

/-- After the first loop of `DestroyAllCoroutines` the slot map holds no coroutine. -/
theorem managed_destroyLiveEntries (hm : Inv m none owed) :
    ((List.range m.mCoroutineData.mData.length).foldl
      CoroutineManager.destroyLiveEntry m).managed = [] := by
  have hzero : m.ClearedBelow 0 := by
    intro i e he hor
    exact (hm.live_iff i e he).1 (hor.resolve_left (Nat.not_lt_zero i))
  have hclear := clearedBelow_range hm.toOwns hzero m.mCoroutineData.mData.length
  refine List.filterMap_eq_nil_iff.2 fun val hval => ?_
  obtain ⟨e, he, rfl⟩ := List.mem_map.1 hval
  obtain ⟨i, hi⟩ := List.getElem?_of_mem he
  refine hclear i e hi (.inl ?_)
  have hlt := (List.getElem?_eq_some_iff.1 hi).1
  rwa [(kept_destroyLiveEntries _).size] at hlt

/-- The second loop of `DestroyAllCoroutines` releases what the entries hold. -/
theorem reap_all {l : List Coro2} (hsome : ∀ coro ∈ l, coro.mCoro.isSome)
    (hsettled : m.Settled none)
    (hbalanced : Ledger.Balanced (List.range m.nextCoro) (l.filterMap Coro2.mCoro) m.destroyed)
    (hfrees : Ledger.Balanced owed (l.filterMap m.owes) m.freed) (hall : InDestroyAll m.log)
    (horder : AtEach FreedInOrder m.log) :
    (l.foldl reap m).mCoroutineData = m.mCoroutineData ∧
      (l.foldl reap m).nextCoro = m.nextCoro ∧ (l.foldl reap m).Settled none ∧
      Ledger.Balanced (List.range m.nextCoro) [] (l.foldl reap m).destroyed ∧
      Ledger.Balanced owed [] (l.foldl reap m).freed ∧
      AtEach FreedInOrder (l.foldl reap m).log := by
  induction l generalizing m with
  | nil => exact ⟨rfl, rfl, hsettled, hbalanced, hfrees, horder⟩
  | cons coro l ih =>
      obtain ⟨co, hco⟩ := Option.isSome_iff_exists.1 (hsome coro List.mem_cons_self)
      have hr := reaped_reap hsettled hco
      rw [filterMap_cons_toList, hco] at hbalanced
      rw [filterMap_cons_toList] at hfrees
      have hnot : co ∉ m.destroyed :=
        hbalanced.not_released List.nodup_range (List.mem_append_left _ (by simp))
      have hbalanced' : Ledger.Balanced (List.range m.nextCoro) (l.filterMap Coro2.mCoro)
          (m.reap coro).destroyed := by
        rw [hr.destroyed]
        exact hbalanced.release (List.Perm.refl _)
      have hfrees' := hr.frees hfrees
      have hrest := ih (m := m.reap coro) (fun c hc => hsome c (List.mem_cons_of_mem _ hc))
        (hr.settled hsettled) (hr.next.symm ▸ hbalanced') (hr.owes_eq.symm ▸ hfrees')
        (hr.inAll hall) (hr.order hnot (.inr hall) horder)
      rw [hr.data, hr.next] at hrest
      exact hrest

/-- After `DestroyAllCoroutines` nothing is held, and everything that was created or owed was
released. -/
theorem Inv.destroyAll (hm : Inv m none owed) :
    Inv m.destroyAllCoroutines none owed ∧ m.destroyAllCoroutines.nextCoro = m.nextCoro ∧
      m.destroyAllCoroutines.destroyed.Perm (List.range m.nextCoro) ∧
      m.destroyAllCoroutines.freed.Perm owed := by
  have hentered : Inv { m with log := .destroyAll :: m.log } none owed :=
    { hm with order := ⟨trivial, hm.order⟩ }
  have hloop := hentered.toOwns.destroyLiveEntries (List.range m.mCoroutineData.mData.length)
  have hmanaged := managed_destroyLiveEntries hentered
  have hkept := kept_destroyLiveEntries (m := { m with log := .destroyAll :: m.log })
    (List.range m.mCoroutineData.mData.length)
  have hbalanced := hloop.balanced
  rw [hmanaged, List.nil_append] at hbalanced
  obtain ⟨hdata, hnext, hsettled, hb, hf, horder⟩ := reap_all
    (m := { (List.range m.mCoroutineData.mData.length).foldl CoroutineManager.destroyLiveEntry
      { m with log := .destroyAll :: m.log } with mCoroutineData := {} })
    hloop.isCoro hloop.settled hbalanced hloop.frees (hkept.inAll (since_cons_of_seen rfl))
    hloop.order
  have hnext' : m.destroyAllCoroutines.nextCoro = m.nextCoro := hnext.trans hkept.next
  have hdata' : m.destroyAllCoroutines.mCoroutineData = {} := hdata
  have hb' : Ledger.Balanced (List.range m.nextCoro) [] m.destroyAllCoroutines.destroyed :=
    hkept.next ▸ hb
  refine ⟨?_, hnext', hb', hf⟩
  have hmanaged' : m.destroyAllCoroutines.managed = [] := by
    rw [managed, hdata']
    rfl
  exact {
    isCoro := fun coro hcoro => absurd hcoro (List.not_mem_nil)
    balanced := by
      rw [hmanaged', hnext']
      exact hb'
    frees := hf
    owed_nodup := hm.owed_nodup
    owed_lt := hnext'.symm ▸ hm.owed_lt
    settled := hsettled
    order := ⟨trivial, horder⟩
    slots := hdata'.symm ▸ SSlotMap.inv_init
    live_iff := by
      rw [hdata']
      simp
    card := by
      rw [hmanaged', hdata']
      rfl }

end CoroutineManager

end ServerBase
