import ServerBase.Auth.Pool

/-!
# Who holds a context

**The invariant** (`Ownership`) has two halves. `Tracked` reads the trace: what a coroutine has
taken and given back so far is fixed by the point it is suspended at. `Leased` reads the pool: a
context is in use exactly when one coroutine waits for its results, and names its client.

**The result** (`ownership`): a context has at most one holder, `mInUse` says whether it has one,
and a coroutine that obtained a context gives that context back exactly once before it ends.
-/

namespace ServerBase

namespace Server

variable {n : Nat}

/-! ## The invariant -/

/-- What a coroutine has taken and given back at each of its points. -/
def HeldAt : Point n → List (Hold n) → Prop
  | .start, held => held = []
  | .waitCtx _, held => held = []
  | .waitPoll k _, held => held = [.obtained (some k)]
  | .waitUpdate k _, held => held = [.obtained (some k)]
  | .dead, held =>
      held = [] ∨ held = [.obtained none] ∨ ∃ k, held = [.released k, .obtained (some k)]

structure Tracked (s : Server n) : Prop where
  untracked : ∀ co, (s.coros co).point ≠ .dead → co ∈ s.mUntrackedCoroutines
  lt : ∀ co ∈ s.mUntrackedCoroutines, co < s.nextCoro
  noUpdate : ∀ co k c, (s.coros co).point ≠ .waitUpdate k c
  held : ∀ co, HeldAt (s.coros co).point (heldBy co s.trace)
  fresh : ∀ co, s.nextCoro ≤ co → heldBy co s.trace = []

structure Leased (s : Server n) : Prop where
  streamNone : ∀ k, (s.mConnections k).mInUse = false → (s.mConnections k).mStream = none
  waitPoll : ∀ co k c, (s.coros co).point = .waitPoll k c →
    (s.mConnections k).mInUse = true ∧ (s.mConnections k).mStream = some (s.coros co).mStream
  holder : ∀ k, (s.mConnections k).mInUse = true → ∃ co c, (s.coros co).point = .waitPoll k c
  unique : ∀ co co' k c c', (s.coros co).point = .waitPoll k c →
    (s.coros co').point = .waitPoll k c' → co = co'

structure Ownership (s : Server n) : Prop where
  tracked : Tracked s
  leased : Leased s

/-! ## Moves that neither take nor give back -/

theorem Tracked.of_same {s s' : Server n} (h : Tracked s) (hc : SameCoros s s')
    (htrace : ∀ co, heldBy co s'.trace = heldBy co s.trace) : Tracked s' where
  untracked co hp := by
    rw [hc.coros] at hp
    rw [hc.untracked]
    exact h.untracked co hp
  lt co hco := by
    rw [hc.untracked] at hco
    rw [hc.nextCoro]
    exact h.lt co hco
  noUpdate co k c := by
    rw [hc.coros]
    exact h.noUpdate co k c
  held co := by
    rw [hc.coros, htrace]
    exact h.held co
  fresh co hco := by
    rw [hc.nextCoro] at hco
    rw [htrace]
    exact h.fresh co hco

/-- The context is used as before. -/
def SameUse (x y : DBConnectionCtx n) : Prop := y.mInUse = x.mInUse ∧ y.mStream = x.mStream

/-- The same coroutines wait for the same clients. -/
theorem Leased.of_waiters {s s' : Server n} (h : Leased s)
    (hwait : ∀ co k c, (s'.coros co).point = .waitPoll k c ↔ (s.coros co).point = .waitPoll k c)
    (hstream : ∀ co k c, (s.coros co).point = .waitPoll k c →
      (s'.coros co).mStream = (s.coros co).mStream)
    (hctx : ∀ k, SameUse (s.mConnections k) (s'.mConnections k)) : Leased s' where
  streamNone k hk := by
    rw [(hctx k).1] at hk
    rw [(hctx k).2]
    exact h.streamNone k hk
  waitPoll co k c hp := by
    rw [hwait] at hp
    rw [(hctx k).1, (hctx k).2, hstream co k c hp]
    exact h.waitPoll co k c hp
  holder k hk := by
    rw [(hctx k).1] at hk
    obtain ⟨co, c, hp⟩ := h.holder k hk
    exact ⟨co, c, (hwait co k c).2 hp⟩
  unique co co' k c c' hp hp' :=
    h.unique co co' k c c' ((hwait co k c).1 hp) ((hwait co' k c').1 hp')

theorem Leased.of_same {s s' : Server n} (h : Leased s) (hc : s'.coros = s.coros)
    (hctx : ∀ k, SameUse (s.mConnections k) (s'.mConnections k)) : Leased s' :=
  h.of_waiters (fun co k c => by rw [hc]) (fun co k c _ => by rw [hc]) hctx

theorem Ownership.of_same {s s' : Server n} (h : Ownership s) (hc : SameCoros s s')
    (hctx : ∀ k, SameUse (s.mConnections k) (s'.mConnections k)) (hadds : Adds NoHold s s') :
    Ownership s' :=
  ⟨h.tracked.of_same hc hadds.heldBy, h.leased.of_same hc.coros hctx⟩

theorem sameUse_of_pool {s s' : Server n} (h : SamePool s s') (k : Fin n) :
    SameUse (s.mConnections k) (s'.mConnections k) := by
  rw [h.mConnections]
  exact ⟨rfl, rfl⟩

/-- A change of one context. -/
theorem sameUse_update {s : Server n} {k : Fin n} {x : DBConnectionCtx n}
    (h : SameUse (s.mConnections k) x) (j : Fin n) :
    SameUse (s.mConnections j) (Function.update s.mConnections k x j) := by
  by_cases hj : j = k
  · subst hj
    rwa [Function.update_self]
  · rw [Function.update_of_ne hj]
    exact ⟨rfl, rfl⟩

/-! ## Resumes -/

section
variable {s s' : Server n} {co : CoroId} {p : Point n}

theorem coros_self (hc : s'.coros = Function.update s.coros co { s.coros co with point := p }) :
    s'.coros co = { s.coros co with point := p } := by
  rw [hc, Function.update_self]

theorem coros_other (hc : s'.coros = Function.update s.coros co { s.coros co with point := p })
    {co' : CoroId} (hne : co' ≠ co) : s'.coros co' = s.coros co' := by
  rw [hc, Function.update_of_ne hne]

/-- A coroutine moves to another point, and the trace says so. -/
theorem Tracked.setPoint (h : Tracked s) (held : List (Hold n)) (es : List (Event n))
    (hco : co ∈ s.mUntrackedCoroutines) (hframe : SameFrame s s')
    (hc : s'.coros = Function.update s.coros co { s.coros co with point := p })
    (hp : ∀ k c, p ≠ .waitUpdate k c)
    (htrace : s'.trace = es ++ s.trace)
    (hes : ∀ co', heldBy co' es = if co' = co then held else [])
    (hheld : HeldAt p (held ++ heldBy co s.trace)) : Tracked s' where
  untracked co' hp' := by
    rw [hframe.untracked]
    by_cases hne : co' = co
    · rwa [hne]
    · rw [coros_other hc hne] at hp'
      exact h.untracked co' hp'
  lt co' hco' := by
    rw [hframe.untracked] at hco'
    rw [hframe.nextCoro]
    exact h.lt co' hco'
  noUpdate co' k c := by
    by_cases hne : co' = co
    · rw [hne, coros_self hc]
      exact hp k c
    · rw [coros_other hc hne]
      exact h.noUpdate co' k c
  held co' := by
    rw [htrace, heldBy_append, hes]
    by_cases hne : co' = co
    · rw [hne, if_pos rfl, coros_self hc]
      exact hheld
    · rw [if_neg hne, coros_other hc hne, List.nil_append]
      exact h.held co'
  fresh co' hco' := by
    rw [hframe.nextCoro] at hco'
    have hne : co' ≠ co := fun he => absurd (h.lt co hco) (by rw [he] at hco'; exact hco'.not_gt)
    rw [htrace, heldBy_append, hes, if_neg hne, List.nil_append]
    exact h.fresh co' hco'

/-- A coroutine without a context moves to another point without one. -/
theorem Leased.pass (h : Leased s) (hnone : (s.coros co).point.holds = none)
    (hc : s'.coros = Function.update s.coros co { s.coros co with point := p })
    (hp : p.holds = none) (hctx : ∀ k, SameUse (s.mConnections k) (s'.mConnections k)) :
    Leased s' := by
  refine h.of_waiters ?_ ?_ hctx
  · intro co' k c
    by_cases hne : co' = co
    · rw [hne, coros_self hc]
      refine ⟨?_, ?_⟩
      · intro hw
        rw [show p = .waitPoll k c from hw] at hp
        cases hp
      · intro hw
        rw [hw] at hnone
        cases hnone
    · rw [coros_other hc hne]
  · intro co' k c _
    by_cases hne : co' = co
    · rw [hne, coros_self hc]
    · rw [coros_other hc hne]

/-- A coroutine takes a free context. -/
theorem Leased.take (h : Leased s) {k : Fin n} {c : ConnId}
    (hnone : (s.coros co).point.holds = none) (hfree : (s.mConnections k).mInUse = false)
    (hc : s'.coros = Function.update s.coros co { s.coros co with point := .waitPoll k c })
    (hself : (s'.mConnections k).mInUse = true ∧
      (s'.mConnections k).mStream = some (s.coros co).mStream)
    (hother : ∀ j, j ≠ k → s'.mConnections j = s.mConnections j) : Leased s' := by
  have hnot : ∀ {co' c'}, (s.coros co').point ≠ .waitPoll k c' := by
    intro co' c' hw
    rw [(h.waitPoll co' k c' hw).1] at hfree
    cases hfree
  have hwait : ∀ {co' j c'}, (s'.coros co').point = .waitPoll j c' →
      co' = co ∧ j = k ∨ co' ≠ co ∧ j ≠ k ∧ (s.coros co').point = .waitPoll j c' := by
    intro co' j c' hw
    by_cases hne : co' = co
    · rw [hne, coros_self hc] at hw
      exact .inl ⟨hne, (Point.waitPoll.inj hw).1.symm⟩
    · rw [coros_other hc hne] at hw
      exact .inr ⟨hne, fun hj => hnot (hj ▸ hw), hw⟩
  refine
    { streamNone := fun j hj => ?_
      waitPoll := fun co' j c' hw => ?_
      holder := fun j hj => ?_
      unique := fun co₁ co₂ j c₁ c₂ hw₁ hw₂ => ?_ }
  · by_cases hjk : j = k
    · rw [hjk, hself.1] at hj
      cases hj
    · rw [hother j hjk] at hj ⊢
      exact h.streamNone j hj
  · rcases hwait hw with ⟨rfl, rfl⟩ | ⟨hne, hjk, hw⟩
    · rw [coros_self hc]
      exact hself
    · rw [hother j hjk, coros_other hc hne]
      exact h.waitPoll co' j c' hw
  · by_cases hjk : j = k
    · exact ⟨co, c, by rw [coros_self hc, hjk]⟩
    · rw [hother j hjk] at hj
      obtain ⟨co', c', hw⟩ := h.holder j hj
      have hne : co' ≠ co := by
        rintro rfl
        rw [hw] at hnone
        cases hnone
      exact ⟨co', c', by rw [coros_other hc hne, hw]⟩
  · rcases hwait hw₁ with ⟨rfl, rfl⟩ | ⟨-, hj₁, hw₁⟩
    · rcases hwait hw₂ with ⟨rfl, -⟩ | ⟨-, hj₂, -⟩
      · rfl
      · exact absurd rfl hj₂
    · rcases hwait hw₂ with ⟨-, rfl⟩ | ⟨-, -, hw₂⟩
      · exact absurd rfl hj₁
      · exact h.unique co₁ co₂ j c₁ c₂ hw₁ hw₂

/-- A coroutine gives its context back. -/
theorem Leased.give (h : Leased s) {k : Fin n} {c : ConnId}
    (hpoint : (s.coros co).point = .waitPoll k c)
    (hc : s'.coros = Function.update s.coros co { s.coros co with point := .dead })
    (hself : (s'.mConnections k).mInUse = false ∧ (s'.mConnections k).mStream = none)
    (hother : ∀ j, j ≠ k → s'.mConnections j = s.mConnections j) : Leased s' := by
  have hwait : ∀ {co' j c'}, (s'.coros co').point = .waitPoll j c' →
      co' ≠ co ∧ j ≠ k ∧ (s.coros co').point = .waitPoll j c' := by
    intro co' j c' hw
    have hne : co' ≠ co := by
      rintro rfl
      rw [coros_self hc] at hw
      cases hw
    rw [coros_other hc hne] at hw
    refine ⟨hne, fun hj => hne ?_, hw⟩
    exact h.unique co' co k c' c (hj ▸ hw) hpoint
  refine
    { streamNone := fun j hj => ?_
      waitPoll := fun co' j c' hw => ?_
      holder := fun j hj => ?_
      unique := fun co₁ co₂ j c₁ c₂ hw₁ hw₂ =>
        h.unique co₁ co₂ j c₁ c₂ (hwait hw₁).2.2 (hwait hw₂).2.2 }
  · by_cases hjk : j = k
    · rw [hjk]
      exact hself.2
    · rw [hother j hjk] at hj ⊢
      exact h.streamNone j hj
  · obtain ⟨hne, hjk, hw⟩ := hwait hw
    rw [hother j hjk, coros_other hc hne]
    exact h.waitPoll co' j c' hw
  · have hjk : j ≠ k := by
      rintro rfl
      rw [hself.1] at hj
      cases hj
    rw [hother j hjk] at hj
    obtain ⟨co', c', hw⟩ := h.holder j hj
    have hne : co' ≠ co := by
      rintro rfl
      rw [hpoint] at hw
      exact hjk (Point.waitPoll.inj hw).1.symm
    exact ⟨co', c', by rw [coros_other hc hne, hw]⟩

end

/-- Before it has a context a coroutine has taken and given back nothing. -/
theorem Tracked.heldBy_eq_nil {s : Server n} (h : Tracked s) {co : CoroId}
    (hnone : (s.coros co).point.holds = none) (hdead : (s.coros co).point ≠ .dead) :
    heldBy co s.trace = [] := by
  have hheld := h.held co
  cases hp : (s.coros co).point with
  | start => rwa [hp] at hheld
  | waitCtx t => rwa [hp] at hheld
  | waitPoll k c => rw [hp] at hnone; cases hnone
  | waitUpdate k c => rw [hp] at hnone; cases hnone
  | dead => exact absurd hp hdead

/-- **A resume keeps the invariant**, whatever the coroutine reads. -/
theorem Ownership.resumed {s s' : Server n} {co : CoroId} {r : Readings n} (h : Ownership s)
    (hco : co ∈ s.mUntrackedCoroutines) (hr : Resumed s co r s') : Ownership s' := by
  have hframe := hr.frame
  have hsame : ∀ k, SameUse (s.mConnections k) (s.mConnections k) := fun k => ⟨rfl, rfl⟩
  cases hr with
  | idle => exact h
  | gone es hpoint _ hes =>
      have hnone : (s.coros co).point.holds = none := by rw [hpoint]; rfl
      have hnil := h.tracked.heldBy_eq_nil hnone (by rw [hpoint]; simp)
      refine ⟨h.tracked.setPoint [] _ hco hframe rfl (by simp) rfl
        (fun co' => by rw [hes]; split <;> rfl) ?_, h.leased.pass hnone rfl rfl hsame⟩
      rw [hnil]
      exact .inl rfl
  | refused es hnone hdead _ hes =>
      refine ⟨h.tracked.setPoint _ _ hco hframe rfl (by simp) rfl hes ?_,
        h.leased.pass hnone rfl rfl hsame⟩
      rw [h.tracked.heldBy_eq_nil hnone hdead]
      exact .inr (.inl rfl)
  | waits t es hnone hdead _ hes =>
      refine ⟨h.tracked.setPoint [] _ hco hframe rfl (by simp) rfl
        (fun co' => by rw [hes]; split <;> rfl) ?_, h.leased.pass hnone rfl rfl hsame⟩
      rw [h.tracked.heldBy_eq_nil hnone hdead]
      exact rfl
  | sendFailed k c es hnone hdead hconn hfree hterm hphase hes =>
      refine ⟨h.tracked.setPoint _ _ hco hframe rfl (by simp) rfl hes.held ?_,
        h.leased.pass hnone rfl rfl (sameUse_update ⟨hfree.symm, ?_⟩)⟩
      · rw [h.tracked.heldBy_eq_nil hnone hdead]
        exact .inr (.inr ⟨k, rfl⟩)
      · exact (h.leased.streamNone k hfree).symm
  | suspended k c es hnone hdead hconn hfree hterm hphase hbusy hes =>
      refine ⟨h.tracked.setPoint _ _ hco hframe rfl (by simp) rfl hes.held ?_,
        h.leased.take hnone hfree rfl ?_ fun j hj => Function.update_of_ne hj _ _⟩
      · rw [h.tracked.heldBy_eq_nil hnone hdead]
        exact rfl
      · show (Function.update s.mConnections k _ k).mInUse = true ∧
          (Function.update s.mConnections k _ k).mStream = _
        rw [Function.update_self]
        exact ⟨rfl, rfl⟩
  | finished k c x b _ hpoint hdone hends hx hb =>
      obtain ⟨es', rfl, hes⟩ := hends
      refine ⟨h.tracked.setPoint _ es' hco hframe rfl (by simp) ?_ hes.held ?_,
        h.leased.give hpoint rfl ?_ fun j hj => Function.update_of_ne hj _ _⟩
      · show (es' ++ []) ++ s.trace = es' ++ s.trace
        rw [List.append_nil]
      · have hheld := h.tracked.held co
        rw [hpoint] at hheld
        rw [show heldBy co s.trace = [.obtained (some k)] from hheld]
        exact .inr (.inr ⟨k, rfl⟩)
      · show (Function.update s.mConnections k _ k).mInUse = false ∧
          (Function.update s.mConnections k _ k).mStream = none
        rw [Function.update_self]
        exact ⟨rfl, rfl⟩
  | updated k c b _ hpoint => exact absurd hpoint (h.tracked.noUpdate co k c)

/-! ## Creation and cleanup -/

section
variable {s : Server n} {st : StreamId} {data : AuthData} {es : List (Event n)}

theorem coros_created_self :
    ((s.log es).createUntrackedCoroutine st data).coros s.nextCoro =
      { mStream := st, data := data, point := .start } :=
  Function.update_self _ _ _

theorem coros_created_other {co : CoroId} (h : co ≠ s.nextCoro) :
    ((s.log es).createUntrackedCoroutine st data).coros co = s.coros co :=
  Function.update_of_ne h _ _

/-- The name of the next coroutine is not in use. -/
theorem Tracked.next_dead (h : Tracked s) : (s.coros s.nextCoro).point = .dead := by
  by_contra hp
  exact absurd (h.lt _ (h.untracked _ hp)) (lt_irrefl _)

theorem heldBy_created (hes : ∀ e ∈ es, NoHold e) (co : CoroId) :
    heldBy co ((s.log es).createUntrackedCoroutine st data).trace = heldBy co s.trace :=
  (Adds.log hes).heldBy co

theorem Tracked.create (h : Tracked s) (hes : ∀ e ∈ es, NoHold e) :
    Tracked ((s.log es).createUntrackedCoroutine st data) where
  untracked co hp := by
    by_cases hco : co = s.nextCoro
    · rw [hco]
      exact List.mem_append_right _ (List.mem_singleton.2 rfl)
    · rw [coros_created_other hco] at hp
      exact List.mem_append_left _ (h.untracked co hp)
  lt co hco := by
    rcases List.mem_append.1 hco with hco | hco
    · exact (h.lt co hco).trans (Nat.lt_succ_self _)
    · rw [List.mem_singleton.1 hco]
      exact Nat.lt_succ_self _
  noUpdate co k c := by
    by_cases hco : co = s.nextCoro
    · rw [hco, coros_created_self]
      simp
    · rw [coros_created_other hco]
      exact h.noUpdate co k c
  held co := by
    rw [heldBy_created hes]
    by_cases hco : co = s.nextCoro
    · rw [hco, coros_created_self]
      exact h.fresh _ le_rfl
    · rw [coros_created_other hco]
      exact h.held co
  fresh co hco := by
    rw [heldBy_created hes]
    exact h.fresh co ((Nat.le_succ _).trans hco)

theorem Ownership.create (h : Ownership s) (hes : ∀ e ∈ es, NoHold e) :
    Ownership ((s.log es).createUntrackedCoroutine st data) := by
  refine ⟨h.tracked.create hes, h.leased.of_waiters ?_ ?_
    fun k => ⟨rfl, rfl⟩⟩
  · intro co k c
    by_cases hco : co = s.nextCoro
    · rw [hco, coros_created_self, h.tracked.next_dead]
      simp
    · rw [coros_created_other hco]
  · intro co k c hw
    by_cases hco : co = s.nextCoro
    · rw [hco, h.tracked.next_dead] at hw
      cases hw
    · rw [coros_created_other hco]

end

theorem Ownership.of_closeDead {s : Server n} (h : Ownership s) (cos : List CoroId) :
    Ownership (closeDead cos s) := by
  have hclose := closeDead_closes cos s
  refine h.of_same hclose.coros (sameUse_of_pool hclose.pool) (hclose.adds.mono ?_)
  intro e he
  obtain ⟨co, -, -, he⟩ := he
  exact he.noHold

theorem Point.isDead_eq_false {p : Point n} (h : p ≠ .dead) : p.isDead = false := by
  cases p with
  | dead => exact absurd rfl h
  | start => rfl
  | waitCtx t => rfl
  | waitPoll k c => rfl
  | waitUpdate k c => rfl

/-- Only dead coroutines are removed. -/
theorem Ownership.cleanup {s : Server n} (h : Ownership s) :
    Ownership s.cleanupDeadCoroutines := by
  have hclosed := h.of_closeDead s.mUntrackedCoroutines
  have hcoros := (closeDead_closes s.mUntrackedCoroutines s).coros
  refine ⟨?_, hclosed.leased.of_same rfl fun k => ⟨rfl, rfl⟩⟩
  refine
    { untracked := fun co hp => ?_
      lt := fun co hco => ?_
      noUpdate := hclosed.tracked.noUpdate
      held := hclosed.tracked.held
      fresh := hclosed.tracked.fresh }
  · have hmem := hclosed.tracked.untracked co hp
    rw [hcoros.untracked] at hmem
    have hp' : ((closeDead s.mUntrackedCoroutines s).coros co).point ≠ .dead := hp
    rw [hcoros.coros] at hp'
    exact List.mem_filter.2 ⟨hmem, by rw [Point.isDead_eq_false hp']; rfl⟩
  · have hmem : co ∈ (closeDead s.mUntrackedCoroutines s).mUntrackedCoroutines := by
      rw [hcoros.untracked]
      exact (List.mem_filter.1 hco).1
    exact hclosed.tracked.lt co hmem

/-! ## The loop -/

theorem Ownership.polled {s s' : Server n} {k : Fin n} {status : Int} {consumed : Bool}
    (h : Ownership s) (hp : Polled s k status consumed s') : Ownership s' := by
  obtain ⟨x, hctx, hx⟩ := hp.ctx
  refine h.of_same hp.frame.1 ?_ (hp.adds.mono ?_)
  · intro j
    rw [hctx]
    refine sameUse_update ?_ j
    rcases hx with rfl | rfl | rfl <;> exact ⟨rfl, rfl⟩
  · intro e he
    rcases he with rfl | ⟨-, ⟨rfl, -⟩ | ⟨st, -, he⟩⟩
    · exact fun co => rfl
    · exact fun co => rfl
    · exact he.noHold

theorem sameUse_reconnect (s : Server n) (k : Fin n) (connected : Bool) (j : Fin n) :
    SameUse (s.mConnections j) ((s.reconnect k connected).mConnections j) := by
  rw [reconnect_mConnections]
  refine sameUse_update ?_ j
  cases connected <;> exact ⟨rfl, rfl⟩

theorem ownership_kept (env : AuthEnv) (C : Conds n) : Kept env C PoolWf Ownership where
  connect s accepted _ h :=
    h.of_same (connect_frame s accepted).2 (sameUse_of_pool (connect_frame s accepted).1)
      ((connect_adds s accepted).mono fun e he => he.noHold)
  read s st nread buf writable _ h _ _ := by
    have hread := httpRead_cases env s st nread buf writable
    generalize s.httpRead env st nread buf writable = s' at hread ⊢
    cases hread with
    | plain _ hplain =>
        exact h.of_same hplain.coros (sameUse_of_pool hplain.pool)
          (hplain.adds.mono fun e he => he.noHold)
    | create data es hes => exact h.create fun e he => (hes e he).noHold
  poll s k status consumed busy hwf h hk _ :=
    h.polled (pollCallback_cases status consumed busy hk (hwf.pollData k))
  reconnect s k connected _ h _ :=
    h.of_same (reconnect_frame s k connected).1 (sameUse_reconnect s k connected)
      ((reconnect_adds s k connected).mono fun e he => he.noHold)
  resume s co r _ h hco _ := h.resumed hco (resume_cases s co r)
  cleanup s _ h := h.cleanup
  closeCb s st _ h _ := h.of_same ⟨rfl, rfl, rfl⟩ (fun k => ⟨rfl, rfl⟩) (.of_eq rfl)

theorem InitFrom.heldBy {s : Server n} (h : InitFrom n s) (co : CoroId) :
    heldBy co s.trace = [] := by
  rw [ServerBase.heldBy, List.filterMap_eq_nil_iff]
  intro e he
  cases h.trace e he <;> rfl

theorem InitFrom.ownership {s : Server n} (h : InitFrom n s) : Ownership s where
  tracked :=
    { untracked := fun co hp => absurd (h.coros co) hp
      lt := fun co hco => by rw [h.untracked] at hco; cases hco
      noUpdate := fun co k c => by rw [h.coros]; simp
      held := fun co => by rw [h.coros, h.heldBy]; exact .inl rfl
      fresh := fun co _ => h.heldBy co }
  leased :=
    { streamNone := fun k _ => by
        obtain ⟨c, hc⟩ := h.done k k.isLt
        rw [hc.ctx]
      waitPoll := fun co k c hp => by rw [h.coros] at hp; cases hp
      holder := fun k hk => by
        obtain ⟨c, hc⟩ := h.done k k.isLt
        rw [hc.ctx] at hk
        cases hk
      unique := fun co co' k c c' hp => by rw [h.coros] at hp; cases hp }

/-- What holds in every state of every run, whatever happens. -/
def Sound (s : Server n) : Prop := PoolWf s ∧ Ownership s

theorem sound_kept (env : AuthEnv) (C : Conds n) : Kept env C (fun _ => True) Sound :=
  (poolWf_kept env C).and (ownership_kept env C)

theorem sound_loop {env : AuthEnv} {s : Server n} (h : (env.loop n).init s) : Sound s :=
  ⟨(initFrom_loop h).poolWf, (initFrom_loop h).ownership⟩
/-! ## Holders -/

/-- The coroutine was created and its body has not returned. -/
def Unfinished (s : Server n) (co : CoroId) : Prop := (s.coros co).point ≠ .dead

/-- `yield_until_db_ctx_or_time_limit` returned the context to `co`, which has not released it. -/
def Holds (s : Server n) (co : CoroId) (k : Fin n) : Prop :=
  .obtained (some k) ∈ heldBy co s.trace ∧ .released k ∉ heldBy co s.trace

instance (s : Server n) (co : CoroId) : Decidable (s.Unfinished co) :=
  inferInstanceAs (Decidable (_ ≠ _))

instance (s : Server n) (co : CoroId) (k : Fin n) : Decidable (s.Holds co k) :=
  inferInstanceAs (Decidable (_ ∧ _))

/-- An unfinished coroutine holds the context whose results it waits for, and no other. -/
theorem Tracked.holds_iff {s : Server n} (h : Tracked s) {co : CoroId} {k : Fin n}
    (hco : s.Unfinished co) : s.Holds co k ↔ ∃ c, (s.coros co).point = .waitPoll k c := by
  have hheld := h.held co
  unfold Holds
  cases hp : (s.coros co).point with
  | start =>
      rw [hp] at hheld
      rw [show heldBy co s.trace = [] from hheld]
      simp
  | waitCtx t =>
      rw [hp] at hheld
      rw [show heldBy co s.trace = [] from hheld]
      simp
  | waitPoll j c =>
      rw [hp] at hheld
      rw [show heldBy co s.trace = [.obtained (some j)] from hheld]
      simp [eq_comm]
  | waitUpdate j c => exact absurd hp (h.noUpdate co j c)
  | dead => exact absurd hp hco

/-- What an unfinished coroutine has taken so far. -/
theorem Tracked.heldBy_unfinished {s : Server n} (h : Tracked s) {co : CoroId}
    (hco : s.Unfinished co) :
    heldBy co s.trace = [] ∨ ∃ k, heldBy co s.trace = [.obtained (some k)] := by
  have hheld := h.held co
  cases hp : (s.coros co).point with
  | start => rw [hp] at hheld; exact .inl hheld
  | waitCtx t => rw [hp] at hheld; exact .inl hheld
  | waitPoll k c => rw [hp] at hheld; exact .inr ⟨k, hheld⟩
  | waitUpdate k c => exact absurd hp (h.noUpdate co k c)
  | dead => exact absurd hp hco

/-- What a finished coroutine has taken it has given back. -/
theorem Tracked.heldBy_finished {s : Server n} (h : Tracked s) {co : CoroId}
    (hco : ¬ s.Unfinished co) :
    heldBy co s.trace = [] ∨ heldBy co s.trace = [.obtained none] ∨
      ∃ k, heldBy co s.trace = [.released k, .obtained (some k)] := by
  have hheld := h.held co
  rwa [not_not.1 hco] at hheld

/-- A coroutine whose wait for a context was in vain holds none. -/
theorem Tracked.not_holds_of_refused {s : Server n} (h : Tracked s) {co : CoroId} {k : Fin n}
    (hnone : .obtained none ∈ heldBy co s.trace) : ¬ s.Holds co k := by
  intro hk
  by_cases hco : s.Unfinished co
  · rcases h.heldBy_unfinished hco with hheld | ⟨j, hheld⟩ <;> rw [hheld] at hnone
    · cases hnone
    · simp at hnone
  · rcases h.heldBy_finished hco with hheld | hheld | ⟨j, hheld⟩ <;> rw [hheld] at hnone
    · cases hnone
    · have hobtained := hk.1
      rw [hheld] at hobtained
      simp at hobtained
    · simp at hnone

theorem Ownership.holder_unique {s : Server n} (h : Ownership s) {co co' : CoroId} {k : Fin n}
    (hco : s.Unfinished co) (hco' : s.Unfinished co') (hk : s.Holds co k)
    (hk' : s.Holds co' k) : co = co' := by
  obtain ⟨c, hp⟩ := (h.tracked.holds_iff hco).1 hk
  obtain ⟨c', hp'⟩ := (h.tracked.holds_iff hco').1 hk'
  exact h.leased.unique co co' k c c' hp hp'

theorem Ownership.inUse_iff {s : Server n} (h : Ownership s) (k : Fin n) :
    (s.mConnections k).mInUse = true ↔ ∃ co, s.Unfinished co ∧ s.Holds co k := by
  constructor
  · intro hk
    obtain ⟨co, c, hp⟩ := h.leased.holder k hk
    have hco : s.Unfinished co := by
      unfold Unfinished
      rw [hp]
      simp
    exact ⟨co, hco, (h.tracked.holds_iff hco).2 ⟨c, hp⟩⟩
  · rintro ⟨co, hco, hk⟩
    obtain ⟨c, hp⟩ := (h.tracked.holds_iff hco).1 hk
    exact (h.leased.waitPoll co k c hp).1

/-- **A context has one holder at most, and goes back exactly once.** In every reachable state a
context is in use exactly when an unfinished coroutine holds it, and no two do; a coroutine has
obtained one context at most, and has released it, once, if it is finished. -/
theorem context_ownership (env : AuthEnv) {s : Server n} (hs : (env.loop n).Reachable s) :
    (∀ co co' k, s.Unfinished co → s.Unfinished co' → s.Holds co k → s.Holds co' k → co = co') ∧
      (∀ k, (s.mConnections k).mInUse = true ↔ ∃ co, s.Unfinished co ∧ s.Holds co k) ∧
      (∀ co, s.Unfinished co →
        heldBy co s.trace = [] ∨ ∃ k, heldBy co s.trace = [.obtained (some k)]) ∧
      (∀ co, ¬ s.Unfinished co →
        heldBy co s.trace = [] ∨ heldBy co s.trace = [.obtained none] ∨
          ∃ k, heldBy co s.trace = [.released k, .obtained (some k)]) ∧
      ∀ co k, .obtained none ∈ heldBy co s.trace → ¬ s.Holds co k := by
  obtain ⟨-, howner⟩ := (sound_kept env .none).reachable (fun _ => sound_loop) hs
  refine ⟨fun co co' k => howner.holder_unique, howner.inUse_iff, ?_, ?_,
    ?_⟩
  · intro co
    exact howner.tracked.heldBy_unfinished
  · intro co
    exact howner.tracked.heldBy_finished
  · intro co k
    exact howner.tracked.not_holds_of_refused

/-- A login that waits for the results of its query holds the context. -/
theorem context_ownership_login :
    ∃ s : Server 1, (directLoginEnv.loop 1).Reachable s ∧ s.Unfinished 0 ∧ s.Holds 0 0 ∧
      (s.mConnections 0).mInUse = true := by
  obtain ⟨s, -, hs, hq⟩ := Machine.exists_run_of_replay (directLoginEnv.loop 1)
    Machine.anyStep [.connect true, directLoginRead 0, .coTimer fun _ => {}]
    (fun s => decide (s.Unfinished 0 ∧ s.Holds 0 0)) (oneConnection_init _)
    (by decide +kernel)
  obtain ⟨hco, hk⟩ := of_decide_eq_true hq
  exact ⟨s, hs, hco, hk, ((context_ownership directLoginEnv hs).2.1 0).2 ⟨0, hco, hk⟩⟩

end Server

end ServerBase
