import ServerBase.Coroutines.Places

/-!
# One resume a tick

What a call of `StepCoroutines` does to the coroutines while the bodies it resumes create and
destroy others.

**Places ahead** (`ahead`). The places whose turn is still to come. The loops visit the slots and
then the indices in order, a coroutine never moves, and the vector only grows at its end; so a place
that is behind stays behind.

**The invariant** (`Ticking`). A coroutine at a place ahead was not resumed. One that was suspended
at the begin and not destroyed early is still at its place and suspended while that is ahead, and
was resumed when it is not.

**Main result** (`one_resume`).
-/

namespace ServerBase

namespace CoroutineManager

/-- The place whose turn it is. -/
def Loop.current : Loop → Option Place
  | .outside => none
  | .managed i => some (.managed i)
  | .untracked i => some (.untracked i)

/-- The turn of the place is still to come. -/
def Loop.ahead : Loop → Bool → Place → Bool
  | .outside, _, _ => false
  | .managed i, running, .managed j => decide (i < j) || (decide (i = j) && !running)
  | .managed _, _, .untracked _ => true
  | .untracked _, _, .managed _ => false
  | .untracked i, running, .untracked j => decide (i < j) || (decide (i = j) && !running)

/-- How far the tick is, with `size` slots, after so many turns, while `running` bodies run. -/
def Loop.Position (size turns running : ℕ) : Loop → Prop
  | .outside => True
  | .managed i => i + running ≤ size ∧ turns = i + running
  | .untracked i => turns ≤ 2 ^ 15 + 1 + i + running

theorem Loop.Position.mono {loop : Loop} {size size' turns running : ℕ} (hle : size ≤ size')
    (h : loop.Position size turns running) : loop.Position size' turns running := by
  cases loop with
  | managed i => exact ⟨h.1.trans hle, h.2⟩
  | _ => exact h

section Ahead

variable {loop : Loop} {place : Place}

theorem ahead_current (h : loop.current = some place) : loop.ahead false place = true := by
  cases loop <;> cases place <;> simp_all [Loop.current, Loop.ahead]

/-- While a body runs, the turn of its place has come. -/
theorem ahead_running :
    loop.ahead true place = true ↔ loop.ahead false place = true ∧ loop.current ≠ some place := by
  cases loop <;> cases place <;> simp [Loop.current, Loop.ahead]
  all_goals exact ⟨fun h => ⟨.inl h, by omega⟩, fun h => h.1.resolve_right h.2⟩

theorem ahead_next : loop.next.ahead false place = loop.ahead true place := by
  rw [Bool.eq_iff_iff]
  cases loop <;> cases place <;> simp [Loop.next, Loop.ahead]
  all_goals omega

/-- The second loop begins where the first has ended. -/
theorem ahead_second {i : ℕ} (h : (Loop.untracked 0).ahead false place = true) :
    (Loop.managed i).ahead false place = true := by
  cases place with
  | managed j => cases h
  | untracked j => rfl

end Ahead

namespace Proc

/-- The turn of the place is still to come. -/
def ahead (p : Proc) (place : Place) : Bool := p.loop.ahead p.running.isSome place

/-- The coroutine was at the place and suspended when the tick began, and was not destroyed before
its turn. -/
structure Waiting (p : Proc) (place : Place) (co : CoroPtr) : Prop where
  holder : p.start.holder place = some co
  state : (p.start.coros co).state = .suspended
  notEarly : co ∉ p.early

/-- How many turns a place waits for its own at most. -/
def deadline : Place → ℕ
  | .managed j => j + 1
  | .untracked j => 2 ^ 15 + j + 2

end Proc

structure Ticking (p : Proc) : Prop where
  old : p.loop ≠ .outside → ∀ co ∈ p.resumed, co < p.m.nextCoro
  nodup : p.resumed.Nodup
  running : ∀ co ∈ p.running, co ∈ p.resumed
  fresh : ∀ place co, p.ahead place = true → p.m.holder place = some co → co ∉ p.resumed
  waiting : ∀ place co, p.Waiting place co → p.ahead place = true →
    p.m.holder place = some co ∧ (p.m.coros co).state = .suspended
  done : ∀ place co, p.Waiting place co → p.ahead place = false → co ∈ p.resumed
  position : p.loop.Position p.m.mCoroutineData.mData.length p.turns p.running.toList.length

variable {p p' : Proc} {co : CoroPtr} {place : Place}

theorem ticking_init : Ticking {} where
  old := by simp
  nodup := List.nodup_nil
  running := by simp
  fresh := by simp
  waiting := by
    intro place co _ hahead
    cases hahead
  done := by
    intro place co hw _
    have hholder := hw.holder
    cases place <;> cases hholder
  position := trivial

/-! ## The begin of a tick -/

theorem Ticking.begin (hrun : p.running = none) :
    Ticking
      { p with loop := .managed 0, start := p.m, turns := 0, resumed := [], early := [] } where
  old := by simp
  nodup := List.nodup_nil
  running := by simp [hrun]
  fresh := by simp
  waiting := fun place co hw _ => ⟨hw.holder, hw.state⟩
  done := by
    intro place co _ hahead
    cases place with
    | managed j =>
        simp only [Proc.ahead, Loop.ahead, hrun] at hahead
        simp at hahead
        omega
    | untracked j => simp [Proc.ahead, Loop.ahead] at hahead
  position := by simp [Loop.Position, hrun]

/-! ## Calls -/

theorem not_outside_of_ahead (h : p.ahead place = true) : p.loop ≠ .outside := by
  intro hout
  rw [Proc.ahead, hout] at h
  cases h

/-- A coroutine is created, outside of a tick or by a body. -/
theorem Ticking.created (hp : Ticking p) (hs : Sound p) {m' : CoroutineManager}
    (hc : Created p.m m') (returned : List ObjectHandle) (owed : List CoroPtr) :
    Ticking { p with m := m', returned := returned, owed := owed } where
  old := fun hout co hco => hc.next ▸ Nat.lt_succ_of_lt (hp.old hout co hco)
  nodup := hp.nodup
  running := hp.running
  fresh := by
    intro place co hahead hco hres
    rcases hc.new place co hco with hco | rfl
    · exact hp.fresh place co hahead hco hres
    · exact absurd (hp.old (not_outside_of_ahead hahead) _ hres) (Nat.lt_irrefl _)
  waiting := by
    intro place co hw hahead
    obtain ⟨hco, hstate⟩ := hp.waiting place co ⟨hw.holder, hw.state, hw.notEarly⟩ hahead
    refine ⟨hc.kept place co hco, ?_⟩
    exact (hc.state co (Nat.ne_of_lt (lt_of_holder hs.inv hco))).trans hstate
  done := fun place co hw => hp.done place co ⟨hw.holder, hw.state, hw.notEarly⟩
  position := hp.position.mono hc.size

/-- A coroutine that is destroyed while its place is ahead is destroyed early. -/
theorem mem_destroyedEarly (hs : Sound p) (hcall : p.mayCall = true) {handle : ObjectHandle}
    (hfound : p.m.getCoroutine handle = some co) (hahead : p.ahead place = true)
    (hco : p.m.holder place = some co) : co ∈ p.destroyedEarly handle := by
  obtain ⟨j, hget, hat⟩ : ∃ j, p.m.mCoroutineData.get handle = some j ∧ p.m.coroAt j = some co := by
    unfold getCoroutine at hfound
    split at hfound
    · cases hfound
    · next j hget => exact ⟨j, hget, hfound⟩
  have hat' : p.m.holder (.managed j) = some co := hat
  obtain rfl := place_ext hs.inv.toOwns hco hat'
  have hout : p.loop ≠ .outside := not_outside_of_ahead hahead
  have hrunning : p.running.isSome = true := by simpa [Proc.mayCall, hout] using hcall
  rw [Proc.ahead, hrunning] at hahead
  unfold Proc.destroyedEarly
  cases hloop : p.loop with
  | outside => exact absurd hloop hout
  | managed i =>
      rw [hloop] at hahead
      have hlt : i < j := by simpa [Loop.ahead] using hahead
      simp [hget, hlt, hat]
  | untracked i =>
      rw [hloop] at hahead
      cases hahead

theorem Ticking.destroyed (hp : Ticking p) (hs : Sound p) (hcall : p.mayCall = true)
    {m' : CoroutineManager} {handle : ObjectHandle} (hd : Destroyed p.m m' handle) :
    Ticking { p with m := m', early := p.destroyedEarly handle ++ p.early } where
  old := fun hout co hco => hd.next ▸ hp.old hout co hco
  nodup := hp.nodup
  running := hp.running
  fresh := fun place co hahead hco => hp.fresh place co hahead ((hd.holder place co).1 hco).1
  waiting := by
    intro place co hw hahead
    have hnot := fun hmem => hw.notEarly (List.mem_append_right _ hmem)
    obtain ⟨hco, hstate⟩ := hp.waiting place co ⟨hw.holder, hw.state, hnot⟩ hahead
    have hne : p.m.getCoroutine handle ≠ some co := fun hfound =>
      hw.notEarly (List.mem_append_left _ (mem_destroyedEarly hs hcall hfound hahead hco))
    exact ⟨(hd.holder place co).2 ⟨hco, hne⟩, (hd.state co hne).trans hstate⟩
  done := by
    intro place co hw hahead
    have hnot := fun hmem => hw.notEarly (List.mem_append_right _ hmem)
    exact hp.done place co ⟨hw.holder, hw.state, hnot⟩ hahead
  position := hp.position.mono (Nat.le_of_eq hd.size.symm)

/-- Outside of a tick nothing is ahead. -/
theorem Ticking.outside (hp : Ticking p) (hout : p.loop = .outside) (m' : CoroutineManager) :
    Ticking { p with m := m' } where
  old := fun h => absurd hout h
  nodup := hp.nodup
  running := hp.running
  fresh := fun place co hahead => absurd hout (not_outside_of_ahead (p := p) hahead)
  waiting := fun place co _ hahead => absurd hout (not_outside_of_ahead (p := p) hahead)
  done := fun place co hw => hp.done place co ⟨hw.holder, hw.state, hw.notEarly⟩
  position := by simp [hout, Loop.Position]

/-! ## Turns -/

/-- The running body yields or ends. -/
theorem Ticking.left (hp : Ticking p) (hs : Sound p) (hrun : p.running = some co) (ended : Bool) :
    Ticking (p.left co ended) := by
  have hahead : ∀ place, (p.left co ended).ahead place = p.ahead place := by
    intro place
    rw [Proc.ahead, Proc.ahead, hrun]
    exact ahead_next
  have hloop : p.loop ≠ .outside := by
    intro hout
    rw [hs.outside hout] at hrun
    cases hrun
  exact {
    old := fun _ => hp.old hloop
    nodup := hp.nodup
    running := by simp [Proc.left]
    fresh := fun place co' h hco => hp.fresh place co' (hahead place ▸ h) hco
    waiting := by
      intro place co' hw h
      rw [hahead] at h
      obtain ⟨hco, hstate⟩ := hp.waiting place co' ⟨hw.holder, hw.state, hw.notEarly⟩ h
      refine ⟨hco, ?_⟩
      -- the running coroutine was resumed, so it is not at a place ahead
      have hne : co' ≠ co := fun he =>
        hp.fresh place co' h hco (he ▸ hp.running co hrun)
      change ((p.m.setState co _).coros co').state = _
      rw [state_setState, if_neg hne]
      exact hstate
    done := by
      intro place co' hw h
      rw [hahead] at h
      exact hp.done place co' ⟨hw.holder, hw.state, hw.notEarly⟩ h
    position := by
      have hposition := hp.position
      rw [hrun] at hposition
      change p.loop.next.Position p.m.mCoroutineData.mData.length p.turns 0
      cases hl : p.loop with
      | outside => trivial
      | managed i =>
          rw [hl] at hposition
          exact hposition
      | untracked i =>
          rw [hl] at hposition
          exact hposition }

/-- A place whose turn has come is behind the loop, or has its turn now. -/
theorem behind_or_current (hrun : p.running = none) {loop : Loop} (hloop : p.loop = loop)
    (h : loop.ahead true place = false) : p.ahead place = false ∨ loop.current = some place := by
  rw [Proc.ahead, hrun, hloop]
  cases hahead : loop.ahead false place with
  | false => exact .inl hahead
  | true =>
      refine .inr (by_contra fun hne => ?_)
      rw [ahead_running.2 ⟨hahead, hne⟩] at h
      cases h

theorem Ticking.resume (hp : Ticking p) (hs : Sound p) (hrun : p.running = none)
    (hcur : p.loop.current = some place) (hco : p.m.holder place = some co)
    (hposition : p.loop.Position p.m.mCoroutineData.mData.length (p.turns + 1) 1) :
    Ticking (p.resume co) := by
  have hcurrent : p.ahead place = true := by
    rw [Proc.ahead, hrun]
    exact ahead_current hcur
  have hbefore : ∀ place', (p.resume co).ahead place' = true →
      p.ahead place' = true ∧ place ≠ place' := by
    intro place' h
    obtain ⟨h, hne⟩ := ahead_running.1 h
    rw [Proc.ahead, hrun]
    exact ⟨h, fun he => hne (he ▸ hcur)⟩
  have hother : ∀ place' co', p.m.holder place' = some co' → place ≠ place' → co' ≠ co := by
    rintro place' co' hco' hne rfl
    exact hne (place_ext hs.inv.toOwns hco hco')
  exact {
    old := by
      intro _ co' hco'
      have hlt : co < p.m.nextCoro := lt_of_holder hs.inv hco
      rcases List.mem_cons.1 hco' with he | hco'
      · exact he ▸ hlt
      · exact hp.old (not_outside_of_ahead hcurrent) co' hco'
    nodup := List.nodup_cons.2 ⟨hp.fresh place co hcurrent hco, hp.nodup⟩
    running := fun co' hco' => Option.some.inj hco' ▸ List.mem_cons_self
    fresh := by
      intro place' co' h hco' hres
      obtain ⟨h, hne⟩ := hbefore place' h
      rcases List.mem_cons.1 hres with he | hres
      · exact hother place' co' hco' hne he
      · exact hp.fresh place' co' h hco' hres
    waiting := by
      intro place' co' hw h
      obtain ⟨h, hne⟩ := hbefore place' h
      obtain ⟨hco', hstate⟩ := hp.waiting place' co' ⟨hw.holder, hw.state, hw.notEarly⟩ h
      refine ⟨hco', ?_⟩
      change ((p.m.setState co .running).coros co').state = _
      rw [state_setState, if_neg (hother place' co' hco' hne)]
      exact hstate
    done := by
      intro place' co' hw h
      have hw : p.Waiting place' co' := ⟨hw.holder, hw.state, hw.notEarly⟩
      rcases behind_or_current hrun rfl h with h | hcur'
      · exact List.mem_cons_of_mem _ (hp.done place' co' hw h)
      · obtain rfl : place = place' := Option.some.inj (hcur.symm.trans hcur')
        have hco' := (hp.waiting place co' hw hcurrent).1
        rw [hco] at hco'
        exact Option.some.inj hco' ▸ List.mem_cons_self
    position := hposition }

/-- The loop goes on without resuming anything: what is no longer ahead held nothing suspended. -/
theorem Ticking.goTo (hp : Ticking p) (hrun : p.running = none) {loop : Loop}
    (hloop : p.loop ≠ .outside)
    (hahead : ∀ place, loop.ahead false place = true → p.ahead place = true)
    (hempty : ∀ place co, p.ahead place = true → loop.ahead false place = false →
      p.m.holder place = some co → (p.m.coros co).state ≠ .suspended)
    (hposition : loop.Position p.m.mCoroutineData.mData.length (p.turns + 1) 0) :
    Ticking (p.goTo loop) := by
  have hgoTo : ∀ place, (p.goTo loop).ahead place = loop.ahead false place := by
    intro place
    change loop.ahead p.running.isSome place = _
    rw [hrun]
    rfl
  exact {
    old := fun _ => hp.old hloop
    nodup := hp.nodup
    running := hp.running
    fresh := fun place co h => hp.fresh place co (hahead place (hgoTo place ▸ h))
    waiting := fun place co hw h => hp.waiting place co ⟨hw.holder, hw.state, hw.notEarly⟩
      (hahead place (hgoTo place ▸ h))
    done := by
      intro place co hw h
      have hw : p.Waiting place co := ⟨hw.holder, hw.state, hw.notEarly⟩
      rw [hgoTo] at h
      cases hbefore : p.ahead place with
      | false => exact hp.done place co hw hbefore
      | true =>
          obtain ⟨hco, hstate⟩ := hp.waiting place co hw hbefore
          exact absurd hstate (hempty place co hbefore h hco)
    position := by
      change loop.Position _ _ p.running.toList.length
      rw [hrun]
      exact hposition }

theorem Ticking.body (hp : Ticking p) (hs : Sound p) (hrun : p.running = none)
    (hcur : p.loop.current = some place)
    (hposition : p.loop.Position p.m.mCoroutineData.mData.length (p.turns + 1) 1) :
    Ticking (p.body (p.m.suspendedAt place)) := by
  cases hat : p.m.suspendedAt place with
  | some co => exact hp.resume hs hrun hcur ((suspendedAt_eq_some hs.inv).1 hat).1 hposition
  | none =>
      have hloop : p.loop ≠ .outside := by
        intro hout
        rw [hout] at hcur
        cases hcur
      refine hp.goTo hrun hloop (fun place' h => ?_) (fun place' co hahead h hco hstate => ?_) ?_
      · rw [ahead_next] at h
        rw [Proc.ahead, hrun]
        exact (ahead_running.1 h).1
      · rw [ahead_next] at h
        rcases behind_or_current hrun rfl h with hbehind | hcur'
        · rw [hahead] at hbehind
          cases hbehind
        · obtain rfl : place = place' := Option.some.inj (hcur.symm.trans hcur')
          rw [(suspendedAt_eq_some hs.inv).2 ⟨hco, hstate⟩] at hat
          cases hat
      · cases hl : p.loop with
        | outside => exact absurd hl hloop
        | managed i =>
            rw [hl] at hposition
            exact hposition
        | untracked i =>
            rw [hl] at hposition
            exact hposition

theorem Ticking.turn (hp : Ticking p) (hs : Sound p) (hrun : p.running = none)
    (h : p.turn = some p') : Ticking p' := by
  have hposition := hp.position
  rw [hrun] at hposition
  unfold Proc.turn at h
  split at h
  · cases h
  · next i hloop =>
    rw [hloop] at hposition
    split at h
    · next hlt =>
      obtain rfl := Option.some.inj h
      have hcur : p.loop.current = some (.managed i) := by rw [hloop]; rfl
      refine hp.body hs hrun hcur ?_
      rw [hloop]
      exact ⟨hlt, congrArg (· + 1) hposition.2⟩
    · next hge =>
      obtain rfl := Option.some.inj h
      refine hp.goTo hrun (by simp [hloop]) (fun place h => ?_) (fun place co hahead h hco => ?_) ?_
      · rw [Proc.ahead, hrun, hloop]
        exact ahead_second h
      · cases place with
        | untracked j => simp [Loop.ahead] at h; omega
        | managed j =>
            rw [Proc.ahead, hrun, hloop] at hahead
            obtain ⟨e, he, -⟩ := coroAt_eq_some.1 hco
            have hlt := (List.getElem?_eq_some_iff.1 he).1
            simp [Loop.ahead] at hahead
            omega
      · have hle := hs.inv.slots.length_le
        obtain ⟨hi, hturns⟩ := hposition
        change p.turns + 1 ≤ 2 ^ 15 + 1 + 0 + 0
        omega
  · next i hloop =>
    rw [hloop] at hposition
    split at h
    · next hlt =>
      obtain rfl := Option.some.inj h
      have hcur : p.loop.current = some (.untracked i) := by rw [hloop]; rfl
      refine hp.body hs hrun hcur ?_
      rw [hloop]
      exact Nat.succ_le_succ hposition
    · next hge =>
      obtain rfl := Option.some.inj h
      refine hp.goTo hrun (by simp [hloop]) (fun place h => by cases h)
        (fun place co hahead _ hco => ?_) trivial
      rw [Proc.ahead, hrun, hloop] at hahead
      cases place with
      | managed j => cases hahead
      | untracked j =>
          obtain ⟨coro, hi, -⟩ := Option.bind_eq_some_iff.1 hco
          have hlt := (List.getElem?_eq_some_iff.1 hi).1
          simp [Loop.ahead] at hahead
          omega

/-! ## Runs -/

theorem Ticking.step {op : Op} (hp : Ticking p) (hs : Sound p) (hok : Allowed p op)
    (h : p.step op = some p') : Ticking p' := by
  cases op with
  | createUntrackedCoroutine clientstream userData freeCb =>
      obtain ⟨-, rfl⟩ := of_guard h
      exact hp.created hs (created_untracked _ _ _) _ _
  | createManagedCoroutine userData autodelete =>
      obtain ⟨-, rfl⟩ := of_guard h
      exact hp.created hs (created_managed hs.inv hok _ _) _ _
  | destroyCoroutine handle =>
      obtain ⟨hcall, rfl⟩ := of_guard h
      have hst := SSlotMap.not_storedByRemoved (m := p.m.mCoroutineData) (hs.returned _ hok.1)
      exact hp.destroyed hs hcall (destroyed_destroyCoroutine hs.inv hst fun co hco hrun =>
        hok.2 co hrun.symm hco)
  | cleanupDeadCoroutines =>
      obtain ⟨hout, rfl⟩ := of_guard h
      exact hp.outside hout _
  | destroyAllCoroutines =>
      obtain ⟨hout, rfl⟩ := of_guard h
      exact hp.outside hout _
  | stepCoroutines =>
      obtain ⟨hout, rfl⟩ := of_guard h
      exact .begin (hs.outside hout)
  | turn =>
      obtain ⟨hrun, h⟩ := Option.ite_none_right_eq_some.1 h
      exact hp.turn hs hrun h
  | leave ended =>
      obtain ⟨co, hrun, rfl⟩ := Option.map_eq_some_iff.1 h
      exact hp.left hs hrun ended

theorem ticking_run (hp : proc.Run Allowed p) : Sound p ∧ Ticking p := by
  refine hp.invariant (P := fun p => Sound p ∧ Ticking p) (fun p hinit => ?_)
    fun p op p' hinv hok hstep => ?_
  · exact hinit ▸ ⟨sound_init, ticking_init⟩
  · exact ⟨hinv.1.step hok hstep, hinv.2.step hinv.1 hok hstep⟩

/-- The turn of a place comes after so many turns. -/
theorem not_ahead_of_deadline (hs : Sound p) (hp : Ticking p) (hrun : p.running = none)
    (h : Proc.deadline place ≤ p.turns) : p.ahead place = false := by
  have hposition := hp.position
  have hle := hs.inv.slots.length_le
  rw [hrun] at hposition
  rw [Proc.ahead, hrun]
  cases hloop : p.loop with
  | outside => rfl
  | managed i =>
      rw [hloop] at hposition
      obtain ⟨hi, hturns⟩ := hposition
      simp only [Option.toList_none, List.length_nil] at hi hturns
      cases place with
      | managed j =>
          simp only [Proc.deadline] at h
          simp [Loop.ahead]
          omega
      | untracked j =>
          simp only [Proc.deadline] at h
          omega
  | untracked i =>
      rw [hloop] at hposition
      have hturns : p.turns ≤ 2 ^ 15 + 1 + i + 0 := hposition
      cases place with
      | managed j => rfl
      | untracked j =>
          simp only [Proc.deadline] at h
          simp [Loop.ahead]
          omega

theorem turn_isSome (hloop : p.loop ≠ .outside) : p.turn.isSome = true := by
  unfold Proc.turn
  split
  · next hout => exact absurd hout hloop
  · split <;> rfl
  · split <;> rfl

/-- **One resume a tick.** No coroutine is resumed twice; a coroutine that was suspended when the
tick began, and not destroyed before its turn, was resumed once when its place is no longer ahead;
and the turn of every place comes: after the deadline, unless the tick is over, while a next turn is
always possible. -/
theorem one_resume (hp : proc.Run Allowed p) :
    p.resumed.Nodup ∧
      (∀ place co, p.Waiting place co → p.ahead place = false → p.resumed.count co = 1) ∧
      (∀ place, p.running = none → Proc.deadline place ≤ p.turns → p.ahead place = false) ∧
      (p.loop ≠ .outside → p.running = none → (p.step .turn).isSome = true) := by
  obtain ⟨hs, ht⟩ := ticking_run hp
  refine ⟨ht.nodup, fun place co hw h => ?_, fun place => not_ahead_of_deadline hs ht, ?_⟩
  · exact List.count_eq_one_of_mem ht.nodup (ht.done place co hw h)
  · intro hloop hrun
    rw [Proc.step, if_pos hrun]
    exact turn_isSome hloop

/-- The first of three managed coroutines destroys the second and creates an untracked one; both
loops are walked through. -/
def busyTick : List Op :=
  [.createManagedCoroutine none false, .createManagedCoroutine none false,
    .createManagedCoroutine none false, .stepCoroutines, .turn, .destroyCoroutine 1,
    .createUntrackedCoroutine (some 0) none false, .leave false, .turn, .turn, .leave true,
    .turn, .turn, .leave true, .turn]

theorem one_resume_busyTick :
    ∃ p : Proc, (p.loop = .outside ∧ p.resumed = [3, 2, 0] ∧ p.early = [1]) ∧
      p.resumed.Nodup ∧
      (∀ place co, p.Waiting place co → p.ahead place = false → p.resumed.count co = 1) ∧
      (∀ place, p.running = none → Proc.deadline place ≤ p.turns → p.ahead place = false) ∧
      (p.loop ≠ .outside → p.running = none → (p.step .turn).isSome = true) := by
  obtain ⟨p, -, hp, hq⟩ := Machine.exists_run_of_replay proc Allowed busyTick
    (fun p => decide (p.loop = .outside ∧ p.resumed = [3, 2, 0] ∧ p.early = [1])) (s := {}) rfl
    (by decide +kernel)
  exact ⟨p, of_decide_eq_true hq, one_resume hp⟩

end CoroutineManager

end ServerBase
