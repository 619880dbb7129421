import ServerBase.Auth.Ownership

/-!
# Waiting for results

A coroutine inside `start_poll_and_yield_until_polldata` relies on its context: on its flags, its
poll handle and its connection. The poll callback and the reconnect loop write all three.

**The rule** (`WaitRules.kept`). A condition on the contexts of waiting coroutines is an invariant
when it holds of a context on which polling was just started, and the poll callback and the
reconnect loop keep it.

**No lost wake-up** (`no_lost_wakeup`) and **no stale connection** (`no_stale_connection`) hold in
the runs in which the reconnect loop spares the contexts of waiting coroutines, each in its own
sense; outside them both fail (`lost_wakeup`, `stale_connection`).
-/

namespace ServerBase

namespace Server

variable {n : Nat}

/-! ## Waiting coroutines -/

/-- The context of every waiting coroutine satisfies `Q`. -/
def Waiters (Q : Fin n → ConnId → DBConnectionCtx n → Prop) (s : Server n) : Prop :=
  ∀ co k c, (s.coros co).point = .waitPoll k c → Q k c (s.mConnections k)

/-- A coroutine that waits after a resume waited before, and its context is as it was; or it is the
resumed one, and has just taken the context. -/
theorem Resumed.waiter {s s' : Server n} {co co' : CoroId} {r : Readings n} {k : Fin n}
    {c : ConnId} (hs : Sound s) (hr : Resumed s co r s')
    (hw : (s'.coros co').point = .waitPoll k c) :
    (s.coros co').point = .waitPoll k c ∧ s'.mConnections k = s.mConnections k ∨
      co' = co ∧ (s.mConnections k).mConn = some c ∧
        s'.mConnections k = ((s.mConnections k).acquired (s.coros co).mStream).pollStart k := by
  obtain ⟨-, htracked, hleased⟩ := hs
  -- a coroutine that moves to a point without a context does not wait there
  have hmove : ∀ {t : Server n} {p : Point n}, p.holds = none →
      t.coros = Function.update s.coros co { s.coros co with point := p } →
      (t.coros co').point = .waitPoll k c → co' ≠ co ∧ (s.coros co').point = .waitPoll k c := by
    intro t p hp hc hw
    by_cases hne : co' = co
    · rw [hne, coros_self hc] at hw
      rw [show p = .waitPoll k c from hw] at hp
      cases hp
    · rw [coros_other hc hne] at hw
      exact ⟨hne, hw⟩
  have hfree : ∀ {j}, (s.mConnections j).mInUse = false →
      (s.coros co').point = .waitPoll k c → k ≠ j := by
    rintro j hj hw rfl
    rw [(hleased.waitPoll co' k c hw).1] at hj
    cases hj
  cases hr with
  | idle => exact .inl ⟨hw, rfl⟩
  | gone => exact .inl ⟨(hmove rfl rfl hw).2, rfl⟩
  | refused => exact .inl ⟨(hmove rfl rfl hw).2, rfl⟩
  | waits => exact .inl ⟨(hmove rfl rfl hw).2, rfl⟩
  | sendFailed j d es hnone hdead hconn huse =>
      obtain ⟨-, hw⟩ := hmove rfl rfl hw
      exact .inl ⟨hw, Function.update_of_ne (hfree huse hw) _ _⟩
  | suspended j d es hnone hdead hconn huse =>
      by_cases hne : co' = co
      · rw [hne, coros_self (s := s) (p := .waitPoll j d) rfl] at hw
        obtain ⟨rfl, rfl⟩ := Point.waitPoll.inj hw
        exact .inr ⟨hne, hconn, Function.update_self _ _ _⟩
      · rw [coros_other (s := s) (p := .waitPoll j d) rfl hne] at hw
        exact .inl ⟨hw, Function.update_of_ne (hfree huse hw) _ _⟩
  | finished j d x b _ hpoint hdone hends =>
      obtain ⟨es', rfl, -⟩ := hends
      obtain ⟨hne, hw⟩ := hmove rfl rfl hw
      refine .inl ⟨hw, Function.update_of_ne (fun hkj => hne ?_) _ _⟩
      exact hleased.unique co' co k c d hw (hkj ▸ hpoint)
  | updated j d b _ hpoint => exact absurd hpoint (htracked.noUpdate co j d)

/-- What a condition on the contexts of waiting coroutines has to survive. -/
structure WaitRules (C : Conds n) (Q : Fin n → ConnId → DBConnectionCtx n → Prop) : Prop where
  start : ∀ k c (ctx : DBConnectionCtx n) p st, ctx.mConn = some c → ctx.mPollData = some p →
    p.sock = c → Q k c ((ctx.acquired st).pollStart k)
  ready : ∀ k c (ctx : DBConnectionCtx n), ctx.mPollData.any UvPoll.started = true → Q k c ctx →
    Q k c { ctx.pollStop with mDataReady := true }
  failed : ∀ k c (ctx : DBConnectionCtx n), Q k c ctx →
    Q k c { ctx.pollStop with mTerminate := true }
  reconnect : ∀ s k c connected, C.onReconnect s k connected →
    (s.mConnections k).mInUse = true → Q k c (s.mConnections k) →
    Q k c (if connected then (s.mConnections k).disconnected.reconnected s.nextConn
      else (s.mConnections k).disconnected)

namespace WaitRules

variable {C : Conds n} {Q : Fin n → ConnId → DBConnectionCtx n → Prop}

theorem of_same {s s' : Server n} (h : Waiters Q s) (hcoros : s'.coros = s.coros)
    (hctx : s'.mConnections = s.mConnections) : Waiters Q s' := by
  intro co k c hw
  rw [hcoros] at hw
  rw [hctx]
  exact h co k c hw

/-- One context changes, to one that still satisfies the condition if somebody waits for it. -/
theorem of_update {s s' : Server n} {k : Fin n} {x : DBConnectionCtx n} (h : Waiters Q s)
    (hcoros : s'.coros = s.coros)
    (hctx : s'.mConnections = Function.update s.mConnections k x)
    (hx : ∀ co c, (s.coros co).point = .waitPoll k c → Q k c (s.mConnections k) → Q k c x) :
    Waiters Q s' := by
  intro co j c hw
  rw [hcoros] at hw
  rw [hctx]
  by_cases hj : j = k
  · subst hj
    rw [Function.update_self]
    exact hx co c hw (h co j c hw)
  · rw [Function.update_of_ne hj]
    exact h co j c hw

theorem polled (hQ : WaitRules C Q) {s s' : Server n} {k : Fin n} {status : Int}
    {consumed : Bool} (h : Waiters Q s) (hk : s.polling k = true)
    (hp : Polled s k status consumed s') : Waiters Q s' := by
  obtain ⟨x, hctx, hx⟩ := hp.ctx
  apply of_update h hp.frame.1.coros hctx
  intro co c _ hq
  rcases hx with rfl | rfl | rfl
  · exact hq
  · exact hQ.ready k c _ hk hq
  · exact hQ.failed k c _ hq

theorem resumed (hQ : WaitRules C Q) {s s' : Server n} {co : CoroId} {r : Readings n}
    (hs : Sound s) (h : Waiters Q s) (hr : Resumed s co r s') : Waiters Q s' := by
  intro co' k c hw
  rcases hr.waiter hs hw with ⟨hw, hctx⟩ | ⟨-, hconn, hctx⟩ <;> rw [hctx]
  · exact h co' k c hw
  · obtain ⟨p, hp⟩ := Option.isSome_iff_exists.1 (hs.1.pollSome k (by rw [hconn]; rfl))
    refine hQ.start k c _ p _ hconn hp ?_
    exact Option.some.inj ((hs.1.pollSock k p hp).symm.trans hconn)

/-- **The invariant rule** for the contexts of waiting coroutines. -/
theorem kept (hQ : WaitRules C Q) (env : AuthEnv) : Kept env C Sound (Waiters Q) where
  connect s accepted _ h :=
    of_same h (connect_frame s accepted).2.coros (connect_frame s accepted).1.mConnections
  read s st nread buf writable hs h _ _ := by
    have hread := httpRead_cases env s st nread buf writable
    generalize s.httpRead env st nread buf writable = s' at hread ⊢
    cases hread with
    | plain _ hplain => exact of_same h hplain.coros.coros hplain.pool.mConnections
    | create data es hes =>
        intro co k c hw
        have hco : co ≠ s.nextCoro := by
          rintro rfl
          rw [coros_created_self] at hw
          cases hw
        rw [coros_created_other hco] at hw
        exact h co k c hw
  poll s k status consumed busy hs h hk _ :=
    hQ.polled h hk (pollCallback_cases status consumed busy hk (hs.1.pollData k))
  reconnect s k connected hs h hC := by
    refine of_update h (reconnect_frame s k connected).1.coros
      (reconnect_mConnections s k connected) ?_
    intro co c hw
    exact hQ.reconnect s k c connected hC (hs.2.leased.waitPoll co k c hw).1
  resume s co r hs h _ _ := hQ.resumed hs h (resume_cases s co r)
  cleanup s _ h := by
    have hclose := closeDead_closes s.mUntrackedCoroutines s
    exact of_same h hclose.coros.coros hclose.pool.mConnections
  closeCb s st _ h _ := of_same h rfl rfl

end WaitRules

theorem InitFrom.waiters {s : Server n} (h : InitFrom n s)
    (Q : Fin n → ConnId → DBConnectionCtx n → Prop) : Waiters Q s := by
  intro co k c hw
  rw [h.coros] at hw
  cases hw

/-! ## Wake-ups -/

/-- The handle is started for the context `k` and watches the socket of `c`. -/
def Watches (k : Fin n) (c : ConnId) (ctx : DBConnectionCtx n) : Prop :=
  ∃ p, ctx.mPollData = some p ∧ p.started = true ∧ p.data = some k ∧ p.sock = c

/-- Polling is over, or an event on the socket of the query's connection ends it. -/
def Wakes (k : Fin n) (c : ConnId) (ctx : DBConnectionCtx n) : Prop :=
  ctx.donePollingData = true ∨ Watches k c ctx

/-- The reconnect loop meets a context in use only when polling on it is over and the new connection
fails. -/
abbrev sparesWaiters : Conds n where
  onReconnect s k connected :=
    (s.mConnections k).mInUse = true →
      connected = false ∧ (s.mConnections k).donePollingData = true

/-- After a round of the reconnect loop a context wakes its coroutine exactly in that case. -/
theorem wakes_reconnect_iff (ctx : DBConnectionCtx n) (k : Fin n) (c new : ConnId)
    (connected : Bool) :
    Wakes k c (if connected then ctx.disconnected.reconnected new else ctx.disconnected) ↔
      connected = false ∧ ctx.donePollingData = true := by
  cases connected with
  | true =>
      refine ⟨?_, fun h => absurd h.1 (by simp)⟩
      intro h
      rcases h with h | ⟨p, hp, hstarted, -⟩
      · simp [DBConnectionCtx.reconnected, DBConnectionCtx.resetFlags,
          DBConnectionCtx.donePollingData] at h
      · rw [← Option.some.inj hp] at hstarted
        cases hstarted
  | false =>
      refine ⟨fun h => ⟨rfl, ?_⟩, fun h => .inl h.2⟩
      rcases h with h | ⟨p, hp, -⟩
      · exact h
      · cases hp

theorem wakes_rules : WaitRules (sparesWaiters (n := n)) Wakes where
  start k c ctx p st _ hp hsock := by
    refine .inr ⟨{ p with data := some k, started := true }, ?_, rfl, rfl, hsock⟩
    show ctx.mPollData.map _ = _
    rw [hp]
    rfl
  ready k c ctx _ _ := .inl (by simp [DBConnectionCtx.donePollingData])
  failed k c ctx _ := .inl (by simp [DBConnectionCtx.donePollingData])
  reconnect s k c connected hC huse _ :=
    (wakes_reconnect_iff (s.mConnections k) k c s.nextConn connected).2 (hC huse)

/-- **No lost wake-up.** In the runs in which the reconnect loop spares waiting coroutines, every
coroutine inside `start_poll_and_yield_until_polldata` can get out of it: polling is over, or its
context has a started handle of its own, on the socket of the connection the query went to. -/
theorem no_lost_wakeup (env : AuthEnv) {s : Server n}
    (hs : (env.loop n).Run (Conds.holds sparesWaiters) s) (co : CoroId) (k : Fin n) (c : ConnId)
    (hw : (s.coros co).point = .waitPoll k c ∨ (s.coros co).point = .waitUpdate k c) :
    (s.mConnections k).donePollingData = true ∨
      ∃ p, (s.mConnections k).mPollData = some p ∧ p.started = true ∧ p.data = some k ∧
        p.sock = c := by
  obtain ⟨hsound, hwaiters⟩ := ((sound_kept env sparesWaiters).and (wakes_rules.kept env)).run
    (fun _ hinit => ⟨sound_loop hinit, (initFrom_loop hinit).waiters _⟩) hs
  rcases hw with hw | hw
  · exact hwaiters co k c hw
  · exact absurd hw (hsound.2.tracked.noUpdate co k c)

/-- A login whose query was sent, on a database that did not restart. -/
theorem no_lost_wakeup_login :
    ∃ s : Server 1, (s.coros 0).point = .waitPoll 0 0 ∧
      ((s.mConnections 0).donePollingData = true ∨
        ∃ p, (s.mConnections 0).mPollData = some p ∧ p.started = true ∧ p.data = some 0 ∧
          p.sock = 0) := by
  obtain ⟨s, -, hs, hq⟩ := Machine.exists_run_of_replay (directLoginEnv.loop 1)
    (Conds.holds sparesWaiters)
    [.connect true, directLoginRead 0, .coTimer fun _ => {}]
    (fun s => decide ((s.coros 0).point = .waitPoll 0 0)) (oneConnection_init _)
    (by decide +kernel)
  have hw := of_decide_eq_true hq
  exact ⟨s, hw, no_lost_wakeup directLoginEnv hs 0 0 0 (.inl hw)⟩

/-- The database restarts while a login waits for its query. -/
def restartWhileWaiting (connected : Bool) : List (Input 1) :=
  [.connect true, directLoginRead 0, .coTimer fun _ => {},
    .dbTimer false (fun _ => true) fun _ => connected]

/-- **A lost wake-up.** The reconnect loop replaces the handle a login waits on, by one that nobody
starts. -/
theorem lost_wakeup :
    ∃ s : Server 1,
      (directLoginEnv.loop 1).replay oneConnection (restartWhileWaiting true) = some s ∧
        (directLoginEnv.loop 1).Reachable s ∧ (s.coros 0).point = .waitPoll 0 0 ∧
        ¬ ((s.mConnections 0).donePollingData = true ∨
          ∃ p, (s.mConnections 0).mPollData = some p ∧ p.started = true ∧ p.data = some 0 ∧
            p.sock = 0) := by
  obtain ⟨s, hreplay, hs, hq⟩ := Machine.exists_run_of_replay (directLoginEnv.loop 1)
    Machine.anyStep (restartWhileWaiting true)
    (fun s => decide ((s.coros 0).point = .waitPoll 0 0 ∧
      (s.mConnections 0).donePollingData = false ∧
        (s.mConnections 0).mPollData.any UvPoll.started = false)) (oneConnection_init _)
    (by decide +kernel)
  obtain ⟨hw, hdone, hstarted⟩ := of_decide_eq_true hq
  refine ⟨s, hreplay, hs, hw, ?_⟩
  rintro (h | ⟨p, hp, h, -⟩)
  · rw [hdone] at h
    cases h
  · rw [hp, Option.any_some, h] at hstarted
    cases hstarted

/-! ## Connections -/

/-- The results that are ready, or may become so, are those of the connection `c`, which the context
still has. -/
structure Current (_ : Fin n) (c : ConnId) (ctx : DBConnectionCtx n) : Prop where
  ready : ctx.mDataReady = true → ctx.mTerminate = false → ctx.mConn = some c
  watched : ctx.mPollData.any UvPoll.started = true → ctx.mConn = some c

/-- The reconnect loop does not fail on a context in use whose results are ready. -/
abbrev sparesResults : Conds n where
  onReconnect s k connected :=
    connected = false → ¬ ((s.mConnections k).mInUse = true ∧
      (s.mConnections k).mDataReady = true ∧ (s.mConnections k).mTerminate = false)

theorem not_started_of_pollStop {x y : DBConnectionCtx n}
    (h : y.mPollData = x.pollStop.mPollData) : ¬ y.mPollData.any UvPoll.started = true := by
  rw [h]
  cases hp : x.mPollData <;> simp [DBConnectionCtx.pollStop, hp]

theorem current_rules : WaitRules (sparesResults (n := n)) Current where
  start k c ctx p st hconn _ _ := ⟨fun _ _ => hconn, fun _ => hconn⟩
  ready k c ctx hstarted h := ⟨fun _ _ => h.watched hstarted, fun _ => h.watched hstarted⟩
  failed k c ctx _ := by
    constructor
    · intro _ hterm
      cases hterm
    · intro hstarted
      exact absurd hstarted (not_started_of_pollStop (x := ctx) rfl)
  reconnect s k c connected hC huse _ := by
    cases connected with
    | true =>
        constructor
        · intro hready
          cases hready
        · intro hstarted
          cases hstarted
    | false =>
        constructor
        · intro hready hterm
          exact absurd ⟨huse, hready, hterm⟩ (hC rfl)
        · intro hstarted
          cases hstarted

/-! ### What is recorded -/

/-- What a property of the recorded events has to hold of. -/
structure TraceRules (C : Conds n) (Q : Server n → Prop) (p : Event n → Prop) : Prop where
  stream : ∀ s st e, StreamEvent s st e → p e
  pool : ∀ e, PoolEvent e → p e
  polled : ∀ k, p (.polled k)
  nullString : p (.fault .nullString)
  pathOverflow : p (.fault .pathOverflow)
  nullStream : ∀ s k, Q s → s.polling k = true → (s.mConnections k).mStream = none →
    p (.fault .nullStream)
  resume : ∀ s co r s', Q s → C.onResume s co r → Resumed s co r s' → Adds p s s'

namespace TraceRules

variable {C : Conds n} {Q : Server n → Prop} {p : Event n → Prop}

theorem read (h : TraceRules C Q p) {s : Server n} {st : StreamId} {e : Event n}
    (he : ReadEvent s st e) : p e := by
  cases he with
  | stream he => exact h.stream s st e he
  | nullString => exact h.nullString
  | pathOverflow => exact h.pathOverflow

/-- **The invariant rule** for the recorded events. -/
theorem kept (h : TraceRules C Q p) (hQ : ∀ s, Q s → Sound s) (env : AuthEnv) :
    Kept env C Q fun s => ∀ e ∈ s.trace, p e where
  connect s accepted _ hs := ((connect_adds s accepted).mono fun e => h.stream _ _ e).forall hs
  read s st nread buf writable _ hs _ _ := by
    have hread := httpRead_cases env s st nread buf writable
    generalize s.httpRead env st nread buf writable = s' at hread ⊢
    cases hread with
    | plain _ hplain => exact (hplain.adds.mono fun e => h.read).forall hs
    | create data es hes =>
        have hadds : Adds p s ((s.log es).createUntrackedCoroutine st data) :=
          ⟨es, rfl, fun e he => h.read (hes e he)⟩
        exact hadds.forall hs
  poll s k status consumed busy hq hs hk _ := by
    have hp := pollCallback_cases status consumed busy hk ((hQ s hq).1.pollData k)
    refine (hp.adds.mono ?_).forall hs
    intro e he
    rcases he with rfl | ⟨-, ⟨rfl, hnull⟩ | ⟨st, -, he⟩⟩
    · exact h.polled k
    · exact h.nullStream s k hq hk hnull
    · exact h.stream s st e he
  reconnect s k connected _ hs _ := ((reconnect_adds s k connected).mono h.pool).forall hs
  resume s co r hq hs _ hC := (h.resume s co r _ hq hC (resume_cases s co r)).forall hs
  cleanup s _ hs := by
    refine Adds.forall (s := s) (t := closeDead s.mUntrackedCoroutines s) ?_ hs
    apply (closeDead_closes s.mUntrackedCoroutines s).adds.mono
    intro e he
    obtain ⟨co, -, -, he⟩ := he
    exact h.stream _ _ e he
  closeCb s st _ hs _ := hs

/-- Nothing but the pool's connections is recorded by `InitializeConnections`. -/
theorem init (h : TraceRules C Q p) {s : Server n} (hs : InitFrom n s) : ∀ e ∈ s.trace, p e :=
  fun e he => h.pool e (hs.trace e he)

end TraceRules

/-- The event is no libpq call with a stale connection. -/
def NoStale (e : Event n) : Prop := ∀ co c, e ≠ .libpq co c true

/-- The connection of a context is not stale. -/
theorem PoolWf.not_stale {s : Server n} (h : PoolWf s) {k : Fin n} {c : ConnId}
    (hc : (s.mConnections k).mConn = some c) : s.stale k c = false := by
  simp [stale, hc, h.connLive k c hc]

/-- What a coroutine has waited for is the connection its context has. -/
theorem not_stale_of_uses {s : Server n} (hs : Sound s) (h : Waiters Current s) {co : CoroId}
    {k : Fin n} {c : ConnId} (huses : s.Uses co k c)
    (hterm : (s.mConnections k).mTerminate = false) : s.stale k c = false := by
  rcases huses with ⟨hconn, -⟩ | ⟨hw, hdone⟩ | hw
  · exact hs.1.not_stale hconn
  · rw [DBConnectionCtx.donePollingData, hterm, Bool.or_false] at hdone
    exact hs.1.not_stale ((h co k c hw).ready hdone hterm)
  · exact absurd hw (hs.2.tracked.noUpdate co k c)

theorem noStale_rules :
    TraceRules (sparesResults (n := n)) (fun s => Sound s ∧ Waiters Current s) NoStale where
  stream s st e he co c := by cases he <;> simp
  pool e he co c := by cases he <;> simp
  polled k co c := by simp
  nullString co c := by simp
  pathOverflow co c := by simp
  nullStream s k _ _ _ co c := by simp
  resume s co r s' hq _ hr := by
    apply hr.adds.mono
    intro e he co' c'
    rcases he with he | ⟨k, c, huses, he⟩
    · cases he <;> simp
    · cases he with
      | libpq hterm =>
          rw [not_stale_of_uses hq.1 hq.2 huses hterm]
          simp
      | _ => simp

/-- **No stale connection.** In the runs in which the reconnect loop spares the contexts whose
results are ready, a coroutine calls libpq only with the connection its context has, which is not
finished. -/
theorem no_stale_connection (env : AuthEnv) {s : Server n}
    (hs : (env.loop n).Run (Conds.holds sparesResults) s) (co : CoroId) (c : ConnId) :
    .libpq co c true ∉ s.trace := by
  have hkept := ((sound_kept env sparesResults).and (current_rules.kept env)).and
    ((noStale_rules (n := n)).kept (fun _ h => h.1) env)
  obtain ⟨-, htrace⟩ := hkept.run (fun _ hinit => ⟨⟨sound_loop hinit,
    (initFrom_loop hinit).waiters _⟩, noStale_rules.init (initFrom_loop hinit)⟩) hs
  exact fun hmem => htrace _ hmem co c rfl

/-- A login whose results are read. -/
theorem no_stale_connection_login :
    ∃ s : Server 1, .libpq 0 0 false ∈ s.trace ∧ .libpq 0 0 true ∉ s.trace := by
  obtain ⟨s, -, hs, hq⟩ := Machine.exists_run_of_replay (directLoginEnv.loop 1)
    (Conds.holds sparesResults)
    [.connect true, directLoginRead 0, .coTimer fun _ => {}, resultsReady,
      .coTimer fun _ => {}]
    (fun s => s.trace.any fun e => e matches .libpq 0 0 false) (oneConnection_init _)
    (by decide +kernel)
  obtain ⟨e, he, hlibpq⟩ := List.any_eq_true.1 hq
  split at hlibpq
  · exact ⟨s, he, no_stale_connection directLoginEnv hs 0 0⟩
  · cases hlibpq

/-- The database restarts, and stays away, between the results of a login and its resume. -/
def restartBeforeResume : List (Input 1) :=
  [.connect true, directLoginRead 0, .coTimer fun _ => {}, resultsReady,
    .dbTimer false (fun _ => true) fun _ => false, .coTimer fun _ => {}]

/-- **A stale connection.** The login reads its results from a connection that was finished. -/
theorem stale_connection :
    ∃ s : Server 1, (directLoginEnv.loop 1).replay oneConnection restartBeforeResume = some s ∧
      (directLoginEnv.loop 1).Reachable s ∧ (s.conns 0).finished = true ∧
      (s.mConnections 0).mConn = none ∧ .libpq 0 0 true ∈ s.trace := by
  obtain ⟨s, hreplay, hs, hq⟩ := Machine.exists_run_of_replay (directLoginEnv.loop 1)
    Machine.anyStep restartBeforeResume
    (fun s => (s.conns 0).finished && (s.mConnections 0).mConn.isNone &&
      s.trace.any fun e => e matches .libpq 0 0 true) (oneConnection_init _)
    (by decide +kernel)
  simp only [Bool.and_eq_true, Option.isNone_iff_eq_none] at hq
  obtain ⟨e, he, hlibpq⟩ := List.any_eq_true.1 hq.2
  split at hlibpq
  · exact ⟨s, hreplay, hs, hq.1.1, hq.1.2, he⟩
  · cases hlibpq

end Server

end ServerBase
