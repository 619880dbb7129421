import ServerBase.Auth.Waiting

/-!
# Idle contexts

A context that nobody uses should be at rest: no command in progress on its connection, and its
poll handle stopped.

**Commands** (`idle_connection`). A command in progress is claimed by the coroutine that waits for
it. Only a login that meets a fatal error leaves its results unread (`busy_connection`).

**Handles** (`started_handle_in_use`). A started handle belongs to a coroutine that waits for it.
Only the update of `last_login` starts a handle that nobody waits for (`idle_handle_started`).
-/

namespace ServerBase

namespace Server

variable {n : Nat}

/-- The context and the connection from which `co` reads results when it is resumed. -/
def resultsFrom (s : Server n) (co : CoroId) : Option (Fin n × ConnId) :=
  match (s.coros co).point with
  | .waitPoll k c =>
      if (s.mConnections k).mDataReady && !(s.mConnections k).mTerminate then some (k, c)
      else none
  | _ => none

theorem mem_resultsFrom {s : Server n} {co : CoroId} {k : Fin n} {c : ConnId}
    (hpoint : (s.coros co).point = .waitPoll k c)
    (hdone : (s.mConnections k).donePollingData = true)
    (hterm : (s.mConnections k).mTerminate = false) : (k, c) ∈ s.resultsFrom co := by
  rw [DBConnectionCtx.donePollingData, hterm, Bool.or_false] at hdone
  simp [resultsFrom, hpoint, hdone, hterm]

/-! ## Commands in progress -/

/-- A command that is in progress after the end of a coroutine was so before, and if the coroutine
could have read its results, it did not for a reason. -/
theorem Ends.busy_before {s s' : Server n} {co : CoroId} {k : Fin n} {c d : ConnId}
    {x : DBConnectionCtx n} {b : Bool} {why : Prop} (hends : Ends s co k c x b [] s')
    (hb : b = false ∨ b = (s.conns c).busy ∧ why) (hbusy : (s'.conns d).busy = true) :
    (s.conns d).busy = true ∧ (d = c → why) := by
  obtain ⟨es, rfl, -⟩ := hends
  by_cases hdc : d = c
  · subst hdc
    have hb' : b = true := by simpa [mid, setCtx, setBusy, setPoint, finish, log] using hbusy
    rcases hb with hb | ⟨hb, hwhy⟩
    · rw [hb] at hb'
      cases hb'
    · exact ⟨hb ▸ hb', fun _ => hwhy⟩
  · refine ⟨?_, fun hne => absurd hne hdc⟩
    have hsame : Function.update s.conns c { s.conns c with busy := b } d = s.conns d :=
      Function.update_of_ne hdc _ _
    exact hsame ▸ hbusy

/-- A command in progress on the connection of a context is waited for, or polling on it was
terminated. -/
def Claimed (s : Server n) : Prop :=
  ∀ k c, (s.mConnections k).mConn = some c → (s.conns c).busy = true →
    (s.mConnections k).mTerminate = true ∨ ∃ co, (s.coros co).point = .waitPoll k c

/-- No login reads a fatal error from the connection its context has. -/
abbrev readsNoFatalError : Conds n where
  onResume s co r := ∀ kc ∈ s.resultsFrom co, (s.mConnections kc.1).mConn = some kc.2 →
    ¬ s.MeetsFatalError co r

namespace Claimed

theorem of_same {s s' : Server n} (h : Claimed s) (hconns : s'.conns = s.conns)
    (hconn : ∀ k, (s'.mConnections k).mConn = (s.mConnections k).mConn)
    (hterm : ∀ k, (s.mConnections k).mTerminate = true → (s'.mConnections k).mTerminate = true)
    (hwait : ∀ co k c, (s.coros co).point = .waitPoll k c →
      (s'.coros co).point = .waitPoll k c) : Claimed s' := by
  intro k c hc hbusy
  rw [hconn] at hc
  rw [hconns] at hbusy
  rcases h k c hc hbusy with hk | ⟨co, hw⟩
  · exact .inl (hterm k hk)
  · exact .inr ⟨co, hwait co k c hw⟩

theorem of_frame {s s' : Server n} (h : Claimed s) (hp : SamePool s s') (hc : s'.coros = s.coros) :
    Claimed s' :=
  h.of_same hp.conns (fun k => by rw [hp.mConnections]) (fun k => by rw [hp.mConnections]; exact id)
    fun co k c => by rw [hc]; exact id

theorem polled {s s' : Server n} {k : Fin n} {status : Int} {consumed : Bool} (h : Claimed s)
    (hp : Polled s k status consumed s') : Claimed s' := by
  obtain ⟨x, hctx, hx⟩ := hp.ctx
  refine h.of_same hp.frame.2.1 ?_ ?_ ?_
  · intro j
    exact (hp.handles j).mConn
  · intro j hj
    rw [hctx]
    by_cases hjk : j = k
    · subst hjk
      rw [Function.update_self]
      rcases hx with rfl | rfl | rfl
      · exact hj
      · exact hj
      · rfl
    · rwa [Function.update_of_ne hjk]
  · intro co j c hw
    rw [hp.frame.1.coros]
    exact hw

theorem reconnect {s : Server n} (h : Claimed s) (hs : PoolWf s) (k : Fin n) (connected : Bool) :
    Claimed (s.reconnect k connected) := by
  intro j c hc hbusy
  rw [reconnect_mConnections] at hc ⊢
  rw [(reconnect_frame s k connected).1.coros]
  by_cases hj : j = k
  · subst hj
    rw [Function.update_self] at hc
    cases connected with
    | true =>
        -- the new connection is idle
        obtain rfl : s.nextConn = c := Option.some.inj hc
        rw [reconnect_conns_new] at hbusy
        cases hbusy
    | false => cases hc
  · rw [Function.update_of_ne hj] at hc ⊢
    rw [(reconnect_conns_old s k connected (hs.connLt j c hc).ne).1] at hbusy
    exact h j c hc hbusy

/-- A resume that ends a wait. -/
theorem finished {s s' : Server n} {co : CoroId} {r : Readings n} {k : Fin n} {c : ConnId}
    {x : DBConnectionCtx n} {b : Bool} (hs : Sound s) (h : Claimed s)
    (hC : Conds.onResume readsNoFatalError s co r) (hpoint : (s.coros co).point = .waitPoll k c)
    (hdone : (s.mConnections k).donePollingData = true) (hends : Ends s co k c x b [] s')
    (hx : x.mConn = (s.mConnections k).mConn ∧ x.mTerminate = (s.mConnections k).mTerminate)
    (hb : b = false ∨ b = (s.conns c).busy ∧
      ((s.mConnections k).mTerminate = true ∨ s.MeetsFatalError co r)) : Claimed s' := by
  have hbusyBefore := fun {d} => hends.busy_before (d := d) hb
  obtain ⟨es, rfl, -⟩ := hends
  intro j d hd hbusy
  have hctx : ∀ {i}, i ≠ k → Function.update s.mConnections k x.released i = s.mConnections i :=
    fun hi => Function.update_of_ne hi _ _
  have hbefore := hbusyBefore hbusy
  by_cases hj : j = k
  · subst hj
    have hdj : (s.mConnections j).mConn = some d := by
      rw [← hx.1]
      simpa [mid, setCtx, setBusy, setPoint, finish, log, DBConnectionCtx.released] using hd
    by_cases hterm : (s.mConnections j).mTerminate = true
    · left
      show (Function.update s.mConnections j x.released j).mTerminate = true
      rw [Function.update_self]
      exact hx.2.trans hterm
    · exfalso
      rw [Bool.not_eq_true] at hterm
      rcases h j d hdj hbefore.1 with hj | ⟨co', hw⟩
      · rw [hterm] at hj
        cases hj
      · obtain rfl : co' = co := hs.2.leased.unique co' co j d c hw hpoint
        rw [hpoint] at hw
        obtain rfl : c = d := (Point.waitPoll.inj hw).2
        rcases hbefore.2 rfl with hj | hfatal
        · rw [hterm] at hj
          cases hj
        · exact hC _ (mem_resultsFrom hpoint hdone hterm) hdj hfatal
  · have hd' : (s.mConnections j).mConn = some d := hctx hj ▸ hd
    rcases h j d hd' hbefore.1 with hterm | ⟨co', hw⟩
    · left
      show (Function.update s.mConnections k x.released j).mTerminate = true
      rw [hctx hj]
      exact hterm
    · have hne : co' ≠ co := by
        rintro rfl
        rw [hpoint] at hw
        exact hj (Point.waitPoll.inj hw).1.symm
      exact .inr ⟨co', by rw [coros_other (s := s) (p := .dead) rfl hne, hw]⟩

theorem resumed {s s' : Server n} {co : CoroId} {r : Readings n} (hs : Sound s) (h : Claimed s)
    (hC : Conds.onResume readsNoFatalError s co r) (hr : Resumed s co r s') : Claimed s' := by
  -- a coroutine that waits for no results leaves those alone that do
  have hwait : ∀ {t : Server n} {p : Point n}, (s.coros co).point.holds = none →
      t.coros = Function.update s.coros co { s.coros co with point := p } →
      ∀ co' k c, (s.coros co').point = .waitPoll k c → (t.coros co').point = .waitPoll k c := by
    intro t p hnone hc co' k c hw
    have hne : co' ≠ co := by
      rintro rfl
      rw [hw] at hnone
      cases hnone
    rw [coros_other hc hne, hw]
  have hhandles := hr.handles.2
  cases hr with
  | idle => exact h
  | gone es hpoint =>
      exact h.of_same rfl (fun k => rfl) (fun k => id) (hwait (by rw [hpoint]; rfl) rfl)
  | refused es hnone => exact h.of_same rfl (fun k => rfl) (fun k => id) (hwait hnone rfl)
  | waits t es hnone => exact h.of_same rfl (fun k => rfl) (fun k => id) (hwait hnone rfl)
  | sendFailed k c es hnone hdead hconn huse hterm =>
      refine h.of_same ?_ ?_ ?_ (hwait hnone rfl)
      · exact Function.update_eq_self c s.conns
      · intro j
        exact (hhandles j).mConn
      · intro j hj
        have hjk : j ≠ k := by
          rintro rfl
          rw [hterm] at hj
          cases hj
        exact (congrArg DBConnectionCtx.mTerminate (Function.update_of_ne hjk _ _)).trans hj
  | suspended k c es hnone hdead hconn huse hterm hphase hbusy =>
      intro j d hd hbusy'
      by_cases hj : j = k
      · subst hj
        have hd' : (s.mConnections j).mConn = some d := by
          simpa [mid, setCtx, setBusy, setPoint, log, DBConnectionCtx.pollStart,
            DBConnectionCtx.acquired, DBConnectionCtx.resetFlags] using hd
        obtain rfl : c = d := Option.some.inj (hconn.symm.trans hd')
        exact .inr ⟨co, by rw [coros_self (s := s) (p := .waitPoll j c) rfl]⟩
      · have hctx : Function.update s.mConnections k
            (((s.mConnections k).acquired (s.coros co).mStream).pollStart k) j =
              s.mConnections j := Function.update_of_ne hj _ _
        have hd' : (s.mConnections j).mConn = some d := hctx ▸ hd
        have hdc : d ≠ c := by
          rintro rfl
          exact hj (hs.1.connInj j k d hd' hconn)
        have hsame : Function.update s.conns c { s.conns c with busy := true } d = s.conns d :=
          Function.update_of_ne hdc _ _
        rcases h j d hd' (hsame ▸ hbusy') with hterm' | ⟨co', hw⟩
        · left
          show (Function.update s.mConnections k _ j).mTerminate = true
          rw [hctx]
          exact hterm'
        · exact .inr ⟨co', hwait hnone rfl co' j d hw⟩
  | finished k c x b _ hpoint hdone hends hx hb =>
      refine finished hs h hC hpoint hdone hends ?_ hb
      rcases hx with rfl | ⟨rfl, -⟩ <;> exact ⟨rfl, rfl⟩
  | updated k c b _ hpoint => exact absurd hpoint (hs.2.tracked.noUpdate co k c)

theorem kept (env : AuthEnv) : Kept env (readsNoFatalError (n := n)) Sound Claimed where
  connect s accepted _ h :=
    h.of_frame (connect_frame s accepted).1 (connect_frame s accepted).2.coros
  read s st nread buf writable hs h _ _ := by
    have hread := httpRead_cases env s st nread buf writable
    generalize s.httpRead env st nread buf writable = s' at hread ⊢
    cases hread with
    | plain _ hplain => exact h.of_frame hplain.pool hplain.coros.coros
    | create data es hes =>
        refine h.of_same rfl (fun k => rfl) (fun k => id) ?_
        intro co k c hw
        have hco : co ≠ s.nextCoro := by
          rintro rfl
          rw [hs.2.tracked.next_dead] at hw
          cases hw
        rw [coros_created_other hco, hw]
  poll s k status consumed busy hs h hk _ :=
    h.polled (pollCallback_cases status consumed busy hk (hs.1.pollData k))
  reconnect s k connected hs h _ := h.reconnect hs.1 k connected
  resume s co r hs h _ hC := h.resumed hs hC (resume_cases s co r)
  cleanup s _ h := by
    have hclose := closeDead_closes s.mUntrackedCoroutines s
    exact (h.of_frame hclose.pool hclose.coros.coros).of_frame ⟨rfl, rfl, rfl, rfl⟩ rfl
  closeCb s st _ h _ := h.of_frame ⟨rfl, rfl, rfl, rfl⟩ rfl

end Claimed

theorem InitFrom.claimed {s : Server n} (h : InitFrom n s) : Claimed s := by
  intro k c _ hbusy
  rw [h.busy] at hbusy
  cases hbusy

instance (s : Server n) (co : CoroId) (r : Readings n) : Decidable (s.MeetsFatalError co r) :=
  inferInstanceAs (Decidable (_ ∧ _))

/-- **Only idle connections go back to the pool.** In the runs in which no login reads a fatal error
from the connection of its context, no context that `AcquireDBConn` could return has a command in
progress. -/
theorem idle_connection (env : AuthEnv) {s : Server n}
    (hs : (env.loop n).Run (Conds.holds readsNoFatalError) s) (status : Fin n → Bool) (k : Fin n)
    (hk : s.acquirable status k = true) :
    ∃ c, (s.mConnections k).mConn = some c ∧ (s.conns c).busy = false := by
  obtain ⟨hsound, hclaimed⟩ := ((sound_kept env readsNoFatalError).and (Claimed.kept env)).run
    (fun _ hinit => ⟨sound_loop hinit, (initFrom_loop hinit).claimed⟩) hs
  simp only [acquirable, Bool.and_eq_true, Bool.not_eq_true'] at hk
  obtain ⟨⟨⟨⟨hsome, -⟩, huse⟩, hterm⟩, -⟩ := hk
  obtain ⟨c, hc⟩ := Option.isSome_iff_exists.1 hsome
  refine ⟨c, hc, ?_⟩
  by_contra hbusy
  rcases hclaimed k c hc (by simpa using hbusy) with h | ⟨co, hw⟩
  · rw [hterm] at h
    cases h
  · rw [(hsound.2.leased.waitPoll co k c hw).1] at huse
    cases huse

/-- A login that finds no row. -/
theorem idle_connection_login :
    ∃ s : Server 1, s.acquirable (fun _ => true) 0 = true ∧
      ∃ c, (s.mConnections 0).mConn = some c ∧ (s.conns c).busy = false := by
  obtain ⟨s, -, hs, hq⟩ := Machine.exists_run_of_replay (directLoginEnv.loop 1)
    (Conds.holds readsNoFatalError)
    [.connect true, directLoginRead 0, .coTimer fun _ => {}, resultsReady,
      .coTimer fun _ => { results := [.tuplesOk []] }]
    (fun s => s.acquirable (fun _ => true) 0) (oneConnection_init _) (by decide +kernel)
  exact ⟨s, hq, idle_connection directLoginEnv hs _ 0 hq⟩

/-- The query of a login fails in the database. -/
def loginMeetsFatalError : List (Input 1) :=
  [.connect true, directLoginRead 0, .coTimer fun _ => {}, resultsReady,
    .coTimer fun _ => { results := [.fatalError] }]

/-- **A busy connection in the pool.** The login gives its context back before its results are read
to the end. -/
theorem busy_connection :
    ∃ s : Server 1, (directLoginEnv.loop 1).replay oneConnection loginMeetsFatalError = some s ∧
      (directLoginEnv.loop 1).Reachable s ∧ s.acquirable (fun _ => true) 0 = true ∧
      (s.mConnections 0).mConn = some 0 ∧ (s.conns 0).busy = true := by
  obtain ⟨s, hreplay, hs, hq⟩ := Machine.exists_run_of_replay (directLoginEnv.loop 1)
    Machine.anyStep loginMeetsFatalError
    (fun s => decide (s.acquirable (fun _ => true) 0 = true ∧
      (s.mConnections 0).mConn = some 0 ∧ (s.conns 0).busy = true)) (oneConnection_init _)
    (by decide +kernel)
  exact ⟨s, hreplay, hs, of_decide_eq_true hq⟩

/-! ## Started handles -/

/-- A started handle is waited for. -/
def Attended (s : Server n) : Prop :=
  ∀ k, s.polling k = true →
    (s.mConnections k).mInUse = true ∧ (s.mConnections k).donePollingData = false

/-- No login sends its update on a context that has a poll handle. -/
abbrev sendsNoUpdate : Conds n where
  onResume s co r := ∀ kc ∈ s.resultsFrom co, (s.mConnections kc.1).mPollData.isSome = true →
    ¬ s.SendsUpdate co r

namespace Attended

theorem of_same {s s' : Server n} (h : Attended s) (hctx : s'.mConnections = s.mConnections) :
    Attended s' := by
  intro k hk
  rw [polling, hctx] at hk
  rw [hctx]
  exact h k hk

/-- One context changes, to one whose handle is not started or is waited for. -/
theorem of_update {s s' : Server n} {k : Fin n} {x : DBConnectionCtx n} (h : Attended s)
    (hctx : s'.mConnections = Function.update s.mConnections k x)
    (hx : x.mPollData.any UvPoll.started = true → x.mInUse = true ∧ x.donePollingData = false) :
    Attended s' := by
  intro j hj
  rw [polling, hctx] at hj
  rw [hctx]
  by_cases hjk : j = k
  · subst hjk
    rw [Function.update_self] at hj ⊢
    exact hx hj
  · rw [Function.update_of_ne hjk] at hj ⊢
    exact h j hj

theorem polled {s s' : Server n} {k : Fin n} {status : Int} {consumed : Bool} (h : Attended s)
    (hp : Polled s k status consumed s') : Attended s' := by
  obtain ⟨x, hctx, hx⟩ := hp.ctx
  apply h.of_update hctx
  intro hstarted
  rcases hx with rfl | rfl | rfl
  · exact h k hstarted
  · exact absurd hstarted (not_started_of_pollStop (x := s.mConnections k) rfl)
  · exact absurd hstarted (not_started_of_pollStop (x := s.mConnections k) rfl)

theorem reconnect {s : Server n} (h : Attended s) (k : Fin n) (connected : Bool) :
    Attended (s.reconnect k connected) := by
  apply h.of_update (reconnect_mConnections s k connected)
  intro hstarted
  cases connected <;> cases hstarted

/-- A free context has no started handle. -/
theorem free {s : Server n} (h : Attended s) {k : Fin n} (hk : (s.mConnections k).mInUse = false) :
    ¬ s.polling k = true := by
  intro hstarted
  rw [(h k hstarted).1] at hk
  cases hk

theorem resumed {s s' : Server n} {co : CoroId} {r : Readings n} (hs : Sound s) (h : Attended s)
    (hC : Conds.onResume sendsNoUpdate s co r) (hr : Resumed s co r s') : Attended s' := by
  cases hr with
  | idle => exact h
  | gone => exact h.of_same rfl
  | refused => exact h.of_same rfl
  | waits => exact h.of_same rfl
  | sendFailed k c es hnone hdead hconn huse =>
      apply h.of_update rfl
      intro hstarted
      exact absurd hstarted (h.free huse)
  | suspended k c es hnone hdead hconn huse =>
      exact h.of_update rfl fun _ => ⟨rfl, rfl⟩
  | finished k c x b _ hpoint hdone hends hx hb =>
      obtain ⟨es, rfl, -⟩ := hends
      apply h.of_update rfl
      intro hstarted
      exfalso
      have hstopped : ¬ s.polling k = true := by
        intro hk
        rw [(h k hk).2] at hdone
        cases hdone
      rcases hx with rfl | ⟨rfl, hterm, hupdate⟩
      · exact hstopped hstarted
      · refine hC _ (mem_resultsFrom hpoint hdone hterm) ?_ hupdate
        by_contra hnone
        rw [Bool.not_eq_true, Option.isSome_eq_false_iff, Option.isNone_iff_eq_none] at hnone
        rw [pollStart_of_none hnone] at hstarted
        exact hstopped hstarted
  | updated k c b _ hpoint => exact absurd hpoint (hs.2.tracked.noUpdate co k c)

theorem kept (env : AuthEnv) : Kept env (sendsNoUpdate (n := n)) Sound Attended where
  connect s accepted _ h := h.of_same (connect_frame s accepted).1.mConnections
  read s st nread buf writable _ h _ _ := by
    have hread := httpRead_cases env s st nread buf writable
    generalize s.httpRead env st nread buf writable = s' at hread ⊢
    cases hread with
    | plain _ hplain => exact h.of_same hplain.pool.mConnections
    | create data es hes => exact h.of_same rfl
  poll s k status consumed busy hs h hk _ :=
    h.polled (pollCallback_cases status consumed busy hk (hs.1.pollData k))
  reconnect s k connected _ h _ := h.reconnect k connected
  resume s co r hs h _ hC := h.resumed hs hC (resume_cases s co r)
  cleanup s _ h := h.of_same (closeDead_closes s.mUntrackedCoroutines s).pool.mConnections
  closeCb s st _ h _ := h.of_same rfl

end Attended

theorem InitFrom.attended {s : Server n} (h : InitFrom n s) : Attended s := by
  intro k hk
  obtain ⟨c, hc⟩ := h.done k k.isLt
  rw [polling, hc.ctx] at hk
  cases hk

/-- A context in use names a client. -/
theorem Leased.stream_ne_none {s : Server n} (h : Leased s) {k : Fin n}
    (hk : (s.mConnections k).mInUse = true) : (s.mConnections k).mStream ≠ none := by
  obtain ⟨co, c, hw⟩ := h.holder k hk
  rw [(h.waitPoll co k c hw).2]
  simp

theorem noNullStream_rules :
    TraceRules (sendsNoUpdate (n := n)) (fun s => Sound s ∧ Attended s)
      (· ≠ .fault .nullStream) where
  stream s st e he := by cases he <;> simp
  pool e he := by cases he <;> simp
  polled k := by simp
  nullString := by simp
  pathOverflow := by simp
  nullStream s k hq hk hnull := absurd hnull (hq.1.2.leased.stream_ne_none (hq.2 k hk).1)
  resume s co r s' _ _ hr := by
    apply hr.adds.mono
    intro e he
    rcases he with he | ⟨k, c, -, he⟩ <;> cases he <;> simp

instance (s : Server n) (co : CoroId) (r : Readings n) : Decidable (s.SendsUpdate co r) :=
  decidable_of_iff ((s.coros co).data.isLogin = true ∧
    (loginResults UINT_MAX r.results).any (fun userId => decide (userId < UINT_MAX)) = true ∧
    s.uvIsWritable (s.coros co).mStream r.writable = true ∧ r.updateSent = true)
    (by simp [SendsUpdate, Option.any_eq_true])

/-- **A started poll handle belongs to a request.** In the runs in which no login sends its update
of `last_login`, every started handle is that of a context in use with a client, and the poll
callback never closes a null stream. -/
theorem started_handle_in_use (env : AuthEnv) {s : Server n}
    (hs : (env.loop n).Run (Conds.holds sendsNoUpdate) s) :
    (∀ k p, (s.mConnections k).mPollData = some p → p.started = true →
      (s.mConnections k).mInUse = true ∧ (s.mConnections k).mStream ≠ none) ∧
      .fault .nullStream ∉ s.trace := by
  have hkept := ((sound_kept env sendsNoUpdate).and (Attended.kept env)).and
    ((noNullStream_rules (n := n)).kept (fun _ h => h.1) env)
  obtain ⟨⟨hsound, hattended⟩, htrace⟩ := hkept.run (fun _ hinit => ⟨⟨sound_loop hinit,
    (initFrom_loop hinit).attended⟩, noNullStream_rules.init (initFrom_loop hinit)⟩) hs
  refine ⟨?_, fun hmem => htrace _ hmem rfl⟩
  intro k p hp hstarted
  have huse := (hattended k (by rw [polling, hp]; exact hstarted)).1
  exact ⟨huse, hsound.2.leased.stream_ne_none huse⟩

/-- A login whose query was sent. -/
theorem started_handle_in_use_login :
    ∃ s : Server 1, ∃ p, (s.mConnections 0).mPollData = some p ∧ p.started = true ∧
      (s.mConnections 0).mInUse = true ∧ (s.mConnections 0).mStream ≠ none := by
  obtain ⟨s, -, hs, hq⟩ := Machine.exists_run_of_replay (directLoginEnv.loop 1)
    (Conds.holds sendsNoUpdate)
    [.connect true, directLoginRead 0, .coTimer fun _ => {}]
    (fun s => (s.mConnections 0).mPollData.any UvPoll.started) (oneConnection_init _)
    (by decide +kernel)
  obtain ⟨p, hp, hstarted⟩ := (Option.any_eq_true _ _).1 hq
  exact ⟨s, p, hp, hstarted, (started_handle_in_use directLoginEnv hs).1 0 p hp hstarted⟩

/-- A login succeeds, and then the database drops the idle connection. -/
def dropAfterLogin : List (Input 1) :=
  [.connect true, directLoginRead 0, .coTimer fun _ => {}, resultsReady,
    .coTimer fun _ => { results := [.tuplesOk [7]] }, connectionLost]

/-- **A started handle without a request.** The update starts the handle although its wait is over
at once; the callback then closes the null stream of the idle context. -/
theorem idle_handle_started :
    (∃ s : Server 1,
      (directLoginEnv.loop 1).replay oneConnection (dropAfterLogin.take 5) = some s ∧
        (directLoginEnv.loop 1).Reachable s ∧ s.polling 0 = true ∧
        (s.mConnections 0).mInUse = false ∧ (s.mConnections 0).mStream = none) ∧
      ∃ s : Server 1, (directLoginEnv.loop 1).replay oneConnection dropAfterLogin = some s ∧
        (directLoginEnv.loop 1).Reachable s ∧ .fault .nullStream ∈ s.trace := by
  constructor
  · obtain ⟨s, hreplay, hs, hq⟩ := Machine.exists_run_of_replay (directLoginEnv.loop 1)
      Machine.anyStep (dropAfterLogin.take 5)
      (fun s => decide (s.polling 0 = true ∧ (s.mConnections 0).mInUse = false ∧
        (s.mConnections 0).mStream = none)) (oneConnection_init _) (by decide +kernel)
    exact ⟨s, hreplay, hs, of_decide_eq_true hq⟩
  · obtain ⟨s, hreplay, hs, hq⟩ := Machine.exists_run_of_replay (directLoginEnv.loop 1)
      Machine.anyStep dropAfterLogin
      (fun s => s.trace.any fun e => e matches .fault .nullStream) (oneConnection_init _)
      (by decide +kernel)
    obtain ⟨e, he, hfault⟩ := List.any_eq_true.1 hq
    split at hfault
    · exact ⟨s, hreplay, hs, he⟩
    · cases hfault

end Server

end ServerBase
