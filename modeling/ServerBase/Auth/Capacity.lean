import ServerBase.Auth.Ownership

/-!
# The capacity of the pool

`mTerminate` is set when polling fails and is cleared when a context is taken or reconnected. A
context that is given back with the flag set can not be taken, and nobody looks at the flag to
reconnect it.

**The invariant** (`Usable`). A free context with a connection is not terminated.

**The result** (`capacity_kept`) holds in the runs in which no coroutine goes on after failed
polling while its context has a connection, and polling fails on no free context; `lost_context` is
the other case.
-/

namespace ServerBase

namespace Server

variable {n : Nat}

def Usable (s : Server n) : Prop :=
  ∀ k, (s.mConnections k).mInUse = false → (s.mConnections k).mConn.isSome = true →
    (s.mConnections k).mTerminate = false

/-- No coroutine goes on with a terminated context that has a connection, and polling fails on no
free context. -/
abbrev keepsCapacity : Conds n where
  onPoll s k status consumed :=
    pollFails status consumed = true → (s.mConnections k).mInUse = true
  onResume s co _ := ∀ k ∈ (s.coros co).point.holds,
    (s.mConnections k).mTerminate = true → (s.mConnections k).mConn = none

namespace Usable

variable {s s' : Server n}

theorem of_same (h : Usable s) (hctx : s'.mConnections = s.mConnections) : Usable s' := by
  intro k hk hconn
  rw [hctx] at hk hconn ⊢
  exact h k hk hconn

/-- One context changes, to one that is usable if it is free. -/
theorem of_update {k : Fin n} {x : DBConnectionCtx n} (h : Usable s)
    (hctx : s'.mConnections = Function.update s.mConnections k x)
    (hx : x.mInUse = false → x.mConn.isSome = true → x.mTerminate = false) : Usable s' := by
  intro j hj hconn
  rw [hctx] at hj hconn ⊢
  by_cases hjk : j = k
  · subst hjk
    rw [Function.update_self] at hj hconn ⊢
    exact hx hj hconn
  · rw [Function.update_of_ne hjk] at hj hconn ⊢
    exact h j hj hconn

theorem resumed {co : CoroId} {r : Readings n} (hs : Sound s) (h : Usable s)
    (hC : Conds.onResume keepsCapacity s co r) (hr : Resumed s co r s') : Usable s' := by
  cases hr with
  | idle => exact h
  | gone => exact h.of_same rfl
  | refused => exact h.of_same rfl
  | waits => exact h.of_same rfl
  | sendFailed k c => exact h.of_update rfl fun _ _ => rfl
  | suspended k c =>
      apply h.of_update rfl
      intro huse
      cases huse
  | finished k c x b _ hpoint hdone hends hx =>
      obtain ⟨es, rfl, -⟩ := hends
      apply h.of_update rfl
      intro _ hconn
      have hsame : x.mConn = (s.mConnections k).mConn ∧
          x.mTerminate = (s.mConnections k).mTerminate := by
        rcases hx with rfl | ⟨rfl, -⟩ <;> exact ⟨rfl, rfl⟩
      cases hterm : x.mTerminate with
      | false => exact hterm
      | true =>
          have hnone := hC k (by rw [hpoint]; rfl) (hsame.2.symm.trans hterm)
          rw [show x.released.mConn = none from hsame.1.trans hnone] at hconn
          cases hconn
  | updated k c b _ hpoint => exact absurd hpoint (hs.2.tracked.noUpdate co k c)

theorem polled {k : Fin n} {status : Int} {consumed : Bool} (h : Usable s)
    (hC : Conds.onPoll keepsCapacity s k status consumed) (hp : Polled s k status consumed s') :
    Usable s' := by
  cases hp with
  | idle => exact h
  | ready => exact h.of_update rfl fun huse hconn => h k huse hconn
  | failed _ hfails hcase =>
      -- the context is in use, and stays so
      have huse := hC hfails
      have hctx : s'.mConnections = Function.update s.mConnections k
          { (s.mConnections k).pollStop with mTerminate := true } := by
        rcases hcase with ⟨rfl, -⟩ | ⟨st, -, rfl⟩
        · rfl
        · exact (safeUvClose_samePool _ st).mConnections
      apply h.of_update hctx
      intro hfree
      rw [show (s.mConnections k).mInUse = false from hfree] at huse
      cases huse

theorem reconnect (h : Usable s) (k : Fin n) (connected : Bool) :
    Usable (s.reconnect k connected) := by
  apply h.of_update (reconnect_mConnections s k connected)
  intro _ hconn
  cases connected with
  | true => rfl
  | false => cases hconn

theorem kept (env : AuthEnv) : Kept env (keepsCapacity (n := n)) Sound Usable where
  connect s accepted _ h := h.of_same (connect_frame s accepted).1.mConnections
  read s st nread buf writable _ h _ _ := by
    have hread := httpRead_cases env s st nread buf writable
    generalize s.httpRead env st nread buf writable = s' at hread ⊢
    cases hread with
    | plain _ hplain => exact h.of_same hplain.pool.mConnections
    | create data es hes => exact h.of_same rfl
  poll s k status consumed busy hs h hk hC :=
    h.polled hC (pollCallback_cases status consumed busy hk (hs.1.pollData k))
  reconnect s k connected _ h _ := h.reconnect k connected
  resume s co r hs h _ hC := h.resumed hs hC (resume_cases s co r)
  cleanup s _ h := h.of_same (closeDead_closes s.mUntrackedCoroutines s).pool.mConnections
  closeCb s st _ h _ := h.of_same rfl

end Usable

theorem InitFrom.usable {s : Server n} (h : InitFrom n s) : Usable s := by
  intro k _ _
  obtain ⟨c, hc⟩ := h.done k k.isLt
  rw [hc.ctx]

/-- **Pool capacity is not lost.** In the runs that spare terminated contexts, every context that no
coroutine holds, that is not waiting for a reconnect and whose connection is fine can be
returned by `AcquireDBConn`. -/
theorem capacity_kept (env : AuthEnv) {s : Server n}
    (hs : (env.loop n).Run (Conds.holds keepsCapacity) s) (status : Fin n → Bool) (k : Fin n)
    (hfree : ∀ co, s.Unfinished co → ¬ s.Holds co k)
    (hphase : (s.mConnections k).mReconnectPhase = false) (hstatus : status k = true) :
    s.acquirable status k = true := by
  obtain ⟨⟨hwf, howner⟩, husable⟩ := ((sound_kept env keepsCapacity).and (Usable.kept env)).run
    (fun _ hinit => ⟨sound_loop hinit, (initFrom_loop hinit).usable⟩) hs
  have huse : (s.mConnections k).mInUse = false := by
    by_contra huse
    obtain ⟨co, hco, hholds⟩ := (howner.inUse_iff k).1 (by simpa using huse)
    exact hfree co hco hholds
  have hconn : (s.mConnections k).mConn.isSome = true := by
    rw [hwf.phase k, Option.isNone_eq_false_iff] at hphase
    exact hphase
  simp [acquirable, hconn, hstatus, huse, husable k huse hconn, hphase]

/-- A login that finds no row gives its context back. -/
theorem capacity_kept_login :
    ∃ s : Server 1, .released 0 0 ∈ s.trace ∧ s.acquirable (fun _ => true) 0 = true := by
  obtain ⟨s, -, hs, hq⟩ := Machine.exists_run_of_replay (directLoginEnv.loop 1)
    (Conds.holds keepsCapacity)
    [.connect true, directLoginRead 0, .coTimer fun _ => {}, resultsReady,
      .coTimer fun _ => { results := [.tuplesOk []] }]
    (fun s => (s.trace.any fun e => e matches .released 0 0) &&
      !(s.mConnections 0).mInUse && !(s.mConnections 0).mReconnectPhase) (oneConnection_init _)
    (by decide +kernel)
  simp only [Bool.and_eq_true, Bool.not_eq_true'] at hq
  obtain ⟨⟨hreleased, huse⟩, hphase⟩ := hq
  obtain ⟨e, he, hmatch⟩ := List.any_eq_true.1 hreleased
  split at hmatch
  · have hsound := (sound_kept directLoginEnv (keepsCapacity (n := 1))).run
      (fun _ => sound_loop) hs
    refine ⟨s, he, capacity_kept directLoginEnv hs _ 0 ?_ hphase rfl⟩
    intro co hco hholds
    rw [(hsound.2.inUse_iff 0).2 ⟨co, hco, hholds⟩] at huse
    cases huse
  · cases hmatch

/-- Polling fails while a login waits, although the connection is still fine, and the database
answers the next ping. -/
def pollingFails : List (Input 1) :=
  [.connect true, directLoginRead 0, .coTimer fun _ => {}, connectionLost, .coTimer fun _ => {},
    .dbTimer true (fun _ => true) fun _ => true]

/-- **A context is lost.** The login gives it back terminated; no request can take it, and the check
of the connections finds nothing to do. -/
theorem lost_context :
    ∃ s : Server 1, (directLoginEnv.loop 1).replay oneConnection pollingFails = some s ∧
      (directLoginEnv.loop 1).Reachable s ∧ (∀ co, s.Unfinished co → ¬ s.Holds co 0) ∧
      (s.mConnections 0).mConn = some 0 ∧ (s.conns 0).finished = false ∧
      (s.mConnections 0).mReconnectPhase = false ∧ s.restarts true (fun _ => true) = false ∧
      s.acquirable (fun _ => true) 0 = false := by
  obtain ⟨s, hreplay, hs, hq⟩ := Machine.exists_run_of_replay (directLoginEnv.loop 1)
    Machine.anyStep pollingFails
    (fun s => decide ((s.mConnections 0).mInUse = false ∧ (s.mConnections 0).mConn = some 0 ∧
      (s.conns 0).finished = false ∧ (s.mConnections 0).mReconnectPhase = false ∧
      s.restarts true (fun _ => true) = false ∧ s.acquirable (fun _ => true) 0 = false))
    (oneConnection_init _) (by decide +kernel)
  obtain ⟨huse, hrest⟩ := of_decide_eq_true hq
  obtain ⟨-, howner⟩ := (sound_kept directLoginEnv .none).reachable (fun _ => sound_loop) hs
  refine ⟨s, hreplay, hs, ?_, hrest⟩
  intro co hco hholds
  rw [(howner.inUse_iff 0).2 ⟨co, hco, hholds⟩] at huse
  cases huse

end Server

end ServerBase
