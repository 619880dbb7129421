import ServerBase.Auth.Moves

/-!
# The connections of the pool

**Handles follow connections** (`PoolWf`). Between two callbacks a context has a poll handle exactly
when it has a connection, the handle watches the socket of that connection, the connection is not
finished and no other context has it. Every move keeps this, whatever the outcomes.
-/

namespace ServerBase

namespace Server

variable {n : Nat}

structure PoolWf (s : Server n) : Prop where
  connLt : ∀ k c, (s.mConnections k).mConn = some c → c < s.nextConn
  connLive : ∀ k c, (s.mConnections k).mConn = some c → (s.conns c).finished = false
  connInj : ∀ k k' c, (s.mConnections k).mConn = some c → (s.mConnections k').mConn = some c →
    k = k'
  pollSock : ∀ k p, (s.mConnections k).mPollData = some p →
    (s.mConnections k).mConn = some p.sock
  pollData : ∀ k, s.OwnHandle k
  pollSome : ∀ k, (s.mConnections k).mConn.isSome = true →
    (s.mConnections k).mPollData.isSome = true
  phase : ∀ k, (s.mConnections k).mReconnectPhase = (s.mConnections k).mConn.isNone

/-- The connection is the same, and the handle at most started or stopped. -/
structure SameHandle (k : Fin n) (x y : DBConnectionCtx n) : Prop where
  mConn : y.mConn = x.mConn
  mPollData : y.mPollData = x.mPollData ∨ y.mPollData = (x.pollStart k).mPollData ∨
    y.mPollData = x.pollStop.mPollData
  mReconnectPhase : y.mReconnectPhase = x.mReconnectPhase

theorem SameHandle.refl (k : Fin n) (x : DBConnectionCtx n) : SameHandle k x x :=
  ⟨rfl, .inl rfl, rfl⟩

/-- A handle comes from a handle on the same socket, and belongs to `k` if it is started. -/
theorem SameHandle.handle {k : Fin n} {x y : DBConnectionCtx n} (h : SameHandle k x y)
    {p : UvPoll n} (hp : y.mPollData = some p) :
    ∃ q, x.mPollData = some q ∧ q.sock = p.sock ∧
      (p.started = true → p.data = some k ∨ q.started = true ∧ p.data = q.data) := by
  rcases h.mPollData with h | h | h <;> rw [h] at hp
  · exact ⟨p, hp, rfl, fun hs => .inr ⟨hs, rfl⟩⟩
  · obtain ⟨q, hq, rfl⟩ := Option.map_eq_some_iff.1 hp
    exact ⟨q, hq, rfl, fun _ => .inl rfl⟩
  · obtain ⟨q, hq, rfl⟩ := Option.map_eq_some_iff.1 hp
    exact ⟨q, hq, rfl, fun hs => by cases hs⟩

theorem SameHandle.isSome {k : Fin n} {x y : DBConnectionCtx n} (h : SameHandle k x y) :
    y.mPollData.isSome = x.mPollData.isSome := by
  rcases h.mPollData with h | h | h <;> rw [h]
  · exact Option.isSome_map
  · exact Option.isSome_map

/-- Moves that only start and stop handles. -/
theorem PoolWf.of_handles {s s' : Server n} (h : PoolWf s) (hnext : s'.nextConn = s.nextConn)
    (hfin : ∀ c, (s'.conns c).finished = (s.conns c).finished)
    (hctx : ∀ k, SameHandle k (s.mConnections k) (s'.mConnections k)) : PoolWf s' where
  connLt k c hc := by
    rw [(hctx k).mConn] at hc
    rw [hnext]
    exact h.connLt k c hc
  connLive k c hc := by
    rw [(hctx k).mConn] at hc
    rw [hfin]
    exact h.connLive k c hc
  connInj k k' c hc hc' := by
    rw [(hctx k).mConn] at hc
    rw [(hctx k').mConn] at hc'
    exact h.connInj k k' c hc hc'
  pollSock k p hp := by
    obtain ⟨q, hq, hsock, -⟩ := (hctx k).handle hp
    rw [(hctx k).mConn, h.pollSock k q hq, hsock]
  pollData k p hp hs := by
    obtain ⟨q, hq, -, hdata⟩ := (hctx k).handle hp
    rcases hdata hs with hd | ⟨hqs, hd⟩
    · exact hd
    · rw [hd]
      exact h.pollData k q hq hqs
  pollSome k hk := by
    rw [(hctx k).mConn] at hk
    rw [(hctx k).isSome]
    exact h.pollSome k hk
  phase k := by
    rw [(hctx k).mReconnectPhase, (hctx k).mConn]
    exact h.phase k

theorem PoolWf.of_samePool {s s' : Server n} (h : PoolWf s) (hp : SamePool s s') : PoolWf s' := by
  apply h.of_handles hp.nextConn (fun c => by rw [hp.conns])
  intro k
  rw [hp.mConnections]
  exact .refl k _

/-! ## The moves -/

/-- A change of one context. -/
theorem sameHandle_update {s : Server n} {k : Fin n} {x : DBConnectionCtx n}
    (h : SameHandle k (s.mConnections k) x) (j : Fin n) :
    SameHandle j (s.mConnections j) (Function.update s.mConnections k x j) := by
  by_cases hj : j = k
  · subst hj
    rwa [Function.update_self]
  · rw [Function.update_of_ne hj]
    exact .refl j _

/-- What a resume does to the pool. -/
theorem Resumed.handles {s s' : Server n} {co : CoroId} {r : Readings n}
    (h : Resumed s co r s') :
    (∀ c, (s'.conns c).finished = (s.conns c).finished) ∧
      ∀ k, SameHandle k (s.mConnections k) (s'.mConnections k) := by
  have hbusy : ∀ (c : ConnId) (b : Bool) c',
      (Function.update s.conns c { s.conns c with busy := b } c').finished =
        (s.conns c').finished := by
    intro c b c'
    by_cases hc : c' = c
    · subst hc
      rw [Function.update_self]
    · rw [Function.update_of_ne hc]
  have hrefl : (∀ c, (s.conns c).finished = (s.conns c).finished) ∧
      ∀ k, SameHandle k (s.mConnections k) (s.mConnections k) :=
    ⟨fun _ => rfl, fun k => .refl k _⟩
  cases h with
  | idle => exact hrefl
  | gone => exact hrefl
  | refused => exact hrefl
  | waits => exact hrefl
  | sendFailed k c =>
      exact ⟨hbusy c _, sameHandle_update ⟨rfl, .inl rfl, rfl⟩⟩
  | suspended k c =>
      exact ⟨hbusy c _, sameHandle_update ⟨rfl, .inr (.inl rfl), rfl⟩⟩
  | finished k c x b _ hpoint hdone hends hx =>
      obtain ⟨es', rfl, -⟩ := hends
      refine ⟨hbusy c _, sameHandle_update ?_⟩
      rcases hx with rfl | ⟨rfl, -⟩
      · exact ⟨rfl, .inl rfl, rfl⟩
      · exact ⟨rfl, .inr (.inl rfl), rfl⟩
  | updated k c b _ hpoint hends =>
      obtain ⟨es', rfl, -⟩ := hends
      exact ⟨hbusy c _, sameHandle_update ⟨rfl, .inl rfl, rfl⟩⟩

/-- What a poll callback does to the pool. -/
theorem Polled.handles {s s' : Server n} {k : Fin n} {status : Int} {consumed : Bool}
    (h : Polled s k status consumed s') (j : Fin n) :
    SameHandle j (s.mConnections j) (s'.mConnections j) := by
  obtain ⟨x, hctx, hx⟩ := h.ctx
  rw [hctx]
  refine sameHandle_update ?_ j
  rcases hx with rfl | rfl | rfl
  · exact .refl k _
  · exact ⟨rfl, .inr (.inr rfl), rfl⟩
  · exact ⟨rfl, .inr (.inr rfl), rfl⟩

/-- What holds of the context `k` by itself. -/
structure OwnWf (k : Fin n) (x : DBConnectionCtx n) : Prop where
  pollSock : ∀ p, x.mPollData = some p → x.mConn = some p.sock
  pollData : ∀ p, x.mPollData = some p → p.started = true → p.data = some k
  pollSome : x.mConn.isSome = true → x.mPollData.isSome = true
  phase : x.mReconnectPhase = x.mConn.isNone

theorem PoolWf.ownWf {s : Server n} (h : PoolWf s) (k : Fin n) : OwnWf k (s.mConnections k) :=
  ⟨h.pollSock k, h.pollData k, h.pollSome k, h.phase k⟩

/-- Without a connection, and without a handle. -/
theorem ownWf_disconnected (k : Fin n) (x : DBConnectionCtx n) : OwnWf k x.disconnected where
  pollSock p hp := by cases hp
  pollData p hp := by cases hp
  pollSome hsome := by cases hsome
  phase := rfl

/-- A new connection with a handle that was not started yet. -/
theorem ownWf_new (k : Fin n) {x : DBConnectionCtx n} {c : ConnId} (hconn : x.mConn = some c)
    (hpoll : x.mPollData = some { sock := c }) (hphase : x.mReconnectPhase = false) :
    OwnWf k x where
  pollSock p hp := by
    obtain rfl := Option.some.inj (hpoll.symm.trans hp)
    exact hconn
  pollData p hp hs := by
    obtain rfl := Option.some.inj (hpoll.symm.trans hp)
    cases hs
  pollSome _ := by
    rw [hpoll]
    rfl
  phase := by
    rw [hphase, hconn]
    rfl

/-- `ReconnectConnection` changes its own context only. -/
theorem PoolWf.ownWf_reconnect {s : Server n} (h : PoolWf s) (k : Fin n) (connected : Bool)
    (j : Fin n) : OwnWf j ((s.reconnect k connected).mConnections j) := by
  by_cases hj : j = k
  · subst hj
    rw [reconnect_self]
    cases connected with
    | true => exact ownWf_new j rfl rfl rfl
    | false => exact ownWf_disconnected j _
  · rw [reconnect_other s k connected hj]
    exact h.ownWf j

theorem PoolWf.reconnect {s : Server n} (h : PoolWf s) (k : Fin n) (connected : Bool) :
    PoolWf (s.reconnect k connected) where
  connLt j c hc := by
    rw [reconnect_nextConn]
    by_cases hj : j = k
    · subst hj
      rw [(reconnect_conn s j connected hc).2]
      exact Nat.lt_succ_self _
    · rw [reconnect_other s k connected hj] at hc
      exact (h.connLt j c hc).trans (Nat.lt_succ_self _)
  connLive j c hc := by
    by_cases hj : j = k
    · subst hj
      obtain ⟨rfl, rfl⟩ := reconnect_conn s j connected hc
      rw [reconnect_conns_new]
      rfl
    · rw [reconnect_other s k connected hj] at hc
      rw [(reconnect_conns_old s k connected (h.connLt j c hc).ne).2
        fun hk => hj (h.connInj j k c hc hk)]
      exact h.connLive j c hc
  connInj j j' c hc hc' := by
    by_cases hj : j = k
    · by_cases hj' : j' = k
      · rw [hj, hj']
      · subst hj
        rw [reconnect_other s j connected hj'] at hc'
        exact absurd (reconnect_conn s j connected hc).2 (h.connLt j' c hc').ne
    · rw [reconnect_other s k connected hj] at hc
      by_cases hj' : j' = k
      · subst hj'
        exact absurd (reconnect_conn s j' connected hc').2 (h.connLt j c hc).ne
      · rw [reconnect_other s k connected hj'] at hc'
        exact h.connInj j j' c hc hc'
  pollSock j := (h.ownWf_reconnect k connected j).pollSock
  pollData j := (h.ownWf_reconnect k connected j).pollData
  pollSome j := (h.ownWf_reconnect k connected j).pollSome
  phase j := (h.ownWf_reconnect k connected j).phase

theorem poolWf_kept (env : AuthEnv) (C : Conds n) : Kept env C (fun _ => True) PoolWf where
  connect s accepted _ h := h.of_samePool (connect_frame s accepted).1
  read s st nread buf writable _ h _ _ := by
    have hread := httpRead_cases env s st nread buf writable
    generalize s.httpRead env st nread buf writable = s' at hread ⊢
    cases hread with
    | plain _ hplain => exact h.of_samePool hplain.pool
    | create data es _ => exact h.of_samePool ⟨rfl, rfl, rfl, rfl⟩
  poll s k status consumed busy _ h hk _ := by
    have hp := pollCallback_cases status consumed busy hk (h.pollData k)
    obtain ⟨-, hconns, hnext⟩ := hp.frame
    exact h.of_handles hnext (fun c => by rw [hconns]) hp.handles
  reconnect s k connected _ h _ := h.reconnect k connected
  resume s co r _ h _ _ := by
    have hr := resume_cases s co r
    exact h.of_handles hr.frame.nextConn hr.handles.1 hr.handles.2
  cleanup s _ h := by
    have hclose := (closeDead_closes s.mUntrackedCoroutines s).pool
    exact h.of_samePool ⟨hclose.mPingStr, hclose.mConnections, hclose.conns, hclose.nextConn⟩
  closeCb s st _ h _ := h.of_samePool ⟨rfl, rfl, rfl, rfl⟩

/-! ## `InitializeConnections` -/

/-- The context has a connection of its own, and nobody uses it. -/
structure FreshCtx (s : Server n) (k : Fin n) (c : ConnId) : Prop where
  ctx : s.mConnections k = { mConn := some c, mPollData := some { sock := c } }
  lt : c < s.nextConn
  live : (s.conns c).finished = false

/-- The contexts before `i` are initialized, and nothing else has happened. -/
structure InitFrom (i : Nat) (s : Server n) : Prop where
  done : ∀ k : Fin n, k.val < i → ∃ c, FreshCtx s k c
  inj : ∀ (k k' : Fin n) c, k.val < i → k'.val < i → FreshCtx s k c → FreshCtx s k' c → k = k'
  rest : ∀ k : Fin n, i ≤ k.val → ∃ conn, s.mConnections k = { mConn := conn }
  busy : ∀ c, (s.conns c).busy = false
  coros : ∀ co, (s.coros co).point = .dead
  nextCoro : s.nextCoro = 0
  untracked : s.mUntrackedCoroutines = []
  streams : ∀ st, s.streams st = {}
  trace : ∀ e ∈ s.trace, PoolEvent e

theorem initFrom_empty (mPingStr : Option Bytes) : InitFrom 0 (empty (n := n) mPingStr) where
  done k hk := by omega
  inj k k' c hk := by omega
  rest k _ := ⟨none, rfl⟩
  busy _ := rfl
  coros _ := rfl
  nextCoro := rfl
  untracked := rfl
  streams _ := rfl
  trace e he := by cases he

/-- A context stays fresh while later ones are initialized. -/
theorem FreshCtx.keep {s s' : Server n} {k : Fin n} {c : ConnId} (h : FreshCtx s k c)
    (hctx : s'.mConnections k = s.mConnections k) (hnext : s.nextConn < s'.nextConn)
    (hconns : ∀ c, c ≠ s.nextConn → s'.conns c = s.conns c) : FreshCtx s' k c where
  ctx := hctx.trans h.ctx
  lt := h.lt.trans hnext
  live := by rw [hconns c h.lt.ne]; exact h.live

theorem FreshCtx.conn_unique {s : Server n} {k : Fin n} {c c' : ConnId} (h : FreshCtx s k c)
    (h' : FreshCtx s k c') : c = c' := by
  have heq := h.ctx.symm.trans h'.ctx
  simp only [DBConnectionCtx.mk.injEq, Option.some.injEq] at heq
  exact heq.1

section
variable {i : Nat} {s : Server n}

/-- The contexts before `i` are as fresh as they were. -/
theorem InitFrom.fresh_iff (h : InitFrom i s) {s' : Server n} {k : Fin n} {c : ConnId}
    (hk : k.val < i) (hctx : s'.mConnections k = s.mConnections k)
    (hnext : s.nextConn < s'.nextConn) (hconns : ∀ c, c ≠ s.nextConn → s'.conns c = s.conns c) :
    FreshCtx s' k c ↔ FreshCtx s k c := by
  constructor
  · intro hc
    obtain ⟨c', hc'⟩ := h.done k hk
    obtain rfl := (hc'.keep hctx hnext hconns).conn_unique hc
    exact hc'
  · exact fun hc => hc.keep hctx hnext hconns

/-- A round of the loop of `InitializeConnections`, in which the context `i` gets the new
connection. -/
theorem InitFrom.round (h : InitFrom i s) (hi : i < n) (s' : Server n) (es : List (Event n))
    (hctx : ∀ k, k ≠ (⟨i, hi⟩ : Fin n) → s'.mConnections k = s.mConnections k)
    (hnext : s'.nextConn = s.nextConn + 1)
    (hconns : ∀ c, c ≠ s.nextConn → s'.conns c = s.conns c)
    (hcoros : SameCoros s s') (hstreams : s'.streams = s.streams)
    (htrace : s'.trace = es ++ s.trace) (hes : ∀ e ∈ es, PoolEvent e)
    (hnew : (s'.conns s.nextConn).busy = false) {i' : Nat}
    (hdone : i' = i + 1 ∧ FreshCtx s' ⟨i, hi⟩ s.nextConn ∨
      i' = i ∧ ∃ conn, s'.mConnections ⟨i, hi⟩ = { mConn := conn }) :
    InitFrom i' s' := by
  have hlt : s.nextConn < s'.nextConn := by rw [hnext]; exact Nat.lt_succ_self _
  have hold : ∀ {k : Fin n} {c}, k.val < i → (FreshCtx s' k c ↔ FreshCtx s k c) := fun {k} {c} hk =>
    h.fresh_iff hk (hctx k fun he => by rw [he] at hk; exact absurd hk (lt_irrefl i)) hlt hconns
  have hnewLt : ∀ {k : Fin n}, k.val < i → ¬ FreshCtx s' k s.nextConn := fun hk hc =>
    absurd ((hold hk).1 hc).lt (lt_irrefl _)
  have hnewId : ∀ {k : Fin n} {c}, ¬k.val < i → k.val < i' → FreshCtx s' k c →
      k = ⟨i, hi⟩ ∧ c = s.nextConn := by
    intro k c hki hk hc
    rcases hdone with ⟨rfl, hfresh⟩ | ⟨rfl, -⟩
    · obtain rfl : k = ⟨i, hi⟩ := Fin.ext (by show k.val = i; omega)
      exact ⟨rfl, hc.conn_unique hfresh⟩
    · exact absurd hk hki
  refine
    { done := fun k hk => ?_
      inj := fun k k' c hk hk' hc hc' => ?_
      rest := fun k hk => ?_
      busy := fun c => ?_
      coros := fun co => by rw [hcoros.coros]; exact h.coros co
      nextCoro := hcoros.nextCoro.trans h.nextCoro
      untracked := hcoros.untracked.trans h.untracked
      streams := fun st => by rw [hstreams]; exact h.streams st
      trace := fun e he => ?_ }
  · by_cases hki : k.val < i
    · obtain ⟨c, hc⟩ := h.done k hki
      exact ⟨c, (hold hki).2 hc⟩
    · rcases hdone with ⟨rfl, hfresh⟩ | ⟨rfl, -⟩
      · obtain rfl : k = ⟨i, hi⟩ := Fin.ext (by show k.val = i; omega)
        exact ⟨_, hfresh⟩
      · exact absurd hk hki
  · by_cases hki : k.val < i
    · by_cases hki' : k'.val < i
      · exact h.inj k k' c hki hki' ((hold hki).1 hc) ((hold hki').1 hc')
      · obtain ⟨-, rfl⟩ := hnewId hki' hk' hc'
        exact absurd hc (hnewLt hki)
    · obtain ⟨rfl, rfl⟩ := hnewId hki hk hc
      by_cases hki' : k'.val < i
      · exact absurd hc' (hnewLt hki')
      · exact (hnewId hki' hk' hc').1.symm
  · by_cases hki : k = ⟨i, hi⟩
    · subst hki
      rcases hdone with ⟨rfl, -⟩ | ⟨rfl, hctx'⟩
      · exact absurd hk (by simp)
      · exact hctx'
    · rw [hctx k hki]
      refine h.rest k ?_
      rcases hdone with ⟨rfl, -⟩ | ⟨rfl, -⟩ <;> omega
  · by_cases hc : c = s.nextConn
    · rw [hc]
      exact hnew
    · rw [hconns c hc]
      exact h.busy c
  · rw [htrace] at he
    rcases List.mem_append.1 he with he | he
    · exact hes e he
    · exact h.trace e he

theorem InitFrom.initConnection (h : InitFrom i s) (hi : i < n) :
    InitFrom (i + 1) (s.initConnection ⟨i, hi⟩) := by
  obtain ⟨conn, hctx⟩ := h.rest ⟨i, hi⟩ le_rfl
  refine h.round hi (s.initConnection ⟨i, hi⟩) [.pollInit ⟨i, hi⟩, .pqConnect s.nextConn]
    (fun k hk => Function.update_of_ne hk _ _) rfl (fun c hc => Function.update_of_ne hc _ _)
    ⟨rfl, rfl, rfl⟩ rfl rfl ?_ ?_ (.inl ⟨rfl, ?_⟩)
  · intro e he
    simp only [List.mem_cons, List.not_mem_nil, or_false] at he
    rcases he with rfl | rfl
    · exact .pollInit _
    · exact .pqConnect _
  · simp [Server.initConnection, pqConnectdb, setCtx, log]
  · refine ⟨?_, Nat.lt_succ_self _, ?_⟩
    · simp [Server.initConnection, pqConnectdb, setCtx, log, hctx]
    · simp [Server.initConnection, pqConnectdb, setCtx, log]

theorem InitFrom.initFailed (h : InitFrom i s) (hi : i < n) :
    InitFrom i (s.initFailed ⟨i, hi⟩) := by
  obtain ⟨conn, hctx⟩ := h.rest ⟨i, hi⟩ le_rfl
  refine h.round hi (s.initFailed ⟨i, hi⟩) [.pqFinish s.nextConn, .pqConnect s.nextConn]
    (fun k hk => Function.update_of_ne hk _ _) rfl ?_
    ⟨rfl, rfl, rfl⟩ rfl rfl ?_ ?_ (.inr ⟨rfl, some s.nextConn, ?_⟩)
  · intro c hc
    simp [Server.initFailed, pqConnectdb, setCtx, log, hc]
  · intro e he
    simp only [List.mem_cons, List.not_mem_nil, or_false] at he
    rcases he with rfl | rfl
    · exact .pqFinish _
    · exact .pqConnect _
  · simp [Server.initFailed, pqConnectdb, setCtx, log]
  · simp [Server.initFailed, pqConnectdb, setCtx, log, hctx]

/-- **The rule for `InitializeConnections`**: what both kinds of rounds keep holds when it
returns. -/
theorem initializeFrom_rule {P : Nat → Server n → Prop}
    (hdone : ∀ i (hi : i < n) s, P i s → P (i + 1) (s.initConnection ⟨i, hi⟩))
    (hfailed : ∀ i (hi : i < n) s, P i s → P i (s.initFailed ⟨i, hi⟩))
    {attempts : List Bool} {retries : Nat} {s' : Server n} (h : P i s) (hle : i ≤ n)
    (heq : Server.initializeFrom attempts i retries s = some s') : P n s' := by
  induction attempts generalizing i retries s with
  | nil =>
      simp only [Server.initializeFrom, Option.ite_none_left_eq_some, Option.some.injEq] at heq
      obtain ⟨hi, rfl⟩ := heq
      obtain rfl : i = n := by omega
      exact h
  | cons connected attempts ih =>
      simp only [Server.initializeFrom] at heq
      split at heq
      · next hi =>
        split at heq
        · exact ih (hdone i hi s h) hi heq
        · split at heq
          · cases heq
          · exact ih (hfailed i hi s h) hle heq
      · next hi =>
        obtain rfl := Option.some.inj heq
        obtain rfl : i = n := by omega
        exact h

end

/-- **After `InitializeConnections`** every context has a connection of its own. -/
theorem initFrom_loop {env : AuthEnv} {s : Server n} (h : (env.loop n).init s) :
    InitFrom n s := by
  obtain ⟨mPingStr, attempts, hinit⟩ := h
  exact initializeFrom_rule (fun _ hi _ h => h.initConnection hi) (fun _ hi _ h => h.initFailed hi)
    (initFrom_empty mPingStr) (Nat.zero_le n) hinit

theorem InitFrom.fresh_of_conn {s : Server n} (h : InitFrom n s) {k : Fin n} {c : ConnId}
    (hc : (s.mConnections k).mConn = some c) : FreshCtx s k c := by
  obtain ⟨c', hc'⟩ := h.done k k.isLt
  rw [hc'.ctx] at hc
  exact Option.some.inj hc ▸ hc'

theorem InitFrom.ownWf {s : Server n} (h : InitFrom n s) (k : Fin n) :
    OwnWf k (s.mConnections k) := by
  obtain ⟨c, hc⟩ := h.done k k.isLt
  rw [hc.ctx]
  exact ownWf_new k rfl rfl rfl

theorem InitFrom.poolWf {s : Server n} (h : InitFrom n s) : PoolWf s where
  connLt _ _ hc := (h.fresh_of_conn hc).lt
  connLive _ _ hc := (h.fresh_of_conn hc).live
  connInj k k' c hc hc' := h.inj k k' c k.isLt k'.isLt (h.fresh_of_conn hc) (h.fresh_of_conn hc')
  pollSock k := (h.ownWf k).pollSock
  pollData k := (h.ownWf k).pollData
  pollSome k := (h.ownWf k).pollSome
  phase k := (h.ownWf k).phase

end Server

end ServerBase
