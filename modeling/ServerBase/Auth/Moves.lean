import ServerBase.Auth.Loop
import ServerBase.Dispatch

/-!
# What the other moves do

Frame lemmas for the poll callback, the reconnect loop, the reads and the closing of streams: what
each of them changes, and that the rest of the server is as it was.

Of the trace only what was added is described (`Adds`), by a predicate on the added events.
-/

namespace ServerBase

namespace Server

variable {n : Nat}

/-- `s'` has recorded more than `s`, and every new event satisfies `p`. -/
def Adds (p : Event n → Prop) (s s' : Server n) : Prop :=
  ∃ es, s'.trace = es ++ s.trace ∧ ∀ e ∈ es, p e

section
variable {p q : Event n → Prop} {s t u : Server n}

theorem Adds.refl : Adds p s s := ⟨[], rfl, fun e he => by cases he⟩

theorem Adds.of_eq (h : t.trace = s.trace) : Adds p s t := ⟨[], h, fun e he => by cases he⟩

theorem Adds.log {es : List (Event n)} (h : ∀ e ∈ es, p e) : Adds p s (s.log es) :=
  ⟨es, rfl, h⟩

theorem Adds.one {e : Event n} (h : p e) : Adds p s (s.log [e]) :=
  .log fun e' he => by rw [List.mem_singleton.1 he]; exact h

theorem Adds.trans (h : Adds p s t) (h' : Adds p t u) : Adds p s u := by
  obtain ⟨es, hes, hp⟩ := h
  obtain ⟨es', hes', hp'⟩ := h'
  refine ⟨es' ++ es, by rw [hes', hes, List.append_assoc], ?_⟩
  intro e he
  rcases List.mem_append.1 he with he | he
  · exact hp' e he
  · exact hp e he

theorem Adds.mono (h : Adds p s t) (hpq : ∀ e, p e → q e) : Adds q s t := by
  obtain ⟨es, hes, hp⟩ := h
  exact ⟨es, hes, fun e he => hpq e (hp e he)⟩

/-- What holds of the recorded events and of the added ones. -/
theorem Adds.forall (h : Adds p s t) (hs : ∀ e ∈ s.trace, p e) : ∀ e ∈ t.trace, p e := by
  obtain ⟨es, hes, hp⟩ := h
  intro e he
  rw [hes] at he
  rcases List.mem_append.1 he with he | he
  · exact hp e he
  · exact hs e he

end

/-- The event neither takes nor gives back a context. -/
def NoHold (e : Event n) : Prop := ∀ co, heldBy co [e] = []

theorem Adds.heldBy {s t : Server n} (h : Adds NoHold s t) (co : CoroId) :
    heldBy co t.trace = heldBy co s.trace := by
  obtain ⟨es, hes, hp⟩ := h
  rw [hes, heldBy_append]
  have hnil : ServerBase.heldBy co es = [] := by
    rw [ServerBase.heldBy, List.filterMap_eq_nil_iff]
    intro e he
    have hone := hp e he co
    rw [ServerBase.heldBy, List.filterMap_eq_nil_iff] at hone
    exact hone e (List.mem_singleton.2 rfl)
  rw [hnil, List.nil_append]

/-! ## Resumes -/

/-- What the resume of `co` calls libpq for: a context it takes, or the one it has waited for. -/
def Uses (s : Server n) (co : CoroId) (k : Fin n) (c : ConnId) : Prop :=
  ((s.mConnections k).mConn = some c ∧ (s.mConnections k).mInUse = false) ∨
    ((s.coros co).point = .waitPoll k c ∧ (s.mConnections k).donePollingData = true) ∨
    (s.coros co).point = .waitUpdate k c

/-- What a resume records. -/
theorem Resumed.adds {s s' : Server n} {co : CoroId} {r : Readings n} (h : Resumed s co r s') :
    Adds (fun e => ClientEvent s co e ∨ ∃ k c, s.Uses co k c ∧ CoroEvent s co k c e) s s' := by
  cases h with
  | idle => exact .refl
  | gone es _ hes => exact ⟨es, rfl, fun e he => .inl (hes e he)⟩
  | refused es _ _ hes => exact ⟨es, rfl, fun e he => .inl (hes e he)⟩
  | waits t es _ _ hes => exact ⟨es, rfl, fun e he => .inl (hes e he)⟩
  | sendFailed k c es _ _ hconn huse _ _ hes =>
      exact ⟨es, rfl, fun e he => .inr ⟨k, c, .inl ⟨hconn, huse⟩, hes.each e he⟩⟩
  | suspended k c es _ _ hconn huse _ _ _ hes =>
      exact ⟨es, rfl, fun e he => .inr ⟨k, c, .inl ⟨hconn, huse⟩, hes.each e he⟩⟩
  | finished k c x b _ hpoint hdone hends =>
      obtain ⟨es, rfl, hes⟩ := hends
      exact ⟨es ++ [], rfl, fun e he => .inr ⟨k, c, .inr (.inl ⟨hpoint, hdone⟩),
        hes.each e (by simpa using he)⟩⟩
  | updated k c b _ hpoint hends =>
      obtain ⟨es, rfl, hes⟩ := hends
      exact ⟨es ++ [], rfl, fun e he => .inr ⟨k, c, .inr (.inr hpoint),
        hes.each e (by simpa using he)⟩⟩

/-- Of the coroutines a resume changes the point of its own. -/
theorem Resumed.coros {s s' : Server n} {co : CoroId} {r : Readings n} (h : Resumed s co r s') :
    ∃ p, s'.coros = Function.update s.coros co { s.coros co with point := p } := by
  cases h with
  | idle => exact ⟨(s.coros co).point, (Function.update_eq_self co s.coros).symm⟩
  | gone => exact ⟨.dead, rfl⟩
  | refused => exact ⟨.dead, rfl⟩
  | waits t => exact ⟨.waitCtx t, rfl⟩
  | sendFailed => exact ⟨.dead, rfl⟩
  | suspended k c => exact ⟨.waitPoll k c, rfl⟩
  | finished k c x b _ _ _ hends =>
      obtain ⟨es', rfl, -⟩ := hends
      exact ⟨.dead, rfl⟩
  | updated k c b _ _ hends =>
      obtain ⟨es', rfl, -⟩ := hends
      exact ⟨.dead, rfl⟩

/-- A resume changes nothing of a coroutine but its point. -/
theorem Resumed.fixed {s s' : Server n} {co : CoroId} {r : Readings n} (h : Resumed s co r s')
    (co' : CoroId) : (s'.coros co').mStream = (s.coros co').mStream ∧
      (s'.coros co').data = (s.coros co').data := by
  obtain ⟨p, hcoros⟩ := h.coros
  rw [hcoros]
  by_cases hco : co' = co
  · subst hco
    rw [Function.update_self]
    exact ⟨rfl, rfl⟩
  · rw [Function.update_of_ne hco]
    exact ⟨rfl, rfl⟩

theorem Resumed.mStream {s s' : Server n} {co : CoroId} {r : Readings n} (h : Resumed s co r s')
    (co' : CoroId) : (s'.coros co').mStream = (s.coros co').mStream :=
  (h.fixed co').1

/-! ## Closing a stream -/

/-- The stream `st` is used, or its close is requested. -/
inductive StreamEvent (s : Server n) (st : StreamId) : Event n → Prop
  | use : StreamEvent s st (.useStream st (s.streams st).freed)
  | close : StreamEvent s st (.uvClose st)
  | reply (reply : Reply) : StreamEvent s st (.reply st reply)
  | statsPage : StreamEvent s st (.statsPage st)

theorem StreamEvent.noHold {s : Server n} {st : StreamId} {e : Event n}
    (h : StreamEvent s st e) : NoHold e := by
  intro co
  cases h <;> rfl

/-- The pool and the coroutines are as they were. -/
structure SamePool (s s' : Server n) : Prop where
  mPingStr : s'.mPingStr = s.mPingStr
  mConnections : s'.mConnections = s.mConnections
  conns : s'.conns = s.conns
  nextConn : s'.nextConn = s.nextConn

structure SameCoros (s s' : Server n) : Prop where
  coros : s'.coros = s.coros
  nextCoro : s'.nextCoro = s.nextCoro
  untracked : s'.mUntrackedCoroutines = s.mUntrackedCoroutines

theorem SamePool.refl (s : Server n) : SamePool s s := ⟨rfl, rfl, rfl, rfl⟩

theorem SamePool.trans {s t u : Server n} (h : SamePool s t) (h' : SamePool t u) : SamePool s u :=
  ⟨h'.1.trans h.1, h'.2.trans h.2, h'.3.trans h.3, h'.4.trans h.4⟩

theorem SameCoros.refl (s : Server n) : SameCoros s s := ⟨rfl, rfl, rfl⟩

theorem SameCoros.trans {s t u : Server n} (h : SameCoros s t) (h' : SameCoros t u) :
    SameCoros s u :=
  ⟨h'.1.trans h.1, h'.2.trans h.2, h'.3.trans h.3⟩

/-- What happens to the streams when at most `st` is closed. -/
structure Closes (s : Server n) (st : StreamId) (s' : Server n) : Prop where
  other : ∀ st', st' ≠ st → s'.streams st' = s.streams st'
  freed : (s'.streams st).freed = (s.streams st).freed
  closing : (s.streams st).closing = true → (s'.streams st).closing = true
  nextStream : s'.nextStream = s.nextStream

theorem Closes.of_eq {s s' : Server n} {st : StreamId} (h : s'.streams = s.streams)
    (hnext : s'.nextStream = s.nextStream) : Closes s st s' where
  other st' _ := by rw [h]
  freed := by rw [h]
  closing hc := by rw [h]; exact hc
  nextStream := hnext

theorem Closes.trans {s t u : Server n} {st : StreamId} (h : Closes s st t)
    (h' : Closes t st u) : Closes s st u where
  other st' hne := (h'.other st' hne).trans (h.other st' hne)
  freed := h'.freed.trans h.freed
  closing hc := h'.closing (h.closing hc)
  nextStream := h'.nextStream.trans h.nextStream

/-- A stream that is freed stays so, and no other is. -/
theorem Closes.freed_eq {s s' : Server n} {st : StreamId} (h : Closes s st s') (st' : StreamId) :
    (s'.streams st').freed = (s.streams st').freed := by
  by_cases hst : st' = st
  · subst hst
    exact h.freed
  · rw [h.other st' hst]

/-- A stream whose close was requested stays so. -/
theorem Closes.closing_of {s s' : Server n} {st : StreamId} (h : Closes s st s') (st' : StreamId)
    (hst : (s.streams st').closing = true) : (s'.streams st').closing = true := by
  by_cases hne : st' = st
  · subst hne
    exact h.closing hst
  · rwa [h.other st' hne]

section
variable (s : Server n) (st : StreamId)

theorem safeUvClose_samePool : SamePool s (s.safeUvClose st) := by
  unfold safeUvClose
  dsimp only
  split <;> exact ⟨rfl, rfl, rfl, rfl⟩

theorem safeUvClose_sameCoros : SameCoros s (s.safeUvClose st) := by
  unfold safeUvClose
  dsimp only
  split <;> exact ⟨rfl, rfl, rfl⟩

theorem safeUvClose_closes : Closes s st (s.safeUvClose st) := by
  unfold safeUvClose
  dsimp only
  split
  · exact .of_eq rfl rfl
  · exact
      { other := fun st' hne => Function.update_of_ne hne _ _
        freed := by simp [useStream, log]
        closing := fun _ => by simp
        nextStream := rfl }

theorem safeUvClose_adds : Adds (StreamEvent s st) s (s.safeUvClose st) := by
  unfold safeUvClose
  dsimp only
  split
  · exact .log (by simpa using StreamEvent.use)
  · refine ⟨[.uvClose st, .useStream st (s.streams st).freed,
      .useStream st (s.streams st).freed], rfl, ?_⟩
    intro e he
    simp only [List.mem_cons, List.not_mem_nil, or_false] at he
    rcases he with rfl | rfl | rfl
    · exact .close
    · exact .use
    · exact .use

end

/-! ## `Poll_Callback` -/

/-- The handle of `k` belongs to the context `k`, as far as it was started. -/
def OwnHandle (s : Server n) (k : Fin n) : Prop :=
  ∀ p, (s.mConnections k).mPollData = some p → p.started = true → p.data = some k

/-- What the callback of the handle of `k` can do. -/
inductive Polled (s : Server n) (k : Fin n) (status : Int) (consumed : Bool) :
    Server n → Prop
  /-- Another status than `UV_EBADF`, or the query is still running. -/
  | idle : Polled s k status consumed s
  | ready : pollFails status consumed = false →
      Polled s k status consumed
        ((s.setCtx k { (s.mConnections k).pollStop with mDataReady := true }).log [.polled k])
  | failed (s' : Server n) : pollFails status consumed = true →
      (s' = ((s.setCtx k { (s.mConnections k).pollStop with mTerminate := true }).log
          [.polled k]).log [.fault .nullStream] ∧ (s.mConnections k).mStream = none ∨
        ∃ st, (s.mConnections k).mStream = some st ∧
          s' = ((s.setCtx k { (s.mConnections k).pollStop with mTerminate := true }).log
            [.polled k]).safeUvClose st) →
      Polled s k status consumed s'

theorem pollCallback_cases {s : Server n} {k : Fin n} (status : Int) (consumed busy : Bool)
    (hk : s.polling k = true) (hown : s.OwnHandle k) :
    Polled s k status consumed (s.pollCallback k status consumed busy) := by
  obtain ⟨p, hp, hstarted⟩ := (Option.any_eq_true _ _).1 hk
  have hdata : (s.mConnections k).mPollData.bind UvPoll.data = some k := by
    rw [hp, Option.bind_some]
    exact hown p hp hstarted
  unfold pollCallback
  rw [hdata]
  dsimp only
  by_cases hfails : pollFails status consumed = true
  · rw [if_pos hfails]
    refine .failed _ hfails ?_
    unfold pollFailed
    have hstream : ((s.setCtx k (s.mConnections k).pollStop).mConnections k).mStream =
        (s.mConnections k).mStream := by simp [setCtx, DBConnectionCtx.pollStop]
    have hctx : (s.setCtx k (s.mConnections k).pollStop).setCtx k
        { (s.setCtx k (s.mConnections k).pollStop).mConnections k with mTerminate := true } =
          s.setCtx k { (s.mConnections k).pollStop with mTerminate := true } := by
      simp [setCtx]
    simp only [hctx]
    cases hst : (s.mConnections k).mStream with
    | none =>
        left
        have : ((s.setCtx k { (s.mConnections k).pollStop with mTerminate := true }).log
            [.polled k] |>.mConnections k).mStream = none := by
          simp [setCtx, log, DBConnectionCtx.pollStop, hst]
        rw [this]
        exact ⟨rfl, rfl⟩
    | some st =>
        right
        have : ((s.setCtx k { (s.mConnections k).pollStop with mTerminate := true }).log
            [.polled k] |>.mConnections k).mStream = some st := by
          simp [setCtx, log, DBConnectionCtx.pollStop, hst]
        rw [this]
        exact ⟨st, rfl, rfl⟩
  · rw [if_neg hfails]
    split
    · exact .idle
    · have hctx : (s.setCtx k { s.mConnections k with mDataReady := true }).setCtx k
          ((s.setCtx k { s.mConnections k with mDataReady := true }).mConnections k).pollStop =
            s.setCtx k { (s.mConnections k).pollStop with mDataReady := true } := by
        simp [setCtx, DBConnectionCtx.pollStop]
      rw [hctx]
      exact .ready (by simpa using hfails)

theorem pollCallback_sameCoros (s : Server n) (k : Fin n) (status : Int) (consumed busy : Bool) :
    SameCoros s (s.pollCallback k status consumed busy) := by
  unfold pollCallback
  split
  · exact ⟨rfl, rfl, rfl⟩
  · next j _ =>
    split
    · unfold pollFailed
      dsimp only
      split
      · exact ⟨rfl, rfl, rfl⟩
      · next st _ =>
        refine SameCoros.trans ?_ (safeUvClose_sameCoros _ st)
        exact ⟨rfl, rfl, rfl⟩
    · split
      · exact .refl s
      · exact ⟨rfl, rfl, rfl⟩

/-- A poll callback changes one context: it stops the handle and sets one of the two flags. -/
theorem Polled.ctx {s s' : Server n} {k : Fin n} {status : Int} {consumed : Bool}
    (h : Polled s k status consumed s') :
    ∃ x, s'.mConnections = Function.update s.mConnections k x ∧
      (x = s.mConnections k ∨ x = { (s.mConnections k).pollStop with mDataReady := true } ∨
        x = { (s.mConnections k).pollStop with mTerminate := true }) := by
  cases h with
  | idle => exact ⟨_, (Function.update_eq_self k s.mConnections).symm, .inl rfl⟩
  | ready => exact ⟨_, rfl, .inr (.inl rfl)⟩
  | failed _ hfails hcase =>
      rcases hcase with ⟨rfl, -⟩ | ⟨st, -, rfl⟩
      · exact ⟨_, rfl, .inr (.inr rfl)⟩
      · exact ⟨_, (safeUvClose_samePool _ st).mConnections, .inr (.inr rfl)⟩

theorem Polled.frame {s s' : Server n} {k : Fin n} {status : Int} {consumed : Bool}
    (h : Polled s k status consumed s') :
    SameCoros s s' ∧ s'.conns = s.conns ∧ s'.nextConn = s.nextConn := by
  cases h with
  | idle => exact ⟨.refl s, rfl, rfl⟩
  | ready => exact ⟨⟨rfl, rfl, rfl⟩, rfl, rfl⟩
  | failed _ hfails hcase =>
      rcases hcase with ⟨rfl, -⟩ | ⟨st, -, rfl⟩
      · exact ⟨⟨rfl, rfl, rfl⟩, rfl, rfl⟩
      · have hcoros := safeUvClose_sameCoros ((s.setCtx k { (s.mConnections k).pollStop with
          mTerminate := true }).log [.polled k]) st
        have hpool := safeUvClose_samePool ((s.setCtx k { (s.mConnections k).pollStop with
          mTerminate := true }).log [.polled k]) st
        exact ⟨⟨hcoros.1, hcoros.2, hcoros.3⟩, hpool.conns, hpool.nextConn⟩

/-- A poll callback closes no stream unless it gives up on a context with a client. -/
theorem Polled.streams {s s' : Server n} {k : Fin n} {status : Int} {consumed : Bool}
    (h : Polled s k status consumed s') (hC : pollFails status consumed = true →
      (s.mConnections k).mStream = none) :
    s'.streams = s.streams ∧ s'.nextStream = s.nextStream := by
  cases h with
  | idle => exact ⟨rfl, rfl⟩
  | ready => exact ⟨rfl, rfl⟩
  | failed _ hfails hcase =>
      rcases hcase with ⟨rfl, -⟩ | ⟨st, hst, -⟩
      · exact ⟨rfl, rfl⟩
      · rw [hC hfails] at hst
        cases hst

/-- What a poll callback records. -/
theorem Polled.adds {s s' : Server n} {k : Fin n} {status : Int} {consumed : Bool}
    (h : Polled s k status consumed s') :
    Adds (fun e => e = .polled k ∨
      pollFails status consumed = true ∧
        (e = .fault .nullStream ∧ (s.mConnections k).mStream = none ∨
        ∃ st, (s.mConnections k).mStream = some st ∧ StreamEvent s st e)) s s' := by
  have hlog : ∀ x, Adds (fun e => e = Event.polled k ∨
      pollFails status consumed = true ∧
        (e = .fault .nullStream ∧ (s.mConnections k).mStream = none ∨
        ∃ st, (s.mConnections k).mStream = some st ∧ StreamEvent s st e)) s
        ((s.setCtx k x).log [.polled k]) :=
    fun x => ⟨[.polled k], rfl, fun e he => .inl (List.mem_singleton.1 he)⟩
  cases h with
  | idle => exact .refl
  | ready => exact hlog _
  | failed _ hfails hcase =>
      rcases hcase with ⟨rfl, hnull⟩ | ⟨st, hst, rfl⟩
      · exact (hlog _).trans (.one (.inr ⟨hfails, .inl ⟨rfl, hnull⟩⟩))
      · refine (hlog _).trans ((safeUvClose_adds _ st).mono ?_)
        intro e he
        refine .inr ⟨hfails, .inr ⟨st, hst, ?_⟩⟩
        cases he with
        | use => exact .use
        | close => exact .close
        | reply reply => exact .reply reply
        | statsPage => exact .statsPage

/-! ## `CheckConnections_TimerCb` -/

section
variable (s : Server n) (k : Fin n) (connected : Bool)

theorem disconnect_mConnections :
    (s.disconnect k).mConnections =
      Function.update s.mConnections k (s.mConnections k).disconnected := by
  unfold disconnect
  dsimp only
  split <;> rfl

theorem disconnect_nextConn : (s.disconnect k).nextConn = s.nextConn := by
  unfold disconnect
  dsimp only
  split <;> rfl

/-- One round changes one context. -/
theorem reconnect_mConnections :
    (s.reconnect k connected).mConnections =
      Function.update s.mConnections k
        (if connected then (s.mConnections k).disconnected.reconnected s.nextConn
          else (s.mConnections k).disconnected) := by
  unfold reconnect
  dsimp only
  split
  · simp [pqConnectdb, setCtx, log, disconnect_mConnections, disconnect_nextConn]
  · simp [pqConnectdb, log, disconnect_mConnections]

theorem reconnect_self :
    (s.reconnect k connected).mConnections k =
      if connected then (s.mConnections k).disconnected.reconnected s.nextConn
        else (s.mConnections k).disconnected := by
  rw [reconnect_mConnections, Function.update_self]

theorem reconnect_other {j : Fin n} (hj : j ≠ k) :
    (s.reconnect k connected).mConnections j = s.mConnections j := by
  rw [reconnect_mConnections, Function.update_of_ne hj]

/-- The context has the new connection afterwards, or none. -/
theorem reconnect_conn {c : ConnId}
    (hc : ((s.reconnect k connected).mConnections k).mConn = some c) :
    connected = true ∧ c = s.nextConn := by
  rw [reconnect_self] at hc
  cases connected with
  | true => exact ⟨rfl, (Option.some.inj hc).symm⟩
  | false => cases hc

theorem reconnect_nextConn : (s.reconnect k connected).nextConn = s.nextConn + 1 := by
  unfold reconnect
  dsimp only
  split <;> simp [pqConnectdb, setCtx, log, disconnect_nextConn]

/-- The new connection has no command in progress. -/
theorem reconnect_conns_new :
    (s.reconnect k connected).conns s.nextConn = { finished := !connected } := by
  unfold reconnect
  dsimp only
  split
  · next h => simp [pqConnectdb, setCtx, log, disconnect_nextConn, h]
  · next h => simp [pqConnectdb, log, disconnect_nextConn, h]

/-- Of the old connections at most the one of the context is finished. -/
theorem reconnect_conns_old {c : ConnId} (hc : c ≠ s.nextConn) :
    ((s.reconnect k connected).conns c).busy = (s.conns c).busy ∧
      ((s.mConnections k).mConn ≠ some c →
        ((s.reconnect k connected).conns c).finished = (s.conns c).finished) := by
  have hsame : (s.reconnect k connected).conns c = (s.disconnect k).conns c := by
    unfold reconnect
    dsimp only
    split <;> simp [pqConnectdb, setCtx, log, disconnect_nextConn, hc]
  rw [hsame]
  unfold disconnect
  dsimp only
  cases hconn : (s.mConnections k).mConn with
  | none => exact ⟨rfl, fun _ => rfl⟩
  | some c' =>
      by_cases hcc : c = c'
      · subst hcc
        exact ⟨by simp, fun h => absurd rfl h⟩
      · exact ⟨by simp [hcc], fun _ => by simp [hcc]⟩

theorem disconnect_frame :
    SameCoros s (s.disconnect k) ∧ (s.disconnect k).streams = s.streams ∧
      (s.disconnect k).nextStream = s.nextStream ∧ (s.disconnect k).mPingStr = s.mPingStr := by
  unfold disconnect
  dsimp only
  split <;> exact ⟨⟨rfl, rfl, rfl⟩, rfl, rfl, rfl⟩

theorem reconnect_frame :
    SameCoros s (s.reconnect k connected) ∧ (s.reconnect k connected).streams = s.streams ∧
      (s.reconnect k connected).nextStream = s.nextStream ∧
      (s.reconnect k connected).mPingStr = s.mPingStr := by
  obtain ⟨⟨hc, hn, hu⟩, hst, hns, hping⟩ := disconnect_frame s k
  unfold reconnect
  dsimp only
  split <;> exact ⟨⟨hc, hn, hu⟩, hst, hns, hping⟩

end

/-- What the pool does to its connections. -/
inductive PoolEvent : Event n → Prop
  | pqConnect (c : ConnId) : PoolEvent (.pqConnect c)
  | pqFinish (c : ConnId) : PoolEvent (.pqFinish c)
  | pollInit (k : Fin n) : PoolEvent (.pollInit k)
  | pollClose (k : Fin n) : PoolEvent (.pollClose k)

theorem PoolEvent.noHold {e : Event n} (h : PoolEvent e) : NoHold e := by
  intro co
  cases h <;> rfl

theorem reconnect_adds (s : Server n) (k : Fin n) (connected : Bool) :
    Adds PoolEvent s (s.reconnect k connected) := by
  have hdisconnect : Adds PoolEvent s (s.disconnect k) := by
    have hclosed : ∀ e ∈ (if (s.mConnections k).mPollData.isSome then [Event.pollClose k] else []),
        PoolEvent e := by
      intro e he
      split at he
      · rw [List.mem_singleton.1 he]
        exact .pollClose k
      · cases he
    unfold disconnect
    dsimp only
    split
    · exact ⟨_, rfl, hclosed⟩
    · next conn _ =>
      refine ⟨_, rfl, ?_⟩
      intro e he
      rcases List.mem_cons.1 he with rfl | he
      · exact .pqFinish conn
      · exact hclosed e he
  refine hdisconnect.trans ?_
  unfold reconnect
  dsimp only
  split
  · refine ⟨[.pollInit k, .pqConnect (s.disconnect k).nextConn], rfl, ?_⟩
    intro e he
    simp only [List.mem_cons, List.not_mem_nil, or_false] at he
    rcases he with rfl | rfl
    · exact .pollInit k
    · exact .pqConnect _
  · refine ⟨[.pqFinish (s.disconnect k).nextConn, .pqConnect (s.disconnect k).nextConn], rfl,
      ?_⟩
    intro e he
    simp only [List.mem_cons, List.not_mem_nil, or_false] at he
    rcases he with rfl | rfl
    · exact .pqFinish _
    · exact .pqConnect _

/-! ## Reads -/

/-- The RPC callback accepts its params and creates a coroutine. -/
def Creates (a : Action AuthPath AuthRpc) : Prop :=
  ∃ cb msgid params paramsCount data converted, a = .rpcCallback cb msgid params paramsCount ∧
    AuthRpc.call cb msgid params paramsCount = some (.pending data converted)

/-- A coroutine is created for a request that is answered later; nothing is done to the client. -/
theorem handleJsonrpcRequest_creates (env : AuthEnv) (body : Bytes) (bodyLen : Nat) :
    (∀ a ∈ handleJsonrpcRequest env.http authSettings body bodyLen, ¬ Creates a) ∨
      ∃ cb msgid params paramsCount data converted,
        handleJsonrpcRequest env.http authSettings body bodyLen =
          [.rpcCallback cb msgid params paramsCount, .freeDoc] ∧
        AuthRpc.call cb msgid params paramsCount = some (.pending data converted) := by
  by_cases h : ∀ a ∈ handleJsonrpcRequest env.http authSettings body bodyLen, ¬ Creates a
  · exact .inl h
  · right
    simp only [not_forall, not_not] at h
    obtain ⟨a, ha, cb, msgid, params, count, data, converted, rfl, hcall⟩ := h
    refine ⟨cb, msgid, params, count, data, converted, ?_, hcall⟩
    unfold handleJsonrpcRequest at ha ⊢
    cases hread : yyjsonRead env.http body bodyLen with
    | none => simp [hread] at ha
    | some root =>
        simp only [hread, handleJsonrpcDoc] at ha ⊢
        cases hm : validMethod root with
        | none => simp [hm] at ha
        | some method =>
            simp only [hm] at ha ⊢
            cases hl : authSettings.mRpcCallbacks.lookup (hash method) with
            | none => simp [hl] at ha
            | some found =>
                cases found with
                | none => simp [hl] at ha
                | some cb' =>
                    simp only [hl, List.cons_append, List.mem_cons, List.mem_append] at ha ⊢
                    rcases ha with ha | ha | ha | ha
                    · obtain ⟨rfl, rfl, rfl, rfl⟩ := Action.rpcCallback.inj ha
                      simp only [AuthEnv.http, hcall, AuthCall.code]
                      rfl
                    · rcases mem_rpcReply ha with ⟨_, ha⟩ | ha <;> cases ha
                    · cases ha
                    · cases ha

/-- **A read creates at most one coroutine**, and then it does nothing else to the client. -/
theorem httpOnRead_creates (env : AuthEnv) (nread : Int) (buf : Bytes) :
    (∀ a ∈ httpOnRead env.http authSettings nread buf, ¬ Creates a) ∨
      ∃ pret bodyLen cb msgid params paramsCount data converted,
        httpOnRead env.http authSettings nread buf =
          [.jsonrpcRequest pret bodyLen, .rpcCallback cb msgid params paramsCount, .freeDoc,
            .freeBuf] ∧
        AuthRpc.call cb msgid params paramsCount = some (.pending data converted) := by
  have hother : ∀ {a : Action AuthPath AuthRpc},
      (∀ cb msgid params count, a ≠ .rpcCallback cb msgid params count) → ¬ Creates a := by
    rintro a h ⟨cb, msgid, params, count, _, _, rfl, _⟩
    exact h _ _ _ _ rfl
  unfold httpOnRead
  split
  · split
    · next pret req hparse =>
      unfold dispatchRequest
      split
      · exact .inl (by simpa using ⟨hother (by simp), hother (by simp)⟩)
      · dsimp only
        split
        · exact .inl (by simpa using ⟨hother (by simp), hother (by simp), hother (by simp)⟩)
        · exact .inl (by simpa using hother (by simp))
        · split
          · rcases handleJsonrpcRequest_creates env (buf.drop pret) (bodyLength nread pret) with
              h | ⟨cb, msgid, params, count, data, converted, heq, hcall⟩
            · left
              intro a ha
              simp only [List.cons_append, List.mem_cons, List.mem_append, List.not_mem_nil,
                or_false] at ha
              rcases ha with rfl | ha | rfl
              · exact hother (by simp)
              · exact h a ha
              · exact hother (by simp)
            · exact .inr ⟨_, _, cb, msgid, params, count, data, converted, by rw [heq]; rfl, hcall⟩
          · exact .inl (by simpa using ⟨hother (by simp), hother (by simp), hother (by simp)⟩)
    · exact .inl (by simpa using ⟨hother (by simp), hother (by simp), hother (by simp)⟩)
    · exact .inl (by simpa using ⟨hother (by simp), hother (by simp), hother (by simp)⟩)
  · split
    · exact .inl (by simpa using ⟨hother (by simp), hother (by simp)⟩)
    · exact .inl (by simpa using hother (by simp))

/-- What a read of the stream `st` records. -/
inductive ReadEvent (s : Server n) (st : StreamId) : Event n → Prop
  | stream {e : Event n} : StreamEvent s st e → ReadEvent s st e
  | nullString : ReadEvent s st (.fault .nullString)
  | pathOverflow : ReadEvent s st (.fault .pathOverflow)

theorem ReadEvent.noHold {s : Server n} {st : StreamId} {e : Event n} (h : ReadEvent s st e) :
    NoHold e := by
  cases h with
  | stream h => exact h.noHold
  | nullString => exact fun _ => rfl
  | pathOverflow => exact fun _ => rfl

/-- A read that creates no coroutine. -/
structure PlainRead (s : Server n) (st : StreamId) (s' : Server n) : Prop where
  pool : SamePool s s'
  coros : SameCoros s s'
  closes : Closes s st s'
  adds : Adds (ReadEvent s st) s s'

theorem ReadEvent.of_closes {s t : Server n} {st : StreamId} (h : Closes s st t) {e : Event n}
    (he : ReadEvent t st e) : ReadEvent s st e := by
  cases he with
  | stream he =>
      refine .stream ?_
      cases he with
      | use => exact h.freed ▸ .use
      | close => exact .close
      | reply reply => exact .reply reply
      | statsPage => exact .statsPage
  | nullString => exact .nullString
  | pathOverflow => exact .pathOverflow

theorem PlainRead.trans {s t u : Server n} {st : StreamId} (h : PlainRead s st t)
    (h' : PlainRead t st u) : PlainRead s st u where
  pool := h.pool.trans h'.pool
  coros := h.coros.trans h'.coros
  closes := h.closes.trans h'.closes
  adds := h.adds.trans (h'.adds.mono fun _ he => he.of_closes h.closes)

theorem PlainRead.log {s : Server n} {st : StreamId} (es : List (Event n))
    (h : ∀ e ∈ es, ReadEvent s st e) : PlainRead s st (s.log es) :=
  ⟨⟨rfl, rfl, rfl, rfl⟩, ⟨rfl, rfl, rfl⟩, .of_eq rfl rfl, .log h⟩

theorem readEvent_replyEvents (s : Server n) (st : StreamId) (writable : Bool) (reply : Reply) :
    ∀ e ∈ s.replyEvents st writable reply, ReadEvent s st e := by
  intro e he
  unfold replyEvents at he
  split at he <;> simp only [List.mem_cons, List.not_mem_nil, or_false] at he
  · rcases he with rfl | rfl | rfl
    · exact .stream (.reply reply)
    · exact .stream .use
    · exact .stream .use
  · exact he ▸ .stream .use

theorem runAction_plain {s : Server n} {st : StreamId} {writable : Bool}
    {a : Action AuthPath AuthRpc} (h : ¬ Creates a) :
    PlainRead s st (s.runAction st writable a) := by
  have hrefl : PlainRead s st s := .log [] fun e he => by cases he
  cases a with
  | send reply =>
      rw [runAction, sendReply_eq]
      exact .log _ (readEvent_replyEvents s st writable reply)
  | pathCallback cb =>
      refine .log [.statsPage st, .useStream st (s.streams st).freed] ?_
      intro e he
      simp only [List.mem_cons, List.not_mem_nil, or_false] at he
      rcases he with rfl | rfl
      · exact .stream .statsPage
      · exact .stream .use
  | jsonrpcRequest pret bodyLen => exact hrefl
  | rpcCallback cb msgid params paramsCount =>
      rw [runAction]
      split
      · next call hcall =>
        cases call with
        | invalidParams => exact hrefl
        | pending data converted => exact absurd ⟨_, _, _, _, _, _, rfl, hcall⟩ h
      · exact hrefl
  | close =>
      exact ⟨safeUvClose_samePool s st, safeUvClose_sameCoros s st, safeUvClose_closes s st,
        (safeUvClose_adds s st).mono fun _ he => .stream he⟩
  | freeDoc => exact hrefl
  | freeBuf => exact hrefl
  | pathOverflow => exact .log _ (by simpa using ReadEvent.pathOverflow)

theorem runActions_plain {s : Server n} {st : StreamId} {writable : Bool}
    {as : List (Action AuthPath AuthRpc)} (h : ∀ a ∈ as, ¬ Creates a) :
    PlainRead s st (s.runActions st writable as) := by
  induction as generalizing s with
  | nil => exact .log [] fun e he => by cases he
  | cons a as ih =>
      exact (runAction_plain (h a (by simp))).trans
        (ih fun a' ha' => h a' (List.mem_cons_of_mem _ ha'))

/-- **What a read can do**: it answers and may close the client, or it creates a coroutine. -/
inductive HttpRead (s : Server n) (st : StreamId) : Server n → Prop
  | plain (s' : Server n) : PlainRead s st s' → HttpRead s st s'
  | create (data : AuthData) (es : List (Event n)) : (∀ e ∈ es, ReadEvent s st e) →
      HttpRead s st ((s.log es).createUntrackedCoroutine st data)

theorem httpRead_cases (env : AuthEnv) (s : Server n) (st : StreamId) (nread : Int) (buf : Bytes)
    (writable : Bool) : HttpRead s st (s.httpRead env st nread buf writable) := by
  have huse : PlainRead s st (s.useStream st) :=
    .log _ (by simpa using ReadEvent.stream StreamEvent.use)
  unfold httpRead
  rcases httpOnRead_creates env nread buf with
    h | ⟨pret, bodyLen, cb, msgid, params, count, data, converted, heq, hcall⟩
  · exact .plain _ (huse.trans (runActions_plain h))
  · rw [heq]
    have hrun : (s.useStream st).runActions st writable
        [.jsonrpcRequest pret bodyLen, .rpcCallback cb msgid params count, .freeDoc, .freeBuf] =
          (s.useStream st).runAuthCall st (.pending data converted) := by
      simp only [runActions, runAction, hcall]
    rw [hrun, runAuthCall]
    split
    · refine .create data [.useStream st (s.streams st).freed, .fault .nullString,
        .useStream st (s.streams st).freed] ?_
      intro e he
      simp only [List.mem_cons, List.not_mem_nil, or_false] at he
      rcases he with rfl | rfl | rfl
      · exact .stream .use
      · exact .nullString
      · exact .stream .use
    · refine .create data [.useStream st (s.streams st).freed,
        .useStream st (s.streams st).freed] ?_
      intro e he
      simp only [List.mem_cons, List.not_mem_nil, or_false] at he
      rcases he with rfl | rfl
      · exact .stream .use
      · exact .stream .use

/-- A read of nothing does nothing. -/
theorem httpRead_zero (env : AuthEnv) (s : Server n) (st : StreamId) (buf : Bytes)
    (writable : Bool) : s.httpRead env st 0 buf writable = s.useStream st := by
  simp [httpRead, httpOnRead, runActions, runAction]

/-! ## New connections and dead coroutines -/

theorem connect_frame (s : Server n) (accepted : Bool) :
    SamePool s (s.connect accepted) ∧ SameCoros s (s.connect accepted) := by
  unfold connect
  split
  · exact ⟨⟨rfl, rfl, rfl, rfl⟩, ⟨rfl, rfl, rfl⟩⟩
  · have hpool : SamePool s s.uvTcpInit := ⟨rfl, rfl, rfl, rfl⟩
    have hcoros : SameCoros s s.uvTcpInit := ⟨rfl, rfl, rfl⟩
    exact ⟨hpool.trans (safeUvClose_samePool _ _), hcoros.trans (safeUvClose_sameCoros _ _)⟩

theorem uvTcpInit_streams_self (s : Server n) : s.uvTcpInit.streams s.nextStream = {} :=
  Function.update_self _ _ _

theorem uvTcpInit_streams_other (s : Server n) {st : StreamId} (h : st ≠ s.nextStream) :
    s.uvTcpInit.streams st = s.streams st :=
  Function.update_of_ne h _ _

/-- A new stream is not freed, and the others are as they were. -/
theorem connect_streams (s : Server n) (accepted : Bool) :
    (s.connect accepted).nextStream = s.nextStream + 1 ∧
      (∀ st, st ≠ s.nextStream → (s.connect accepted).streams st = s.streams st) ∧
      ((s.connect accepted).streams s.nextStream).freed = false := by
  unfold connect
  split
  · refine ⟨rfl, fun st hst => s.uvTcpInit_streams_other hst, ?_⟩
    show (s.uvTcpInit.streams s.nextStream).freed = false
    rw [uvTcpInit_streams_self]
  · have hcloses := safeUvClose_closes s.uvTcpInit s.nextStream
    refine ⟨hcloses.nextStream, ?_, ?_⟩
    · intro st hst
      rw [hcloses.other st hst, s.uvTcpInit_streams_other hst]
    · rw [hcloses.freed, uvTcpInit_streams_self]

theorem connect_adds (s : Server n) (accepted : Bool) :
    Adds (StreamEvent s.uvTcpInit s.nextStream) s (s.connect accepted) := by
  unfold connect
  split
  · exact ⟨_, rfl, by simpa using StreamEvent.use⟩
  · exact safeUvClose_adds s.uvTcpInit s.nextStream

/-- What the loop of `CleanupDeadCoroutines` does to the streams. -/
structure ClosesDead (cos : List CoroId) (s s' : Server n) : Prop where
  pool : SamePool s s'
  coros : SameCoros s s'
  nextStream : s'.nextStream = s.nextStream
  freed : ∀ st, (s'.streams st).freed = (s.streams st).freed
  closing : ∀ st, (s.streams st).closing = true → (s'.streams st).closing = true
  other : ∀ st, (∀ co ∈ cos, (s.coros co).point.isDead = true → (s.coros co).mStream ≠ st) →
    s'.streams st = s.streams st
  adds : Adds (fun e => ∃ co ∈ cos, (s.coros co).point.isDead = true ∧
    StreamEvent s (s.coros co).mStream e) s s'

theorem closeDead_closes (cos : List CoroId) (s : Server n) :
    ClosesDead cos s (closeDead cos s) := by
  induction cos generalizing s with
  | nil =>
      exact ⟨.refl s, .refl s, rfl, fun _ => rfl, fun _ => id, fun _ _ => rfl, .refl⟩
  | cons co cos ih =>
      rw [closeDead]
      by_cases hdead : (s.coros co).point.isDead = true
      · rw [if_pos hdead]
        have hclose := safeUvClose_closes s (s.coros co).mStream
        have hcoros := safeUvClose_sameCoros s (s.coros co).mStream
        have htail := ih (s.safeUvClose (s.coros co).mStream)
        refine ⟨(safeUvClose_samePool s _).trans htail.pool, hcoros.trans htail.coros,
          htail.nextStream.trans hclose.nextStream,
          fun st => (htail.freed st).trans (hclose.freed_eq st),
          fun st hst => htail.closing st (hclose.closing_of st hst), ?_, ?_⟩
        · intro st hst
          have hne : st ≠ (s.coros co).mStream := fun h => hst co (by simp) hdead h.symm
          rw [htail.other st fun co' hco' => ?_, hclose.other st hne]
          rw [hcoros.coros]
          exact hst co' (List.mem_cons_of_mem _ hco')
        · refine ((safeUvClose_adds s _).mono ?_).trans (htail.adds.mono ?_)
          · intro e he
            exact ⟨co, by simp, hdead, he⟩
          · intro e he
            obtain ⟨co', hco', hdead', he⟩ := he
            rw [hcoros.coros] at hdead' he
            refine ⟨co', List.mem_cons_of_mem _ hco', hdead', ?_⟩
            cases he with
            | use => rw [hclose.freed_eq]; exact .use
            | close => exact .close
            | reply reply => exact .reply reply
            | statsPage => exact .statsPage
      · rw [if_neg hdead]
        have htail := ih s
        refine ⟨htail.pool, htail.coros, htail.nextStream, htail.freed, htail.closing,
          ?_, ?_⟩
        · intro st hst
          exact htail.other st fun co' hco' => hst co' (List.mem_cons_of_mem _ hco')
        · exact htail.adds.mono fun e he => by
            obtain ⟨co', hco', he⟩ := he
            exact ⟨co', List.mem_cons_of_mem _ hco', he⟩

end Server

end ServerBase
