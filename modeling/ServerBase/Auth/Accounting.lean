import ServerBase.Auth.Pool
import ServerBase.Lib.Ledger

/-!
# What the pool opens, it closes

**The ledger** (`Accounts`). Every connection `PQconnectdb` has returned is the one of a context or
was passed to `PQfinish`, once; and the handles of a context alternate: one is opened when the last
one was closed.

**Rounds.** A round of the reconnect loop gives up what the context holds, which may be nothing
after an earlier failure, and opens something new, which may be given up at once.

**The result** (`accounting`): after `ShutdownConnections` nothing is left open, in whichever round
the reconnect loop was last left.
-/

namespace ServerBase

open Ledger

/-! ## `ShutdownConnections` -/

namespace Server

variable {n : Nat}

/-- One round of the loop of `ShutdownConnections`; the context keeps the finished connection. -/
def shutdownConnection (s : Server n) (k : Fin n) : Server n :=
  let ctx := s.mConnections k
  let closed := if ctx.mPollData.isSome then [.pollClose k] else []
  let s := (s.setCtx k { ctx with mPollData := none }).log closed
  match ctx.mConn with
  | none => s
  | some conn =>
      { s.log [.pqFinish conn] with
        conns := Function.update s.conns conn { s.conns conn with finished := true } }

/-- `ShutdownConnections`; the contexts are deleted after it. -/
def shutdownConnections (s : Server n) : Server n :=
  (List.finRange n).foldl shutdownConnection s

end Server

/-! ## What is recorded -/

namespace Event

variable {n : Nat}

def connected? : Event n → Option ConnId
  | .pqConnect conn => some conn
  | _ => none

def finished? : Event n → Option ConnId
  | .pqFinish conn => some conn
  | _ => none

/-- A handle of the context `k` is opened (`true`) or closed. -/
def pollUse? (k : Fin n) : Event n → Option Bool
  | .pollInit j => if j = k then some true else none
  | .pollClose j => if j = k then some false else none
  | _ => none

end Event

/-- The handles of one context, newest first: each was closed before the next one was opened, and
the last one is open or not. -/
inductive Handles : (isOpen : Bool) → List Bool → Prop
  | none : Handles false []
  | opened {us : List Bool} : Handles false us → Handles true (true :: us)
  | closed {us : List Bool} : Handles true us → Handles false (false :: us)

namespace Server

variable {n : Nat} {s s' : Server n}

section
variable (s : Server n)

/-- The connections `PQconnectdb` has returned. -/
def connects : List ConnId := s.trace.filterMap Event.connected?

/-- The connections passed to `PQfinish`. -/
def finishes : List ConnId := s.trace.filterMap Event.finished?

def pollUses (k : Fin n) : List Bool := s.trace.filterMap (Event.pollUse? k)

/-- The connections of the contexts `ks`. -/
def held (ks : List (Fin n)) : List ConnId := ks.filterMap fun k => (s.mConnections k).mConn

end

/-- The contexts `ks` hold what was opened and not closed. -/
structure Accounts (ks : List (Fin n)) (s : Server n) : Prop where
  connects : s.connects = (List.range s.nextConn).reverse
  conns : Balanced (List.range s.nextConn) (s.held ks) s.finishes
  polls : ∀ k, Handles (s.mConnections k).mPollData.isSome (s.pollUses k)

/-! ## Moves of the rest of the server -/

/-- The rest of the server records nothing of this. -/
structure SameAccounts (s s' : Server n) : Prop where
  nextConn : s'.nextConn = s.nextConn
  connects : s'.connects = s.connects
  finishes : s'.finishes = s.finishes
  pollUses : ∀ k, s'.pollUses k = s.pollUses k

theorem SameAccounts.of_adds (hnext : s'.nextConn = s.nextConn)
    (h : Adds (fun e => ¬PoolEvent e) s s') : SameAccounts s s' := by
  obtain ⟨es, htrace, hes⟩ := h
  have hnone : ∀ {α : Type} (f : Event n → Option α), (∀ e, ¬PoolEvent e → f e = none) →
      s'.trace.filterMap f = s.trace.filterMap f := by
    intro α f hf
    have hnil : es.filterMap f = [] := List.filterMap_eq_nil_iff.2 fun e he => hf e (hes e he)
    rw [htrace, List.filterMap_append, hnil, List.nil_append]
  refine ⟨hnext, hnone _ ?_, hnone _ ?_, fun k => hnone _ ?_⟩
  · intro e he
    cases e with
    | pqConnect c => exact absurd (.pqConnect c) he
    | _ => rfl
  · intro e he
    cases e with
    | pqFinish c => exact absurd (.pqFinish c) he
    | _ => rfl
  · intro e he
    cases e with
    | pollInit j => exact absurd (.pollInit j) he
    | pollClose j => exact absurd (.pollClose j) he
    | _ => rfl

theorem Accounts.of_same {ks : List (Fin n)} (h : Accounts ks s) (hs : SameAccounts s s')
    (hctx : ∀ k, SameHandle k (s.mConnections k) (s'.mConnections k)) : Accounts ks s' where
  connects := by
    rw [hs.connects, hs.nextConn]
    exact h.connects
  conns := by
    have hheld : s'.held ks = s.held ks := List.filterMap_congr fun k _ => (hctx k).mConn
    rw [hs.nextConn, hheld, hs.finishes]
    exact h.conns
  polls k := by
    rw [(hctx k).isSome, hs.pollUses k]
    exact h.polls k

theorem Accounts.of_samePool {ks : List (Fin n)} (h : Accounts ks s) (hs : SamePool s s')
    (hadds : Adds (fun e => ¬PoolEvent e) s s') : Accounts ks s' := by
  refine h.of_same (.of_adds hs.nextConn hadds) fun k => ?_
  rw [hs.mConnections]
  exact .refl k _

/-! ## Giving up and opening -/

variable {k : Fin n} {ks ks' : List (Fin n)}

theorem held_update {x : DBConnectionCtx n} (hks : ks.Nodup) (hk : k ∈ ks)
    (hctx : s'.mConnections = Function.update s.mConnections k x) :
    (s'.held ks ++ (s.mConnections k).mConn.toList).Perm (s.held ks ++ x.mConn.toList) := by
  have hfun : (fun j => (s'.mConnections j).mConn) =
      Function.update (fun j => (s.mConnections j).mConn) k x.mConn := by
    funext j
    rw [hctx]
    by_cases hj : j = k
    · rw [hj, Function.update_self, Function.update_self]
    · rw [Function.update_of_ne hj, Function.update_of_ne hj]
  rw [held, hfun]
  exact filterMap_update_perm hks hk _ _

/-- What the context `k` holds is closed and finished. -/
structure GaveUp (k : Fin n) (s s' : Server n) : Prop where
  nextConn : s'.nextConn = s.nextConn
  trace : s'.trace = ((s.mConnections k).mConn.toList.map .pqFinish ++
    if (s.mConnections k).mPollData.isSome then [.pollClose k] else []) ++ s.trace
  poll : (s'.mConnections k).mPollData = none
  other : ∀ j, j ≠ k → s'.mConnections j = s.mConnections j

theorem GaveUp.accounts (h : GaveUp k s s') (hs : Accounts ks s)
    (hheld : (s.held ks).Perm ((s.mConnections k).mConn.toList ++ s'.held ks')) :
    Accounts ks' s' where
  connects := by
    have hconnects : s'.connects = s.connects := by
      rw [connects, h.trace, List.filterMap_append]
      cases (s.mConnections k).mConn <;> cases (s.mConnections k).mPollData <;> rfl
    rw [hconnects, h.nextConn]
    exact hs.connects
  conns := by
    have hfinishes : s'.finishes = (s.mConnections k).mConn.toList ++ s.finishes := by
      rw [finishes, h.trace, List.filterMap_append]
      cases (s.mConnections k).mConn <;> cases (s.mConnections k).mPollData <;> rfl
    rw [h.nextConn, hfinishes]
    cases hconn : (s.mConnections k).mConn with
    | none =>
        rw [hconn] at hheld
        exact hs.conns.move hheld.symm
    | some conn =>
        rw [hconn] at hheld
        exact hs.conns.release hheld
  polls j := by
    have hj := hs.polls j
    by_cases hjk : j = k
    · subst hjk
      rw [h.poll, pollUses, h.trace, List.filterMap_append, List.filterMap_append]
      have hconn : ((s.mConnections j).mConn.toList.map Event.pqFinish).filterMap
          (Event.pollUse? j) = [] := by cases (s.mConnections j).mConn <;> rfl
      rw [hconn, List.nil_append]
      cases hpoll : (s.mConnections j).mPollData with
      | none =>
          rw [hpoll] at hj
          exact hj
      | some p =>
          rw [hpoll] at hj
          have hclose : [Event.pollClose j].filterMap (Event.pollUse? j) = [false] := by
            simp [Event.pollUse?]
          rw [Option.isSome_some, if_pos rfl, hclose]
          exact .closed hj
    · have hsame : s'.pollUses j = s.pollUses j := by
        rw [pollUses, h.trace, List.filterMap_append]
        cases (s.mConnections k).mConn <;> cases (s.mConnections k).mPollData <;>
          simp [Event.pollUse?, Ne.symm hjk, pollUses]
      rw [h.other j hjk, hsame]
      exact hj

/-- The context `k` gets a new connection and a handle. -/
structure Opened (k : Fin n) (s s' : Server n) : Prop where
  nextConn : s'.nextConn = s.nextConn + 1
  trace : s'.trace = [.pollInit k, .pqConnect s.nextConn] ++ s.trace
  poll : (s'.mConnections k).mPollData.isSome = true
  other : ∀ j, j ≠ k → s'.mConnections j = s.mConnections j

theorem Opened.accounts (h : Opened k s s') (hs : Accounts ks s)
    (hpoll : (s.mConnections k).mPollData = none)
    (hheld : (s'.held ks').Perm (s.nextConn :: s.held ks)) : Accounts ks' s' where
  connects := by
    have hconnects : s'.connects = s.nextConn :: s.connects := by rw [connects, h.trace]; rfl
    rw [hconnects, hs.connects, h.nextConn, List.range_succ, List.reverse_append]
    rfl
  conns := by
    have hfinishes : s'.finishes = s.finishes := by rw [finishes, h.trace]; rfl
    rw [hfinishes, h.nextConn]
    exact hs.conns.create_range hheld
  polls j := by
    have hj := hs.polls j
    by_cases hjk : j = k
    · subst hjk
      have huses : s'.pollUses j = true :: s.pollUses j := by
        have hinit : Event.pollUse? j (.pollInit j) = some true := if_pos rfl
        rw [pollUses, h.trace]
        exact List.filterMap_cons_some hinit
      rw [hpoll] at hj
      rw [h.poll, huses]
      exact .opened hj
    · have huses : s'.pollUses j = s.pollUses j := by
        have hinit : Event.pollUse? j (.pollInit k) = none := if_neg (Ne.symm hjk)
        rw [pollUses, h.trace]
        exact List.filterMap_cons_none hinit
      rw [h.other j hjk, huses]
      exact hj

/-- The attempt failed, and the new connection is finished. -/
structure Failed (s s' : Server n) : Prop where
  nextConn : s'.nextConn = s.nextConn + 1
  trace : s'.trace = [.pqFinish s.nextConn, .pqConnect s.nextConn] ++ s.trace
  poll : ∀ j, (s'.mConnections j).mPollData = (s.mConnections j).mPollData

theorem Failed.accounts (h : Failed s s') (hs : Accounts ks s) (hheld : s'.held ks = s.held ks) :
    Accounts ks s' where
  connects := by
    have hconnects : s'.connects = s.nextConn :: s.connects := by rw [connects, h.trace]; rfl
    rw [hconnects, hs.connects, h.nextConn, List.range_succ, List.reverse_append]
    rfl
  conns := by
    have hfinishes : s'.finishes = s.nextConn :: s.finishes := by rw [finishes, h.trace]; rfl
    rw [hfinishes, h.nextConn, hheld]
    exact (hs.conns.create_range (List.Perm.refl _)).release (List.Perm.refl _)
  polls j := by
    have huses : s'.pollUses j = s.pollUses j := by rw [pollUses, h.trace]; rfl
    rw [h.poll, huses]
    exact hs.polls j

/-! ## The reconnect loop -/

theorem gaveUp_disconnect (s : Server n) (k : Fin n) : GaveUp k s (s.disconnect k) where
  nextConn := disconnect_nextConn s k
  trace := by
    unfold disconnect
    dsimp only
    cases (s.mConnections k).mConn <;> rfl
  poll := by rw [disconnect_mConnections, Function.update_self]; rfl
  other j hj := by rw [disconnect_mConnections, Function.update_of_ne hj]

theorem Accounts.disconnect (h : Accounts (List.finRange n) s) (k : Fin n) :
    Accounts (List.finRange n) (s.disconnect k) := by
  refine (gaveUp_disconnect s k).accounts h ?_
  have hperm := held_update (List.nodup_finRange n) (List.mem_finRange k)
    (disconnect_mConnections s k)
  rw [show (s.mConnections k).disconnected.mConn = none from rfl, Option.toList_none,
    List.append_nil] at hperm
  exact hperm.symm.trans List.perm_append_comm

theorem Accounts.reconnect (h : Accounts (List.finRange n) s) (k : Fin n) (connected : Bool) :
    Accounts (List.finRange n) (s.reconnect k connected) := by
  have hdis := h.disconnect k
  have hctx : (s.disconnect k).mConnections k = (s.mConnections k).disconnected := by
    rw [disconnect_mConnections, Function.update_self]
  cases connected with
  | true =>
      have hopened : Opened k (s.disconnect k) (s.reconnect k true) :=
        { nextConn := rfl
          trace := rfl
          poll := by rw [reconnect_self]; rfl
          other := fun j hj => Function.update_of_ne hj _ _ }
      refine hopened.accounts hdis (by rw [hctx]; rfl) ?_
      have hnew : (s.reconnect k true).mConnections =
          Function.update (s.disconnect k).mConnections k
            (((s.disconnect k).mConnections k).reconnected (s.disconnect k).nextConn) := rfl
      have hperm := held_update (List.nodup_finRange n) (List.mem_finRange k) hnew
      rw [hctx] at hperm
      exact (List.append_nil _ ▸ hperm).trans (List.perm_append_singleton _ _)
  | false =>
      have hfailed : Failed (s.disconnect k) (s.reconnect k false) := ⟨rfl, rfl, fun _ => rfl⟩
      exact hfailed.accounts hdis rfl

/-! ## `InitializeConnections` -/

/-- The contexts before `i` have their connections, the others have no handle yet. -/
structure Opening (i : Nat) (s : Server n) : Prop where
  accounts : ∃ ks : List (Fin n), ks.Nodup ∧ (∀ k, k ∈ ks ↔ k.val < i) ∧ Accounts ks s
  rest : ∀ k : Fin n, i ≤ k.val → (s.mConnections k).mPollData = none

theorem opening_empty (mPingStr : Option Bytes) : Opening 0 (empty (n := n) mPingStr) where
  accounts := by
    refine ⟨[], List.nodup_nil, fun k => ?_, rfl, balanced_nil, fun _ => .none⟩
    simp
  rest _ _ := rfl

theorem Opening.initConnection {i : Nat} (h : Opening i s) (hi : i < n) :
    Opening (i + 1) (s.initConnection ⟨i, hi⟩) := by
  obtain ⟨ks, hnodup, hmem, hs⟩ := h.accounts
  have hother : ∀ j, j ≠ (⟨i, hi⟩ : Fin n) →
      (s.initConnection ⟨i, hi⟩).mConnections j = s.mConnections j :=
    fun j hj => Function.update_of_ne hj _ _
  have hself : (s.initConnection ⟨i, hi⟩).mConnections ⟨i, hi⟩ =
      { s.mConnections ⟨i, hi⟩ with
        mConn := some s.nextConn, mPollData := some { sock := s.nextConn } } :=
    Function.update_self ..
  have hnew : (⟨i, hi⟩ : Fin n) ∉ ks := fun hk => Nat.lt_irrefl i ((hmem _).1 hk)
  refine ⟨⟨⟨i, hi⟩ :: ks, List.nodup_cons.2 ⟨hnew, hnodup⟩, fun k => ?_, ?_⟩, fun k hk => ?_⟩
  · rw [List.mem_cons, hmem, Fin.ext_iff]
    exact (Nat.lt_succ_iff_lt_or_eq.trans Or.comm).symm
  · have hopened : Opened ⟨i, hi⟩ s (s.initConnection ⟨i, hi⟩) :=
      ⟨rfl, rfl, by rw [hself]; rfl, hother⟩
    refine hopened.accounts hs (h.rest _ (Nat.le_refl i)) ?_
    have htail : (s.initConnection ⟨i, hi⟩).held ks = s.held ks :=
      List.filterMap_congr fun j hj => by rw [hother j (ne_of_mem_of_not_mem hj hnew)]
    have hhead : ((s.initConnection ⟨i, hi⟩).mConnections ⟨i, hi⟩).mConn = some s.nextConn := by
      rw [hself]
    have hcons : (s.initConnection ⟨i, hi⟩).held (⟨i, hi⟩ :: ks) =
        s.nextConn :: (s.initConnection ⟨i, hi⟩).held ks := List.filterMap_cons_some hhead
    rw [hcons, htail]
  · rw [hother k fun hki => absurd (congrArg Fin.val hki) (Nat.ne_of_gt hk)]
    exact h.rest k (Nat.le_of_succ_le hk)

theorem Opening.initFailed {i : Nat} (h : Opening i s) (hi : i < n) :
    Opening i (s.initFailed ⟨i, hi⟩) := by
  obtain ⟨ks, hnodup, hmem, hs⟩ := h.accounts
  have hnew : (⟨i, hi⟩ : Fin n) ∉ ks := fun hk => Nat.lt_irrefl i ((hmem _).1 hk)
  have hpoll : ∀ j, ((s.initFailed ⟨i, hi⟩).mConnections j).mPollData =
      (s.mConnections j).mPollData := by
    intro j
    change (Function.update s.mConnections ⟨i, hi⟩ _ j).mPollData = _
    by_cases hj : j = ⟨i, hi⟩
    · rw [hj, Function.update_self]
      rfl
    · rw [Function.update_of_ne hj]
  refine ⟨⟨ks, hnodup, hmem, ?_⟩, fun k hk => (hpoll k).trans (h.rest k hk)⟩
  have hfailed : Failed s (s.initFailed ⟨i, hi⟩) := ⟨rfl, rfl, hpoll⟩
  refine hfailed.accounts hs (List.filterMap_congr fun j hj => ?_)
  -- the context that keeps the finished connection is none of those
  change (Function.update s.mConnections ⟨i, hi⟩ _ j).mConn = _
  rw [Function.update_of_ne (ne_of_mem_of_not_mem hj hnew)]

theorem accounts_loop {env : AuthEnv} (h : (env.loop n).init s) :
    Accounts (List.finRange n) s := by
  obtain ⟨mPingStr, attempts, hinit⟩ := h
  have hopening : Opening n s :=
    initializeFrom_rule (fun _ hi _ h => h.initConnection hi) (fun _ hi _ h => h.initFailed hi)
      (opening_empty mPingStr) (Nat.zero_le n) hinit
  obtain ⟨ks, hnodup, hmem, hs⟩ := hopening.accounts
  have hks : ks.Perm (List.finRange n) :=
    (List.perm_ext_iff_of_nodup hnodup (List.nodup_finRange n)).2 fun k =>
      ⟨fun _ => List.mem_finRange k, fun _ => (hmem k).2 k.isLt⟩
  exact { hs with conns := hs.conns.move (hks.symm.filterMap _) }

/-! ## Runs -/

theorem accounts_kept (env : AuthEnv) (C : Conds n) :
    Kept env C PoolWf (Accounts (List.finRange n)) where
  connect s accepted _ h := by
    refine h.of_samePool (connect_frame s accepted).1 ((connect_adds s accepted).mono ?_)
    intro e he hpool
    cases he <;> cases hpool
  read s st nread buf writable _ h _ _ := by
    have hread := httpRead_cases env s st nread buf writable
    generalize s.httpRead env st nread buf writable = s' at hread ⊢
    have hplain : ∀ e, ReadEvent s st e → ¬PoolEvent e := by
      intro e he hpool
      cases he with
      | stream he => cases he <;> cases hpool
      | nullString => cases hpool
      | pathOverflow => cases hpool
    cases hread with
    | plain _ hread => exact h.of_samePool hread.pool (hread.adds.mono hplain)
    | create data es hes =>
        exact h.of_samePool ⟨rfl, rfl, rfl, rfl⟩ ⟨es, rfl, fun e he => hplain e (hes e he)⟩
  poll s k status consumed busy hwf h hk _ := by
    have hp := pollCallback_cases status consumed busy hk (hwf.pollData k)
    refine h.of_same (.of_adds hp.frame.2.2 (hp.adds.mono ?_)) hp.handles
    intro e he hpool
    rcases he with rfl | ⟨-, ⟨rfl, -⟩ | ⟨st, -, he⟩⟩
    · cases hpool
    · cases hpool
    · cases he <;> cases hpool
  reconnect s k connected _ h _ := h.reconnect k connected
  resume s co r _ h _ _ := by
    have hr := resume_cases s co r
    refine h.of_same (.of_adds hr.frame.nextConn (hr.adds.mono ?_)) hr.handles.2
    intro e he hpool
    rcases he with he | ⟨k, c, -, he⟩
    · cases he <;> cases hpool
    · cases he <;> cases hpool
  cleanup s _ h := by
    have hclose := closeDead_closes s.mUntrackedCoroutines s
    refine h.of_samePool ⟨hclose.pool.mPingStr, hclose.pool.mConnections, hclose.pool.conns,
      hclose.pool.nextConn⟩ (hclose.adds.mono ?_)
    intro e he hpool
    obtain ⟨co, -, -, he⟩ := he
    cases he <;> cases hpool
  closeCb s st _ h _ := h.of_samePool ⟨rfl, rfl, rfl, rfl⟩ .refl

theorem accounts_reachable {env : AuthEnv} (hs : (env.loop n).Reachable s) :
    PoolWf s ∧ Accounts (List.finRange n) s :=
  ((poolWf_kept env .none).and (accounts_kept env .none)).reachable
    (fun _ hinit => ⟨(initFrom_loop hinit).poolWf, accounts_loop hinit⟩) hs

/-! ## The shutdown -/

theorem gaveUp_shutdownConnection (s : Server n) (k : Fin n) :
    GaveUp k s (s.shutdownConnection k) ∧
      ∀ j, ((s.shutdownConnection k).mConnections j).mConn = (s.mConnections j).mConn := by
  have hctx : (s.shutdownConnection k).mConnections =
      Function.update s.mConnections k { s.mConnections k with mPollData := none } := by
    unfold shutdownConnection
    dsimp only
    split <;> rfl
  refine ⟨⟨?_, ?_, ?_, ?_⟩, fun j => ?_⟩
  · unfold shutdownConnection
    dsimp only
    split <;> rfl
  · unfold shutdownConnection
    dsimp only
    cases (s.mConnections k).mConn <;> rfl
  · rw [hctx, Function.update_self]
  · intro j hj
    rw [hctx, Function.update_of_ne hj]
  · rw [hctx]
    by_cases hj : j = k
    · rw [hj, Function.update_self]
    · rw [Function.update_of_ne hj]

/-- The loop of the shutdown, from the first of the contexts `ks` on. -/
theorem Accounts.shutdown (h : Accounts ks s)
    (hrest : ∀ k, k ∉ ks → (s.mConnections k).mPollData = none) :
    Accounts [] (ks.foldl shutdownConnection s) ∧
      ∀ k, ((ks.foldl shutdownConnection s).mConnections k).mPollData = none := by
  induction ks generalizing s with
  | nil => exact ⟨h, fun k => hrest k List.not_mem_nil⟩
  | cons k ks ih =>
      obtain ⟨hgave, hconn⟩ := gaveUp_shutdownConnection s k
      rw [List.foldl_cons]
      refine ih (hgave.accounts h ?_) fun j hj => ?_
      · have htail : (s.shutdownConnection k).held ks = s.held ks :=
          List.filterMap_congr fun j _ => hconn j
        rw [htail, held, filterMap_cons_toList]
        exact List.Perm.refl _
      · by_cases hjk : j = k
        · rw [hjk]
          exact hgave.poll
        · rw [hgave.other j hjk]
          exact hrest j fun hmem => (List.mem_cons.1 hmem).elim hjk hj

theorem Accounts.shutdownConnections (h : Accounts (List.finRange n) s) :
    Accounts [] s.shutdownConnections ∧
      ∀ k, (s.shutdownConnections.mConnections k).mPollData = none :=
  h.shutdown fun k hk => absurd (List.mem_finRange k) hk

theorem Accounts.connects_nodup (h : Accounts ks s) : s.connects.Nodup := by
  rw [h.connects]
  exact List.nodup_reverse.2 List.nodup_range

theorem PoolWf.phase_iff (h : PoolWf s) (k : Fin n) :
    ((s.mConnections k).mReconnectPhase = true ↔ (s.mConnections k).mConn = none) ∧
      ((s.mConnections k).mConn = none ↔ (s.mConnections k).mPollData = none) := by
  refine ⟨by rw [h.phase k, Option.isNone_iff_eq_none], fun hnone => ?_, fun hnone => ?_⟩
  · cases hp : (s.mConnections k).mPollData with
    | none => rfl
    | some p =>
        have hconn := h.pollSock k p hp
        rw [hnone] at hconn
        cases hconn
  · cases hc : (s.mConnections k).mConn with
    | none => rfl
    | some c =>
        have hsome := h.pollSome k (by rw [hc]; rfl)
        rw [hnone] at hsome
        cases hsome

/-- A context without a connection restarts the pass, also when the database answers the ping. -/
theorem restarts_of_phase (h : PoolWf s) (hping : s.mPingStr.isSome = true) {k : Fin n}
    (hk : (s.mConnections k).mReconnectPhase = true) (pingOk : Bool) (status : Fin n → Bool) :
    s.restarts pingOk status = true := by
  have hbad : (List.finRange n).any
      (fun k => (s.mConnections k).mConn.isNone || !status k) = true := by
    refine List.any_eq_true.2 ⟨k, List.mem_finRange k, ?_⟩
    rw [← h.phase k, hk, Bool.true_or]
  rw [restarts, hping, hbad, Bool.or_true, Bool.and_self]

/-- **Connections and handles.** Between two callbacks a context is in its reconnect phase exactly
when it has no connection and no handle, and the next check then connects from the first context on.
No connection is finished twice; after the shutdown every connection is finished and every handle
closed, once. -/
theorem accounting {env : AuthEnv} (hs : (env.loop n).Reachable s) :
    (∀ k, ((s.mConnections k).mReconnectPhase = true ↔ (s.mConnections k).mConn = none) ∧
      ((s.mConnections k).mConn = none ↔ (s.mConnections k).mPollData = none)) ∧
    s.finishes.Nodup ∧
    s.shutdownConnections.connects.Nodup ∧
    s.shutdownConnections.finishes.Perm s.shutdownConnections.connects ∧
    (∀ k, Handles false (s.shutdownConnections.pollUses k)) ∧
    ∀ status connected k, s.mPingStr.isSome = true → (s.mConnections k).mReconnectPhase = true →
      s.checkConnections true status connected =
        reconnectAll connected (List.finRange n) s := by
  obtain ⟨hwf, haccounts⟩ := accounts_reachable hs
  obtain ⟨hend, hclosed⟩ := haccounts.shutdownConnections
  refine ⟨hwf.phase_iff, haccounts.conns.released_nodup List.nodup_range, hend.connects_nodup, ?_,
    fun k => ?_, fun status connected k hping hk => ?_⟩
  · rw [hend.connects]
    exact hend.conns.released_perm.trans (List.reverse_perm _).symm
  · have hk := hend.polls k
    rwa [hclosed k] at hk
  · rw [checkConnections, if_pos (restarts_of_phase hwf hping hk true status)]

/-- The second context fails in the first restart, the first one in the second. -/
def halfConnected : Server 2 :=
  let s := ((empty (some (bytes "host=localhost port=5432"))).initConnection 0).initConnection 1
  let s := s.checkConnections false (fun _ => true) fun k => k == 0
  s.checkConnections true (fun _ => true) fun k => k == 1

theorem halfConnected_reachable : (directLoginEnv.loop 2).Reachable halfConnected := by
  have hinit : (directLoginEnv.loop 2).Reachable
      (((empty (some (bytes "host=localhost port=5432"))).initConnection 0).initConnection 1) :=
    .init ⟨some (bytes "host=localhost port=5432"), [true, true], rfl⟩
  exact (hinit.step (i := .dbTimer false (fun _ => true) fun k => k == 0) trivial rfl).step
    (i := .dbTimer true (fun _ => true) fun k => k == 1) trivial rfl

theorem accounting_halfConnected :
    halfConnected.shutdownConnections.finishes = [4, 2, 3, 1, 0] ∧
      halfConnected.shutdownConnections.finishes.Perm
        halfConnected.shutdownConnections.connects ∧
      ∀ connected, halfConnected.checkConnections true (fun _ => true) connected =
        reconnectAll connected (List.finRange 2) halfConnected := by
  obtain ⟨-, -, -, hperm, -, hrestart⟩ := accounting halfConnected_reachable
  exact ⟨by decide, hperm, fun connected => hrestart _ connected 0 rfl rfl⟩

end Server

end ServerBase
