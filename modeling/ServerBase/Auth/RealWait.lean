import ServerBase.Auth.Idle
import ServerBase.Auth.Said
import ServerBase.Lib.History

/-!
# Real waits

`start_poll_and_yield_until_polldata` waits for a flag of the context. The flag is cleared when the
context is taken, not when a query is sent, so it says that polling has ended since the first query
of the context.

**The invariant** (`RealWaits`). Every wait that is over was ended by a poll since the last query,
and so is every wait that could end now.

**The result** (`polling_wait_is_real`) holds in the runs without the second query of a coroutine,
the update of `last_login`; the wait behind that ends before anything was polled (`unreal_wait`).
-/

namespace ServerBase

open History

variable {n : Nat}

/-- `Poll_Callback` ended polling on `k`. -/
def Event.isPolled (k : Fin n) : Event n → Bool
  | .polled j => j = k
  | _ => false

/-- Polling on `k` has ended since the last query was sent on it. -/
def PolledSince (k : Fin n) (before : List (Event n)) : Bool :=
  Since (Event.isPolled k) (Event.isSent k) before

/-- If the event is the end of a wait, polling has ended since the query. -/
def RealWait (e : Event n) (before : List (Event n)) : Prop :=
  ∀ k, e = .waitOver k → PolledSince k before = true

theorem polledSince_words (k : Fin n) (es : List (Event n)) :
    PolledSince k (words es) = PolledSince k es := by
  apply since_filter
  · intro e he
    cases e <;> first | rfl | cases he
  · intro e he
    cases e <;> first | rfl | cases he

namespace Server

structure RealWaits (s : Server n) : Prop where
  each : AtEach RealWait s.said
  ended : ∀ co k c, (s.coros co).point = .waitPoll k c →
    (s.mConnections k).donePollingData = true → PolledSince k s.said = true

/-- No login sends its update. -/
abbrev skipsUpdate : Conds n where
  onResume s co r := ∀ kc ∈ s.resultsFrom co, ¬ s.SendsUpdate co r

/-- The words are replies. -/
def OnlyReplies (ws : List (Event n)) : Prop := ∀ e ∈ ws, ∃ st reply, e = .reply st reply

section
variable {s s' : Server n} {co : CoroId} {r : Readings n} {k : Fin n} {c : ConnId}
  {ws : List (Event n)}

theorem onlyReplies_replyWords (reply : Reply) : OnlyReplies (s.replyWords co r reply) :=
  fun _ he => ⟨_, _, mem_replyWords he⟩

theorem onlyReplies_resultWords
    (hupdate : ¬ s.SendsUpdate co r) : OnlyReplies (s.resultWords co r k c) := by
  unfold resultWords
  cases hdata : (s.coros co).data with
  | register data => exact onlyReplies_replyWords _
  | login data =>
      dsimp only
      cases hresults : loginResults UINT_MAX r.results with
      | none => exact onlyReplies_replyWords _
      | some userId =>
          dsimp only
          unfold loginWords
          split
          · next hw =>
            split
            · next hu =>
              have hsent : ¬ r.updateSent = true := by
                intro hsent
                exact hupdate ⟨by rw [hdata]; rfl, ⟨userId, hresults, hu⟩, hw, hsent⟩
              rw [updateWords, if_neg hsent, List.nil_append]
              split
              · exact onlyReplies_replyWords _
              · exact fun e he => by cases he
            · exact onlyReplies_replyWords _
          · exact fun e he => by cases he

/-- Replies are no ends of waits, and no query or end of polling. -/
theorem OnlyReplies.realWaits (hws : OnlyReplies ws) {before : List (Event n)}
    (h : AtEach RealWait before) : AtEach RealWait (ws ++ before) := by
  refine .append ?_ h
  intro e he before' k hk
  obtain ⟨st, reply, rfl⟩ := hws e he
  cases hk

theorem OnlyReplies.polledSince (hws : OnlyReplies ws) (k : Fin n) (before : List (Event n)) :
    PolledSince k (ws ++ before) = PolledSince k before := by
  apply since_append
  · intro e he
    obtain ⟨st, reply, rfl⟩ := hws e he
    rfl
  · intro e he
    obtain ⟨st, reply, rfl⟩ := hws e he
    rfl

namespace RealWaits

/-- The same contexts wait with the same flags, or with fewer, and the words are replies. -/
theorem of_same (h : RealWaits s) (ws : List (Event n)) (hsaid : s'.said = ws ++ s.said)
    (hws : OnlyReplies ws)
    (hwait : ∀ co k c, (s'.coros co).point = .waitPoll k c →
      (s'.mConnections k).donePollingData = true →
        (s.coros co).point = .waitPoll k c ∧ (s.mConnections k).donePollingData = true) :
    RealWaits s' where
  each := by
    rw [hsaid]
    exact hws.realWaits h.each
  ended co k c hw hdone := by
    obtain ⟨hw, hdone⟩ := hwait co k c hw hdone
    rw [hsaid, hws.polledSince]
    exact h.ended co k c hw hdone

/-- The end of a wait, and replies behind it. -/
theorem finish (h : RealWaits s) (hw : (s.coros co).point = .waitPoll k c)
    (hdone : (s.mConnections k).donePollingData = true) (hws : OnlyReplies ws)
    (hsaid : s'.said = ws ++ [.waitOver k] ++ s.said)
    (hwait : ∀ co' j d, (s'.coros co').point = .waitPoll j d →
      (s'.mConnections j).donePollingData = true →
        (s.coros co').point = .waitPoll j d ∧ (s.mConnections j).donePollingData = true) :
    RealWaits s' where
  each := by
    rw [hsaid, List.append_assoc]
    refine hws.realWaits ⟨?_, h.each⟩
    intro j hj
    rw [← Event.waitOver.inj hj]
    exact h.ended co k c hw hdone
  ended co' j d hw' hdone' := by
    obtain ⟨hw', hdone'⟩ := hwait co' j d hw' hdone'
    rw [hsaid, List.append_assoc, hws.polledSince]
    exact h.ended co' j d hw' hdone'

theorem resumed (hs : Sound s) (hs' : Sound s') (h : RealWaits s)
    (hC : Conds.onResume skipsUpdate s co r) (hr : Resumed s co r s') (hsay : Speaks s co r s') :
    RealWaits s' := by
  -- a wait that can end was there before: a context that was just taken has its flags cleared
  have hwait : ∀ co' j d, (s'.coros co').point = .waitPoll j d →
      (s'.mConnections j).donePollingData = true →
        (s.coros co').point = .waitPoll j d ∧ (s.mConnections j).donePollingData = true := by
    intro co' j d hw hdone
    rcases hr.waiter hs hw with ⟨hw, hctx⟩ | ⟨-, -, hctx⟩ <;> rw [hctx] at hdone
    · exact ⟨hw, hdone⟩
    · cases hdone
  obtain ⟨ws, hsaid, heq⟩ := hsay
  have hnil : OnlyReplies ([] : List (Event n)) := fun e he => by cases he
  generalize hp : (s'.coros co).point = p at hsaid
  cases hsaid with
  | idle => exact h.of_same _ heq hnil hwait
  | gone => exact h.of_same _ heq hnil hwait
  | aborted => exact h.of_same _ heq (onlyReplies_replyWords _) hwait
  | waits => exact h.of_same _ heq hnil hwait
  | refused => exact h.of_same _ heq (onlyReplies_replyWords _) hwait
  | asked k c hholds =>
      refine ⟨?_, ?_⟩
      · rw [heq]
        exact ⟨(fun j hj => by cases hj), h.each⟩
      · intro co' j d hw hdone
        obtain ⟨hw', hdone'⟩ := hwait co' j d hw hdone
        have hj : k ≠ j := by
          rintro rfl
          rw [hs'.2.leased.unique co' co k d c hw hp] at hw'
          rw [hw'] at hholds
          cases hholds
        rw [heq]
        exact (since_cons_of_other rfl (by simpa [Event.isSent] using hj)).trans
          (h.ended co' j d hw' hdone')
  | finished k c hpoint hdone =>
      refine h.finish hpoint hdone ?_ heq hwait
      split
      · exact onlyReplies_replyWords _
      · next hterm =>
        exact onlyReplies_resultWords (hC _ (mem_resultsFrom hpoint hdone (by simpa using hterm)))
  | updated k c hpoint => exact absurd hpoint (hs.2.tracked.noUpdate co k c)

theorem polled (h : RealWaits s) {status : Int} {consumed : Bool}
    (hp : Polled s k status consumed s') : RealWaits s' := by
  have hcoros := hp.frame.1.coros
  rcases hp.said with ⟨hsaid, hctx⟩ | hsaid
  · refine h.of_same [] hsaid (fun e he => by cases he) ?_
    intro co j c hw hdone
    rw [hcoros] at hw
    rw [hctx] at hdone
    exact ⟨hw, hdone⟩
  · refine ⟨?_, ?_⟩
    · rw [hsaid]
      exact ⟨(fun j hj => by cases hj), h.each⟩
    · intro co j c hw hdone
      rw [hsaid]
      by_cases hj : k = j
      · exact since_cons_of_seen (by simpa [Event.isPolled] using hj)
      · obtain ⟨x, hctx, -⟩ := hp.ctx
        rw [hctx, Function.update_of_ne (Ne.symm hj)] at hdone
        rw [hcoros] at hw
        exact (since_cons_of_other (by simpa [Event.isPolled] using hj) rfl).trans
          (h.ended co j c hw hdone)

/-- The reconnect loop ends no wait. -/
theorem reconnect (h : RealWaits s) (k : Fin n) (connected : Bool) :
    RealWaits (s.reconnect k connected) := by
  refine h.of_same [] (said_reconnect s k connected) (fun e he => by cases he) ?_
  intro co j c hw hdone
  rw [(reconnect_frame s k connected).1.coros] at hw
  refine ⟨hw, ?_⟩
  by_cases hj : j = k
  · subst hj
    rw [reconnect_self] at hdone
    cases connected with
    | true => cases hdone
    | false => exact hdone
  · rwa [reconnect_other s k connected hj] at hdone

theorem of_pool (h : RealWaits s) (ws : List (Event n)) (hsaid : s'.said = ws ++ s.said)
    (hws : OnlyReplies ws) (hc : s'.coros = s.coros) (hctx : s'.mConnections = s.mConnections) :
    RealWaits s' :=
  h.of_same ws hsaid hws fun co k c hw hdone => by
    rw [hc] at hw
    rw [hctx] at hdone
    exact ⟨hw, hdone⟩

theorem kept (env : AuthEnv) : Kept env (skipsUpdate (n := n)) Sound RealWaits where
  connect s accepted _ h :=
    h.of_pool [] (said_connect s accepted) (fun e he => by cases he)
      (connect_frame s accepted).2.coros (connect_frame s accepted).1.mConnections
  read s st nread buf writable hs h _ _ := by
    obtain ⟨ws, hsaid, hws⟩ := @runActions_said _ (s.useStream st) st writable
      (httpOnRead env.http authSettings nread buf)
    have hreplies : OnlyReplies ws := by
      intro e he
      obtain ⟨reply, he, -⟩ := hws e he
      exact ⟨st, reply, he⟩
    have hread := httpRead_cases env s st nread buf writable
    have hsaid' : (s.httpRead env st nread buf writable).said = ws ++ s.said := hsaid
    generalize s.httpRead env st nread buf writable = s' at hread hsaid' ⊢
    cases hread with
    | plain _ hplain =>
        exact h.of_pool ws hsaid' hreplies hplain.coros.coros hplain.pool.mConnections
    | create data es hes =>
        refine h.of_same ws hsaid' hreplies ?_
        intro co k c hw hdone
        have hco : co ≠ s.nextCoro := by
          rintro rfl
          rw [coros_created_self] at hw
          cases hw
        rw [coros_created_other hco] at hw
        exact ⟨hw, hdone⟩
  poll s k status consumed busy hs h hk _ :=
    h.polled (pollCallback_cases status consumed busy hk (hs.1.pollData k))
  reconnect s k connected _ h _ := h.reconnect k connected
  resume s co r hs h hco hC :=
    h.resumed hs ((sound_kept env skipsUpdate).resume s co r trivial hs hco hC) hC
      (resume_cases s co r) (resume_said s co r)
  cleanup s _ h := by
    have hclose := closeDead_closes s.mUntrackedCoroutines s
    exact h.of_pool [] (said_cleanup s) (fun e he => by cases he) hclose.coros.coros
      hclose.pool.mConnections
  closeCb s st _ h _ := h.of_pool [] rfl (fun e he => by cases he) rfl rfl

end RealWaits

end

theorem InitFrom.realWaits {s : Server n} (h : InitFrom n s) : RealWaits s where
  each := by
    rw [h.said]
    trivial
  ended co k c hw := by
    rw [h.coros] at hw
    cases hw

/-- **A polling wait is a real wait.** In the runs in which no login sends its update, whenever
`start_poll_and_yield_until_polldata` has returned, `Poll_Callback` had ended polling since the
last query on the context; and so it is whenever a waiting coroutine could go on to its
results. -/
theorem polling_wait_is_real (env : AuthEnv) {s : Server n}
    (hs : (env.loop n).Run (Conds.holds skipsUpdate) s) :
    (∀ after before k, s.trace = after ++ .waitOver k :: before → PolledSince k before = true) ∧
      ∀ co k c, ((s.coros co).point = .waitPoll k c ∨ (s.coros co).point = .waitUpdate k c) →
        (s.mConnections k).donePollingData = true → PolledSince k s.trace = true := by
  obtain ⟨hsound, hwaits⟩ := ((sound_kept env skipsUpdate).and (RealWaits.kept env)).run
    (fun _ hinit => ⟨sound_loop hinit, (initFrom_loop hinit).realWaits⟩) hs
  constructor
  · intro after before k htrace
    have heach : AtEach RealWait s.trace := by
      refine hwaits.each.of_filter ?_ ?_
      · intro e es _ he j hj
        exact (polledSince_words j es).symm.trans (he j hj)
      · rintro e es he j rfl
        cases he
    rw [htrace] at heach
    exact heach.at k rfl
  · intro co k c hw hdone
    rcases hw with hw | hw
    · exact (polledSince_words k s.trace).symm.trans (hwaits.ended co k c hw hdone)
    · exact absurd hw (hsound.2.tracked.noUpdate co k c)

/-- A login that finds no row. -/
theorem polling_wait_is_real_login :
    ∃ s : Server 1, ∃ after before, s.trace = after ++ .waitOver 0 :: before ∧
      PolledSince 0 before = true := by
  obtain ⟨s, -, hs, hq⟩ := Machine.exists_run_of_replay (directLoginEnv.loop 1)
    (Conds.holds skipsUpdate)
    [.connect true, directLoginRead 0, .coTimer fun _ => {}, resultsReady,
      .coTimer fun _ => { results := [.tuplesOk []] }]
    (fun s => s.trace.any fun e => e matches .waitOver 0) (oneConnection_init _)
    (by decide +kernel)
  obtain ⟨e, he, hover⟩ := List.any_eq_true.1 hq
  split at hover
  · obtain ⟨after, before, htrace⟩ := List.append_of_mem he
    exact ⟨s, after, before, htrace, (polling_wait_is_real directLoginEnv hs).1 _ _ 0 htrace⟩
  · cases hover

/-- A login that finds its user, and sends the update. -/
def loginFindsUser : List (Input 1) :=
  [.connect true, directLoginRead 0, .coTimer fun _ => {}, resultsReady,
    .coTimer fun _ => { results := [.tuplesOk [7]] }]

/-- **A wait that is over at once.** The wait for the update returns while the flag of the first
query is set; the socket was not polled since the update was sent. -/
theorem unreal_wait :
    ∃ s : Server 1, (directLoginEnv.loop 1).replay oneConnection loginFindsUser = some s ∧
      (directLoginEnv.loop 1).Reachable s ∧
      ∃ after before, s.trace = after ++ .waitOver 0 :: before ∧
        PolledSince 0 before = false := by
  obtain ⟨s, hreplay, hs, hq⟩ := Machine.exists_run_of_replay (directLoginEnv.loop 1)
    Machine.anyStep loginFindsUser
    (fun s => s.trace.tails.any fun es =>
      es.head?.any (fun e => e matches .waitOver 0) && !PolledSince 0 es.tail)
    (oneConnection_init _) (by decide +kernel)
  obtain ⟨es, hes, hunreal⟩ := List.any_eq_true.1 hq
  rw [Bool.and_eq_true, Bool.not_eq_true'] at hunreal
  obtain ⟨e, he, hover⟩ := (Option.any_eq_true _ _).1 hunreal.1
  split at hover
  · obtain ⟨after, hafter⟩ := (List.mem_tails es s.trace).1 hes
    refine ⟨s, hreplay, hs, after, es.tail, ?_, hunreal.2⟩
    rw [List.cons_head?_tail he, hafter]
  · cases hover

end Server

end ServerBase
