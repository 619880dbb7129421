import ServerBase.Auth.Waiting
import ServerBase.Disposition

/-!
# What a coroutine says

`resume_cases` says which contexts a resume takes and gives back. Here is the other half: the
replies it sends, the queries it sends, and the waits it gets through, exactly and in order.

**Words.** Of the trace only replies, queries, and the ends of polling and of waits are kept
(`words`), newest first.

**The cases** (`resume_said`). A resume ends the coroutine with what its exit path says, or it
suspends it, silent but for the query.

**The replies** of a coroutine are of four kinds (`CoroReply`). They go to its client and carry the
id of its request.

**The other moves** say nothing, but for the replies of a read and the poll callback that ends
polling.
-/

namespace ServerBase

variable {n : Nat}

/-- A reply, a query that was sent, the end of polling, or the end of a wait. -/
def Event.isWord : Event n → Bool
  | .reply _ _ => true
  | .sent _ _ _ => true
  | .polled _ => true
  | .waitOver _ => true
  | _ => false

/-- A JSON-RPC response or error to the stream. -/
def Event.isReplyTo (st : StreamId) : Event n → Bool
  | .reply st' _ => st' = st
  | _ => false

/-- A query was sent on `k`. -/
def Event.isSent (k : Fin n) : Event n → Bool
  | .sent j _ _ => j = k
  | _ => false

def words (es : List (Event n)) : List (Event n) := es.filter Event.isWord

@[simp] theorem words_nil : words ([] : List (Event n)) = [] := rfl

@[simp] theorem words_append (es es' : List (Event n)) :
    words (es ++ es') = words es ++ words es' :=
  List.filter_append es es'

namespace Server

def said (s : Server n) : List (Event n) := words s.trace

@[simp] theorem said_log (s : Server n) (es : List (Event n)) :
    (s.log es).said = words es ++ s.said :=
  words_append es s.trace

/-- What a reply of `co` says: nothing when its client is not writable. -/
def replyWords (s : Server n) (co : CoroId) (r : Readings n) (reply : Reply) : List (Event n) :=
  if s.uvIsWritable (s.coros co).mStream r.writable then [.reply (s.coros co).mStream reply] else []

/-- An error reply of `co`. -/
def errorWords (s : Server n) (co : CoroId) (r : Readings n) (message : String) :
    List (Event n) :=
  s.replyWords co r (.error kJsonRpcServerError message (some (s.coros co).data.mId))

theorem words_replyEvents (s : Server n) (co : CoroId) (r : Readings n) (reply : Reply) :
    words (s.replyEvents (s.coros co).mStream r.writable reply) = s.replyWords co r reply := by
  unfold replyEvents replyWords
  split <;> rfl

/-- What the update of `last_login` says when its wait is over at once. -/
def updateWords (r : Readings n) (k : Fin n) (c : ConnId) (userId : UInt32) : List (Event n) :=
  if r.updateSent then [.waitOver k, .sent k c (updateQuery userId)] else []

/-- What a login says that has read the user `userId` from its results. -/
def loginWords (s : Server n) (co : CoroId) (r : Readings n) (k : Fin n) (c : ConnId)
    (userId : UInt32) : List (Event n) :=
  if s.uvIsWritable (s.coros co).mStream r.writable then
    if userId < UINT_MAX then
      updateWords r k c userId ++
        match r.signedJWT userId with
        | some token =>
            s.replyWords co r (.response (some (s.coros co).data.mId) (tokenResult token))
        | none => []
    else
      s.replyWords co r
        (.error kJsonRpcInvalidParams "Login failed" (some (s.coros co).data.mId))
  else []

/-- What a coroutine says behind the wait for its query, when polling was not terminated. -/
def resultWords (s : Server n) (co : CoroId) (r : Readings n) (k : Fin n) (c : ConnId) :
    List (Event n) :=
  match (s.coros co).data with
  | .login _ =>
      match loginResults UINT_MAX r.results with
      | none => s.errorWords co r "DB Async query failed"
      | some userId => s.loginWords co r k c userId
  | .register _ =>
      s.replyWords co r
        (registerReply (s.coros co).data.mId (registerResults kDbNoMatch r.results))

/-! ## Endings -/

/-- The coroutine ends in `s'`, and has said `ws` behind `es`. -/
def EndsSaying (s : Server n) (co : CoroId) (es ws : List (Event n)) (s' : Server n) : Prop :=
  s'.said = ws ++ words es ++ s.said ∧ (s'.coros co).point = .dead

section
variable {s : Server n} {co : CoroId} {r : Readings n} {k : Fin n} {c : ConnId}
  {x : DBConnectionCtx n} {b : Bool} {es ws : List (Event n)}

/-- Silent events are as good as none. -/
theorem EndsSaying.silent {e : Event n} {s' : Server n} (he : e.isWord = false)
    (h : EndsSaying s co (e :: es) ws s') : EndsSaying s co es ws s' := by
  have hwords : words (e :: es) = words es := by simp [words, he]
  rwa [EndsSaying, hwords] at h

/-- A word at the beginning belongs to the ending. -/
theorem EndsSaying.spoken {e : Event n} {s' : Server n} (he : e.isWord = true)
    (h : EndsSaying s co (e :: es) ws s') : EndsSaying s co es (ws ++ [e]) s' := by
  have hwords : words (e :: es) = e :: words es := by simp [words, he]
  obtain ⟨hsaid, hdead⟩ := h
  exact ⟨by simp only [hsaid, hwords, List.append_assoc, List.cons_append, List.nil_append], hdead⟩

theorem EndsSaying.of_words {es' : List (Event n)} {s' : Server n}
    (h : EndsSaying s co (es' ++ es) ws s') : EndsSaying s co es (ws ++ words es') s' := by
  obtain ⟨hsaid, hdead⟩ := h
  exact ⟨by simp only [hsaid, words_append, List.append_assoc], hdead⟩

theorem finish_mid_said :
    EndsSaying s co es [] ((s.mid k c x b es).finish co) := by
  refine ⟨words_append es s.trace, ?_⟩
  show (Function.update s.coros co _ co).point = .dead
  rw [Function.update_self]

theorem release_said :
    EndsSaying s co es [] (((s.mid k c x b es).releaseDBConn co k).finish co) := by
  rw [releaseDBConn_mid]
  exact EndsSaying.silent rfl finish_mid_said

theorem failWith_said (message : String) :
    EndsSaying s co es (s.errorWords co r message)
      ((s.mid k c x b es).failWith co r k message) := by
  rw [failWith, releaseDBConn_mid, coroError, sendReply_eq, mid_log]
  have hend := (@finish_mid_said _ s co k c x.released b
    (s.replyEvents (s.coros co).mStream r.writable
      (.error kJsonRpcServerError message (some (s.coros co).data.mId)) ++
        (.released co k :: es))).of_words.silent rfl
  rw [List.nil_append, words_replyEvents] at hend
  exact hend

theorem updateOver_said :
    EndsSaying s co es (if x.mTerminate then s.errorWords co r "Query failed #3" else [])
      ((s.mid k c x b es).updateOver co r k) := by
  rw [updateOver, mid_ctx]
  split
  · exact failWith_said _
  · exact release_said

theorem updatePolled_said (hconn : x.mConn = (s.mConnections k).mConn) :
    EndsSaying s co es
      ((if x.mTerminate then s.errorWords co r "Query failed #3" else []) ++ [.waitOver k])
      ((s.mid k c x b es).updatePolled co r k c) := by
  rw [updatePolled, mid_log, mid_ctx]
  by_cases h : x.mTerminate = true
  · simp only [if_pos h]
    have hend := (@updateOver_said _ s co r k c x b (.waitOver k :: es)).spoken rfl
    rwa [if_pos h] at hend
  · simp only [if_neg h]
    rw [pqGetResults, if_pos rfl, mid_libpq co hconn, mid_setBusy]
    have hend := (@updateOver_said _ s co r k c x false
      (.libpq co c (s.stale k c) :: .waitOver k :: es)).silent rfl
    rw [if_neg h] at hend
    exact hend.spoken rfl

theorem updateLastLogin_said (userId : UInt32) (hterm : (s.mConnections k).mTerminate = false)
    (hdone : (s.mConnections k).donePollingData = true) :
    EndsSaying s co es (updateWords r k c userId)
      ((s.mid k c (s.mConnections k) false es).updateLastLogin co r k c userId) := by
  rw [updateLastLogin, pqSendQueryParams_mid _ _ rfl, updateWords]
  by_cases hsent : r.updateSent = true
  · simp only [hsent, Bool.not_false, Bool.and_self, if_true]
    have hstart : ¬ ((s.mConnections k).pollStart k).mTerminate = true := by
      rw [show ((s.mConnections k).pollStart k).mTerminate = false from hterm]
      simp
    have hnull : words (if (s.mConnections k).mPollData.isSome then [] else
        [Event.fault (n := n) .nullPollData]) = [] := by split <;> rfl
    have hend := @updatePolled_said _ s co r k c ((s.mConnections k).pollStart k) true
      ((if (s.mConnections k).mPollData.isSome then [] else [.fault .nullPollData]) ++
        .sent k c (updateQuery userId) :: .libpq co c (s.stale k c) :: es) rfl
    rw [if_neg hstart, List.nil_append] at hend
    have hstarted := hend.of_words
    rw [hnull, List.append_nil] at hstarted
    rw [startPoll_mid, mid_ctx,
      if_pos (show ((s.mConnections k).pollStart k).donePollingData = true from hdone)]
    exact (hstarted.spoken rfl).silent rfl
  · rw [Bool.not_eq_true] at hsent
    simp only [hsent, Bool.false_and, Bool.false_eq_true, if_false]
    have hend := @updateOver_said _ s co r k c (s.mConnections k) false
      (.libpq co c (s.stale k c) :: es)
    rw [hterm, if_neg (by simp)] at hend
    exact hend.silent rfl

theorem loginUser_said (userId : UInt32) (hterm : (s.mConnections k).mTerminate = false)
    (hdone : (s.mConnections k).donePollingData = true) :
    EndsSaying s co es (s.loginWords co r k c userId)
      ((s.mid k c (s.mConnections k) false es).loginUser co r k c userId) := by
  rw [loginUser, loginWords]
  simp only [mid_uvIsWritable, mid_coros, mid_useStream]
  by_cases hw : s.uvIsWritable (s.coros co).mStream r.writable = true
  · rw [if_pos hw, if_pos hw]
    by_cases hu : userId < UINT_MAX
    · rw [if_pos hu, if_pos hu]
      cases htoken : r.signedJWT userId with
      | none =>
          rw [List.append_nil]
          exact (updateLastLogin_said userId hterm hdone).silent rfl
      | some token =>
          simp only [sendReply_eq, mid_log]
          have hend := (@updateLastLogin_said _ s co r k c
            (s.replyEvents (s.coros co).mStream r.writable
              (.response (some (s.coros co).data.mId) (tokenResult token)) ++
                .useStream (s.coros co).mStream (s.streams (s.coros co).mStream).freed :: es)
            userId hterm hdone).of_words.silent rfl
          rwa [words_replyEvents] at hend
    · rw [if_neg hu, if_neg hu]
      simp only [sendReply_eq, mid_log]
      have hend := (@release_said _ s co k c (s.mConnections k) false
        (s.replyEvents (s.coros co).mStream r.writable
          (.error kJsonRpcInvalidParams "Login failed" (some (s.coros co).data.mId)) ++
            .useStream (s.coros co).mStream (s.streams (s.coros co).mStream).freed ::
              es)).of_words.silent rfl
      rwa [words_replyEvents, List.nil_append] at hend
  · rw [if_neg hw, if_neg hw]
    exact release_said.silent rfl

theorem registerUser_said (newUserId : Int) :
    EndsSaying s co es (s.replyWords co r (registerReply (s.coros co).data.mId newUserId))
      ((s.mid k c x b es).registerUser co r k newUserId) := by
  rw [registerUser, releaseDBConn_mid]
  simp only [mid_uvIsWritable, mid_coros, mid_useStream]
  by_cases hw : s.uvIsWritable (s.coros co).mStream r.writable = true
  · rw [if_pos hw, sendReply_eq, mid_log]
    have hend := (@finish_mid_said _ s co k c x.released b
      (s.replyEvents (s.coros co).mStream r.writable
        (registerReply (s.coros co).data.mId newUserId) ++
          (.useStream (s.coros co).mStream (s.streams (s.coros co).mStream).freed ::
            .released co k :: es))).of_words.silent rfl
    rw [words_replyEvents, List.nil_append] at hend
    exact hend.silent rfl
  · rw [if_neg hw, replyWords, if_neg hw]
    exact (finish_mid_said.silent rfl).silent rfl

/-- Behind the wait for its query a coroutine ends. -/
theorem queryPolled_said (hdone : (s.mConnections k).donePollingData = true) :
    EndsSaying s co [] ((if (s.mConnections k).mTerminate then s.errorWords co r "Query failed #2"
      else s.resultWords co r k c) ++ [.waitOver k]) (s.queryPolled co r k c) := by
  have hlog : s.log [.waitOver k] =
      s.mid k c (s.mConnections k) (s.conns c).busy [.waitOver k] := by
    conv_lhs => rw [← mid_self s k c]
    simp
  have hlibpq : ∀ {es ws s'}, EndsSaying s co (.libpq co c (s.stale k c) :: es) ws s' →
      EndsSaying s co es ws s' := fun h => h.silent rfl
  rw [queryPolled, hlog]
  simp only [mid_ctx, mid_coros]
  by_cases hterm : (s.mConnections k).mTerminate = true
  · rw [if_pos hterm, if_pos hterm]
    exact (failWith_said _).spoken rfl
  · rw [if_neg hterm, if_neg hterm]
    rw [Bool.not_eq_true] at hterm
    refine EndsSaying.spoken rfl ?_
    rw [resultWords]
    cases hdata : (s.coros co).data with
    | login data =>
        dsimp only
        cases hresults : loginResults UINT_MAX r.results with
        | none =>
            simp only [pqGetResults, Bool.false_eq_true, if_false, mid_libpq co rfl]
            exact hlibpq (hlibpq (failWith_said _))
        | some userId =>
            simp only [pqGetResults, if_true, mid_libpq co rfl, mid_setBusy]
            exact hlibpq (loginUser_said userId hterm hdone)
    | register data =>
        simp only [pqGetResults, if_true, mid_libpq co rfl, mid_setBusy]
        have hend := @registerUser_said _ s co r k c (s.mConnections k) false
          [.libpq co c (s.stale k c), .waitOver k]
          (registerResults kDbNoMatch r.results)
        rw [hdata] at hend
        exact hlibpq hend

end

/-! ## Resumes -/

/-- **What a resume says**, by the point it leaves the coroutine at. -/
inductive Said (s : Server n) (co : CoroId) (r : Readings n) : Point n → List (Event n) → Prop
  /-- The coroutine is dead, or what it waits for is not there. -/
  | idle : ((s.coros co).point = .dead ∨ ∃ k, (s.coros co).point.holds = some k) →
      Said s co r (s.coros co).point []
  | gone : (s.coros co).point = .start → (s.streams (s.coros co).mStream).closing = true →
      Said s co r .dead []
  | aborted : (s.coros co).point.holds = none → (s.coros co).point ≠ .dead →
      Said s co r .dead (s.errorWords co r "Aborted")
  | waits (timeToStopyield : Int) : (s.coros co).point.holds = none →
      (s.coros co).point ≠ .dead → Said s co r (.waitCtx timeToStopyield) []
  | refused : (s.coros co).point.holds = none → (s.coros co).point ≠ .dead →
      Said s co r .dead (s.errorWords co r "Query failed #1")
  | asked (k : Fin n) (c : ConnId) : (s.coros co).point.holds = none →
      (s.coros co).point ≠ .dead →
      Said s co r (.waitPoll k c) [.sent k c (s.coros co).data.query]
  | finished (k : Fin n) (c : ConnId) : (s.coros co).point = .waitPoll k c →
      (s.mConnections k).donePollingData = true →
      Said s co r .dead ((if (s.mConnections k).mTerminate then s.errorWords co r "Query failed #2"
        else s.resultWords co r k c) ++ [.waitOver k])
  | updated (k : Fin n) (c : ConnId) : (s.coros co).point = .waitUpdate k c →
      Said s co r .dead ((if (s.mConnections k).mTerminate then s.errorWords co r "Query failed #3"
        else []) ++ [.waitOver k])

/-- The resume of `co` to `s'` says what one of the cases says. -/
def Speaks (s : Server n) (co : CoroId) (r : Readings n) (s' : Server n) : Prop :=
  ∃ ws, Said s co r (s'.coros co).point ws ∧ s'.said = ws ++ s.said

section
variable {s : Server n} {co : CoroId} {r : Readings n}

theorem EndsSaying.speaks {ws : List (Event n)} {s' : Server n} (h : EndsSaying s co [] ws s')
    (hsaid : Said s co r .dead ws) : Speaks s co r s' := by
  obtain ⟨heq, hdead⟩ := h
  refine ⟨ws, hdead ▸ hsaid, ?_⟩
  rw [heq, words_nil, List.append_nil]

theorem setPoint_point (t : Server n) (p : Point n) : ((t.setPoint co p).coros co).point = p := by
  show (Function.update t.coros co _ co).point = p
  rw [Function.update_self]

theorem UsesClient.words {es : List (Event n)} (h : s.UsesClient co es) : words es = [] := by
  rw [ServerBase.words, List.filter_eq_nil_iff]
  intro e he
  rw [h e he]
  simp [Event.isWord]

theorem sendQuery_said {k : Fin n} {c : ConnId} {es : List (Event n)} (hes : words es = [])
    (hholds : (s.coros co).point.holds = none) (hdead : (s.coros co).point ≠ .dead) :
    Speaks s co r ((s.mid k c ((s.mConnections k).acquired (s.coros co).mStream) (s.conns c).busy
      es).sendQuery co r k c) := by
  have hacq : ((s.mConnections k).acquired (s.coros co).mStream).mConn =
      (s.mConnections k).mConn := rfl
  rw [sendQuery, mid_log, pqSendQueryParams_mid _ _ hacq]
  by_cases hsent : (r.sent && !(s.conns c).busy) = true
  · simp only [mid_coros, if_pos hsent, if_true]
    rw [startPoll_mid, mid_ctx, if_neg (by simp [DBConnectionCtx.donePollingData,
      DBConnectionCtx.pollStart, DBConnectionCtx.acquired, DBConnectionCtx.resetFlags])]
    refine ⟨[.sent k c (s.coros co).data.query], ?_, ?_⟩
    · rw [setPoint_point]
      exact .asked k c hholds hdead
    · have hnull : words (if ((s.mConnections k).acquired (s.coros co).mStream).mPollData.isSome
          then [] else [Event.fault (n := n) .nullPollData]) = [] := by split <;> rfl
      have hbefore : words (.sent k c (s.coros co).data.query :: .libpq co c (s.stale k c) ::
          .obtained co (some k) :: es) = [.sent k c (s.coros co).data.query] := by
        simp [words, Event.isWord, List.filter_cons] at hes ⊢
        exact hes
      show words (_ ++ s.trace) = _
      rw [words_append, words_append, hnull, List.nil_append]
      exact congrArg (· ++ s.said) hbefore
  · simp only [mid_coros, if_neg hsent, Bool.false_eq_true, if_false]
    rw [mid_libpq co hacq]
    have hend := ((@failWith_said _ s co r k c
      ((s.mConnections k).acquired (s.coros co).mStream) (s.conns c).busy
      (.libpq co c (s.stale k c) :: .libpq co c (s.stale k c) ::
        .obtained co (some k) :: (es ++ [])) "Query failed #1").silent rfl).silent rfl
    have hfinal := (hend.silent rfl).of_words
    rw [hes, List.append_nil, List.append_nil] at hfinal
    exact hfinal.speaks (.refused hholds hdead)

theorem noContext_said {es : List (Event n)} (hes : words es = [])
    (hholds : (s.coros co).point.holds = none) (hdead : (s.coros co).point ≠ .dead) :
    Speaks s co r ((s.log es).noContext co r) := by
  refine ⟨s.errorWords co r "Aborted", ?_, ?_⟩
  · rw [show (((s.log es).noContext co r).coros co).point = .dead from setPoint_point _ _]
    exact .aborted hholds hdead
  · rw [noContext, coroError, sendReply_eq]
    show words (_ ++ ([_] ++ (es ++ s.trace))) = _
    rw [words_append, words_append, words_append, hes, errorWords, ← words_replyEvents]
    rfl

theorem yieldUntilDbCtx_said {es : List (Event n)} (timeToStopyield : Int)
    (hholds : (s.coros co).point.holds = none) (hdead : (s.coros co).point ≠ .dead)
    (hes : s.UsesClient co es) :
    Speaks s co r ((s.log es).yieldUntilDbCtx co r timeToStopyield) := by
  unfold yieldUntilDbCtx
  split
  · have huse : (s.log es).useStream ((s.log es).coros co).mStream =
        s.log (.useStream (s.coros co).mStream
          (s.streams (s.coros co).mStream).freed :: es) := rfl
    dsimp only
    rw [huse]
    split
    · exact noContext_said hes.cons.words hholds hdead
    · split
      · next k c t hacq =>
        obtain ⟨-, -, -, -, rfl⟩ := acquireDBConn_eq_some hacq
        exact sendQuery_said hes.cons.words hholds hdead
      · refine ⟨[], ?_, ?_⟩
        · rw [setPoint_point]
          exact .waits _ hholds hdead
        · show words (_ ++ s.trace) = _
          rw [words_append, hes.cons.words]
          rfl
  · exact noContext_said hes.words hholds hdead

theorem startCoro_said (hpoint : (s.coros co).point = .start) :
    Speaks s co r (s.startCoro co r) := by
  have hnil : s.UsesClient co [] := fun e he => by cases he
  have hholds : (s.coros co).point.holds = none := by rw [hpoint]; rfl
  have hdead : (s.coros co).point ≠ .dead := by rw [hpoint]; simp
  unfold startCoro
  dsimp only
  split
  · next hclosing =>
    refine ⟨[], ?_, rfl⟩
    rw [show (((s.useStream (s.coros co).mStream).finish co).coros co).point = .dead from
      setPoint_point _ _]
    exact .gone hpoint hclosing
  · exact @yieldUntilDbCtx_said _ _ _ _ [.useStream (s.coros co).mStream
      (s.streams (s.coros co).mStream).freed, .useStream (s.coros co).mStream
        (s.streams (s.coros co).mStream).freed] _ hholds hdead hnil.cons.cons

/-- **Everything a resume says** is one of the cases of `Said`. -/
theorem resume_said (s : Server n) (co : CoroId) (r : Readings n) :
    Speaks s co r (s.resume co r) := by
  have hnil : s.UsesClient co [] := fun e he => by cases he
  unfold resume
  cases hpoint : (s.coros co).point with
  | start => exact startCoro_said hpoint
  | waitCtx timeToStopyield =>
      exact @yieldUntilDbCtx_said _ _ _ _ [] _ (by rw [hpoint]; rfl) (by rw [hpoint]; simp) hnil
  | waitPoll k c =>
      dsimp only
      split
      · next hdone => exact (queryPolled_said hdone).speaks (.finished k c hpoint hdone)
      · exact ⟨[], .idle (.inr ⟨k, by rw [hpoint]; rfl⟩), rfl⟩
  | waitUpdate k c =>
      dsimp only
      split
      · have hend := @updatePolled_said _ s co r k c (s.mConnections k) (s.conns c).busy [] rfl
        rw [mid_self] at hend
        exact hend.speaks (.updated k c hpoint)
      · exact ⟨[], .idle (.inr ⟨k, by rw [hpoint]; rfl⟩), rfl⟩
  | dead => exact ⟨[], .idle (.inl hpoint), rfl⟩

end

/-! ## What the words say -/

section
variable {s : Server n} {co : CoroId} {r : Readings n} {p : Point n} {ws : List (Event n)}

theorem mem_replyWords {reply : Reply} {e : Event n} (h : e ∈ s.replyWords co r reply) :
    e = .reply (s.coros co).mStream reply := by
  unfold replyWords at h
  split at h
  · exact List.mem_singleton.1 h
  · cases h

theorem registerReply_id (id newUserId : Int) : (registerReply id newUserId).id = some id := by
  unfold registerReply
  split_ifs <;> rfl

/-- The texts of the errors in which a coroutine ends. -/
def coroMessages : List String :=
  ["Aborted", "Query failed #1", "Query failed #2", "Query failed #3", "DB Async query failed"]

/-- **The replies of a coroutine** -/
inductive CoroReply (s : Server n) (co : CoroId) (r : Readings n) : Reply → Prop
  | failed (message : String) : message ∈ coroMessages →
      CoroReply s co r (.error kJsonRpcServerError message (some (s.coros co).data.mId))
  | noUser : CoroReply s co r
      (.error kJsonRpcInvalidParams "Login failed" (some (s.coros co).data.mId))
  | token (userId : UInt32) (token : Bytes) : r.signedJWT userId = some token →
      CoroReply s co r (.response (some (s.coros co).data.mId) (tokenResult token))
  | registered (newUserId : Int) :
      CoroReply s co r (registerReply (s.coros co).data.mId newUserId)

theorem CoroReply.id {reply : Reply} (h : CoroReply s co r reply) :
    reply.id = some (s.coros co).data.mId := by
  cases h with
  | failed => rfl
  | noUser => rfl
  | token => rfl
  | registered newUserId => exact registerReply_id _ _

/-- The event is no reply, or one of the coroutine to its client. -/
def OwnReply (s : Server n) (co : CoroId) (r : Readings n) (e : Event n) : Prop :=
  ∀ st reply, e = .reply st reply → st = (s.coros co).mStream ∧ CoroReply s co r reply

theorem ownReply_of_mem {reply : Reply} (hreply : CoroReply s co r reply) {e : Event n}
    (h : e ∈ s.replyWords co r reply) : OwnReply s co r e := by
  intro st reply' he
  rw [mem_replyWords h] at he
  obtain ⟨rfl, rfl⟩ := Event.reply.inj he
  exact ⟨rfl, hreply⟩

theorem ownReply_errorWords {message : String} (hmessage : message ∈ coroMessages) {e : Event n}
    (h : e ∈ s.errorWords co r message) : OwnReply s co r e :=
  ownReply_of_mem (.failed message hmessage) h

theorem ownReply_loginWords {k : Fin n} {c : ConnId} {userId : UInt32} {e : Event n}
    (h : e ∈ s.loginWords co r k c userId) : OwnReply s co r e := by
  unfold loginWords at h
  split at h
  · split at h
    · rcases List.mem_append.1 h with h | h
      · unfold updateWords at h
        split at h
        · simp only [List.mem_cons, List.not_mem_nil, or_false] at h
          rcases h with rfl | rfl
          · exact fun _ _ he => by cases he
          · exact fun _ _ he => by cases he
        · cases h
      · split at h
        · next token htoken => exact ownReply_of_mem (.token userId token htoken) h
        · cases h
    · exact ownReply_of_mem .noUser h
  · cases h

theorem ownReply_resultWords {k : Fin n} {c : ConnId} {e : Event n}
    (h : e ∈ s.resultWords co r k c) : OwnReply s co r e := by
  unfold resultWords at h
  split at h
  · split at h
    · exact ownReply_errorWords (by decide) h
    · exact ownReply_loginWords h
  · exact ownReply_of_mem (.registered _) h

/-- **Every reply of a coroutine** is one of its kinds, and goes to its client. -/
theorem Said.ownReply (h : Said s co r p ws) : ∀ e ∈ ws, OwnReply s co r e := by
  have hother : ∀ {e : Event n}, (∀ st reply, e ≠ .reply st reply) → OwnReply s co r e :=
    fun he st reply heq => absurd heq (he st reply)
  intro e he
  cases h with
  | idle => cases he
  | gone => cases he
  | aborted => exact ownReply_errorWords (by decide) he
  | waits => cases he
  | refused => exact ownReply_errorWords (by decide) he
  | asked k c =>
      rw [List.mem_singleton.1 he]
      exact hother fun _ _ => by simp
  | finished k c =>
      rcases List.mem_append.1 he with he | he
      · split at he
        · exact ownReply_errorWords (by decide) he
        · exact ownReply_resultWords he
      · rw [List.mem_singleton.1 he]
        exact hother fun _ _ => by simp
  | updated k c =>
      rcases List.mem_append.1 he with he | he
      · split at he
        · exact ownReply_errorWords (by decide) he
        · cases he
      · rw [List.mem_singleton.1 he]
        exact hother fun _ _ => by simp

/-- A coroutine sends the query of its request, or the update of a login. -/
theorem Said.sent (h : Said s co r p ws) {k : Fin n} {c : ConnId} {query : Query}
    (hq : .sent k c query ∈ ws) :
    query = (s.coros co).data.query ∨
      (s.coros co).data.isLogin = true ∧ ∃ userId, query = updateQuery userId := by
  have hreply : ∀ {reply : Reply}, .sent k c query ∉ s.replyWords co r reply :=
    fun hmem => by cases mem_replyWords hmem
  cases h with
  | idle => cases hq
  | gone => cases hq
  | aborted => exact absurd hq hreply
  | waits => cases hq
  | refused => exact absurd hq hreply
  | asked k' c' =>
      obtain ⟨-, -, rfl⟩ := Event.sent.inj (List.mem_singleton.1 hq)
      exact .inl rfl
  | finished k' c' =>
      rcases List.mem_append.1 hq with hq | hq
      · split at hq
        · exact absurd hq hreply
        · unfold resultWords at hq
          cases hdata : (s.coros co).data with
          | login data =>
              simp only [hdata] at hq
              split at hq
              · exact absurd hq hreply
              · next userId _ =>
                unfold loginWords at hq
                split at hq
                · split at hq
                  · rcases List.mem_append.1 hq with hq | hq
                    · unfold updateWords at hq
                      split at hq
                      · simp only [List.mem_cons, List.not_mem_nil, or_false, reduceCtorEq,
                          false_or, Event.sent.injEq] at hq
                        exact .inr ⟨rfl, userId, hq.2.2⟩
                      · cases hq
                    · split at hq
                      · exact absurd hq hreply
                      · cases hq
                  · exact absurd hq hreply
                · cases hq
          | register data =>
              simp only [hdata] at hq
              exact absurd hq hreply
      · cases List.mem_singleton.1 hq
  | updated k' c' =>
      rcases List.mem_append.1 hq with hq | hq
      · split at hq
        · exact absurd hq hreply
        · cases hq
      · cases List.mem_singleton.1 hq

end

/-! ## The other moves -/

section
variable (s : Server n)

@[simp] theorem said_safeUvClose (st : StreamId) : (s.safeUvClose st).said = s.said := by
  unfold safeUvClose
  dsimp only
  split <;> rfl

theorem said_connect (accepted : Bool) : (s.connect accepted).said = s.said := by
  unfold connect
  split
  · rfl
  · exact said_safeUvClose _ _

theorem said_reconnect (k : Fin n) (connected : Bool) :
    (s.reconnect k connected).said = s.said := by
  have hdisconnect : (s.disconnect k).said = s.said := by
    unfold disconnect
    dsimp only
    cases (s.mConnections k).mPollData.isSome <;> split <;> rfl
  rw [← hdisconnect]
  unfold reconnect
  dsimp only
  split <;> rfl

theorem said_closeDead (cos : List CoroId) : (closeDead cos s).said = s.said := by
  induction cos generalizing s with
  | nil => rfl
  | cons co cos ih =>
      rw [closeDead, ih]
      split
      · exact said_safeUvClose s _
      · rfl

theorem said_cleanup : s.cleanupDeadCoroutines.said = s.said :=
  said_closeDead s s.mUntrackedCoroutines

end

theorem Polled.said {s s' : Server n} {k : Fin n} {status : Int} {consumed : Bool}
    (h : Polled s k status consumed s') :
    s'.said = s.said ∧ s'.mConnections = s.mConnections ∨ s'.said = .polled k :: s.said := by
  cases h with
  | idle => exact .inl ⟨rfl, rfl⟩
  | ready => exact .inr rfl
  | failed _ _ hcase =>
      rcases hcase with ⟨rfl, -⟩ | ⟨st, -, rfl⟩
      · exact .inr rfl
      · exact .inr (said_safeUvClose _ st)

section
variable {s : Server n} {st : StreamId} {writable : Bool}

theorem said_runAuthCall (call : AuthCall) : (s.runAuthCall st call).said = s.said := by
  cases call with
  | invalidParams => rfl
  | pending data converted =>
      unfold runAuthCall
      dsimp only
      split <;> rfl

/-- Only a reply says something. -/
theorem said_runAction {a : Action AuthPath AuthRpc} (h : ∀ reply, a ≠ .send reply) :
    (s.runAction st writable a).said = s.said := by
  cases a with
  | send reply => exact absurd rfl (h reply)
  | pathCallback cb => rfl
  | jsonrpcRequest pret bodyLen => rfl
  | rpcCallback cb msgid params paramsCount =>
      rw [runAction]
      split
      · exact said_runAuthCall _
      · rfl
  | close => exact said_safeUvClose s st
  | freeDoc => rfl
  | freeBuf => rfl
  | pathOverflow => rfl

/-- A read says replies to its own client. -/
theorem runActions_said (as : List (Action AuthPath AuthRpc)) :
    ∃ ws, (s.runActions st writable as).said = ws ++ s.said ∧
      ∀ e ∈ ws, ∃ reply, e = .reply st reply ∧ .send reply ∈ as := by
  induction as generalizing s with
  | nil => exact ⟨[], rfl, fun e he => by cases he⟩
  | cons a as ih =>
      obtain ⟨ws, hsaid, hws⟩ := ih (s := s.runAction st writable a)
      have htail : ∀ e ∈ ws, ∃ reply, e = .reply st reply ∧ .send reply ∈ a :: as := by
        intro e he
        obtain ⟨reply, he, hmem⟩ := hws e he
        exact ⟨reply, he, List.mem_cons_of_mem _ hmem⟩
      rw [runActions, hsaid]
      by_cases ha : ∃ reply, a = .send reply
      · obtain ⟨reply, rfl⟩ := ha
        refine ⟨ws ++ words (s.replyEvents st writable reply), ?_, ?_⟩
        · rw [runAction, sendReply_eq, said_log, List.append_assoc]
        · intro e he
          rcases List.mem_append.1 he with he | he
          · exact htail e he
          · unfold replyEvents at he
            split at he
            · exact ⟨reply, List.mem_singleton.1 he, by simp⟩
            · cases he
      · rw [said_runAction fun reply heq => ha ⟨reply, heq⟩]
        exact ⟨ws, rfl, htail⟩

end

/-- `InitializeConnections` says nothing. -/
theorem InitFrom.said {s : Server n} (h : InitFrom n s) : s.said = [] := by
  rw [Server.said, words, List.filter_eq_nil_iff]
  intro e he
  cases h.trace e he <;> simp [Event.isWord]

end Server

end ServerBase
