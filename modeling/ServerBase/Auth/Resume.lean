import ServerBase.Auth.Coroutines

/-!
# What one resume of a coroutine does

`resume_cases` says everything a resume can do to the server, in seven cases; the invariants of the
loop are case analyses over them and never unfold a coroutine.

**Inside a resume** the server differs from the one it was resumed in by one context, the state of
one connection and the trace (`Server.mid`); the pieces of a coroutine are computed on such
states.
-/

namespace ServerBase

/-! ## What a coroutine records -/

/-- Taking and giving back of contexts. -/
inductive Hold (n : Nat)
  | obtained (ctx : Option (Fin n))
  | released (ctx : Fin n)
  deriving DecidableEq

/-- The contexts `co` obtained and released, newest first. -/
def heldBy {n : Nat} (co : CoroId) (es : List (Event n)) : List (Hold n) :=
  es.filterMap fun
    | .obtained co' ctx => if co' = co then some (.obtained ctx) else none
    | .released co' ctx => if co' = co then some (.released ctx) else none
    | _ => none

theorem heldBy_append {n : Nat} (co : CoroId) (es es' : List (Event n)) :
    heldBy co (es ++ es') = heldBy co es ++ heldBy co es' :=
  List.filterMap_append

namespace Server

variable {n : Nat}

/-- The events of a coroutine that has the context `k` and its connection `c`. -/
inductive CoroEvent (s : Server n) (co : CoroId) (k : Fin n) (c : ConnId) : Event n → Prop
  | use : CoroEvent s co k c
      (.useStream (s.coros co).mStream (s.streams (s.coros co).mStream).freed)
  | reply (reply : Reply) : CoroEvent s co k c (.reply (s.coros co).mStream reply)
  | obtained : CoroEvent s co k c (.obtained co (some k))
  | released : CoroEvent s co k c (.released co k)
  | libpq (h : (s.mConnections k).mTerminate = false) :
      CoroEvent s co k c (.libpq co c (s.stale k c))
  | sent (query : Query) : CoroEvent s co k c (.sent k c query)
  | waitOver : CoroEvent s co k c (.waitOver k)
  | nullPollData (h : (s.mConnections k).mPollData = none) :
      CoroEvent s co k c (.fault .nullPollData)

/-- The events of a coroutine without a context. -/
inductive ClientEvent (s : Server n) (co : CoroId) : Event n → Prop
  | use : ClientEvent s co
      (.useStream (s.coros co).mStream (s.streams (s.coros co).mStream).freed)
  | reply (reply : Reply) : ClientEvent s co (.reply (s.coros co).mStream reply)
  | refused : ClientEvent s co (.obtained co none)

/-- What is recorded while a coroutine has the context `k`, and which contexts it takes and gives
back in it. -/
structure Emits (s : Server n) (co : CoroId) (k : Fin n) (c : ConnId) (held : List (Hold n))
    (es : List (Event n)) : Prop where
  each : ∀ e ∈ es, CoroEvent s co k c e
  held : ∀ co', heldBy co' es = if co' = co then held else []

section
variable {s : Server n} {co : CoroId} {k : Fin n} {c : ConnId}

theorem Emits.nil : Emits s co k c [] [] where
  each e he := by cases he
  held co' := by simp [heldBy]

theorem Emits.append {held held' : List (Hold n)} {es es' : List (Event n)}
    (h : Emits s co k c held es) (h' : Emits s co k c held' es') :
    Emits s co k c (held ++ held') (es ++ es') where
  each e he := by
    rcases List.mem_append.1 he with he | he
    · exact h.each e he
    · exact h'.each e he
  held co' := by
    rw [heldBy_append, h.held, h'.held]
    split <;> rfl

/-- Events that take and give back nothing. -/
theorem Emits.of_each {es : List (Event n)} (h : ∀ e ∈ es, CoroEvent s co k c e)
    (hheld : ∀ co', heldBy co' es = []) : Emits s co k c [] es where
  each := h
  held co' := by rw [hheld]; split <;> rfl

theorem emits_libpq (h : (s.mConnections k).mTerminate = false) :
    Emits s co k c [] [.libpq co c (s.stale k c)] :=
  .of_each (by simpa using .libpq h) fun _ => rfl

theorem emits_sent (query : Query) : Emits s co k c [] [.sent k c query] :=
  .of_each (by simpa using .sent query) fun _ => rfl

theorem emits_waitOver : Emits s co k c [] [.waitOver k] :=
  .of_each (by simpa using .waitOver) fun _ => rfl

theorem emits_use : Emits s co k c []
    [.useStream (s.coros co).mStream (s.streams (s.coros co).mStream).freed] :=
  .of_each (by simpa using .use) fun _ => rfl

theorem emits_obtained : Emits s co k c [.obtained (some k)] [.obtained co (some k)] where
  each := by simpa using .obtained
  held co' := by
    rcases eq_or_ne co co' with rfl | h
    · simp [heldBy]
    · simp [heldBy, h, h.symm]

theorem emits_released : Emits s co k c [.released k] [.released co k] where
  each := by simpa using .released
  held co' := by
    rcases eq_or_ne co co' with rfl | h
    · simp [heldBy]
    · simp [heldBy, h, h.symm]

end

/-! ## Inside a resume -/

section
variable (s : Server n) (k : Fin n) (c : ConnId)

/-- The server in the middle of a resume: the context `k`, whether `c` is busy, what was
recorded. -/
def mid (x : DBConnectionCtx n) (busy : Bool) (es : List (Event n)) : Server n :=
  ((s.setCtx k x).setBusy c busy).log es

theorem mid_self : s.mid k c (s.mConnections k) (s.conns c).busy [] = s := by
  simp [mid, setCtx, setBusy, log]

end

section
variable {s : Server n} {k : Fin n} {c : ConnId} {x : DBConnectionCtx n} {b : Bool}
  {es : List (Event n)}

@[simp] theorem mid_log (es' : List (Event n)) :
    (s.mid k c x b es).log es' = s.mid k c x b (es' ++ es) := by
  simp [mid, log]

@[simp] theorem mid_setCtx (y : DBConnectionCtx n) :
    (s.mid k c x b es).setCtx k y = s.mid k c y b es := by
  simp [mid, setCtx, setBusy, log]

@[simp] theorem mid_setBusy (b' : Bool) :
    (s.mid k c x b es).setBusy c b' = s.mid k c x b' es := by
  simp [mid, setCtx, setBusy, log]

@[simp] theorem mid_ctx : (s.mid k c x b es).mConnections k = x := by
  simp [mid, setCtx, setBusy, log]

@[simp] theorem mid_busy : ((s.mid k c x b es).conns c).busy = b := by
  simp [mid, setCtx, setBusy, log]

@[simp] theorem mid_finished : ((s.mid k c x b es).conns c).finished = (s.conns c).finished := by
  simp [mid, setCtx, setBusy, log]

@[simp] theorem mid_coros : (s.mid k c x b es).coros = s.coros := rfl

@[simp] theorem mid_streams : (s.mid k c x b es).streams = s.streams := rfl

@[simp] theorem mid_uvIsWritable (st : StreamId) (w : Bool) :
    (s.mid k c x b es).uvIsWritable st w = s.uvIsWritable st w := rfl

@[simp] theorem mid_useStream (st : StreamId) :
    (s.mid k c x b es).useStream st =
      s.mid k c x b (.useStream st (s.streams st).freed :: es) := by
  simp [useStream]

theorem mid_libpq (co : CoroId) (hx : x.mConn = (s.mConnections k).mConn) :
    (s.mid k c x b es).libpq co k c = s.mid k c x b (.libpq co c (s.stale k c) :: es) := by
  simp [libpq, stale, hx]

end

/-- What a reply records. -/
def replyEvents (s : Server n) (st : StreamId) (writable : Bool) (reply : Reply) :
    List (Event n) :=
  if s.uvIsWritable st writable then
    [.reply st reply, .useStream st (s.streams st).freed, .useStream st (s.streams st).freed]
  else [.useStream st (s.streams st).freed]

theorem sendReply_eq (s : Server n) (st : StreamId) (writable : Bool) (reply : Reply) :
    s.sendReply st writable reply = s.log (s.replyEvents st writable reply) := by
  unfold sendReply replyEvents
  split <;> rfl

theorem emits_replyEvents {s : Server n} {co : CoroId} {k : Fin n} {c : ConnId} (writable : Bool)
    (reply : Reply) :
    Emits s co k c [] (s.replyEvents (s.coros co).mStream writable reply) := by
  unfold replyEvents
  split
  · refine .of_each ?_ fun _ => rfl
    intro e he
    simp only [List.mem_cons, List.not_mem_nil, or_false] at he
    rcases he with rfl | rfl | rfl
    · exact .reply reply
    · exact .use
    · exact .use
  · exact emits_use

theorem clientEvent_replyEvents {s : Server n} {co : CoroId} (writable : Bool) (reply : Reply) :
    ∀ e ∈ s.replyEvents (s.coros co).mStream writable reply, ClientEvent s co e := by
  intro e he
  unfold replyEvents at he
  split at he <;> simp only [List.mem_cons, List.not_mem_nil, or_false] at he
  · rcases he with rfl | rfl | rfl
    · exact .reply reply
    · exact .use
    · exact .use
  · exact he ▸ .use

/-! ## Endings -/

/-- The coroutine ends in `s'`, with the context `x` given back and `c` left busy or not, and has
recorded more events on top of `es`. -/
def Ends (s : Server n) (co : CoroId) (k : Fin n) (c : ConnId) (x : DBConnectionCtx n) (b : Bool)
    (es : List (Event n)) (s' : Server n) : Prop :=
  ∃ es', s' = (s.mid k c x.released b (es' ++ es)).finish co ∧
    Emits s co k c [.released k] es'

section
variable {s : Server n} {co : CoroId} {r : Readings n} {k : Fin n} {c : ConnId}
  {x : DBConnectionCtx n} {b : Bool} {es : List (Event n)}

/-- Events recorded before the ending are part of it. -/
theorem Ends.of_emits {es' : List (Event n)} {s' : Server n} (he : Emits s co k c [] es')
    (h : Ends s co k c x b (es' ++ es) s') : Ends s co k c x b es s' := by
  obtain ⟨es'', rfl, hes⟩ := h
  exact ⟨es'' ++ es', by rw [List.append_assoc], by simpa using hes.append he⟩

theorem releaseDBConn_mid :
    (s.mid k c x b es).releaseDBConn co k = s.mid k c x.released b (.released co k :: es) := by
  simp [releaseDBConn]

theorem release_ends : Ends s co k c x b es (((s.mid k c x b es).releaseDBConn co k).finish co) :=
  ⟨[.released co k], by rw [releaseDBConn_mid, List.singleton_append], emits_released⟩

theorem failWith_ends (message : String) :
    Ends s co k c x b es ((s.mid k c x b es).failWith co r k message) := by
  refine ⟨s.replyEvents (s.coros co).mStream r.writable
    (.error kJsonRpcServerError message (some (s.coros co).data.mId)) ++ [.released co k], ?_,
    (emits_replyEvents _ _).append emits_released⟩
  rw [failWith, releaseDBConn_mid, coroError, sendReply_eq, mid_log, List.append_assoc]
  rfl

theorem updateOver_ends :
    Ends s co k c x b es ((s.mid k c x b es).updateOver co r k) := by
  rw [updateOver, mid_ctx]
  split
  · exact failWith_ends _
  · exact release_ends

/-- Behind the wait for the update the results are read, unless polling was terminated. -/
theorem updatePolled_ends (hconn : x.mConn = (s.mConnections k).mConn)
    (hterm : x.mTerminate = (s.mConnections k).mTerminate) :
    Ends s co k c x (if x.mTerminate then b else false) es
      ((s.mid k c x b es).updatePolled co r k c) := by
  refine Ends.of_emits emits_waitOver ?_
  rw [updatePolled, mid_log, mid_ctx]
  by_cases h : x.mTerminate = true
  · simp only [if_pos h]
    exact updateOver_ends
  · simp only [if_neg h]
    rw [pqGetResults, if_pos rfl, mid_libpq co hconn, mid_setBusy]
    exact Ends.of_emits (emits_libpq (hterm.symm.trans (by simpa using h))) updateOver_ends

theorem pollStart_of_none (h : x.mPollData = none) : x.pollStart k = x := by
  cases x
  cases h
  rfl

theorem startPoll_mid :
    (s.mid k c x b es).startPoll k =
      s.mid k c (x.pollStart k) b
        ((if x.mPollData.isSome then [] else [.fault .nullPollData]) ++ es) := by
  rw [startPoll, mid_ctx]
  split
  · simp
  · next h =>
    rw [Bool.not_eq_true, Option.isSome_eq_false_iff, Option.isNone_iff_eq_none] at h
    rw [mid_log, pollStart_of_none h]

theorem emits_startPoll :
    Emits s co k c [] (if (s.mConnections k).mPollData.isSome then [] else
      [.fault .nullPollData]) := by
  split
  · exact .nil
  · next h =>
    rw [Bool.not_eq_true, Option.isSome_eq_false_iff, Option.isNone_iff_eq_none] at h
    exact .of_each (by simpa using .nullPollData h) fun _ => rfl

/-- `PQsendQueryParams` on a connection that is not busy. -/
theorem pqSendQueryParams_mid (query : Query) (sent : Bool)
    (hconn : x.mConn = (s.mConnections k).mConn) :
    (s.mid k c x b es).pqSendQueryParams co k c query sent =
      if sent && !b then
        (s.mid k c x true (.sent k c query :: .libpq co c (s.stale k c) :: es), true)
      else (s.mid k c x b (.libpq co c (s.stale k c) :: es), false) := by
  rw [pqSendQueryParams, mid_libpq co hconn]
  simp only [mid_busy]
  split
  · simp
  · rfl

/-- The update of `last_login`, when nothing terminated polling: it is sent and its results are read
at once, the flag of the first query being still set; or it is not sent. -/
theorem updateLastLogin_ends (userId : UInt32) (hterm : (s.mConnections k).mTerminate = false)
    (hdone : (s.mConnections k).donePollingData = true) :
    ∃ x', Ends s co k c x' false es
        ((s.mid k c (s.mConnections k) false es).updateLastLogin co r k c userId) ∧
      (x' = s.mConnections k ∨
        x' = (s.mConnections k).pollStart k ∧ r.updateSent = true) := by
  rw [updateLastLogin, pqSendQueryParams_mid _ _ rfl]
  by_cases hsent : r.updateSent = true
  · simp only [hsent, Bool.not_false, Bool.and_self, if_true]
    refine ⟨(s.mConnections k).pollStart k, ?_, .inr ⟨rfl, trivial⟩⟩
    refine Ends.of_emits (emits_libpq hterm) (Ends.of_emits
      (emits_sent (updateQuery userId)) (Ends.of_emits emits_startPoll ?_))
    have hpolled := @updatePolled_ends n s co r k c ((s.mConnections k).pollStart k) true
      ((if (s.mConnections k).mPollData.isSome then [] else [.fault .nullPollData]) ++
        .sent k c (updateQuery userId) :: .libpq co c (s.stale k c) :: es) rfl rfl
    rw [if_neg (by simpa [DBConnectionCtx.pollStart] using hterm)] at hpolled
    rw [startPoll_mid, mid_ctx,
      if_pos (show ((s.mConnections k).pollStart k).donePollingData = true from hdone)]
    exact hpolled
  · simp only [Bool.not_eq_true] at hsent
    simp only [hsent, Bool.false_and, Bool.false_eq_true, if_false]
    exact ⟨s.mConnections k, Ends.of_emits (emits_libpq hterm) updateOver_ends, .inl rfl⟩

/-- The resume of `co` sends an update of `last_login`. -/
def SendsUpdate (s : Server n) (co : CoroId) (r : Readings n) : Prop :=
  (s.coros co).data.isLogin = true ∧
    (∃ userId, loginResults UINT_MAX r.results = some userId ∧ userId < UINT_MAX) ∧
    s.uvIsWritable (s.coros co).mStream r.writable = true ∧ r.updateSent = true

/-- The resume of `co` meets a fatal error in the results of a login. -/
def MeetsFatalError (s : Server n) (co : CoroId) (r : Readings n) : Prop :=
  (s.coros co).data.isLogin = true ∧ loginResults UINT_MAX r.results = none

theorem loginUser_ends (userId : UInt32) (hterm : (s.mConnections k).mTerminate = false)
    (hdone : (s.mConnections k).donePollingData = true) :
    ∃ x', Ends s co k c x' false es
        ((s.mid k c (s.mConnections k) false es).loginUser co r k c userId) ∧
      (x' = s.mConnections k ∨
        x' = (s.mConnections k).pollStart k ∧ userId < UINT_MAX ∧
          s.uvIsWritable (s.coros co).mStream r.writable = true ∧ r.updateSent = true) := by
  rw [loginUser]
  simp only [mid_uvIsWritable, mid_coros, mid_useStream]
  by_cases hw : s.uvIsWritable (s.coros co).mStream r.writable = true
  · rw [if_pos hw]
    by_cases hu : userId < UINT_MAX
    · rw [if_pos hu]
      cases htoken : r.signedJWT userId with
      | none =>
          obtain ⟨x', hx, hcase⟩ := @updateLastLogin_ends n s co r k c
            (.useStream (s.coros co).mStream (s.streams (s.coros co).mStream).freed :: es) userId
            hterm hdone
          exact ⟨x', Ends.of_emits emits_use hx, hcase.imp_right fun h => ⟨h.1, hu, hw, h.2⟩⟩
      | some token =>
          simp only [sendReply_eq, mid_log]
          obtain ⟨x', hx, hcase⟩ := @updateLastLogin_ends n s co r k c
            (s.replyEvents (s.coros co).mStream r.writable
              (.response (some (s.coros co).data.mId) (tokenResult token)) ++
                .useStream (s.coros co).mStream
                  (s.streams (s.coros co).mStream).freed :: es) userId hterm hdone
          exact ⟨x', Ends.of_emits emits_use (Ends.of_emits (emits_replyEvents _ _) hx),
            hcase.imp_right fun h => ⟨h.1, hu, hw, h.2⟩⟩
    · rw [if_neg hu]
      simp only [sendReply_eq, mid_log]
      exact ⟨_, Ends.of_emits emits_use (Ends.of_emits (emits_replyEvents _ _) release_ends),
        .inl rfl⟩
  · rw [if_neg hw]
    exact ⟨_, Ends.of_emits emits_use release_ends, .inl rfl⟩

theorem registerUser_ends (newUserId : Int) :
    Ends s co k c x b es ((s.mid k c x b es).registerUser co r k newUserId) := by
  rw [registerUser, releaseDBConn_mid]
  simp only [mid_uvIsWritable, mid_coros, mid_useStream]
  split
  · refine ⟨s.replyEvents (s.coros co).mStream r.writable
      (registerReply (s.coros co).data.mId newUserId) ++
        [.useStream (s.coros co).mStream (s.streams (s.coros co).mStream).freed] ++
        [.released co k], ?_, ((emits_replyEvents _ _).append emits_use).append emits_released⟩
    rw [sendReply_eq, mid_log, List.append_assoc, List.append_assoc]
    rfl
  · exact ⟨[.useStream (s.coros co).mStream (s.streams (s.coros co).mStream).freed] ++
      [.released co k], rfl, emits_use.append emits_released⟩

/-- **Behind the wait for the query** the coroutine ends. Its connection is left busy only by
terminated polling and by a fatal error in a login, and polling is started again only by an
update. -/
theorem queryPolled_ends (hdone : (s.mConnections k).donePollingData = true) :
    ∃ x b, Ends s co k c x b [] (s.queryPolled co r k c) ∧
      (x = s.mConnections k ∨
        x = (s.mConnections k).pollStart k ∧ (s.mConnections k).mTerminate = false ∧
          s.SendsUpdate co r) ∧
      (b = false ∨ b = (s.conns c).busy ∧
        ((s.mConnections k).mTerminate = true ∨ s.MeetsFatalError co r)) := by
  have hlog : s.log [.waitOver k] =
      s.mid k c (s.mConnections k) (s.conns c).busy [.waitOver k] := by
    conv_lhs => rw [← mid_self s k c]
    simp
  rw [queryPolled, hlog]
  simp only [mid_ctx, mid_coros]
  by_cases hterm : (s.mConnections k).mTerminate = true
  · rw [if_pos hterm]
    exact ⟨_, _, Ends.of_emits emits_waitOver (failWith_ends _), .inl rfl, .inr ⟨rfl, .inl hterm⟩⟩
  · rw [if_neg hterm]
    rw [Bool.not_eq_true] at hterm
    cases hdata : (s.coros co).data with
    | login data =>
        dsimp only
        cases hresults : loginResults UINT_MAX r.results with
        | none =>
            simp only [pqGetResults, Bool.false_eq_true, if_false, mid_libpq co rfl]
            exact ⟨_, _, Ends.of_emits emits_waitOver (Ends.of_emits (emits_libpq hterm)
              (Ends.of_emits (emits_libpq hterm) (failWith_ends _))), .inl rfl,
              .inr ⟨rfl, .inr ⟨by rw [hdata]; rfl, hresults⟩⟩⟩
        | some userId =>
            simp only [pqGetResults, if_true, mid_libpq co rfl, mid_setBusy]
            obtain ⟨x', hx, hcase⟩ := @loginUser_ends n s co r k c
              [.libpq co c (s.stale k c), .waitOver k] userId hterm hdone
            refine ⟨x', false, Ends.of_emits emits_waitOver (Ends.of_emits (emits_libpq hterm) hx),
              hcase.imp_right fun h => ⟨h.1, hterm, by rw [hdata]; rfl,
                ⟨userId, hresults, h.2.1⟩, h.2.2⟩, .inl rfl⟩
    | register data =>
        simp only [pqGetResults, if_true, mid_libpq co rfl, mid_setBusy]
        exact ⟨_, false, Ends.of_emits emits_waitOver (Ends.of_emits (emits_libpq hterm)
          (registerUser_ends _)), .inl rfl, .inl rfl⟩

end

/-! ## Beginnings -/

/-- `AcquireDBConn` finds a context that is free and has a connection. -/
theorem acquireDBConn_eq_some {s t : Server n} {es : List (Event n)} {status : Fin n → Bool}
    {st : StreamId} {k : Fin n} {c : ConnId}
    (h : (s.log es).acquireDBConn status st = some (k, c, t)) :
    (s.mConnections k).mConn = some c ∧ (s.mConnections k).mInUse = false ∧
      (s.mConnections k).mTerminate = false ∧ (s.mConnections k).mReconnectPhase = false ∧
      t = s.mid k c ((s.mConnections k).acquired st) (s.conns c).busy es := by
  unfold acquireDBConn at h
  cases hfind : (List.finRange n).find? ((s.log es).acquirable status) with
  | none => simp [hfind] at h
  | some j =>
      simp only [hfind, Option.map_eq_some_iff, Prod.mk.injEq] at h
      obtain ⟨conn, hconn, rfl, rfl, rfl⟩ := h
      have hfree := List.find?_some hfind
      simp only [acquirable, Bool.and_eq_true, Bool.not_eq_true'] at hfree
      exact ⟨hconn, hfree.1.1.2, hfree.1.2, hfree.2, by simp [mid, setCtx, setBusy, log]⟩

/-- **What a resume can do.** -/
inductive Resumed (s : Server n) (co : CoroId) (r : Readings n) : Server n → Prop
  /-- Nothing: the coroutine is dead, or what it waits for is not there. -/
  | idle : Resumed s co r s
  /-- The stream is closing, and the coroutine returns without a reply. -/
  | gone (es : List (Event n)) : (s.coros co).point = .start →
      (∀ e ∈ es, ClientEvent s co e) → (∀ co', heldBy co' es = []) →
      Resumed s co r ((s.log es).finish co)
  /-- No context: the stream is closing, or the time is over. -/
  | refused (es : List (Event n)) : (s.coros co).point.holds = none → (s.coros co).point ≠ .dead →
      (∀ e ∈ es, ClientEvent s co e) →
      (∀ co', heldBy co' es = if co' = co then [.obtained none] else []) →
      Resumed s co r ((s.log es).finish co)
  /-- No context yet. -/
  | waits (timeToStopyield : Int) (es : List (Event n)) : (s.coros co).point.holds = none →
      (s.coros co).point ≠ .dead → (∀ e ∈ es, ClientEvent s co e) →
      (∀ co', heldBy co' es = []) →
      Resumed s co r ((s.log es).setPoint co (.waitCtx timeToStopyield))
  /-- A context is taken and given back: the query cannot be sent. -/
  | sendFailed (k : Fin n) (c : ConnId) (es : List (Event n)) : (s.coros co).point.holds = none →
      (s.coros co).point ≠ .dead → (s.mConnections k).mConn = some c →
      (s.mConnections k).mInUse = false → (s.mConnections k).mTerminate = false →
      (s.mConnections k).mReconnectPhase = false →
      Emits s co k c [.released k, .obtained (some k)] es →
      Resumed s co r
        ((s.mid k c ((s.mConnections k).acquired (s.coros co).mStream).released (s.conns c).busy
          es).finish co)
  /-- A context is taken, and the coroutine waits for the results of its query. -/
  | suspended (k : Fin n) (c : ConnId) (es : List (Event n)) : (s.coros co).point.holds = none →
      (s.coros co).point ≠ .dead → (s.mConnections k).mConn = some c →
      (s.mConnections k).mInUse = false → (s.mConnections k).mTerminate = false →
      (s.mConnections k).mReconnectPhase = false → (s.conns c).busy = false →
      Emits s co k c [.obtained (some k)] es →
      Resumed s co r
        ((s.mid k c (((s.mConnections k).acquired (s.coros co).mStream).pollStart k) true
          es).setPoint co (.waitPoll k c))
  /-- The wait is over, and the coroutine ends. -/
  | finished (k : Fin n) (c : ConnId) (x : DBConnectionCtx n) (b : Bool) (s' : Server n) :
      (s.coros co).point = .waitPoll k c → (s.mConnections k).donePollingData = true →
      Ends s co k c x b [] s' →
      (x = s.mConnections k ∨
        x = (s.mConnections k).pollStart k ∧ (s.mConnections k).mTerminate = false ∧
          s.SendsUpdate co r) →
      (b = false ∨ b = (s.conns c).busy ∧
        ((s.mConnections k).mTerminate = true ∨ s.MeetsFatalError co r)) →
      Resumed s co r s'
  /-- The wait for the update is over, and the coroutine ends. -/
  | updated (k : Fin n) (c : ConnId) (b : Bool) (s' : Server n) :
      (s.coros co).point = .waitUpdate k c → Ends s co k c (s.mConnections k) b [] s' →
      Resumed s co r s'

section
variable {s : Server n} {co : CoroId} {r : Readings n}

/-- The query is sent on a context that was just taken. -/
theorem sendQuery_cases {k : Fin n} {c : ConnId} {es : List (Event n)}
    (hterm : (s.mConnections k).mTerminate = false) (hes : Emits s co k c [] es) :
    (∃ es', (s.mid k c ((s.mConnections k).acquired (s.coros co).mStream) (s.conns c).busy
        es).sendQuery co r k c =
          (s.mid k c ((s.mConnections k).acquired (s.coros co).mStream).released (s.conns c).busy
            es').finish co ∧ Emits s co k c [.released k, .obtained (some k)] es') ∨
      (∃ es', (s.mid k c ((s.mConnections k).acquired (s.coros co).mStream) (s.conns c).busy
        es).sendQuery co r k c =
          (s.mid k c (((s.mConnections k).acquired (s.coros co).mStream).pollStart k) true
            es').setPoint co (.waitPoll k c) ∧ (s.conns c).busy = false ∧
          Emits s co k c [.obtained (some k)] es') := by
  have hacq : ((s.mConnections k).acquired (s.coros co).mStream).mConn =
      (s.mConnections k).mConn := rfl
  rw [sendQuery, mid_log, pqSendQueryParams_mid _ _ hacq]
  by_cases hsent : (r.sent && !(s.conns c).busy) = true
  · right
    simp only [mid_coros, if_pos hsent, if_true]
    rw [startPoll_mid, mid_ctx, if_neg (by simp [DBConnectionCtx.donePollingData,
      DBConnectionCtx.pollStart, DBConnectionCtx.acquired, DBConnectionCtx.resetFlags])]
    rw [Bool.and_eq_true, Bool.not_eq_true'] at hsent
    refine ⟨_, rfl, hsent.2, ?_⟩
    have hstart := @emits_startPoll n s co k c
    exact hstart.append ((emits_sent _).append ((emits_libpq hterm).append
      (emits_obtained.append hes)))
  · left
    simp only [mid_coros, if_neg hsent, Bool.false_eq_true, if_false]
    rw [mid_libpq co hacq]
    obtain ⟨es', heq, hends⟩ := @failWith_ends n s co r k c
      ((s.mConnections k).acquired (s.coros co).mStream) (s.conns c).busy
      (.libpq co c (s.stale k c) :: .libpq co c (s.stale k c) :: .obtained co (some k) :: es)
      "Query failed #1"
    exact ⟨_, heq, hends.append ((emits_libpq hterm).append ((emits_libpq hterm).append
      (emits_obtained.append hes)))⟩

/-- The uses of the client by a coroutine that has no context yet. -/
def UsesClient (s : Server n) (co : CoroId) (es : List (Event n)) : Prop :=
  ∀ e ∈ es, e = .useStream (s.coros co).mStream (s.streams (s.coros co).mStream).freed

theorem UsesClient.cons {es : List (Event n)} (h : s.UsesClient co es) :
    s.UsesClient co
      (.useStream (s.coros co).mStream (s.streams (s.coros co).mStream).freed :: es) := by
  intro e he
  rcases List.mem_cons.1 he with rfl | he
  · rfl
  · exact h e he

theorem UsesClient.heldBy {es : List (Event n)} (h : s.UsesClient co es) (co' : CoroId) :
    heldBy co' es = [] := by
  rw [ServerBase.heldBy, List.filterMap_eq_nil_iff]
  intro e he
  rw [h e he]

theorem UsesClient.clientEvent {es : List (Event n)} (h : s.UsesClient co es) :
    ∀ e ∈ es, ClientEvent s co e :=
  fun e he => h e he ▸ .use

theorem UsesClient.emits {es : List (Event n)} (h : s.UsesClient co es) (k : Fin n)
    (c : ConnId) : Emits s co k c [] es :=
  .of_each (fun e he => h e he ▸ .use) h.heldBy

theorem heldBy_replyEvents (st : StreamId) (writable : Bool) (reply : Reply) (co' : CoroId) :
    heldBy co' (s.replyEvents st writable reply) = [] := by
  unfold replyEvents
  split <;> rfl

theorem noContext_cases {es : List (Event n)} (hholds : (s.coros co).point.holds = none)
    (hdead : (s.coros co).point ≠ .dead) (hes : s.UsesClient co es) :
    Resumed s co r ((s.log es).noContext co r) := by
  have heq : (s.log es).noContext co r =
      (s.log (s.replyEvents (s.coros co).mStream r.writable
        (.error kJsonRpcServerError "Aborted" (some (s.coros co).data.mId)) ++
          .obtained co none :: es)).finish co := by
    rw [noContext, coroError, sendReply_eq]
    simp only [log, List.append_assoc, List.cons_append]
    rfl
  rw [heq]
  refine .refused _ hholds hdead ?_ ?_
  · intro e he
    rcases List.mem_append.1 he with he | he
    · exact clientEvent_replyEvents _ _ e he
    · rcases List.mem_cons.1 he with rfl | he
      · exact .refused
      · exact hes.clientEvent e he
  · intro co'
    rw [heldBy_append, heldBy_replyEvents, List.nil_append]
    have htail := hes.heldBy co'
    rcases eq_or_ne co co' with rfl | hne
    · simpa [heldBy] using htail
    · simpa [heldBy, hne, hne.symm] using htail

theorem yieldUntilDbCtx_cases {es : List (Event n)} (timeToStopyield : Int)
    (hholds : (s.coros co).point.holds = none) (hdead : (s.coros co).point ≠ .dead)
    (hes : s.UsesClient co es) :
    Resumed s co r ((s.log es).yieldUntilDbCtx co r timeToStopyield) := by
  unfold yieldUntilDbCtx
  split
  · have huse : (s.log es).useStream ((s.log es).coros co).mStream =
        s.log (.useStream (s.coros co).mStream
          (s.streams (s.coros co).mStream).freed :: es) := rfl
    dsimp only
    rw [huse]
    split
    · exact noContext_cases hholds hdead hes.cons
    · split
      · next k c t hacq =>
        obtain ⟨hconn, huse, hterm, hphase, rfl⟩ := acquireDBConn_eq_some hacq
        rcases sendQuery_cases (r := r) hterm (hes.cons.emits k c) with
          ⟨es', heq, hemits⟩ | ⟨es', heq, hbusy, hemits⟩
        · exact heq ▸ .sendFailed k c es' hholds hdead hconn huse hterm hphase hemits
        · exact heq ▸ .suspended k c es' hholds hdead hconn huse hterm hphase hbusy hemits
      · exact .waits _ _ hholds hdead hes.cons.clientEvent hes.cons.heldBy
  · exact noContext_cases hholds hdead hes

theorem startCoro_cases (hpoint : (s.coros co).point = .start) :
    Resumed s co r (s.startCoro co r) := by
  have hnil : s.UsesClient co [] := fun e he => by cases he
  have hholds : (s.coros co).point.holds = none := by rw [hpoint]; rfl
  have hdead : (s.coros co).point ≠ .dead := by rw [hpoint]; simp
  have huse : s.useStream (s.coros co).mStream = s.log [.useStream (s.coros co).mStream
    (s.streams (s.coros co).mStream).freed] := rfl
  have huse' : (s.log [.useStream (s.coros co).mStream
      (s.streams (s.coros co).mStream).freed]).useStream (s.coros co).mStream =
        s.log [.useStream (s.coros co).mStream (s.streams (s.coros co).mStream).freed,
          .useStream (s.coros co).mStream (s.streams (s.coros co).mStream).freed] := rfl
  simp only [startCoro, huse, huse']
  split
  · exact .gone _ hpoint hnil.cons.clientEvent hnil.cons.heldBy
  · exact yieldUntilDbCtx_cases _ hholds hdead hnil.cons.cons

/-- **Everything a resume can do** is one of the cases of `Resumed`. -/
theorem resume_cases (s : Server n) (co : CoroId) (r : Readings n) :
    Resumed s co r (s.resume co r) := by
  have hnil : s.UsesClient co [] := fun e he => by cases he
  unfold resume
  cases hpoint : (s.coros co).point with
  | start => exact startCoro_cases hpoint
  | waitCtx timeToStopyield =>
      exact @yieldUntilDbCtx_cases n s co r [] _ (by rw [hpoint]; rfl) (by rw [hpoint]; simp) hnil
  | waitPoll k c =>
      dsimp only
      split
      · next hdone =>
        obtain ⟨x, b, hends, hx, hb⟩ := @queryPolled_ends n s co r k c hdone
        exact .finished k c x b _ hpoint hdone hends hx hb
      · exact .idle
  | waitUpdate k c =>
      dsimp only
      split
      · have hends := @updatePolled_ends n s co r k c (s.mConnections k) (s.conns c).busy [] rfl rfl
        rw [mid_self] at hends
        exact .updated k c _ _ hpoint hends
      · exact .idle
  | dead => exact .idle

/-- What a resume leaves alone. -/
structure SameFrame (s s' : Server n) : Prop where
  mPingStr : s'.mPingStr = s.mPingStr
  nextConn : s'.nextConn = s.nextConn
  streams : s'.streams = s.streams
  nextStream : s'.nextStream = s.nextStream
  nextCoro : s'.nextCoro = s.nextCoro
  untracked : s'.mUntrackedCoroutines = s.mUntrackedCoroutines

theorem Resumed.frame {s' : Server n} (h : Resumed s co r s') : SameFrame s s' := by
  cases h with
  | idle => exact ⟨rfl, rfl, rfl, rfl, rfl, rfl⟩
  | gone => exact ⟨rfl, rfl, rfl, rfl, rfl, rfl⟩
  | refused => exact ⟨rfl, rfl, rfl, rfl, rfl, rfl⟩
  | waits => exact ⟨rfl, rfl, rfl, rfl, rfl, rfl⟩
  | sendFailed => exact ⟨rfl, rfl, rfl, rfl, rfl, rfl⟩
  | suspended => exact ⟨rfl, rfl, rfl, rfl, rfl, rfl⟩
  | finished k c x b _ hpoint hdone hends =>
      obtain ⟨es', rfl, -⟩ := hends
      exact ⟨rfl, rfl, rfl, rfl, rfl, rfl⟩
  | updated k c b _ hpoint hends =>
      obtain ⟨es', rfl, -⟩ := hends
      exact ⟨rfl, rfl, rfl, rfl, rfl, rfl⟩

end

end Server

end ServerBase
