import ServerBase.Auth.Idle
import ServerBase.Auth.Said

/-!
# One answer per coroutine

A login and a registration have ten ways to end, and every one replies on its own.

**The stages of a client** (`Stage`). Nobody has asked for a coroutine; or one coroutine is under
way for the client, which is open and has no answer; or the coroutine has ended and answered, and
the client is closed or about to be.

**The result** (`one_answer`) holds in the runs in which a token is signed for every login that
found its user, and nothing else is read from the client while it waits. `no_answer` is a login
without a token.
-/

namespace ServerBase

variable {n : Nat}

/-- The replies to a stream. -/
def repliesTo (st : StreamId) (es : List (Event n)) : List (Event n) :=
  es.filter (Event.isReplyTo st)

theorem repliesTo_append (st : StreamId) (es es' : List (Event n)) :
    repliesTo st (es ++ es') = repliesTo st es ++ repliesTo st es' :=
  List.filter_append es es'

/-- Every reply is a word. -/
theorem repliesTo_words (st : StreamId) (es : List (Event n)) :
    repliesTo st (words es) = repliesTo st es := by
  rw [repliesTo, words, List.filter_filter]
  congr 1
  funext e
  cases e <;> simp [Event.isReplyTo, Event.isWord]

theorem repliesTo_eq_nil {st : StreamId} {es : List (Event n)}
    (h : ∀ e ∈ es, ∀ reply, e ≠ .reply st reply) : repliesTo st es = [] := by
  rw [repliesTo, List.filter_eq_nil_iff]
  intro e he hreply
  cases e with
  | reply st' reply =>
      obtain rfl : st' = st := by simpa [Event.isReplyTo] using hreply
      exact h _ he reply rfl
  | _ => cases hreply

/-- The list has one reply to the stream. -/
def OneReply (st : StreamId) (es : List (Event n)) : Prop :=
  ∃ reply, repliesTo st es = [.reply st reply]

theorem OneReply.append_nil {st : StreamId} {es es' : List (Event n)} (h : OneReply st es)
    (h' : repliesTo st es' = []) : OneReply st (es ++ es') := by
  obtain ⟨reply, hreply⟩ := h
  exact ⟨reply, by rw [repliesTo_append, hreply, h', List.append_nil]⟩

theorem OneReply.nil_append {st : StreamId} {es es' : List (Event n)} (h : OneReply st es)
    (h' : repliesTo st es' = []) : OneReply st (es' ++ es) := by
  obtain ⟨reply, hreply⟩ := h
  exact ⟨reply, by rw [repliesTo_append, hreply, h', List.nil_append]⟩

/-! ## Endings -/

namespace Server

section
variable {s : Server n} {co : CoroId} {r : Readings n} {p : Point n} {ws : List (Event n)}

/-- A login that is resumed with ready results and finds its user gets a token for it. -/
def SignsToken (s : Server n) (co : CoroId) (r : Readings n) : Prop :=
  ∀ kc ∈ s.resultsFrom co, (s.coros co).data.isLogin = true →
    ∀ userId ∈ loginResults UINT_MAX r.results, userId < UINT_MAX →
      (r.signedJWT userId).isSome = true

instance (s : Server n) (co : CoroId) (r : Readings n) : Decidable (s.SignsToken co r) :=
  have : Decidable (∀ userId ∈ loginResults UINT_MAX r.results, userId < UINT_MAX →
      (r.signedJWT userId).isSome = true) :=
    Option.decidableForallMem _
  inferInstanceAs (Decidable (∀ kc ∈ s.resultsFrom co, (s.coros co).data.isLogin = true →
    ∀ userId ∈ loginResults UINT_MAX r.results, userId < UINT_MAX →
      (r.signedJWT userId).isSome = true))

theorem oneReply_replyWords (hw : s.uvIsWritable (s.coros co).mStream r.writable = true)
    (reply : Reply) : OneReply (s.coros co).mStream (s.replyWords co r reply) := by
  refine ⟨reply, ?_⟩
  rw [replyWords, if_pos hw]
  simp [repliesTo, Event.isReplyTo]

theorem repliesTo_updateWords (st : StreamId) (k : Fin n) (c : ConnId) (userId : UInt32) :
    repliesTo st (updateWords r k c userId) = [] := by
  unfold updateWords
  split <;> rfl

theorem oneReply_resultWords (hw : s.uvIsWritable (s.coros co).mStream r.writable = true)
    {k : Fin n} {c : ConnId} (htoken : (s.coros co).data.isLogin = true →
      ∀ userId ∈ loginResults UINT_MAX r.results, userId < UINT_MAX →
        (r.signedJWT userId).isSome = true) :
    OneReply (s.coros co).mStream (s.resultWords co r k c) := by
  unfold resultWords
  split
  · next data hdata =>
    split
    · exact oneReply_replyWords hw _
    · next userId hresults =>
      rw [loginWords, if_pos hw]
      split
      · next huser =>
        have hsigned := htoken (by rw [hdata]; rfl) userId hresults huser
        cases htok : r.signedJWT userId with
        | none => rw [htok] at hsigned; cases hsigned
        | some token =>
            exact (oneReply_replyWords hw _).nil_append (repliesTo_updateWords _ k c userId)
      · exact oneReply_replyWords hw _
  · exact oneReply_replyWords hw _

/-- **Every way to end is one answer**, and what comes before the end is none, as long as the client
is open. -/
theorem Said.answer (h : Said s co r p ws) (halive : (s.coros co).point ≠ .dead)
    (hupdate : ∀ k c, (s.coros co).point ≠ .waitUpdate k c)
    (hopen : (s.streams (s.coros co).mStream).closing = false) (hw : r.writable = true)
    (htoken : s.SignsToken co r) :
    (p = .dead ∧ OneReply (s.coros co).mStream ws) ∨
      (p ≠ .dead ∧ repliesTo (s.coros co).mStream ws = []) := by
  have hwritable : s.uvIsWritable (s.coros co).mStream r.writable = true := by
    simp [uvIsWritable, hw, hopen]
  cases h with
  | idle => exact .inr ⟨halive, rfl⟩
  | gone _ hclosing =>
      rw [hopen] at hclosing
      cases hclosing
  | aborted => exact .inl ⟨rfl, oneReply_replyWords hwritable _⟩
  | waits => exact .inr ⟨by simp, rfl⟩
  | refused => exact .inl ⟨rfl, oneReply_replyWords hwritable _⟩
  | asked k c => exact .inr ⟨by simp, rfl⟩
  | finished k c hpoint hdone =>
      refine .inl ⟨rfl, OneReply.append_nil ?_ rfl⟩
      split
      · exact oneReply_replyWords hwritable _
      · next hterm =>
        exact oneReply_resultWords hwritable
          (htoken (k, c) (mem_resultsFrom hpoint hdone (by simpa using hterm)))
  | updated k c hpoint => exact absurd hpoint (hupdate k c)

end

/-! ## Reads -/

theorem safeUvClose_closing (s : Server n) (st : StreamId) :
    ((s.safeUvClose st).streams st).closing = true := by
  unfold safeUvClose
  dsimp only
  split
  · next hclosing => exact hclosing
  · show (Function.update s.streams st { s.streams st with closing := true } st).closing = true
    rw [Function.update_self]

theorem runAction_closing {s : Server n} {st st' : StreamId} {writable : Bool}
    (a : Action AuthPath AuthRpc) (h : (s.streams st').closing = true) :
    ((s.runAction st writable a).streams st').closing = true := by
  have hplain := fun ha => (@runAction_plain _ s st writable a ha).closes.closing_of st' h
  by_cases ha : Creates a
  · obtain ⟨cb, msgid, params, paramsCount, data, converted, rfl, hcall⟩ := ha
    rw [runAction, hcall]
    dsimp only
    unfold runAuthCall
    dsimp only
    split <;> exact h
  · exact hplain ha

theorem runActions_closing {s : Server n} {st st' : StreamId} {writable : Bool}
    (as : List (Action AuthPath AuthRpc)) (h : (s.streams st').closing = true) :
    ((s.runActions st writable as).streams st').closing = true := by
  induction as generalizing s with
  | nil => exact h
  | cons a as ih => exact ih (runAction_closing a h)

theorem runActions_closes {s : Server n} {st : StreamId} {writable : Bool}
    {as : List (Action AuthPath AuthRpc)} (h : .close ∈ as) :
    ((s.runActions st writable as).streams st).closing = true := by
  induction as generalizing s with
  | nil => cases h
  | cons a as ih =>
      rcases List.mem_cons.1 h with rfl | h
      · exact runActions_closing as (safeUvClose_closing s st)
      · exact ih h

/-- **What a read says goes to its own stream**, and then the stream is closed. -/
theorem httpRead_said (env : AuthEnv) (s : Server n) (st : StreamId) (nread : Int) (buf : Bytes)
    (writable : Bool) :
    (∃ ws, (s.httpRead env st nread buf writable).said = ws ++ s.said ∧
        ∀ e ∈ ws, ∃ reply, e = .reply st reply) ∧
      (((s.httpRead env st nread buf writable).streams st).closing = true ∨
        (s.httpRead env st nread buf writable).said = s.said) := by
  obtain ⟨ws, hsaid, hws⟩ := @runActions_said _ (s.useStream st) st writable
    (httpOnRead env.http authSettings nread buf)
  refine ⟨⟨ws, hsaid, fun e he => ?_⟩, ?_⟩
  · obtain ⟨reply, he, -⟩ := hws e he
    exact ⟨reply, he⟩
  · rcases httpOnRead_closes_or_silent env.http authSettings nread buf with hclose | hsilent
    · exact .inl (runActions_closes hclose)
    · right
      have hnil : ws = [] := by
        refine List.eq_nil_iff_forall_not_mem.2 fun e he => ?_
        obtain ⟨reply, -, hmem⟩ := hws e he
        exact absurd (hsilent _ hmem) (by simp [Action.isReply])
      rw [hnil] at hsaid
      exact hsaid

/-! ## Stages -/

/-- `co` is the one coroutine for the client `st`. -/
structure Asked (st : StreamId) (co : CoroId) (s : Server n) : Prop where
  created : co < s.nextCoro
  mStream : (s.coros co).mStream = st
  only : ∀ co' < s.nextCoro, (s.coros co').mStream = st → co' = co
  lt : st < s.nextStream

/-- The stages of a client. -/
inductive Stage (st : StreamId) (s : Server n) : Prop
  | unasked : (∀ co < s.nextCoro, (s.coros co).mStream ≠ st) →
      repliesTo st s.said = [] ∨ (st < s.nextStream ∧ (s.streams st).closing = true) → Stage st s
  | underWay (co : CoroId) : Asked st co s → (s.coros co).point ≠ .dead →
      (s.streams st).closing = false → repliesTo st s.said = [] → Stage st s
  | answered (co : CoroId) : Asked st co s → (s.coros co).point = .dead →
      (∃ reply, repliesTo st s.said = [.reply st reply] ∧
        reply.id = some (s.coros co).data.mId) →
      co ∈ s.mUntrackedCoroutines ∨ (s.streams st).closing = true → Stage st s

/-- Nothing is read from the client while a coroutine is under way for it, polling does not fail for
it, it stays writable, and its login gets a token. -/
abbrev answersTo (st : StreamId) : Conds n where
  onRead s st' nread := st' = st → nread ≠ 0 →
    ∀ co ∈ s.mUntrackedCoroutines, (s.coros co).mStream ≠ st
  onPoll s k status consumed :=
    pollFails status consumed = true → (s.mConnections k).mStream ≠ some st
  onResume s co r := (s.coros co).mStream = st → r.writable = true ∧ s.SignsToken co r

namespace Stage

variable {st : StreamId} {s s' : Server n}

/-- Nothing happens to the client and to its coroutine. -/
theorem of_others (h : Stage st s)
    (hnew : ∀ co < s'.nextCoro, (s'.coros co).mStream = st →
      co < s.nextCoro ∧ s'.coros co = s.coros co)
    (hold : ∀ co < s.nextCoro, (s.coros co).mStream = st →
      co < s'.nextCoro ∧ s'.coros co = s.coros co)
    (huntracked : ∀ co ∈ s.mUntrackedCoroutines, co ∈ s'.mUntrackedCoroutines)
    (hreplies : repliesTo st s'.said = repliesTo st s.said)
    (hnext : s.nextStream ≤ s'.nextStream)
    (hclosing : st < s.nextStream → (s'.streams st).closing = (s.streams st).closing) :
    Stage st s' := by
  have hasked : ∀ {co}, Asked st co s → Asked st co s' := by
    intro co ha
    obtain ⟨hlt, hcoro⟩ := hold co ha.created ha.mStream
    refine ⟨hlt, by rw [hcoro, ha.mStream], ?_, ha.lt.trans_le hnext⟩
    intro co' hco' hst
    obtain ⟨hlt', hcoro'⟩ := hnew co' hco' hst
    exact ha.only co' hlt' (hcoro' ▸ hst)
  cases h with
  | unasked hnone hsilent =>
      refine .unasked ?_ ?_
      · intro co hco hst
        obtain ⟨hlt, hcoro⟩ := hnew co hco hst
        exact hnone co hlt (hcoro ▸ hst)
      · rw [hreplies]
        rcases hsilent with hnil | ⟨hlt, hc⟩
        · exact .inl hnil
        · exact .inr ⟨hlt.trans_le hnext, (hclosing hlt).trans hc⟩
  | underWay co ha halive hopen hnil =>
      have hcoro := (hold co ha.created ha.mStream).2
      exact .underWay co (hasked ha) (by rwa [hcoro]) ((hclosing ha.lt).trans hopen)
        (hreplies.trans hnil)
  | answered co ha hdead hreply hdone =>
      have hcoro := (hold co ha.created ha.mStream).2
      refine .answered co (hasked ha) (by rwa [hcoro]) ?_ ?_
      · rw [hreplies, hcoro]
        exact hreply
      · rw [hclosing ha.lt]
        exact hdone.imp_left (huntracked co)

theorem of_same (h : Stage st s) (hc : SameCoros s s')
    (hreplies : repliesTo st s'.said = repliesTo st s.said)
    (hnext : s.nextStream ≤ s'.nextStream)
    (hclosing : st < s.nextStream → (s'.streams st).closing = (s.streams st).closing) :
    Stage st s' :=
  h.of_others (fun _ hco _ => ⟨hc.nextCoro ▸ hco, by rw [hc.coros]⟩)
    (fun _ hco _ => ⟨hc.nextCoro ▸ hco, by rw [hc.coros]⟩)
    (fun _ hco => hc.untracked ▸ hco) hreplies hnext hclosing

theorem connect (h : Stage st s) (accepted : Bool) : Stage st (s.connect accepted) := by
  obtain ⟨hnext, hother, -⟩ := connect_streams s accepted
  exact h.of_same (connect_frame s accepted).2 (by rw [said_connect]) (hnext ▸ Nat.le_succ _)
    fun hlt => by rw [hother st hlt.ne]

/-- What is said to other streams is not said to `st`. -/
theorem repliesTo_other {st' : StreamId} {ws es : List (Event n)} (hst : st' ≠ st)
    (hws : ∀ e ∈ ws, ∀ st'' reply, e = .reply st'' reply → st'' = st') :
    repliesTo st (ws ++ es) = repliesTo st es := by
  have hnil : repliesTo st ws = [] :=
    repliesTo_eq_nil fun e he reply heq => hst (hws e he st reply heq).symm
  rw [repliesTo_append, hnil, List.nil_append]

/-- A client that is read from has not asked yet: its coroutine would be under way or have closed
it. -/
theorem unasked_of_open (hs : Ownership s) (h : Stage st s) (hopen : (s.streams st).closing = false)
    (hfree : ∀ co ∈ s.mUntrackedCoroutines, (s.coros co).mStream ≠ st) :
    (∀ co < s.nextCoro, (s.coros co).mStream ≠ st) ∧ repliesTo st s.said = [] := by
  have hclosing : ¬ (s.streams st).closing = true := by simp [hopen]
  cases h with
  | unasked hnone hsilent => exact ⟨hnone, hsilent.resolve_right fun hc => hclosing hc.2⟩
  | underWay co ha halive =>
      exact absurd ha.mStream (hfree co (hs.tracked.untracked co halive))
  | answered co ha hdead _ hdone =>
      exact absurd ha.mStream (hfree co (hdone.resolve_right hclosing))

/-- The first coroutine for a client. -/
theorem create {data : AuthData} {es : List (Event n)} (hlt : st < s.nextStream)
    (hopen : (s.streams st).closing = false) (hnone : ∀ co < s.nextCoro, (s.coros co).mStream ≠ st)
    (hnil : repliesTo st ((s.log es).createUntrackedCoroutine st data).said = []) :
    Stage st ((s.log es).createUntrackedCoroutine st data) := by
  refine .underWay s.nextCoro ⟨Nat.lt_succ_self _, ?_, ?_, hlt⟩ ?_ hopen hnil
  · rw [coros_created_self]
  · intro co hco hst
    have hcases : co < s.nextCoro ∨ co = s.nextCoro := Nat.lt_succ_iff_lt_or_eq.1 hco
    rcases hcases with hco | rfl
    · rw [coros_created_other hco.ne] at hst
      exact absurd hst (hnone co hco)
    · rfl
  · rw [coros_created_self]
    simp

/-- A read of another client. -/
theorem httpRead_other (h : Stage st s) {env : AuthEnv} {st' : StreamId} (hst : st' ≠ st)
    (nread : Int) (buf : Bytes) (writable : Bool) :
    Stage st (s.httpRead env st' nread buf writable) := by
  obtain ⟨⟨ws, hsaid, hws⟩, -⟩ := httpRead_said env s st' nread buf writable
  have hmove := httpRead_cases env s st' nread buf writable
  have hreplies : repliesTo st (s.httpRead env st' nread buf writable).said =
      repliesTo st s.said := by
    rw [hsaid]
    refine repliesTo_other hst fun e he st'' reply heq => ?_
    obtain ⟨reply', heq'⟩ := hws e he
    rw [heq] at heq'
    exact (Event.reply.inj heq').1
  generalize s.httpRead env st' nread buf writable = s' at hreplies hmove ⊢
  cases hmove with
  | plain _ hplain =>
      exact h.of_same hplain.coros hreplies hplain.closes.nextStream.ge
        fun _ => by rw [hplain.closes.other st (Ne.symm hst)]
  | create data es hes =>
      refine h.of_others ?_ ?_ (fun co hco => List.mem_append_left _ hco) hreplies le_rfl
        fun _ => rfl
      · intro co hco hclient
        have hcases : co < s.nextCoro ∨ co = s.nextCoro := Nat.lt_succ_iff_lt_or_eq.1 hco
        rcases hcases with hco | rfl
        · exact ⟨hco, coros_created_other hco.ne⟩
        · rw [coros_created_self] at hclient
          exact absurd hclient hst
      · intro co hco _
        exact ⟨hco.trans (Nat.lt_succ_self _), coros_created_other hco.ne⟩

theorem httpRead (hs : Ownership s) (h : Stage st s) {env : AuthEnv} {st' : StreamId} {nread : Int}
    {buf : Bytes} {writable : Bool} (hread : s.readable st' = true)
    (hC : st' = st → nread ≠ 0 → ∀ co ∈ s.mUntrackedCoroutines, (s.coros co).mStream ≠ st) :
    Stage st (s.httpRead env st' nread buf writable) := by
  by_cases hst : st' = st
  · subst hst
    by_cases hn : nread = 0
    · subst hn
      rw [httpRead_zero]
      exact h.of_same ⟨rfl, rfl, rfl⟩ rfl le_rfl fun _ => rfl
    · obtain ⟨hlt, hopen⟩ : st' < s.nextStream ∧ (s.streams st').closing = false := by
        simpa [readable] using hread
      obtain ⟨hnone, hnil⟩ := h.unasked_of_open hs hopen (hC rfl hn)
      obtain ⟨-, hclose⟩ := httpRead_said env s st' nread buf writable
      have hmove := httpRead_cases env s st' nread buf writable
      generalize s.httpRead env st' nread buf writable = s' at hclose hmove ⊢
      cases hmove with
      | plain _ hplain =>
          refine .unasked (fun co hco => ?_) ?_
          · rw [hplain.coros.coros]
            exact hnone co (hplain.coros.nextCoro ▸ hco)
          · rcases hclose with hclose | hsilent
            · exact .inr ⟨hplain.closes.nextStream ▸ hlt, hclose⟩
            · exact .inl (by rw [hsilent, hnil])
      | create data es hes =>
          have hsilent : ((s.log es).createUntrackedCoroutine st' data).said = s.said := by
            refine hclose.resolve_left fun hclosing => ?_
            rw [show (((s.log es).createUntrackedCoroutine st' data).streams st').closing =
              (s.streams st').closing from rfl, hopen] at hclosing
            cases hclosing
          exact .create hlt hopen hnone (by rw [hsilent, hnil])
  · exact h.httpRead_other hst nread buf writable

/-- A coroutine of another client says nothing to this one. -/
theorem resumed_other (h : Stage st s) {co : CoroId} (hst : (s.coros co).mStream ≠ st)
    (r : Readings n) : Stage st (s.resume co r) := by
  have hr := resume_cases s co r
  obtain ⟨ws, hsay, hsaid⟩ := resume_said s co r
  have hown := hsay.ownReply
  generalize s.resume co r = s' at hr hsay hsaid ⊢
  obtain ⟨p, hcoros⟩ := hr.coros
  have hframe := hr.frame
  have hreplies : repliesTo st s'.said = repliesTo st s.said := by
    rw [hsaid]
    exact repliesTo_other hst fun e he st'' reply heq => (hown e he st'' reply heq).1
  have hcoro : ∀ co', (s.coros co').mStream = st → s'.coros co' = s.coros co' := by
    intro co' hclient
    rw [hcoros, Function.update_of_ne]
    rintro rfl
    exact hst hclient
  refine h.of_others ?_ ?_ (fun co' hco' => hframe.untracked ▸ hco') hreplies
    hframe.nextStream.ge fun _ => by rw [hframe.streams]
  · intro co' hco' hclient
    exact ⟨hframe.nextCoro ▸ hco', hcoro co' ((hr.mStream co').symm.trans hclient)⟩
  · intro co' hco' hclient
    exact ⟨hframe.nextCoro ▸ hco', hcoro co' hclient⟩

theorem resumed (hs : Ownership s) (h : Stage st s) {co : CoroId} {r : Readings n}
    (hco : co ∈ s.mUntrackedCoroutines)
    (hC : (s.coros co).mStream = st → r.writable = true ∧ s.SignsToken co r) :
    Stage st (s.resume co r) := by
  by_cases hst : (s.coros co).mStream ≠ st
  · exact h.resumed_other hst r
  have hst : (s.coros co).mStream = st := not_not.1 hst
  obtain ⟨hw, htoken⟩ := hC hst
  have hr := resume_cases s co r
  obtain ⟨ws, hsay, hsaid⟩ := resume_said s co r
  have hidle : (s.coros co).point = .dead → s.resume co r = s := by
    intro hdead
    rw [resume, hdead]
  generalize s.resume co r = s' at hr hsay hsaid hidle ⊢
  have hframe := hr.frame
  cases h with
  | unasked hnone => exact absurd hst (hnone co (hs.tracked.lt co hco))
  | underWay co₁ ha halive hopen hnil =>
      obtain rfl : co = co₁ := ha.only co (hs.tracked.lt co hco) hst
      have ha' : Asked st co s' :=
        ⟨hframe.nextCoro ▸ ha.created, (hr.mStream co).trans hst,
          fun co' hco' hst' =>
            ha.only co' (hframe.nextCoro ▸ hco') ((hr.mStream co').symm.trans hst'),
          hframe.nextStream ▸ ha.lt⟩
      have hreplies : repliesTo st s'.said = repliesTo st ws := by
        rw [hsaid, repliesTo_append, hnil, List.append_nil]
      rcases hsay.answer halive (hs.tracked.noUpdate co) (hst ▸ hopen) hw htoken with
        ⟨hdead, hone⟩ | ⟨halive', hsilent⟩
      · rw [hst] at hone
        obtain ⟨reply, hreply⟩ := hone
        have hmem : .reply st reply ∈ ws := by
          have hself : Event.reply st reply ∈ repliesTo st ws := by simp [hreply]
          exact (List.mem_filter.1 hself).1
        refine .answered co ha' hdead ⟨reply, hreplies.trans hreply, ?_⟩
          (.inl (hframe.untracked ▸ hco))
        rw [(hr.fixed co).2]
        exact (hsay.ownReply _ hmem st reply rfl).2.id
      · refine .underWay co ha' halive' ?_ (hreplies.trans (hst ▸ hsilent))
        rw [hframe.streams]
        exact hopen
  | answered co₁ ha hdead hreply hdone =>
      obtain rfl : co = co₁ := ha.only co (hs.tracked.lt co hco) hst
      rw [hidle hdead]
      exact .answered co ha hdead hreply hdone

theorem polled (h : Stage st s) {k : Fin n} {status : Int} {consumed : Bool}
    (hC : pollFails status consumed = true → (s.mConnections k).mStream ≠ some st)
    (hp : Polled s k status consumed s') : Stage st s' := by
  have hreplies : repliesTo st s'.said = repliesTo st s.said := by
    rcases hp.said with ⟨hsaid, -⟩ | hsaid
    · rw [hsaid]
    · rw [hsaid]
      rfl
  have hsame := hp.frame.1
  cases hp with
  | idle => exact h
  | ready => exact h.of_same hsame hreplies le_rfl fun _ => rfl
  | failed _ hfails hcase =>
      rcases hcase with ⟨rfl, -⟩ | ⟨st', hst', rfl⟩
      · exact h.of_same hsame hreplies le_rfl fun _ => rfl
      · have hne : st ≠ st' := by
          rintro rfl
          exact hC hfails hst'
        have hclose := safeUvClose_closes ((s.setCtx k
          { (s.mConnections k).pollStop with mTerminate := true }).log [.polled k]) st'
        exact h.of_same hsame hreplies hclose.nextStream.ge
          fun _ => congrArg UvStream.closing (hclose.other st hne)

theorem closeDead_closing {co : CoroId} {cos : List CoroId} (hco : co ∈ cos)
    (hdead : (s.coros co).point.isDead = true) :
    ((closeDead cos s).streams (s.coros co).mStream).closing = true := by
  induction cos generalizing s with
  | nil => cases hco
  | cons co' cos ih =>
      have hcoros : (if (s.coros co').point.isDead then s.safeUvClose (s.coros co').mStream
          else s).coros = s.coros := by
        split
        · exact (safeUvClose_sameCoros s _).coros
        · rfl
      rw [closeDead]
      rcases List.mem_cons.1 hco with rfl | hco
      · rw [if_pos hdead]
        exact (closeDead_closes cos _).closing _ (safeUvClose_closing s _)
      · generalize (if (s.coros co').point.isDead then s.safeUvClose (s.coros co').mStream
          else s) = t at hcoros ⊢
        rw [← hcoros]
        exact ih hco (by rwa [hcoros])

theorem cleanup (hs : Ownership s) (h : Stage st s) : Stage st s.cleanupDeadCoroutines := by
  have hclose := closeDead_closes s.mUntrackedCoroutines s
  have hcoros : s.cleanupDeadCoroutines.coros = s.coros := hclose.coros.coros
  have hnextCoro : s.cleanupDeadCoroutines.nextCoro = s.nextCoro := hclose.coros.nextCoro
  have hnext : s.cleanupDeadCoroutines.nextStream = s.nextStream := hclose.nextStream
  have hreplies : repliesTo st s.cleanupDeadCoroutines.said = repliesTo st s.said := by
    rw [said_cleanup]
  have hasked : ∀ {co}, Asked st co s → Asked st co s.cleanupDeadCoroutines := by
    intro co ha
    refine ⟨hnextCoro ▸ ha.created, by rw [hcoros, ha.mStream], ?_, hnext ▸ ha.lt⟩
    intro co' hco' hst
    rw [hcoros] at hst
    exact ha.only co' (hnextCoro ▸ hco') hst
  cases h with
  | unasked hnone hsilent =>
      refine .unasked ?_ ?_
      · intro co hco
        rw [hcoros]
        exact hnone co (hnextCoro ▸ hco)
      · rw [hreplies, hnext]
        exact hsilent.imp_right fun hc => ⟨hc.1, hclose.closing st hc.2⟩
  | underWay co ha halive hopen hnil =>
      have hother : s.cleanupDeadCoroutines.streams st = s.streams st := by
        refine hclose.other st fun co' hco' hdead hst => ?_
        rw [ha.only co' (hs.tracked.lt co' hco') hst, Point.isDead_eq_false halive] at hdead
        cases hdead
      exact .underWay co (hasked ha) (by rwa [hcoros]) (by rwa [hother]) (hreplies.trans hnil)
  | answered co ha hdead hreply hdone =>
      refine .answered co (hasked ha) (by rwa [hcoros]) ?_ (.inr ?_)
      · rw [hreplies, hcoros]
        exact hreply
      · rcases hdone with hco | hc
        · rw [← ha.mStream]
          exact closeDead_closing hco (by rw [hdead]; rfl)
        · exact hclose.closing st hc

theorem kept (env : AuthEnv) (st : StreamId) :
    Kept env (answersTo (n := n) st) Sound (Stage st) where
  connect s accepted _ h := h.connect accepted
  read s st' nread buf writable hs h hread hC := h.httpRead hs.2 hread hC
  poll s k status consumed busy hs h hk hC :=
    h.polled hC (pollCallback_cases status consumed busy hk (hs.1.pollData k))
  reconnect s k connected _ h _ := by
    obtain ⟨hcoros, hstreams, hnext, -⟩ := reconnect_frame s k connected
    exact h.of_same hcoros (by rw [said_reconnect]) hnext.ge fun _ => by rw [hstreams]
  resume s co r hs h hco hC := h.resumed hs.2 hco hC
  cleanup s hs h := h.cleanup hs.2
  closeCb s st' _ h _ := by
    refine h.of_same ⟨rfl, rfl, rfl⟩ rfl le_rfl fun _ => ?_
    show (Function.update s.streams st' { s.streams st' with freed := true } st).closing = _
    by_cases hst : st = st'
    · subst hst
      rw [Function.update_self]
    · rw [Function.update_of_ne hst]

end Stage

theorem InitFrom.stage {s : Server n} (h : InitFrom n s) (st : StreamId) : Stage st s := by
  refine .unasked ?_ (.inl (by rw [h.said]; rfl))
  intro co hco
  rw [h.nextCoro] at hco
  exact absurd hco (Nat.not_lt_zero co)

/-- A login that finds its user, for whom no token is signed. -/
def loginWithoutToken : List (Input 1) :=
  [.connect true, directLoginRead 0, .coTimer fun _ => {}, resultsReady,
    .coTimer fun _ => { results := [.tuplesOk [7]], signedJWT := fun _ => none }]

end Server

end ServerBase
