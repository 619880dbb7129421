import ServerBase.Auth.Waiting

/-!
# The streams of clients

A stream is freed by its close callback. Until then the read callback, the coroutine that was
created for it, the list of coroutines and the context in use all point to it.

**The invariant** (`ClientsOpen`). Every untracked coroutine has a client of its own whose close was
not requested. It is closed by `CleanupDeadCoroutines`, together with its coroutine.

**The result** (`no_use_after_free`) holds in the runs in which nobody else closes the client of a
coroutine: neither a read of that client, nor a poll callback that gives up. A client that goes away
during its login is used after it was freed (`use_after_free`).
-/

namespace ServerBase

namespace Server

variable {n : Nat}

structure ClientsOpen (s : Server n) : Prop where
  lt : ∀ co ∈ s.mUntrackedCoroutines, (s.coros co).mStream < s.nextStream
  notClosing : ∀ co ∈ s.mUntrackedCoroutines, (s.streams (s.coros co).mStream).closing = false
  inj : ∀ co ∈ s.mUntrackedCoroutines, ∀ co' ∈ s.mUntrackedCoroutines,
    (s.coros co).mStream = (s.coros co').mStream → co = co'
  closing : ∀ st, (s.streams st).freed = true → (s.streams st).closing = true

/-- Nothing is read from a coroutine's client, and polling does not fail on a context in use. -/
abbrev sparesClients : Conds n where
  onRead s st nread := nread ≠ 0 → ∀ co ∈ s.mUntrackedCoroutines, (s.coros co).mStream ≠ st
  onPoll s k status consumed :=
    pollFails status consumed = true → (s.mConnections k).mInUse = false

namespace ClientsOpen

theorem notFreed_of_notClosing {s : Server n} (h : ClientsOpen s) {st : StreamId}
    (hst : (s.streams st).closing = false) : (s.streams st).freed = false := by
  by_contra hfreed
  rw [h.closing st (by simpa using hfreed)] at hst
  cases hst

/-- The client of an untracked coroutine is not freed. -/
theorem notFreed {s : Server n} (h : ClientsOpen s) {co : CoroId}
    (hco : co ∈ s.mUntrackedCoroutines) : (s.streams (s.coros co).mStream).freed = false :=
  h.notFreed_of_notClosing (h.notClosing co hco)

/-- The same coroutines have the same clients, and these are as they were. -/
theorem of_clients {s s' : Server n} (h : ClientsOpen s)
    (huntracked : ∀ co ∈ s'.mUntrackedCoroutines, co ∈ s.mUntrackedCoroutines)
    (hclient : ∀ co, (s'.coros co).mStream = (s.coros co).mStream)
    (hnext : s.nextStream ≤ s'.nextStream)
    (hstreams : ∀ co ∈ s'.mUntrackedCoroutines,
      s'.streams (s.coros co).mStream = s.streams (s.coros co).mStream)
    (hclosing : ∀ st, (s'.streams st).freed = true → (s'.streams st).closing = true) :
    ClientsOpen s' where
  lt co hco := by
    rw [hclient]
    exact (h.lt co (huntracked co hco)).trans_le hnext
  notClosing co hco := by
    rw [hclient, hstreams co hco]
    exact h.notClosing co (huntracked co hco)
  inj co hco co' hco' heq := by
    rw [hclient, hclient] at heq
    exact h.inj co (huntracked co hco) co' (huntracked co' hco') heq
  closing := hclosing

theorem of_streams {s s' : Server n} (h : ClientsOpen s) (hc : SameCoros s s')
    (hstreams : s'.streams = s.streams) (hnext : s'.nextStream = s.nextStream) :
    ClientsOpen s' :=
  h.of_clients (fun co hco => hc.untracked ▸ hco) (fun co => by rw [hc.coros]) hnext.ge
    (fun co _ => by rw [hstreams]) fun st => by rw [hstreams]; exact h.closing st

/-- A stream that is nobody's client is used and closed. -/
theorem of_closes {s s' : Server n} {st : StreamId} (h : ClientsOpen s) (hc : SameCoros s s')
    (hclose : Closes s st s') (hst : ∀ co ∈ s.mUntrackedCoroutines, (s.coros co).mStream ≠ st) :
    ClientsOpen s' := by
  refine h.of_clients (fun co hco => hc.untracked ▸ hco) (fun co => by rw [hc.coros])
    hclose.nextStream.ge ?_ ?_
  · intro co hco
    exact hclose.other _ (hst co (hc.untracked ▸ hco))
  · intro st' hfreed
    rw [hclose.freed_eq] at hfreed
    exact hclose.closing_of st' (h.closing st' hfreed)

theorem connect {s : Server n} (h : ClientsOpen s) (accepted : Bool) :
    ClientsOpen (s.connect accepted) := by
  obtain ⟨hnext, hother, hnew⟩ := connect_streams s accepted
  have hc := (connect_frame s accepted).2
  refine h.of_clients (fun co hco => hc.untracked ▸ hco) (fun co => by rw [hc.coros])
    (hnext ▸ Nat.le_succ _) ?_ ?_
  · intro co hco
    exact hother _ (h.lt co (hc.untracked ▸ hco)).ne
  · intro st hfreed
    have hne : st ≠ s.nextStream := by
      rintro rfl
      rw [hnew] at hfreed
      cases hfreed
    rw [hother st hne] at hfreed ⊢
    exact h.closing st hfreed

/-- A coroutine is created for a client that has none. -/
theorem create {s : Server n} {st : StreamId} {data : AuthData} {es : List (Event n)}
    (hs : Ownership s) (h : ClientsOpen s) (hlt : st < s.nextStream)
    (hopen : (s.streams st).closing = false)
    (hst : ∀ co ∈ s.mUntrackedCoroutines, (s.coros co).mStream ≠ st) :
    ClientsOpen ((s.log es).createUntrackedCoroutine st data) := by
  have hmem : ∀ co ∈ ((s.log es).createUntrackedCoroutine st data).mUntrackedCoroutines,
      co ∈ s.mUntrackedCoroutines ∧
          ((s.log es).createUntrackedCoroutine st data).coros co = s.coros co ∨
        co = s.nextCoro ∧
          (((s.log es).createUntrackedCoroutine st data).coros co).mStream = st := by
    intro co hco
    rcases List.mem_append.1 hco with hco | hco
    · exact .inl ⟨hco, coros_created_other (hs.tracked.lt co hco).ne⟩
    · obtain rfl := List.mem_singleton.1 hco
      exact .inr ⟨rfl, congrArg Coro.mStream coros_created_self⟩
  refine
    { lt := fun co hco => ?_
      notClosing := fun co hco => ?_
      inj := fun co hco co' hco' hsame => ?_
      closing := h.closing }
  · rcases hmem co hco with ⟨hco, heq⟩ | ⟨-, heq⟩ <;> rw [heq]
    · exact h.lt co hco
    · exact hlt
  · rcases hmem co hco with ⟨hco, heq⟩ | ⟨-, heq⟩ <;> rw [heq]
    · exact h.notClosing co hco
    · exact hopen
  · rcases hmem co hco with ⟨hco, heq⟩ | ⟨hnew, heq⟩ <;>
      rcases hmem co' hco' with ⟨hco', heq'⟩ | ⟨hnew', heq'⟩ <;> rw [heq, heq'] at hsame
    · exact h.inj co hco co' hco' hsame
    · exact absurd hsame (hst co hco)
    · exact absurd hsame.symm (hst co' hco')
    · rw [hnew, hnew']

theorem httpRead {s s' : Server n} {st : StreamId} (hs : Ownership s) (h : ClientsOpen s)
    (hread : s.readable st = true)
    (hst : ∀ co ∈ s.mUntrackedCoroutines, (s.coros co).mStream ≠ st) (hr : HttpRead s st s') :
    ClientsOpen s' := by
  simp only [readable, Bool.and_eq_true, decide_eq_true_eq, Bool.not_eq_true'] at hread
  cases hr with
  | plain _ hplain => exact h.of_closes hplain.coros hplain.closes hst
  | create data es hes => exact h.create hs hread.1 hread.2 hst

/-- `CleanupDeadCoroutines` closes the clients of the coroutines it removes. -/
theorem cleanup {s : Server n} (h : ClientsOpen s) : ClientsOpen s.cleanupDeadCoroutines := by
  have hclose := closeDead_closes s.mUntrackedCoroutines s
  refine h.of_clients (fun co hco => (List.mem_filter.1 hco).1)
    (fun co => congrArg (fun coros => (coros co).mStream) hclose.coros.coros)
    hclose.nextStream.ge ?_ ?_
  · intro co hco
    obtain ⟨hmem, halive⟩ := List.mem_filter.1 hco
    apply hclose.other _
    intro co' hco' hdead heq
    rw [h.inj co' hco' co hmem heq] at hdead
    rw [hdead] at halive
    cases halive
  · intro st hfreed
    exact hclose.closing st (h.closing st ((hclose.freed st).symm.trans hfreed))

theorem closeCb {s : Server n} (h : ClientsOpen s) {st : StreamId}
    (hst : (s.streams st).closing = true) : ClientsOpen (s.closeCb st) := by
  have hother : ∀ {st'}, st' ≠ st → (s.closeCb st).streams st' = s.streams st' :=
    fun hne => Function.update_of_ne hne _ _
  refine h.of_clients (fun _ => id) (fun _ => rfl) le_rfl (fun co hco => hother ?_) ?_
  · intro heq
    have hopen := h.notClosing co hco
    rw [heq, hst] at hopen
    cases hopen
  · intro st'
    by_cases hne : st' = st
    · subst hne
      intro _
      show (Function.update s.streams st' _ st').closing = true
      rw [Function.update_self]
      exact hst
    · rw [hother hne]
      exact h.closing st'

theorem kept (env : AuthEnv) : Kept env (sparesClients (n := n)) Sound ClientsOpen where
  connect s accepted _ h := h.connect accepted
  read s st nread buf writable hs h hread hC := by
    by_cases hn : nread = 0
    · rw [hn, httpRead_zero]
      exact h.of_streams ⟨rfl, rfl, rfl⟩ rfl rfl
    · exact httpRead hs.2 h hread (hC hn) (httpRead_cases env s st nread buf writable)
  poll s k status consumed busy hs h hk hC := by
    have hp := pollCallback_cases status consumed busy hk (hs.1.pollData k)
    obtain ⟨hstreams, hnext⟩ := hp.streams fun hfails => hs.2.leased.streamNone k (hC hfails)
    exact h.of_streams hp.frame.1 hstreams hnext
  reconnect s k connected _ h _ := by
    obtain ⟨hc, hstreams, hnext, -⟩ := reconnect_frame s k connected
    exact h.of_streams hc hstreams hnext
  resume s co r _ h _ _ := by
    have hr := resume_cases s co r
    have hframe := hr.frame
    refine h.of_clients (fun co' hco' => hframe.untracked ▸ hco') hr.mStream hframe.nextStream.ge
      (fun co' _ => by rw [hframe.streams]) ?_
    rw [hframe.streams]
    exact h.closing
  cleanup s _ h := h.cleanup
  closeCb s st _ h hst := h.closeCb hst

end ClientsOpen

theorem InitFrom.clientsOpen {s : Server n} (h : InitFrom n s) : ClientsOpen s where
  lt co hco := by rw [h.untracked] at hco; cases hco
  notClosing co hco := by rw [h.untracked] at hco; cases hco
  inj co hco := by rw [h.untracked] at hco; cases hco
  closing st hst := by rw [h.streams] at hst; cases hst

/-! ## Uses -/

/-- The event is no use of a freed stream. -/
def NotFreed (e : Event n) : Prop := ∀ st, e ≠ .useStream st true

theorem StreamEvent.notFreed {s : Server n} {st : StreamId} {e : Event n}
    (h : StreamEvent s st e) (hst : (s.streams st).freed = false) : NotFreed e := by
  intro st'
  cases h with
  | use => simp [hst]
  | _ => simp

theorem ReadEvent.notFreed {s : Server n} {st : StreamId} {e : Event n} (h : ReadEvent s st e)
    (hst : (s.streams st).freed = false) : NotFreed e := by
  cases h with
  | stream h => exact h.notFreed hst
  | nullString => exact fun _ => by simp
  | pathOverflow => exact fun _ => by simp

theorem notFreed_kept (env : AuthEnv) :
    Kept env (sparesClients (n := n)) (fun s => Sound s ∧ ClientsOpen s)
      fun s => ∀ e ∈ s.trace, NotFreed e where
  connect s accepted _ h := by
    refine ((connect_adds s accepted).mono fun e he => he.notFreed ?_).forall h
    rw [uvTcpInit_streams_self]
  read s st nread buf writable hq h hread _ := by
    simp only [readable, Bool.and_eq_true, decide_eq_true_eq, Bool.not_eq_true'] at hread
    have hfreed := hq.2.notFreed_of_notClosing hread.2
    have hr := httpRead_cases env s st nread buf writable
    generalize s.httpRead env st nread buf writable = s' at hr ⊢
    cases hr with
    | plain _ hplain => exact (hplain.adds.mono fun e he => he.notFreed hfreed).forall h
    | create data es hes =>
        have hadds : Adds NotFreed s ((s.log es).createUntrackedCoroutine st data) :=
          ⟨es, rfl, fun e he => (hes e he).notFreed hfreed⟩
        exact hadds.forall h
  poll s k status consumed busy hq h hk hC := by
    have hp := pollCallback_cases status consumed busy hk (hq.1.1.pollData k)
    refine (hp.adds.mono ?_).forall h
    intro e he
    rcases he with rfl | ⟨hfails, ⟨rfl, -⟩ | ⟨st, hst, -⟩⟩
    · exact fun _ => by simp
    · exact fun _ => by simp
    · rw [hq.1.2.leased.streamNone k (hC hfails)] at hst
      cases hst
  reconnect s k connected _ h _ := by
    refine ((reconnect_adds s k connected).mono ?_).forall h
    intro e he st
    cases he <;> simp
  resume s co r hq h hco _ := by
    have hfreed := hq.2.notFreed hco
    refine ((resume_cases s co r).adds.mono ?_).forall h
    intro e he st
    rcases he with he | ⟨k, c, -, he⟩
    · cases he with
      | use => simp [hfreed]
      | _ => simp
    · cases he with
      | use => simp [hfreed]
      | _ => simp
  cleanup s hq h := by
    refine Adds.forall (s := s) (t := closeDead s.mUntrackedCoroutines s) ?_ h
    apply (closeDead_closes s.mUntrackedCoroutines s).adds.mono
    intro e he
    obtain ⟨co, hco, -, he⟩ := he
    exact he.notFreed (hq.2.notFreed hco)
  closeCb s st _ h _ := h

theorem InitFrom.notFreed {s : Server n} (h : InitFrom n s) : ∀ e ∈ s.trace, NotFreed e := by
  intro e he st
  cases h.trace e he <;> simp

/-- **No use after free.** In the runs in which the client of a coroutine is closed by nobody but
`CleanupDeadCoroutines`, no freed stream is used, and no coroutine and no context in use points
to one. -/
theorem no_use_after_free (env : AuthEnv) {s : Server n}
    (hs : (env.loop n).Run (Conds.holds sparesClients) s) :
    (∀ st, .useStream st true ∉ s.trace) ∧
      (∀ co ∈ s.mUntrackedCoroutines, (s.streams (s.coros co).mStream).freed = false) ∧
      ∀ k st, (s.mConnections k).mInUse = true → (s.mConnections k).mStream = some st →
        (s.streams st).freed = false := by
  have hkept := ((sound_kept env sparesClients).and (ClientsOpen.kept env)).and
    (notFreed_kept (n := n) env)
  obtain ⟨⟨⟨-, htracked, hleased⟩, hopen⟩, htrace⟩ := hkept.run (fun _ hinit => ⟨⟨sound_loop hinit,
    (initFrom_loop hinit).clientsOpen⟩, (initFrom_loop hinit).notFreed⟩) hs
  refine ⟨fun st hmem => htrace _ hmem st rfl, fun co => hopen.notFreed, ?_⟩
  intro k st huse hst
  obtain ⟨co, c, hw⟩ := hleased.holder k huse
  rw [(hleased.waitPoll co k c hw).2] at hst
  rw [← Option.some.inj hst]
  exact hopen.notFreed (htracked.untracked co (by rw [hw]; simp))

/-- A login that is answered. -/
theorem no_use_after_free_login :
    ∃ s : Server 1, (s.streams 0).freed = true ∧ .useStream 0 true ∉ s.trace := by
  obtain ⟨s, -, hs, hq⟩ := Machine.exists_run_of_replay (directLoginEnv.loop 1)
    (Conds.holds sparesClients)
    [.connect true, directLoginRead 0, .coTimer fun _ => {}, resultsReady,
      .coTimer fun _ => { results := [.tuplesOk [7]] }, .closeCb 0]
    (fun s => (s.streams 0).freed) (oneConnection_init _) (by decide +kernel)
  exact ⟨s, hq, (no_use_after_free directLoginEnv hs).1 0⟩

def UV_EOF : Int := -4095

/-- The client goes away while its login waits for the database. -/
def clientLeaves : List (Input 1) :=
  [.connect true, directLoginRead 0, .coTimer fun _ => {},
    .read 0 UV_EOF (List.replicate MAX_PACKET_SIZE 0) true, .closeCb 0, resultsReady,
    .coTimer fun _ => { results := [.tuplesOk [7]] }]

/-- **A use after free.** The login is resumed with a client that was freed. -/
theorem use_after_free :
    ∃ s : Server 1, (directLoginEnv.loop 1).replay oneConnection clientLeaves = some s ∧
      (directLoginEnv.loop 1).Reachable s ∧ .useStream 0 true ∈ s.trace := by
  obtain ⟨s, hreplay, hs, hq⟩ := Machine.exists_run_of_replay (directLoginEnv.loop 1)
    Machine.anyStep clientLeaves
    (fun s => s.trace.any fun e => e matches .useStream 0 true) (oneConnection_init _)
    (by decide +kernel)
  obtain ⟨e, he, huse⟩ := List.any_eq_true.1 hq
  split at huse
  · exact ⟨s, hreplay, hs, he⟩
  · cases huse

end Server

end ServerBase
