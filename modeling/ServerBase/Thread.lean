import Mathlib.Logic.Function.Basic
import ServerBase.Disposition
import ServerBase.Lib.Machine

/-!
# Who closes a connection

A thread of `http_server_thread_func`, with callbacks of all kinds: path callbacks, RPC callbacks
that are done when they return, and RPC callbacks that leave a coroutine or a job of the thread pool
behind.

**The close.** A read closes its client when it has answered it, and `CleanupDeadCoroutines` closes
the client of a coroutine that has ended. The after-work callback of a job answers its client and
closes nothing.

**The result** (`answered_is_closed`). In the runs in which no after-work callback is the last one
to have its client, every client that was answered is closed, or somebody who will close it still
has it.
-/

namespace ServerBase

variable {P R : Type}

/-- What an RPC callback starts before it returns. -/
inductive Started
  | coroutine
  | work

/-- `CoroutineManager::Coro2`; `dead` is `MCO_DEAD`. -/
structure Coro2 where
  mStream : StreamId
  dead : Bool := false

/-- A `Job` that was given to `uv_queue_work`; `data` is the `msgid`. -/
structure Job where
  client : StreamId
  data : Int

/-- What a coroutine does until it yields or returns: replies to its client, each with what
`uv_is_writable` says. -/
structure CoStep where
  replies : List (Reply × Bool) := []
  returns : Bool := false

inductive ThreadEvent
  | reply (stream : StreamId) (reply : Reply)
  /-- A path callback writes a page. -/
  | page (stream : StreamId)
  | uvClose (stream : StreamId)

/-- The stream a response is written to; every response announces `Connection: close`. -/
def ThreadEvent.answered : ThreadEvent → Option StreamId
  | .reply stream _ => some stream
  | .page stream => some stream
  | .uvClose _ => none

structure Thread where
  streams : StreamId → UvStream
  nextStream : StreamId
  mUntrackedCoroutines : List Coro2
  jobs : List Job
  trace : List ThreadEvent

/-- The callbacks of a server. -/
structure Callbacks (P R : Type) where
  env : Env R
  settings : HTTPServerSettings P R
  /-- What `cb(client, msgid, params, params_count, ...)` starts. -/
  start : R → Int → Option YyjsonVal → Nat → Option Started

namespace Thread

/-! ## Operations -/

def empty : Thread where
  streams _ := {}
  nextStream := 0
  mUntrackedCoroutines := []
  jobs := []
  trace := []

/-- `SAFE_UV_CLOSE(stream, free)` -/
def safeUvClose (t : Thread) (st : StreamId) : Thread :=
  if (t.streams st).closing then t
  else
    { t with
      streams := Function.update t.streams st { t.streams st with closing := true }
      trace := .uvClose st :: t.trace }

/-- `send_jsonrpc_error` and `send_jsonrpc_response` -/
def sendReply (t : Thread) (st : StreamId) (writable : Bool) (reply : Reply) : Thread :=
  if writable && !(t.streams st).closing then { t with trace := .reply st reply :: t.trace } else t

/-- `CreateUntrackedCoroutine` -/
def createUntrackedCoroutine (t : Thread) (st : StreamId) : Thread :=
  { t with mUntrackedCoroutines := t.mUntrackedCoroutines ++ [{ mStream := st }] }

/-- `uv_queue_work` -/
def uvQueueWork (t : Thread) (st : StreamId) (msgid : Int) : Thread :=
  { t with jobs := t.jobs ++ [{ client := st, data := msgid }] }

/-! ## Reads -/

/-- One action of `http_on_read` on the client `st`. -/
def runAction (cbs : Callbacks P R) (t : Thread) (st : StreamId) (writable : Bool) :
    Action P R → Thread
  | .send reply => t.sendReply st writable reply
  | .pathCallback _ => { t with trace := .page st :: t.trace }
  | .rpcCallback cb msgid params paramsCount =>
      match cbs.start cb msgid params paramsCount with
      | some .coroutine => t.createUntrackedCoroutine st
      | some .work => t.uvQueueWork st msgid
      | none => t
  | .close => t.safeUvClose st
  | .jsonrpcRequest _ _ => t
  | .freeDoc => t
  | .freeBuf => t
  | .pathOverflow => t

def runActions (cbs : Callbacks P R) (t : Thread) (st : StreamId) (writable : Bool) :
    List (Action P R) → Thread
  | [] => t
  | a :: as => runActions cbs (t.runAction cbs st writable a) st writable as

/-- `http_on_read` -/
def httpRead (cbs : Callbacks P R) (t : Thread) (st : StreamId) (nread : Int) (buf : Bytes)
    (writable : Bool) : Thread :=
  t.runActions cbs st writable (httpOnRead cbs.env cbs.settings nread buf)

/-! ## The coroutine timer -/

def sendReplies (t : Thread) (st : StreamId) : List (Reply × Bool) → Thread
  | [] => t
  | (reply, writable) :: replies => sendReplies (t.sendReply st writable reply) st replies

/-- `mco_resume` of a coroutine, if it is suspended. -/
def resume (t : Thread) (i : Nat) (step : CoStep) : Thread :=
  match t.mUntrackedCoroutines[i]? with
  | none => t
  | some co =>
      if co.dead then t
      else
        { t.sendReplies co.mStream step.replies with
          mUntrackedCoroutines := t.mUntrackedCoroutines.set i { co with dead := step.returns } }

/-- `StepCoroutines` from the coroutine `i` on. -/
def stepCoroutines (steps : Nat → CoStep) (t : Thread) (i : Nat) : Nat → Thread
  | 0 => t
  | k + 1 => stepCoroutines steps (t.resume i (steps i)) (i + 1) k

/-- The loop of `CleanupDeadCoroutines`: the client of a dead coroutine is closed. -/
def closeDead (t : Thread) : List Coro2 → Thread
  | [] => t
  | co :: cos => closeDead (if co.dead then t.safeUvClose co.mStream else t) cos

/-- `CleanupDeadCoroutines` -/
def cleanupDeadCoroutines (t : Thread) : Thread :=
  { t.closeDead t.mUntrackedCoroutines with
    mUntrackedCoroutines := t.mUntrackedCoroutines.filter fun co => !co.dead }

/-- `CoroutineTimerCB` -/
def coroutineTimerCb (t : Thread) (steps : Nat → CoStep) : Thread :=
  (t.stepCoroutines steps 0 t.mUntrackedCoroutines.length).cleanupDeadCoroutines

/-! ## The other callbacks -/

/-- `http_on_new_connection` -/
def connect (t : Thread) (accepted : Bool) : Thread :=
  let client := t.nextStream
  let t := { t with
    streams := Function.update t.streams client {}
    nextStream := client + 1 }
  if accepted then t else t.safeUvClose client

/-- The result that `after_heavy_processing` sends. -/
def processingResult : YyjsonVal := .obj [(bytes "processing", .num 1)]

/-- `after_heavy_processing` for the job `i`, which is deleted. -/
def afterWork (t : Thread) (i : Nat) (job : Job) (writable : Bool) : Thread :=
  { t.sendReply job.client writable (.response (some job.data) processingResult) with
    jobs := t.jobs.eraseIdx i }

/-- The close callback of a stream is `free`. -/
def closeCb (t : Thread) (st : StreamId) : Thread :=
  { t with streams := Function.update t.streams st { t.streams st with freed := true } }

/-- A read is delivered to a stream until its close is requested. -/
def readable (t : Thread) (st : StreamId) : Bool :=
  decide (st < t.nextStream) && !(t.streams st).closing

end Thread

inductive ThreadInput
  | connect (accepted : Bool)
  | read (st : StreamId) (nread : Int) (buf : Bytes) (writable : Bool)
  | coTimer (steps : Nat → CoStep)
  /-- The after-work callback of the job `i`. -/
  | afterWork (i : Nat) (writable : Bool)
  /-- A callback of a database connection closes a stream. -/
  | close (st : StreamId)
  | closeCb (st : StreamId)

/-- The event loop of a thread. -/
def Callbacks.thread (cbs : Callbacks P R) : Machine Thread ThreadInput where
  init t := t = .empty
  step t
    | .connect accepted => some (t.connect accepted)
    | .read st nread buf writable =>
        if t.readable st && buf.length == MAX_PACKET_SIZE && nread ≤ MAX_PACKET_SIZE then
          some (t.httpRead cbs st nread buf writable)
        else none
    | .coTimer steps => some (t.coroutineTimerCb steps)
    | .afterWork i writable => t.jobs[i]?.map fun job => t.afterWork i job writable
    | .close st => if st < t.nextStream then some (t.safeUvClose st) else none
    | .closeCb st =>
        if (t.streams st).closing && !(t.streams st).freed then some (t.closeCb st) else none

/-! ## Who has a client -/

namespace Thread

/-- A response was written to the stream. -/
def Answered (t : Thread) (st : StreamId) : Prop := ∃ e ∈ t.trace, e.answered = some st

def HasCoro (t : Thread) (st : StreamId) : Prop := ∃ co ∈ t.mUntrackedCoroutines, co.mStream = st

def HasJob (t : Thread) (st : StreamId) : Prop := ∃ job ∈ t.jobs, job.client = st

/-- The close of the stream was requested, or a coroutine or a job has it as its client. -/
def Attended (t : Thread) (st : StreamId) : Prop :=
  (t.streams st).closing = true ∨ t.HasCoro st ∨ t.HasJob st

/-- What the thread does to the client `st` alone: it may answer it, close it, and start something
for it. -/
structure Serves (st : StreamId) (t t' : Thread) : Prop where
  nextStream : t'.nextStream = t.nextStream
  closing : ∀ st', (t.streams st').closing = true → (t'.streams st').closing = true
  answered : ∀ st', t'.Answered st' → t.Answered st' ∨ st' = st
  coros : ∀ co ∈ t.mUntrackedCoroutines, co ∈ t'.mUntrackedCoroutines
  newCoros : ∀ co ∈ t'.mUntrackedCoroutines,
    co ∈ t.mUntrackedCoroutines ∨ co = { mStream := st }
  jobs : ∀ job ∈ t.jobs, job ∈ t'.jobs
  newJobs : ∀ job ∈ t'.jobs, job ∈ t.jobs ∨ job.client = st

variable {t t' u : Thread} {st st' : StreamId}

theorem Serves.refl (st : StreamId) (t : Thread) : Serves st t t :=
  ⟨rfl, fun _ => id, fun _ => .inl, fun _ => id, fun _ => .inl, fun _ => id, fun _ => .inl⟩

theorem Serves.trans (h : Serves st t t') (h' : Serves st t' u) : Serves st t u where
  nextStream := h'.nextStream.trans h.nextStream
  closing st' hst := h'.closing st' (h.closing st' hst)
  answered st' hst := (h'.answered st' hst).elim (h.answered st') .inr
  coros co hco := h'.coros co (h.coros co hco)
  newCoros co hco := (h'.newCoros co hco).elim (h.newCoros co) .inr
  jobs job hjob := h'.jobs job (h.jobs job hjob)
  newJobs job hjob := (h'.newJobs job hjob).elim (h.newJobs job) .inr

theorem Serves.attended (h : Serves st t t') (hst : t.Attended st') : t'.Attended st' := by
  rcases hst with hclosing | ⟨co, hco, hst⟩ | ⟨job, hjob, hst⟩
  · exact .inl (h.closing st' hclosing)
  · exact .inr (.inl ⟨co, h.coros co hco, hst⟩)
  · exact .inr (.inr ⟨job, h.jobs job hjob, hst⟩)

/-- Only the trace and the streams change. -/
theorem Serves.of_event {e : ThreadEvent} (hnext : t'.nextStream = t.nextStream)
    (hclosing : ∀ st', (t.streams st').closing = true → (t'.streams st').closing = true)
    (htrace : t'.trace = e :: t.trace) (he : ∀ st', e.answered = some st' → st' = st)
    (hcoros : t'.mUntrackedCoroutines = t.mUntrackedCoroutines) (hjobs : t'.jobs = t.jobs) :
    Serves st t t' where
  nextStream := hnext
  closing := hclosing
  answered st' hst := by
    obtain ⟨e', hmem, hans⟩ := hst
    rw [htrace] at hmem
    rcases List.mem_cons.1 hmem with rfl | hmem
    · exact .inr (he st' hans)
    · exact .inl ⟨e', hmem, hans⟩
  coros co hco := hcoros ▸ hco
  newCoros co hco := .inl (hcoros ▸ hco)
  jobs job hjob := hjobs ▸ hjob
  newJobs job hjob := .inl (hjobs ▸ hjob)

/-- A close answers nobody, so it serves any client. -/
theorem serves_safeUvClose (t : Thread) (st st' : StreamId) : Serves st' t (t.safeUvClose st) := by
  unfold safeUvClose
  split
  · exact .refl st' t
  · refine .of_event (e := .uvClose st) rfl ?_ rfl (fun _ h => by cases h) rfl rfl
    intro st'' hst
    by_cases heq : st'' = st
    · subst heq
      show (Function.update t.streams st'' _ st'').closing = true
      rw [Function.update_self]
    · show (Function.update t.streams st _ st'').closing = true
      rwa [Function.update_of_ne heq]

theorem safeUvClose_closing (t : Thread) (st : StreamId) :
    ((t.safeUvClose st).streams st).closing = true := by
  unfold safeUvClose
  split
  · next hclosing => exact hclosing
  · show (Function.update t.streams st { t.streams st with closing := true } st).closing = true
    rw [Function.update_self]

theorem safeUvClose_answered (h : (t.safeUvClose st).Answered st') : t.Answered st' := by
  unfold safeUvClose at h
  split at h
  · exact h
  · obtain ⟨e, hmem, hans⟩ := h
    rcases List.mem_cons.1 hmem with rfl | hmem
    · cases hans
    · exact ⟨e, hmem, hans⟩

@[simp] theorem safeUvClose_coros (t : Thread) (st : StreamId) :
    (t.safeUvClose st).mUntrackedCoroutines = t.mUntrackedCoroutines := by
  unfold safeUvClose
  split <;> rfl

@[simp] theorem safeUvClose_jobs (t : Thread) (st : StreamId) :
    (t.safeUvClose st).jobs = t.jobs := by
  unfold safeUvClose
  split <;> rfl

@[simp] theorem safeUvClose_nextStream (t : Thread) (st : StreamId) :
    (t.safeUvClose st).nextStream = t.nextStream :=
  (serves_safeUvClose t st st).nextStream

theorem serves_sendReply (t : Thread) (st : StreamId) (writable : Bool) (reply : Reply) :
    Serves st t (t.sendReply st writable reply) := by
  unfold sendReply
  split
  · exact .of_event (e := .reply st reply) rfl (fun _ => id) rfl
      (fun _ h => (Option.some.inj h).symm) rfl rfl
  · exact .refl st t

@[simp] theorem sendReply_coros (t : Thread) (st : StreamId) (writable : Bool) (reply : Reply) :
    (t.sendReply st writable reply).mUntrackedCoroutines = t.mUntrackedCoroutines := by
  unfold sendReply
  split <;> rfl

theorem serves_sendReplies (t : Thread) (st : StreamId) (replies : List (Reply × Bool)) :
    Serves st t (t.sendReplies st replies) := by
  induction replies generalizing t with
  | nil => exact .refl st t
  | cons r replies ih => exact (serves_sendReply t st r.2 r.1).trans (ih _)

@[simp] theorem sendReplies_coros (t : Thread) (st : StreamId) (replies : List (Reply × Bool)) :
    (t.sendReplies st replies).mUntrackedCoroutines = t.mUntrackedCoroutines := by
  induction replies generalizing t with
  | nil => rfl
  | cons r replies ih => rw [sendReplies, ih, sendReply_coros]

theorem serves_create (t : Thread) (st : StreamId) :
    Serves st t (t.createUntrackedCoroutine st) where
  nextStream := rfl
  closing _ := id
  answered _ := .inl
  coros _ hco := List.mem_append_left _ hco
  newCoros _ hco := (List.mem_append.1 hco).imp_right List.mem_singleton.1
  jobs _ := id
  newJobs _ := .inl

theorem serves_queueWork (t : Thread) (st : StreamId) (msgid : Int) :
    Serves st t (t.uvQueueWork st msgid) where
  nextStream := rfl
  closing _ := id
  answered _ := .inl
  coros _ := id
  newCoros _ := .inl
  jobs _ hjob := List.mem_append_left _ hjob
  newJobs job hjob := by
    refine (List.mem_append.1 hjob).imp_right fun hjob => ?_
    rw [List.mem_singleton.1 hjob]

/-! ## Reads -/

section
variable {cbs : Callbacks P R} {writable : Bool}

theorem serves_runAction (t : Thread) (st : StreamId) (a : Action P R) :
    Serves st t (t.runAction cbs st writable a) := by
  cases a with
  | send reply => exact serves_sendReply t st writable reply
  | pathCallback cb =>
      exact .of_event (e := .page st) rfl (fun _ => id) rfl
        (fun _ h => (Option.some.inj h).symm) rfl rfl
  | rpcCallback cb msgid params paramsCount =>
      rw [runAction]
      split
      · exact serves_create t st
      · exact serves_queueWork t st msgid
      · exact .refl st t
  | close => exact serves_safeUvClose t st st
  | jsonrpcRequest => exact .refl st t
  | freeDoc => exact .refl st t
  | freeBuf => exact .refl st t
  | pathOverflow => exact .refl st t

theorem serves_runActions (t : Thread) (st : StreamId) (as : List (Action P R)) :
    Serves st t (t.runActions cbs st writable as) := by
  induction as generalizing t with
  | nil => exact .refl st t
  | cons a as ih => exact (serves_runAction t st a).trans (ih _)

theorem runActions_closes {as : List (Action P R)} (h : .close ∈ as) :
    ((t.runActions cbs st writable as).streams st).closing = true := by
  induction as generalizing t with
  | nil => cases h
  | cons a as ih =>
      rcases List.mem_cons.1 h with rfl | h
      · exact (serves_runActions _ st as).closing st (safeUvClose_closing t st)
      · exact ih h

theorem runAction_silent {a : Action P R} (ha : a.isReply = false)
    (h : (t.runAction cbs st writable a).Answered st') : t.Answered st' := by
  cases a with
  | send reply => cases ha
  | pathCallback cb => cases ha
  | rpcCallback cb msgid params paramsCount =>
      rw [runAction] at h
      split at h <;> exact h
  | close => exact safeUvClose_answered h
  | jsonrpcRequest => exact h
  | freeDoc => exact h
  | freeBuf => exact h
  | pathOverflow => exact h

theorem runActions_silent {as : List (Action P R)} (has : ∀ a ∈ as, a.isReply = false)
    (h : (t.runActions cbs st writable as).Answered st') : t.Answered st' := by
  induction as generalizing t with
  | nil => exact h
  | cons a as ih =>
      exact runAction_silent (has a List.mem_cons_self)
        (ih (fun b hb => has b (List.mem_cons_of_mem a hb)) h)

/-- **A read leaves its client attended**, if it has answered it. -/
theorem httpRead_attended (hans : t.Answered st → t.Attended st) {nread : Int} {buf : Bytes}
    (h : (t.httpRead cbs st nread buf writable).Answered st) :
    (t.httpRead cbs st nread buf writable).Attended st := by
  rcases httpOnRead_closes_or_silent cbs.env cbs.settings nread buf with hclose | hsilent
  · exact .inl (runActions_closes hclose)
  · exact (serves_runActions t st _).attended (hans (runActions_silent hsilent h))

end

/-! ## The invariant -/

/-- Every client that was answered is attended, and whoever is answered or has a coroutine or a job
is a client. -/
structure Attends (t : Thread) : Prop where
  attended : ∀ st, t.Answered st → t.Attended st
  answered : ∀ st, t.Answered st → st < t.nextStream
  coros : ∀ co ∈ t.mUntrackedCoroutines, co.mStream < t.nextStream
  jobs : ∀ job ∈ t.jobs, job.client < t.nextStream

/-- Between two callbacks of the loop no coroutine is dead. -/
def NoneDead (t : Thread) : Prop := ∀ co ∈ t.mUntrackedCoroutines, co.dead = false

theorem attends_empty : Attends .empty where
  attended st h := by
    obtain ⟨e, hmem, -⟩ := h
    cases hmem
  answered st h := by
    obtain ⟨e, hmem, -⟩ := h
    cases hmem
  coros co h := by cases h
  jobs job h := by cases h

/-- Serving a client keeps the invariant, if the client itself is attended afterwards. -/
theorem Attends.serves (h : Attends t) (hserves : Serves st t t') (hst : st < t.nextStream)
    (hattended : t'.Answered st → t'.Attended st) : Attends t' where
  attended st' hans := by
    rcases hserves.answered st' hans with hold | rfl
    · exact hserves.attended (h.attended st' hold)
    · exact hattended hans
  answered st' hans := by
    rw [hserves.nextStream]
    rcases hserves.answered st' hans with hold | rfl
    · exact h.answered st' hold
    · exact hst
  coros co hco := by
    rw [hserves.nextStream]
    rcases hserves.newCoros co hco with hold | rfl
    · exact h.coros co hold
    · exact hst
  jobs job hjob := by
    rw [hserves.nextStream]
    rcases hserves.newJobs job hjob with hold | rfl
    · exact h.jobs job hold
    · exact hst

theorem NoneDead.serves (h : NoneDead t) (hserves : Serves st t t') : NoneDead t' := by
  intro co hco
  rcases hserves.newCoros co hco with hold | rfl
  · exact h co hold
  · rfl

theorem NoneDead.of_coros (h : NoneDead t)
    (hcoros : t'.mUntrackedCoroutines = t.mUntrackedCoroutines) : NoneDead t' := by
  intro co hco
  exact h co (hcoros ▸ hco)

theorem Attends.httpRead {cbs : Callbacks P R} (h : Attends t) (hst : st < t.nextStream)
    (nread : Int) (buf : Bytes) (writable : Bool) :
    Attends (t.httpRead cbs st nread buf writable) :=
  h.serves (serves_runActions t st _) hst (httpRead_attended (h.attended st))

theorem Attends.safeUvClose (h : Attends t) (hst : st < t.nextStream) :
    Attends (t.safeUvClose st) :=
  h.serves (serves_safeUvClose t st st) hst fun _ => .inl (safeUvClose_closing t st)

/-! ## The coroutine timer -/

/-- The streams of the coroutines are all that the invariant reads of them. -/
theorem Attends.of_coros (h : Attends t) {cos : List Coro2}
    (hcos : cos.map Coro2.mStream = t.mUntrackedCoroutines.map Coro2.mStream) :
    Attends { t with mUntrackedCoroutines := cos } where
  attended st hans := by
    rcases h.attended st hans with hclosing | ⟨co, hco, hst⟩ | hjob
    · exact .inl hclosing
    · have hmem : st ∈ cos.map Coro2.mStream := hcos ▸ hst ▸ List.mem_map_of_mem hco
      obtain ⟨co', hco', hst'⟩ := List.mem_map.1 hmem
      exact .inr (.inl ⟨co', hco', hst'⟩)
    · exact .inr (.inr hjob)
  answered := h.answered
  coros co hco := by
    have hmem : co.mStream ∈ t.mUntrackedCoroutines.map Coro2.mStream :=
      hcos ▸ List.mem_map_of_mem hco
    obtain ⟨co', hco', hst'⟩ := List.mem_map.1 hmem
    exact hst' ▸ h.coros co' hco'
  jobs := h.jobs

theorem Attends.resume (h : Attends t) (i : Nat) (step : CoStep) : Attends (t.resume i step) := by
  unfold Thread.resume
  split
  · exact h
  · next co hco =>
    split
    · exact h
    · have hmem : co ∈ t.mUntrackedCoroutines := List.mem_of_getElem? hco
      -- the coroutine itself still has the client it has answered
      have hsent : Attends (t.sendReplies co.mStream step.replies) := by
        refine h.serves (serves_sendReplies t _ _) (h.coros co hmem) fun _ => .inr (.inl ?_)
        exact ⟨co, by rwa [sendReplies_coros], rfl⟩
      refine hsent.of_coros ?_
      obtain ⟨hi, rfl⟩ := List.getElem?_eq_some_iff.1 hco
      rw [sendReplies_coros, List.map_set]
      refine List.ext_getElem (by simp) fun j hj hj' => ?_
      rw [List.getElem_set]
      split
      · next heq =>
        subst heq
        rw [List.getElem_map]
      · rfl

theorem Attends.stepCoroutines (h : Attends t) (steps : Nat → CoStep) (i k : Nat) :
    Attends (t.stepCoroutines steps i k) := by
  induction k generalizing t i with
  | zero => exact h
  | succ k ih => exact ih (h.resume i (steps i)) (i + 1)

theorem serves_closeDead (t : Thread) (cos : List Coro2) (st : StreamId) :
    Serves st t (t.closeDead cos) := by
  induction cos generalizing t with
  | nil => exact .refl st t
  | cons co cos ih =>
      refine .trans ?_ (ih _)
      split
      · exact serves_safeUvClose t co.mStream st
      · exact .refl st t

@[simp] theorem closeDead_nextStream (t : Thread) (cos : List Coro2) :
    (t.closeDead cos).nextStream = t.nextStream := by
  induction cos generalizing t with
  | nil => rfl
  | cons co cos ih =>
      rw [closeDead, ih]
      split
      · exact safeUvClose_nextStream t _
      · rfl

@[simp] theorem closeDead_jobs (t : Thread) (cos : List Coro2) :
    (t.closeDead cos).jobs = t.jobs := by
  induction cos generalizing t with
  | nil => rfl
  | cons co cos ih =>
      rw [closeDead, ih]
      split
      · exact safeUvClose_jobs t _
      · rfl

theorem closeDead_answered {cos : List Coro2} (h : (t.closeDead cos).Answered st) :
    t.Answered st := by
  induction cos generalizing t with
  | nil => exact h
  | cons co cos ih =>
      have hone := ih h
      split at hone
      · exact safeUvClose_answered hone
      · exact hone

theorem closeDead_closes {cos : List Coro2} {co : Coro2} (hco : co ∈ cos) (hdead : co.dead = true) :
    ((t.closeDead cos).streams co.mStream).closing = true := by
  induction cos generalizing t with
  | nil => cases hco
  | cons co' cos ih =>
      rcases List.mem_cons.1 hco with rfl | hco
      · rw [closeDead, if_pos hdead]
        exact (serves_closeDead _ cos co.mStream).closing co.mStream (safeUvClose_closing t _)
      · exact ih hco

/-- **The reaper closes what it lets go of**: a client whose coroutine is dead is closed, and the
other coroutines stay. -/
theorem Attends.cleanup (h : Attends t) : Attends t.cleanupDeadCoroutines where
  attended st hans := by
    have hserves := serves_closeDead t t.mUntrackedCoroutines st
    rcases h.attended st (closeDead_answered hans) with hclosing | ⟨co, hco, rfl⟩ | ⟨job, hjob, hst⟩
    · exact .inl (hserves.closing st hclosing)
    · cases hdead : co.dead with
      | true => exact .inl (closeDead_closes hco hdead)
      | false => exact .inr (.inl ⟨co, List.mem_filter.2 ⟨hco, by simp [hdead]⟩, rfl⟩)
    · exact .inr (.inr ⟨job, hserves.jobs job hjob, hst⟩)
  answered st hans := by
    show st < (t.closeDead _).nextStream
    rw [closeDead_nextStream]
    exact h.answered st (closeDead_answered hans)
  coros co hco := by
    show co.mStream < (t.closeDead _).nextStream
    rw [closeDead_nextStream]
    exact h.coros co (List.mem_filter.1 hco).1
  jobs job hjob := by
    show job.client < (t.closeDead _).nextStream
    rw [closeDead_nextStream]
    exact h.jobs job (closeDead_jobs t _ ▸ hjob)

theorem noneDead_cleanup (t : Thread) : NoneDead t.cleanupDeadCoroutines := by
  intro co hco
  have halive := (List.mem_filter.1 hco).2
  rwa [Bool.not_eq_true'] at halive

/-! ## The other callbacks -/

theorem connect_coros (t : Thread) (accepted : Bool) :
    (t.connect accepted).mUntrackedCoroutines = t.mUntrackedCoroutines := by
  unfold Thread.connect
  dsimp only
  split
  · rfl
  · rw [safeUvClose_coros]

theorem Attends.connect (h : Attends t) (accepted : Bool) : Attends (t.connect accepted) := by
  have hnew : Attends { t with
      streams := Function.update t.streams t.nextStream {}
      nextStream := t.nextStream + 1 } := by
    refine ⟨?_, ?_, ?_, ?_⟩
    · intro st hans
      have hne : st ≠ t.nextStream := Nat.ne_of_lt (h.answered st hans)
      refine (h.attended st hans).imp_left fun hclosing => ?_
      show (Function.update t.streams t.nextStream {} st).closing = true
      rwa [Function.update_of_ne hne]
    · exact fun st hans => Nat.lt_succ_of_lt (h.answered st hans)
    · exact fun co hco => Nat.lt_succ_of_lt (h.coros co hco)
    · exact fun job hjob => Nat.lt_succ_of_lt (h.jobs job hjob)
  unfold Thread.connect
  dsimp only
  split
  · exact hnew
  · exact hnew.safeUvClose (Nat.lt_succ_self _)

theorem Attends.closeCb (h : Attends t) (st : StreamId) : Attends (t.closeCb st) where
  attended st' hans := by
    refine (h.attended st' hans).imp_left fun hclosing => ?_
    show (Function.update t.streams st { t.streams st with freed := true } st').closing = true
    by_cases heq : st' = st
    · subst heq
      rwa [Function.update_self]
    · rwa [Function.update_of_ne heq]
  answered := h.answered
  coros := h.coros
  jobs := h.jobs

/-! ## Jobs -/

/-- The job `i` is not the last to have its client: the client is closing, or a coroutine or another
job has it. -/
def HasOther (t : Thread) (i : Nat) (job : Job) : Prop :=
  Attended { t with jobs := t.jobs.eraseIdx i } job.client

/-- No after-work callback is the last one to have its client when it has answered it. -/
def HandsOver (t : Thread) : ThreadInput → Prop
  | .afterWork i writable => ∀ job ∈ t.jobs[i]?,
      t.HasOther i job ∨ writable = false ∧ ¬ t.Answered job.client
  | _ => True

instance (t : Thread) (st : StreamId) : Decidable (t.Answered st) :=
  inferInstanceAs (Decidable (∃ e ∈ t.trace, e.answered = some st))

instance (t : Thread) (st : StreamId) : Decidable (t.Attended st) :=
  inferInstanceAs (Decidable ((t.streams st).closing = true ∨
    (∃ co ∈ t.mUntrackedCoroutines, co.mStream = st) ∨ ∃ job ∈ t.jobs, job.client = st))

instance (t : Thread) (i : Nat) (job : Job) : Decidable (t.HasOther i job) :=
  inferInstanceAs (Decidable (Attended _ _))

instance : ∀ (t : Thread) (i : ThreadInput), Decidable (t.HandsOver i)
  | _, .connect _ => .isTrue trivial
  | _, .read _ _ _ _ => .isTrue trivial
  | _, .coTimer _ => .isTrue trivial
  | t, .afterWork i writable =>
      inferInstanceAs (Decidable (∀ job ∈ t.jobs[i]?,
        t.HasOther i job ∨ writable = false ∧ ¬ t.Answered job.client))
  | _, .close _ => .isTrue trivial
  | _, .closeCb _ => .isTrue trivial

theorem sendReply_streams (t : Thread) (st : StreamId) (writable : Bool) (reply : Reply) :
    (t.sendReply st writable reply).streams = t.streams := by
  unfold sendReply
  split <;> rfl

theorem answered_sendReply {writable : Bool} (reply : Reply) :
    (t.sendReply st writable reply).Answered st ↔
      t.Answered st ∨ writable = true ∧ (t.streams st).closing = false := by
  unfold sendReply
  split
  · next hsend =>
    rw [Bool.and_eq_true, Bool.not_eq_true'] at hsend
    exact iff_of_true ⟨.reply st reply, List.mem_cons_self, rfl⟩ (.inr hsend)
  · next hsend =>
    rw [Bool.and_eq_true, Bool.not_eq_true'] at hsend
    exact (or_iff_left hsend).symm

/-- After the after-work callback its client is attended by the others alone. -/
theorem attended_afterWork {i : Nat} {job : Job} {writable : Bool} :
    (t.afterWork i job writable).Attended job.client ↔ t.HasOther i job := by
  simp only [afterWork, HasOther, Attended, HasCoro, HasJob, sendReply_streams, sendReply_coros]

/-- **The after-work callback keeps the invariant exactly when somebody else has the client**, or
nothing was ever answered on it. -/
theorem attends_afterWork_iff (h : Attends t) {i : Nat} {job : Job} (hjob : t.jobs[i]? = some job)
    (writable : Bool) :
    Attends (t.afterWork i job writable) ↔ t.HandsOver (.afterWork i writable) := by
  have hserves := serves_sendReply t job.client writable
    (.response (some job.data) processingResult)
  have hstep : t.HandsOver (.afterWork i writable) ↔
      t.HasOther i job ∨ writable = false ∧ ¬ t.Answered job.client := by
    simp [HandsOver, hjob]
  rw [hstep]
  constructor
  · intro hafter
    refine or_iff_not_imp_left.2 fun hother => ?_
    have hsilent : ¬ (t.afterWork i job writable).Answered job.client := fun hans =>
      hother (attended_afterWork.1 (hafter.attended job.client hans))
    have hopen : (t.streams job.client).closing = false :=
      Bool.eq_false_iff.2 fun hclosing => hother (.inl hclosing)
    have hneither := mt (answered_sendReply (.response (some job.data) processingResult)).2 hsilent
    rw [not_or] at hneither
    exact ⟨Bool.eq_false_iff.2 fun hw => hneither.2 ⟨hw, hopen⟩, hneither.1⟩
  · intro hcond
    refine ⟨?_, ?_, ?_, ?_⟩
    · intro st hans
      by_cases hst : st = job.client
      · subst hst
        refine attended_afterWork.2 (hcond.resolve_right fun hnone => ?_)
        rcases (answered_sendReply _).1 hans with hold | ⟨hw, -⟩
        · exact hnone.2 hold
        · rw [hnone.1] at hw
          cases hw
      · have hold := (hserves.answered st hans).resolve_right hst
        rcases h.attended st hold with hclosing | ⟨co, hco, hst'⟩ | ⟨job', hjob', hst'⟩
        · exact .inl (hserves.closing st hclosing)
        · exact .inr (.inl ⟨co, hserves.coros co hco, hst'⟩)
        · refine .inr (.inr ⟨job', ?_, hst'⟩)
          obtain ⟨j, hj⟩ := List.mem_iff_getElem?.1 hjob'
          refine List.mem_eraseIdx_iff_getElem?.2 ⟨j, fun heq => hst ?_, hj⟩
          rw [heq, hjob] at hj
          rw [← hst', Option.some.inj hj]
    · intro st hans
      have hknown : st < t.nextStream := by
        rcases hserves.answered st hans with hold | rfl
        · exact h.answered st hold
        · exact h.jobs job (List.mem_of_getElem? hjob)
      exact hserves.nextStream ▸ hknown
    · intro co hco
      exact hserves.nextStream ▸ h.coros co (sendReply_coros t _ _ _ ▸ hco)
    · intro job' hjob'
      exact hserves.nextStream ▸ h.jobs job' (List.mem_of_mem_eraseIdx hjob')

/-! ## The result -/

section
variable {cbs : Callbacks P R}

theorem attends_step {i : ThreadInput} (h : Attends t ∧ NoneDead t) (hi : t.HandsOver i)
    (hstep : cbs.thread.step t i = some t') : Attends t' ∧ NoneDead t' := by
  obtain ⟨hattends, hdead⟩ := h
  cases i with
  | connect accepted =>
      obtain rfl := Option.some.inj hstep
      exact ⟨hattends.connect accepted, hdead.of_coros (connect_coros t accepted)⟩
  | read st nread buf writable =>
      simp only [Callbacks.thread] at hstep
      split at hstep
      · next hread =>
        obtain rfl := Option.some.inj hstep
        have hst : st < t.nextStream := by
          simp only [readable, Bool.and_eq_true, decide_eq_true_eq] at hread
          exact hread.1.1.1
        exact ⟨hattends.httpRead hst nread buf writable, hdead.serves (serves_runActions t st _)⟩
      · cases hstep
  | coTimer steps =>
      obtain rfl := Option.some.inj hstep
      exact ⟨(hattends.stepCoroutines steps 0 _).cleanup, noneDead_cleanup _⟩
  | afterWork i writable =>
      simp only [Callbacks.thread, Option.map_eq_some_iff] at hstep
      obtain ⟨job, hjob, rfl⟩ := hstep
      exact ⟨(attends_afterWork_iff hattends hjob writable).2 hi,
        hdead.of_coros (sendReply_coros t _ _ _)⟩
  | close st =>
      simp only [Callbacks.thread] at hstep
      split at hstep
      · next hst =>
        obtain rfl := Option.some.inj hstep
        exact ⟨hattends.safeUvClose hst, hdead.serves (serves_safeUvClose t st st)⟩
      · cases hstep
  | closeCb st =>
      simp only [Callbacks.thread] at hstep
      split at hstep
      · obtain rfl := Option.some.inj hstep
        exact ⟨hattends.closeCb st, hdead⟩
      · cases hstep

theorem attends_run (h : cbs.thread.Run HandsOver t) : Attends t ∧ NoneDead t := by
  refine h.invariant ?_ fun _ _ _ hinv hi hstep => attends_step hinv hi hstep
  rintro _ rfl
  exact ⟨attends_empty, fun co hco => by cases hco⟩

end

end Thread

end ServerBase
