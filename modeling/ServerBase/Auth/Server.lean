import Mathlib.Data.List.FinRange
import Mathlib.Logic.Function.Basic
import ServerBase.Auth.Callbacks

/-!
# The state of an auth server thread

Streams, coroutines and the Postgres pool of one event loop, and the operations of
`auth_server/db_pool.cpp` on them.

**Identity.** Streams, connections and coroutines are named by the order of their creation, so
that a pointer kept too long is a name whose entry says so. The pool has `n` contexts, named by
`Fin n`.

**The trace.** What the theorems about a run speak of (a stream used, a context taken or given back,
a libpq call, a reply) is recorded newest first.

**Undefined behaviour** is recorded as a `fault`, and the statement that runs into it is skipped.
-/

namespace ServerBase

abbrev ConnId := Nat
abbrev CoroId := Nat

/-! ## Handles and contexts -/

/-- `PGconn`: passed to `PQfinish`; a command is in progress. -/
structure PGconn where
  finished : Bool := false
  busy : Bool := false

/-- `uv_poll_t` on the socket of a connection. -/
structure UvPoll (n : Nat) where
  sock : ConnId
  data : Option (Fin n) := none
  started : Bool := false

structure DBConnectionCtx (n : Nat) where
  mConn : Option ConnId := none
  mStream : Option StreamId := none
  mPollData : Option (UvPoll n) := none
  mInUse : Bool := false
  mDataReady : Bool := false
  mTerminate : Bool := false
  mReconnectPhase : Bool := false

namespace DBConnectionCtx

variable {n : Nat} (ctx : DBConnectionCtx n)

/-- `DonePollingData` -/
def donePollingData : Bool := ctx.mDataReady || ctx.mTerminate

/-- `ResetFlags` -/
def resetFlags : DBConnectionCtx n := { ctx with mDataReady := false, mTerminate := false }

/-- `uv_poll_stop(ctx->mPollData)` -/
def pollStop : DBConnectionCtx n :=
  { ctx with mPollData := ctx.mPollData.map fun p => { p with started := false } }

/-- `ctx->mPollData->data = ctx; uv_poll_start(ctx->mPollData, ...)` for the context `k`. -/
def pollStart (k : Fin n) : DBConnectionCtx n :=
  { ctx with mPollData := ctx.mPollData.map fun p => { p with data := some k, started := true } }

/-- The context as `AcquireDBConn` leaves it. -/
def acquired (stream : StreamId) : DBConnectionCtx n :=
  { ctx.resetFlags with mInUse := true, mStream := some stream }

/-- The context as `ReleaseDBConn` leaves it. -/
def released : DBConnectionCtx n := { ctx with mInUse := false, mStream := none }

/-- The context while it has no connection. -/
def disconnected : DBConnectionCtx n :=
  { ctx with mPollData := none, mConn := none, mReconnectPhase := true }

/-- The context with the new connection `conn` and its poll handle. -/
def reconnected (conn : ConnId) : DBConnectionCtx n :=
  { ctx.resetFlags with mConn := some conn, mPollData := some { sock := conn },
                        mReconnectPhase := false }

end DBConnectionCtx

/-! ## Coroutines -/

/-- Where a coroutine is suspended, with the local variables it needs again. -/
inductive Point (n : Nat)
  /-- Created, not resumed yet. -/
  | start
  /-- In `yield_until_db_ctx_or_time_limit`. -/
  | waitCtx (timeToStopyield : Int)
  /-- In `start_poll_and_yield_until_polldata`, after the login or register query. -/
  | waitPoll (ctx : Fin n) (conn : ConnId)
  /-- In `start_poll_and_yield_until_polldata`, after the update of `last_login`. -/
  | waitUpdate (ctx : Fin n) (conn : ConnId)
  /-- `MCO_DEAD` -/
  | dead
  deriving DecidableEq

namespace Point

variable {n : Nat}

def isDead : Point n → Bool
  | dead => true
  | _ => false

/-- The context that is held at the point. -/
def holds : Point n → Option (Fin n)
  | waitPoll k _ => some k
  | waitUpdate k _ => some k
  | _ => none

end Point

/-- `CoroutineManager::Coro2` and the user data of its coroutine. -/
structure Coro (n : Nat) where
  mStream : StreamId
  data : AuthData
  point : Point n

/-! ## Events -/

/-- A command and its parameters, a null pointer for an SQL `NULL`. -/
structure Query where
  command : String
  values : List (Option Bytes)

/-- Undefined behaviour. -/
inductive Fault
  /-- `SAFE_UV_CLOSE(ctx->mStream, free)` on a null stream. -/
  | nullStream
  /-- `db_ctx->mPollData->data = ...` on a null handle, or a callback on one without context. -/
  | nullPollData
  | nullString
  | pathOverflow

inductive Event (n : Nat)
  /-- A stream is passed to libuv or dereferenced; `freed` tells whether it was freed before. -/
  | useStream (stream : StreamId) (freed : Bool)
  | uvClose (stream : StreamId)
  | reply (stream : StreamId) (reply : Reply)
  | statsPage (stream : StreamId)
  /-- `yield_until_db_ctx_or_time_limit` returned. -/
  | obtained (co : CoroId) (ctx : Option (Fin n))
  | released (co : CoroId) (ctx : Fin n)
  /-- A libpq call with the connection a coroutine has copied, which may be `stale`. -/
  | libpq (co : CoroId) (conn : ConnId) (stale : Bool)
  /-- `PQsendQueryParams` succeeded. -/
  | sent (ctx : Fin n) (conn : ConnId) (query : Query)
  /-- `start_poll_and_yield_until_polldata` returned. -/
  | waitOver (ctx : Fin n)
  /-- `Poll_Callback` set `mDataReady` or `mTerminate`. -/
  | polled (ctx : Fin n)
  | pqConnect (conn : ConnId)
  | pqFinish (conn : ConnId)
  | pollInit (ctx : Fin n)
  | pollClose (ctx : Fin n)
  | fault (f : Fault)

/-! ## The server -/

structure Server (n : Nat) where
  mPingStr : Option Bytes
  mConnections : Fin n → DBConnectionCtx n
  conns : ConnId → PGconn
  nextConn : ConnId
  streams : StreamId → UvStream
  nextStream : StreamId
  coros : CoroId → Coro n
  nextCoro : CoroId
  mUntrackedCoroutines : List CoroId
  trace : List (Event n)

namespace Server

variable {n : Nat} (s : Server n)

/-- Record events, newest first. -/
def log (es : List (Event n)) : Server n := { s with trace := es ++ s.trace }

def setCtx (k : Fin n) (ctx : DBConnectionCtx n) : Server n :=
  { s with mConnections := Function.update s.mConnections k ctx }

def setBusy (conn : ConnId) (busy : Bool) : Server n :=
  { s with conns := Function.update s.conns conn { s.conns conn with busy := busy } }

def setPoint (co : CoroId) (point : Point n) : Server n :=
  { s with coros := Function.update s.coros co { s.coros co with point := point } }

/-! ### Streams -/

/-- A stream is passed to libuv, or its `data` is read. -/
def useStream (st : StreamId) : Server n := s.log [.useStream st (s.streams st).freed]

/-- `SAFE_UV_CLOSE(stream, free)` -/
def safeUvClose (st : StreamId) : Server n :=
  let s := s.useStream st
  if (s.streams st).closing then s
  else
    { s.useStream st with
      streams := Function.update s.streams st { s.streams st with closing := true }
      trace := .uvClose st :: (s.useStream st).trace }

/-- `uv_is_writable(stream)`: a stream is writable until its close is requested, as far as
`writable` says so. -/
def uvIsWritable (st : StreamId) (writable : Bool) : Bool := writable && !(s.streams st).closing

/-- `send_jsonrpc_error` and `send_jsonrpc_response`: both do nothing on a stream that is not
writable. -/
def sendReply (st : StreamId) (writable : Bool) (reply : Reply) : Server n :=
  if s.uvIsWritable st writable then
    ((s.useStream st).useStream st).log [.reply st reply]
  else s.useStream st

/-! ### Contexts -/

/-- The condition of the loop in `AcquireDBConn`; `PQstatus` of a null connection is bad. -/
def acquirable (status : Fin n → Bool) (k : Fin n) : Bool :=
  let ctx := s.mConnections k
  ctx.mConn.isSome && status k && !ctx.mInUse && !ctx.mTerminate && !ctx.mReconnectPhase

/-- `AcquireDBConn`: the first context that is free, and its connection. -/
def acquireDBConn (status : Fin n → Bool) (stream : StreamId) :
    Option (Fin n × ConnId × Server n) :=
  match (List.finRange n).find? (s.acquirable status) with
  | none => none
  | some k =>
      (s.mConnections k).mConn.map fun conn =>
        (k, conn, s.setCtx k ((s.mConnections k).acquired stream))

/-- `ReleaseDBConn`, called by the coroutine `co`. -/
def releaseDBConn (co : CoroId) (k : Fin n) : Server n :=
  (s.setCtx k (s.mConnections k).released).log [.released co k]

/-- The connection was finished, or is not the one of the context any more. -/
def stale (k : Fin n) (conn : ConnId) : Bool :=
  (s.conns conn).finished || (s.mConnections k).mConn != some conn

/-- A libpq call of `co` with `conn`, which it has copied from the context `k`. -/
def libpq (co : CoroId) (k : Fin n) (conn : ConnId) : Server n :=
  s.log [.libpq co conn (s.stale k conn)]

/-- `PQsendQueryParams`, which fails while a command is in progress. -/
def pqSendQueryParams (co : CoroId) (k : Fin n) (conn : ConnId) (query : Query) (sent : Bool) :
    Server n × Bool :=
  let s := s.libpq co k conn
  if sent && !(s.conns conn).busy then ((s.setBusy conn true).log [.sent k conn query], true)
  else (s, false)

/-- The `PQgetResult` calls of a loop, recorded once; `drained` when the last one returned null. -/
def pqGetResults (co : CoroId) (k : Fin n) (conn : ConnId) (drained : Bool) : Server n :=
  let s := s.libpq co k conn
  if drained then s.setBusy conn false else s

/-- The first half of `start_poll_and_yield_until_polldata`. -/
def startPoll (k : Fin n) : Server n :=
  if (s.mConnections k).mPollData.isSome then s.setCtx k ((s.mConnections k).pollStart k)
  else s.log [.fault .nullPollData]

/-! ### `Poll_Callback` -/

def UV_EBADF : Int := -9

/-- The branch of a handle that cannot be polled any more. -/
def pollFailed (k j : Fin n) : Server n :=
  let s := s.setCtx k (s.mConnections k).pollStop
  let s := (s.setCtx j { s.mConnections j with mTerminate := true }).log [.polled j]
  match (s.mConnections j).mStream with
  | none => s.log [.fault .nullStream]
  | some st => s.safeUvClose st

/-- The callback gives up on the handle. -/
def pollFails (status : Int) (consumed : Bool) : Bool :=
  if status < 0 then status == UV_EBADF else !consumed

/-- `Poll_Callback` for the handle of the context `k`; `consumed` and `busy` are what
`PQconsumeInput` and `PQisBusy` return. -/
def pollCallback (k : Fin n) (status : Int) (consumed busy : Bool) : Server n :=
  match (s.mConnections k).mPollData.bind UvPoll.data with
  | none => s.log [.fault .nullPollData]
  | some j =>
      if pollFails status consumed then s.pollFailed k j
      else if status < 0 || busy then s
      else
        let s := s.setCtx j { s.mConnections j with mDataReady := true }
        (s.setCtx k (s.mConnections k).pollStop).log [.polled j]

/-! ### `CheckConnections_TimerCb` -/

/-- The old handle and the old connection are given up. -/
def disconnect (k : Fin n) : Server n :=
  let ctx := s.mConnections k
  let closed := if ctx.mPollData.isSome then [.pollClose k] else []
  match ctx.mConn with
  | none => (s.setCtx k ctx.disconnected).log closed
  | some conn =>
      { (s.setCtx k ctx.disconnected).log (.pqFinish conn :: closed) with
        conns := Function.update s.conns conn { s.conns conn with finished := true } }

/-- `PQconnectdb` -/
def pqConnectdb : Server n :=
  { s.log [.pqConnect s.nextConn] with
    conns := Function.update s.conns s.nextConn {}
    nextConn := s.nextConn + 1 }

/-- One round of the reconnect loop. -/
def reconnect (k : Fin n) (connected : Bool) : Server n :=
  let s := s.disconnect k
  let conn := s.nextConn
  let s := s.pqConnectdb
  if connected then (s.setCtx k ((s.mConnections k).reconnected conn)).log [.pollInit k]
  else
    { s.log [.pqFinish conn] with conns := Function.update s.conns conn { finished := true } }

/-- The reconnect loop, which ends at the first connection that fails. -/
def reconnectAll (connected : Fin n → Bool) : List (Fin n) → Server n → Server n
  | [], s => s
  | k :: ks, s =>
      if connected k then reconnectAll connected ks (s.reconnect k true)
      else s.reconnect k false

/-- The condition of a restart. `pingOk` is whether `PQping` returned `PQPING_OK`. -/
def restarts (pingOk : Bool) (status : Fin n → Bool) : Bool :=
  s.mPingStr.isSome &&
    (!pingOk || (List.finRange n).any fun k => (s.mConnections k).mConn.isNone || !status k)

/-- `CheckConnections_TimerCb` -/
def checkConnections (pingOk : Bool) (status connected : Fin n → Bool) : Server n :=
  if s.restarts pingOk status then reconnectAll connected (List.finRange n) s else s

/-! ### `InitializeConnections` -/

/-- The server before `InitializeConnections`. -/
def empty (mPingStr : Option Bytes) : Server n where
  mPingStr := mPingStr
  mConnections _ := {}
  conns _ := {}
  nextConn := 0
  streams _ := {}
  nextStream := 0
  coros _ := { mStream := 0, data := .login {}, point := .dead }
  nextCoro := 0
  mUntrackedCoroutines := []
  trace := []

/-- One successful round of the loop of `InitializeConnections`. -/
def initConnection (k : Fin n) : Server n :=
  let conn := s.nextConn
  let s := s.pqConnectdb
  (s.setCtx k { s.mConnections k with mConn := some conn, mPollData := some { sock := conn } }).log
    [.pollInit k]

/-- One failed round; the context keeps the finished connection until the next attempt. -/
def initFailed (k : Fin n) : Server n :=
  let conn := s.nextConn
  let s := s.pqConnectdb
  { (s.setCtx k { s.mConnections k with mConn := some conn }).log [.pqFinish conn] with
    conns := Function.update s.conns conn { finished := true } }

/-- `InitializeConnections` from the context `i`; `none` when the process exits after
`max_retries`, or has not got through the attempts yet. -/
def initializeFrom : List Bool → Nat → Nat → Server n → Option (Server n)
  | [], i, _, s => if i < n then none else some s
  | connected :: attempts, i, retries, s =>
      if h : i < n then
        if connected then initializeFrom attempts (i + 1) retries (s.initConnection ⟨i, h⟩)
        else if 5 ≤ retries + 1 then none
        else initializeFrom attempts i (retries + 1) (s.initFailed ⟨i, h⟩)
      else some s

/-- `InitializeConnections`, with the outcomes of its connection attempts in order. -/
def initializeConnections (mPingStr : Option Bytes) (attempts : List Bool) :
    Option (Server n) :=
  initializeFrom attempts 0 0 (empty mPingStr)

end Server

end ServerBase
