import ServerBase.Auth.Server
import ServerBase.Lib.Decimal

/-!
# The login and register coroutines

The bodies of `auth_login_coro` and `register_coro`, resumed by `StepCoroutines` and reaped by
`CleanupDeadCoroutines`.

**One resume** runs from the point the coroutine is suspended at to its next `mco_yield` or to its
end. Both bodies are the same up to the results of their query: the time limit, the query and
what they make of the results are functions of the user data.

**Readings** are what a resume gets from outside: the clock, libpq, and libjwt.
-/

namespace ServerBase

/-! ## What comes from outside -/

/-- `PGresult`; of a row only the first column is read, as a number. -/
inductive PGresult
  | tuplesOk (rows : List Int)
  | fatalError
  | other
  deriving DecidableEq

/-- What one resume of a coroutine reads. -/
structure Readings (n : Nat) where
  /-- `get_time_ms()` when the time limit is computed, and in the loop condition. -/
  startTime : Int := 0
  time : Int := 0
  /-- `PQstatus` of the connection of each context is `CONNECTION_OK`. -/
  status : Fin n → Bool := fun _ => true
  /-- `PQsendQueryParams` succeeds if no command is in progress: for the query, and for the
  update. -/
  sent : Bool := true
  updateSent : Bool := true
  /-- What `PQgetResult` returns before null. -/
  results : List PGresult := []
  writable : Bool := true
  /-- `GenerateSignedJWT` -/
  signedJWT : UInt32 → Option Bytes := fun _ => none

/-! ## Queries -/

def DB_TIMEOUT : Int := 2000

def loginQuery (data : AuthLoginData) : Query where
  command := "SELECT user_id FROM users WHERE source = 'direct'   AND username = $1 " ++
    "  AND password_hash = crypt($2, password_hash)"
  values := [some data.mUsername, some data.mPassword]

def registerQuery (data : AuthRegisterData) : Query where
  command := "INSERT INTO users (source, source_user_id, username, email, password_hash, roles) " ++
    "VALUES ('direct', NULL, $1, $2, crypt($3, gen_salt('bf')), ARRAY['player']) " ++
    "ON CONFLICT (username) WHERE source = 'direct' DO NOTHING RETURNING user_id"
  values := [some data.mUsername, if data.mEmail.length ≠ 0 then some data.mEmail else none,
    some data.mPassword]

def updateQuery (userId : UInt32) : Query where
  command := "UPDATE users SET last_login = now() WHERE user_id = $1::bigint"
  values := [some (Decimal.digits userId.toNat)]

namespace AuthData

/-- The `millsecs` the coroutine passes to `yield_until_db_ctx_or_time_limit`. -/
def timeLimit : AuthData → Int
  | login _ => DB_TIMEOUT
  | register _ => 500

def query : AuthData → Query
  | login data => loginQuery data
  | register data => registerQuery data

end AuthData

/-! ## Results -/

def UINT_MAX : UInt32 := 0xFFFFFFFF

/-- The result loop of `auth_login_coro` from `userId`; `none` when it meets a fatal error and
returns. -/
def loginResults (userId : UInt32) : List PGresult → Option UInt32
  | [] => some userId
  | .tuplesOk rows :: results =>
      match rows with
      | [value] => loginResults (UInt32.ofInt value) results
      | _ => loginResults userId results
  | .fatalError :: _ => none
  | .other :: results => loginResults userId results

def kDbQueryError : Int := -1
def kDbNoMatch : Int := -2

/-- The result loop of `register_coro` from `newUserId`. -/
def registerResults (newUserId : Int) : List PGresult → Int
  | [] => newUserId
  | .tuplesOk rows :: results =>
      match rows with
      | [value] => registerResults value results
      | _ => registerResults newUserId results
  | .fatalError :: results => registerResults kDbQueryError results
  | .other :: results => registerResults newUserId results

def tokenResult (token : Bytes) : YyjsonVal :=
  .obj [(bytes "access_token", .str token), (bytes "token_type", .str (bytes "Bearer"))]

/-- The reply of `register_coro` on a writable stream. -/
def registerReply (id : Int) (newUserId : Int) : Reply :=
  if newUserId = kDbQueryError then .error kJsonRpcServerError "DB Async query failed" (some id)
  else if newUserId = kDbNoMatch then
    .response (some id) (.obj [(bytes "result", .str (bytes "User already exists"))])
  else .response (some id) (.obj [(bytes "user_id", .num (newUserId % 2 ^ 64 : Int))])

namespace Server

variable {n : Nat} (s : Server n) (co : CoroId) (r : Readings n)

/-! ## The end of a coroutine -/

/-- The body returns. -/
def finish : Server n := s.setPoint co .dead

/-- `send_jsonrpc_error(data->mClient, kJsonRpcServerError, message, &data->mId)` -/
def coroError (message : String) : Server n :=
  s.sendReply (s.coros co).mStream r.writable
    (.error kJsonRpcServerError message (some (s.coros co).data.mId))

/-- The context is given back, and the body returns with an error reply. -/
def failWith (k : Fin n) (message : String) : Server n :=
  ((s.releaseDBConn co k).coroError co r message).finish co

/-! ## Behind the wait for the update of `last_login` -/

/-- The end of `auth_login_coro` behind the update. -/
def updateOver (k : Fin n) : Server n :=
  if (s.mConnections k).mTerminate then s.failWith co r k "Query failed #3"
  else (s.releaseDBConn co k).finish co

/-- The end of `PQsendQueryParamsIgnoreResults` behind its wait. -/
def updatePolled (k : Fin n) (conn : ConnId) : Server n :=
  let s := s.log [.waitOver k]
  let s := if (s.mConnections k).mTerminate then s else s.pqGetResults co k conn true
  s.updateOver co r k

/-- `PQsendQueryParamsIgnoreResults` with the update of `last_login`, and what follows it. -/
def updateLastLogin (k : Fin n) (conn : ConnId) (userId : UInt32) : Server n :=
  let (s, sent) := s.pqSendQueryParams co k conn (updateQuery userId) r.updateSent
  if sent then
    let s := s.startPoll k
    if (s.mConnections k).donePollingData then s.updatePolled co r k conn
    else s.setPoint co (.waitUpdate k conn)
  else s.updateOver co r k

/-! ## Behind the wait for the query -/

/-- `auth_login_coro` behind its result loop. -/
def loginUser (k : Fin n) (conn : ConnId) (userId : UInt32) : Server n :=
  let client := (s.coros co).mStream
  let mId := (s.coros co).data.mId
  let writable := s.uvIsWritable client r.writable
  let s := s.useStream client
  if writable then
    if userId < UINT_MAX then
      let s := match r.signedJWT userId with
        | some token => s.sendReply client r.writable (.response (some mId) (tokenResult token))
        | none => s
      s.updateLastLogin co r k conn userId
    else
      let s := s.sendReply client r.writable
        (.error kJsonRpcInvalidParams "Login failed" (some mId))
      (s.releaseDBConn co k).finish co
  else (s.releaseDBConn co k).finish co

/-- `register_coro` behind its result loop. -/
def registerUser (k : Fin n) (newUserId : Int) : Server n :=
  let client := (s.coros co).mStream
  let mId := (s.coros co).data.mId
  let s := s.releaseDBConn co k
  let writable := s.uvIsWritable client r.writable
  let s := s.useStream client
  let s := if writable then s.sendReply client r.writable (registerReply mId newUserId) else s
  s.finish co

/-- Behind `start_poll_and_yield_until_polldata`. -/
def queryPolled (k : Fin n) (conn : ConnId) : Server n :=
  let s := s.log [.waitOver k]
  if (s.mConnections k).mTerminate then s.failWith co r k "Query failed #2"
  else
    match (s.coros co).data with
    | .login _ =>
        match loginResults UINT_MAX r.results with
        | none =>
            let s := s.pqGetResults co k conn false
            -- `PQerrorMessage(conn)`
            (s.libpq co k conn).failWith co r k "DB Async query failed"
        | some userId => (s.pqGetResults co k conn true).loginUser co r k conn userId
    | .register _ =>
        (s.pqGetResults co k conn true).registerUser co r k (registerResults kDbNoMatch r.results)

/-! ## Up to the query -/

/-- With a context: the query is sent, and its results are waited for. -/
def sendQuery (k : Fin n) (conn : ConnId) : Server n :=
  let s := s.log [.obtained co (some k)]
  let (s, sent) := s.pqSendQueryParams co k conn (s.coros co).data.query r.sent
  if sent then
    let s := s.startPoll k
    if (s.mConnections k).donePollingData then s.queryPolled co r k conn
    else s.setPoint co (.waitPoll k conn)
  else
    -- `PQerrorMessage(conn)`
    (s.libpq co k conn).failWith co r k "Query failed #1"

/-- Without one: the stream is closing, or the time is over. -/
def noContext : Server n :=
  ((s.log [.obtained co none]).coroError co r "Aborted").finish co

/-- `yield_until_db_ctx_or_time_limit`, from its loop condition on. -/
def yieldUntilDbCtx (timeToStopyield : Int) : Server n :=
  let client := (s.coros co).mStream
  if r.time < timeToStopyield then
    let s := s.useStream client
    if (s.streams client).closing then s.noContext co r
    else
      match s.acquireDBConn r.status client with
      | some (k, conn, s) => s.sendQuery co r k conn
      | none => s.setPoint co (.waitCtx timeToStopyield)
  else s.noContext co r

/-- From the beginning of the body. -/
def startCoro : Server n :=
  let client := (s.coros co).mStream
  let s := s.useStream client
  if (s.streams client).closing then s.finish co
  else (s.useStream client).yieldUntilDbCtx co r (r.startTime + (s.coros co).data.timeLimit)

/-- `mco_resume` of a suspended coroutine; a dead one is left alone. -/
def resume : Server n :=
  match (s.coros co).point with
  | .start => s.startCoro co r
  | .waitCtx timeToStopyield => s.yieldUntilDbCtx co r timeToStopyield
  | .waitPoll k conn =>
      if (s.mConnections k).donePollingData then s.queryPolled co r k conn else s
  | .waitUpdate k conn =>
      if (s.mConnections k).donePollingData then s.updatePolled co r k conn else s
  | .dead => s

/-! ## The coroutine manager -/

/-- `CreateUntrackedCoroutine` -/
def createUntrackedCoroutine (st : StreamId) (data : AuthData) : Server n :=
  { s with
    coros := Function.update s.coros s.nextCoro { mStream := st, data := data, point := .start }
    nextCoro := s.nextCoro + 1
    mUntrackedCoroutines := s.mUntrackedCoroutines ++ [s.nextCoro] }

/-- The loop of `StepCoroutines` over the untracked coroutines. -/
def resumeAll (readings : CoroId → Readings n) : List CoroId → Server n → Server n
  | [], s => s
  | co :: cos, s => resumeAll readings cos (s.resume co (readings co))

/-- `StepCoroutines`; the server has no managed coroutines. -/
def stepCoroutines (readings : CoroId → Readings n) : Server n :=
  resumeAll readings s.mUntrackedCoroutines s

/-- The loop of `CleanupDeadCoroutines`: the client of a dead coroutine is closed. -/
def closeDead : List CoroId → Server n → Server n
  | [], s => s
  | co :: cos, s =>
      closeDead cos (if (s.coros co).point.isDead then s.safeUvClose (s.coros co).mStream else s)

/-- `CleanupDeadCoroutines` -/
def cleanupDeadCoroutines : Server n :=
  { closeDead s.mUntrackedCoroutines s with
    mUntrackedCoroutines := s.mUntrackedCoroutines.filter fun co => !(s.coros co).point.isDead }

/-- `CoroutineTimerCB` -/
def coroutineTimerCb (readings : CoroId → Readings n) : Server n :=
  (s.stepCoroutines readings).cleanupDeadCoroutines

end Server

end ServerBase
