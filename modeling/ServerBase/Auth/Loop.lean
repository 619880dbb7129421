import ServerBase.Auth.Resume
import ServerBase.Lib.Machine

/-!
# The event loop of an auth server thread

The machine whose inputs are the callbacks the loop runs: new connections, reads, poll events, the
two timers, and the close callbacks of streams.

**Conditions on a run** (`Conds`). A callback is made of moves: a read, a poll callback, one round
of the reconnect loop, one resume of a coroutine, the cleanup. A condition says which of them may
happen, each in the state it happens in.

**The invariant rule** (`Kept.run`). What every move keeps, under its condition, holds in every
state of every run.
-/

namespace ServerBase

namespace Server

variable {n : Nat} (env : AuthEnv)

/-! ## Reads -/

/-- `stats_func`: the page is written to the client. -/
def statsFunc (s : Server n) (st : StreamId) : Server n :=
  (s.useStream st).log [.statsPage st]

/-- An auth callback runs: a coroutine is created when it accepts the params. -/
def runAuthCall (s : Server n) (st : StreamId) : AuthCall → Server n
  | .invalidParams => s
  | .pending data converted =>
      let s := if converted.any Option.isNone then s.log [.fault .nullString] else s
      -- `client->data` is read for the coroutine manager
      (s.useStream st).createUntrackedCoroutine st data

/-- One action of `http_on_read` on the client `st`. -/
def runAction (s : Server n) (st : StreamId) (writable : Bool) :
    Action AuthPath AuthRpc → Server n
  | .send reply => s.sendReply st writable reply
  | .pathCallback .stats => s.statsFunc st
  | .jsonrpcRequest _ _ => s
  | .rpcCallback cb msgid params paramsCount =>
      match cb.call msgid params paramsCount with
      | some call => s.runAuthCall st call
      | none => s
  | .close => s.safeUvClose st
  | .freeDoc => s
  | .freeBuf => s
  | .pathOverflow => s.log [.fault .pathOverflow]

def runActions (s : Server n) (st : StreamId) (writable : Bool) :
    List (Action AuthPath AuthRpc) → Server n
  | [] => s
  | a :: as => runActions (s.runAction st writable a) st writable as

/-- `http_on_read` for the client `st`; `client->data` is read first. -/
def httpRead (s : Server n) (st : StreamId) (nread : Int) (buf : Bytes) (writable : Bool) :
    Server n :=
  (s.useStream st).runActions st writable (httpOnRead env.http authSettings nread buf)

/-! ## The callbacks of the loop -/

/-- `uv_tcp_init` of a new client -/
def uvTcpInit (s : Server n) : Server n :=
  { s with
    streams := Function.update s.streams s.nextStream {}
    nextStream := s.nextStream + 1 }

/-- `http_on_new_connection` -/
def connect (s : Server n) (accepted : Bool) : Server n :=
  if accepted then s.uvTcpInit.useStream s.nextStream else s.uvTcpInit.safeUvClose s.nextStream

/-- The close callback of a stream is `free`. -/
def closeCb (s : Server n) (st : StreamId) : Server n :=
  { s with streams := Function.update s.streams st { s.streams st with freed := true } }

/-- A read is delivered to a stream until its close is requested. -/
def readable (s : Server n) (st : StreamId) : Bool :=
  decide (st < s.nextStream) && !(s.streams st).closing

/-- An event is delivered to a started handle. -/
def polling (s : Server n) (k : Fin n) : Bool :=
  (s.mConnections k).mPollData.any UvPoll.started

end Server

inductive Input (n : Nat)
  | connect (accepted : Bool)
  | read (st : StreamId) (nread : Int) (buf : Bytes) (writable : Bool)
  | poll (k : Fin n) (status : Int) (consumed busy : Bool)
  | dbTimer (pingOk : Bool) (status connected : Fin n → Bool)
  | coTimer (readings : CoroId → Readings n)
  | closeCb (st : StreamId)

namespace AuthEnv

variable (env : AuthEnv) (n : Nat)

/-- One callback of the loop. -/
def step (s : Server n) : Input n → Option (Server n)
  | .connect accepted => some (s.connect accepted)
  | .read st nread buf writable =>
      if s.readable st && buf.length == MAX_PACKET_SIZE && nread ≤ MAX_PACKET_SIZE then
        some (s.httpRead env st nread buf writable)
      else none
  | .poll k status consumed busy =>
      if s.polling k then some (s.pollCallback k status consumed busy) else none
  | .dbTimer pingOk status connected => some (s.checkConnections pingOk status connected)
  | .coTimer readings => some (s.coroutineTimerCb readings)
  | .closeCb st =>
      if (s.streams st).closing && !(s.streams st).freed then some (s.closeCb st) else none

/-- The event loop of a thread with `n` database connections, from a successful
`InitializeConnections` on. -/
def loop : Machine (Server n) (Input n) where
  init s := ∃ mPingStr attempts, Server.initializeConnections mPingStr attempts = some s
  step := env.step n

end AuthEnv

/-! ## Conditions -/

/-- Which moves may happen, by the state they happen in. -/
structure Conds (n : Nat) where
  onRead : Server n → StreamId → Int → Prop := fun _ _ _ => True
  onPoll : Server n → Fin n → Int → Bool → Prop := fun _ _ _ _ => True
  onReconnect : Server n → Fin n → Bool → Prop := fun _ _ _ => True
  onResume : Server n → CoroId → Readings n → Prop := fun _ _ _ => True

namespace Conds

variable {n : Nat} (C : Conds n)

/-- Every round of the reconnect loop satisfies the condition. -/
def onReconnectAll (connected : Fin n → Bool) : List (Fin n) → Server n → Prop
  | [], _ => True
  | k :: ks, s =>
      if connected k then
        C.onReconnect s k true ∧ onReconnectAll connected ks (s.reconnect k true)
      else C.onReconnect s k false

/-- Every resume of the loop satisfies the condition. -/
def onResumeAll (readings : CoroId → Readings n) : List CoroId → Server n → Prop
  | [], _ => True
  | co :: cos, s =>
      C.onResume s co (readings co) ∧ onResumeAll readings cos (s.resume co (readings co))

/-- Every move of a callback satisfies its condition. -/
def holds (s : Server n) : Input n → Prop
  | .connect _ => True
  | .read st nread _ _ => C.onRead s st nread
  | .poll k status consumed _ => C.onPoll s k status consumed
  | .dbTimer pingOk status connected =>
      if s.restarts pingOk status then C.onReconnectAll connected (List.finRange n) s else True
  | .coTimer readings => C.onResumeAll readings s.mUntrackedCoroutines s
  | .closeCb _ => True

section
variable [∀ s st nread, Decidable (C.onRead s st nread)]
  [∀ s k status consumed, Decidable (C.onPoll s k status consumed)]
  [∀ s k connected, Decidable (C.onReconnect s k connected)]
  [∀ s co r, Decidable (C.onResume s co r)]

instance decidableReconnectAll (connected : Fin n → Bool) :
    ∀ ks s, Decidable (C.onReconnectAll connected ks s)
  | [], _ => .isTrue trivial
  | k :: ks, s =>
      have := decidableReconnectAll connected ks (s.reconnect k true)
      inferInstanceAs (Decidable (if connected k then
        C.onReconnect s k true ∧ C.onReconnectAll connected ks (s.reconnect k true)
        else C.onReconnect s k false))

instance decidableResumeAll (readings : CoroId → Readings n) :
    ∀ cos s, Decidable (C.onResumeAll readings cos s)
  | [], _ => .isTrue trivial
  | co :: cos, s =>
      have := decidableResumeAll readings cos (s.resume co (readings co))
      inferInstanceAs (Decidable (C.onResume s co (readings co) ∧
        C.onResumeAll readings cos (s.resume co (readings co))))

instance decidableHolds (s : Server n) : ∀ i, Decidable (C.holds s i)
  | .connect _ => .isTrue trivial
  | .read st nread _ _ => inferInstanceAs (Decidable (C.onRead s st nread))
  | .poll k status consumed _ => inferInstanceAs (Decidable (C.onPoll s k status consumed))
  | .dbTimer pingOk status connected =>
      inferInstanceAs (Decidable (if s.restarts pingOk status then
        C.onReconnectAll connected (List.finRange n) s else True))
  | .coTimer readings =>
      inferInstanceAs (Decidable (C.onResumeAll readings s.mUntrackedCoroutines s))
  | .closeCb _ => .isTrue trivial

end

/-- No condition at all. -/
def none : Conds n := {}

theorem holds_none (s : Server n) (i : Input n) : (none : Conds n).holds s i := by
  have hreconnect : ∀ connected ks (s : Server n),
      (none : Conds n).onReconnectAll connected ks s := by
    intro connected ks
    induction ks with
    | nil => exact fun _ => trivial
    | cons k ks ih =>
        intro s
        simp only [onReconnectAll]
        split
        · exact ⟨trivial, ih _⟩
        · trivial
  have hresume : ∀ readings cos (s : Server n),
      (none : Conds n).onResumeAll readings cos s := by
    intro readings cos
    induction cos with
    | nil => exact fun _ => trivial
    | cons co cos ih => exact fun s => ⟨trivial, ih _⟩
  cases i with
  | connect accepted => trivial
  | read st nread buf writable => trivial
  | poll k status consumed busy => trivial
  | dbTimer pingOk status connected =>
      simp only [holds]
      split
      · exact hreconnect connected _ s
      · trivial
  | coTimer readings => exact hresume readings _ s
  | closeCb st => trivial

end Conds

/-! ## The invariant rule -/

/-- In states with `Q`, `P` is kept by every move that satisfies its condition. -/
structure Kept {n : Nat} (env : AuthEnv) (C : Conds n) (Q P : Server n → Prop) : Prop where
  connect : ∀ s accepted, Q s → P s → P (s.connect accepted)
  read : ∀ s st nread buf writable, Q s → P s → s.readable st = true → C.onRead s st nread →
    P (s.httpRead env st nread buf writable)
  poll : ∀ s k status consumed busy, Q s → P s → s.polling k = true →
    C.onPoll s k status consumed → P (s.pollCallback k status consumed busy)
  reconnect : ∀ s k connected, Q s → P s → C.onReconnect s k connected →
    P (s.reconnect k connected)
  resume : ∀ s co r, Q s → P s → co ∈ s.mUntrackedCoroutines → C.onResume s co r →
    P (s.resume co r)
  cleanup : ∀ s, Q s → P s → P s.cleanupDeadCoroutines
  closeCb : ∀ s st, Q s → P s → (s.streams st).closing = true → P (s.closeCb st)

namespace Kept

variable {n : Nat} {env : AuthEnv} {C : Conds n} {Q P : Server n → Prop}

/-- An invariant over an invariant. -/
theorem and (hQ : Kept env C (fun _ => True) Q) (hP : Kept env C Q P) :
    Kept env C (fun _ => True) fun s => Q s ∧ P s where
  connect s accepted _ h := ⟨hQ.connect s accepted trivial h.1, hP.connect s accepted h.1 h.2⟩
  read s st nread buf writable _ h hst hC :=
    ⟨hQ.read s st nread buf writable trivial h.1 hst hC,
      hP.read s st nread buf writable h.1 h.2 hst hC⟩
  poll s k status consumed busy _ h hk hC :=
    ⟨hQ.poll s k status consumed busy trivial h.1 hk hC,
      hP.poll s k status consumed busy h.1 h.2 hk hC⟩
  reconnect s k connected _ h hC :=
    ⟨hQ.reconnect s k connected trivial h.1 hC, hP.reconnect s k connected h.1 h.2 hC⟩
  resume s co r _ h hco hC :=
    ⟨hQ.resume s co r trivial h.1 hco hC, hP.resume s co r h.1 h.2 hco hC⟩
  cleanup s _ h := ⟨hQ.cleanup s trivial h.1, hP.cleanup s h.1 h.2⟩
  closeCb s st _ h hst := ⟨hQ.closeCb s st trivial h.1 hst, hP.closeCb s st h.1 h.2 hst⟩

section
variable (h : Kept env C (fun _ => True) P)
include h

theorem reconnectAll {connected : Fin n → Bool} {ks : List (Fin n)} {s : Server n} (hP : P s)
    (hC : C.onReconnectAll connected ks s) : P (Server.reconnectAll connected ks s) := by
  induction ks generalizing s with
  | nil => exact hP
  | cons k ks ih =>
      simp only [Server.reconnectAll, Conds.onReconnectAll] at hC ⊢
      split
      · next hk =>
        rw [if_pos hk] at hC
        exact ih (h.reconnect s k true trivial hP hC.1) hC.2
      · next hk =>
        rw [if_neg hk] at hC
        exact h.reconnect s k false trivial hP hC

theorem resumeAll {readings : CoroId → Readings n} {cos : List CoroId} {s : Server n} (hP : P s)
    (hcos : ∀ co ∈ cos, co ∈ s.mUntrackedCoroutines) (hC : C.onResumeAll readings cos s) :
    P (Server.resumeAll readings cos s) := by
  induction cos generalizing s with
  | nil => exact hP
  | cons co cos ih =>
      obtain ⟨hco, hC⟩ := hC
      refine ih (h.resume s co _ trivial hP (hcos co (by simp)) hco) ?_ hC
      intro co' hco'
      rw [(Server.resume_cases s co _).frame.untracked]
      exact hcos co' (List.mem_cons_of_mem _ hco')

theorem step {s s' : Server n} {i : Input n} (hP : P s) (hC : C.holds s i)
    (hs : env.step n s i = some s') : P s' := by
  cases i with
  | connect accepted =>
      cases hs
      exact h.connect s accepted trivial hP
  | read st nread buf writable =>
      simp only [AuthEnv.step, Option.ite_none_right_eq_some, Bool.and_eq_true,
        Option.some.injEq] at hs
      obtain ⟨hguard, rfl⟩ := hs
      exact h.read s st nread buf writable trivial hP hguard.1.1 hC
  | poll k status consumed busy =>
      simp only [AuthEnv.step, Option.ite_none_right_eq_some, Option.some.injEq] at hs
      obtain ⟨hguard, rfl⟩ := hs
      exact h.poll s k status consumed busy trivial hP hguard hC
  | dbTimer pingOk status connected =>
      cases hs
      simp only [Conds.holds] at hC
      rw [Server.checkConnections]
      split
      · next hrestart =>
        rw [if_pos hrestart] at hC
        exact h.reconnectAll hP hC
      · exact hP
  | coTimer readings =>
      cases hs
      exact h.cleanup _ trivial (h.resumeAll hP (fun _ hco => hco) hC)
  | closeCb st =>
      simp only [AuthEnv.step, Option.ite_none_right_eq_some, Bool.and_eq_true,
        Option.some.injEq] at hs
      obtain ⟨hguard, rfl⟩ := hs
      exact h.closeCb s st trivial hP hguard.1

/-- **The invariant rule** for runs under a condition. -/
theorem run {s : Server n} (hinit : ∀ s, (env.loop n).init s → P s)
    (hrun : (env.loop n).Run C.holds s) : P s :=
  hrun.invariant hinit fun _ _ _ hP hC hs => h.step hP hC hs

end

/-- The rule for every run. -/
theorem reachable (h : Kept env .none (fun _ => True) P) {s : Server n}
    (hinit : ∀ s, (env.loop n).init s → P s) (hrun : (env.loop n).Reachable s) : P s :=
  h.run hinit (hrun.mono fun s i _ => Conds.holds_none s i)

end Kept

/-! ## A direct login -/

/-- The body of the request in the comment of `auth_login`. -/
def directLoginBody : Bytes :=
  bytes ("\x7b\"jsonrpc\": \"2.0\", \"method\": \"login\", " ++
    "\"params\": [\"direct\", \"direct_test\", \"direct-pass-123\"], \"id\": 1\x7d")

/-- A JSON reader that knows this body. -/
def directLoginEnv : AuthEnv where
  parse b :=
    if b = directLoginBody then
      some (.obj [(bytes "jsonrpc", .str (bytes "2.0")), (bytes "method", .str (bytes "login")),
        (bytes "params", .arr [.str (bytes "direct"), .str (bytes "direct_test"),
          .str (bytes "direct-pass-123")]),
        (bytes "id", .num 1)])
    else none
  verifySignedJWT _ := (false, false)

/-- The request is read whole from the stream `st`. -/
def directLoginRead {n : Nat} (st : StreamId) : Input n :=
  let received := bytes "POST /auth HTTP/1.1\r\n\r\n" ++ directLoginBody
  .read st received.length
    (received ++ List.replicate (MAX_PACKET_SIZE - received.length) 0) true

/-- A server with one database connection. -/
def oneConnection : Server 1 :=
  (Server.empty (some (bytes "host=localhost port=5432"))).initConnection 0

/-- Its results are ready. -/
def resultsReady : Input 1 := .poll 0 0 true false

/-- Its connection is lost. -/
def connectionLost : Input 1 := .poll 0 0 false false

theorem oneConnection_init (env : AuthEnv) : (env.loop 1).init oneConnection :=
  ⟨some (bytes "host=localhost port=5432"), [true], rfl⟩

end ServerBase
