import ServerBase.Segments
import Mathlib.Logic.Basic

/-!
# What becomes of a read

`http_on_read` and `handle_jsonrpc_request` branch a dozen times, and every branch replies, closes
and frees on its own.

**Shapes** (`handleJsonrpcDoc_cases`, `routed_cases`). With callbacks that are not null a read runs
through one of a few short lists of actions: a reply and a close, a callback that replies later,
or nothing but a close.

**The result** (`one_disposition_per_read`). A read of data is answered once and then closes the
connection, or it leaves both to a callback; whatever it reads, the buffer and the document are
freed once.
-/

namespace ServerBase

variable {P R : Type}

/-! ## Counting -/

/-- A call of `send_jsonrpc_error` or `send_jsonrpc_response`, or a run of a path callback. -/
def Action.isReply : Action P R → Bool
  | .send _ => true
  | .pathCallback _ => true
  | _ => false

def Action.isRpc : Action P R → Bool
  | .rpcCallback _ _ _ _ => true
  | _ => false

def Action.isFreeBuf : Action P R → Bool
  | .freeBuf => true
  | _ => false

def Action.isFreeDoc : Action P R → Bool
  | .freeDoc => true
  | _ => false

/-- How often `uv_close` is requested on a stream, which is `closing` before: `SAFE_UV_CLOSE` asks
`uv_is_closing` first. -/
def uvCloses (closing : Bool) : List (Action P R) → Nat
  | [] => 0
  | .close :: as => if closing then uvCloses closing as else 1 + uvCloses true as
  | _ :: as => uvCloses closing as

/-- The documents `yyjson_read` returns in the course of the actions. -/
def parsedDocs (env : Env R) (buf : Bytes) (as : List (Action P R)) : Nat :=
  as.countP fun
    | .jsonrpcRequest pret bodyLen => (yyjsonRead env (buf.drop pret) bodyLen).isSome
    | _ => false

/-- One reply, and one request for the close behind it. -/
structure Answered (as : List (Action P R)) : Prop where
  reply : as.countP Action.isReply = 1
  close : uvCloses false as = 1
  order : ∃ before behind, as = before ++ .close :: behind ∧ before.countP Action.isReply = 1

/-- An RPC callback that answers later, and neither a reply nor a close. -/
structure Deferred (env : Env R) (as : List (Action P R)) : Prop where
  pending : ∃ cb msgid params paramsCount,
    as.filter Action.isRpc = [.rpcCallback cb msgid params paramsCount] ∧
      (env.invoke cb msgid params paramsCount).code = kJsonRpcInternalPending
  noReply : as.countP Action.isReply = 0
  noClose : uvCloses false as = 0

/-- No registered callback is a null pointer. -/
structure HTTPServerSettings.NonNull (settings : HTTPServerSettings P R) : Prop where
  paths : ∀ e ∈ settings.mPathCallbacks, e.2.isSome = true
  rpcs : ∀ e ∈ settings.mRpcCallbacks, e.2.isSome = true

theorem mem_emplace {α : Type} {m : List (UInt32 × α)} {key : UInt32} {v : α} {e : UInt32 × α}
    (h : e ∈ emplace m key v) : e ∈ m ∨ e = (key, v) := by
  unfold emplace at h
  split at h
  · exact .inl h
  · rcases List.mem_append.1 h with h | h
    · exact .inl h
    · exact .inr (List.mem_singleton.1 h)

theorem nonNull_emplaceAll {α : Type} (cbs : List (Bytes × α)) :
    ∀ e ∈ emplaceAll cbs, e.2.isSome = true := by
  have hfrom : ∀ m : List (UInt32 × Option α), (∀ e ∈ m, e.2.isSome = true) →
      ∀ e ∈ cbs.foldl (fun m cb => emplace m (hash cb.1) (some cb.2)) m, e.2.isSome = true := by
    induction cbs with
    | nil => exact fun m hm => hm
    | cons cb cbs ih =>
        intro m hm
        apply ih
        intro e he
        rcases mem_emplace he with he | rfl
        · exact hm e he
        · rfl
  exact hfrom [] fun e he => by cases he

/-- What `main` registers is not null. -/
theorem nonNull_register (mJsonRpcPath : Bytes) (paths : List (Bytes × P))
    (rpcs : List (Bytes × R)) : (HTTPServerSettings.register mJsonRpcPath paths rpcs).NonNull :=
  ⟨nonNull_emplaceAll paths, nonNull_emplaceAll rpcs⟩

theorem lookup_ne_null {α : Type} {m : List (UInt32 × Option α)}
    (h : ∀ e ∈ m, e.2.isSome = true) (key : UInt32) : m.lookup key ≠ some none := by
  intro hl
  obtain ⟨l₁, l₂, rfl, -⟩ := List.lookup_eq_some_iff.1 hl
  have hnull := h (key, none) (by simp)
  cases hnull

/-! ## Shapes -/

/-- The id a reply carries, `none` for null. -/
def Reply.id : Reply → Option Int
  | .error _ _ id => id
  | .response id _ => id

/-- `msg_id`, the id the replies to a document carry. -/
def msgIdOf (root : YyjsonVal) : Option Int :=
  if YyjsonVal.isNull (root.objGet (bytes "id")) then none
  else some (YyjsonVal.getNumInt (root.objGet (bytes "id")))

/-- The call of the RPC callback `cb` for a document. -/
def rpcCallOf (root : YyjsonVal) (cb : R) : Action P R :=
  .rpcCallback cb (YyjsonVal.getNumInt (root.objGet (bytes "id"))) (root.objGet (bytes "params"))
    (YyjsonVal.arrSize (root.objGet (bytes "params")))

/-- What `cb` returns for a document. -/
def rpcReturnOf (env : Env R) (root : YyjsonVal) (cb : R) : RpcReturn :=
  env.invoke cb (YyjsonVal.getNumInt (root.objGet (bytes "id"))) (root.objGet (bytes "params"))
    (YyjsonVal.arrSize (root.objGet (bytes "params")))

/-- **What is done with a document**: it is answered without or behind a callback, or left to a
callback; a null callback does nothing. -/
inductive DocHandled (env : Env R) (settings : HTTPServerSettings P R) (root : YyjsonVal) :
    List (Action P R) → Prop
  | refused (reply : Reply) : reply.id = msgIdOf root →
      DocHandled env settings root [.send reply, .close]
  | answered (cb : R) (reply : Reply) : reply.id = msgIdOf root →
      (rpcReturnOf env root cb).code ≠ kJsonRpcInternalPending →
      DocHandled env settings root [rpcCallOf root cb, .send reply, .close]
  | deferred (cb : R) : (rpcReturnOf env root cb).code = kJsonRpcInternalPending →
      DocHandled env settings root [rpcCallOf root cb]
  | null (key : UInt32) : settings.mRpcCallbacks.lookup key = some none →
      DocHandled env settings root []

theorem rpcReply_id {msgId : Option Int} {ret : RpcReturn} {reply : Reply}
    (h : .send reply ∈ rpcReply (P := P) (R := R) msgId ret) : reply.id = msgId := by
  unfold rpcReply at h
  split_ifs at h <;> simp only [List.mem_cons, Action.send.injEq, List.not_mem_nil, or_false,
    reduceCtorEq] at h <;> rw [h] <;> rfl

theorem handleJsonrpcDoc_cases (env : Env R) (settings : HTTPServerSettings P R)
    (root : YyjsonVal) : DocHandled env settings root (handleJsonrpcDoc env settings root) := by
  simp only [handleJsonrpcDoc]
  cases validMethod root with
  | none => exact .refused _ rfl
  | some method =>
      dsimp only
      cases hl : settings.mRpcCallbacks.lookup (hash method) with
      | none => exact .refused _ rfl
      | some found =>
          cases found with
          | none => exact .null _ hl
          | some cb =>
              dsimp only
              show DocHandled env settings root
                (rpcCallOf root cb :: rpcReply (msgIdOf root) (rpcReturnOf env root cb))
              rcases rpcReply_cases (P := P) (R := R) (msgIdOf root) (rpcReturnOf env root cb) with
                ⟨hpending, hreply⟩ | ⟨hdone, reply, hreply⟩
              · rw [hreply]
                exact .deferred cb hpending
              · have hid : reply.id = msgIdOf root :=
                  @rpcReply_id P R (msgIdOf root) (rpcReturnOf env root cb) reply (by simp [hreply])
                rw [hreply]
                exact .answered cb reply hid hdone

/-- **What a read of data comes to.** -/
inductive ReadHandled (env : Env R) (settings : HTTPServerSettings P R) (buf : Bytes) :
    List (Action P R) → Prop
  | path (cb : P) : ReadHandled env settings buf [.pathCallback cb, .close, .freeBuf]
  /-- The request is malformed or partial, or has a wrong path. -/
  | refused (reply : Reply) : ReadHandled env settings buf [.send reply, .close, .freeBuf]
  | unparsed (pret bodyLen : Nat) (reply : Reply) :
      yyjsonRead env (buf.drop pret) bodyLen = none →
      ReadHandled env settings buf
        [.jsonrpcRequest pret bodyLen, .send reply, .close, .freeBuf]
  | document (pret bodyLen : Nat) (root : YyjsonVal) (as : List (Action P R)) :
      yyjsonRead env (buf.drop pret) bodyLen = some root → DocHandled env settings root as →
      ReadHandled env settings buf
        (.jsonrpcRequest pret bodyLen :: (as ++ [.freeDoc, .freeBuf]))
  | nullPath (key : UInt32) : settings.mPathCallbacks.lookup key = some none →
      ReadHandled env settings buf [.freeBuf]
  | overflow (pret : Nat) (req : PhrRequest) : phrParseRequest buf = .success pret req →
      pathBuffer req.path = none → ReadHandled env settings buf [.pathOverflow, .freeBuf]

theorem dispatchRequest_cases (env : Env R) (settings : HTTPServerSettings P R) (nread : Int)
    {buf : Bytes} {pret : Nat} {req : PhrRequest} (hreq : phrParseRequest buf = .success pret req) :
    ReadHandled env settings buf
      (dispatchRequest env settings nread buf pret req ++ [.freeBuf]) := by
  unfold dispatchRequest
  cases hcopy : pathBuffer req.path with
  | none => exact .overflow pret req hreq hcopy
  | some pathbuf =>
      dsimp only
      cases hl : settings.mPathCallbacks.lookup (hash pathbuf) with
      | some found =>
          cases found with
          | none => exact .nullPath _ hl
          | some cb => exact .path cb
      | none =>
          dsimp only
          split
          · unfold handleJsonrpcRequest
            cases hread : yyjsonRead env (buf.drop pret) (bodyLength nread pret) with
            | none => exact .unparsed pret _ _ hread
            | some root =>
                have hdoc := handleJsonrpcDoc_cases env settings root
                have hshape := ReadHandled.document pret _ root _ hread hdoc
                simpa using hshape
          · exact .refused _

theorem httpOnRead_cases (env : Env R) (settings : HTTPServerSettings P R) {nread : Int}
    (hn : 0 < nread) (buf : Bytes) :
    ReadHandled env settings buf (httpOnRead env settings nread buf) := by
  simp only [httpOnRead, if_pos hn]
  cases hreq : phrParseRequest buf with
  | success pret req => exact dispatchRequest_cases env settings nread hreq
  | malformed => exact .refused _
  | incomplete => exact .refused _

/-- Whatever is registered, a read closes its stream or does not reply. -/
theorem httpOnRead_closes_or_silent (env : Env R) (settings : HTTPServerSettings P R) (nread : Int)
    (buf : Bytes) :
    .close ∈ httpOnRead env settings nread buf ∨
      ∀ a ∈ httpOnRead env settings nread buf, a.isReply = false := by
  by_cases hn : 0 < nread
  · have hread := httpOnRead_cases env settings hn buf
    generalize httpOnRead env settings nread buf = as at hread ⊢
    cases hread with
    | path => exact .inl (by simp)
    | refused => exact .inl (by simp)
    | unparsed => exact .inl (by simp)
    | document pret bodyLen root as _ hdoc =>
        cases hdoc with
        | refused => exact .inl (by simp)
        | answered => exact .inl (by simp)
        | deferred => exact .inr (by simp [rpcCallOf, Action.isReply])
        | null => exact .inr (by simp [Action.isReply])
    | nullPath => exact .inr (by simp [Action.isReply])
    | overflow => exact .inr (by simp [Action.isReply])
  · simp only [httpOnRead, if_neg hn]
    split
    · exact .inl (by simp)
    · exact .inr (by simp [Action.isReply])

/-! ## Dispositions -/

section
variable {env : Env R} {settings : HTTPServerSettings P R} {buf : Bytes}
  {as : List (Action P R)}

theorem Answered.not_deferred (h : Answered as) : ¬ Deferred env as := by
  intro hd
  have hreply := h.reply
  rw [hd.noReply] at hreply
  cases hreply

/-- What was done with a document is one of the two. -/
theorem DocHandled.disposition {root : YyjsonVal} (hnull : settings.NonNull)
    (h : DocHandled env settings root as) (pret bodyLen : Nat) :
    Answered (.jsonrpcRequest pret bodyLen :: (as ++ [.freeDoc, .freeBuf])) ∨
      Deferred env (.jsonrpcRequest pret bodyLen :: (as ++ [.freeDoc, .freeBuf])) := by
  cases h with
  | refused reply =>
      exact .inl ⟨rfl, rfl, [.jsonrpcRequest pret bodyLen, .send reply], _, rfl, rfl⟩
  | answered cb reply =>
      exact .inl ⟨rfl, rfl, [.jsonrpcRequest pret bodyLen, rpcCallOf root cb, .send reply], _,
        rfl, rfl⟩
  | deferred cb hpending => exact .inr ⟨⟨cb, _, _, _, rfl, hpending⟩, rfl, rfl⟩
  | null key hl => exact absurd hl (lookup_ne_null hnull.rpcs key)

theorem ReadHandled.disposition (hnull : settings.NonNull)
    (hpath : ∀ pret req, phrParseRequest buf = .success pret req → req.path.length ≤ 63)
    (h : ReadHandled env settings buf as) : Answered as ∨ Deferred env as := by
  cases h with
  | path cb => exact .inl ⟨rfl, rfl, [.pathCallback cb], _, rfl, rfl⟩
  | refused reply => exact .inl ⟨rfl, rfl, [.send reply], _, rfl, rfl⟩
  | unparsed pret bodyLen reply =>
      exact .inl ⟨rfl, rfl, [.jsonrpcRequest pret bodyLen, .send reply], _, rfl, rfl⟩
  | document pret bodyLen root as hread hdoc => exact hdoc.disposition hnull pret bodyLen
  | nullPath key hl => exact absurd hl (lookup_ne_null hnull.paths key)
  | overflow pret req hreq hcopy =>
      rw [pathBuffer_of_le (phrParseRequest_path hreq).2 (hpath pret req hreq)] at hcopy
      cases hcopy

/-- The buffer is freed once, and a document once if one was read. -/
theorem ReadHandled.frees (h : ReadHandled env settings buf as) :
    as.countP Action.isFreeBuf = 1 ∧ as.countP Action.isFreeDoc = parsedDocs env buf as := by
  cases h with
  | path cb => exact ⟨rfl, rfl⟩
  | refused reply => exact ⟨rfl, rfl⟩
  | unparsed pret bodyLen reply hread =>
      simp [parsedDocs, List.countP_cons, hread, Action.isFreeBuf, Action.isFreeDoc]
  | document pret bodyLen root as hread hdoc =>
      cases hdoc <;>
        simp [parsedDocs, List.countP_cons, hread, Action.isFreeBuf, Action.isFreeDoc, rpcCallOf]
  | nullPath key hl => exact ⟨rfl, rfl⟩
  | overflow pret req hreq hcopy => exact ⟨rfl, rfl⟩

end

/-- **One disposition per read.** A read of data on an open stream is answered once, by a reply or
a path callback, and closes the stream once behind that; or an RPC callback runs once and keeps
both for later. An error or the end of the stream closes it without a reply. The buffer is freed
once, and the document once if there is one. -/
theorem one_disposition_per_read (env : Env R) (settings : HTTPServerSettings P R)
    (hnull : settings.NonNull) (nread : Int) (buf : Bytes)
    (hpath : ∀ pret req, phrParseRequest buf = .success pret req → req.path.length ≤ 63) :
    (0 < nread →
        Xor (Answered (httpOnRead env settings nread buf))
          (Deferred env (httpOnRead env settings nread buf))) ∧
      (nread < 0 → (httpOnRead env settings nread buf).countP Action.isReply = 0 ∧
        uvCloses false (httpOnRead env settings nread buf) = 1) ∧
      (httpOnRead env settings nread buf).countP Action.isFreeBuf = 1 ∧
      (httpOnRead env settings nread buf).countP Action.isFreeDoc =
        parsedDocs env buf (httpOnRead env settings nread buf) := by
  by_cases hn : 0 < nread
  · have hcases := httpOnRead_cases env settings hn buf
    refine ⟨?_, ?_, hcases.frees⟩
    · intro _
      rcases hcases.disposition hnull hpath with h | h
      · exact .inl ⟨h, h.not_deferred⟩
      · exact .inr ⟨h, fun ha => ha.not_deferred h⟩
    · intro hneg
      omega
  · simp only [httpOnRead, if_neg hn]
    split
    · exact ⟨fun h => absurd h hn, fun _ => ⟨rfl, rfl⟩, rfl, rfl⟩
    · next hnn => exact ⟨fun h => absurd h hn, fun h => absurd h hnn, rfl, rfl⟩

/-- A login that is answered at once. -/
theorem one_disposition_per_read_login :
    Xor (Answered (httpOnRead (loginEnv (bytes "login")) (namedSettings (bytes "/auth")
        [bytes "/stats"] [bytes "login"]) 64 (loginBuffer (bytes "login"))))
      (Deferred (loginEnv (bytes "login")) (httpOnRead (loginEnv (bytes "login"))
        (namedSettings (bytes "/auth") [bytes "/stats"] [bytes "login"]) 64
          (loginBuffer (bytes "login")))) := by
  obtain ⟨req, hreq, hpath⟩ := loginBuffer_parses (bytes "login") (by decide +kernel)
  refine (one_disposition_per_read (loginEnv (bytes "login")) (namedSettings (bytes "/auth")
    [bytes "/stats"] [bytes "login"]) (nonNull_register _ _ _) 64 (loginBuffer (bytes "login"))
    ?_).1 (by decide)
  intro pret req' hreq'
  rw [hreq] at hreq'
  obtain ⟨-, rfl⟩ := PhrResult.success.inj hreq'
  rw [hpath]
  decide +kernel

end ServerBase
