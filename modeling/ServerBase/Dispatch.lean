import ServerBase.RequestLine

/-!
# Copying and dispatching the request path

**The copy** (`pathCopy_inBounds_iff`). `http_on_read` copies the path into a buffer of 64 bytes and
nothing between the parser and the copy bounds it, so the copy is in bounds exactly for the
request lines whose second word is short enough.

**The dispatch** (`dispatch_by_hash`). All three tables are keyed by `Hash`, and the key is the only
thing that is compared. A callback runs for every name with the hash of its own; it runs for
its own name only, as long as the hash does not collide on the names at hand.
-/

namespace ServerBase

variable {P R : Type}

/-! ## The copy of the path -/

/-- The copy of the path writes inside `pathbuf` and leaves it terminated. -/
def CopyInBounds (path : Bytes) : Prop :=
  ∃ pathbuf, strncpy (List.replicate 64 0) path path.length = some pathbuf ∧ 0 ∈ pathbuf

theorem pathBuffer_eq_some {path pathbuf : Bytes} :
    pathBuffer path = some pathbuf ↔
      strncpy (List.replicate 64 0) path path.length = some pathbuf ∧ 0 ∈ pathbuf := by
  unfold pathBuffer
  cases strncpy (List.replicate 64 0) path path.length with
  | none => simp
  | some b =>
      simp only [Option.ite_none_right_eq_some, List.contains_iff_mem, Option.some.injEq]
      constructor
      · rintro ⟨h, rfl⟩; exact ⟨rfl, h⟩
      · rintro ⟨rfl, h⟩; exact ⟨h, rfl⟩

theorem pathBuffer_of_le {path : Bytes} (h : ∀ c ∈ path, c ≠ 0) (hlen : path.length ≤ 63) :
    pathBuffer path = some (path ++ List.replicate (64 - path.length) 0) := by
  rw [pathBuffer_eq_some]
  refine ⟨strncpy_zeros h (by omega), ?_⟩
  rw [List.mem_append, List.mem_replicate]
  exact .inr ⟨by omega, rfl⟩

/-- A path of 64 bytes fills the buffer without a NUL, a longer one leaves it. -/
theorem copyInBounds_iff {path : Bytes} (h : ∀ c ∈ path, c ≠ 0) :
    CopyInBounds path ↔ path.length ≤ 63 := by
  constructor
  · rintro ⟨pathbuf, hcopy, h0⟩
    simp only [strncpy, List.take_length, cstr_of_noNul h, List.length_replicate, Nat.sub_self,
      List.replicate_zero, List.append_nil, Option.ite_none_right_eq_some, Option.some.injEq]
      at hcopy
    obtain ⟨hle, rfl⟩ := hcopy
    by_contra hgt
    have hfull : path.length = 64 := by omega
    rw [hfull, List.drop_replicate, Nat.sub_self, List.replicate_zero, List.append_nil] at h0
    exact h 0 h0 rfl
  · intro hlen
    exact ⟨_, pathBuffer_eq_some.1 (pathBuffer_of_le h hlen)⟩

/-- **The path of an accepted request is copied in bounds** exactly when the second word of the
request line has at most 63 bytes. -/
theorem pathCopy_inBounds_iff {buf : Bytes} {pret : Nat} {req : PhrRequest}
    (h : phrParseRequest buf = .success pret req) :
    CopyInBounds req.path ↔ (secondWord buf).length ≤ 63 := by
  obtain ⟨hpath, hnul⟩ := phrParseRequest_path h
  rw [copyInBounds_iff hnul, hpath]

/-- A parse result that is a success with the property `q`. -/
def PhrResult.any (q : Nat → PhrRequest → Bool) : PhrResult → Bool
  | .success pret req => q pret req
  | _ => false

theorem PhrResult.exists_of_any {q : Nat → PhrRequest → Bool} {r : PhrResult}
    (h : r.any q = true) : ∃ pret req, r = .success pret req ∧ q pret req = true := by
  cases r with
  | success pret req => exact ⟨pret, req, rfl, h⟩
  | malformed => cases h
  | incomplete => cases h

/-- A request with a path of 6 bytes. -/
theorem pathCopy_inBounds_stats :
    CopyInBounds (bytes "/stats") := by
  obtain ⟨pret, req, hreq, hq⟩ := PhrResult.exists_of_any
    (r := phrParseRequest (bytes "GET /stats HTTP/1.1\r\n\r\n"))
    (q := fun _ req => req.path = bytes "/stats") (by decide +kernel)
  rw [← of_decide_eq_true hq]
  exact (pathCopy_inBounds_iff hreq).2 (by decide +kernel)

/-- A path of 65 bytes is accepted and copied out of bounds. -/
theorem pathCopy_outOfBounds :
    ∃ received stale : Bytes, 1 ≤ received.length ∧ received.length + stale.length = 1024 ∧
      ∃ pret req, phrParseRequest (received ++ stale) = .success pret req ∧
        ¬ CopyInBounds req.path := by
  refine ⟨bytes "GET /" ++ List.replicate 64 97 ++ bytes " HTTP/1.1\r\n\r\n",
    List.replicate 942 0, by decide +kernel, by decide +kernel, ?_⟩
  obtain ⟨pret, req, hreq, hq⟩ := PhrResult.exists_of_any
    (r := phrParseRequest (bytes "GET /" ++ List.replicate 64 97 ++ bytes " HTTP/1.1\r\n\r\n" ++
      List.replicate 942 0))
    (q := fun _ req => req.path.length = 65) (by decide +kernel)
  refine ⟨pret, req, hreq, ?_⟩
  rw [copyInBounds_iff (phrParseRequest_path hreq).2, of_decide_eq_true hq]
  decide

/-! ## The tables -/

/-- The first registered callback whose name has the hash `key`. -/
def firstWithHash {α : Type} (cbs : List (Bytes × α)) (key : UInt32) : Option α :=
  (cbs.find? fun cb => hash cb.1 = key).map (·.2)

theorem lookup_emplace {α : Type} (m : List (UInt32 × α)) (key k : UInt32) (v : α) :
    (emplace m key v).lookup k =
      (m.lookup k).or (if key = k then some v else none) := by
  unfold emplace
  by_cases hk : key = k
  · subst hk
    cases hm : m.lookup key with
    | some w => simp [hm]
    | none => simp [hm, List.lookup_append]
  · have hne : (k == key) = false := by simpa using Ne.symm hk
    rw [if_neg hk, Option.or_none]
    split
    · rfl
    · simp [List.lookup_append, List.lookup_cons, hne]

theorem lookup_emplaceAll_from {α : Type} (cbs : List (Bytes × α)) (m : List (UInt32 × Option α))
    (key : UInt32) :
    (cbs.foldl (fun m cb => emplace m (hash cb.1) (some cb.2)) m).lookup key =
      (m.lookup key).or ((firstWithHash cbs key).map some) := by
  induction cbs generalizing m with
  | nil => simp [firstWithHash]
  | cons cb cbs ih =>
      rw [List.foldl_cons, ih, lookup_emplace, Option.or_assoc]
      by_cases hk : hash cb.1 = key <;> simp [firstWithHash, hk]

/-- **A table lookup** finds the first callback registered under the hash. -/
theorem lookup_emplaceAll {α : Type} (cbs : List (Bytes × α)) (key : UInt32) :
    (emplaceAll cbs).lookup key = (firstWithHash cbs key).map some := by
  simp [emplaceAll, lookup_emplaceAll_from]

/-! ## What runs -/

/-- The path callback `cb` runs. -/
def RunsPath (actions : List (Action P R)) (cb : P) : Prop := .pathCallback cb ∈ actions

/-- `handle_jsonrpc_request` is called. -/
def RunsJsonrpc (actions : List (Action P R)) : Prop :=
  ∃ pret bodyLen, .jsonrpcRequest pret bodyLen ∈ actions

/-- The RPC callback `cb` runs. -/
def RunsRpc (actions : List (Action P R)) (cb : R) : Prop :=
  ∃ msgid params paramsCount, .rpcCallback cb msgid params paramsCount ∈ actions

/-- An RPC callback that is done is answered and the connection closed; a pending one is left
alone. -/
theorem rpcReply_cases (msgId : Option Int) (ret : RpcReturn) :
    (ret.code = kJsonRpcInternalPending ∧ rpcReply (P := P) (R := R) msgId ret = []) ∨
      (ret.code ≠ kJsonRpcInternalPending ∧
        ∃ reply, rpcReply (P := P) (R := R) msgId ret = [.send reply, .close]) := by
  unfold rpcReply
  by_cases hp : ret.code = kJsonRpcInternalPending
  · exact .inl ⟨hp, by rw [hp]; rfl⟩
  · refine .inr ⟨hp, ?_⟩
    split_ifs <;> exact ⟨_, rfl⟩

theorem mem_rpcReply {a : Action P R} {msgId : Option Int} {ret : RpcReturn}
    (h : a ∈ rpcReply msgId ret) : (∃ reply, a = .send reply) ∨ a = .close := by
  rcases rpcReply_cases msgId ret with ⟨-, he⟩ | ⟨-, reply, he⟩
  · rw [he] at h; cases h
  · rw [he] at h
    rcases List.mem_cons.1 h with rfl | h
    · exact .inl ⟨reply, rfl⟩
    · exact .inr (List.mem_singleton.1 h)

/-- The document that `handle_jsonrpc_request` reads and the method it asks for. -/
def requestedMethod (env : Env R) (body : Bytes) (bodyLen : Nat) : Option Bytes :=
  (yyjsonRead env body bodyLen).bind validMethod

theorem runsRpc_handleJsonrpcRequest (env : Env R) (settings : HTTPServerSettings P R)
    (body : Bytes) (bodyLen : Nat) (cb : R) :
    RunsRpc (handleJsonrpcRequest env settings body bodyLen) cb ↔
      ∃ method, requestedMethod env body bodyLen = some method ∧
        settings.mRpcCallbacks.lookup (hash method) = some (some cb) := by
  unfold requestedMethod handleJsonrpcRequest
  cases yyjsonRead env body bodyLen with
  | none => simp [RunsRpc]
  | some root =>
      simp only [Option.bind_some, handleJsonrpcDoc]
      cases hm : validMethod root with
      | none => simp [RunsRpc]
      | some method =>
          simp only [Option.some.injEq, exists_eq_left']
          cases hl : settings.mRpcCallbacks.lookup (hash method) with
          | none => simp [RunsRpc]
          | some found =>
              cases found with
              | none => simp [RunsRpc]
              | some cb' =>
                  simp only [Option.some.injEq]
                  constructor
                  · rintro ⟨msgid, params, count, hmem⟩
                    simp only [List.cons_append, List.mem_cons, List.mem_append] at hmem
                    rcases hmem with h | h | h | h
                    · exact (Action.rpcCallback.inj h).1.symm
                    · rcases mem_rpcReply h with ⟨_, h⟩ | h <;> cases h
                    · cases h
                    · cases h
                  · rintro rfl
                    exact ⟨_, _, _, List.mem_cons_self⟩

/-- `handle_jsonrpc_request` replies, calls an RPC callback, closes and frees its document. -/
theorem mem_handleJsonrpcRequest {env : Env R} {settings : HTTPServerSettings P R} {body : Bytes}
    {bodyLen : Nat} {a : Action P R} (h : a ∈ handleJsonrpcRequest env settings body bodyLen) :
    (∃ reply, a = .send reply) ∨ (∃ cb msgid params count, a = .rpcCallback cb msgid params count) ∨
      a = .close ∨ a = .freeDoc := by
  unfold handleJsonrpcRequest at h
  split at h
  · simp only [List.mem_cons, List.not_mem_nil, or_false] at h
    rcases h with rfl | rfl
    · exact .inl ⟨_, rfl⟩
    · exact .inr (.inr (.inl rfl))
  · rcases List.mem_append.1 h with h | h
    · simp only [handleJsonrpcDoc] at h
      split at h
      · simp only [List.mem_cons, List.not_mem_nil, or_false] at h
        rcases h with rfl | rfl
        · exact .inl ⟨_, rfl⟩
        · exact .inr (.inr (.inl rfl))
      · split at h
        · rcases List.mem_cons.1 h with rfl | h
          · exact .inr (.inl ⟨_, _, _, _, rfl⟩)
          · rcases mem_rpcReply h with h | rfl
            · exact .inl h
            · exact .inr (.inr (.inl rfl))
        · cases h
        · simp only [List.mem_cons, List.not_mem_nil, or_false] at h
          rcases h with rfl | rfl
          · exact .inl ⟨_, rfl⟩
          · exact .inr (.inr (.inl rfl))
    · exact .inr (.inr (.inr (List.mem_singleton.1 h)))

theorem not_runsPath_handleJsonrpcRequest {env : Env R} {settings : HTTPServerSettings P R}
    {body : Bytes} {bodyLen : Nat} {cb : P} :
    ¬ RunsPath (handleJsonrpcRequest env settings body bodyLen) cb := by
  intro h
  rcases mem_handleJsonrpcRequest h with ⟨_, h⟩ | ⟨_, _, _, _, h⟩ | h | h <;> cases h

/-! ## Dispatch -/

/-- Where a request goes whose path has the hash `key`; `jsonrpc` is what is done with its body. -/
def routed (settings : HTTPServerSettings P R) (key : UInt32) (jsonrpc : List (Action P R)) :
    List (Action P R) :=
  match settings.mPathCallbacks.lookup key with
  | some (some cb) => [.pathCallback cb, .close]
  | some none => []
  | none =>
      if settings.mJsonRpcPathHash = key then jsonrpc
      else [.send (.error kJsonRpcMethodNotFound "Wrong Path" none), .close]

/-- A parsed request with a short path goes by the hash of its path. -/
theorem dispatchRequest_of_short {env : Env R} {settings : HTTPServerSettings P R} {nread : Int}
    {buf : Bytes} {pret : Nat} {req : PhrRequest} (hnul : ∀ c ∈ req.path, c ≠ 0)
    (hlen : req.path.length ≤ 63) :
    dispatchRequest env settings nread buf pret req =
      routed settings (hash req.path) (.jsonrpcRequest pret (bodyLength nread pret) ::
        handleJsonrpcRequest env settings (buf.drop pret) (bodyLength nread pret)) := by
  have hhash : hash (req.path ++ List.replicate (64 - req.path.length) 0) = hash req.path := by
    rw [← hash_cstr, cstr_zeros hnul (by omega)]
  simp only [dispatchRequest, pathBuffer_of_le hnul hlen, hhash]
  rfl

theorem httpOnRead_of_success {env : Env R} {settings : HTTPServerSettings P R} {nread : Int}
    {buf : Bytes} {pret : Nat} {req : PhrRequest} (hn : 0 < nread)
    (h : phrParseRequest buf = .success pret req) :
    httpOnRead env settings nread buf =
      dispatchRequest env settings nread buf pret req ++ [.freeBuf] := by
  simp only [httpOnRead, if_pos hn, h]

/-- The settings of a server whose callbacks are named by the strings they are registered
under. -/
def namedSettings (mJsonRpcPath : Bytes) (paths rpcs : List Bytes) :
    HTTPServerSettings Bytes Bytes :=
  .register mJsonRpcPath (paths.map fun s => (s, s)) (rpcs.map fun s => (s, s))

theorem firstWithHash_named (names : List Bytes) (key : UInt32) :
    firstWithHash (names.map fun s => (s, s)) key = names.find? fun s => hash s = key := by
  induction names with
  | nil => rfl
  | cons s names ih =>
      simp only [firstWithHash, List.map_cons, List.find?_cons] at ih ⊢
      by_cases hk : hash s = key
      · simp [hk]
      · simp only [hk, decide_false, ih]

section
variable (mJsonRpcPath : Bytes) (paths rpcs : List Bytes)

theorem namedSettings_pathHash :
    (namedSettings mJsonRpcPath paths rpcs).mJsonRpcPathHash = hash mJsonRpcPath := rfl

theorem namedSettings_lookupPath (key : UInt32) :
    (namedSettings mJsonRpcPath paths rpcs).mPathCallbacks.lookup key =
      (paths.find? fun s => hash s = key).map some := by
  simp [namedSettings, HTTPServerSettings.register, lookup_emplaceAll, firstWithHash_named]

theorem namedSettings_lookupRpc (key : UInt32) :
    (namedSettings mJsonRpcPath paths rpcs).mRpcCallbacks.lookup key =
      (rpcs.find? fun s => hash s = key).map some := by
  simp [namedSettings, HTTPServerSettings.register, lookup_emplaceAll, firstWithHash_named]

end

/-- `Hash` tells `name` from the other strings of the list. -/
def HashTells (name : Bytes) (names : List Bytes) : Prop :=
  ∀ s ∈ names, hash s = hash name → s = name

theorem find?_hash_eq_some {name : Bytes} {names : List Bytes} (h : HashTells name names)
    {s : Bytes} : (names.find? fun s => hash s = hash name) = some s ↔ s ∈ names ∧ name = s := by
  constructor
  · intro hs
    have hmem := List.mem_of_find?_eq_some hs
    exact ⟨hmem, (h s hmem (by simpa using List.find?_some hs)).symm⟩
  · rintro ⟨hmem, rfl⟩
    cases hf : names.find? fun s => hash s = hash name with
    | none => exact absurd hmem (fun hm => by simpa using List.find?_eq_none.1 hf name hm)
    | some t => rw [h t (List.mem_of_find?_eq_some hf) (by simpa using List.find?_some hf)]

theorem find?_hash_eq_none {name : Bytes} {names : List Bytes} (h : HashTells name names) :
    (names.find? fun s => hash s = hash name) = none ↔ name ∉ names := by
  rw [List.find?_eq_none]
  constructor
  · intro hn hmem
    exact hn name hmem (by simp)
  · intro hn s hs hhash
    exact hn (h s hs (by simpa using hhash) ▸ hs)

section
variable (env : Env Bytes) (mJsonRpcPath : Bytes) (paths rpcs : List Bytes) {nread : Int}
  {buf : Bytes} {pret : Nat} {req : PhrRequest}

/-- The three dispatch decisions, by hash. -/
theorem runs_iff_hash (hn : 0 < nread) (hreq : phrParseRequest buf = .success pret req)
    (hlen : req.path.length ≤ 63) :
    (∀ s, RunsPath (httpOnRead env (namedSettings mJsonRpcPath paths rpcs) nread buf) s ↔
        (paths.find? fun s => hash s = hash req.path) = some s) ∧
      (RunsJsonrpc (httpOnRead env (namedSettings mJsonRpcPath paths rpcs) nread buf) ↔
        (paths.find? fun s => hash s = hash req.path) = none ∧
          hash req.path = hash mJsonRpcPath) ∧
      ∀ n, RunsRpc (httpOnRead env (namedSettings mJsonRpcPath paths rpcs) nread buf) n ↔
        RunsJsonrpc (httpOnRead env (namedSettings mJsonRpcPath paths rpcs) nread buf) ∧
          ∃ method, requestedMethod env (buf.drop pret) (bodyLength nread pret) = some method ∧
            (rpcs.find? fun s => hash s = hash method) = some n := by
  rw [httpOnRead_of_success hn hreq,
    dispatchRequest_of_short (phrParseRequest_path hreq).2 hlen, routed,
    namedSettings_lookupPath, namedSettings_pathHash]
  cases hfind : paths.find? fun s => hash s = hash req.path with
  | some t =>
      refine ⟨?_, ?_, ?_⟩
      · intro s
        simp [RunsPath, eq_comm]
      · simp [RunsJsonrpc]
      · intro n
        simp [RunsRpc, RunsJsonrpc]
  | none =>
      simp only [Option.map_none]
      by_cases hkey : hash mJsonRpcPath = hash req.path
      · rw [if_pos hkey]
        refine ⟨?_, ?_, ?_⟩
        · intro s
          simp only [RunsPath, List.mem_append, List.mem_cons]
          constructor
          · rintro ((h | h) | h)
            · cases h
            · exact absurd h not_runsPath_handleJsonrpcRequest
            · simp at h
          · intro h; cases h
        · exact iff_of_true ⟨pret, bodyLength nread pret, by simp⟩ ⟨trivial, hkey.symm⟩
        · intro n
          have hruns := runsRpc_handleJsonrpcRequest env (namedSettings mJsonRpcPath paths rpcs)
            (buf.drop pret) (bodyLength nread pret) n
          simp only [namedSettings_lookupRpc, Option.map_eq_some_iff, Option.some.injEq,
            exists_eq_right] at hruns
          rw [← hruns]
          constructor
          · rintro ⟨msgid, params, count, hmem⟩
            simp only [List.mem_append, List.mem_cons] at hmem
            rcases hmem with (h | h) | h
            · cases h
            · exact ⟨⟨pret, bodyLength nread pret, by simp⟩, msgid, params, count, h⟩
            · simp at h
          · rintro ⟨-, msgid, params, count, hmem⟩
            exact ⟨msgid, params, count, by simp [hmem]⟩
      · rw [if_neg hkey]
        refine ⟨?_, ?_, ?_⟩
        · intro s
          simp [RunsPath]
        · simp [RunsJsonrpc, Ne.symm hkey]
        · intro n
          simp [RunsRpc, RunsJsonrpc]

/-- **Dispatch is by hash.** The path callback that runs is the first one registered under the
hash of the path; the JSON-RPC handler runs when there is none and the path has the hash of
`mJsonRpcPath`; the RPC callback that runs is the first one registered under the hash of the
method, which stops at a NUL. For names the hash tells apart, dispatch is by name. -/
theorem dispatch_by_hash (hn : 0 < nread) (hreq : phrParseRequest buf = .success pret req)
    (hlen : req.path.length ≤ 63) :
    (∀ s, RunsPath (httpOnRead env (namedSettings mJsonRpcPath paths rpcs) nread buf) s ↔
        (paths.find? fun s => hash s = hash req.path) = some s) ∧
      (RunsJsonrpc (httpOnRead env (namedSettings mJsonRpcPath paths rpcs) nread buf) ↔
        (∀ s ∈ paths, hash s ≠ hash req.path) ∧ hash req.path = hash mJsonRpcPath) ∧
      (∀ n, RunsRpc (httpOnRead env (namedSettings mJsonRpcPath paths rpcs) nread buf) n ↔
        RunsJsonrpc (httpOnRead env (namedSettings mJsonRpcPath paths rpcs) nread buf) ∧
          ∃ method, requestedMethod env (buf.drop pret) (bodyLength nread pret) = some method ∧
            (rpcs.find? fun s => hash s = hash method) = some n) ∧
      (HashTells req.path (mJsonRpcPath :: paths) →
        (∀ s, RunsPath (httpOnRead env (namedSettings mJsonRpcPath paths rpcs) nread buf) s ↔
            s ∈ paths ∧ req.path = s) ∧
          (RunsJsonrpc (httpOnRead env (namedSettings mJsonRpcPath paths rpcs) nread buf) ↔
            req.path ∉ paths ∧ req.path = mJsonRpcPath)) ∧
      ∀ method, requestedMethod env (buf.drop pret) (bodyLength nread pret) = some method →
        HashTells method rpcs →
        ∀ n, RunsRpc (httpOnRead env (namedSettings mJsonRpcPath paths rpcs) nread buf) n ↔
          RunsJsonrpc (httpOnRead env (namedSettings mJsonRpcPath paths rpcs) nread buf) ∧
            n ∈ rpcs ∧ method = n := by
  obtain ⟨hpath, hjsonrpc, hrpc⟩ := runs_iff_hash env mJsonRpcPath paths rpcs hn hreq hlen
  refine ⟨hpath, ?_, hrpc, fun htells => ⟨?_, ?_⟩, ?_⟩
  · rw [hjsonrpc, List.find?_eq_none]
    simp
  · intro s
    rw [hpath, find?_hash_eq_some fun s hs => htells s (List.mem_cons_of_mem _ hs)]
  · rw [hjsonrpc, find?_hash_eq_none fun s hs => htells s (List.mem_cons_of_mem _ hs)]
    refine and_congr_right fun _ => ⟨fun h => (htells _ List.mem_cons_self h.symm).symm, ?_⟩
    rintro rfl
    rfl
  · intro method hmethod htells n
    rw [hrpc]
    apply and_congr_right
    intro _
    simp only [hmethod, Option.some.injEq, exists_eq_left']
    exact find?_hash_eq_some htells

end

/-! ## A login by another name -/

/-- The body of a request for `method`. -/
def loginBody (method : Bytes) : Bytes :=
  bytes "\x7b\"jsonrpc\":\"2.0\",\"method\":\"" ++ method ++ bytes "\",\"id\":1\x7d"

/-- The JSON reader on `loginBody method`; the callbacks reply at once. -/
def loginEnv (method : Bytes) : Env Bytes where
  parse b :=
    if b = loginBody method then
      some (.obj [(bytes "jsonrpc", .str (bytes "2.0")), (bytes "method", .str method),
        (bytes "id", .num 1)])
    else none
  invoke _ _ _ _ := ⟨kJsonRpcSuccess, .null⟩

/-- A receive buffer of 1024 bytes that holds a request for `method`. -/
def loginBuffer (method : Bytes) : Bytes :=
  let received := bytes "POST /auth HTTP/1.1\r\n\r\n" ++ loginBody method
  received ++ List.replicate (1024 - received.length) 0

theorem loginBuffer_parses (method : Bytes)
    (h : (phrParseRequest (loginBuffer method)).any
      (fun pret req => pret = 23 ∧ req.path = bytes "/auth") = true) :
    ∃ req, phrParseRequest (loginBuffer method) = .success 23 req ∧ req.path = bytes "/auth" := by
  obtain ⟨pret, req, hreq, hq⟩ := PhrResult.exists_of_any h
  obtain ⟨rfl, hpath⟩ := of_decide_eq_true hq
  exact ⟨req, hreq, hpath⟩

/-- A request for `login`, to a server that registers `login` and `register`. -/
theorem dispatch_by_hash_login :
    RunsRpc (httpOnRead (loginEnv (bytes "login")) (namedSettings (bytes "/auth")
      [bytes "/stats"] [bytes "login", bytes "register"]) 64 (loginBuffer (bytes "login")))
      (bytes "login") := by
  obtain ⟨req, hreq, hpath⟩ := loginBuffer_parses (bytes "login") (by decide +kernel)
  obtain ⟨-, hjsonrpc, hrpc, -, -⟩ :=
    dispatch_by_hash (loginEnv (bytes "login")) (bytes "/auth") [bytes "/stats"]
      [bytes "login", bytes "register"] (by decide : (0 : Int) < 64) hreq
      (by rw [hpath]; decide +kernel)
  rw [hrpc, hjsonrpc, hpath]
  exact ⟨by decide +kernel, bytes "login", by decide +kernel, by decide +kernel⟩

/-- **Another name runs `login`.** The method `mNgin` has the hash of `login`, and so has `login`
with a NUL behind it. -/
theorem dispatch_not_by_name :
    (∃ req, phrParseRequest (loginBuffer (bytes "mNgin")) = .success 23 req ∧
      requestedMethod (loginEnv (bytes "mNgin")) ((loginBuffer (bytes "mNgin")).drop 23)
        (bodyLength 64 23) = some (bytes "mNgin") ∧
      RunsRpc (httpOnRead (loginEnv (bytes "mNgin")) (namedSettings (bytes "/auth") []
        [bytes "login"]) 64 (loginBuffer (bytes "mNgin"))) (bytes "login")) ∧
      bytes "mNgin" ≠ bytes "login" := by
  obtain ⟨req, hreq, hpath⟩ := loginBuffer_parses (bytes "mNgin") (by decide +kernel)
  refine ⟨⟨req, hreq, by decide +kernel, ?_⟩, by decide +kernel⟩
  obtain ⟨-, hjsonrpc, hrpc⟩ := runs_iff_hash (loginEnv (bytes "mNgin")) (bytes "/auth") []
    [bytes "login"] (by decide : (0 : Int) < 64) hreq (by rw [hpath]; decide +kernel)
  rw [hrpc, hjsonrpc, hpath]
  exact ⟨by decide +kernel, bytes "mNgin", by decide +kernel, by decide +kernel⟩

end ServerBase
