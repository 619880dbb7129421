import Mathlib.Algebra.Group.Int.Defs
import Mathlib.Algebra.Group.Nat.Defs
import ServerBase.Picohttp

/-!
# Requests: `http_on_read` and `handle_jsonrpc_request`

The HTTP half of `utils/network.cpp`. A callback invocation is a function from what it reads (the
receive buffer, `nread`, the registered callbacks) to the list of things it does to the client,
in order.

**Parameters.** `yyjson` is large and is taken as a function from bytes to a value. The RPC
callbacks are named by a type `R`, the path callbacks by a type `P`, and what an RPC callback
returns is a function of what it is called with.

`RESTRICT_POST_ONLY` and `NETWORK_DBG` are off, as in the repository.
-/

namespace ServerBase

/-! ## JSON values -/

/-- A parsed `yyjson_val`. A string holds all its bytes, an embedded NUL included. -/
inductive YyjsonVal
  | null
  | bool (b : Bool)
  | num (q : Rat)
  | str (b : Bytes)
  | arr (elems : List YyjsonVal)
  | obj (members : List (Bytes × YyjsonVal))

namespace YyjsonVal

/-- `yyjson_obj_get`: the first member with the key. -/
def objGet (v : YyjsonVal) (key : Bytes) : Option YyjsonVal :=
  match v with
  | obj members => members.lookup key
  | _ => none

/-- `yyjson_get_str`, on a pointer that may be null. -/
def getStr : Option YyjsonVal → Option Bytes
  | some (str b) => some b
  | _ => none

/-- `yyjson_arr_get` -/
def arrGet (v : Option YyjsonVal) (idx : Nat) : Option YyjsonVal :=
  match v with
  | some (arr elems) => elems[idx]?
  | _ => none

/-- `yyjson_arr_size` -/
def arrSize : Option YyjsonVal → Nat
  | some (arr elems) => elems.length
  | _ => 0

/-- `yyjson_is_null`; a missing value is not null. -/
def isNull : Option YyjsonVal → Bool
  | some null => true
  | _ => false

def isObj : YyjsonVal → Bool
  | obj _ => true
  | _ => false

/-- `int id_num = yyjson_get_num(id);`: 0 for anything but a number, else truncated towards zero.
Out of the range of `int` the conversion is the one of the x86-64 instruction. -/
def getNumInt : Option YyjsonVal → Int
  | some (num q) =>
      let t := q.num.tdiv q.den
      if -2 ^ 31 ≤ t ∧ t < 2 ^ 31 then t else -2 ^ 31
  | _ => 0

theorem getNumInt_range (v : Option YyjsonVal) :
    -2 ^ 31 ≤ getNumInt v ∧ getNumInt v < 2 ^ 31 := by
  unfold getNumInt
  split
  · dsimp only
    split
    · next hrange => exact hrange
    · decide
  · decide

end YyjsonVal

/-! ## Streams -/

/-- Streams are named by the order of their creation. -/
abbrev StreamId := Nat

/-- `uv_stream_t`: `uv_close` was requested; its callback, `free`, has run. -/
structure UvStream where
  closing : Bool := false
  freed : Bool := false

/-! ## Replies and actions -/

/-- `JsonRpcResult`; a callback may also return a value the enum does not list. -/
abbrev JsonRpcResult := Int

def kJsonRpcSuccess : JsonRpcResult := 0
def kJsonRpcParseError : JsonRpcResult := -32700
def kJsonRpcMethodNotFound : JsonRpcResult := -32601
def kJsonRpcInvalidParams : JsonRpcResult := -32602
def kJsonRpcInternalError : JsonRpcResult := -32603
def kJsonRpcServerError : JsonRpcResult := -32000
def kJsonRpcInternalPending : JsonRpcResult := -32100

/-- A call of `send_jsonrpc_error` or `send_jsonrpc_response`; the id is `none` for a null
pointer. -/
inductive Reply
  | error (code : Int) (message : String) (id : Option Int)
  | response (id : Option Int) (result : YyjsonVal)

/-- What one `http_on_read` does, in order. -/
inductive Action (P R : Type)
  | send (reply : Reply)
  | pathCallback (cb : P)
  /-- `handle_jsonrpc_request` is called with `body = buf->base + pret` and `bodyLen`. -/
  | jsonrpcRequest (pret bodyLen : Nat)
  | rpcCallback (cb : R) (msgid : Int) (params : Option YyjsonVal) (paramsCount : Nat)
  /-- `SAFE_UV_CLOSE(client, free)` -/
  | close
  | freeDoc
  | freeBuf
  /-- `pathbuf` is written or read behind its end. -/
  | pathOverflow

/-- The tables of `HTTPServerSettings`; a registered callback may be a null pointer. -/
structure HTTPServerSettings (P R : Type) where
  mJsonRpcPathHash : UInt32
  mPathCallbacks : List (UInt32 × Option P)
  mRpcCallbacks : List (UInt32 × Option R)

/-- What an RPC callback hands back. -/
structure RpcReturn where
  code : JsonRpcResult
  result : YyjsonVal

/-- The code `http_on_read` calls and that is not modelled here. -/
structure Env (R : Type) where
  /-- `yyjson_read` on exactly these bytes. -/
  parse : Bytes → Option YyjsonVal
  /-- The return of `cb(client, msgid, params, params_count, &doc, &result)`. -/
  invoke : R → Int → Option YyjsonVal → Nat → RpcReturn

variable {P R : Type}

/-! ## `handle_jsonrpc_request` -/

/-- `yyjson_read(dat, len, 0)` where `dat` has `dat.length` bytes. A longer `len` comes from a
wrapped subtraction and is at least `2^64 - 1024`; `yyjson_read` then fails to allocate. -/
def yyjsonRead (env : Env R) (dat : Bytes) (len : Nat) : Option YyjsonVal :=
  if len ≤ dat.length then env.parse (dat.take len) else none

/-- The reply to what an RPC callback returned. -/
def rpcReply (msgId : Option Int) (ret : RpcReturn) : List (Action P R) :=
  if ret.code = kJsonRpcSuccess then
    [.send (.response msgId ret.result), .close]
  else if ret.code = kJsonRpcInvalidParams then
    [.send (.error kJsonRpcInvalidParams "Invalid params" msgId), .close]
  else if ret.code = kJsonRpcInternalError then
    [.send (.error kJsonRpcServerError "Internal error" msgId), .close]
  else if ret.code = kJsonRpcInternalPending then
    []
  else
    [.send (.error ret.code "Internal error" msgId), .close]

/-- The method of a valid request: an object with `"jsonrpc": "2.0"`, a non-empty string
`"method"`, and no null `"id"`. -/
def validMethod (root : YyjsonVal) : Option Bytes :=
  match YyjsonVal.getStr (root.objGet (bytes "jsonrpc")),
      YyjsonVal.getStr (root.objGet (bytes "method")) with
  | some jsonrpc, some method =>
      if root.isObj && strequal jsonrpc (bytes "2.0") && 0 < method.length &&
          !YyjsonVal.isNull (root.objGet (bytes "id")) then some method else none
  | _, _ => none

/-- What is done with a parsed document. -/
def handleJsonrpcDoc (env : Env R) (settings : HTTPServerSettings P R) (root : YyjsonVal) :
    List (Action P R) :=
  let id := root.objGet (bytes "id")
  let idNum := YyjsonVal.getNumInt id
  let msgId := if YyjsonVal.isNull id then none else some idNum
  match validMethod root with
  | none => [.send (.error kJsonRpcParseError "Parse Error" msgId), .close]
  | some method =>
      let params := root.objGet (bytes "params")
      let paramsCount := YyjsonVal.arrSize params
      match settings.mRpcCallbacks.lookup (hash method) with
      | some (some cb) =>
          .rpcCallback cb idNum params paramsCount ::
            rpcReply msgId (env.invoke cb idNum params paramsCount)
      | some none => []
      | none => [.send (.error kJsonRpcMethodNotFound "Method not found" msgId), .close]

/-- `handle_jsonrpc_request` -/
def handleJsonrpcRequest (env : Env R) (settings : HTTPServerSettings P R) (body : Bytes)
    (bodyLen : Nat) : List (Action P R) :=
  match yyjsonRead env body bodyLen with
  | none => [.send (.error kJsonRpcParseError "Parse error" none), .close]
  | some root => handleJsonrpcDoc env settings root ++ [.freeDoc]

/-! ## `http_on_read` -/

def MAX_PACKET_SIZE : Nat := 1024

/-- `char pathbuf[64] = {}; strncpy(pathbuf, path, path_len);`. `none` when the copy leaves the
buffer or leaves it without a NUL for `Hash` to stop at. -/
def pathBuffer (path : Bytes) : Option Bytes :=
  match strncpy (List.replicate 64 0) path path.length with
  | some pathbuf => if pathbuf.contains 0 then some pathbuf else none
  | none => none

/-- `(size_t)(nread - pret)` -/
def bodyLength (nread : Int) (pret : Nat) : Nat := ((nread - pret) % 2 ^ 64).toNat

/-- Where a parsed request goes. -/
def dispatchRequest (env : Env R) (settings : HTTPServerSettings P R) (nread : Int) (buf : Bytes)
    (pret : Nat) (req : PhrRequest) : List (Action P R) :=
  match pathBuffer req.path with
  | none => [.pathOverflow]
  | some pathbuf =>
      let reqPathHash := hash pathbuf
      match settings.mPathCallbacks.lookup reqPathHash with
      | some (some cb) => [.pathCallback cb, .close]
      | some none => []
      | none =>
          if settings.mJsonRpcPathHash = reqPathHash then
            .jsonrpcRequest pret (bodyLength nread pret) ::
              handleJsonrpcRequest env settings (buf.drop pret) (bodyLength nread pret)
          else [.send (.error kJsonRpcMethodNotFound "Wrong Path" none), .close]

/-- `http_on_read(client, nread, buf)`. The parser is given the whole buffer, `buf->len` bytes. -/
def httpOnRead (env : Env R) (settings : HTTPServerSettings P R) (nread : Int) (buf : Bytes) :
    List (Action P R) :=
  (if 0 < nread then
    match phrParseRequest buf with
    | .success pret req => dispatchRequest env settings nread buf pret req
    | .malformed => [.send (.error kJsonRpcParseError "Parse error" none), .close]
    | .incomplete =>
        [.send (.error kJsonRpcServerError "Server Error (Sz), try downsizing your packages" none),
          .close]
  else if nread < 0 then [.close] else []) ++ [.freeBuf]

/-! ## Registration -/

/-- `std::unordered_map::emplace`: an entry that is there stays. -/
def emplace {α : Type} (m : List (UInt32 × α)) (key : UInt32) (v : α) : List (UInt32 × α) :=
  if (m.lookup key).isSome then m else m ++ [(key, v)]

/-- Register callbacks under the hashes of their names, in order. -/
def emplaceAll {α : Type} (cbs : List (Bytes × α)) : List (UInt32 × Option α) :=
  cbs.foldl (fun m cb => emplace m (hash cb.1) (some cb.2)) []

/-- The settings after `ComputeJsonRpcPathHash` and the `emplace` calls of a server's `main`. -/
def HTTPServerSettings.register (mJsonRpcPath : Bytes) (paths : List (Bytes × P))
    (rpcs : List (Bytes × R)) : HTTPServerSettings P R where
  mJsonRpcPathHash := hash mJsonRpcPath
  mPathCallbacks := emplaceAll paths
  mRpcCallbacks := emplaceAll rpcs

end ServerBase
