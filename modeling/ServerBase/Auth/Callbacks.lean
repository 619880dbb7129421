import ServerBase.Network

/-!
# The RPC callbacks of the auth server

The synchronous half of `auth_login` and `auth_register`, and the `restricted` callback of
`auth_server/main.cpp`: which params they accept, and what data they hand to a coroutine.

**Strings.** `mUsername = yyjson_get_str(...)` assigns a `std::string` from a C string. From a null
pointer that is undefined; `AuthCall.pending` keeps what was converted, so that a null can be told
from an empty string.
-/

namespace ServerBase

/-! ## What a coroutine is given -/

/-- `AuthLoginData`. `mClient` is the stream the coroutine is created for. -/
structure AuthLoginData where
  mUsername : Bytes := []
  mPassword : Bytes := []
  mSourceId : Bytes := []
  mId : Int := -1
  mDirect : Bool := false

/-- `AuthRegisterData` -/
structure AuthRegisterData where
  mUsername : Bytes := []
  mEmail : Bytes := []
  mPassword : Bytes := []
  mSourceId : Bytes := []
  mId : Int := -1
  mDirect : Bool := false

/-- The user data of a coroutine, which also says which of the two bodies it runs. -/
inductive AuthData
  | login (data : AuthLoginData)
  | register (data : AuthRegisterData)

namespace AuthData

def mId : AuthData → Int
  | login data => data.mId
  | register data => data.mId

def isLogin : AuthData → Bool
  | login _ => true
  | register _ => false

end AuthData

/-- What an auth callback does: refuse the params, or create a coroutine. `converted` are the
C strings it assigns to a `String`, null ones included. -/
inductive AuthCall
  | invalidParams
  | pending (data : AuthData) (converted : List (Option Bytes))

namespace AuthCall

def code : AuthCall → JsonRpcResult
  | invalidParams => kJsonRpcInvalidParams
  | pending _ _ => kJsonRpcInternalPending

/-- A `String` is assigned from a null pointer. -/
def nullString : AuthCall → Bool
  | invalidParams => false
  | pending _ converted => converted.any Option.isNone

end AuthCall

/-- A `String` assigned from a C string; stays empty where the assignment is undefined. -/
def stdString : Option Bytes → Bytes
  | some s => cstr s
  | none => []

/-- `yyjson_get_str(yyjson_arr_get(params, idx))` -/
def paramStr (params : Option YyjsonVal) (idx : Nat) : Option Bytes :=
  YyjsonVal.getStr (YyjsonVal.arrGet params idx)

/-- `auth_login` -/
def authLogin (msgid : Int) (params : Option YyjsonVal) (paramsCount : Nat) : AuthCall :=
  if paramsCount < 2 then .invalidParams
  else
    match paramStr params 0 with
    | none => .invalidParams
    | some type =>
        if strequal type (bytes "direct") then
          let username := paramStr params 1
          let password := paramStr params 2
          .pending (.login
            { mUsername := stdString username
              mPassword := stdString password
              mId := msgid
              mDirect := true }) [username, password]
        else .invalidParams

/-- `!s || s[0] == '\0'` -/
def nullOrEmpty (s : Option Bytes) : Bool := stdString s == []

/-- `auth_register` -/
def authRegister (msgid : Int) (params : Option YyjsonVal) (paramsCount : Nat) : AuthCall :=
  if paramsCount < 2 then .invalidParams
  else
    match paramStr params 0 with
    | none => .invalidParams
    | some type =>
        if strequal type (bytes "direct") then
          if paramsCount ≠ 4 then .invalidParams
          else
            let username := paramStr params 1
            let email := paramStr params 2
            let password := paramStr params 3
            if nullOrEmpty username || nullOrEmpty password then .invalidParams
            else
              -- `email ? email : ""` is never null
              .pending (.register
                { mUsername := stdString username
                  mEmail := stdString email
                  mPassword := stdString password
                  mId := msgid
                  mDirect := true }) [username, some (stdString email), password]
        else if strequal type (bytes "source") then
          if paramsCount ≠ 3 then .invalidParams
          else
            let sourceid := paramStr params 1
            let username := paramStr params 2
            .pending (.register
              { mUsername := stdString username
                mSourceId := stdString sourceid
                mId := msgid
                mDirect := false }) [sourceid, username]
        else .invalidParams

/-! ## The server's tables -/

/-- The RPC callbacks of the auth server. -/
inductive AuthRpc
  | login
  | register
  | restricted

/-- Its path callbacks. -/
inductive AuthPath
  | stats

/-- The code the callbacks use and that is not modelled here. -/
structure AuthEnv where
  parse : Bytes → Option YyjsonVal
  /-- `VerifySignedJWT(token, ...)`: verified, and expired. -/
  verifySignedJWT : Bytes → Bool × Bool

/-- `restricted_func` -/
def restrictedFunc (env : AuthEnv) (params : Option YyjsonVal) (paramsCount : Nat) : RpcReturn :=
  let answer (text : String) : RpcReturn :=
    ⟨kJsonRpcSuccess, .obj [(bytes "result", .str (bytes text))]⟩
  if paramsCount ≠ 1 then ⟨kJsonRpcInvalidParams, .null⟩
  else
    match paramStr params 0 with
    | none => ⟨kJsonRpcInvalidParams, .null⟩
    | some token =>
        let (verified, expired) := env.verifySignedJWT (cstr token)
        if !verified then answer "Failed verification"
        else if expired then answer "Expired"
        else answer "Success"

/-- What a callback does besides returning: `none` for one that replies at once. -/
def AuthRpc.call (cb : AuthRpc) (msgid : Int) (params : Option YyjsonVal) (paramsCount : Nat) :
    Option AuthCall :=
  match cb with
  | login => some (authLogin msgid params paramsCount)
  | register => some (authRegister msgid params paramsCount)
  | restricted => none

/-- The environment of `http_on_read` in the auth server. -/
def AuthEnv.http (env : AuthEnv) : Env AuthRpc where
  parse := env.parse
  invoke cb msgid params paramsCount :=
    match cb.call msgid params paramsCount with
    | some call => ⟨call.code, .null⟩
    | none => restrictedFunc env params paramsCount

/-- The settings `main` makes. -/
def authSettings : HTTPServerSettings AuthPath AuthRpc :=
  .register (bytes "/auth") [(bytes "/stats", .stats)]
    [(bytes "login", .login), (bytes "register", .register), (bytes "restricted", .restricted)]

end ServerBase
