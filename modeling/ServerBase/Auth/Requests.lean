import ServerBase.Auth.Said
import Mathlib.Logic.Relation

/-!
# From the request to the coroutine

A request is checked when it is read, and used later: its params become the values of a query, its
id becomes the id of a reply. In between the server takes any moves.

**Moves** (`After`). A callback of the loop is made of moves, and a coroutine may be resumed between
two of them. Whatever moves come between, a coroutine keeps the data it was created with
(`created_keeps`).

**The results.** The params are checked before they are used except where a type asks for fewer than
it converts (`params_checked_iff`); the shared `INSERT` gets credentials from direct registrations
only (`insert_credentials_iff`); and an id comes back as it was sent when it is an `int`
(`id_echo_iff`).
-/

namespace ServerBase

/-! ## Checked params -/

/-- `yyjson_get_str(yyjson_arr_get(params, 0))` is the type string `type`. -/
def HasType (params : Option YyjsonVal) (type : String) : Prop :=
  ∃ str, paramStr params 0 = some str ∧ strequal str (bytes type) = true

/-- The param is a JSON string. -/
def IsStr (params : Option YyjsonVal) (idx : Nat) : Prop := (paramStr params idx).isSome = true

/-- The callback refuses the params and creates no coroutine, or every C string it assigns to a
`String` is one. -/
def Checked (call : AuthCall) : Prop :=
  (call.code = kJsonRpcInvalidParams ∧
      ∀ (n : Nat) (s : Server n) (st : StreamId), s.runAuthCall st call = s) ∨
    ∃ data converted, call = .pending data converted ∧ ∀ str ∈ converted, str.isSome = true

theorem checked_invalidParams : Checked .invalidParams := .inl ⟨rfl, fun _ _ _ => rfl⟩

theorem checked_pending {data : AuthData} {converted : List (Option Bytes)} :
    Checked (.pending data converted) ↔ ∀ str ∈ converted, str.isSome = true := by
  constructor
  · rintro (⟨hcode, -⟩ | ⟨_, _, hcall, hstr⟩)
    · cases hcode
    · rw [(AuthCall.pending.inj hcall).2]
      exact hstr
  · exact fun h => .inr ⟨_, _, rfl, h⟩

theorem checked_authLogin (msgid : Int) (params : Option YyjsonVal) (paramsCount : Nat) :
    Checked (authLogin msgid params paramsCount) ↔
      (2 ≤ paramsCount → HasType params "direct" → IsStr params 1 ∧ IsStr params 2) := by
  unfold authLogin HasType
  by_cases hcount : paramsCount < 2
  · rw [if_pos hcount]
    exact iff_of_true checked_invalidParams fun h => absurd h (by omega)
  · rw [if_neg hcount]
    cases htype : paramStr params 0 with
    | none => exact iff_of_true checked_invalidParams fun _ ⟨_, h, _⟩ => by cases h
    | some type =>
        dsimp only
        by_cases hdirect : strequal type (bytes "direct") = true
        · rw [if_pos hdirect, checked_pending]
          have hcount' : 2 ≤ paramsCount := by omega
          simp [hcount', hdirect, IsStr]
        · rw [if_neg hdirect]
          refine iff_of_true checked_invalidParams ?_
          rintro - ⟨_, h, heq⟩
          rw [← Option.some.inj h] at heq
          exact absurd heq hdirect

theorem strequal_direct_source {type : Bytes} (h : strequal type (bytes "direct") = true) :
    strequal type (bytes "source") = false := by
  have hcstr : cstr type = cstr (bytes "direct") := by simpa [strequal] using h
  rw [strequal, hcstr]
  decide +kernel

theorem nullOrEmpty_none : nullOrEmpty none = true := rfl

theorem checked_authRegister (msgid : Int) (params : Option YyjsonVal) (paramsCount : Nat) :
    Checked (authRegister msgid params paramsCount) ↔
      (paramsCount = 3 → HasType params "source" → IsStr params 1 ∧ IsStr params 2) := by
  unfold authRegister HasType
  by_cases hcount : paramsCount < 2
  · rw [if_pos hcount]
    exact iff_of_true checked_invalidParams fun h => absurd h (by omega)
  · rw [if_neg hcount]
    cases htype : paramStr params 0 with
    | none => exact iff_of_true checked_invalidParams fun _ ⟨_, h, _⟩ => by cases h
    | some type =>
        dsimp only
        by_cases hdirect : strequal type (bytes "direct") = true
        · -- both strings were tested, and the email is never null
          rw [if_pos hdirect]
          refine iff_of_true ?_ ?_
          · split
            · exact checked_invalidParams
            · split
              · exact checked_invalidParams
              · next htested =>
                rw [checked_pending]
                simp only [Bool.or_eq_true, not_or] at htested
                intro str hstr
                simp only [List.mem_cons, List.not_mem_nil, or_false] at hstr
                rcases hstr with rfl | rfl | rfl
                · cases h : paramStr params 1 with
                  | none => exact absurd (h ▸ nullOrEmpty_none) htested.1
                  | some _ => rfl
                · rfl
                · cases h : paramStr params 3 with
                  | none => exact absurd (h ▸ nullOrEmpty_none) htested.2
                  | some _ => rfl
          · rintro - ⟨_, h, heq⟩
            rw [← Option.some.inj h, strequal_direct_source hdirect] at heq
            cases heq
        · rw [if_neg hdirect]
          by_cases hsource : strequal type (bytes "source") = true
          · rw [if_pos hsource]
            by_cases hthree : paramsCount ≠ 3
            · rw [if_pos hthree]
              exact iff_of_true checked_invalidParams fun h => absurd h hthree
            · rw [if_neg hthree, checked_pending]
              have hthree' : paramsCount = 3 := by omega
              simp [hthree', hsource, IsStr]
          · rw [if_neg hsource]
            refine iff_of_true checked_invalidParams ?_
            rintro - ⟨_, h, heq⟩
            rw [← Option.some.inj h] at heq
            exact absurd heq hsource

/-- **Params are checked before they are used**, except where two params pass for three: a direct
login needs two strings behind its type and asks for one, and the registration from a source
counts its params and tests none. -/
theorem params_checked_iff (msgid : Int) (params : Option YyjsonVal) (paramsCount : Nat) :
    (Checked (authLogin msgid params paramsCount) ↔
        (2 ≤ paramsCount → HasType params "direct" → IsStr params 1 ∧ IsStr params 2)) ∧
      (Checked (authRegister msgid params paramsCount) ↔
        (paramsCount = 3 → HasType params "source" → IsStr params 1 ∧ IsStr params 2)) :=
  ⟨checked_authLogin msgid params paramsCount, checked_authRegister msgid params paramsCount⟩

/-- `["direct", "direct_test"]` -/
def loginWithoutPassword : YyjsonVal :=
  .arr [.str (bytes "direct"), .str (bytes "direct_test")]

/-- **A null password.** The login is accepted, and its password is read from a null pointer. -/
theorem params_not_checked :
    ¬ Checked (authLogin 1 (some loginWithoutPassword)
      (YyjsonVal.arrSize (some loginWithoutPassword))) := by
  rw [checked_authLogin]
  intro h
  have hpassword := (h (by decide) ⟨bytes "direct", rfl, by decide +kernel⟩).2
  exact absurd hpassword (by unfold IsStr; decide)

/-! ## Moves -/

namespace Server

variable {n : Nat} {env : AuthEnv}

/-- One move of a callback of the loop. -/
inductive Move (env : AuthEnv) : Server n → Server n → Prop
  | connect (s : Server n) (accepted : Bool) : Move env s (s.connect accepted)
  | read (s : Server n) (st : StreamId) (nread : Int) (buf : Bytes) (writable : Bool) :
      s.readable st = true → Move env s (s.httpRead env st nread buf writable)
  | poll (s : Server n) (k : Fin n) (status : Int) (consumed busy : Bool) :
      s.polling k = true → Move env s (s.pollCallback k status consumed busy)
  | reconnect (s : Server n) (k : Fin n) (connected : Bool) : Move env s (s.reconnect k connected)
  | resume (s : Server n) (co : CoroId) (r : Readings n) :
      co ∈ s.mUntrackedCoroutines → Move env s (s.resume co r)
  | cleanup (s : Server n) : Move env s s.cleanupDeadCoroutines
  | closeCb (s : Server n) (st : StreamId) :
      (s.streams st).closing = true → Move env s (s.closeCb st)

/-- The state comes after another one, by any moves. -/
abbrev After (env : AuthEnv) : Server n → Server n → Prop := Relation.ReflTransGen (Move env)

/-- What every move keeps holds in every later state. -/
theorem After.keeps {P : Server n → Prop} (hP : Kept env .none (fun _ => True) P)
    {s s' : Server n} (h : After env s s') (hs : P s) : P s' := by
  induction h with
  | refl => exact hs
  | tail _ hmove ih =>
      cases hmove with
      | connect accepted => exact hP.connect _ accepted trivial ih
      | read st nread buf writable hst =>
          exact hP.read _ st nread buf writable trivial ih hst trivial
      | poll k status consumed busy hk =>
          exact hP.poll _ k status consumed busy trivial ih hk trivial
      | reconnect k connected => exact hP.reconnect _ k connected trivial ih trivial
      | resume co r hco => exact hP.resume _ co r trivial ih hco trivial
      | cleanup => exact hP.cleanup _ trivial ih
      | closeCb st hst => exact hP.closeCb _ st trivial ih hst

theorem after_kept (env : AuthEnv) (s₀ : Server n) :
    Kept env .none (fun _ => True) (After env s₀) where
  connect s accepted _ h := h.tail (.connect s accepted)
  read s st nread buf writable _ h hst _ := h.tail (.read s st nread buf writable hst)
  poll s k status consumed busy _ h hk _ := h.tail (.poll s k status consumed busy hk)
  reconnect s k connected _ h _ := h.tail (.reconnect s k connected)
  resume s co r _ h hco _ := h.tail (.resume s co r hco)
  cleanup s _ h := h.tail (.cleanup s)
  closeCb s st _ h hst := h.tail (.closeCb s st hst)

/-- **Callbacks are made of moves.** -/
theorem After.step {s₀ s s' : Server n} {i : Input n} (h : After env s₀ s)
    (hs : env.step n s i = some s') : After env s₀ s' :=
  (after_kept env s₀).step h (Conds.holds_none s i) hs

/-- The coroutine `co` was created for the client `st` with the data. -/
structure Created (co : CoroId) (st : StreamId) (data : AuthData) (s : Server n) : Prop where
  lt : co < s.nextCoro
  mStream : (s.coros co).mStream = st
  data : (s.coros co).data = data

namespace Created

variable {co : CoroId} {st : StreamId} {data : AuthData}

theorem of_same {s s' : Server n} (h : Created co st data s) (hc : SameCoros s s') :
    Created co st data s' :=
  ⟨hc.nextCoro ▸ h.lt, by rw [hc.coros, h.mStream], by rw [hc.coros, h.data]⟩

/-- **A coroutine keeps its data.** -/
theorem kept (env : AuthEnv) : Kept env .none (fun _ => True) (Created (n := n) co st data) where
  connect s accepted _ h := h.of_same (connect_frame s accepted).2
  read s st' nread buf writable _ h _ _ := by
    have hread := httpRead_cases env s st' nread buf writable
    generalize s.httpRead env st' nread buf writable = s' at hread ⊢
    cases hread with
    | plain _ hplain => exact h.of_same hplain.coros
    | create data' es hes =>
        have hco : co ≠ s.nextCoro := h.lt.ne
        refine ⟨h.lt.trans (Nat.lt_succ_self _), ?_, ?_⟩
        · rw [coros_created_other hco, h.mStream]
        · rw [coros_created_other hco, h.data]
  poll s k status consumed busy _ h _ _ :=
    h.of_same (pollCallback_sameCoros s k status consumed busy)
  reconnect s k connected _ h _ := h.of_same (reconnect_frame s k connected).1
  resume s co' r _ h _ _ := by
    have hr := resume_cases s co' r
    obtain ⟨hstream, hdata⟩ := hr.fixed co
    exact ⟨hr.frame.nextCoro ▸ h.lt, by rw [hstream, h.mStream], by rw [hdata, h.data]⟩
  cleanup s _ h := by
    have hc := (closeDead_closes s.mUntrackedCoroutines s).coros
    exact ⟨hc.nextCoro ▸ h.lt, (congrArg Coro.mStream (congrFun hc.coros co)).trans h.mStream,
      (congrArg Coro.data (congrFun hc.coros co)).trans h.data⟩
  closeCb s st' _ h _ := h.of_same ⟨rfl, rfl, rfl⟩

end Created

theorem created_runAuthCall (s : Server n) (st : StreamId) (data : AuthData)
    (converted : List (Option Bytes)) :
    Created s.nextCoro st data (s.runAuthCall st (.pending data converted)) := by
  have hcreate : ∀ es, Created s.nextCoro st data ((s.log es).createUntrackedCoroutine st data) :=
    fun es => ⟨Nat.lt_succ_self _, by rw [coros_created_self], by rw [coros_created_self]⟩
  unfold runAuthCall
  dsimp only
  split
  · exact hcreate (.useStream st (s.streams st).freed :: [.fault .nullString])
  · exact hcreate [.useStream st (s.streams st).freed]

/-- Whatever moves come after it, a coroutine has the data of its request. -/
theorem After.created {s₀ s : Server n} {st : StreamId} {data : AuthData}
    {converted : List (Option Bytes)}
    (h : After env (s₀.runAuthCall st (.pending data converted)) s) :
    Created s₀.nextCoro st data s :=
  h.keeps (Created.kept env) (created_runAuthCall s₀ st data converted)

/-- The words of a resume. -/
theorem resume_words {s : Server n} {co : CoroId} {r : Readings n} {es : List (Event n)}
    (h : (s.resume co r).trace = es ++ s.trace) :
    Said s co r ((s.resume co r).coros co).point (words es) := by
  obtain ⟨ws, hsaid, heq⟩ := resume_said s co r
  have hwords : words es ++ s.said = ws ++ s.said := by
    rw [← heq, said, said, h, words_append]
  rwa [List.append_cancel_right hwords]

theorem mem_words {es : List (Event n)} {e : Event n} (he : e ∈ es) (hword : e.isWord = true) :
    e ∈ words es :=
  List.mem_filter.2 ⟨he, hword⟩

/-! ## Credentials -/

/-- The value is a non-empty string of the request. -/
def FromRequest (params : Option YyjsonVal) (value : Option (Option Bytes)) : Prop :=
  ∃ idx str, paramStr params idx = some str ∧ cstr str ≠ [] ∧ value = some (some (cstr str))

/-- The user name `$1` and the password `$3` of the query are. -/
structure Credentials (params : Option YyjsonVal) (query : Query) : Prop where
  username : FromRequest params query.values[0]?
  password : FromRequest params query.values[2]?

theorem fromRequest_of_tested {params : Option YyjsonVal} {idx : Nat}
    (h : ¬ nullOrEmpty (paramStr params idx) = true) :
    FromRequest params (some (some (stdString (paramStr params idx)))) := by
  cases hstr : paramStr params idx with
  | none => exact absurd (hstr ▸ nullOrEmpty_none) h
  | some str =>
      refine ⟨idx, str, hstr, ?_, rfl⟩
      rw [hstr] at h
      simpa [nullOrEmpty, stdString] using h

/-- What an accepted registration hands to its coroutine. -/
theorem authRegister_accepted {msgid : Int} {params : Option YyjsonVal} {paramsCount : Nat}
    (h : (authRegister msgid params paramsCount).code = kJsonRpcInternalPending) :
    ∃ data converted, authRegister msgid params paramsCount = .pending (.register data) converted ∧
      data.mId = msgid ∧ (HasType params "direct" → Credentials params (registerQuery data)) ∧
      (¬ HasType params "direct" → data.mPassword = []) := by
  have hrefused : ∀ {p : Prop}, AuthCall.invalidParams.code = kJsonRpcInternalPending → p :=
    fun h => by cases h
  unfold authRegister at h ⊢
  split at h
  · exact hrefused h
  · next hcount =>
    rw [if_neg hcount]
    cases htype : paramStr params 0 with
    | none => rw [htype] at h; exact hrefused h
    | some type =>
        rw [htype] at h
        dsimp only at h ⊢
        by_cases hdirect : strequal type (bytes "direct") = true
        · rw [if_pos hdirect] at h ⊢
          split at h
          · exact hrefused h
          · next hfour =>
            rw [if_neg hfour]
            split at h
            · exact hrefused h
            · next htested =>
              rw [if_neg htested]
              simp only [Bool.or_eq_true, not_or] at htested
              refine ⟨_, _, rfl, rfl, fun _ => ?_, fun hno => absurd ⟨type, htype, hdirect⟩ hno⟩
              exact ⟨fromRequest_of_tested htested.1, fromRequest_of_tested htested.2⟩
        · rw [if_neg hdirect] at h ⊢
          have hother : ¬ HasType params "direct" := by
            rintro ⟨type', htype', heq⟩
            rw [htype, Option.some.injEq] at htype'
            exact hdirect (htype' ▸ heq)
          split at h
          · next hsource =>
            rw [if_pos hsource]
            split at h
            · exact hrefused h
            · next hthree =>
              rw [if_neg hthree]
              exact ⟨_, _, rfl, rfl, fun hyes => absurd hyes hother, fun _ => rfl⟩
          · exact hrefused h

theorem not_credentials {params : Option YyjsonVal} {data : AuthRegisterData}
    (h : data.mPassword = []) : ¬ Credentials params (registerQuery data) := by
  rintro ⟨-, idx, str, -, hne, hvalue⟩
  have hnil : cstr str = [] := by
    have hpassword := Option.some.inj (Option.some.inj hvalue)
    rw [← hpassword, h]
  exact hne hnil

/-- **The `INSERT` of an accepted registration** has a user name and a password from the request
exactly when the type of the registration is `direct`. -/
theorem insert_credentials_iff (env : AuthEnv) {s₀ s : Server n} {st : StreamId} {msgid : Int}
    {params : Option YyjsonVal} {paramsCount : Nat}
    (haccepted : (authRegister msgid params paramsCount).code = kJsonRpcInternalPending)
    (hs : After env (s₀.runAuthCall st (authRegister msgid params paramsCount)) s)
    {r : Readings n} {es : List (Event n)} (hes : (s.resume s₀.nextCoro r).trace = es ++ s.trace)
    {k : Fin n} {c : ConnId} {query : Query} (hquery : .sent k c query ∈ es) :
    query.command = (registerQuery {}).command ∧
      (Credentials params query ↔ HasType params "direct") := by
  obtain ⟨data, converted, hcall, -, hdirect, hother⟩ := authRegister_accepted haccepted
  rw [hcall] at hs
  have hdata := hs.created.data
  have hsent := (resume_words hes).sent (mem_words hquery rfl)
  rw [hdata] at hsent
  rcases hsent with rfl | ⟨hlogin, -⟩
  · refine ⟨rfl, fun hcred => ?_, hdirect⟩
    by_contra htype
    exact not_credentials (hother htype) hcred
  · cases hlogin

/-- The params in the comment of `auth_register`. -/
def directRegisterParams : YyjsonVal :=
  .arr [.str (bytes "direct"), .str (bytes "direct_test"), .str (bytes "direct@test.com"),
    .str (bytes "direct-pass-123")]

/-- A direct registration is resumed with a free connection. -/
theorem insert_credentials_direct :
    ∃ (k : Fin 1) (c : ConnId) (query : Query),
      .sent k c query ∈ (((oneConnection.connect true).runAuthCall 0
        (authRegister 6 (some directRegisterParams) 4)).resume 0 {}).trace ∧
      Credentials (some directRegisterParams) query := by
  let s := (oneConnection.connect true).runAuthCall 0
    (authRegister 6 (some directRegisterParams) 4)
  have hes : (s.resume 0 {}).trace = (s.resume 0 {}).trace.take 6 ++ s.trace :=
    (List.take_append_drop 6 _).symm
  have hsent : ((s.resume 0 {}).trace.take 6).any (Event.isSent 0) = true := by decide +kernel
  obtain ⟨e, he, hmatch⟩ := List.any_eq_true.1 hsent
  cases e with
  | sent k c query =>
    have hcred := @insert_credentials_iff _ directLoginEnv (oneConnection.connect true) s 0 6
      (some directRegisterParams) 4 (by decide +kernel) Relation.ReflTransGen.refl {} _ hes k c
      query he
    refine ⟨k, c, query, List.mem_of_mem_take he, hcred.2.2 ⟨bytes "direct", rfl, ?_⟩⟩
    decide +kernel
  | _ => cases hmatch

/-- The `INSERT` with these values is sent. -/
def isInsertOf (k : Fin n) (c : ConnId) (values : List (Option Bytes)) : Event n → Bool
  | .sent k' c' query => k' == k && c' == c && query.command == (registerQuery {}).command &&
      query.values == values
  | _ => false

theorem isInsertOf_eq {k : Fin n} {c : ConnId} {values : List (Option Bytes)} {e : Event n}
    (h : isInsertOf k c values e = true) :
    ∃ query, e = .sent k c query ∧ query.command = (registerQuery {}).command ∧
      query.values = values := by
  cases e with
  | sent k' c' query =>
      simp only [isInsertOf, Bool.and_eq_true, beq_iff_eq] at h
      obtain ⟨⟨⟨rfl, rfl⟩, hcommand⟩, hvalues⟩ := h
      exact ⟨query, rfl, hcommand, hvalues⟩
  | _ => cases h

/-- The body of a registration from a source. -/
def sourceRegisterBody : Bytes :=
  bytes ("\x7b\"jsonrpc\": \"2.0\", \"method\": \"register\", " ++
    "\"params\": [\"source\", \"76561198000000011\", \"steamer\"], \"id\": 7\x7d")

def sourceRegisterParams : YyjsonVal :=
  .arr [.str (bytes "source"), .str (bytes "76561198000000011"), .str (bytes "steamer")]

/-- A JSON reader that knows this body. -/
def sourceRegisterEnv : AuthEnv where
  parse b :=
    if b = sourceRegisterBody then
      some (.obj [(bytes "jsonrpc", .str (bytes "2.0")), (bytes "method", .str (bytes "register")),
        (bytes "params", sourceRegisterParams), (bytes "id", .num 7)])
    else none
  verifySignedJWT _ := (false, false)

/-- The registration is read whole and its coroutine resumed. -/
def sourceRegisters : List (Input 1) :=
  let received := bytes "POST /auth HTTP/1.1\r\n\r\n" ++ sourceRegisterBody
  [.connect true,
    .read 0 received.length
      (received ++ List.replicate (MAX_PACKET_SIZE - received.length) 0) true,
    .coTimer fun _ => {}]

/-- **A direct account without a password.** The registration from a source sends the shared
`INSERT` with an empty password. -/
theorem insert_without_password :
    ∃ s : Server 1, (sourceRegisterEnv.loop 1).replay oneConnection sourceRegisters = some s ∧
      (sourceRegisterEnv.loop 1).Reachable s ∧
      ∃ query, .sent 0 0 query ∈ s.trace ∧ query.command = (registerQuery {}).command ∧
        ¬ Credentials (some sourceRegisterParams) query := by
  obtain ⟨s, hreplay, hs, hq⟩ := Machine.exists_run_of_replay (sourceRegisterEnv.loop 1)
    Machine.anyStep sourceRegisters
    (fun s => s.trace.any (isInsertOf 0 0 [some (bytes "steamer"), none, some []]))
    (oneConnection_init _) (by decide +kernel)
  obtain ⟨e, he, hinsert⟩ := List.any_eq_true.1 hq
  obtain ⟨query, rfl, hcommand, hvalues⟩ := isInsertOf_eq hinsert
  refine ⟨s, hreplay, hs, query, he, hcommand, ?_⟩
  rintro ⟨-, idx, str, -, hne, hvalue⟩
  rw [hvalues] at hvalue
  exact hne (Option.some.inj (Option.some.inj hvalue)).symm

/-! ## Ids -/

/-- The reply carries the JSON value `v` as its id. -/
def Echoes (reply : Reply) (v : YyjsonVal) : Prop := ∃ i : Int, reply.id = some i ∧ v = .num i

/-- The value is a number that an `int` holds. -/
def IsIntId (v : YyjsonVal) : Prop := ∃ i : Int, v = .num i ∧ -2 ^ 31 ≤ i ∧ i < 2 ^ 31

/-- The body is accepted as a valid request with the id `v`. -/
def HasId {R : Type} (env : Env R) (body : Bytes) (bodyLen : Nat) (v : YyjsonVal) : Prop :=
  ∃ root method, yyjsonRead env body bodyLen = some root ∧ validMethod root = some method ∧
    root.objGet (bytes "id") = some v

theorem getNumInt_num {i : Int} (hlow : -2 ^ 31 ≤ i) (hhigh : i < 2 ^ 31) :
    YyjsonVal.getNumInt (some (.num i)) = i := by
  have htrunc : (i : Rat).num.tdiv (i : Rat).den = i := by
    rw [Rat.num_intCast, Rat.den_intCast]
    exact Int.tdiv_one i
  simp only [YyjsonVal.getNumInt, htrunc]
  rw [if_pos ⟨hlow, hhigh⟩]

/-- **The conversion to `int`** keeps the value of a number exactly when an `int` holds it. -/
theorem echoes_iff {reply : Reply} {v : YyjsonVal}
    (h : reply.id = some (YyjsonVal.getNumInt (some v))) : Echoes reply v ↔ IsIntId v := by
  constructor
  · rintro ⟨i, hi, hv⟩
    rw [h, Option.some.injEq] at hi
    refine ⟨i, hv, ?_⟩
    rw [← hi]
    exact YyjsonVal.getNumInt_range _
  · rintro ⟨i, rfl, hlow, hhigh⟩
    rw [getNumInt_num hlow hhigh] at h
    exact ⟨i, h, rfl⟩

theorem validMethod_id {root : YyjsonVal} {method : Bytes} (h : validMethod root = some method) :
    YyjsonVal.isNull (root.objGet (bytes "id")) = false := by
  unfold validMethod at h
  split at h
  · split at h
    · next hvalid =>
      simp only [Bool.and_eq_true, Bool.not_eq_true'] at hvalid
      exact hvalid.2
    · cases h
  · cases h

/-- The replies to a request, and the `msgid` its callback is given. -/
theorem handleJsonrpcRequest_id {P R : Type} {env : Env R} {settings : HTTPServerSettings P R}
    {body : Bytes} {bodyLen : Nat} {v : YyjsonVal} (h : HasId env body bodyLen v) :
    (∀ reply, .send reply ∈ handleJsonrpcRequest env settings body bodyLen →
        reply.id = some (YyjsonVal.getNumInt (some v))) ∧
      ∀ cb msgid params paramsCount,
        .rpcCallback cb msgid params paramsCount ∈
            handleJsonrpcRequest env settings body bodyLen →
          msgid = YyjsonVal.getNumInt (some v) := by
  obtain ⟨root, method, hread, hvalid, hid⟩ := h
  have hmsgId : msgIdOf root = some (YyjsonVal.getNumInt (some v)) := by
    rw [msgIdOf, validMethod_id hvalid, hid]
    rfl
  have hcall : ∀ {cb cb' : R} {msgid params paramsCount},
      Action.rpcCallback (P := P) cb msgid params paramsCount = rpcCallOf root cb' →
        msgid = YyjsonVal.getNumInt (some v) := by
    intro cb cb' msgid params paramsCount heq
    rw [← hid]
    exact (Action.rpcCallback.inj heq).2.1
  have hdoc := handleJsonrpcDoc_cases env settings root
  rw [handleJsonrpcRequest, hread]
  dsimp only
  generalize handleJsonrpcDoc env settings root = as at hdoc
  rw [← hmsgId]
  cases hdoc with
  | refused reply hreply =>
      refine ⟨fun reply' hmem => ?_, fun cb msgid params paramsCount hmem => ?_⟩
      · simp only [List.cons_append, List.nil_append, List.mem_cons, Action.send.injEq,
          List.not_mem_nil, or_false, reduceCtorEq] at hmem
        rw [hmem, hreply]
      · simp at hmem
  | answered cb' reply hreply =>
      refine ⟨fun reply' hmem => ?_, fun cb msgid params paramsCount hmem => ?_⟩
      · simp only [List.cons_append, List.nil_append, List.mem_cons, Action.send.injEq,
          List.not_mem_nil, or_false, reduceCtorEq, rpcCallOf, false_or] at hmem
        rw [hmem, hreply]
      · simp only [List.cons_append, List.nil_append, List.mem_cons, List.not_mem_nil, or_false,
          reduceCtorEq] at hmem
        exact hcall hmem
  | deferred cb' =>
      refine ⟨fun reply' hmem => ?_, fun cb msgid params paramsCount hmem => ?_⟩
      · simp [rpcCallOf] at hmem
      · simp only [List.cons_append, List.nil_append, List.mem_cons, List.not_mem_nil, or_false,
          reduceCtorEq] at hmem
        exact hcall hmem
  | null => exact ⟨fun _ hmem => by simp at hmem, fun _ _ _ _ hmem => by simp at hmem⟩

theorem authLogin_accepted {msgid : Int} {params : Option YyjsonVal} {paramsCount : Nat}
    (h : (authLogin msgid params paramsCount).code = kJsonRpcInternalPending) :
    ∃ data converted, authLogin msgid params paramsCount = .pending (.login data) converted ∧
      data.mId = msgid := by
  have hrefused : ∀ {p : Prop}, AuthCall.invalidParams.code = kJsonRpcInternalPending → p :=
    fun h => by cases h
  unfold authLogin at h ⊢
  split at h
  · exact hrefused h
  · next hcount =>
    rw [if_neg hcount]
    split at h
    · exact hrefused h
    · split at h
      · next hdirect =>
        rw [if_pos hdirect]
        exact ⟨_, _, rfl, rfl⟩
      · exact hrefused h

/-- A coroutine is given the `msgid` of its callback. -/
theorem call_mId {cb : AuthRpc} {msgid : Int} {params : Option YyjsonVal} {paramsCount : Nat}
    {data : AuthData} {converted : List (Option Bytes)}
    (h : cb.call msgid params paramsCount = some (.pending data converted)) :
    data.mId = msgid := by
  cases cb with
  | login =>
      have hcall := Option.some.inj h
      obtain ⟨login, _, hlogin, hid⟩ :=
        @authLogin_accepted msgid params paramsCount (by rw [hcall]; rfl)
      rw [hlogin] at hcall
      rw [← (AuthCall.pending.inj hcall).1]
      exact hid
  | register =>
      have hcall := Option.some.inj h
      obtain ⟨reg, _, hreg, hid, -⟩ :=
        @authRegister_accepted msgid params paramsCount (by rw [hcall]; rfl)
      rw [hreg] at hcall
      rw [← (AuthCall.pending.inj hcall).1]
      exact hid
  | restricted => cases h

/-- **The id is echoed** exactly when it is a number that an `int` holds: in the replies to a valid
request, in any reply that a callback sends later with the `msgid` it was given, and in the replies
of the coroutines of the auth server. -/
theorem id_echo_iff {v : YyjsonVal} :
    (∀ {P R : Type} (env : Env R) (settings : HTTPServerSettings P R) {body : Bytes}
        {bodyLen : Nat}, HasId env body bodyLen v →
      (∀ reply, .send reply ∈ handleJsonrpcRequest env settings body bodyLen →
          (Echoes reply v ↔ IsIntId v)) ∧
        ∀ cb msgid params paramsCount reply,
          .rpcCallback cb msgid params paramsCount ∈
              handleJsonrpcRequest env settings body bodyLen →
            reply.id = some msgid → (Echoes reply v ↔ IsIntId v)) ∧
      ∀ (env : AuthEnv) {body : Bytes} {bodyLen : Nat}, HasId env.http body bodyLen v →
        ∀ {cb msgid params paramsCount data converted},
          .rpcCallback cb msgid params paramsCount ∈
              handleJsonrpcRequest env.http authSettings body bodyLen →
            cb.call msgid params paramsCount = some (.pending data converted) →
          ∀ {n : Nat} {s₀ s : Server n} {st : StreamId},
            After env (s₀.runAuthCall st (.pending data converted)) s →
            ∀ {r : Readings n} {es : List (Event n)} {st' : StreamId} {reply : Reply},
              (s.resume s₀.nextCoro r).trace = es ++ s.trace → .reply st' reply ∈ es →
                st' = st ∧ (Echoes reply v ↔ IsIntId v) := by
  refine ⟨?_, ?_⟩
  · intro P R env settings body bodyLen hid
    obtain ⟨hsend, hcall⟩ := @handleJsonrpcRequest_id P R env settings body bodyLen v hid
    refine ⟨fun reply hmem => echoes_iff (hsend reply hmem), ?_⟩
    intro cb msgid params paramsCount reply hmem hreply
    rw [hcall cb msgid params paramsCount hmem] at hreply
    exact echoes_iff hreply
  · intro env body bodyLen hid cb msgid params paramsCount data converted hmem hcall n s₀ s st hs
      r es st' reply hes hreply
    have hmsgid := (handleJsonrpcRequest_id hid).2 cb msgid params paramsCount hmem
    have hcreated := hs.created
    obtain ⟨hst, hcoro⟩ := (resume_words hes).ownReply _ (mem_words hreply rfl) st' reply rfl
    have hreplyId := hcoro.id
    rw [hcreated.data, call_mId hcall, hmsgid] at hreplyId
    exact ⟨hst.trans hcreated.mStream, echoes_iff hreplyId⟩

/-- The params in the comment of `auth_login`. -/
def directLoginParams : YyjsonVal :=
  .arr [.str (bytes "direct"), .str (bytes "direct_test"), .str (bytes "direct-pass-123")]

def directLoginDoc : YyjsonVal :=
  .obj [(bytes "jsonrpc", .str (bytes "2.0")), (bytes "method", .str (bytes "login")),
    (bytes "params", directLoginParams), (bytes "id", .num 1)]

theorem directLogin_read :
    yyjsonRead directLoginEnv.http directLoginBody directLoginBody.length =
      some directLoginDoc := by
  simp [yyjsonRead, AuthEnv.http, directLoginEnv, directLoginDoc, directLoginParams]

theorem directLogin_calls :
    .rpcCallback .login 1 (some directLoginParams) 3 ∈
      handleJsonrpcDoc directLoginEnv.http authSettings directLoginDoc := by
  have hvalid : validMethod directLoginDoc = some (bytes "login") := by decide +kernel
  have hlogin : authSettings.mRpcCallbacks.lookup (hash (bytes "login")) = some (some .login) :=
    rfl
  simp only [handleJsonrpcDoc, hvalid, hlogin]
  exact List.mem_cons_self

theorem hasId_directLogin :
    HasId directLoginEnv.http directLoginBody directLoginBody.length (.num 1) :=
  ⟨directLoginDoc, bytes "login", directLogin_read, by decide +kernel, rfl⟩

/-- A login with the id 1 that gets no context in time is answered with the id 1. -/
theorem id_echo_login :
    ∃ reply, .reply 0 reply ∈ (((oneConnection.connect true).runAuthCall 0
        (authLogin 1 (some directLoginParams) 3)).resume 0 { time := 2000 }).trace ∧
      Echoes reply (.num 1) := by
  let s := (oneConnection.connect true).runAuthCall 0 (authLogin 1 (some directLoginParams) 3)
  have hes : (s.resume 0 { time := 2000 }).trace =
      (s.resume 0 { time := 2000 }).trace.take 6 ++ s.trace := (List.take_append_drop 6 _).symm
  have hreply : ((s.resume 0 { time := 2000 }).trace.take 6).any (Event.isReplyTo 0) = true := by
    decide +kernel
  obtain ⟨e, he, hmatch⟩ := List.any_eq_true.1 hreply
  cases e with
  | reply st reply =>
    obtain rfl : st = 0 := of_decide_eq_true hmatch
    have hmem : Action.rpcCallback AuthRpc.login 1 (some directLoginParams) 3 ∈
        handleJsonrpcRequest directLoginEnv.http authSettings directLoginBody
          directLoginBody.length := by
      rw [handleJsonrpcRequest, directLogin_read]
      exact List.mem_append_left _ directLogin_calls
    have hafter : After directLoginEnv ((oneConnection.connect true).runAuthCall 0
        (authLogin 1 (some directLoginParams) 3)) s := .refl
    have hecho := id_echo_iff.2 directLoginEnv hasId_directLogin hmem rfl hafter hes he
    exact ⟨reply, List.mem_of_mem_take he, hecho.2.2 ⟨1, rfl, by decide, by decide⟩⟩
  | _ => cases hmatch

/-- The body of a request with a string as its id, for a method the server does not have. -/
def stringIdBody : Bytes :=
  bytes "\x7b\"jsonrpc\": \"2.0\", \"method\": \"ping\", \"id\": \"abc\"\x7d"

def stringIdDoc : YyjsonVal :=
  .obj [(bytes "jsonrpc", .str (bytes "2.0")), (bytes "method", .str (bytes "ping")),
    (bytes "id", .str (bytes "abc"))]

/-- A JSON reader that knows this body. -/
def stringIdEnv : AuthEnv where
  parse b := if b = stringIdBody then some stringIdDoc else none
  verifySignedJWT _ := (false, false)

/-- **Another id comes back.** A valid request with the id `"abc"` is answered with the id 0. -/
theorem id_not_echoed :
    HasId stringIdEnv.http stringIdBody stringIdBody.length (.str (bytes "abc")) ∧
      ∃ reply, .send reply ∈ handleJsonrpcRequest stringIdEnv.http authSettings stringIdBody
          stringIdBody.length ∧
        reply.id = some 0 ∧ ¬ Echoes reply (.str (bytes "abc")) := by
  have hread : yyjsonRead stringIdEnv.http stringIdBody stringIdBody.length =
      some stringIdDoc := by simp [yyjsonRead, AuthEnv.http, stringIdEnv]
  have hvalid : validMethod stringIdDoc = some (bytes "ping") := by decide +kernel
  have hnone : authSettings.mRpcCallbacks.lookup (hash (bytes "ping")) = none := rfl
  refine ⟨⟨stringIdDoc, _, hread, hvalid, rfl⟩,
    .error kJsonRpcMethodNotFound "Method not found" (some 0), ?_, rfl, ?_⟩
  · rw [handleJsonrpcRequest, hread]
    simp only [handleJsonrpcDoc, hvalid, hnone]
    exact List.mem_cons_self
  · rintro ⟨i, -, hv⟩
    cases hv

end Server

end ServerBase
