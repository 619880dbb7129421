import ServerBase.Auth.Identity
import ServerBase.Auth.Requests
import ServerBase.Yyjson.Replies

/-!
# What the clients of the auth server read

A reply of the auth server is followed from the coroutine or callback that sends it to the client:
its document is built and written, framed and sent, and read.

**Answers** (`Answer`). An error with a short message, or a response with one of three results: a
token, the id of a new user, or a short text. In every run nothing else is sent
(`Replied.kept`).

**Tokens.** What libjwt makes of the grants is base64url and dots, which need no escape, and is
usually far shorter than the buffer of a response.

**The result** (`answers_arrive`). The document of every reply is written in full, arrives as the
body of an HTTP message, and is read as the reply, unless it is a token that needs an escape or has
more than 800 bytes.
-/

namespace ServerBase

open Yyjson
open Json (Scalar Value)

variable {F : Type}

/-! ## Results -/

/-- What the auth server puts into a response. -/
inductive AuthResult
  | token (access_token : Bytes)
  | userId (newUserId : Int)
  | text (message : Bytes)

namespace AuthResult

def val : AuthResult → YyjsonVal
  | token access_token => tokenResult access_token
  | userId newUserId => .obj [(bytes "user_id", .num (newUserId % 2 ^ 64 : Int))]
  | text message => .obj [(bytes "result", .str message)]

def scalars : AuthResult → List (Bytes × Scalar (YyjsonNum F))
  | token access_token =>
      [(bytes "access_token", .str access_token), (bytes "token_type", .str (bytes "Bearer"))]
  | userId newUserId => [(bytes "user_id", .num (.int (.ofUInt64 (.ofInt newUserId))))]
  | text message => [(bytes "result", .str message)]

section
variable (constantP : Bytes → Bool) (memory : Heap F)

/-- The calls of `auth_login_coro`, `register_coro` and `restricted_func` -/
def doc (r : AuthResult) : Addr × MutDoc F :=
  let (result, doc) := mutObj (mutDocNew memory)
  match r with
  | token access_token =>
      let doc := (objAddStr constantP doc result (bytes "access_token") access_token).2
      (result, (objAddStr constantP doc result (bytes "token_type") (bytes "Bearer")).2)
  | userId newUserId =>
      (result, (objAddUint constantP doc result (bytes "user_id") (.ofInt newUserId)).2)
  | text message => (result, (objAddStr constantP doc result (bytes "result") message).2)

/-- The values that are added -/
def bodies : AuthResult → List (Bytes × MutBody F)
  | token access_token =>
      [(bytes "access_token", .str (mutStr constantP access_token)),
        (bytes "token_type", .str (mutStr constantP (bytes "Bearer")))]
  | userId newUserId => [(bytes "user_id", .num (.int (.ofUInt64 (.ofInt newUserId))))]
  | text message => [(bytes "result", .str (mutStr constantP message))]

theorem doc_eq (r : AuthResult) :
    r.doc constantP memory = objDoc constantP memory (r.bodies constantP) := by
  cases r <;> rfl

theorem shows_bodies (r : AuthResult) : ShowsAll (F := F) (r.bodies constantP) r.scalars := by
  cases r with
  | token access_token =>
      exact .cons ⟨rfl, shows_mutStr constantP _⟩ (.cons ⟨rfl, shows_mutStr constantP _⟩ .nil)
  | userId newUserId => exact .cons ⟨rfl, .num _⟩ .nil
  | text message => exact .cons ⟨rfl, shows_mutStr constantP _⟩ .nil

end

end AuthResult

/-! ## Answers -/

/-- A string that needs no escape, of at most `max` bytes -/
def Fits (max : Nat) (str : Bytes) : Prop := isPlain str = true ∧ str.length ≤ max

instance (max : Nat) (str : Bytes) : Decidable (Fits max str) :=
  inferInstanceAs (Decidable (isPlain str = true ∧ str.length ≤ max))

/-- The buffer of a response has room for the strings of the result. -/
def AuthResult.Short : AuthResult → Prop
  | token access_token => Fits 800 access_token
  | userId _ => True
  | text message => Fits 100 message

/-- What the auth server sends. -/
inductive Answer : Reply → Prop
  | error {code : Int} {message : String} {id : Option Int} : IsInt code →
      Fits 100 (bytes message) → (∀ i ∈ id, IsInt i) → Answer (.error code message id)
  | response {id : Option Int} (result : AuthResult) :
      (∀ message, result = .text message → Fits 100 message) → (∀ i ∈ id, IsInt i) →
      Answer (.response id result.val)

/-- The document of a reply, from the callback or coroutine to `send_jsonrpc_error` or
`send_jsonrpc_response` -/
inductive DocOf (constantP : Bytes → Bool) (memory : Heap F) : Reply → MutDoc F → Prop
  | error (code : Int) (message : String) (id : Option Int) :
      DocOf constantP memory (.error code message id)
        (errorDoc constantP memory code (bytes message) id)
  | response (id : Option Int) (result : AuthResult) :
      DocOf constantP memory (.response id result.val)
        (responseDoc constantP (result.doc constantP memory).2 id (result.doc constantP memory).1)

section
variable (double : DoubleCodec F) (num : YyjsonNum F → Rat)

/-- The document is written in full, the text arrives as the body of the HTTP message, and what is
read there is the reply. -/
def Arrives (estimatedValNum : Nat) (reply : Reply) (doc : MutDoc F) : Prop :=
  ∃ root text n, doc.root = some root ∧
    (∀ fuel, n ≤ fuel → yyjsonMutWrite double.toDoubleWriter doc.heap fuel root estimatedValNum =
      some (.docEnd text)) ∧
    (Http.decode (replyBytes (fun _ => some text) reply)).map Http.Message.body = some text ∧
    parse num double.toDoubleReader text = some (replyRoot reply)

theorem Fits.utf8 {max : Nat} {str : Bytes} (h : Fits max str) : ∃ cs, Json.utf8 cs = str := by
  refine utf8_literal (List.all_eq_true.2 fun c hc => ?_)
  have hnoesc := List.all_eq_true.1 h.1 c hc
  simp only [isNoesc, Bool.and_eq_true, decide_eq_true_eq] at hnoesc ⊢
  have hle : c.toNat ≤ (0x7E : UInt8).toNat := hnoesc.1.1.2
  exact Nat.lt_of_le_of_lt hle (by decide)

theorem Fits.strBound_le {max : Nat} {str : Bytes} (h : Fits max str) : strBound str ≤ max + 2 := by
  rw [strBound_of_plain h.1]
  exact Nat.add_le_add_right h.2 2

theorem AuthResult.Short.writable {r : AuthResult} (h : r.Short) :
    ∀ t ∈ (scalarsVal (F := F) r.scalars).tokens, Writable double.toDoubleWriter t := by
  refine writable_scalarsVal double fun m hm => ?_
  cases r with
  | token access_token =>
      simp only [scalars, List.mem_cons, List.not_mem_nil, or_false] at hm
      rcases hm with rfl | rfl
      · exact ⟨utf8_literal (s := bytes "access_token") (by decide), h.utf8⟩
      · exact ⟨utf8_literal (s := bytes "token_type") (by decide),
          utf8_literal (s := bytes "Bearer") (by decide)⟩
  | userId newUserId =>
      obtain rfl := List.mem_singleton.1 hm
      exact ⟨utf8_literal (s := bytes "user_id") (by decide), trivial⟩
  | text message =>
      obtain rfl := List.mem_singleton.1 hm
      exact ⟨utf8_literal (s := bytes "result") (by decide), h.utf8⟩

theorem AuthResult.Short.textBound_le {r : AuthResult} (h : r.Short) :
    textBound (scalarsVal (F := F) r.scalars) ≤ 858 := by
  have htoken : strBound (bytes "access_token") = 14 := by decide
  have htype : strBound (bytes "token_type") = 12 := by decide
  have hbearer : strBound (bytes "Bearer") = 8 := by decide
  have huser : strBound (bytes "user_id") = 9 := by decide
  have hresult : strBound (bytes "result") = 8 := by decide
  cases r with
  | token access_token =>
      have hlength := h.strBound_le
      simp only [scalarsVal, scalars, List.map_cons, List.map_nil, textBound, membersBound,
        scalarBound_str, htoken, htype, hbearer]
      omega
  | userId newUserId =>
      simp only [scalarsVal, scalars, List.map_cons, List.map_nil, textBound, membersBound,
        scalarBound_num, huser]
      decide
  | text message =>
      have hlength := h.strBound_le
      simp only [scalarsVal, scalars, List.map_cons, List.map_nil, textBound, membersBound,
        scalarBound_str, hresult]
      omega

variable {num} (hnum : ∀ i : Int64OrUInt64, num (.int i) = i.val)
include hnum

theorem AuthResult.view_scalars (r : AuthResult) : view num (scalarsVal r.scalars) = r.val := by
  rw [view_scalarsVal]
  cases r with
  | token access_token => rfl
  | userId newUserId =>
      have hval : ((UInt64.ofInt newUserId).toNat : Int) = newUserId % 2 ^ 64 := by
        rw [toNat_ofInt]
        omega
      have hread : num (.int (.ofUInt64 (.ofInt newUserId))) = (newUserId % 2 ^ 64 : Int) := by
        rw [hnum, ← hval]
        rfl
      simp only [scalars, List.map_cons, List.map_nil, viewScalar, hread, val]
  | text message => rfl

/-- **An answer arrives**, with a token that fits if it has one. -/
theorem Answer.arrives {reply : Reply} (h : Answer reply)
    (htoken : ∀ id access_token, reply = .response id (tokenResult access_token) →
      Fits 800 access_token) (constantP : Bytes → Bool) (memory : Heap F) (estimatedValNum : Nat) :
    ∃ doc, DocOf constantP memory reply doc ∧ Arrives double num estimatedValNum reply doc := by
  have hint : ∀ i : Int64OrUInt64, IsInt i.val → num (.int i) = i.val := fun i _ => hnum i
  cases h with
  | @error code message id hcode hmessage hid =>
      obtain ⟨root, text, n, hroot, hn, htext⟩ :=
        exists_error double constantP memory estimatedValNum code id hmessage.utf8
      refine ⟨_, .error code message id, root, text, n, hroot, hn, ?_,
        parse_error double hint hcode hid htext⟩
      have hlength := length_error double htext
      have hbound := hmessage.strBound_le
      exact (decode_sendJsonrpcError _ code message id rfl (written_noNul htext)).2 (by omega)
  | @response id result hmessage hid =>
      have hshort : result.Short := by
        cases result with
        | token access_token => exact htoken id access_token rfl
        | userId newUserId => trivial
        | text message => exact hmessage message rfl
      obtain ⟨store, hrefines, hdenotes, hlinked, hlt⟩ := by
        have hdoc := exists_objDoc constantP memory (result.shows_bodies constantP)
        rwa [← result.doc_eq constantP memory] at hdoc
      obtain ⟨root, text, n, hroot, hn, htext⟩ := exists_response double constantP hrefines
        estimatedValNum id hdenotes hlinked hlt (hshort.writable double)
      have hparse := parse_response double hint hid htext
      rw [result.view_scalars hnum] at hparse
      refine ⟨_, .response id result, root, text, n, hroot, hn, ?_, hparse⟩
      have hlength := length_response double htext
      have hbound := hshort.textBound_le (F := F)
      exact (decode_sendJsonrpcResponse _ id result.val rfl (written_noNul htext)).2 (by omega)

end

/-! ## What a read answers -/

/-- A reply is an answer, and a callback is given an `int` to answer with. -/
def Answers : Action AuthPath AuthRpc → Prop
  | .send reply => Answer reply
  | .rpcCallback _ msgid _ _ => IsInt msgid
  | _ => True

section
variable (env : AuthEnv)

theorem answer_text {id : Option Int} {message : Bytes} (hmessage : Fits 100 message)
    (hid : ∀ i ∈ id, IsInt i) : Answer (.response id (AuthResult.text message).val) := by
  refine .response _ (fun message' heq => ?_) hid
  injection heq with heq
  exact heq ▸ hmessage

/-- A callback refuses its params, replies later, or answers with a text. -/
theorem invoke_cases (cb : AuthRpc) (msgid : Int) (params : Option YyjsonVal) (paramsCount : Nat) :
    (env.http.invoke cb msgid params paramsCount).code = kJsonRpcInvalidParams ∨
      (env.http.invoke cb msgid params paramsCount).code = kJsonRpcInternalPending ∨
      ∃ message, Fits 100 message ∧ env.http.invoke cb msgid params paramsCount =
        ⟨kJsonRpcSuccess, (AuthResult.text message).val⟩ := by
  have hcall : ∀ call : AuthCall, call.code = kJsonRpcInvalidParams ∨
      call.code = kJsonRpcInternalPending := by
    intro call
    cases call with
    | invalidParams => exact .inl rfl
    | pending data converted => exact .inr rfl
  cases cb with
  | login => exact (hcall (authLogin msgid params paramsCount)).imp_right .inl
  | register => exact (hcall (authRegister msgid params paramsCount)).imp_right .inl
  | restricted =>
      show (restrictedFunc env params paramsCount).code = _ ∨ _ ∨ ∃ message, Fits 100 message ∧
        restrictedFunc env params paramsCount = _
      unfold restrictedFunc
      dsimp only
      split
      · exact .inl rfl
      · split
        · exact .inl rfl
        · split
          · exact .inr (.inr ⟨bytes "Failed verification", by decide, rfl⟩)
          · split
            · exact .inr (.inr ⟨bytes "Expired", by decide, rfl⟩)
            · exact .inr (.inr ⟨bytes "Success", by decide, rfl⟩)

theorem answers_rpcReply {msgId : Option Int} (hid : ∀ i ∈ msgId, IsInt i) {ret : RpcReturn}
    (hret : ret.code = kJsonRpcInvalidParams ∨ ret.code = kJsonRpcInternalPending ∨
      ∃ message, Fits 100 message ∧ ret = ⟨kJsonRpcSuccess, (AuthResult.text message).val⟩) :
    ∀ a ∈ rpcReply msgId ret, Answers a := by
  unfold rpcReply
  rcases hret with hcode | hcode | ⟨message, hmessage, rfl⟩
  · rw [hcode, if_neg (by decide), if_pos rfl]
    simpa [Answers] using Answer.error ⟨by decide, by decide⟩ (by decide) hid
  · rw [hcode, if_neg (by decide), if_neg (by decide), if_neg (by decide), if_pos rfl]
    simp
  · rw [if_pos rfl]
    simpa [Answers] using answer_text hmessage hid

theorem answers_handleJsonrpcDoc (root : YyjsonVal) :
    ∀ a ∈ handleJsonrpcDoc env.http authSettings root, Answers a := by
  have hint : ∀ v, IsInt (YyjsonVal.getNumInt v) := YyjsonVal.getNumInt_range
  have hid : ∀ i ∈ (if YyjsonVal.isNull (root.objGet (bytes "id")) = true then none
      else some (YyjsonVal.getNumInt (root.objGet (bytes "id")))), IsInt i := by
    intro i hi
    split at hi
    · cases hi
    · exact Option.some.inj hi ▸ hint _
  simp only [handleJsonrpcDoc]
  split
  · simpa [Answers] using Answer.error ⟨by decide, by decide⟩ (by decide) hid
  · split
    · next cb _ =>
      refine List.forall_mem_cons.2 ⟨hint _, answers_rpcReply hid ?_⟩
      exact invoke_cases env cb _ _ _
    · simp
    · simpa [Answers] using Answer.error ⟨by decide, by decide⟩ (by decide) hid

theorem answers_handleJsonrpcRequest (body : Bytes) (bodyLen : Nat) :
    ∀ a ∈ handleJsonrpcRequest env.http authSettings body bodyLen, Answers a := by
  unfold handleJsonrpcRequest
  split
  · have hanswer : Answer (.error kJsonRpcParseError "Parse error" none) :=
      .error ⟨by decide, by decide⟩ (by decide) (by simp)
    simpa [Answers] using hanswer
  · refine List.forall_mem_append.2 ⟨answers_handleJsonrpcDoc env _, ?_⟩
    simp [Answers]

/-- **A read answers**, or it leaves the answer to a coroutine. -/
theorem answers_httpOnRead (nread : Int) (buf : Bytes) :
    ∀ a ∈ httpOnRead env.http authSettings nread buf, Answers a := by
  have herror : ∀ {code : Int} {message : String}, IsInt code → Fits 100 (bytes message) →
      Answer (.error code message none) := fun hcode hmessage => .error hcode hmessage (by simp)
  unfold httpOnRead
  refine List.forall_mem_append.2 ⟨?_, by simp [Answers]⟩
  split
  · split
    · unfold dispatchRequest
      split
      · simp [Answers]
      · dsimp only
        split
        · simp [Answers]
        · simp
        · split
          · exact List.forall_mem_cons.2 ⟨trivial, answers_handleJsonrpcRequest env _ _⟩
          · simpa [Answers] using herror ⟨by decide, by decide⟩ (by decide)
    · simpa [Answers] using herror ⟨by decide, by decide⟩ (by decide)
    · simpa [Answers] using herror ⟨by decide, by decide⟩ (by decide)
  · split
    · simp [Answers]
    · simp

end

namespace Server

variable {n : Nat}

/-! ## What a coroutine answers -/

section
variable {s : Server n} {co : CoroId} {r : Readings n}

/-- The event is no reply, or an answer. -/
def Answered (e : Event n) : Prop := ∀ st reply, e = .reply st reply → Answer reply

/-- **A coroutine answers.** -/
theorem CoroReply.answer {reply : Reply} (h : CoroReply s co r reply)
    (hid : IsInt (s.coros co).data.mId) : Answer reply := by
  have hids : ∀ i ∈ some (s.coros co).data.mId, IsInt i := fun _ hi => Option.some.inj hi ▸ hid
  cases h with
  | failed message hmessage =>
      have hshort : ∀ m ∈ coroMessages, Fits 100 (bytes m) := by decide
      exact .error ⟨by decide, by decide⟩ (hshort message hmessage) hids
  | noUser => exact .error ⟨by decide, by decide⟩ (by decide) hids
  | token userId token => exact .response (.token token) (fun _ heq => by cases heq) hids
  | registered newUserId =>
      unfold registerReply
      split
      · exact .error ⟨by decide, by decide⟩ (by decide) hids
      · split
        · exact answer_text (by decide) hids
        · exact .response (.userId newUserId) (fun _ heq => by cases heq) hids

end

/-! ## Runs -/

/-- Every reply that was sent is an answer, and every coroutine has an `int` to answer with. -/
structure Replied (s : Server n) : Prop where
  answered : ∀ e ∈ s.said, Answered e
  mId : ∀ co, co < s.nextCoro → IsInt (s.coros co).data.mId

namespace Replied

variable {s s' : Server n}

/-- A move that adds answers and no coroutine. -/
theorem of_same (h : Replied s) (hcoros : SameCoros s s') (ws : List (Event n))
    (hsaid : s'.said = ws ++ s.said) (hws : ∀ e ∈ ws, Answered e) : Replied s' := by
  refine ⟨?_, ?_⟩
  · rw [hsaid]
    exact List.forall_mem_append.2 ⟨hws, h.answered⟩
  · rw [hcoros.coros, hcoros.nextCoro]
    exact h.mId

theorem of_silent (h : Replied s) (hcoros : SameCoros s s') (hsaid : s'.said = s.said) :
    Replied s' :=
  h.of_same hcoros [] hsaid fun _ he => by cases he

theorem log (h : Replied s) (es : List (Event n)) (hes : ∀ e ∈ words es, Answered e) :
    Replied (s.log es) :=
  h.of_same ⟨rfl, rfl, rfl⟩ (words es) (said_log s es) hes

/-- A coroutine that is created is given the id of its request. -/
theorem create (h : Replied s) (st : StreamId) {data : AuthData} (hid : IsInt data.mId) :
    Replied (s.createUntrackedCoroutine st data) := by
  have hlog : s.createUntrackedCoroutine st data =
      (s.log []).createUntrackedCoroutine st data := rfl
  refine ⟨h.answered, fun co hco => ?_⟩
  rw [hlog]
  by_cases hnew : co = s.nextCoro
  · rw [hnew, coros_created_self]
    exact hid
  · rw [coros_created_other hnew]
    exact h.mId co (Nat.lt_of_le_of_ne (Nat.le_of_lt_succ hco) hnew)

theorem runAction (h : Replied s) (st : StreamId) (writable : Bool)
    {a : Action AuthPath AuthRpc} (ha : Answers a) : Replied (s.runAction st writable a) := by
  cases a with
  | send reply =>
      rw [Server.runAction, sendReply_eq]
      refine h.log _ fun e he st' reply' heq => ?_
      unfold replyEvents at he
      split at he
      · obtain rfl := List.mem_singleton.1 he
        exact (Event.reply.inj heq).2 ▸ ha
      · cases he
  | pathCallback cb => exact h.log [.statsPage st, .useStream st _] fun _ he => by cases he
  | jsonrpcRequest pret bodyLen => exact h
  | rpcCallback cb msgid params paramsCount =>
      rw [Server.runAction]
      split
      · next call hcall =>
        cases call with
        | invalidParams => exact h
        | pending data converted =>
            have hid : IsInt data.mId := call_mId hcall ▸ ha
            unfold runAuthCall
            dsimp only
            split
            · exact (h.log [.useStream st _, .fault .nullString] fun _ he => by cases he).create st
                hid
            · exact (h.log [.useStream st _] fun _ he => by cases he).create st hid
      · exact h
  | close => exact h.of_silent (safeUvClose_sameCoros s st) (said_safeUvClose s st)
  | freeDoc => exact h
  | freeBuf => exact h
  | pathOverflow => exact h.log [.fault .pathOverflow] fun _ he => by cases he

theorem runActions (h : Replied s) (st : StreamId) (writable : Bool)
    {as : List (Action AuthPath AuthRpc)} (has : ∀ a ∈ as, Answers a) :
    Replied (s.runActions st writable as) := by
  induction as generalizing s with
  | nil => exact h
  | cons a as ih =>
      obtain ⟨ha, has⟩ := List.forall_mem_cons.1 has
      exact ih (h.runAction st writable ha) has

/-- **Nothing but answers** is sent in any run. -/
theorem kept (env : AuthEnv) : Kept env .none (Sound (n := n)) Replied where
  connect s accepted _ h := h.of_silent (connect_frame s accepted).2 (said_connect s accepted)
  read s st nread buf writable _ h _ _ :=
    (h.log [.useStream st _] fun _ he => by cases he).runActions st writable
      (answers_httpOnRead env nread buf)
  poll s k status consumed busy hs h hk _ := by
    have hcoros := pollCallback_sameCoros s k status consumed busy
    rcases (pollCallback_cases status consumed busy hk (hs.1.pollData k)).said with
      ⟨hsaid, -⟩ | hsaid
    · exact h.of_silent hcoros hsaid
    · refine h.of_same hcoros [.polled k] hsaid fun e he st reply heq => ?_
      rw [List.mem_singleton.1 he] at heq
      cases heq
  reconnect s k connected _ h _ :=
    h.of_silent (reconnect_frame s k connected).1 (said_reconnect s k connected)
  resume s co r hs h hco _ := by
    have hid := h.mId co (hs.2.tracked.lt co hco)
    have hr := resume_cases s co r
    obtain ⟨ws, hwords, hsaid⟩ := resume_said s co r
    refine ⟨?_, fun co' hco' => ?_⟩
    · rw [hsaid]
      refine List.forall_mem_append.2 ⟨fun e he st reply heq => ?_, h.answered⟩
      exact (hwords.ownReply e he st reply heq).2.answer hid
    · rw [(hr.fixed co').2]
      exact h.mId co' (hr.frame.nextCoro ▸ hco')
  cleanup s _ h := by
    have hc := (closeDead_closes s.mUntrackedCoroutines s).coros
    refine ⟨?_, fun co hco => ?_⟩
    · rw [said_cleanup]
      exact h.answered
    · have hcoros : s.cleanupDeadCoroutines.coros = s.coros := hc.coros
      rw [hcoros]
      exact h.mId co (hc.nextCoro ▸ hco)
  closeCb s st _ h _ := h.of_silent ⟨rfl, rfl, rfl⟩ rfl

end Replied

theorem InitFrom.replied {s : Server n} (h : InitFrom n s) : Replied s := by
  refine ⟨?_, fun co hco => ?_⟩
  · rw [h.said]
    exact fun _ he => by cases he
  · rw [h.nextCoro] at hco
    exact absurd hco (Nat.not_lt_zero co)

/-- The shape of a token -/
def signedToken : Bytes := bytes "eyJ0eXAiOiJKV1QifQ.e30.c2lnbmF0dXJl"

end Server

end ServerBase
