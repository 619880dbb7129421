import ServerBase.Auth.Idle
import ServerBase.Auth.Said
import ServerBase.Lib.Decimal
import ServerBase.Security

/-!
# The identity of a user

A user is a `BIGINT` of the database. A login reads it from its text with `strtoll`, keeps it as a
`uint` whose largest value means that there is none, prints it with `%u` for the update of
`last_login`, and signs it into a token, out of which it comes as an `int`.

**The result** (`identity_iff`). All of this keeps a user exactly below `2^31`. Two users get tokens
for the same user exactly when they are congruent modulo `2^32`.
-/

namespace ServerBase

/-! ## `strtoll` -/

/-- `isspace` -/
def isSpace (c : UInt8) : Bool := c == 32 || (9 ≤ c && c ≤ 13)

/-- The sign in front of a number, and what follows it. -/
def strtollSign : Bytes → Bool × Bytes
  | 45 :: str => (true, str)
  | 43 :: str => (false, str)
  | str => (false, str)

/-- `strtoll(str, NULL, 10)` -/
def strtoll (str : Bytes) : Int :=
  let (negative, str) := strtollSign (str.dropWhile isSpace)
  let v : Int := Decimal.value (str.takeWhile Decimal.isDigit)
  if negative then max (-2 ^ 63) (-v) else min (2 ^ 63 - 1) v

/-- `(uint)user_id` of a positive user. -/
theorem ofInt_natCast (k : Nat) : UInt32.ofInt k = UInt32.ofNat k := by
  rw [← UInt32.toNat_inj, UInt32.ofInt, UInt32.toNat_ofNat', UInt32.toNat_ofNat']
  omega

theorem ofNat_lt_UINT_MAX {k : Nat} (hk : k < 2 ^ 31) : UInt32.ofNat k < UINT_MAX := by
  rw [UInt32.lt_iff_toNat_lt, UInt32.toNat_ofNat']
  show k % 2 ^ 32 < 4294967295
  omega

theorem strtollSign_of_isDigit {c : UInt8} {str : Bytes} (h : Decimal.isDigit c = true) :
    strtollSign (c :: str) = (false, c :: str) := by
  rw [Decimal.isDigit_iff] at h
  unfold strtollSign
  split
  · next heq =>
    obtain ⟨rfl, -⟩ := List.cons.inj heq
    simp at h
  · next heq =>
    obtain ⟨rfl, -⟩ := List.cons.inj heq
    simp at h
  · rfl

/-- **The text of a `BIGINT`** is read as the number it was. -/
theorem strtoll_digits {k : Nat} (hk : k < 2 ^ 63) : strtoll (Decimal.digits k) = k := by
  have hdigits := @Decimal.takeWhile_digits k [] (by simp)
  rw [List.append_nil] at hdigits
  cases hcons : Decimal.digits k with
  | nil => exact absurd hcons (Decimal.digits_ne_nil k)
  | cons c str =>
      have hc : Decimal.isDigit c = true :=
        Decimal.isDigit_of_mem_digits (k := k) (by rw [hcons]; exact List.mem_cons_self)
      have hspace : isSpace c = false := by
        rw [Decimal.isDigit_iff] at hc
        simp [isSpace, UInt8.le_iff_toNat_le, ← UInt8.toNat_inj]
        omega
      rw [strtoll, List.dropWhile_cons_of_neg (by simp [hspace]), strtollSign_of_isDigit hc,
        ← hcons]
      simp only [hdigits, Decimal.value_digits, Bool.false_eq_true, if_false]
      omega

namespace Server

variable {n : Nat}

/-! ## A login that finds its user -/

/-- The default of `expire_duration` -/
def expireDuration : Int := 24 * 60 * 60

/-- The login `co` is resumed with the row of the user `id`, at the time `time`, and its client is
still there. -/
structure FindsUser (lib : Libjwt) (time : Int) (id : Nat) (s : Server n) (co : CoroId)
    (r : Readings n) : Prop where
  ready : (s.resultsFrom co).isSome = true
  login : (s.coros co).data.isLogin = true
  writable : s.uvIsWritable (s.coros co).mStream r.writable = true
  row : r.results = [.tuplesOk [strtoll (Decimal.digits id)]]
  signed : r.signedJWT = fun userid => generateSignedJWT lib time userid expireDuration

/-- What a resume with ready results says. -/
theorem resume_results {s : Server n} {co : CoroId} {r : Readings n} {k : Fin n} {c : ConnId}
    (h : (k, c) ∈ s.resultsFrom co) :
    (s.resume co r).said = s.resultWords co r k c ++ [.waitOver k] ++ s.said := by
  unfold resultsFrom at h
  cases hpoint : (s.coros co).point with
  | waitPoll k' c' =>
      simp only [hpoint, Option.mem_def, Option.ite_none_right_eq_some, Bool.and_eq_true,
        Bool.not_eq_true', Option.some.injEq, Prod.mk.injEq] at h
      obtain ⟨⟨hready, hterm⟩, rfl, rfl⟩ := h
      have hdone : (s.mConnections k').donePollingData = true := by
        simp [DBConnectionCtx.donePollingData, hready]
      rw [resume, hpoint]
      dsimp only
      rw [if_pos hdone, (queryPolled_said hdone).1, hterm]
      simp
  | _ => simp [hpoint] at h

/-- A token is sent to the client. -/
def Issued (client : StreamId) (es : List (Event n)) (token : Bytes) : Prop :=
  ∃ msgId, .reply client (.response msgId (tokenResult token)) ∈ es

/-- A token is sent, every token verifies to the user at any time, and an update is for the user. -/
structure KeepsIdentity (lib : Libjwt) (id : Nat) (client : StreamId) (es : List (Event n)) :
    Prop where
  issued : ∃ token, Issued client es token
  verified : ∀ token, Issued client es token →
    ∀ time, (verifySignedJWT lib time token).map Prod.fst = some (id : Int)
  updated : ∀ k c query, .sent k c query ∈ es →
    query = { updateQuery 0 with values := [some (Decimal.digits id)] }

theorem tokenResult_inj {token token' : Bytes} (h : tokenResult token = tokenResult token') :
    token = token' := by
  simp only [tokenResult, YyjsonVal.obj.injEq, List.cons.injEq, Prod.mk.injEq, YyjsonVal.str.injEq]
    at h
  exact h.1.2

namespace FindsUser

variable {lib : Libjwt} {time : Int} {id : Nat} {s : Server n} {co : CoroId} {r : Readings n}
  {es : List (Event n)}

/-- The words of the resume are those of a login that has read the user as a `uint`. -/
theorem words (h : FindsUser lib time id s co r) (hid : id < 2 ^ 63)
    (hes : (s.resume co r).trace = es ++ s.trace) :
    ∃ k c, ServerBase.words es = s.loginWords co r k c (UInt32.ofNat id) ++ [.waitOver k] := by
  obtain ⟨⟨k, c⟩, hkc⟩ := Option.isSome_iff_exists.1 h.ready
  refine ⟨k, c, ?_⟩
  have hsaid := resume_results (r := r) hkc
  rw [said, said, hes, words_append, List.append_cancel_right_eq] at hsaid
  have hlogin : s.resultWords co r k c = s.loginWords co r k c (UInt32.ofNat id) := by
    have hdata := h.login
    unfold resultWords
    split
    · rw [h.row, loginResults, strtoll_digits hid, loginResults, ofInt_natCast]
    · next hregister =>
      rw [hregister] at hdata
      cases hdata
  rw [hsaid, hlogin]

theorem mem_iff (h : FindsUser lib time id s co r) (hid : id < 2 ^ 63)
    (hes : (s.resume co r).trace = es ++ s.trace) :
    ∃ k c, ∀ e : Event n, e.isWord = true → (∀ j, e ≠ .waitOver j) →
      (e ∈ es ↔ e ∈ s.loginWords co r k c (UInt32.ofNat id)) := by
  obtain ⟨k, c, hwords⟩ := h.words hid hes
  refine ⟨k, c, fun e hword hover => ?_⟩
  have hiff : e ∈ es ↔ e ∈ ServerBase.words es :=
    ⟨fun hmem => List.mem_filter.2 ⟨hmem, hword⟩, fun hmem => (List.mem_filter.1 hmem).1⟩
  rw [hiff, hwords]
  simp [hover k]

/-- A token is sent for every user but the last one, if it is signed. -/
theorem issued_iff (h : FindsUser lib time id s co r) (hid : id < 2 ^ 63)
    (hes : (s.resume co r).trace = es ++ s.trace) {token : Bytes} :
    Issued (s.coros co).mStream es token ↔ UInt32.ofNat id < UINT_MAX ∧
      generateSignedJWT lib time (UInt32.ofNat id) expireDuration = some token := by
  obtain ⟨k, c, hmem⟩ := h.mem_iff hid hes
  have hreply : ∀ reply, s.replyWords co r reply = [.reply (s.coros co).mStream reply] :=
    fun reply => if_pos h.writable
  have hupdate : ∀ reply, .reply (s.coros co).mStream reply ∉
      updateWords r k c (UInt32.ofNat id) := by
    intro reply hmem
    unfold updateWords at hmem
    split at hmem <;> simp at hmem
  have hissued : Issued (s.coros co).mStream es token ↔ ∃ msgId,
      .reply (s.coros co).mStream (.response msgId (tokenResult token)) ∈
        s.loginWords co r k c (UInt32.ofNat id) :=
    exists_congr fun msgId => hmem _ rfl (by simp)
  rw [hissued, loginWords, if_pos h.writable]
  by_cases huser : UInt32.ofNat id < UINT_MAX
  · rw [if_pos huser, h.signed]
    cases hsigned : generateSignedJWT lib time (UInt32.ofNat id) expireDuration with
    | none => simp [hsigned, hupdate]
    | some token' =>
        simp only [hsigned, List.mem_append, hupdate, false_or, hreply, List.mem_singleton,
          Event.reply.injEq, true_and, Reply.response.injEq, huser, Option.some.injEq]
        constructor
        · rintro ⟨msgId, -, heq⟩
          exact (tokenResult_inj heq).symm
        · rintro rfl
          exact ⟨_, rfl, rfl⟩
  · rw [if_neg huser, hreply]
    simp [huser]

/-- An update is for the user as a `uint`. -/
theorem sent (h : FindsUser lib time id s co r) (hid : id < 2 ^ 63)
    (hes : (s.resume co r).trace = es ++ s.trace) {k : Fin n} {c : ConnId} {query : Query}
    (hquery : .sent k c query ∈ es) : query = updateQuery (UInt32.ofNat id) := by
  obtain ⟨k', c', hmem⟩ := h.mem_iff hid hes
  rw [hmem _ rfl (by simp)] at hquery
  have hreply : ∀ {reply}, .sent k c query ∉ s.replyWords co r reply :=
    fun hmem => by cases mem_replyWords hmem
  rw [loginWords, if_pos h.writable] at hquery
  split at hquery
  · rcases List.mem_append.1 hquery with hquery | hquery
    · unfold updateWords at hquery
      split at hquery
      · simp only [List.mem_cons, reduceCtorEq, Event.sent.injEq, List.not_mem_nil, or_false,
          false_or] at hquery
        exact hquery.2.2
      · cases hquery
    · split at hquery
      · exact absurd hquery hreply
      · cases hquery
  · exact absurd hquery hreply

end FindsUser

/-- **Identity survives login** exactly for the users below `2^31`, if the token is signed: the
token is sent and verifies to the user, and the update of `last_login` is for it. Two users' tokens
verify to the same user exactly when the users are congruent modulo `2^32`. -/
theorem identity_iff {lib : Libjwt} (hlib : lib.RoundTrips) {time : Int} (htime : IsLong time)
    {id : Nat} (hid : id < 2 ^ 63) {s : Server n} {co : CoroId} {r : Readings n}
    (h : FindsUser lib time id s co r) {es : List (Event n)}
    (hes : (s.resume co r).trace = es ++ s.trace) :
    (KeepsIdentity lib id (s.coros co).mStream es ↔ id < 2 ^ 31 ∧
        lib.Signs SECRET_KEY (tokenGrants time (UInt32.ofNat id) expireDuration)) ∧
      ∀ {m : Nat} {s' : Server m} {co' : CoroId} {r' : Readings m} {es' : List (Event m)}
        {time' : Int} {id' : Nat}, IsLong time' → id' < 2 ^ 63 → FindsUser lib time' id' s' co' r' →
        (s'.resume co' r').trace = es' ++ s'.trace →
        ∀ token token', Issued (s.coros co).mStream es token →
          Issued (s'.coros co').mStream es' token' → ∀ now now',
          ((verifySignedJWT lib now token).map Prod.fst =
              (verifySignedJWT lib now' token').map Prod.fst ↔ id % 2 ^ 32 = id' % 2 ^ 32) := by
  have hexpire : IsLong expireDuration := by unfold IsLong expireDuration; omega
  have huser : ∀ k : Nat, ((UInt32.ofNat k).toNat : Nat) = k % 2 ^ 32 := fun k =>
    UInt32.toNat_ofNat'
  refine ⟨⟨?_, ?_⟩, ?_⟩
  · intro hkeeps
    obtain ⟨token, hissued⟩ := hkeeps.issued
    have hsigned := ((h.issued_iff hid hes).1 hissued).2
    have hverified := hkeeps.verified token hissued 0
    rw [verify_generated hlib htime hexpire hsigned, huser, Option.map_some,
      Option.some.injEq] at hverified
    dsimp only at hverified
    refine ⟨intOfLong_mod_eq_iff.1 hverified, generateSignedJWT_isSome_iff.1 ?_⟩
    rw [hsigned]
    rfl
  · rintro ⟨hsmall, hsigns⟩
    have hmod : id % 2 ^ 32 = id := Nat.mod_eq_of_lt (by omega)
    refine ⟨?_, ?_, ?_⟩
    · obtain ⟨token, htoken⟩ :=
        Option.isSome_iff_exists.1 (generateSignedJWT_isSome_iff.2 hsigns)
      exact ⟨token, (h.issued_iff hid hes).2 ⟨ofNat_lt_UINT_MAX hsmall, htoken⟩⟩
    · intro token hissued now
      have hsigned := ((h.issued_iff hid hes).1 hissued).2
      rw [verify_generated hlib htime hexpire hsigned, huser, Option.map_some]
      dsimp only
      rw [intOfLong_mod_eq_iff.2 hsmall]
    · intro k c query hquery
      rw [h.sent hid hes hquery, updateQuery, huser, hmod]
      rfl
  · intro m s' co' r' es' time' id' htime' hid' h' hes' token token' hissued hissued' now now'
    have hsigned := ((h.issued_iff hid hes).1 hissued).2
    have hsigned' := ((h'.issued_iff hid' hes').1 hissued').2
    rw [verify_generated hlib htime hexpire hsigned, verify_generated hlib htime' hexpire hsigned',
      huser, huser, Option.map_some, Option.map_some, Option.some.injEq]
    dsimp only
    exact intOfLong_inj (Nat.mod_lt _ (by decide)) (Nat.mod_lt _ (by decide))

/-- A resume adds to the trace. -/
theorem resume_extends (s : Server n) (co : CoroId) (r : Readings n) :
    ∃ es, (s.resume co r).trace = es ++ s.trace := by
  obtain ⟨es, htrace, -⟩ := (resume_cases s co r).adds
  exact ⟨es, htrace⟩

/-- The token for the user 7, signed at the beginning of 2026. -/
def tokenOf7 : Bytes :=
  bytes ("eyJhbGciOiJIUzI1NiIsInR5cCI6IkpXVCJ9." ++
    "eyJleHAiOjg2NDAwLCJpYXQiOjE3NjcyMjU2MDAsInVzZXJpZCI6N30." ++
    "1qhg1otMVZ5nxWREqUKaFX3YJT8jsQwPWxu8AxHKnNE")

/-- What libjwt does for this token: a `jwt_t` has a key and grants. -/
def libjwtOf7 : Libjwt where
  Jwt := Bytes × List (String × Int)
  jwtNew := some ([], [])
  jwtSetAlg jwt key := jwt.map fun jwt => (key, jwt.2)
  jwtAddGrantInt jwt grant v := (jwt.1, jwt.2 ++ [(grant, v)])
  jwtEncodeStr jwt :=
    if jwt = (SECRET_KEY, tokenGrants 1767225600 7 expireDuration) then some tokenOf7 else none
  jwtDecode token key :=
    if token = tokenOf7 ∧ key = SECRET_KEY then
      some (SECRET_KEY, tokenGrants 1767225600 7 expireDuration)
    else none
  jwtGetGrantInt jwt grant := (jwt.2.lookup grant).getD 0

theorem addGrants_libjwtOf7 (jwt : Bytes × List (String × Int)) (grants : List (String × Int)) :
    libjwtOf7.addGrants jwt grants = (jwt.1, jwt.2 ++ grants) := by
  induction grants generalizing jwt with
  | nil => exact Prod.ext rfl (List.append_nil jwt.2).symm
  | cons g grants ih =>
      refine (ih (jwt.1, jwt.2 ++ [g])).trans ?_
      rw [List.append_assoc]
      rfl

theorem roundTrips_libjwtOf7 : libjwtOf7.RoundTrips where
  decode := by
    intro key jwt grants token halg _ _ hencode
    obtain rfl : (key, []) = jwt := Option.some.inj halg
    rw [addGrants_libjwtOf7] at hencode
    simp only [libjwtOf7, List.nil_append, Option.ite_none_right_eq_some, Prod.mk.injEq,
      Option.some.injEq] at hencode
    obtain ⟨⟨rfl, rfl⟩, rfl⟩ := hencode
    refine ⟨(SECRET_KEY, tokenGrants 1767225600 7 expireDuration), ?_, ?_⟩
    · simp [libjwtOf7]
    · decide +kernel

/-- A login finds the user 7. -/
theorem identity_of_7 :
    ∃ s : Server 1, ∃ r es, (s.resume 0 r).trace = es ++ s.trace ∧
      KeepsIdentity libjwtOf7 7 (s.coros 0).mStream es := by
  obtain ⟨s, -, -, hq⟩ := Machine.exists_run_of_replay (directLoginEnv.loop 1)
    Machine.anyStep [.connect true, directLoginRead 0, .coTimer fun _ => {}, resultsReady]
    (fun s => (s.resultsFrom 0).isSome && (s.coros 0).data.isLogin &&
      s.uvIsWritable (s.coros 0).mStream true)
    (oneConnection_init _) (by decide +kernel)
  simp only [Bool.and_eq_true] at hq
  let r : Readings 1 :=
    { results := [.tuplesOk [strtoll (Decimal.digits 7)]]
      signedJWT := fun userid => generateSignedJWT libjwtOf7 1767225600 userid expireDuration }
  obtain ⟨es, hes⟩ := resume_extends s 0 r
  have hfinds : FindsUser libjwtOf7 1767225600 7 s 0 r := ⟨hq.1.1, hq.1.2, hq.2, rfl, rfl⟩
  refine ⟨s, r, es, hes, (identity_iff roundTrips_libjwtOf7 (by unfold IsLong; decide)
    (by decide) hfinds hes).1.2 ⟨by decide, ?_⟩⟩
  rw [← generateSignedJWT_isSome_iff]
  decide +kernel

/-- The answer with the token. -/
def hasToken (client : StreamId) (token : Bytes) : Event n → Bool
  | .reply st (.response _ (.obj [(key, .str token'), (key', .str type)])) =>
      st == client && key == bytes "access_token" && token' == token &&
        key' == bytes "token_type" && type == bytes "Bearer"
  | _ => false

theorem hasToken_eq {client : StreamId} {token : Bytes} {e : Event n}
    (h : hasToken client token e = true) :
    ∃ msgId, e = .reply client (.response msgId (tokenResult token)) := by
  unfold hasToken at h
  split at h
  · next st msgId key token' key' type =>
    simp only [Bool.and_eq_true, beq_iff_eq] at h
    obtain ⟨⟨⟨⟨rfl, rfl⟩, rfl⟩, rfl⟩, rfl⟩ := h
    exact ⟨msgId, rfl⟩
  · cases h

/-- The update of `last_login` for the user. -/
def isUpdateOf (k : Fin n) (c : ConnId) (userId : UInt32) : Event n → Bool
  | .sent k' c' query => k' == k && c' == c && query.command == (updateQuery userId).command &&
      query.values == (updateQuery userId).values
  | _ => false

theorem isUpdateOf_eq {k : Fin n} {c : ConnId} {userId : UInt32} {e : Event n}
    (h : isUpdateOf k c userId e = true) : e = .sent k c (updateQuery userId) := by
  cases e with
  | sent k' c' query =>
      simp only [isUpdateOf, Bool.and_eq_true, beq_iff_eq] at h
      obtain ⟨⟨⟨rfl, rfl⟩, hcommand⟩, hvalues⟩ := h
      cases query
      simp only at hcommand hvalues
      rw [hcommand, hvalues]
  | _ => cases h

/-- The login finds the user `2^32 + 7`. -/
def loginFindsLargeUser : List (Input 1) :=
  [.connect true, directLoginRead 0, .coTimer fun _ => {}, resultsReady,
    .coTimer fun _ =>
      { results := [.tuplesOk [strtoll (Decimal.digits (2 ^ 32 + 7))]]
        signedJWT := fun userid =>
          generateSignedJWT libjwtOf7 1767225600 userid expireDuration }]

/-- **Another user logs in.** The login of the user `2^32 + 7` gets the token of the user 7, and the
update of `last_login` is for the user 7. -/
theorem identity_lost :
    ∃ s : Server 1, (directLoginEnv.loop 1).replay oneConnection loginFindsLargeUser = some s ∧
      (directLoginEnv.loop 1).Reachable s ∧ Issued 0 s.trace tokenOf7 ∧
      (verifySignedJWT libjwtOf7 1767225600 tokenOf7).map Prod.fst = some 7 ∧
      .sent 0 0 (updateQuery 7) ∈ s.trace := by
  obtain ⟨s, hreplay, hs, hq⟩ := Machine.exists_run_of_replay (directLoginEnv.loop 1)
    Machine.anyStep loginFindsLargeUser
    (fun s => s.trace.any (hasToken 0 tokenOf7) && s.trace.any (isUpdateOf 0 0 7))
    (oneConnection_init _) (by decide +kernel)
  rw [Bool.and_eq_true] at hq
  obtain ⟨e, he, hissued⟩ := List.any_eq_true.1 hq.1
  obtain ⟨msgId, rfl⟩ := hasToken_eq hissued
  obtain ⟨e, hsent, hupdate⟩ := List.any_eq_true.1 hq.2
  obtain rfl := isUpdateOf_eq hupdate
  exact ⟨s, hreplay, hs, ⟨msgId, he⟩, by decide +kernel, hsent⟩

end Server

end ServerBase
