import ServerBase.Auth.Identity

/-!
# When a token expires

A token carries the time it was issued, and in `exp` how long it lasts. `VerifySignedJWT` adds the
two. To any other verifier `exp` is the registered claim, a time.

**The result** (`expiry_agrees_iff`). The two verdicts agree before the duration has passed since
1970 and from the end of the token on, and at no time in between.
-/

namespace ServerBase

open Server (libjwtOf7 roundTrips_libjwtOf7 expireDuration tokenOf7)

/-- A verifier that reads `exp` as a time: `none` when the token is rejected, else whether it has
expired. -/
def registeredExpired (lib : Libjwt) (time : Int) (tokenStr : Bytes) : Option Bool :=
  (lib.jwtDecode tokenStr SECRET_KEY).map fun jwt => decide (lib.jwtGetGrantInt jwt "exp" ≤ time)

/-- What `VerifySignedJWT` writes to `expired`. -/
def verifiedExpired (lib : Libjwt) (time : Int) (tokenStr : Bytes) : Option Bool :=
  (verifySignedJWT lib time tokenStr).map Prod.snd

/-- The token is reported expired from the end of its duration on, by both verifiers. -/
structure ExpiryAgrees (lib : Libjwt) (issued duration now : Int) (token : Bytes) : Prop where
  duration : verifiedExpired lib now token = some true ↔ issued + duration ≤ now
  registered :
    verifiedExpired lib now token = some true ↔ registeredExpired lib now token = some true

section
variable {lib : Libjwt} {issued duration : Int} {userid : UInt32} {token : Bytes}

theorem verifiedExpired_generated (hlib : lib.RoundTrips) (hissued : IsLong issued)
    (hduration : IsLong duration)
    (htoken : generateSignedJWT lib issued userid duration = some token) (now : Int) :
    verifiedExpired lib now token = some (decide (issued + duration ≤ now)) := by
  rw [verifiedExpired, verify_generated hlib hissued hduration htoken]
  rfl

theorem registeredExpired_generated (hlib : lib.RoundTrips) (hissued : IsLong issued)
    (hduration : IsLong duration)
    (htoken : generateSignedJWT lib issued userid duration = some token) (now : Int) :
    registeredExpired lib now token = some (decide (duration ≤ now)) := by
  rw [generateSignedJWT_eq, Option.bind_eq_some_iff] at htoken
  obtain ⟨jwt, halg, hencode⟩ := htoken
  obtain ⟨jwt', hdecode, hgrants⟩ := hlib.decode halg (by simp [tokenGrants])
    (isLong_tokenGrants hissued hduration) hencode
  have hexp := hgrants ("exp", duration) (by simp [tokenGrants])
  simp only at hexp
  rw [registeredExpired, hdecode, Option.map_some, hexp]

/-- **Expiry.** Both verifiers agree exactly outside of the times from `duration` to the end of the
token. -/
theorem expiry_agrees_iff (userid : UInt32) (hlib : lib.RoundTrips) (hissued : 0 < issued)
    (hduration : 0 < duration) (hend : issued + duration < 2 ^ 63)
    (htoken : generateSignedJWT lib issued userid duration = some token) (now : Int) :
    ExpiryAgrees lib issued duration now token ↔ now < duration ∨ issued + duration ≤ now := by
  have hlong : IsLong issued ∧ IsLong duration := by
    unfold IsLong
    omega
  have hverified := verifiedExpired_generated hlib hlong.1 hlong.2 htoken now
  have hregistered := registeredExpired_generated hlib hlong.1 hlong.2 htoken now
  constructor
  · intro hagrees
    have hiff := hagrees.registered
    rw [hverified, hregistered, Option.some.injEq, Option.some.injEq, decide_eq_true_eq,
      decide_eq_true_eq] at hiff
    by_cases hearly : now < duration
    · exact .inl hearly
    · exact .inr (hiff.2 (Int.not_lt.1 hearly))
  · intro hwhen
    refine ⟨?_, ?_⟩
    · rw [hverified, Option.some.injEq, decide_eq_true_eq]
    · rw [hverified, hregistered, Option.some.injEq, Option.some.injEq, decide_eq_true_eq,
        decide_eq_true_eq]
      omega

/-- At its end the token for the user 7 has expired for both. -/
theorem expiry_agrees_end : ExpiryAgrees libjwtOf7 1767225600 expireDuration 1767312000 tokenOf7 :=
  (expiry_agrees_iff 7 roundTrips_libjwtOf7 (by decide) (by decide) (by decide)
    (by decide +kernel) 1767312000).2 (.inr (by decide))

/-- **One hour later** the token has expired for a verifier that reads `exp` as a time. -/
theorem expiry_disagrees :
    ¬∀ (lib : Libjwt) (issued duration now : Int) (userid : UInt32) (token : Bytes),
      lib.RoundTrips → 0 < issued → 0 < duration → issued + duration < 2 ^ 63 →
        generateSignedJWT lib issued userid duration = some token → issued ≤ now →
          ExpiryAgrees lib issued duration now token := by
  intro hall
  have hagrees := hall libjwtOf7 1767225600 expireDuration 1767229200 7 tokenOf7
    roundTrips_libjwtOf7 (by decide) (by decide) (by decide) (by decide +kernel) (by decide)
  have hverified : verifiedExpired libjwtOf7 1767229200 tokenOf7 = some false := by decide +kernel
  have hregistered : registeredExpired libjwtOf7 1767229200 tokenOf7 = some true := by
    decide +kernel
  have hiff := hagrees.registered
  rw [hverified, hregistered] at hiff
  exact absurd (hiff.2 rfl) (by decide)

end

end ServerBase
