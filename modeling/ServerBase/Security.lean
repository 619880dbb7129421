import Mathlib.Algebra.Group.Int.Defs
import Mathlib.Algebra.Group.Nat.Defs
import ServerBase.Prereqs

/-!
# Signed tokens

`utils/security.cpp`: a token carries the user it was made for, and the time.

**libjwt** is not part of the repository. Its calls are the fields of `Libjwt`, and what the servers
rely on is one law, `Libjwt.RoundTrips`: a token decodes to the grants it was encoded with.

**Widths.** A user goes into a token as a `uint` and comes out as an `int`.
-/

namespace ServerBase

def SECRET_KEY : Bytes := bytes "asdasdgerr"

/-- A value of the C type `long`. -/
def IsLong (v : Int) : Prop := -2 ^ 63 ≤ v ∧ v < 2 ^ 63

/-- A `long` converted to `int`. -/
def intOfLong (v : Int) : Int := v.bmod (2 ^ 32)

/-! ## libjwt -/

/-- The functions of libjwt that are called. -/
structure Libjwt where
  /-- `jwt_t` -/
  Jwt : Type
  jwtNew : Option Jwt
  /-- `jwt_set_alg(jwt, JWT_ALG_HS256, key, strlen(key))`; `none` unless it returns 0. -/
  jwtSetAlg : Option Jwt → Bytes → Option Jwt
  jwtAddGrantInt : Jwt → String → Int → Jwt
  jwtEncodeStr : Jwt → Option Bytes
  /-- `jwt_decode(&jwt, token, key, strlen(key))`; `none` unless it returns 0. -/
  jwtDecode : Bytes → Bytes → Option Jwt
  jwtGetGrantInt : Jwt → String → Int

namespace Libjwt

variable (lib : Libjwt)

def addGrants (jwt : lib.Jwt) (grants : List (String × Int)) : lib.Jwt :=
  grants.foldl (fun jwt g => lib.jwtAddGrantInt jwt g.1 g.2) jwt

/-- A token is signed with the key for the grants. -/
def Signs (key : Bytes) (grants : List (String × Int)) : Prop :=
  ∃ jwt, lib.jwtSetAlg lib.jwtNew key = some jwt ∧
    (lib.jwtEncodeStr (lib.addGrants jwt grants)).isSome = true

/-- A token decodes, with the key it was signed with, to what was encoded. -/
structure RoundTrips : Prop where
  decode : ∀ {key : Bytes} {jwt : lib.Jwt} {grants : List (String × Int)} {token : Bytes},
    lib.jwtSetAlg lib.jwtNew key = some jwt → (grants.map Prod.fst).Nodup →
      (∀ g ∈ grants, IsLong g.2) → lib.jwtEncodeStr (lib.addGrants jwt grants) = some token →
        ∃ jwt', lib.jwtDecode token key = some jwt' ∧
          ∀ g ∈ grants, lib.jwtGetGrantInt jwt' g.1 = g.2

end Libjwt

/-! ## `security.cpp` -/

/-- `GenerateSignedJWT`, at the time `time`. -/
def generateSignedJWT (lib : Libjwt) (time : Int) (userid : UInt32) (expireDuration : Int) :
    Option Bytes :=
  match lib.jwtSetAlg lib.jwtNew SECRET_KEY with
  | none => none
  | some jwt =>
      let jwt := lib.jwtAddGrantInt jwt "userid" userid.toNat
      let jwt := lib.jwtAddGrantInt jwt "iat" time
      let jwt := lib.jwtAddGrantInt jwt "exp" expireDuration
      lib.jwtEncodeStr jwt

/-- `VerifySignedJWT` at the time `time`: `none` when it returns false, else the user and whether
the token has expired. -/
def verifySignedJWT (lib : Libjwt) (time : Int) (tokenStr : Bytes) : Option (Int × Bool) :=
  match lib.jwtDecode tokenStr SECRET_KEY with
  | none => none
  | some jwt =>
      let userid := intOfLong (lib.jwtGetGrantInt jwt "userid")
      let expireTime := lib.jwtGetGrantInt jwt "iat" + lib.jwtGetGrantInt jwt "exp"
      some (userid, decide (expireTime ≤ time))

/-- The grants of a token. -/
def tokenGrants (time : Int) (userid : UInt32) (expireDuration : Int) : List (String × Int) :=
  [("userid", userid.toNat), ("iat", time), ("exp", expireDuration)]

section
variable {lib : Libjwt} {time : Int} {userid : UInt32} {expireDuration : Int} {token : Bytes}

theorem generateSignedJWT_eq :
    generateSignedJWT lib time userid expireDuration =
      (lib.jwtSetAlg lib.jwtNew SECRET_KEY).bind fun jwt =>
        lib.jwtEncodeStr (lib.addGrants jwt (tokenGrants time userid expireDuration)) := by
  unfold generateSignedJWT
  cases lib.jwtSetAlg lib.jwtNew SECRET_KEY <;> rfl

theorem generateSignedJWT_isSome_iff :
    (generateSignedJWT lib time userid expireDuration).isSome = true ↔
      lib.Signs SECRET_KEY (tokenGrants time userid expireDuration) := by
  rw [generateSignedJWT_eq, Libjwt.Signs]
  cases lib.jwtSetAlg lib.jwtNew SECRET_KEY with
  | none => simp
  | some jwt => simp

theorem isLong_tokenGrants (htime : IsLong time) (hexpire : IsLong expireDuration) :
    ∀ g ∈ tokenGrants time userid expireDuration, IsLong g.2 := by
  intro g hg
  simp only [tokenGrants, List.mem_cons, List.not_mem_nil, or_false] at hg
  rcases hg with rfl | rfl | rfl
  · have huser := userid.toNat_lt
    constructor
    · show -2 ^ 63 ≤ (userid.toNat : Int)
      omega
    · show (userid.toNat : Int) < 2 ^ 63
      omega
  · exact htime
  · exact hexpire

/-- **A token is verified** with the user it was made for, as an `int`. -/
theorem verify_generated (hlib : lib.RoundTrips) (htime : IsLong time)
    (hexpire : IsLong expireDuration)
    (htoken : generateSignedJWT lib time userid expireDuration = some token) (now : Int) :
    verifySignedJWT lib now token =
      some (intOfLong userid.toNat, decide (time + expireDuration ≤ now)) := by
  rw [generateSignedJWT_eq, Option.bind_eq_some_iff] at htoken
  obtain ⟨jwt, halg, hencode⟩ := htoken
  obtain ⟨jwt', hdecode, hgrants⟩ := hlib.decode halg (by simp [tokenGrants])
    (isLong_tokenGrants htime hexpire) hencode
  have huser := hgrants ("userid", userid.toNat) (by simp [tokenGrants])
  have hiat := hgrants ("iat", time) (by simp [tokenGrants])
  have hexp := hgrants ("exp", expireDuration) (by simp [tokenGrants])
  simp only at huser hiat hexp
  simp only [verifySignedJWT, hdecode, huser, hiat, hexp]

end

/-! ## Users as integers -/

theorem intOfLong_natCast {k : Nat} (hk : k < 2 ^ 32) :
    intOfLong k = if k < 2 ^ 31 then (k : Int) else (k : Int) - 2 ^ 32 := by
  rw [intOfLong, Int.bmod_def]
  split <;> split <;> omega

/-- A user keeps its number up to `2^31`. -/
theorem intOfLong_mod_eq_iff {k : Nat} : intOfLong (k % 2 ^ 32 : Nat) = k ↔ k < 2 ^ 31 := by
  rw [intOfLong_natCast (Nat.mod_lt _ (by decide))]
  split <;> omega

/-- Below `2^32` different users stay different. -/
theorem intOfLong_inj {j k : Nat} (hj : j < 2 ^ 32) (hk : k < 2 ^ 32) :
    intOfLong j = intOfLong k ↔ j = k := by
  rw [intOfLong_natCast hj, intOfLong_natCast hk]
  split <;> split <;> omega

end ServerBase
