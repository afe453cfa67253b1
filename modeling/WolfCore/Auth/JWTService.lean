import WolfCore.Lib.Calls
import WolfCore.Lib.Go

/-!
# Token validation and revocation (`infra/auth/jwt_service.go`, `infra/auth/blacklist_redis.go`)

`ValidateAccessToken`, `RevokeToken` and `RevokeSession` as programs over the effects they have:
they read the clock, look up and set entries of the cache behind the blacklist, use the in-process
negative cache, and ask the database about a session.

What golang-jwt makes of a token string is a parameter (`ParseWithClaims`); what the results take it
to do is `ChecksTokens`.  An entry of the cache set with a TTL is there until the TTL has elapsed.
Times and durations are nanoseconds.
-/

namespace WolfCore.Auth

open Go Interleave

/-! ### Tokens -/

/-- `customClaims`. -/
structure Claims where
  id : String
  subject : String
  email : String
  roles : List String
  permissions : List String
  sessionID : String
  tokenType : String
  issuedAt : Option ℤ
  expiresAt : Option ℤ
  notBefore : Option ℤ
  deriving DecidableEq

/-- The errors of golang-jwt that `mapJWTError` tells apart. -/
inductive JWTError
  | expired
  | malformed
  | signatureInvalid
  | notValidYet
  | other (text : String)
  deriving DecidableEq

/-- `sharedauth.UserClaims`, without its sets of roles and permissions. -/
structure UserClaims where
  userID : String
  email : String
  roles : List String
  permissions : List String
  sessionID : String
  issuedAt : ℤ
  expiresAt : ℤ
  deriving DecidableEq

def second : ℤ := 1000000000

/-- The leeway `parse` asks golang-jwt for. -/
def leeway : ℤ := 5 * second

/-- `sessionActiveCacheTTL`. -/
def sessionActiveCacheTTL : ℤ := 30 * second

/-- `sessionBlacklistPrefix`, applied. -/
def sessionKey (sessionID : String) : String := "session:" ++ sessionID

/-- `blacklistKey`. -/
def blacklistKey (jti : String) : String := "bl:" ++ jti

/-- `NewTokenExpired`. -/
def tokenExpired : Err := .msg "[UNAUTHORIZED] token has expired"

/-- `NewTokenInvalid`. -/
def tokenInvalid (reason : String) : Err := .msg ("[UNAUTHORIZED] invalid token: " ++ reason)

/-- `NewTokenRevoked`. -/
def tokenRevoked : Err := .msg "[UNAUTHORIZED] token has been revoked"

/-- `mapJWTError`. -/
def mapJWTError : JWTError → Err
  | .expired => tokenExpired
  | .malformed => tokenInvalid "malformed"
  | .signatureInvalid => tokenInvalid "invalid signature"
  | .notValidYet => tokenInvalid "token not yet valid"
  | .other text => tokenInvalid text

/-- `jwt.ParseWithClaims` with the key and the options of the service, at a time. -/
abbrev ParseWithClaims := ℤ → String → Except JWTError Claims

/-- What golang-jwt is taken to do: it accepts the token strings with a valid signature for the
issuer and the audience of the service, whose claims are `signed`, with the leeway before the start
and after the end of the token. -/
structure ChecksTokens (jwt : ParseWithClaims) (signed : String → Option Claims) : Prop where
  accepts_iff : ∀ now token claims, jwt now token = .ok claims ↔ signed token = some claims ∧
    (∀ exp, claims.expiresAt = some exp → now < exp + leeway) ∧
      ∀ nbf, claims.notBefore = some nbf → nbf - leeway ≤ now

theorem ChecksTokens.signed_of_ok {jwt : ParseWithClaims} {signed : String → Option Claims}
    (h : ChecksTokens jwt signed) {now : ℤ} {token : String} {claims : Claims}
    (hok : jwt now token = .ok claims) : signed token = some claims :=
  ((h.accepts_iff now token claims).1 hok).1

def leewayParser (signed : String → Option Claims) : ParseWithClaims := fun now token =>
  match signed token with
  | none => .error .signatureInvalid
  | some claims =>
      if claims.expiresAt.any fun exp => decide (exp + leeway ≤ now) then .error .expired
      else if claims.notBefore.any fun nbf => decide (now < nbf - leeway) then .error .notValidYet
      else .ok claims

theorem leewayParser_checks (signed : String → Option Claims) :
    ChecksTokens (leewayParser signed) signed where
  accepts_iff now token claims := by
    unfold leewayParser
    cases hsigned : signed token with
    | none => simp
    | some c =>
      dsimp only
      split_ifs with hexp hnbf
      · refine iff_of_false nofun ?_
        rintro ⟨⟨⟩, hnow, -⟩
        obtain ⟨exp, hsome, hle⟩ := (Option.any_eq_true _ _).1 hexp
        exact absurd (hnow exp hsome) (not_lt_of_ge (of_decide_eq_true hle))
      · refine iff_of_false nofun ?_
        rintro ⟨⟨⟩, -, hnow⟩
        obtain ⟨nbf, hsome, hlt⟩ := (Option.any_eq_true _ _).1 hnbf
        exact absurd (hnow nbf hsome) (not_le_of_gt (of_decide_eq_true hlt))
      · constructor
        · rintro ⟨⟩
          refine ⟨rfl, fun exp hsome => ?_, fun nbf hsome => ?_⟩
          · simpa [hsome] using hexp
          · simpa [hsome] using hnbf
        · rintro ⟨⟨⟩, -⟩
          rfl

/-- The claims handed to the caller of `ValidateAccessToken`; a missing time is the zero time. -/
def userClaims (claims : Claims) : UserClaims where
  userID := claims.subject
  email := claims.email
  roles := claims.roles
  permissions := claims.permissions
  sessionID := claims.sessionID
  issuedAt := claims.issuedAt.getD 0
  expiresAt := claims.expiresAt.getD 0

/-! ### Calls and effects -/

/-- A call of the service. -/
inductive Request
  | validate (token : String)
  | revokeToken (jti : String) (expiresAt : ℤ)
  | revokeSession (sessionID : String) (expiresAt : ℤ)
  deriving DecidableEq

/-- How a call ends. -/
inductive Response
  /-- the claims of a valid token -/
  | claims (c : UserClaims)
  /-- a revocation that returned nil -/
  | done
  | failed (err : Err)
  deriving DecidableEq

/-- The answer of `Client.Get`: the value of a blacklist entry does not matter. -/
inductive Lookup
  | hit
  | miss
  | failed (err : Err)

/-- The effects of the service. -/
inductive Cmd
  /-- a call arrives -/
  | accept
  /-- `clk.Now`, and `time.Now` in `time.Until` -/
  | now
  | cacheGet (key : String)
  | cacheSet (key : String) (ttl : ℤ)
  | activeLoad (sessionID : String)
  | activeStore (sessionID : String) (expiry : ℤ)
  | activeDelete (sessionID : String)
  | isSessionRevoked (sessionID : String)
  /-- a call returns -/
  | respond (request : Request) (response : Response)

abbrev Reply : Cmd → Type
  | .accept => Request
  | .now => ℤ
  | .cacheGet _ => Lookup
  | .cacheSet _ _ => Option Err
  | .activeLoad _ => Option ℤ
  | .activeStore _ _ => Unit
  | .activeDelete _ => Unit
  | .isSessionRevoked _ => Except Err Bool
  | .respond _ _ => Unit

/-! ### The blacklist -/

/-- `RedisBlacklist.IsBlacklisted`. -/
def isBlacklisted (jti : String) : Prog Reply (Except Err Bool) :=
  .call (.cacheGet (blacklistKey jti)) fun
    | .hit => .pure (.ok true)
    | .miss => .pure (.ok false)
    | .failed err => .pure (.error err)

/-- `RedisBlacklist.Blacklist`. -/
def blacklist (jti : String) (expiresAt : ℤ) : Prog Reply (Option Err) :=
  .call .now fun t =>
    if expiresAt - t ≤ 0 then .pure none
    else .call (.cacheSet (blacklistKey jti) (expiresAt - t)) .pure

/-! ### The service -/

/-- The end of `checkSessionRevocation`: the database decides, and its answer is cached if it is
"not revoked", or written back to the blacklist if it is "revoked". -/
def checkDatabase (claims : Claims) (now : ℤ) : Prog Reply (Option Err) :=
  .call (.isSessionRevoked claims.sessionID) fun
    | .error err => .pure (some (.wrap "jwt: session revocation db check: %w" none err))
    | .ok false => .call (.activeStore claims.sessionID (now + sessionActiveCacheTTL)) fun _ =>
        .pure none
    | .ok true =>
        match claims.expiresAt with
        | some exp => (blacklist (sessionKey claims.sessionID) exp).bind fun _ =>
            .pure (some tokenRevoked)
        | none => .pure (some tokenRevoked)

/-- What `checkSessionRevocation` does with an entry of the in-process negative cache. -/
def useActive (claims : Claims) (now : ℤ) : Option ℤ → Prog Reply (Option Err)
  | some expiry =>
      if now < expiry then .pure none
      else .call (.activeDelete claims.sessionID) fun _ => checkDatabase claims now
  | none => checkDatabase claims now

/-- The middle of `checkSessionRevocation`: the in-process negative cache. -/
def checkActive (claims : Claims) : Prog Reply (Option Err) :=
  .call .now fun now => .call (.activeLoad claims.sessionID) (useActive claims now)

/-- `checkSessionRevocation`; `hasChecker` says whether a session checker is installed. -/
def checkSessionRevocation (hasChecker : Bool) (claims : Claims) : Prog Reply (Option Err) :=
  (isBlacklisted (sessionKey claims.sessionID)).bind fun
    | .error err => .pure (some (.wrap "jwt: session blacklist check: %w" none err))
    | .ok true => .pure (some tokenRevoked)
    | .ok false => if hasChecker then checkActive claims else .pure none

/-- The end of `ValidateAccessToken`, for claims that were parsed. -/
def checkClaims (hasChecker : Bool) (claims : Claims) : Prog Reply Response :=
  if claims.tokenType ≠ "access" then .pure (.failed (tokenInvalid "wrong token type"))
  else (isBlacklisted claims.id).bind fun
    | .error err => .pure (.failed (.wrap "jwt: blacklist check: %w" none err))
    | .ok true => .pure (.failed tokenRevoked)
    | .ok false =>
        if claims.sessionID = "" then .pure (.claims (userClaims claims))
        else (checkSessionRevocation hasChecker claims).bind fun
          | some err => .pure (.failed err)
          | none => .pure (.claims (userClaims claims))

/-- `JWTService.ValidateAccessToken`. -/
def validateAccessToken (jwt : ParseWithClaims) (hasChecker : Bool) (token : String) :
    Prog Reply Response :=
  .call .now fun now =>
    match jwt now token with
    | .error err => .pure (.failed (mapJWTError err))
    | .ok claims => checkClaims hasChecker claims

def revocation : Option Err → Response
  | none => .done
  | some err => .failed err

/-- `JWTService.RevokeToken`. -/
def revokeToken (jti : String) (expiresAt : ℤ) : Prog Reply Response :=
  (blacklist jti expiresAt).bind fun r => .pure (revocation r)

/-- `JWTService.RevokeSession`. -/
def revokeSession (sessionID : String) (expiresAt : ℤ) : Prog Reply Response :=
  .call (.activeDelete sessionID) fun _ =>
    (blacklist (sessionKey sessionID) expiresAt).bind fun r => .pure (revocation r)

def handle (jwt : ParseWithClaims) (hasChecker : Bool) : Request → Prog Reply Response
  | .validate token => validateAccessToken jwt hasChecker token
  | .revokeToken jti expiresAt => revokeToken jti expiresAt
  | .revokeSession sessionID expiresAt => revokeSession sessionID expiresAt

def serve (jwt : ParseWithClaims) (hasChecker : Bool) : Prog Reply Unit :=
  .call .accept fun request =>
    (handle jwt hasChecker request).bind fun response =>
      .call (.respond request response) fun _ => .pure ()

/-! ### The surroundings -/

/-- The clock, the cache with the end of each entry, the negative cache, and the sessions revoked in
the database. -/
structure World where
  clock : ℤ
  cache : String → Option ℤ
  active : String → Option ℤ
  revoked : String → Bool

/-- What the surroundings choose at a command: the call that arrives, and failures. -/
structure Choice where
  request : Request
  cacheErr : Option Err
  dbErr : Option Err

/-- What the environment does: time passes, and the database changes. -/
inductive Env
  | elapse (d : ℕ)
  | setRevoked (sessionID : String) (b : Bool)
  deriving DecidableEq

/-- Whether an entry of the cache is there. -/
def World.has (w : World) (key : String) : Bool :=
  (w.cache key).any fun deadline => decide (w.clock < deadline)

def exec : (e : Cmd) → Choice → World → Reply e × World
  | .accept, o, w => (o.request, w)
  | .now, _, w => (w.clock, w)
  | .cacheGet key, o, w =>
      match o.cacheErr with
      | some err => (.failed err, w)
      | none => (if w.has key then .hit else .miss, w)
  | .cacheSet key ttl, o, w =>
      match o.cacheErr with
      | some err => (some err, w)
      | none => (none, { w with cache := Function.update w.cache key (some (w.clock + ttl)) })
  | .activeLoad sessionID, _, w => (w.active sessionID, w)
  | .activeStore sessionID expiry, _, w =>
      ((), { w with active := Function.update w.active sessionID (some expiry) })
  | .activeDelete sessionID, _,
      w => ((), { w with active := Function.update w.active sessionID none })
  | .isSessionRevoked sessionID, o, w =>
      match o.dbErr with
      | some err => (.error err, w)
      | none => (.ok (w.revoked sessionID), w)
  | .respond _ _, _, w => ((), w)

def env : Env → World → World
  | .elapse d, w => { w with clock := w.clock + d }
  | .setRevoked sessionID b, w => { w with revoked := Function.update w.revoked sessionID b }

/-- Threads that serve calls, one after the other. -/
def machine (jwt : ParseWithClaims) (hasChecker : Bool) : Machine Reply World Choice Unit Env where
  exec := exec
  body := fun _ _ => serve jwt hasChecker
  boot := fun _ => ()
  env := env

def Cmd.isAccept : Cmd → Bool
  | .accept => true
  | _ => false

/-! ### Within a call -/

theorem only_isBlacklisted {P : Cmd → Prop} {jti : String}
    (hget : P (.cacheGet (blacklistKey jti))) :
    Only P (isBlacklisted jti) := by
  refine ⟨hget, fun r => ?_⟩
  cases r <;> trivial

theorem only_blacklist {P : Cmd → Prop} {jti : String} {expiresAt : ℤ} (hnow : P .now)
    (hset : ∀ ttl, P (.cacheSet (blacklistKey jti) ttl)) : Only P (blacklist jti expiresAt) := by
  refine ⟨hnow, fun t => ?_⟩
  dsimp only
  split_ifs
  · trivial
  · exact ⟨hset _, fun _ => trivial⟩

theorem only_checkDatabase (claims : Claims) (now : ℤ) :
    Only (fun e => e.isAccept = false) (checkDatabase claims now) := by
  refine ⟨rfl, fun r => ?_⟩
  rcases r with _ | _ | _
  · trivial
  · exact ⟨rfl, fun _ => trivial⟩
  · dsimp only
    split
    · exact Only.bind (P := fun e : Cmd => e.isAccept = false) (only_blacklist rfl fun _ => rfl)
        fun _ => trivial
    · trivial

theorem only_checkActive (claims : Claims) :
    Only (fun e => e.isAccept = false) (checkActive claims) := by
  refine ⟨rfl, fun now => ⟨rfl, fun r => ?_⟩⟩
  cases r with
  | none => exact only_checkDatabase claims now
  | some expiry =>
    rw [useActive]
    split_ifs
    · trivial
    · exact ⟨rfl, fun _ => only_checkDatabase claims now⟩

theorem only_checkSessionRevocation (hasChecker : Bool) (claims : Claims) :
    Only (fun e => e.isAccept = false) (checkSessionRevocation hasChecker claims) := by
  refine Only.bind (P := fun e : Cmd => e.isAccept = false) (only_isBlacklisted rfl) fun r => ?_
  rcases r with _ | _ | _
  · trivial
  · dsimp only
    split_ifs
    · exact only_checkActive claims
    · trivial
  · trivial

/-! ### The clock -/

/-- No clock reading lies in the future. -/
def ClockInv (w : World) (h : History Reply) : Prop := ∀ j t, ⟨j, .now, t⟩ ∈ h → t ≤ w.clock

@[simp] theorem exec_clock (e : Cmd) (o : Choice) (w : World) : (exec e o w).2.clock = w.clock := by
  obtain ⟨request, cacheErr, dbErr⟩ := o
  cases e <;> cases cacheErr <;> cases dbErr <;> rfl

theorem ClockInv.exec {w : World} {h : History Reply} (hc : ClockInv w h) (i : ℕ) (e : Cmd)
    (o : Choice) : ClockInv (exec e o w).2 (⟨i, e, (Auth.exec e o w).1⟩ :: h) := by
  intro j t hmem
  rw [exec_clock]
  rcases List.mem_cons.1 hmem with heq | hmem
  · cases e <;> cases heq
    exact le_rfl
  · exact hc j t hmem

theorem ClockInv.env {w : World} {h : History Reply} (hc : ClockInv w h) (a : Env) :
    ClockInv (env a w) h := by
  intro j t hmem
  have hle := hc j t hmem
  cases a with
  | elapse d =>
    show t ≤ w.clock + d
    omega
  | setRevoked sessionID b => exact hle

end WolfCore.Auth
