import WolfCore.Auth.JWTService

/-!
# The negative cache of sessions

`checkSessionRevocation` caches that a session is not revoked, for 30 seconds from the clock reading
it made before it asked the database.  Validations read the clock, the cache and the database in
separate steps, so an entry may be stored long after the answer it rests on; but it ends 30 seconds
after a reading that came before that answer (`CheckedAt`).  So once a session is revoked in the
database, a token of it is accepted for less than 30 seconds (`bounded_staleness`).
-/

namespace WolfCore.Auth

open Go Interleave

variable {jwt : ParseWithClaims} {signed : String → Option Claims}

/-- The database has said that the session is not revoked, to a call that had read the clock
before. -/
def CheckedAt (h : History Reply) (sessionID : String) (t : ℤ) : Prop :=
  ∃ j h₁, (⟨j, .isSessionRevoked sessionID, .ok false⟩ :: h₁ : History Reply) <:+ h ∧
    ⟨j, .now, t⟩ ∈ h₁

/-- The expiry of an entry goes back to a check. -/
def CachedUntil (h : History Reply) (sessionID : String) (expiry : ℤ) : Prop :=
  ∃ t, expiry = t + sessionActiveCacheTTL ∧ CheckedAt h sessionID t

/-- All clock readings of the call that thread `i` is serving are before the time. -/
def ReadsBefore (i : ℕ) (h : History Reply) (t : ℤ) : Prop :=
  ∀ r, ⟨i, .now, r⟩ ∈ since Cmd.isAccept i h → r < t

theorem CachedUntil.mono {h h' : History Reply} (hs : h <:+ h') {sessionID : String} {expiry : ℤ}
    (hc : CachedUntil h sessionID expiry) : CachedUntil h' sessionID expiry := by
  obtain ⟨t, ht, j, h₁, hsuffix, hmem⟩ := hc
  exact ⟨t, ht, j, h₁, hsuffix.trans hs, hmem⟩

/-- Clock readings are past, and every entry of the negative cache goes back to a check. -/
structure StalenessInv (w : World) (h : History Reply) : Prop where
  clock : ClockInv w h
  cached : ∀ sessionID expiry, w.active sessionID = some expiry → CachedUntil h sessionID expiry

/-- What a call knows when it takes a step. -/
def StalenessPre (signed : String → Option Claims) (i : ℕ) : Cmd → History Reply → Prop
  | .activeStore sessionID expiry, h => CachedUntil h sessionID expiry
  | .respond (.validate token) (.claims _), h => ∀ claims, signed token = some claims →
      claims.sessionID ≠ "" →
        ∃ expiry, CachedUntil h claims.sessionID expiry ∧ ReadsBefore i h expiry
  | _, _ => True

theorem StalenessInv.exec {w : World} {h : History Reply} (hinv : StalenessInv w h) {i : ℕ}
    {e : Cmd} (hpre : StalenessPre signed i e h) (o : Choice) :
    StalenessInv (exec e o w).2 (⟨i, e, (Auth.exec e o w).1⟩ :: h) := by
  refine ⟨hinv.clock.exec i e o, fun sessionID expiry hactive => ?_⟩
  refine CachedUntil.mono (List.suffix_cons _ h) ?_
  obtain ⟨request, cacheErr, dbErr⟩ := o
  cases e with
  | activeStore sid exp =>
    change Function.update w.active sid (some exp) sessionID = some expiry at hactive
    by_cases hsid : sessionID = sid
    · subst hsid
      rw [Function.update_self] at hactive
      cases hactive
      exact hpre
    · rw [Function.update_of_ne hsid] at hactive
      exact hinv.cached sessionID expiry hactive
  | activeDelete sid =>
    change Function.update w.active sid none sessionID = some expiry at hactive
    by_cases hsid : sessionID = sid
    · subst hsid
      rw [Function.update_self] at hactive
      cases hactive
    · rw [Function.update_of_ne hsid] at hactive
      exact hinv.cached sessionID expiry hactive
  | cacheGet key => cases cacheErr <;> exact hinv.cached sessionID expiry hactive
  | cacheSet key ttl => cases cacheErr <;> exact hinv.cached sessionID expiry hactive
  | isSessionRevoked sid => cases dbErr <;> exact hinv.cached sessionID expiry hactive
  | _ => exact hinv.cached sessionID expiry hactive

theorem StalenessInv.env {w : World} {h : History Reply} (hinv : StalenessInv w h) (a : Env) :
    StalenessInv (env a w) h := by
  refine ⟨hinv.clock.env a, ?_⟩
  cases a <;> exact hinv.cached

def stalenessProtocol (jwt : ParseWithClaims) (signed : String → Option Claims) :
    Protocol (machine jwt true) where
  inv := StalenessInv
  pre := StalenessPre signed
  idle := fun _ _ _ => True
  allowed := fun _ _ _ _ _ => True
  step := fun hinv _ hpre _ => hinv.exec hpre _
  env := fun hinv => hinv.env _

theorem free_isBlacklisted {i : ℕ} (jti : String) :
    Only (fun e => ∀ h, (stalenessProtocol jwt signed).pre i e h) (isBlacklisted jti) :=
  only_isBlacklisted fun _ => trivial

theorem free_blacklist {i : ℕ} (jti : String) (expiresAt : ℤ) :
    Only (fun e => ∀ h, (stalenessProtocol jwt signed).pre i e h) (blacklist jti expiresAt) :=
  only_blacklist (fun _ => trivial) fun _ _ => trivial

theorem free_revocation {i : ℕ} (jti : String) (expiresAt : ℤ) :
    Only (fun e => ∀ h, (stalenessProtocol jwt signed).pre i e h)
      ((blacklist jti expiresAt).bind fun r => .pure (revocation r)) :=
  (free_blacklist jti expiresAt).bind fun _ => trivial

/-! ### Clock readings of a call -/

section

variable {i : ℕ} {w : World} {h : History Reply}

theorem ReadsBefore.mono {t t' : ℤ} (ht : t ≤ t') (hr : ReadsBefore i h t) : ReadsBefore i h t' :=
  fun r hmem => lt_of_lt_of_le (hr r hmem) ht

theorem ReadsBefore.others {h' : History Reply} {t : ℤ} (ho : Others i h h')
    (hr : ReadsBefore i h t) :
    ReadsBefore i h' t := fun r hmem => hr r (mem_since_of_others ho rfl hmem)

theorem ReadsBefore.own {e : Cmd} {reply : Reply e} {t : ℤ} (he : e.isAccept = false)
    (hnow : e ≠ .now) (hr : ReadsBefore i h t) : ReadsBefore i (⟨i, e, reply⟩ :: h) t := by
  intro r hmem
  rcases (mem_since_cons he).1 hmem with heq | hmem
  · exact absurd (congrArg Logged.cmd heq).symm hnow
  · exact hr r hmem

/-- A clock reading is the latest of its call. -/
theorem readsBefore_now (hc : ClockInv w h) :
    ReadsBefore i (⟨i, .now, w.clock⟩ :: h) (w.clock + 1) := by
  intro r hmem
  rcases (mem_since_cons rfl).1 hmem with heq | hmem
  · cases heq
    omega
  · have hle := hc i r (mem_of_mem_since hmem)
    omega

/-- The call has read the clock only before an expiry that goes back to a check of the session. -/
def Current (i : ℕ) (h : History Reply) (sessionID : String) : Prop :=
  ∃ expiry, CachedUntil h sessionID expiry ∧ ReadsBefore i h expiry

theorem Current.others {h' : History Reply} {sessionID : String} (ho : Others i h h')
    (hc : Current i h sessionID) : Current i h' sessionID := by
  obtain ⟨expiry, hcached, hreads⟩ := hc
  have hsuffix : h <:+ h' := by
    obtain ⟨l, rfl, -⟩ := ho
    exact List.suffix_append l h
  exact ⟨expiry, hcached.mono hsuffix, hreads.others ho⟩

/-! ### Calls -/

/-- The database check passes only if the session was not revoked after the clock reading. -/
theorem current_checkDatabase {claims : Claims} {now : ℤ} (hnow : ⟨i, .now, now⟩ ∈ h)
    (hreads : ReadsBefore i h (now + 1)) :
    Safe (stalenessProtocol jwt signed).contract i
      (fun r _ h => r = none → Current i h claims.sessionID) (checkDatabase claims now) w h := by
  refine Protocol.safe_call fun w₁ h₁ o₁ ho₁ _ _ _ => ⟨trivial, ?_⟩
  cases hreply : ((machine jwt true).exec (.isSessionRevoked claims.sessionID) o₁ w₁).1 with
  | error err => exact Protocol.safe_pure fun _ _ _ => nofun
  | ok revoked =>
    cases revoked with
    | true =>
      dsimp only
      split
      · refine Protocol.safe_bind (Protocol.safe_free (free_blacklist _ _)) fun _ _ _ _ _ => ?_
        exact Protocol.safe_pure fun _ _ _ => nofun
      · exact Protocol.safe_pure fun _ _ _ => nofun
    | false =>
      have hchecked : CachedUntil (⟨i, .isSessionRevoked claims.sessionID, .ok false⟩ :: h₁)
          claims.sessionID (now + sessionActiveCacheTTL) :=
        ⟨now, rfl, i, h₁, List.suffix_rfl, ho₁.mem hnow⟩
      have hreads₁ : ReadsBefore i (⟨i, .isSessionRevoked claims.sessionID, .ok false⟩ :: h₁)
          (now + sessionActiveCacheTTL) := by
        refine ReadsBefore.mono ?_ ((hreads.others ho₁).own rfl (by simp))
        simp [sessionActiveCacheTTL, second]
      have hcurrent : Current i (⟨i, .isSessionRevoked claims.sessionID, .ok false⟩ :: h₁)
          claims.sessionID := ⟨_, hchecked, hreads₁⟩
      refine Protocol.safe_call fun w₂ h₂ o₂ ho₂ _ _ _ => ⟨?_, ?_⟩
      · obtain ⟨l, rfl, -⟩ := ho₂
        exact hchecked.mono (List.suffix_append l _)
      · refine Protocol.safe_pure fun w₃ h₃ ho₃ _ => ?_
        obtain ⟨expiry, hcached, hreads₂⟩ := hcurrent.others ho₂
        exact Current.others ho₃ ⟨expiry, hcached.mono (List.suffix_cons _ _), hreads₂.own rfl
          (by simp)⟩

/-- An entry of the negative cache is used until it expires. -/
theorem current_useActive {claims : Claims} {now : ℤ} {r : Option ℤ} (hnow : ⟨i, .now, now⟩ ∈ h)
    (hreads : ReadsBefore i h (now + 1))
    (hr : ∀ expiry, r = some expiry → CachedUntil h claims.sessionID expiry) :
    Safe (stalenessProtocol jwt signed).contract i
      (fun r _ h => r = none → Current i h claims.sessionID) (useActive claims now r) w h := by
  cases r with
  | none => exact current_checkDatabase hnow hreads
  | some expiry =>
    rw [useActive]
    split_ifs with hlt
    · exact Protocol.safe_pure fun _ _ ho _ => Current.others ho
        ⟨expiry, hr expiry rfl, hreads.mono hlt⟩
    · refine Protocol.safe_call fun w₁ h₁ o₁ ho₁ _ _ _ => ⟨trivial, ?_⟩
      exact current_checkDatabase (List.mem_cons_of_mem _ (ho₁.mem hnow))
        ((hreads.others ho₁).own rfl (by simp))

theorem current_checkActive (claims : Claims) :
    Safe (stalenessProtocol jwt signed).contract i
      (fun r _ h => r = none → Current i h claims.sessionID) (checkActive claims) w h := by
  refine Protocol.safe_call fun w₁ h₁ o₁ _ hinv₁ _ _ => ⟨trivial, ?_⟩
  refine Protocol.safe_call fun w₂ h₂ o₂ ho₂ hinv₂ _ _ => ⟨trivial, ?_⟩
  refine current_useActive (List.mem_cons_of_mem _ (ho₂.mem List.mem_cons_self))
    (((readsBefore_now hinv₁.clock).others ho₂).own rfl (by simp)) fun expiry hactive => ?_
  exact (hinv₂.cached claims.sessionID expiry hactive).mono (List.suffix_cons _ _)

theorem current_checkSessionRevocation (claims : Claims) :
    Safe (stalenessProtocol jwt signed).contract i
      (fun r _ h => r = none → Current i h claims.sessionID)
      (checkSessionRevocation true claims) w h := by
  refine Protocol.safe_bind (Protocol.safe_free (free_isBlacklisted _)) fun r w₁ h₁ _ _ => ?_
  rcases r with err | _ | _
  · exact Protocol.safe_pure fun _ _ _ => nofun
  · exact current_checkActive claims
  · exact Protocol.safe_pure fun _ _ _ => nofun

theorem current_checkClaims (claims : Claims) :
    Safe (stalenessProtocol jwt signed).contract i
      (fun r _ h => (∃ u, r = .claims u) → claims.sessionID ≠ "" →
      Current i h claims.sessionID) (checkClaims true claims) w h := by
  unfold checkClaims
  by_cases htype : claims.tokenType ≠ "access"
  · rw [if_pos htype]
    exact Protocol.safe_pure fun _ _ _ => nofun
  rw [if_neg htype]
  refine Protocol.safe_bind (Protocol.safe_free (free_isBlacklisted _)) fun r w₁ h₁ _ _ => ?_
  rcases r with err | _ | _
  · exact Protocol.safe_pure fun _ _ _ => nofun
  · dsimp only
    split_ifs with hsession
    · exact Protocol.safe_pure fun _ _ _ _ hne => absurd hsession hne
    · refine Protocol.safe_bind (current_checkSessionRevocation claims) fun r w₂ h₂ _ hr => ?_
      cases r with
      | some err => exact Protocol.safe_pure fun _ _ _ => nofun
      | none => exact Protocol.safe_pure fun _ _ ho _ _ => (hr rfl).others ho
  · exact Protocol.safe_pure fun _ _ _ => nofun

theorem safe_serveStaleness (hjwt : ChecksTokens jwt signed) (w : World) (h : History Reply) :
    Safe (stalenessProtocol jwt signed).contract i (fun _ _ _ => True) (serve jwt true) w h := by
  refine Protocol.safe_call fun w₁ h₁ o₁ _ _ _ _ => ⟨trivial, ?_⟩
  cases ((machine jwt true).exec .accept o₁ w₁).1 with
  | validate token =>
    refine Protocol.safe_call fun w₂ h₂ o₂ _ _ _ _ => ⟨trivial, ?_⟩
    dsimp only
    cases hparse : jwt ((machine jwt true).exec .now o₂ w₂).1 token with
    | error err => exact Protocol.safe_free ⟨fun _ => trivial, fun _ => trivial⟩
    | ok claims =>
      have hsigned := hjwt.signed_of_ok hparse
      refine Protocol.safe_bind (current_checkClaims claims) fun r w₃ h₃ _ hr => ?_
      refine Protocol.safe_call
        fun w₄ h₄ o₄ ho₄ _ _ _ => ⟨?_, Protocol.safe_pure fun _ _ _ => trivial⟩
      cases r with
      | claims u =>
        intro claims' hsigned' hne
        cases hsigned.symm.trans hsigned'
        exact (hr ⟨u, rfl⟩ hne).others ho₄
      | done => trivial
      | failed err => trivial
  | revokeToken jti expiresAt =>
    exact Protocol.safe_free ((free_revocation jti expiresAt).bind fun _ =>
      ⟨fun _ => trivial, fun _ => trivial⟩)
  | revokeSession sessionID expiresAt =>
    exact Protocol.safe_free ⟨fun _ => trivial, fun _ =>
      (free_revocation (sessionKey sessionID) expiresAt).bind fun _ =>
        ⟨fun _ => trivial, fun _ => trivial⟩⟩

end

/-! ### Whole runs -/

/-- What holds after every run with an empty negative cache. -/
theorem stalenessInv_run (hjwt : ChecksTokens jwt signed) {w : World}
    (hw : ∀ sessionID, w.active sessionID = none) (as : List (Action Choice Env)) :
    StalenessInv ((Pool.boot (machine jwt true) w).run (machine jwt true) as).shared
        ((Pool.boot (machine jwt true) w).run (machine jwt true) as).hist ∧
      (stalenessProtocol jwt signed).Kept
        ((Pool.boot (machine jwt true) w).run (machine jwt true) as).hist := by
  have hinv : StalenessInv w [] := ⟨nofun, fun sessionID _ hactive => by simp [hw] at hactive⟩
  refine (stalenessProtocol jwt signed).run (fun _ _ => trivial)
    (fun _ _ w h _ => safe_serveStaleness hjwt w h) hinv ?_
  exact Along.of_mem _ (fun a _ p => .of_forall (fun _ _ _ _ _ => trivial) p a) _

theorem exec_revoked (e : Cmd) (o : Choice) (w : World) : (exec e o w).2.revoked = w.revoked := by
  obtain ⟨request, cacheErr, dbErr⟩ := o
  cases e <;> cases cacheErr <;> cases dbErr <;> rfl

/-- As long as a session stays revoked, the database never says that it is not. -/
theorem hist_of_staysRevoked {sessionID : String} {bs : List (Action Choice Env)}
    (hbs : ∀ a ∈ bs, a ≠ .env (.setRevoked sessionID false)) {p : Pool Reply World Unit}
    (hp : p.shared.revoked sessionID = true) :
    ∃ l, (p.run (machine jwt true) bs).hist = l ++ p.hist ∧
      ∀ ev ∈ l, ∀ j, ev ≠ ⟨j, .isSessionRevoked sessionID, .ok false⟩ := by
  refine Pool.hist_of_kept (K := fun w => w.revoked sessionID = true) (fun i e o w hw => ?_)
    (fun a ha w hw => ?_) hp
  · refine ⟨(congrFun (exec_revoked e o w) sessionID).trans hw, ?_⟩
    rintro j heq
    obtain rfl : e = .isSessionRevoked sessionID := congrArg Logged.cmd heq
    obtain ⟨request, cacheErr, dbErr⟩ := o
    cases dbErr with
    | some err => cases heq
    | none =>
      have hreply :
          ((machine jwt true).exec (.isSessionRevoked sessionID) ⟨request, cacheErr, none⟩ w).1 =
          .ok true := by simp [machine, exec, hw]
      rw [hreply] at heq
      cases heq
  · cases a with
    | elapse d => exact hw
    | setRevoked sid b =>
      show Function.update w.revoked sid b sessionID = true
      by_cases hsid : sessionID = sid
      · subst hsid
        rw [Function.update_self]
        cases b with
        | true => rfl
        | false => exact absurd rfl (hbs _ ha)
      · rw [Function.update_of_ne hsid, hw]

/-- **Bounded staleness.**  If a session is revoked in the database at some moment of a run and
stays revoked, then a call that accepts a token of the session has read the clock only at times
before 30 seconds after that moment: a validation whose clock reading is later is rejected. -/
theorem bounded_staleness (hjwt : ChecksTokens jwt signed) {w : World}
    (hw : ∀ sessionID, w.active sessionID = none)
    (as bs : List (Action Choice Env)) {sessionID : String} (hne : sessionID ≠ "")
    (hrevoked : ((Pool.boot (machine jwt true) w).run (machine jwt true) as).shared.revoked
      sessionID = true)
    (hbs : ∀ a ∈ bs, a ≠ .env (.setRevoked sessionID false)) {l h : History Reply} {i : ℕ}
    {token : String} {claims : Claims} (hsigned : signed token = some claims)
    (hclaims : claims.sessionID = sessionID) {u : UserClaims}
    (hist : ((Pool.boot (machine jwt true) w).run (machine jwt true) (as ++ bs)).hist =
      l ++ ⟨i, .respond (.validate token) (.claims u), ()⟩ :: h) :
    ∀ t, ⟨i, .now, t⟩ ∈ since Cmd.isAccept i h →
      t < ((Pool.boot (machine jwt true) w).run (machine jwt true) as).shared.clock +
        sessionActiveCacheTTL := by
  subst hclaims
  intro t ht
  obtain ⟨hinv, -⟩ := stalenessInv_run hjwt hw as
  obtain ⟨-, hkept⟩ := stalenessInv_run hjwt hw (as ++ bs)
  obtain ⟨l', hl', hfalse⟩ := hist_of_staysRevoked hbs hrevoked
  rw [← Pool.run_append] at hl'
  have hsuffix : h <:+ l' ++ ((Pool.boot (machine jwt true) w).run (machine jwt true) as).hist := by
    rw [← hl', hist]
    exact (List.suffix_cons _ h).trans (List.suffix_append l _)
  rw [hist] at hkept
  obtain ⟨_, ⟨r, rfl, j, h₁, hcheck, hr⟩, hreads⟩ := hkept.split claims hsigned hne
  -- the check behind the acceptance was made before the revocation
  have hold := suffix_of_not_mem (hcheck.trans hsuffix) fun hmem => hfalse _ hmem j rfl
  have hle := hinv.clock j r (hold.subset (List.mem_cons_of_mem _ hr))
  have hlt := hreads t ht
  omega

/-! ### The last accepted validation -/

/-- A token of the session `s1`. -/
def sessionClaims : Claims :=
  ⟨"t1", "u1", "", [], [], "s1", "access", none, some (1000 * second), none⟩

/-- One token string has a valid signature. -/
def oneToken (token : String) : Option Claims :=
  if token = "session-token" then some sessionClaims else none

abbrev sessionService : Machine Reply World Choice Unit Env := machine (leewayParser oneToken) true

def freshService : World := ⟨0, fun _ => none, fun _ => none, fun _ => false⟩

/-- A validation of the token arrives, and nothing fails. -/
def sessionChoice : Choice := ⟨.validate "session-token", none, none⟩

/-- The token is validated against the database, and then its session is revoked there. -/
def validatedThenRevoked : List (Action Choice Env) :=
  .resume 0 :: List.replicate 9 (.step 0 sessionChoice) ++ [.env (.setRevoked "s1" true)]

/-- The token is validated again, 29 seconds later. -/
def validatedAgain : List (Action Choice Env) :=
  .env (.elapse 29000000000) :: .resume 0 :: List.replicate 7 (.step 0 sessionChoice)

theorem bounded_staleness_cached : ∃ h u,
    ((Pool.boot sessionService freshService).run sessionService
        (validatedThenRevoked ++ validatedAgain)).hist =
      ⟨0, .respond (.validate "session-token") (.claims u), ()⟩ :: h ∧
    ⟨0, .now, 29 * second⟩ ∈ since Cmd.isAccept 0 h ∧
    ∀ t, ⟨0, .now, t⟩ ∈ since Cmd.isAccept 0 h → t < 30 * second := by
  have hbs : ∀ a ∈ validatedAgain, a ≠ .env (.setRevoked "s1" false) := by
    simp [validatedAgain]
  have hist : ∃ h u, ((Pool.boot sessionService freshService).run sessionService
        (validatedThenRevoked ++ validatedAgain)).hist =
      [] ++ ⟨0, .respond (.validate "session-token") (.claims u), ()⟩ :: h ∧
      ⟨0, .now, 29 * second⟩ ∈ since Cmd.isAccept 0 h :=
    ⟨_, _, rfl, .tail _ (.head _)⟩
  obtain ⟨h, u, hist, hread⟩ := hist
  refine ⟨h, u, hist, hread, fun t ht => ?_⟩
  have hsigned : oneToken "session-token" = some sessionClaims := rfl
  have hlt := bounded_staleness (leewayParser_checks oneToken) (w := freshService) (fun _ => rfl)
    validatedThenRevoked validatedAgain (show "s1" ≠ "" by decide) rfl hbs hsigned rfl hist t ht
  exact hlt

end WolfCore.Auth
