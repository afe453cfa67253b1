import WolfCore.Auth.JWTService

/-!
# Revocation

A blacklist entry ends with the token, but golang-jwt accepts the token for the leeway longer, and a
revocation in that time writes no entry at all.  `revocation_permanent` says that a token is not
accepted by a call that starts after its revocation, in every interleaving of calls in which the
blacklist is consulted about the token before it expires; `accepted_after_revocation` is a
validation after the end of the token.
-/

namespace WolfCore.Auth

open Go Interleave

structure ExpiringToken where
  claims : Claims
  exp : ℤ
  expires : claims.expiresAt = some exp

variable {jwt : ParseWithClaims} {signed : String → Option Claims} (tok : ExpiringToken)

/-- The blacklist entries that make the token invalid. -/
def Concerns (jti : String) : Prop := jti = tok.claims.id ∨ jti = sessionKey tok.claims.sessionID

/-- A revocation of the token or of its session has returned nil. -/
def Revoked (h : History Reply) : Prop :=
  (∃ j exp, ⟨j, .respond (.revokeToken tok.claims.id exp) .done, ()⟩ ∈ h) ∨
    ∃ j exp, ⟨j, .respond (.revokeSession tok.claims.sessionID exp) .done, ()⟩ ∈ h

/-- The entries a call may write, each with the expiry it is given. -/
def Request.blacklists (signed : String → Option Claims) : Request → List (String × ℤ)
  | .validate token =>
      match signed token with
      | some claims => claims.expiresAt.toList.map fun exp => (sessionKey claims.sessionID, exp)
      | none => []
  | .revokeToken jti expiresAt => [(jti, expiresAt)]
  | .revokeSession sessionID expiresAt => [(sessionKey sessionID, expiresAt)]

/-- Calls that concern the token are made with its expiry, or a later one. -/
def OwnExpiry (signed : String → Option Claims) (_ : ℕ) (e : Cmd) (o : Choice) (_ : World)
    (_ : History Reply) : Prop :=
  e = .accept → ∀ p ∈ o.request.blacklists signed, Concerns tok p.1 → tok.exp ≤ p.2

/-- The blacklist is consulted about the token before the token expires, and its session is revoked
only if it has one. -/
def Timely (_ : ℕ) : (e : Cmd) → Choice → World → History Reply → Prop
  | .accept, o, _, _ => ∀ exp, o.request = .revokeSession tok.claims.sessionID exp →
      tok.claims.sessionID ≠ ""
  | .cacheGet key, _, w, _ => (∃ jti, Concerns tok jti ∧ key = blacklistKey jti) → w.clock < tok.exp
  | _, _, _, _ => True

/-! ### What is known of an entry -/

def EntrySet (h : History Reply) (jti : String) : Prop :=
  ∃ j ttl, ⟨j, .cacheSet (blacklistKey jti) ttl, none⟩ ∈ h

/-- An entry has been written, or the token had expired already. -/
def Settled (h : History Reply) (jti : String) : Prop :=
  EntrySet h jti ∨ ∃ j t, ⟨j, .now, t⟩ ∈ h ∧ tok.exp ≤ t

variable {tok}

theorem Settled.mono {h h' : History Reply} (hs : h ⊆ h') {jti : String}
    (hset : Settled tok h jti) :
    Settled tok h' jti := by
  rcases hset with ⟨j, ttl, hmem⟩ | ⟨j, t, hmem, ht⟩
  · exact Or.inl ⟨j, ttl, hs hmem⟩
  · exact Or.inr ⟨j, t, hs hmem, ht⟩

theorem blacklistKey_inj {jti jti' : String} (h : blacklistKey jti = blacklistKey jti') :
    jti = jti' := by
  unfold blacklistKey at h
  exact (String.append_right_inj "bl:").1 h

/-- Clock readings are past, and entries that concern the token last until it expires. -/
structure RevocationInv (tok : ExpiringToken) (w : World) (h : History Reply) : Prop where
  clock : ClockInv w h
  lasting : ∀ jti, Concerns tok jti → EntrySet h jti →
    ∃ deadline, w.cache (blacklistKey jti) = some deadline ∧ tok.exp ≤ deadline

variable (tok) in
/-- What a call knows when it takes a step. -/
def RevocationPre (signed : String → Option Claims) (i : ℕ) : Cmd → History Reply → Prop
  | .cacheSet key ttl, h => ∀ jti, Concerns tok jti → key = blacklistKey jti →
      ∃ j t, ⟨j, .now, t⟩ ∈ h ∧ tok.exp ≤ t + ttl
  | .respond (.revokeToken jti _) .done, h => Concerns tok jti → Settled tok h jti
  | .respond (.revokeSession sessionID _) .done, h =>
      (sessionID = tok.claims.sessionID → sessionID ≠ "") ∧
        (Concerns tok (sessionKey sessionID) → Settled tok h (sessionKey sessionID))
  | .respond (.validate token) (.claims _), h =>
      signed token = some tok.claims → ¬ Revoked tok (before Cmd.isAccept i h)
  | _, _ => True

theorem RevocationInv.exec {w : World} {h : History Reply} (hinv : RevocationInv tok w h) {i : ℕ}
    {e : Cmd} (hpre : RevocationPre tok signed i e h) (o : Choice) :
    RevocationInv tok (exec e o w).2 (⟨i, e, (Auth.exec e o w).1⟩ :: h) := by
  refine ⟨hinv.clock.exec i e o, fun jti hjti hset => ?_⟩
  have hold : EntrySet h jti →
      ∃ deadline, w.cache (blacklistKey jti) = some deadline ∧ tok.exp ≤ deadline :=
        hinv.lasting jti hjti
  have hcons : (∃ ttl, e = .cacheSet (blacklistKey jti) ttl) ∨ EntrySet h jti := by
    obtain ⟨j, ttl, hmem⟩ := hset
    rcases List.mem_cons.1 hmem with heq | hmem
    · exact Or.inl ⟨ttl, congrArg Logged.cmd heq.symm⟩
    · exact Or.inr ⟨j, ttl, hmem⟩
  obtain ⟨request, cacheErr, dbErr⟩ := o
  cases e with
  | cacheSet key ttl =>
    cases cacheErr with
    | some err =>
      refine hold ?_
      obtain ⟨j, ttl', hmem⟩ := hset
      rcases List.mem_cons.1 hmem with heq | hmem
      · cases heq
      · exact ⟨j, ttl', hmem⟩
    | none =>
      by_cases hkey : blacklistKey jti = key
      · obtain ⟨j, t, hmem, ht⟩ := hpre jti hjti hkey.symm
        have hle := hinv.clock j t hmem
        refine ⟨w.clock + ttl, ?_, by omega⟩
        show Function.update w.cache key (some (w.clock + ttl)) (blacklistKey jti) = _
        rw [hkey, Function.update_self]
      · have hset' : EntrySet h jti := hcons.resolve_left fun ⟨_, heq⟩ => hkey (by cases heq; rfl)
        obtain ⟨deadline, hd, hexp⟩ := hold hset'
        refine ⟨deadline, ?_, hexp⟩
        show Function.update w.cache key (some (w.clock + ttl)) (blacklistKey jti) = _
        rw [Function.update_of_ne hkey, hd]
  | cacheGet key => cases cacheErr <;> exact hold (hcons.resolve_left nofun)
  | isSessionRevoked sessionID => cases dbErr <;> exact hold (hcons.resolve_left nofun)
  | _ => exact hold (hcons.resolve_left nofun)

theorem RevocationInv.env {w : World} {h : History Reply} (hinv : RevocationInv tok w h) (a : Env) :
    RevocationInv tok (env a w) h := by
  refine ⟨hinv.clock.env a, ?_⟩
  cases a <;> exact hinv.lasting

variable (tok) in
def revocationProtocol (jwt : ParseWithClaims) (signed : String → Option Claims)
    (hasChecker : Bool) :
    Protocol (machine jwt hasChecker) where
  inv := RevocationInv tok
  pre := RevocationPre tok signed
  idle := fun _ _ _ => True
  allowed := fun i e o w h => OwnExpiry tok signed i e o w h ∧ Timely tok i e o w h
  step := fun hinv _ hpre _ => hinv.exec hpre _
  env := fun hinv => hinv.env _

/-! ### Calls -/

section

variable {hasChecker : Bool} {i : ℕ} {w : World} {h : History Reply}

/-- `Blacklist` returns nil only if the entry is settled. -/
theorem safe_blacklist {jti : String} {expiresAt : ℤ}
    (hexp : Concerns tok jti → tok.exp ≤ expiresAt) :
    Safe (revocationProtocol tok jwt signed hasChecker).contract i
      (fun r _ h => r = none → Concerns tok jti → Settled tok h jti)
      (blacklist jti expiresAt) w h := by
  refine Protocol.safe_call fun w₁ h₁ o₁ _ _ _ _ => ⟨trivial, ?_⟩
  split_ifs with httl
  · refine Protocol.safe_pure fun w₂ h₂ ho₂ _ hjti =>
      Or.inr ⟨i, w₁.clock, ho₂.mem List.mem_cons_self, ?_⟩
    have hle := hexp hjti
    have hclock : ((machine jwt hasChecker).exec .now o₁ w₁).1 = w₁.clock := rfl
    rw [hclock] at httl
    omega
  · refine Protocol.safe_call fun w₂ h₂ o₂ ho₂ _ _ _ => ⟨fun jti' hjti' hkey => ?_, ?_⟩
    · have hle := hexp (blacklistKey_inj hkey ▸ hjti')
      refine ⟨i, w₁.clock, ho₂.mem List.mem_cons_self, ?_⟩
      have hclock : ((machine jwt hasChecker).exec .now o₁ w₁).1 = w₁.clock := rfl
      rw [hclock]
      omega
    · refine Protocol.safe_pure fun w₃ h₃ ho₃ hr _ => ?_
      rw [hr] at ho₃
      exact Or.inl ⟨i, _, ho₃.mem List.mem_cons_self⟩

/-- `IsBlacklisted` returns false only if the entry was not settled when the call started. -/
theorem safe_isBlacklisted (jti : String) :
    Safe (revocationProtocol tok jwt signed hasChecker).contract i
      (fun r _ h => r = .ok false → Concerns tok jti → ¬ Settled tok (before Cmd.isAccept i h) jti)
      (isBlacklisted jti) w h := by
  refine Protocol.safe_call fun w₁ h₁ o₁ _ hinv₁ _ hallowed => ⟨trivial, ?_⟩
  have hmiss : ((machine jwt hasChecker).exec (.cacheGet (blacklistKey jti)) o₁ w₁).1 = .miss →
      Concerns tok jti → ¬ Settled tok h₁ jti := by
    intro hmiss hjti hset
    have hclock : w₁.clock < tok.exp := hallowed.2 ⟨jti, hjti, rfl⟩
    rcases hset with hset | ⟨j, t, hmem, ht⟩
    · obtain ⟨deadline, hd, hle⟩ := hinv₁.lasting jti hjti hset
      have hhas : w₁.has (blacklistKey jti) = true := by
        simp only [World.has, hd, Option.any_some, decide_eq_true_eq]
        omega
      obtain ⟨request, cacheErr, dbErr⟩ := o₁
      cases cacheErr with
      | some err => cases hmiss
      | none => simp [machine, exec, hhas] at hmiss
    · have hle := hinv₁.clock j t hmem
      omega
  cases hreply : ((machine jwt hasChecker).exec (.cacheGet (blacklistKey jti)) o₁ w₁).1 with
  | hit => exact Protocol.safe_pure fun _ _ _ => nofun
  | failed err => exact Protocol.safe_pure fun _ _ _ => nofun
  | miss =>
    refine Protocol.safe_pure fun w₂ h₂ ho₂ _ hjti hset => hmiss hreply hjti (hset.mono ?_)
    rw [before_of_others ho₂, before_cons rfl]
    exact before_suffix.subset

/-- The check behind the blacklist writes nothing that ends before the token. -/
theorem safe_checkActive {claims : Claims}
    (hexp : ∀ exp, claims.expiresAt = some exp → Concerns tok (sessionKey claims.sessionID) →
      tok.exp ≤ exp) :
    Safe (revocationProtocol tok jwt signed hasChecker).contract i (fun _ _ _ => True)
      (checkActive claims) w h := by
  have hdatabase : ∀ now w h, Safe (revocationProtocol tok jwt signed hasChecker).contract i
      (fun _ _ _ => True)
      (checkDatabase claims now) w h := by
    intro now w h
    refine Protocol.safe_call fun w₁ h₁ o₁ _ _ _ _ => ⟨trivial, ?_⟩
    cases ((machine jwt hasChecker).exec (.isSessionRevoked claims.sessionID) o₁ w₁).1 with
    | error err => exact Protocol.safe_pure fun _ _ _ => trivial
    | ok revoked =>
      cases revoked with
      | false =>
        exact Protocol.safe_call fun _ _ _ _ _ _ _ =>
          ⟨trivial, Protocol.safe_pure fun _ _ _ => trivial⟩
      | true =>
        dsimp only
        split
        · rename_i exp hexpires
          exact Protocol.safe_bind (safe_blacklist (hexp exp hexpires)) fun _ _ _ _ _ =>
            Protocol.safe_pure fun _ _ _ => trivial
        · exact Protocol.safe_pure fun _ _ _ => trivial
  refine Protocol.safe_call fun w₁ h₁ o₁ _ _ _ _ => ⟨trivial, ?_⟩
  refine Protocol.safe_call fun w₂ h₂ o₂ _ _ _ _ => ⟨trivial, ?_⟩
  cases ((machine jwt hasChecker).exec (.activeLoad claims.sessionID) o₂ w₂).1 with
  | none => exact hdatabase _ _ _
  | some expiry =>
    rw [useActive]
    split_ifs
    · exact Protocol.safe_pure fun _ _ _ => trivial
    · exact Protocol.safe_call fun _ _ _ _ _ _ _ => ⟨trivial, hdatabase _ _ _⟩

/-- The check of the session passes only if its entry was not settled when the call started. -/
theorem safe_checkSessionRevocation {claims : Claims}
    (hexp : ∀ exp, claims.expiresAt = some exp → Concerns tok (sessionKey claims.sessionID) →
      tok.exp ≤ exp) :
    Safe (revocationProtocol tok jwt signed hasChecker).contract i
      (fun r _ h => r = none → Concerns tok (sessionKey claims.sessionID) →
        ¬ Settled tok (before Cmd.isAccept i h) (sessionKey claims.sessionID))
      (checkSessionRevocation hasChecker claims) w h := by
  refine Protocol.safe_bind (safe_isBlacklisted _) fun r w₁ h₁ _ hr => ?_
  rcases r with err | _ | _
  · exact Protocol.safe_pure fun _ _ _ => nofun
  · have hnot := hr rfl
    dsimp only
    split_ifs
    · refine (Protocol.safe_within (only_checkActive claims) (safe_checkActive hexp)).mono ?_
      rintro _ _ h₂ ⟨-, hbefore⟩ - hc
      rw [hbefore]
      exact hnot hc
    · refine Protocol.safe_pure fun w₂ h₂ ho₂ _ hc => ?_
      rw [before_of_others ho₂]
      exact hnot hc
  · exact Protocol.safe_pure fun _ _ _ => nofun

/-- Claims are accepted only if no entry that concerns the token was settled when the call
started. -/
theorem safe_checkClaims {claims : Claims}
    (hexp : ∀ exp, claims.expiresAt = some exp → Concerns tok (sessionKey claims.sessionID) →
      tok.exp ≤ exp) :
    Safe (revocationProtocol tok jwt signed hasChecker).contract i
      (fun r _ h => (∃ u, r = .claims u) → claims = tok.claims →
        ¬ Settled tok (before Cmd.isAccept i h) claims.id ∧ (claims.sessionID ≠ "" →
          ¬ Settled tok (before Cmd.isAccept i h) (sessionKey claims.sessionID)))
      (checkClaims hasChecker claims) w h := by
  unfold checkClaims
  by_cases htype : claims.tokenType ≠ "access"
  · rw [if_pos htype]
    exact Protocol.safe_pure fun _ _ _ => nofun
  rw [if_neg htype]
  refine Protocol.safe_bind (safe_isBlacklisted claims.id) fun r w₁ h₁ _ hr => ?_
  rcases r with err | _ | _
  · exact Protocol.safe_pure fun _ _ _ => nofun
  · have hnot := hr rfl
    dsimp only
    split_ifs with hsession
    · refine Protocol.safe_pure fun w₂ h₂ ho₂ _ hclaims => ⟨?_, fun hne => absurd hsession hne⟩
      rw [before_of_others ho₂]
      exact hnot (Or.inl (congrArg Claims.id hclaims))
    · refine Protocol.safe_bind
        (Protocol.safe_within (only_checkSessionRevocation hasChecker claims)
        (safe_checkSessionRevocation hexp)) fun r w₂ h₂ _ hr₂ => ?_
      obtain ⟨hr₂, hbefore⟩ := hr₂
      cases r with
      | some err => exact Protocol.safe_pure fun _ _ _ => nofun
      | none =>
        refine Protocol.safe_pure fun w₃ h₃ ho₃ _ hclaims => ⟨?_, fun _ => ?_⟩
        · rw [before_of_others ho₃, hbefore]
          exact hnot (Or.inl (congrArg Claims.id hclaims))
        · rw [before_of_others ho₃]
          exact hr₂ rfl (Or.inr (by rw [hclaims]))
  · exact Protocol.safe_pure fun _ _ _ => nofun

/-- If no entry that concerns the token is settled, no revocation of it has returned nil. -/
theorem not_revoked (hkept : (revocationProtocol tok jwt signed hasChecker).Kept h)
    (hid : ¬ Settled tok h tok.claims.id)
    (hsession : tok.claims.sessionID ≠ "" → ¬ Settled tok h (sessionKey tok.claims.sessionID)) :
    ¬ Revoked tok h := by
  rintro (⟨j, exp, hmem⟩ | ⟨j, exp, hmem⟩)
  · obtain ⟨h', hsuffix, hpre⟩ := Throughout.mem hkept hmem
    exact hid (Settled.mono hsuffix.subset (hpre (Or.inl rfl)))
  · obtain ⟨h', hsuffix, hne, hset⟩ := Throughout.mem hkept hmem
    exact hsession (hne rfl) (Settled.mono hsuffix.subset (hset (Or.inr rfl)))

theorem safe_respond {request : Request} {response : Response}
    (hpre : ∀ h₁, Others i h h₁ → (revocationProtocol tok jwt signed hasChecker).Kept h₁ →
      RevocationPre tok signed i (.respond request response) h₁) :
    Safe (revocationProtocol tok jwt signed hasChecker).contract i (fun _ _ _ => True)
      (.call (.respond request response) fun _ => .pure ()) w h :=
  Protocol.safe_call fun _ h₁ _ ho _ hkept _ =>
    ⟨hpre h₁ ho hkept, Protocol.safe_pure fun _ _ _ => trivial⟩

/-- A revocation returns nil only if the entry is settled. -/
theorem safe_revocation {jti : String} {expiresAt : ℤ}
    (hexp : Concerns tok jti → tok.exp ≤ expiresAt) :
    Safe (revocationProtocol tok jwt signed hasChecker).contract i
      (fun r _ h => r = .done → Concerns tok jti → Settled tok h jti)
      ((blacklist jti expiresAt).bind fun r => .pure (revocation r)) w h := by
  refine Protocol.safe_bind (safe_blacklist hexp) fun r w₁ h₁ _ hr => ?_
  refine Protocol.safe_pure fun w₂ h₂ ho₂ hdone hc => ?_
  cases r with
  | none => exact (hr rfl hc).mono fun _ hev => ho₂.mem hev
  | some err => cases hdone

theorem safe_serveRevocation (hjwt : ChecksTokens jwt signed) (w : World) (h : History Reply) :
    Safe (revocationProtocol tok jwt signed hasChecker).contract i (fun _ _ _ => True)
      (serve jwt hasChecker) w h := by
  refine Protocol.safe_call fun w₁ h₁ o₁ _ _ _ hallowed => ⟨trivial, ?_⟩
  have hown : ∀ p ∈ o₁.request.blacklists signed, Concerns tok p.1 → tok.exp ≤ p.2 := hallowed.1 rfl
  have hsession : ∀ exp, o₁.request = .revokeSession tok.claims.sessionID exp →
      tok.claims.sessionID ≠ "" := hallowed.2
  have hrequest : ((machine jwt hasChecker).exec .accept o₁ w₁).1 = o₁.request := rfl
  rw [hrequest]
  cases hreq : o₁.request with
  | validate token =>
    rw [hreq] at hown
    refine Protocol.safe_call fun w₂ h₂ o₂ _ _ _ _ => ⟨trivial, ?_⟩
    dsimp only
    cases hparse : jwt ((machine jwt hasChecker).exec .now o₂ w₂).1 token with
    | error err => exact safe_respond fun _ _ _ => trivial
    | ok claims =>
      have hsigned := hjwt.signed_of_ok hparse
      have hexp : ∀ exp, claims.expiresAt = some exp → Concerns tok (sessionKey claims.sessionID) →
          tok.exp ≤ exp := fun exp hexpires => hown (_, exp) (by
          simp [Request.blacklists, hsigned, hexpires, sessionKey])
      refine Protocol.safe_bind (safe_checkClaims hexp) fun r w₃ h₃ _ hr => safe_respond ?_
      intro h₄ ho₄ hkept
      cases r with
      | claims u =>
        intro htoken
        cases hsigned.symm.trans htoken
        obtain ⟨hid, hsid⟩ := hr ⟨u, rfl⟩ rfl
        have hsuffix : before Cmd.isAccept i h₃ <:+ h₄ := before_of_others ho₄ ▸ before_suffix
        rw [before_of_others ho₄]
        exact not_revoked (Throughout.suffix hsuffix hkept) hid hsid
      | done => trivial
      | failed err => trivial
  | revokeToken jti expiresAt =>
    rw [hreq] at hown
    have hexp := hown (jti, expiresAt) (List.mem_singleton_self _)
    refine Protocol.safe_bind (safe_revocation hexp) fun r w₂ h₂ _ hr =>
      safe_respond fun h₃ ho₃ _ => ?_
    cases r with
    | claims u => trivial
    | done => exact fun hc => (hr rfl hc).mono fun _ hev => ho₃.mem hev
    | failed err => trivial
  | revokeSession sessionID expiresAt =>
    rw [hreq] at hown
    have hexp := hown (sessionKey sessionID, expiresAt) (List.mem_singleton_self _)
    refine Protocol.safe_call fun w₂ h₂ o₂ _ _ _ _ => ⟨trivial, ?_⟩
    refine Protocol.safe_bind (safe_revocation hexp) fun r w₃ h₃ _ hr =>
      safe_respond fun h₄ ho₄ _ => ?_
    cases r with
    | claims u => trivial
    | done =>
      refine ⟨fun hsid => ?_, fun hc => (hr rfl hc).mono fun _ hev => ho₄.mem hev⟩
      subst hsid
      exact hsession expiresAt hreq
    | failed err => trivial

end

variable (tok) in
/-- **A revoked token stays revoked**, in every interleaving of calls with its own expiry in which
the blacklist is consulted about it before it expires: no call that starts after the revocation
accepts it. -/
theorem revocation_permanent (hjwt : ChecksTokens jwt signed) (hasChecker : Bool) (w : World)
    (as : List (Action Choice Env))
    (hcalls : Along (machine jwt hasChecker) (OnStep (OwnExpiry tok signed))
      (.boot (machine jwt hasChecker) w) as)
    (htimely : Along (machine jwt hasChecker) (OnStep (Timely tok))
      (.boot (machine jwt hasChecker) w) as)
    {l h : History Reply} {i : ℕ} {token : String} (htoken : signed token = some tok.claims)
    {u : UserClaims}
    (hist : ((Pool.boot (machine jwt hasChecker) w).run (machine jwt hasChecker) as).hist =
      l ++ ⟨i, .respond (.validate token) (.claims u), ()⟩ :: h) :
    ¬ Revoked tok (before Cmd.isAccept i h) := by
  have hinv : RevocationInv tok w [] := ⟨nofun, fun _ _ => nofun⟩
  have hallowed := (hcalls.and _ htimely).mono _ fun p a hpa => hpa.1.and hpa.2
  obtain ⟨-, hkept⟩ := (revocationProtocol tok jwt signed hasChecker).run (fun _ _ => trivial)
    (fun _ _ w h _ => safe_serveRevocation hjwt w h) hinv hallowed
  rw [hist] at hkept
  exact hkept.split htoken

/-! ### A validation after the end of the token -/

/-- An access token that expires after 100 seconds. -/
def shortToken : ExpiringToken where
  claims := ⟨"t1", "u1", "", [], [], "", "access", none, some (100 * second), none⟩
  exp := 100 * second
  expires := rfl

/-- Its string is the only one with a valid signature. -/
def shortTokens (token : String) : Option Claims :=
  if token = "short-token" then some shortToken.claims else none

abbrev shortService : Machine Reply World Choice Unit Env :=
  machine (leewayParser shortTokens) false

/-- The service 90 seconds after the start. -/
def tenSecondsLeft : World := ⟨90 * second, fun _ => none, fun _ => none, fun _ => false⟩

/-- Nothing fails, and this call arrives. -/
def arrives (request : Request) : Choice := ⟨request, none, none⟩

def validation : List (Action Choice Env) :=
  [.resume 0, .step 0 (arrives (.validate "short-token")),
    .step 0 (arrives (.validate "short-token")),
    .step 0 (arrives (.validate "short-token")),
    .step 0 (arrives (.validate "short-token"))]

def revocationOfToken : List (Action Choice Env) :=
  [.resume 0, .step 0 (arrives (.revokeToken "t1" (100 * second))),
    .step 0 (arrives (.revokeToken "t1" (100 * second))),
    .step 0 (arrives (.revokeToken "t1" (100 * second))),
    .step 0 (arrives (.revokeToken "t1" (100 * second)))]

/-- Both calls are made with the expiry of the token. -/
theorem onStep_ownExpiry {request : Request}
    (hr : request = .validate "short-token" ∨ request = .revokeToken "t1" (100 * second))
    (p : Pool Reply World Unit) :
    OnStep (OwnExpiry shortToken shortTokens) p
      (.step 0 (arrives request) : Action Choice Env) := by
  simp only [OnStep]
  split
  · trivial
  · rintro - q hq -
    rcases hr with rfl | rfl <;> cases List.mem_singleton.1 hq <;> exact le_rfl

/-- The token is accepted as long as it is not revoked. -/
theorem revocation_permanent_before :
    ∃ l h u, ((Pool.boot shortService tenSecondsLeft).run shortService
        (validation ++ revocationOfToken)).hist =
      l ++ ⟨0, .respond (.validate "short-token") (.claims u), ()⟩ :: h ∧
      ¬ Revoked shortToken (before Cmd.isAccept 0 h) := by
  have hvalidate := onStep_ownExpiry (Or.inl rfl)
  have hrevoke := onStep_ownExpiry (Or.inr rfl)
  have hcalls : Along shortService (OnStep (OwnExpiry shortToken shortTokens))
      (.boot shortService tenSecondsLeft) (validation ++ revocationOfToken) :=
    ⟨trivial, hvalidate _, hvalidate _, hvalidate _, hvalidate _,
      trivial, hrevoke _, hrevoke _, hrevoke _, hrevoke _, trivial⟩
  have htimely : Along shortService (OnStep (Timely shortToken))
      (.boot shortService tenSecondsLeft) (validation ++ revocationOfToken) :=
    ⟨trivial, nofun, trivial, fun _ => by decide, trivial,
      trivial, nofun, trivial, trivial, trivial, trivial⟩
  have hist : ∃ l h u, ((Pool.boot shortService tenSecondsLeft).run shortService
        (validation ++ revocationOfToken)).hist =
      l ++ ⟨0, .respond (.validate "short-token") (.claims u), ()⟩ :: h :=
    ⟨[_, _, _, _], _, _, rfl⟩
  obtain ⟨l, h, u, hist⟩ := hist
  exact ⟨l, h, u, hist,
    revocation_permanent shortToken (leewayParser_checks shortTokens) false tenSecondsLeft _ hcalls
      htimely rfl hist⟩

/-- A token that was revoked 10 seconds before its end is accepted one second after it. -/
theorem accepted_after_revocation :
    ChecksTokens (leewayParser shortTokens) shortTokens ∧
    Along shortService (OnStep (OwnExpiry shortToken shortTokens))
      (.boot shortService tenSecondsLeft)
      (revocationOfToken ++ .env (.elapse 11000000000) :: validation) ∧
    ∃ h u, ((Pool.boot shortService tenSecondsLeft).run shortService
        (revocationOfToken ++ .env (.elapse 11000000000) :: validation)).hist =
      ⟨0, .respond (.validate "short-token") (.claims u), ()⟩ :: h ∧
      Revoked shortToken (before Cmd.isAccept 0 h) := by
  have hvalidate := onStep_ownExpiry (Or.inl rfl)
  have hrevoke := onStep_ownExpiry (Or.inr rfl)
  refine ⟨leewayParser_checks _, ⟨trivial, hrevoke _, hrevoke _, hrevoke _, hrevoke _, trivial,
    trivial, hvalidate _, hvalidate _, hvalidate _, hvalidate _, trivial⟩, _, _, rfl, ?_⟩
  exact Or.inl ⟨0, 100 * second, .head _⟩

end WolfCore.Auth
