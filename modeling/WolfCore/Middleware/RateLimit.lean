import WolfCore.RateLimit.TokenBucket

/-!
# Rate limiting by client (`infra/middleware/http/rate_limit.go`)

`PerIPRateLimiter` is a token bucket for each client, with a cap on the number of clients: a new
client that finds the map full takes the place of some other one.  Every minute the clients are
removed that have not been seen for three minutes.

* `PerIPRateLimiter`: the map and the set of its keys, which belong together;
* `decisions_eq_answers`: below the cap, the limiter is the map of entries of `TokenBucket` with
  another threshold;
* `cleanup_harmless_iff`: for both limiters, the cleanup changes no decision if and only if a bucket
  is refilled within the time after which it is removed.
-/

namespace WolfCore.RateLimit

open TokenRate

/-- `defaultMaxClients`. -/
def defaultMaxClients : ℕ := 100000

/-- The time after which `cleanupLoop` removes a client. -/
def clientThreshold : ℤ := 3 * minute

/-- `PerIPRateLimiter`: the map `clients`, and its keys.  `limit`, `burst` and `maxClients` never
change. -/
structure PerIPRateLimiter (rps burst : ℤ) where
  clients : String → Option LimiterEntry
  ips : Finset String
  mem_ips : ∀ ip, ip ∈ ips ↔ (clients ip).isSome = true

/-- `NewPerIPRateLimiter`. -/
def newPerIPRateLimiter (rps burst : ℤ) : PerIPRateLimiter rps burst := ⟨fun _ => none, ∅, by simp⟩

namespace PerIPRateLimiter

variable {rps burst : ℤ}

/-- `rl.clients[ip] = entry`. -/
def set (rl : PerIPRateLimiter rps burst) (ip : String) (entry : LimiterEntry) :
    PerIPRateLimiter rps burst where
  clients := Function.update rl.clients ip (some entry)
  ips := insert ip rl.ips
  mem_ips := fun ip' => by
    by_cases h : ip' = ip
    · subst h
      simp
    · simp [h, rl.mem_ips]

/-- `evictOne`, where the loop over the map comes to `first` first. -/
def evictOne (rl : PerIPRateLimiter rps burst) (first : String) : PerIPRateLimiter rps burst where
  clients := Function.update rl.clients first none
  ips := rl.ips.erase first
  mem_ips := fun ip' => by
    by_cases h : ip' = first
    · subst h
      simp
    · simp [h, rl.mem_ips]

/-- What `getLimiter` does before it makes a new entry. -/
def makeRoom (rl : PerIPRateLimiter rps burst) (ip first : String) : PerIPRateLimiter rps burst :=
  if ip ∉ rl.ips ∧ rl.ips.card ≥ defaultMaxClients then rl.evictOne first else rl

/-- `getLimiter`, and `Allow` of the limiter it returns.  In a call at a given time, the first
client that a loop over the map comes to is given. -/
def allow (first : String → ℤ → String) (rl : PerIPRateLimiter rps burst) (ip : String) (now : ℤ) :
    PerIPRateLimiter rps burst × Bool :=
  let rl := rl.makeRoom ip (first ip now)
  let seen := seenEntry burst now (rl.clients ip)
  let called := TokenRate.allow (limitOf rps) burst seen.limiter now
  (rl.set ip { seen with limiter := called.1 }, called.2)

/-- One round of `cleanupLoop`. -/
def cleanup (rl : PerIPRateLimiter rps burst) (now : ℤ) : PerIPRateLimiter rps burst where
  clients := fun ip => dropStale clientThreshold (rl.clients ip) now
  ips := rl.ips.filter fun ip => (dropStale clientThreshold (rl.clients ip) now).isSome
  mem_ips := fun ip => by
    rw [Finset.mem_filter, rl.mem_ips]
    refine ⟨fun h => h.2, fun h => ⟨?_, h⟩⟩
    obtain ⟨entry, hentry⟩ := Option.isSome_iff_exists.1 h
    rw [(Option.filter_eq_some_iff.1 hentry).1]
    rfl

def decisions (first : String → ℤ → String) (rps burst : ℤ) (es : List Event) : List Bool :=
  answers (allow first) cleanup (newPerIPRateLimiter rps burst) es

end PerIPRateLimiter

def clientsOf : List Event → Finset String
  | [] => ∅
  | .call ip _ :: es => insert ip (clientsOf es)
  | .cleanup _ :: es => clientsOf es

/-! ### Below the cap -/

theorem clientsOf_filter (es : List Event) : clientsOf (es.filter Event.isCall) = clientsOf es := by
  induction es with
  | nil => rfl
  | cons e es ih =>
    cases e with
    | call ip now => exact congrArg (insert ip) ih
    | cleanup now => exact ih

section

variable {rps burst : ℤ} {first : String → ℤ → String}

/-- As long as all clients find room, the keys of the map make no difference. -/
theorem answers_perIP {es : List Event} {rl : PerIPRateLimiter rps burst}
    (hcap : (rl.ips ∪ clientsOf es).card ≤ defaultMaxClients) :
    answers (PerIPRateLimiter.allow first) PerIPRateLimiter.cleanup rl es =
      Entries.answers rps burst clientThreshold rl.clients es := by
  induction es generalizing rl with
  | nil => rfl
  | cons e es ih =>
    cases e with
    | call ip now =>
      have hroom : rl.makeRoom ip (first ip now) = rl := by
        refine if_neg fun ⟨hnew, hfull⟩ => ?_
        have hsub : insert ip rl.ips ⊆ rl.ips ∪ clientsOf (.call ip now :: es) := by
          intro x hx
          rcases Finset.mem_insert.1 hx with rfl | hx
          · exact Finset.mem_union_right _ (Finset.mem_insert_self _ _)
          · exact Finset.mem_union_left _ hx
        have hcard := Finset.card_le_card hsub
        rw [Finset.card_insert_of_notMem hnew] at hcard
        omega
      have hnext : ((rl.allow first ip now).1.ips ∪ clientsOf es).card ≤ defaultMaxClients := by
        refine le_trans (Finset.card_le_card ?_) hcap
        unfold PerIPRateLimiter.allow
        rw [hroom]
        show insert ip rl.ips ∪ clientsOf es ⊆ rl.ips ∪ insert ip (clientsOf es)
        rw [Finset.insert_union, Finset.union_insert]
      have hrest := ih hnext
      unfold PerIPRateLimiter.allow at hrest
      rw [hroom] at hrest
      unfold answers PerIPRateLimiter.allow
      rw [hroom]
      exact congrArg (List.cons _) hrest
    | cleanup now =>
      refine ih (le_trans (Finset.card_le_card ?_) hcap)
      exact Finset.union_subset_union_left (Finset.filter_subset _ _)

/-- **Below the cap** the limiter is a map of entries. -/
theorem decisions_eq_answers {es : List Event} (hcap : (clientsOf es).card ≤ defaultMaxClients) :
    PerIPRateLimiter.decisions first rps burst es =
      Entries.answers rps burst clientThreshold (fun _ => none) es :=
  answers_perIP (by simpa [newPerIPRateLimiter] using hcap)

theorem clientsOf_subset {s : Finset String} {es : List Event}
    (h : ∀ ip now, .call ip now ∈ es → ip ∈ s) : clientsOf es ⊆ s := by
  induction es with
  | nil => exact Finset.empty_subset s
  | cons e es ih =>
    have hrest := ih fun ip now hmem => h ip now (List.mem_cons_of_mem _ hmem)
    cases e with
    | call ip now => exact Finset.insert_subset (h ip now List.mem_cons_self) hrest
    | cleanup now => exact hrest

theorem clientsOf_drainTrace {interval : ℤ} (hinterval : 1 ≤ interval) (last n : ℕ) :
    (clientsOf (drainTrace interval last n)).card ≤ defaultMaxClients := by
  have hone : clientsOf (drainTrace interval last n) ⊆ {"a"} := by
    rw [← clientsOf_filter, filter_isCall_drainTrace hinterval]
    refine clientsOf_subset fun ip now hmem => ?_
    rcases List.mem_append.1 hmem with hmem | hmem
    · cases List.eq_of_mem_replicate hmem
      exact Finset.mem_singleton_self _
    · cases List.eq_of_mem_replicate hmem
      exact Finset.mem_singleton_self _
  exact (Finset.card_le_card hone).trans (by decide)

end

/-! ### Cleanup -/

/-- The cleanup of a token bucket changes no decision. -/
def CleanupHarmless (rps burst : ℤ) : Prop :=
  ∀ start es, Timed cleanupInterval start es →
    TokenBucket.decisions rps burst es = TokenBucket.decisions rps burst (es.filter Event.isCall)

/-- The cleanup of the per-IP limiter changes no decision, below the cap. -/
def ClientCleanupHarmless (rps burst : ℤ) : Prop :=
  ∀ first start es, Timed minute start es → (clientsOf es).card ≤ defaultMaxClients →
    PerIPRateLimiter.decisions first rps burst es =
      PerIPRateLimiter.decisions first rps burst (es.filter Event.isCall)

theorem cleanupHarmless_iff {rps burst : ℤ} (hrps : 1 ≤ rps) (hburst : 1 ≤ burst) :
    CleanupHarmless rps burst ↔ Refills rps burst staleThreshold := by
  unfold CleanupHarmless
  simp only [TokenBucket.decisions_eq]
  have h := Entries.harmless_iff (P := fun _ => True) hrps hburst
    (by decide : 1 ≤ cleanupInterval) (by decide : staleThreshold = cleanupInterval * ((3 : ℕ) - 1))
    (by decide) trivial
  simpa using h

theorem clientCleanupHarmless_iff {rps burst : ℤ} (hrps : 1 ≤ rps) (hburst : 1 ≤ burst) :
    ClientCleanupHarmless rps burst ↔ Refills rps burst clientThreshold := by
  have h := Entries.harmless_iff (P := fun es => (clientsOf es).card ≤ defaultMaxClients) hrps
    hburst
    (by decide : 1 ≤ minute) (by decide : clientThreshold = minute * ((4 : ℕ) - 1)) (by decide)
    (clientsOf_drainTrace (by decide) _ _)
  rw [← h]
  constructor
  · intro hsame start es htimed hcap
    have := hsame (fun _ _ => "") start es htimed hcap
    rwa [decisions_eq_answers hcap, decisions_eq_answers (by rwa [clientsOf_filter])] at this
  · intro hsame first start es htimed hcap
    rw [decisions_eq_answers hcap, decisions_eq_answers (by rwa [clientsOf_filter])]
    exact hsame start es htimed hcap

/-- **When the cleanup changes no decision.**  For every rate and burst, and all traces of calls
with the cleanups at their times, `TokenBucket` answers as it does without cleanup if and only if a
bucket is refilled in ten minutes and a nanosecond, the shortest time after which an entry is
removed; and `PerIPRateLimiter`, with not more clients than its cap, if and only if it is refilled
in three minutes and a nanosecond. -/
theorem cleanup_harmless_iff {rps burst : ℤ} (hrps : 1 ≤ rps) (hburst : 1 ≤ burst) :
    (CleanupHarmless rps burst ↔ burst * second ≤ (staleThreshold + 1) * rps) ∧
    (ClientCleanupHarmless rps burst ↔ burst * second ≤ (clientThreshold + 1) * rps) :=
  ⟨cleanupHarmless_iff hrps hburst, clientCleanupHarmless_iff hrps hburst⟩

/-- The default configuration: 1000 requests per second and a burst of 2000. -/
theorem cleanup_harmless_defaults : CleanupHarmless 1000 2000 ∧ ClientCleanupHarmless 1000 2000 :=
  ⟨(cleanup_harmless_iff (by decide) (by decide)).1.2 (by decide),
    (cleanup_harmless_iff (by decide) (by decide)).2.2 (by decide)⟩

/-- One request per second.  With a burst of 601, a client that has used its burst comes back after
ten minutes and a nanosecond, when its entry was removed at the third tick: it gets 601 requests
through, instead of 600.  For the per-IP limiter the same happens with a burst of 181 after three
minutes and a nanosecond, at the fourth tick. -/
theorem cleanup_changes_decisions :
    (Timed cleanupInterval 0 (drainTrace cleanupInterval 3 601) ∧
      TokenBucket.decisions 1 601 (drainTrace cleanupInterval 3 601) ≠
        TokenBucket.decisions 1 601 ((drainTrace cleanupInterval 3 601).filter Event.isCall)) ∧
    Timed minute 0 (drainTrace minute 4 181) ∧
    (clientsOf (drainTrace minute 4 181)).card ≤ defaultMaxClients ∧
    ∀ first, PerIPRateLimiter.decisions first 1 181 (drainTrace minute 4 181) ≠
      PerIPRateLimiter.decisions first 1 181 ((drainTrace minute 4 181).filter Event.isCall) := by
  have hcap := clientsOf_drainTrace (by decide : 1 ≤ minute) 4 181
  refine ⟨⟨drainTrace_timed (by decide) (by decide) _, fun h => ?_⟩,
    drainTrace_timed (by decide) (by decide) _, hcap, fun first h => ?_⟩
  · rw [TokenBucket.decisions_eq, TokenBucket.decisions_eq] at h
    have hrefills := refills_of_drainTrace (by decide) (by decide) (by decide) (by decide)
      (by decide) h
    exact absurd hrefills (by unfold Refills; decide)
  · rw [decisions_eq_answers hcap, decisions_eq_answers (by rwa [clientsOf_filter])] at h
    have hrefills := refills_of_drainTrace (by decide) (by decide) (by decide) (by decide)
      (by decide) h
    exact absurd hrefills (by unfold Refills; decide)

end WolfCore.RateLimit
