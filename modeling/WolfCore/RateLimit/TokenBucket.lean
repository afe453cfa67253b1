import WolfCore.Lib.TokenRate

/-!
# Token buckets and their cleanup (`infra/ratelimit/token_bucket.go`)

`TokenBucket` keeps a limiter of `golang.org/x/time/rate` for each key, together with the time of
the last call on the key.  Every five minutes it removes the entries that have not been seen for ten
minutes; a key that comes back later gets a new limiter, which is full.

The limiters of `x/time/rate` are token buckets over exact rationals.  A call reads the clock twice,
once for the entry and once for the limiter, here at the same time.  Times are in nanoseconds.

* `TokenBucket.allow`, `TokenBucket.removeStale`: the methods;
* `entryStep`, `dropStale`: what a call and a cleanup do to the entry of a key;
* `Matches`: two entries that answer alike from some time on, and `answers_eq_of_refills`: a
  cleanup that only removes full buckets changes no decision;
* `drainTrace`: a key that empties its bucket and comes back right after its entry was removed;
* `Entries.harmless_iff`: the cleanup changes no decision if and only if a bucket is refilled within
  the time after which it is removed.
-/

namespace WolfCore.RateLimit

open TokenRate

/-- `time.Second`. -/
def second : ℤ := 1000000000

/-- `time.Minute`. -/
def minute : ℤ := 60 * second

/-- `cleanupInterval`. -/
def cleanupInterval : ℤ := 5 * minute

/-- `staleThreshold`. -/
def staleThreshold : ℤ := 10 * minute

/-- `rate.Limit(rps)`, as tokens per nanosecond. -/
def limitOf (rps : ℤ) : ℚ := rps / second

/-- `tokenBucketEntry`; the per-IP limiter has the same entries. -/
structure LimiterEntry where
  limiter : Bucket
  lastSeen : ℤ

/-! ### The entry of a key -/

/-- The entry that `getLimiter` finds or makes, seen now. -/
def seenEntry (burst : ℤ) (now : ℤ) : Option LimiterEntry → LimiterEntry
  | some entry => { entry with lastSeen := now }
  | none => ⟨full burst now, now⟩

/-- What a call does to the entry of its key. -/
def entryStep (rps burst : ℤ) (entry : Option LimiterEntry) (now : ℤ) :
    Option LimiterEntry × Bool :=
  let seen := seenEntry burst now entry
  let called := TokenRate.allow (limitOf rps) burst seen.limiter now
  (some { seen with limiter := called.1 }, called.2)

/-- What a cleanup does to an entry: it is deleted if it was last seen before the cutoff. -/
def dropStale (threshold : ℤ) (entry : Option LimiterEntry) (now : ℤ) : Option LimiterEntry :=
  entry.filter fun e => ¬ e.lastSeen < now + -threshold

/-! ### The limiter -/

/-- `TokenBucket`; `limit` and `burst` never change. -/
structure TokenBucket (rps burst : ℤ) where
  entries : String → Option LimiterEntry

/-- `NewTokenBucket`. -/
def newTokenBucket (rps burst : ℤ) : TokenBucket rps burst := ⟨fun _ => none⟩

namespace TokenBucket

variable {rps burst : ℤ}

/-- `getLimiter`, which leaves the entry in the map, and `Allow` of the limiter in it. -/
def allow (tb : TokenBucket rps burst) (key : String) (now : ℤ) : TokenBucket rps burst × Bool :=
  let called := entryStep rps burst (tb.entries key) now
  (⟨Function.update tb.entries key called.1⟩, called.2)

/-- `removeStale`. -/
def removeStale (tb : TokenBucket rps burst) (now : ℤ) : TokenBucket rps burst :=
  ⟨fun key => dropStale staleThreshold (tb.entries key) now⟩

end TokenBucket

/-! ### Traces -/

/-- A call of `Allow`, or a run of the cleanup. -/
inductive Event
  | call (key : String) (now : ℤ)
  | cleanup (now : ℤ)
  deriving DecidableEq

namespace Event

/-- When it happens. -/
def time : Event → ℤ
  | call _ now => now
  | cleanup now => now

def isCall : Event → Bool
  | call _ _ => true
  | cleanup _ => false

end Event

def answers {σ : Type} (allow : σ → String → ℤ → σ × Bool) (cleanup : σ → ℤ → σ) :
    σ → List Event → List Bool
  | _, [] => []
  | s, .call key now :: es => (allow s key now).2 :: answers allow cleanup (allow s key now).1 es
  | s, .cleanup now :: es => answers allow cleanup (cleanup s now) es

/-- The cleanups run at their times: the next one is the `k + 1`st tick after the start. -/
def OnSchedule (interval start : ℤ) : ℤ → List Event → Prop
  | _, [] => True
  | k, .call _ now :: es =>
      start + interval * k ≤ now ∧ now ≤ start + interval * (k + 1) ∧ OnSchedule interval start k es
  | k, .cleanup now :: es =>
      now = start + interval * (k + 1) ∧ OnSchedule interval start (k + 1) es

/-- A trace of a limiter that was started at `start`. -/
structure Timed (interval start : ℤ) (es : List Event) : Prop where
  inOrder : es.Pairwise fun e e' => e.time ≤ e'.time
  onSchedule : OnSchedule interval start 0 es

/-! ### Maps of entries -/

abbrev Entries := String → Option LimiterEntry

def Entries.allow (rps burst : ℤ) (m : Entries) (key : String) (now : ℤ) : Entries × Bool :=
  let called := entryStep rps burst (m key) now
  (Function.update m key called.1, called.2)

def Entries.clean (threshold : ℤ) (m : Entries) (now : ℤ) : Entries :=
  fun key => dropStale threshold (m key) now

def Entries.after (rps burst threshold : ℤ) : Entries → List Event → Entries
  | m, [] => m
  | m, .call key now :: es => after rps burst threshold (m.allow rps burst key now).1 es
  | m, .cleanup now :: es => after rps burst threshold (m.clean threshold now) es

section

variable (rps burst threshold : ℤ)

/-- The answers of a limiter whose entries are those of a map. -/
def Entries.answers (m : Entries) (es : List Event) : List Bool :=
  RateLimit.answers (Entries.allow rps burst) (Entries.clean threshold) m es

/-- The tokens of a key at a time; a key without an entry would get a full bucket. -/
def levelOf (entry : Option LimiterEntry) (now : ℤ) : ℚ :=
  match entry with
  | some e => level (limitOf rps) burst e.limiter now
  | none => burst

/-- An entry that was last seen before a time, and whose bucket is older than that. -/
def SaneEntry (entry : Option LimiterEntry) (now : ℤ) : Prop :=
  ∀ e, entry = some e → Sane e.limiter e.lastSeen ∧ e.lastSeen ≤ now

/-- Two entries with as many tokens at a time. -/
structure Matches (now : ℤ) (entry entry' : Option LimiterEntry) : Prop where
  level : levelOf rps burst entry now = levelOf rps burst entry' now
  left : SaneEntry entry now
  right : SaneEntry entry' now

end

section Entry

variable {rps burst threshold now : ℤ} {entry entry' : Option LimiterEntry}

theorem limitOf_nonneg (hrps : 1 ≤ rps) : 0 ≤ limitOf rps := by
  have : (0 : ℚ) ≤ rps := by exact_mod_cast (by omega : (0 : ℤ) ≤ rps)
  unfold limitOf second
  positivity

theorem SaneEntry.later (h : SaneEntry entry now) {later : ℤ} (hlater : now ≤ later) :
    SaneEntry entry later := fun e he => ⟨(h e he).1, (h e he).2.trans hlater⟩

/-- The level at one time determines that at all later times. -/
theorem levelOf_later (hrps : 1 ≤ rps) (h : SaneEntry entry now) {later : ℤ}
    (hlater : now ≤ later) :
    levelOf rps burst entry later =
      min (burst : ℚ) (levelOf rps burst entry now + (later - now) * limitOf rps) := by
  cases entry with
  | none =>
    have : (now : ℚ) ≤ later := by exact_mod_cast hlater
    have hgain : 0 ≤ ((later : ℚ) - now) * limitOf rps :=
      mul_nonneg (by linarith) (limitOf_nonneg hrps)
    exact (min_eq_left (le_add_of_nonneg_right hgain)).symm
  | some e =>
    obtain ⟨hsane, hseen⟩ := h e rfl
    exact level_later (limitOf_nonneg hrps) (hsane.last.trans hseen) hlater

theorem levelOf_seen (hrps : 1 ≤ rps) :
    level (limitOf rps) burst (seenEntry burst now entry).limiter now =
      levelOf rps burst entry now := by
  cases entry with
  | none => exact level_full (limitOf_nonneg hrps)
  | some e => rfl

theorem entryStep_out (hrps : 1 ≤ rps) :
    (entryStep rps burst entry now).2 = decide (1 ≤ levelOf rps burst entry now) := by
  rw [← levelOf_seen hrps]
  exact allow_out

theorem levelOf_entryStep (hrps : 1 ≤ rps) :
    levelOf rps burst (entryStep rps burst entry now).1 now =
      if 1 ≤ levelOf rps burst entry now then levelOf rps burst entry now - 1
      else levelOf rps burst entry now := by
  have h : level (limitOf rps) burst (TokenRate.allow (limitOf rps) burst
      (seenEntry burst now entry).limiter now).1 now = _ := level_allow
  rw [levelOf_seen hrps] at h
  exact h

theorem seenEntry_sane (hburst : 1 ≤ burst) (h : SaneEntry entry now) :
    Sane (seenEntry burst now entry).limiter now ∧ (seenEntry burst now entry).lastSeen = now := by
  cases entry with
  | none =>
    have hpos : (0 : ℚ) ≤ burst := by exact_mod_cast (by omega : (0 : ℤ) ≤ burst)
    exact ⟨⟨hpos, le_rfl⟩, rfl⟩
  | some e => exact ⟨(h e rfl).1.later (h e rfl).2, rfl⟩

theorem saneEntry_step (hburst : 1 ≤ burst) (h : SaneEntry entry now) :
    SaneEntry (entryStep rps burst entry now).1 now := by
  obtain ⟨hsane, hseen⟩ := seenEntry_sane hburst h
  intro e he
  cases he
  simp only [hseen]
  exact ⟨sane_allow hsane, le_rfl⟩

theorem levelOf_nonneg (hrps : 1 ≤ rps) (hburst : 1 ≤ burst) (h : SaneEntry entry now) :
    0 ≤ levelOf rps burst entry now := by
  rw [← levelOf_seen hrps]
  have hpos : (0 : ℚ) ≤ burst := by exact_mod_cast (by omega : (0 : ℤ) ≤ burst)
  exact level_nonneg (limitOf_nonneg hrps) hpos (seenEntry_sane hburst h).1.tokens

theorem saneEntry_dropStale (h : SaneEntry entry now) :
    SaneEntry (dropStale threshold entry now) now := by
  intro e he
  exact h e (Option.filter_eq_some_iff.1 he).1

/-! ### Two runs -/

theorem Matches.later (hrps : 1 ≤ rps) (h : Matches rps burst now entry entry') {later : ℤ}
    (hlater : now ≤ later) : Matches rps burst later entry entry' where
  level := by
    rw [levelOf_later hrps h.left hlater, levelOf_later hrps h.right hlater, h.level]
  left := h.left.later hlater
  right := h.right.later hlater

/-- Entries that match answer alike, and match again afterwards. -/
theorem Matches.step (hrps : 1 ≤ rps) (hburst : 1 ≤ burst)
    (h : Matches rps burst now entry entry') :
    (entryStep rps burst entry now).2 = (entryStep rps burst entry' now).2 ∧
      Matches rps burst now (entryStep rps burst entry now).1
        (entryStep rps burst entry' now).1 := by
  refine ⟨by rw [entryStep_out hrps, entryStep_out hrps, h.level], ?_, saneEntry_step hburst h.left,
    saneEntry_step hburst h.right⟩
  rw [levelOf_entryStep hrps, levelOf_entryStep hrps, h.level]

/-- The threshold is long enough to refill a bucket. -/
def Refills (rps burst threshold : ℤ) : Prop := burst * second ≤ (threshold + 1) * rps

theorem refills_iff :
    Refills rps burst threshold ↔ (burst : ℚ) ≤ (threshold + 1) * limitOf rps := by
  have hsecond : (0 : ℚ) < second := by norm_num [second]
  unfold limitOf Refills
  rw [← mul_div_assoc, le_div_iff₀ hsecond]
  exact_mod_cast Iff.rfl

/-- An entry that is removed has a full bucket. -/
theorem Matches.dropStale (hrps : 1 ≤ rps) (hrefills : Refills rps burst threshold)
    (h : Matches rps burst now entry entry') :
    Matches rps burst now (dropStale threshold entry now) entry' := by
  refine ⟨?_, saneEntry_dropStale h.left, h.right⟩
  rw [← h.level]
  cases entry with
  | none => rfl
  | some e =>
    by_cases hstale : e.lastSeen < now + -threshold
    · have hnone : RateLimit.dropStale threshold (some e) now = none := by
        simp [RateLimit.dropStale, Option.filter, hstale]
      rw [hnone]
      obtain ⟨hsane, hseen⟩ := h.left e rfl
      refine (level_of_idle (hsane.later hseen) ?_).symm
      -- it was left alone for longer than the threshold, by at least a nanosecond
      have hidle : threshold + 1 ≤ now - e.limiter.last := by
        have := hsane.last
        omega
      have hidle' : (threshold : ℚ) + 1 ≤ now - e.limiter.last := by exact_mod_cast hidle
      exact (refills_iff.1 hrefills).trans
        (mul_le_mul_of_nonneg_right hidle' (limitOf_nonneg hrps))
    · have hsome : RateLimit.dropStale threshold (some e) now = some e := by
        simp [RateLimit.dropStale, Option.filter, hstale]
      rw [hsome]

end Entry

/-! ### Maps -/

theorem answers_append {rps burst threshold : ℤ} (m : Entries) (es es' : List Event) :
    m.answers rps burst threshold (es ++ es') = m.answers rps burst threshold es ++
      (m.after rps burst threshold es).answers rps burst threshold es' := by
  induction es generalizing m with
  | nil => rfl
  | cons e es ih =>
    cases e with
    | call key now => exact congrArg (List.cons _) (ih _)
    | cleanup now => exact ih _

section

variable {rps burst threshold : ℤ} (hrps : 1 ≤ rps) (hburst : 1 ≤ burst)
include hrps hburst

/-- **A cleanup that only removes full buckets changes no decision**, whenever it runs. -/
theorem answers_eq_of_refills (hrefills : Refills rps burst threshold) {es : List Event}
    (hsorted : es.Pairwise fun e e' => e.time ≤ e'.time) {now : ℤ} (hnow : ∀ e ∈ es, now ≤ e.time)
    {m m' : Entries} (hm : ∀ key, Matches rps burst now (m key) (m' key)) :
    m.answers rps burst threshold es = m'.answers rps burst threshold (es.filter Event.isCall) := by
  induction es generalizing m m' now with
  | nil => rfl
  | cons e es ih =>
    obtain ⟨hfirst, hrest⟩ := List.pairwise_cons.1 hsorted
    have hm' : ∀ key, Matches rps burst e.time (m key) (m' key) :=
      fun key => (hm key).later hrps (hnow e List.mem_cons_self)
    cases e with
    | call key time =>
      obtain ⟨hout, hnext⟩ := (hm' key).step hrps hburst
      refine congrArg₂ List.cons hout (ih hrest hfirst fun key' => ?_)
      by_cases hkey : key' = key
      · subst hkey
        simpa [Entries.allow, Event.time] using hnext
      · simpa [Entries.allow, hkey] using hm' key'
    | cleanup time => exact ih hrest hfirst fun key => (hm' key).dropStale hrps hrefills

/-! ### A key that comes back too early -/

/-- Calls on one key at one time are all allowed if there are enough tokens for them. -/
theorem answers_replicate_iff {key : String} {now : ℤ} (n : ℕ) {m : Entries}
    (hm : SaneEntry (m key) now) :
    m.answers rps burst threshold (List.replicate n (.call key now)) = List.replicate n true ↔
      (n : ℚ) ≤ levelOf rps burst (m key) now := by
  induction n generalizing m with
  | zero =>
    have := levelOf_nonneg hrps hburst hm
    exact iff_of_true rfl (by simpa using this)
  | succ n ih =>
    have hself : (m.allow rps burst key now).1 key = (entryStep rps burst (m key) now).1 :=
      Function.update_self _ _ _
    have hnext := ih (m := (m.allow rps burst key now).1) (hself ▸ saneEntry_step hburst hm)
    rw [hself, levelOf_entryStep hrps] at hnext
    show (entryStep rps burst (m key) now).2 :: Entries.answers rps burst threshold
        (m.allow rps burst key now).1 (List.replicate n (.call key now)) = true :: _ ↔ _
    rw [List.cons.injEq, hnext, entryStep_out hrps, decide_eq_true_eq]
    push_cast
    constructor
    · rintro ⟨hone, hle⟩
      rw [if_pos hone] at hle
      linarith
    · intro hle
      have hone : 1 ≤ levelOf rps burst (m key) now := by
        have : (0 : ℚ) ≤ n := Nat.cast_nonneg n
        linarith
      rw [if_pos hone]
      exact ⟨hone, by linarith⟩

variable (threshold) in
theorem after_replicate (key : String) {now : ℤ} (n : ℕ) {m : Entries} (hm : SaneEntry (m key) now)
    (hn : (n : ℚ) ≤ levelOf rps burst (m key) now) :
    SaneEntry (m.after rps burst threshold (List.replicate n (.call key now)) key) now ∧
    levelOf rps burst (m.after rps burst threshold (List.replicate n (.call key now)) key) now =
      levelOf rps burst (m key) now - n ∧
    (0 < n → ∃ e, m.after rps burst threshold (List.replicate n (.call key now)) key = some e ∧
      e.lastSeen = now) := by
  induction n generalizing m with
  | zero => exact ⟨hm, by simp [Entries.after], fun h => absurd h (lt_irrefl 0)⟩
  | succ n ih =>
    have hself : (m.allow rps burst key now).1 key = (entryStep rps burst (m key) now).1 :=
      Function.update_self _ _ _
    have hone : 1 ≤ levelOf rps burst (m key) now := by
      have : (0 : ℚ) ≤ n := Nat.cast_nonneg n
      push_cast at hn
      linarith
    have hlevel : levelOf rps burst (entryStep rps burst (m key) now).1 now = _ :=
      levelOf_entryStep hrps
    rw [if_pos hone, ← hself] at hlevel
    have hnext := ih (m := (m.allow rps burst key now).1) (hself ▸ saneEntry_step hburst hm)
      (by rw [hlevel]; push_cast at hn; linarith)
    rw [hlevel] at hnext
    refine ⟨hnext.1, hnext.2.1.trans (by push_cast; ring), fun _ => ?_⟩
    by_cases hpos : 0 < n
    · exact hnext.2.2 hpos
    · obtain rfl : n = 0 := by omega
      exact ⟨_, hself, (seenEntry_sane hburst hm).2⟩

end

/-- The cleanups after the `k`th tick. -/
def ticks (interval : ℤ) : ℤ → ℕ → List Event
  | _, 0 => []
  | k, n + 1 => .cleanup (interval * (k + 1)) :: ticks interval (k + 1) n

/-- A key empties its bucket right before the first tick, and comes back right after the last
one. -/
def drainTrace (interval : ℤ) (last n : ℕ) : List Event :=
  List.replicate n (.call "a" (interval - 1)) ++
    (ticks interval 0 last ++ List.replicate n (.call "a" (interval * last)))

theorem time_of_mem_ticks {interval : ℤ} (hinterval : 1 ≤ interval) {k : ℤ} {n : ℕ} {e : Event}
    (h : e ∈ ticks interval k n) :
    interval * (k + 1) ≤ e.time ∧ e.time ≤ interval * (k + n) ∧ e.isCall = false := by
  induction n generalizing k with
  | zero => cases h
  | succ n ih =>
    rcases List.mem_cons.1 h with rfl | h
    · refine ⟨le_rfl, ?_, rfl⟩
      show interval * (k + 1) ≤ _
      push_cast
      nlinarith
    · obtain ⟨hlow, hhigh, hcall⟩ := ih h
      push_cast
      exact ⟨by nlinarith, by linarith, hcall⟩

theorem ticks_inOrder {interval : ℤ} (hinterval : 1 ≤ interval) (k : ℤ) (n : ℕ) :
    (ticks interval k n).Pairwise fun e e' => e.time ≤ e'.time := by
  induction n generalizing k with
  | zero => exact .nil
  | succ n ih =>
    refine List.pairwise_cons.2 ⟨fun e he => ?_, ih _⟩
    have hlow := (time_of_mem_ticks hinterval he).1
    show interval * (k + 1) ≤ e.time
    nlinarith

theorem onSchedule_replicate {interval start k now : ℤ} {key : String} {es : List Event}
    (hlow : start + interval * k ≤ now) (hhigh : now ≤ start + interval * (k + 1))
    (h : OnSchedule interval start k es) (n : ℕ) :
    OnSchedule interval start k (List.replicate n (.call key now) ++ es) := by
  induction n with
  | zero => exact h
  | succ n ih => exact ⟨hlow, hhigh, ih⟩

theorem onSchedule_ticks {interval k : ℤ} {n : ℕ} {es : List Event}
    (h : OnSchedule interval 0 (k + n) es) :
    OnSchedule interval 0 k (ticks interval k n ++ es) := by
  induction n generalizing k with
  | zero => simpa [ticks] using h
  | succ n ih =>
    refine ⟨(zero_add _).symm, ih ?_⟩
    have hk : k + 1 + n = k + (n + 1 : ℕ) := by
      push_cast
      ring
    rwa [hk]

theorem drainTrace_timed {interval : ℤ} (hinterval : 1 ≤ interval) {last : ℕ} (hlast : 1 ≤ last)
    (n : ℕ) : Timed interval 0 (drainTrace interval last n) := by
  have hmul : interval ≤ interval * last := by
    have : (1 : ℤ) ≤ last := by exact_mod_cast hlast
    nlinarith
  have hsame : ∀ now, (List.replicate n (Event.call "a" now)).Pairwise fun e e' =>
      e.time ≤ e'.time := fun now => List.pairwise_replicate.2 (Or.inr le_rfl)
  refine ⟨List.pairwise_append.2 ⟨hsame _, List.pairwise_append.2 ⟨ticks_inOrder hinterval 0 last,
    hsame _, fun e he e' he' => ?_⟩, fun e he e' he' => ?_⟩, ?_⟩
  · have htick := (time_of_mem_ticks hinterval he).2.1
    rw [List.eq_of_mem_replicate he']
    simpa [Event.time] using htick
  · rw [List.eq_of_mem_replicate he]
    show interval - 1 ≤ e'.time
    rcases List.mem_append.1 he' with he' | he'
    · have htick := (time_of_mem_ticks hinterval he').1
      linarith
    · rw [List.eq_of_mem_replicate he']
      show interval - 1 ≤ interval * last
      linarith
  · refine onSchedule_replicate (by linarith) (by linarith) (onSchedule_ticks ?_) n
    have hnil : OnSchedule interval 0 last [] := trivial
    have hend : OnSchedule interval 0 last (List.replicate n (.call "a" (interval * last)) ++ []) :=
      onSchedule_replicate (by linarith) (by linarith) hnil n
    simpa using hend

/-! ### With and without cleanup -/

section

variable {rps burst threshold : ℤ}

/-- An entry that is stale at the last tick is gone. -/
theorem after_ticks {interval k : ℤ} {n : ℕ} {m : Entries} {key : String}
    (h : ∀ e, m key = some e → 1 ≤ n ∧ e.lastSeen < interval * (k + n) - threshold) :
    m.after rps burst threshold (ticks interval k n) key = none := by
  induction n generalizing k m with
  | zero =>
    cases hm : m key with
    | none => exact hm
    | some e => exact absurd (h e hm).1 (by omega)
  | succ n ih =>
    refine ih fun e he => ?_
    obtain ⟨hm, hfresh⟩ := Option.filter_eq_some_iff.1 he
    have hstale := (h e hm).2
    rw [decide_eq_true_eq, not_lt] at hfresh
    push_cast at hstale
    -- at the last tick it would have been dropped
    rcases Nat.eq_zero_or_pos n with rfl | hpos
    · push_cast at hstale
      exact absurd hfresh (by linarith)
    · exact ⟨hpos, by linarith⟩

theorem answers_ticks (interval k : ℤ) (n : ℕ) (m : Entries) :
    m.answers rps burst threshold (ticks interval k n) = [] := by
  induction n generalizing k m with
  | zero => rfl
  | succ n ih => exact ih _ _

theorem filter_isCall_drainTrace {interval : ℤ} (hinterval : 1 ≤ interval) (last n : ℕ) :
    (drainTrace interval last n).filter Event.isCall =
      List.replicate n (.call "a" (interval - 1)) ++
        List.replicate n (.call "a" (interval * last)) := by
  have hticks : (ticks interval 0 last).filter Event.isCall = [] :=
    List.filter_eq_nil_iff.2 fun e he => by simp [(time_of_mem_ticks hinterval he).2.2]
  have hcalls : ∀ now, (List.replicate n (Event.call "a" now)).filter Event.isCall =
      List.replicate n (.call "a" now) := fun now => by simp [Event.isCall]
  rw [drainTrace, List.filter_append, List.filter_append, hticks, hcalls, hcalls, List.nil_append]

variable (hrps : 1 ≤ rps) (hburst : 1 ≤ burst) {interval : ℤ} (hinterval : 1 ≤ interval) {last : ℕ}
  (hthreshold : threshold = interval * (last - 1)) (hlast : 1 ≤ last)
include hrps hburst hinterval hthreshold hlast

/-- If the key that comes back is treated as without cleanup, its bucket was refilled. -/
theorem refills_of_drainTrace
    (h : Entries.answers rps burst threshold (fun _ => none)
        (drainTrace interval last burst.toNat) =
      Entries.answers rps burst threshold (fun _ => none)
        ((drainTrace interval last burst.toNat).filter Event.isCall)) :
    Refills rps burst threshold := by
  have hn : (burst.toNat : ℚ) = burst := by
    have : (burst.toNat : ℤ) = burst := Int.toNat_of_nonneg (by omega)
    exact_mod_cast this
  have hempty : SaneEntry none (interval - 1) := nofun
  obtain ⟨hsane, hlevel, hseen⟩ := after_replicate threshold hrps hburst "a" burst.toNat
    (m := fun _ => none) hempty hn.le
  obtain ⟨e, he, hlastSeen⟩ := hseen (by omega)
  rw [filter_isCall_drainTrace hinterval, drainTrace, answers_append, answers_append,
    answers_append, answers_ticks, List.nil_append] at h
  have hsecond := List.append_cancel_left h
  generalize Entries.after rps burst threshold (fun _ => none)
    (List.replicate burst.toNat (.call "a" (interval - 1))) = m at hsane hlevel he hsecond
  -- with cleanup the key has a new bucket
  have hgone : m.after rps burst threshold (ticks interval 0 last) "a" = none := by
    refine after_ticks fun e' he' => ⟨hlast, ?_⟩
    rw [he] at he'
    cases he'
    rw [hlastSeen, hthreshold]
    linarith
  have hfull : SaneEntry (m.after rps burst threshold (ticks interval 0 last) "a")
      (interval * last) := by
    rw [hgone]
    exact nofun
  rw [(answers_replicate_iff hrps hburst burst.toNat hfull).2 (by rw [hgone]; exact hn.le)]
    at hsecond
  -- so it has as many tokens without
  have hlater : interval - 1 ≤ interval * last := by
    have : (1 : ℤ) ≤ last := by exact_mod_cast hlast
    nlinarith
  have htokens :=
    (answers_replicate_iff hrps hburst burst.toNat (hsane.later hlater)).1 hsecond.symm
  rw [levelOf_later hrps hsane hlater, hlevel, hn] at htokens
  refine refills_iff.2 ((htokens.trans (min_le_right _ _)).trans (le_of_eq ?_))
  rw [hthreshold]
  simp only [levelOf]
  push_cast
  ring

/-- The cleanup of a map changes no decision, in traces among which is that of the key that comes
back, if and only if buckets are refilled in time. -/
theorem Entries.harmless_iff {P : List Event → Prop}
    (hP : P (drainTrace interval last burst.toNat)) :
    (∀ start es, Timed interval start es → P es →
      Entries.answers rps burst threshold (fun _ => none) es =
        Entries.answers rps burst threshold (fun _ => none) (es.filter Event.isCall)) ↔
      Refills rps burst threshold := by
  constructor
  · intro h
    exact refills_of_drainTrace hrps hburst hinterval hthreshold hlast
      (h 0 _ (drainTrace_timed hinterval hlast _) hP)
  · intro hrefills start es htimed _
    cases es with
    | nil => rfl
    | cons e es =>
      have hfirst : ∀ e' ∈ e :: es, e.time ≤ e'.time := by
        intro e' he'
        rcases List.mem_cons.1 he' with rfl | he'
        · exact le_rfl
        · exact (List.pairwise_cons.1 htimed.inOrder).1 e' he'
      exact answers_eq_of_refills hrps hburst hrefills htimed.inOrder hfirst
        fun key => ⟨rfl, nofun, nofun⟩

end

def TokenBucket.decisions (rps burst : ℤ) (es : List Event) : List Bool :=
  answers TokenBucket.allow TokenBucket.removeStale (newTokenBucket rps burst) es

theorem TokenBucket.decisions_eq (rps burst : ℤ) (es : List Event) :
    TokenBucket.decisions rps burst es =
      Entries.answers rps burst staleThreshold (fun _ => none) es := by
  have h : ∀ (tb : TokenBucket rps burst), answers TokenBucket.allow TokenBucket.removeStale tb es =
      Entries.answers rps burst staleThreshold tb.entries es := by
    induction es with
    | nil => exact fun _ => rfl
    | cons e es ih =>
      intro tb
      cases e with
      | call key now => exact congrArg (List.cons _) (ih _)
      | cleanup now => exact ih _
  exact h _

end WolfCore.RateLimit
