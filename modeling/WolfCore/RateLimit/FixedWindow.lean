import WolfCore.RateLimit.Strategy

/-!
# Fixed windows (`infra/ratelimit/fixed_window.go`)

`FixedWindow` counts the calls on a key since the start of its window.  A window starts with the
first call on the key, and again with the first call after the window has expired; that call is
allowed without a look at the rate.

* `allow`: the method, and `fixedWindow`, the limiter as a family with one entry for each key;
* `Bounded`: at most `rate` calls from one start of a window to the next, and twice as many in any
  interval as long as the window;
* `bounded_iff`: this is so if and only if the rate is positive or there are no calls.
-/

namespace WolfCore.RateLimit

open Keyed

/-- `fixedWindowEntry`. -/
structure FixedWindowEntry where
  count : ℤ
  windowStart : ℤ
  deriving DecidableEq

/-- `FixedWindow`; `rate` and `window` never change. -/
structure FixedWindow (rate window : ℤ) where
  entries : String → Option FixedWindowEntry

/-- `NewFixedWindow`. -/
def newFixedWindow (rate window : ℤ) : FixedWindow rate window := ⟨fun _ => none⟩

variable {rate window : ℤ}

/-- `FixedWindow.Allow`, at the time `now`. -/
def FixedWindow.allow (fw : FixedWindow rate window) (key : String) (now : ℤ) :
    FixedWindow rate window × Bool :=
  match fw.entries key with
  | none => (⟨Function.update fw.entries key (some ⟨1, now⟩)⟩, true)
  | some entry =>
      if now > entry.windowStart + window then
        (⟨Function.update fw.entries key (some ⟨1, now⟩)⟩, true)
      else if entry.count ≥ rate then (fw, false)
      else (⟨Function.update fw.entries key (some { entry with count := entry.count + 1 })⟩, true)

/-- What a call does to the entry of its key. -/
def fixedStep (rate window : ℤ) : Option FixedWindowEntry → ℤ → Option FixedWindowEntry × Bool
  | none, now => (some ⟨1, now⟩, true)
  | some entry, now =>
      if now > entry.windowStart + window then (some ⟨1, now⟩, true)
      else if entry.count ≥ rate then (some entry, false)
      else (some { entry with count := entry.count + 1 }, true)

/-- The limiter, with one entry for each key. -/
def fixedWindow (rate window : ℤ) :
    Strategy (FixedWindow rate window) (Option FixedWindowEntry) where
  act := FixedWindow.allow
  entry := FixedWindow.entries
  step := fixedStep rate window
  act_out := by
    intro fw key now
    unfold FixedWindow.allow
    cases fw.entries key with
    | none => rfl
    | some entry =>
      simp only [fixedStep]
      split_ifs <;> rfl
  entry_act := by
    intro fw key now
    unfold FixedWindow.allow
    cases hentry : fw.entries key with
    | none => rfl
    | some entry =>
      simp only [fixedStep]
      split_ifs
      · rfl
      · exact (Function.update_eq_self_iff.2 hentry.symm).symm
      · rfl

/-- The start of the window a call was counted in. -/
def startOf (v : Visit ℤ (Option FixedWindowEntry) Bool) : Option ℤ := v.after.map (·.windowStart)

/-- How many calls were allowed in the window that started at `s`. -/
def allowedFrom (s : ℤ) (vs : List (Visit ℤ (Option FixedWindowEntry) Bool)) : ℕ :=
  vs.countP fun v => v.out && decide (startOf v = some s)

def FixedWindow.decisions (rate window : ℤ) (calls : List (String × ℤ)) :
    List (String × Visit ℤ (Option FixedWindowEntry) Bool) :=
  (fixedWindow rate window).log (newFixedWindow rate window) calls

/-- At most `rate` calls on a key are allowed in each of its windows, and at most `2 * rate` in any
closed interval of the length of the window. -/
structure Bounded (rate window : ℤ) (calls : List (String × ℤ)) : Prop where
  perWindow : ∀ key s,
    (allowedFrom s (Family.onKey key (FixedWindow.decisions rate window calls)) : ℤ) ≤ rate
  perInterval : ∀ key a, ((allowedOn key (FixedWindow.decisions rate window calls)).countP
    (fun t => a ≤ t ∧ t ≤ a + window) : ℤ) ≤ 2 * rate

/-! ### The calls on one key -/

/-- One call: it opens a window, or it is counted in the one that is open. -/
inductive Counted (rate window : ℤ) (now : ℤ) :
    Option FixedWindowEntry → Option FixedWindowEntry → Bool → Prop
  | opens {entry} (h : ∀ e, entry = some e → e.windowStart + window < now) :
      Counted rate window now entry (some ⟨1, now⟩) true
  | denied {e} (hin : now ≤ e.windowStart + window) (hfull : rate ≤ e.count) :
      Counted rate window now (some e) (some e) false
  | allowed {e} (hin : now ≤ e.windowStart + window) (hroom : e.count < rate) :
      Counted rate window now (some e) (some { e with count := e.count + 1 }) true

theorem fixedStep_counted (entry : Option FixedWindowEntry) (now : ℤ) :
    Counted rate window now entry (fixedStep rate window entry now).1
      (fixedStep rate window entry now).2 := by
  cases entry with
  | none => exact .opens nofun
  | some e =>
    simp only [fixedStep]
    split_ifs with hopen hfull
    · exact .opens fun e' he' => by cases he'; exact hopen
    · exact .denied (by omega) hfull
    · exact .allowed (by omega) (by omega)

section

variable {vs : List (Visit ℤ (Option FixedWindowEntry) Bool)} {entry : Option FixedWindowEntry}

/-- The calls so far were counted in windows that lie more than a window apart, and the last of
these is the one of the entry. -/
structure Spaced (window : ℤ) (vs : List (Visit ℤ (Option FixedWindowEntry) Bool))
    (entry : Option FixedWindowEntry) : Prop where
  empty : entry = none → vs = []
  opened : ∀ e, entry = some e → ∃ v ∈ vs, startOf v = some e.windowStart
  counted : ∀ v ∈ vs, ∃ s, startOf v = some s ∧ s ≤ v.input ∧ v.input ≤ s + window
  apart : ∀ v ∈ vs, ∀ v' ∈ vs, ∀ s s', startOf v = some s → startOf v' = some s' → s < s' →
    s + window < s'
  last : ∀ v ∈ vs, ∀ s e, startOf v = some s → entry = some e → s ≤ e.windowStart

theorem Spaced.nil (window : ℤ) : Spaced window [] none :=
  ⟨fun _ => rfl, nofun, nofun, nofun, nofun⟩

/-- A call that opens a window does so more than a window after the start of any other. -/
theorem Spaced.lt_of_opens (h : Spaced window vs entry) {now : ℤ}
    (hopen : ∀ e, entry = some e → e.windowStart + window < now) :
    ∀ v ∈ vs, ∀ s, startOf v = some s → s + window < now := by
  intro v hv s hs
  cases entry with
  | none => rw [h.empty rfl] at hv; cases hv
  | some e =>
    have := h.last v hv s e hs rfl
    have := hopen e rfl
    omega

theorem Spaced.opens (h : Spaced window vs entry) (hwindow : 0 < window) {now : ℤ}
    (hopen : ∀ e, entry = some e → e.windowStart + window < now) (out : Bool) :
    Spaced window (vs ++ [⟨now, out, some ⟨1, now⟩⟩]) (some ⟨1, now⟩) := by
  have hlt := h.lt_of_opens hopen
  refine ⟨nofun, fun e he => ⟨⟨now, out, some ⟨1, now⟩⟩, by simp, by cases he; rfl⟩, ?_, ?_, ?_⟩
  · intro v hv
    rcases List.mem_append.1 hv with hv | hv
    · exact h.counted v hv
    · obtain rfl := List.mem_singleton.1 hv
      exact ⟨now, rfl, le_rfl, by show now ≤ now + window; omega⟩
  · intro v hv v' hv' s s' hs hs' hss
    rcases List.mem_append.1 hv with hv | hv <;> rcases List.mem_append.1 hv' with hv' | hv'
    · exact h.apart v hv v' hv' s s' hs hs' hss
    · obtain rfl := List.mem_singleton.1 hv'
      obtain rfl : now = s' := Option.some.inj hs'
      exact hlt v hv s hs
    · obtain rfl := List.mem_singleton.1 hv
      obtain rfl : now = s := Option.some.inj hs
      have := hlt v' hv' s' hs'
      omega
    · obtain rfl := List.mem_singleton.1 hv
      obtain rfl := List.mem_singleton.1 hv'
      exact absurd (Option.some.inj (hs.symm.trans hs')) hss.ne
  · intro v hv s e hs he
    cases he
    rcases List.mem_append.1 hv with hv | hv
    · have := hlt v hv s hs
      show s ≤ now
      omega
    · obtain rfl := List.mem_singleton.1 hv
      cases hs
      exact le_rfl

/-- A call that is counted in the open window, whether it is allowed or not. -/
theorem Spaced.stays {e e' : FixedWindowEntry} (h : Spaced window vs (some e)) {now : ℤ}
    (hnow : ∀ v ∈ vs, v.input ≤ now) (hin : now ≤ e.windowStart + window) (out : Bool)
    (hsame : e'.windowStart = e.windowStart) :
    Spaced window (vs ++ [⟨now, out, some e'⟩]) (some e') := by
  obtain ⟨v₀, hv₀, hs₀⟩ := h.opened e rfl
  -- for its start, the new call is like the one that opened the window
  have hold : ∀ v ∈ vs ++ [⟨now, out, some e'⟩], ∃ v' ∈ vs, startOf v' = startOf v := by
    intro v hv
    rcases List.mem_append.1 hv with hv | hv
    · exact ⟨v, hv, rfl⟩
    · obtain rfl := List.mem_singleton.1 hv
      exact ⟨v₀, hv₀, by rw [hs₀, ← hsame]; rfl⟩
  refine ⟨nofun, fun e₁ he₁ => ⟨⟨now, out, some e'⟩, by simp, by cases he₁; rfl⟩, ?_, ?_, ?_⟩
  · intro v hv
    rcases List.mem_append.1 hv with hv | hv
    · exact h.counted v hv
    · obtain rfl := List.mem_singleton.1 hv
      obtain ⟨s, hs, hle, -⟩ := h.counted v₀ hv₀
      obtain rfl : s = e.windowStart := Option.some.inj (hs.symm.trans hs₀)
      exact ⟨e'.windowStart, rfl, by rw [hsame]; exact hle.trans (hnow v₀ hv₀), by
        rw [hsame]; exact hin⟩
  · intro v hv v' hv' s s' hs hs' hss
    obtain ⟨u, hu, hsu⟩ := hold v hv
    obtain ⟨u', hu', hsu'⟩ := hold v' hv'
    exact h.apart u hu u' hu' s s' (hsu.trans hs) (hsu'.trans hs') hss
  · intro v hv s e₁ hs he₁
    cases he₁
    obtain ⟨u, hu, hsu⟩ := hold v hv
    rw [hsame]
    exact h.last u hu s e (hsu.trans hs) rfl

/-- The count of the entry is the number of calls allowed in its window, and in no window were more
allowed than the rate, or one. -/
structure Tally (rate : ℤ) (vs : List (Visit ℤ (Option FixedWindowEntry) Bool))
    (entry : Option FixedWindowEntry) : Prop where
  count : ∀ e, entry = some e → (allowedFrom e.windowStart vs : ℤ) = e.count
  bound : ∀ s, (allowedFrom s vs : ℤ) ≤ max rate 1

theorem allowedFrom_concat (s now : ℤ) (out : Bool) (e : FixedWindowEntry) :
    allowedFrom s (vs ++ [⟨now, out, some e⟩]) =
      allowedFrom s vs + if out = true ∧ e.windowStart = s then 1 else 0 := by
  simp [allowedFrom, List.countP_append, List.countP_singleton, startOf]

theorem Counted.preserves {entry' : Option FixedWindowEntry} {out : Bool} {now : ℤ}
    (hwindow : 0 < window) (hstep : Counted rate window now entry entry' out)
    (hnow : ∀ v ∈ vs, v.input ≤ now)
    (h : Spaced window vs entry ∧ Tally rate vs entry) :
    Spaced window (vs ++ [⟨now, out, entry'⟩]) entry' ∧
      Tally rate (vs ++ [⟨now, out, entry'⟩]) entry' := by
  obtain ⟨hspaced, htally⟩ := h
  cases hstep with
  | opens hopen =>
    refine ⟨hspaced.opens hwindow hopen true, ?_⟩
    have hnone : allowedFrom now vs = 0 := List.countP_eq_zero.2 fun v hv => by
      have hlt := hspaced.lt_of_opens hopen v hv now
      simp only [Bool.and_eq_true, decide_eq_true_eq, not_and]
      intro _ hs
      have := hlt hs
      omega
    constructor
    · rintro e ⟨⟩
      simp [allowedFrom_concat, hnone]
    · intro s
      have := htally.bound s
      rw [allowedFrom_concat]
      by_cases hs : now = s
      · subst hs
        simp [hnone]
      · simpa [hs] using this
  | denied hin hfull =>
    refine ⟨hspaced.stays hnow hin false rfl, ?_⟩
    constructor
    · intro e he
      simpa [allowedFrom_concat, Option.some.inj he] using htally.count e he
    · intro s
      simpa [allowedFrom_concat] using htally.bound s
  | @allowed e hin hroom =>
    refine ⟨hspaced.stays hnow hin true rfl, ?_⟩
    have hcount := htally.count e rfl
    constructor
    · rintro e' ⟨⟩
      simp [allowedFrom_concat, hcount]
    · intro s
      rw [allowedFrom_concat]
      by_cases hs : e.windowStart = s
      · subst hs
        simp only [and_self, if_true]
        push_cast
        omega
      · simpa [hs] using htally.bound s

end

variable (rate) in
theorem spaced_visits (hwindow : 0 < window) {times : List ℤ} (hsorted : times.Pairwise (· ≤ ·)) :
    Spaced window (visits (fixedStep rate window) none times)
      (final (fixedStep rate window) none times) ∧
      Tally rate (visits (fixedStep rate window) none times)
        (final (fixedStep rate window) none times) := by
  induction times using List.reverseRecOn with
  | nil => exact ⟨.nil window, nofun, fun s => by simp [visits, allowedFrom]⟩
  | append_singleton times t ih =>
    obtain ⟨hbefore, -, hlast⟩ := List.pairwise_append.1 hsorted
    have hnow : ∀ v ∈ visits (fixedStep rate window) none times, v.input ≤ t := by
      intro v hv
      have hmem := List.mem_map_of_mem (f := fun v : Visit ℤ _ _ => v.input) hv
      rw [map_input_visits] at hmem
      exact hlast _ hmem t (List.mem_singleton_self t)
    rw [visits_concat, final_concat]
    exact (fixedStep_counted _ t).preserves hwindow hnow (ih hbefore)

/-! ### The limiter -/

/-- Calls in windows with one start: no more than in that window. -/
theorem countP_le_of_same_start {vs : List (Visit ℤ (Option FixedWindowEntry) Bool)} {bound : ℤ}
    (hbound : 0 ≤ bound) (hvs : ∀ s, (allowedFrom s vs : ℤ) ≤ bound)
    {p : Visit ℤ (Option FixedWindowEntry) Bool → Bool}
    (hsome : ∀ v ∈ vs, p v → ∃ s, startOf v = some s)
    (hsame : ∀ v ∈ vs, ∀ v' ∈ vs, p v → p v' → startOf v = startOf v') :
    (vs.countP (fun v => v.out && p v) : ℤ) ≤ bound := by
  by_cases hp : ∃ v ∈ vs, p v = true
  · obtain ⟨v, hv, hpv⟩ := hp
    obtain ⟨s, hs⟩ := hsome v hv hpv
    refine le_trans (Int.ofNat_le.2 (List.countP_mono_left fun v' hv' => ?_)) (hvs s)
    simp only [Bool.and_eq_true, decide_eq_true_eq]
    exact fun h => ⟨h.1, (hsame v' hv' v hv h.2 hpv).trans hs⟩
  · have hzero : vs.countP (fun v => v.out && p v) = 0 := List.countP_eq_zero.2 fun v hv => by
      simp only [Bool.and_eq_true, not_and]
      exact fun _ hpv => hp ⟨v, hv, hpv⟩
    rw [hzero]
    exact hbound

/-- An interval as long as the window meets two windows at most: one that starts no later than the
interval, and one that starts in it. -/
theorem Spaced.countP_interval_le {vs : List (Visit ℤ (Option FixedWindowEntry) Bool)}
    {entry : Option FixedWindowEntry} (h : Spaced window vs entry) {bound : ℤ} (hbound : 0 ≤ bound)
    (hvs : ∀ s, (allowedFrom s vs : ℤ) ≤ bound) (a : ℤ) :
    ((allowedTimes vs).countP (fun t => a ≤ t ∧ t ≤ a + window) : ℤ) ≤ 2 * bound := by
  have hsome : ∀ v ∈ vs, ∃ s, startOf v = some s := fun v hv =>
    let ⟨s, hs, _⟩ := h.counted v hv
    ⟨s, hs⟩
  -- two windows whose starts are no more than a window apart are one
  have hone : ∀ v ∈ vs, ∀ v' ∈ vs, ∀ s s', startOf v = some s → startOf v' = some s' →
      s ≤ s' + window →
      s' ≤ s + window → startOf v = startOf v' := by
    intro v hv v' hv' s s' hs hs' hle hle'
    have hlt := h.apart v hv v' hv' s s' hs hs'
    have hgt := h.apart v' hv' v hv s' s hs' hs
    have heq : s = s' := by
      by_contra hne
      rcases lt_or_gt_of_ne hne with hss | hss
      · have := hlt hss
        omega
      · have := hgt hss
        omega
    rw [hs, hs', heq]
  have hsplit : (allowedTimes vs).countP (fun t => a ≤ t ∧ t ≤ a + window) =
      vs.countP (fun v =>
        v.out && (decide (a ≤ v.input ∧ v.input ≤ a + window) && (startOf v).any (· ≤ a))) +
      vs.countP (fun v =>
        v.out && (decide (a ≤ v.input ∧ v.input ≤ a + window) && !(startOf v).any (· ≤ a))) := by
    rw [allowedTimes, List.countP_map, List.countP_filter, List.countP_eq_countP_filter_add vs _
      fun v => (startOf v).any (· ≤ a), List.countP_filter, List.countP_filter]
    congr 1 <;>
    · refine List.countP_congr fun v _ => ?_
      simp only [Function.comp_apply, Bool.and_eq_true]
      tauto
  have hearly : (vs.countP (fun v => v.out && (decide (a ≤ v.input ∧ v.input ≤ a + window) &&
      (startOf v).any (· ≤ a))) : ℤ) ≤ bound := by
    refine countP_le_of_same_start hbound hvs (fun v hv _ => hsome v hv)
      fun v hv v' hv' hp hp' => ?_
    obtain ⟨s, hs, -, hend⟩ := h.counted v hv
    obtain ⟨s', hs', -, hend'⟩ := h.counted v' hv'
    simp only [hs, hs', Option.any_some, Bool.and_eq_true, decide_eq_true_eq] at hp hp'
    exact hone v hv v' hv' s s' hs hs' (by omega) (by omega)
  have hlate : (vs.countP (fun v => v.out && (decide (a ≤ v.input ∧ v.input ≤ a + window) &&
      !(startOf v).any (· ≤ a))) : ℤ) ≤ bound := by
    refine countP_le_of_same_start hbound hvs (fun v hv _ => hsome v hv)
      fun v hv v' hv' hp hp' => ?_
    obtain ⟨s, hs, hstart, -⟩ := h.counted v hv
    obtain ⟨s', hs', hstart', -⟩ := h.counted v' hv'
    simp only [hs, hs', Option.any_some, Bool.and_eq_true, decide_eq_true_eq, Bool.not_eq_true',
      decide_eq_false_iff_not] at hp hp'
    exact hone v hv v' hv' s s' hs hs' (by omega) (by omega)
  rw [hsplit]
  push_cast
  omega

/-- **A fixed window bounds the calls if and only if its rate is positive**, or there are no calls:
the first call on a key is allowed whatever the rate. -/
theorem bounded_iff (rate window : ℤ) (hrate : 0 ≤ rate) (hwindow : 0 < window)
    (calls : List (String × ℤ)) (hsorted : calls.Pairwise fun c c' => c.2 ≤ c'.2) :
    Bounded rate window calls ↔ 0 < rate ∨ calls = [] := by
  have hat : ∀ key, Family.onKey key (FixedWindow.decisions rate window calls) =
      visits (fixedStep rate window) none (Family.onKey key calls) :=
        fun key => Family.log_onKey key _ calls
  constructor
  · intro hbounded
    cases calls with
    | nil => exact Or.inr rfl
    | cons c calls =>
      obtain ⟨key, now⟩ := c
      have hfirst := hbounded.perWindow key now
      rw [hat key] at hfirst
      have hcons : Family.onKey key ((key, now) :: calls) = now :: Family.onKey key calls := by
        simp [Family.onKey]
      rw [hcons] at hfirst
      simp only [visits, fixedStep, allowedFrom, startOf, List.countP_cons] at hfirst
      push_cast at hfirst
      left
      simp at hfirst
      omega
  · rintro (hpos | rfl)
    · have hvisits := fun key => spaced_visits rate hwindow (onKey_sorted hsorted key)
      have hbound : ∀ key s,
          (allowedFrom s
          (visits (fixedStep rate window) none (Family.onKey key calls)) : ℤ) ≤ rate :=
        fun key s => ((hvisits key).2.bound s).trans (max_eq_left (by omega)).le
      constructor
      · intro key s
        rw [hat]
        exact hbound key s
      · intro key a
        rw [allowedOn, hat]
        exact (hvisits key).1.countP_interval_le hrate (hbound key) a
    · constructor
      · intro key s
        simpa [FixedWindow.decisions, Family.log, Family.onKey, allowedFrom] using hrate
      · intro key a
        simpa [FixedWindow.decisions, Family.log, Family.onKey, allowedOn, allowedTimes] using hrate

/-- Five calls on one key. -/
def burst : List (String × ℤ) := [("a", 0), ("a", 9), ("a", 10), ("a", 11), ("a", 12)]

/-- Two calls in ten: the third call is denied, and the fourth opens a new window. -/
theorem bounded_iff_burst :
    allowedOn "a" (FixedWindow.decisions 2 10 burst) = [0, 9, 11, 12] ∧ Bounded 2 10 burst :=
  ⟨by decide, (bounded_iff 2 10 (by decide) (by decide) burst (by decide)).2 (Or.inl (by decide))⟩

/-- A limiter with the rate 0 allows a call. -/
theorem not_bounded_zero :
    (newFixedWindow 0 1000000000).allow "k" 0 = (⟨Function.update (fun _ => none) "k"
    (some ⟨1, 0⟩)⟩, true) ∧ ¬ Bounded 0 1000000000 [("k", 0)] :=
  ⟨rfl, fun h => absurd (h.perWindow "k" 0) (by decide)⟩

end WolfCore.RateLimit
