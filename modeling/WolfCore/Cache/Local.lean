import WolfCore.Cache.Singleflight
import WolfCore.Lib.ExpirableLRU

/-!
# The cache in the process (`infra/cache/local.go`)

`LocalCache` keeps the values of a remote cache in an LRU cache of the process.  `Get` looks there
first and promotes what it finds in the inner cache; `Set` writes to both.  So a value may be read
after others have changed the inner cache, and the time to live of the entries bounds for how long.

* `LocalCache.get`, `set`, `delete`, `invalidate`: the calls, each instantaneous;
* `Occurrence`: what happens at a time: a call, a change of the inner cache by others (or the expiry
  of a value in it), or the LRU's goroutine deleting expired entries;
* `HeldAt`: the inner cache has a value at a time;
* `staleness_iff`: `Get` returns no value older than the time to live, exactly when this is
  positive.  A time to live of zero or less should disable the cache, but entries then never expire.

The inner cache stores what is written to it.  Times and durations are in nanoseconds.
-/

namespace WolfCore.Cache

open Go ExpirableLRU

/-- A byte slice; `none` is nil. -/
abbrev Bytes := Option String

/-- `LocalCache`, with the contents of the inner cache. -/
structure LocalCache where
  inner : String → Option Bytes
  store : LRU String Bytes

/-- `NewLocalCache`. -/
def newLocalCache (inner : String → Option Bytes) (size defaultTTL : ℤ) : LocalCache :=
  ⟨inner, .new size defaultTTL⟩

namespace LocalCache

variable (c : LocalCache)

/-- `Get` of the inner client, which may fail. -/
def innerGet (key : String) : Option Err → Found
  | some err => .error err
  | none => (c.inner key).elim (.error errCacheMiss) .ok

/-- `LocalCache.Get`; `err` is how the inner client fails, if it is asked. -/
def get (now : ℤ) (key : String) (err : Option Err) : Found × LocalCache :=
  match c.store.get now key with
  | (some data, store) => (.ok data, { c with store := store })
  | (none, store) =>
      match c.innerGet key err with
      | .error err => (.error err, { c with store := store })
      | .ok data => (.ok data, { c with store := store.add now key data })

/-- `LocalCache.Set`. -/
def set (now : ℤ) (key : String) (value : Bytes) : Option Err → Option Err × LocalCache
  | some err => (some (.wrap "local cache: set: %w" none err), c)
  | none => (none, ⟨Function.update c.inner key (some value), c.store.add now key value⟩)

/-- The loop of `Delete` and `Invalidate`. -/
def removeAll (keys : List String) : LocalCache := { c with store := keys.foldl LRU.remove c.store }

/-- `LocalCache.Delete`. -/
def delete (keys : List String) : Option Err → Option Err × LocalCache
  | some err => (some err, c.removeAll keys)
  | none =>
      (none, { c.removeAll keys with inner := fun key => if key ∈ keys then none else c.inner key })

/-- `LocalCache.Invalidate`. -/
def invalidate (keys : List String) : LocalCache := c.removeAll keys

end LocalCache

inductive Occurrence
  | get (key : String) (err : Option Err)
  | set (key : String) (value : Bytes) (err : Option Err)
  | delete (keys : List String) (err : Option Err)
  | invalidate (keys : List String)
  /-- the value in the inner cache is changed by others, or expires -/
  | changed (key : String) (value : Option Bytes)
  /-- the goroutine of the LRU -/
  | deleteExpired (keys : List String)

namespace LocalCache

def step (c : LocalCache) : ℤ × Occurrence → LocalCache
  | (now, .get key err) => (c.get now key err).2
  | (now, .set key value err) => (c.set now key value err).2
  | (_, .delete keys err) => (c.delete keys err).2
  | (_, .invalidate keys) => c.invalidate keys
  | (_, .changed key value) => { c with inner := Function.update c.inner key value }
  | (now, .deleteExpired keys) => { c with store := c.store.deleteExpired now keys }

def after (c : LocalCache) (run : List (ℤ × Occurrence)) : LocalCache := run.foldl step c

/-- The inner cache has a value at time `u` of a run: at some moment that is neither before
something that happens earlier nor after something that happens later. -/
def HeldAt (c : LocalCache) (run : List (ℤ × Occurrence)) (key : String) (value : Bytes) (u : ℤ) :
    Prop :=
  ∃ before later, run = before ++ later ∧ (∀ o ∈ before, o.1 ≤ u) ∧ (∀ o ∈ later, u ≤ o.1) ∧
    (c.after before).inner key = some value

end LocalCache

/-- Whatever `Get` returns at a time was the value in the inner cache at most `max(defaultTTL, 0)`
before. -/
def BoundedStaleness (size defaultTTL : ℤ) : Prop :=
  ∀ (inner : String → Option Bytes) (run : List (ℤ × Occurrence)) (t : ℤ) (key : String)
    (err : Option Err) (value : Bytes), run.Pairwise (fun o o' => o.1 ≤ o'.1) →
    (∀ o ∈ run, o.1 ≤ t) →
    (((newLocalCache inner size defaultTTL).after run).get t key err).1 = .ok value →
    ∃ u, t - max defaultTTL 0 ≤ u ∧ u ≤ t ∧
      (newLocalCache inner size defaultTTL).HeldAt run key value u

/-! ### The invariant -/

namespace LocalCache

variable {c : LocalCache} {run : List (ℤ × Occurrence)} {key : String} {value : Bytes}

theorem after_concat (o : ℤ × Occurrence) : c.after (run ++ [o]) = (c.after run).step o := by
  simp [after]

theorem HeldAt.concat {u : ℤ} (h : c.HeldAt run key value u) {o : ℤ × Occurrence} (ho : u ≤ o.1) :
    c.HeldAt (run ++ [o]) key value u := by
  obtain ⟨before, later, rfl, hbefore, hlater, hinner⟩ := h
  refine ⟨before, later ++ [o], List.append_assoc _ _ _, hbefore, fun o' ho' => ?_, hinner⟩
  rcases List.mem_append.1 ho' with ho' | ho'
  · exact hlater o' ho'
  · rw [List.mem_singleton.1 ho']
    exact ho

theorem heldAt_end {u : ℤ} (hrun : ∀ o ∈ run, o.1 ≤ u) (h : (c.after run).inner key = some value) :
    c.HeldAt run key value u := ⟨run, [], (List.append_nil _).symm, hrun, by simp, h⟩

/-- After everything has happened there is no other moment. -/
theorem HeldAt.inner_eq {u : ℤ} (h : c.HeldAt run key value u) (hrun : ∀ o ∈ run, o.1 < u) :
    (c.after run).inner key = some value := by
  obtain ⟨before, later, rfl, -, hlater, hinner⟩ := h
  have hnil : later = [] := List.eq_nil_iff_forall_not_mem.2 fun o ho =>
    absurd (hlater o ho) (not_le.2 (hrun o (List.mem_append_right _ ho)))
  rw [hnil, List.append_nil]
  exact hinner

theorem inner_of_innerGet {err : Option Err} {data : Bytes} (h : c.innerGet key err = .ok data) :
    c.inner key = some data := by
  unfold innerGet at h
  split at h
  · cases h
  · cases hinner : c.inner key with
    | none => simp [hinner] at h
    | some v => simpa [hinner] using h

/-- How a `Get` goes: it finds an entry, or the inner client fails, or its value is promoted. -/
theorem get_cases (c : LocalCache) (now : ℤ) (key : String) (err : Option Err) :
    (∃ data, (c.store.get now key).1 = some data ∧
      c.get now key err = (.ok data, { c with store := (c.store.get now key).2 })) ∨
    (∃ err', (c.store.get now key).1 = none ∧
      c.get now key err = (.error err', { c with store := (c.store.get now key).2 })) ∨
    ∃ data, (c.store.get now key).1 = none ∧ c.inner key = some data ∧
      c.get now key err = (.ok data,
        { c with store := (c.store.get now key).2.add now key data }) := by
  unfold get
  rcases c.store.get now key with ⟨_ | data, store⟩
  · cases hinner : c.innerGet key err with
    | error err' => exact Or.inr (Or.inl ⟨err', rfl, rfl⟩)
    | ok data => exact Or.inr (Or.inr ⟨data, rfl, inner_of_innerGet hinner, rfl⟩)
  · exact Or.inl ⟨data, rfl, rfl⟩

/-- `Get` adds at most the value of the inner cache. -/
theorem mem_get {now : ℤ} {err : Option Err} {e : Entry String Bytes}
    (h : e ∈ (c.get now key err).2.store.items) :
    e ∈ c.store.items ∨ e = c.store.entryAt now e.key e.value ∧ c.inner e.key = some e.value := by
  rcases c.get_cases now key err with ⟨data, -, hget⟩ | ⟨err', -, hget⟩ | ⟨data, -, hinner, hget⟩
  · rw [hget] at h
    exact Or.inl (LRU.mem_of_mem_get h)
  · rw [hget] at h
    exact Or.inl (LRU.mem_of_mem_get h)
  · rw [hget] at h
    rcases LRU.eq_or_mem_of_mem_add h with rfl | h
    · exact Or.inr ⟨LRU.entryAt_get key, hinner⟩
    · exact Or.inl (LRU.mem_of_mem_get h)

/-- One step adds at most an entry for a value that the inner cache has before or after it. -/
theorem mem_step {o : ℤ × Occurrence} {e : Entry String Bytes} (h : e ∈ (c.step o).store.items) :
    e ∈ c.store.items ∨ e = c.store.entryAt o.1 e.key e.value ∧
      (c.inner e.key = some e.value ∨ (c.step o).inner e.key = some e.value) := by
  obtain ⟨now, o⟩ := o
  cases o with
  | get key err => exact (mem_get h).imp_right fun he => ⟨he.1, Or.inl he.2⟩
  | set key value err =>
    cases err with
    | some err => exact Or.inl h
    | none =>
      refine (LRU.eq_or_mem_of_mem_add h).symm.imp_right fun he => ?_
      subst he
      exact ⟨rfl, Or.inr (Function.update_self _ _ _)⟩
  | delete keys err => cases err <;> exact Or.inl (LRU.mem_of_mem_foldl_remove h)
  | invalidate keys => exact Or.inl (LRU.mem_of_mem_foldl_remove h)
  | changed key value => exact Or.inl h
  | deleteExpired keys => exact Or.inl (LRU.mem_of_mem_deleteExpired h)

theorem ttl_step (o : ℤ × Occurrence) : (c.step o).store.ttl = c.store.ttl := by
  obtain ⟨now, o⟩ := o
  cases o with
  | get key err =>
    rcases c.get_cases now key err with ⟨data, -, hget⟩ | ⟨err', -, hget⟩ | ⟨data, -, -, hget⟩
    all_goals simp [step, hget]
  | set key value err => cases err <;> simp [step, set]
  | delete keys err => cases err <;> simp [step, delete, removeAll]
  | invalidate keys => simp [step, invalidate, removeAll]
  | changed key value => rfl
  | deleteExpired keys => rfl

theorem ttl_after (run : List (ℤ × Occurrence)) : (c.after run).store.ttl = c.store.ttl := by
  induction run using List.reverseRecOn with
  | nil => rfl
  | append_singleton run o ih => rw [after_concat, ttl_step, ih]

/-- The entry was added at a time when the inner cache had its value. -/
def Sourced (c : LocalCache) (run : List (ℤ × Occurrence)) (e : Entry String Bytes) : Prop :=
  ∃ o ∈ run, (0 < c.store.ttl → e.expiresAt = some (o.1 + c.store.ttl)) ∧
    c.HeldAt run e.key e.value o.1

theorem sourced_of_mem (hc : c.store.items = []) (hsorted : run.Pairwise fun o o' => o.1 ≤ o'.1)
    {e : Entry String Bytes} (he : e ∈ (c.after run).store.items) : c.Sourced run e := by
  induction run using List.reverseRecOn generalizing e with
  | nil =>
    rw [after, List.foldl_nil, hc] at he
    cases he
  | append_singleton run o ih =>
    obtain ⟨hrun, -, hlast⟩ := List.pairwise_append.1 hsorted
    have hle : ∀ o' ∈ run, o'.1 ≤ o.1 := fun o' ho' => hlast o' ho' o (List.mem_singleton_self o)
    rw [after_concat] at he
    rcases mem_step he with he | ⟨he, hinner⟩
    · obtain ⟨o', ho', hexpires, hheld⟩ := ih hrun he
      exact ⟨o', List.mem_append_left _ ho', hexpires, hheld.concat (hle o' ho')⟩
    · refine ⟨o, List.mem_append_right _ (List.mem_singleton_self o), fun hpos => ?_, ?_⟩
      · rw [he, LRU.entryAt, ttl_after, if_pos hpos]
      · rcases hinner with hinner | hinner
        · exact (heldAt_end hle hinner).concat le_rfl
        · refine heldAt_end (fun o' ho' => ?_) (by rw [after_concat]; exact hinner)
          rcases List.mem_append.1 ho' with ho' | ho'
          · exact hle o' ho'
          · rw [List.mem_singleton.1 ho']

end LocalCache

/-- A positive time to live bounds how old a value is. -/
theorem boundedStaleness_of_pos (size : ℤ) {defaultTTL : ℤ} (hpos : 0 < defaultTTL) :
    BoundedStaleness size defaultTTL := by
  intro inner run t key err value hsorted hrun hget
  set c := newLocalCache inner size defaultTTL
  rcases (c.after run).get_cases t key err with
    ⟨data, hstore, heq⟩ | ⟨err', -, heq⟩ | ⟨data, -, hinner, heq⟩
  · -- an entry that has not expired
    obtain rfl : data = value := by simpa [heq] using hget
    obtain ⟨e, he, rfl, rfl, hfresh⟩ := LRU.mem_of_get_eq_some hstore
    obtain ⟨o, ho, hexpires, hheld⟩ := LocalCache.sourced_of_mem rfl hsorted he
    have hexpires : e.expiresAt = some (o.1 + defaultTTL) := hexpires hpos
    have hbound : t ≤ o.1 + defaultTTL := by simpa [Entry.expired, hexpires] using hfresh
    exact ⟨o.1, by omega, hrun o ho, hheld⟩
  · simp [heq] at hget
  · -- the value of the inner cache at this moment
    obtain rfl : data = value := by simpa [heq] using hget
    exact ⟨t, by omega, le_rfl, LocalCache.heldAt_end hrun hinner⟩

/-- A time to live that is not positive does not: a value that was promoted once is returned
although the inner cache has had another one for long. -/
theorem stale_of_nonpos (size : ℤ) {defaultTTL : ℤ} (httl : defaultTTL ≤ 0) :
    let c := newLocalCache (fun _ => some (some "old")) size defaultTTL
    let run : List (ℤ × Occurrence) := [(0, .get "k" none), (1, .changed "k" (some (some "new")))]
    ((c.after run).get 5 "k" none).1 = .ok (some "old") ∧
      ¬ ∃ u, 5 - max defaultTTL 0 ≤ u ∧ u ≤ 5 ∧ c.HeldAt run "k" (some "old") u := by
  intro c run
  constructor
  · have hstore : (c.after run).store = (LRU.new size defaultTTL).add 0 "k" (some "old") := rfl
    have hfound : ((c.after run).store.get 5 "k").1 = some (some "old") := by
      rw [hstore]
      exact LRU.get_add 5 (by simp [LRU.entryAt, LRU.new, Entry.expired, not_lt.2 httl])
    rcases (c.after run).get_cases 5 "k" none with
      ⟨data, hdata, heq⟩ | ⟨err', hnone, -⟩ | ⟨data, hnone, -⟩
    · rw [heq, Option.some.inj (hdata.symm.trans hfound)]
    · simp [hnone] at hfound
    · simp [hnone] at hfound
  · rintro ⟨u, hlow, hhigh, hheld⟩
    obtain rfl : u = 5 := by omega
    have hinner : (c.after run).inner "k" = some (some "old") := hheld.inner_eq (by simp [run])
    have hnew : (c.after run).inner "k" = some (some "new") := rfl
    simp [hnew] at hinner

/-- **Bounded staleness**: with a cache of any size, `Get` returns only values that the inner cache
had within the time to live (and only its value now, if there is none) exactly if the time to live
is positive. -/
theorem staleness_iff (size defaultTTL : ℤ) :
    BoundedStaleness size defaultTTL ↔ 0 < defaultTTL := by
  refine ⟨fun h => ?_, boundedStaleness_of_pos size⟩
  by_contra httl
  obtain ⟨hget, hnot⟩ := stale_of_nonpos size (not_lt.1 httl)
  exact hnot (h _ _ _ _ _ _ (by simp) (by simp) hget)

/-- The cache that a time to live of zero should disable. -/
theorem zeroTTL_stale :
    let c := newLocalCache (fun _ => some (some "old")) 100 0
    let run : List (ℤ × Occurrence) := [(0, .get "k" none), (1, .changed "k" (some (some "new")))]
    ((c.after run).get 5 "k" none).1 = .ok (some "old") ∧
      ¬ ∃ u, 5 - max 0 0 ≤ u ∧ u ≤ 5 ∧ c.HeldAt run "k" (some "old") u := stale_of_nonpos 100 le_rfl

end WolfCore.Cache
