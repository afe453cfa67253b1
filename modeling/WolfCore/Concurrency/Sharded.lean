import WolfCore.Lib.ForkJoin
import WolfCore.Lib.Go

/-!
# Data-parallel processing (`infra/concurrency/sharded.go`)

`ProcessSharded` cuts a list of items into shards, calls a function on each of them in a goroutine
of its own and returns the results in the order of the shards.  `ProcessShardedWithError` cuts the
list in the same way; its function may fail, a failure cancels the context of the others, and the
results are merged if no shard has failed.

A shard function is a program that takes steps over a memory of its surroundings; under
`ProcessShardedWithError` a step also sees whether the context has been cancelled.

* `shardBounds`, `shards`: the loop that cuts the list;
* `processSharded_spec`: the shards, and what the two functions make of them;
* `rootCause_iff`: which failure `ProcessShardedWithError` reports.
-/

namespace WolfCore.Concurrency

open ForkJoin

variable {T R τ σ O A ε : Type}

/-! ### Cutting the list -/

/-- `max(1, min(workers, n))`. -/
def workerCount (workers : ℤ) (n : ℕ) : ℕ := (max 1 (min workers n)).toNat

/-- The loop over the shards, from shard `i` on, with `left` shards to come. -/
def boundsFrom (base remainder : ℕ) : (left i offset : ℕ) → List (ℕ × ℕ)
  | 0, _, _ => []
  | left + 1, i, offset =>
      let size := if i < remainder then base + 1 else base
      (offset, offset + size) :: boundsFrom base remainder left (i + 1) (offset + size)

/-- The bounds of the shards of `n` items. -/
def shardBounds (n : ℕ) (workers : ℤ) : List (ℕ × ℕ) :=
  boundsFrom (n / workerCount workers n) (n % workerCount workers n) (workerCount workers n) 0 0

/-- `items[lo:hi]`. -/
def slice (items : List T) (bounds : ℕ × ℕ) : List T :=
  (items.drop bounds.1).take (bounds.2 - bounds.1)

/-- The shards; both functions return at once if there are no items. -/
def shards (items : List T) (workers : ℤ) : List (List T) :=
  if items.length = 0 then [] else (shardBounds items.length workers).map (slice items)

theorem workerCount_pos (workers : ℤ) (n : ℕ) : 0 < workerCount workers n := by
  unfold workerCount
  omega

theorem workerCount_le {n : ℕ} (hn : 0 < n) (workers : ℤ) : workerCount workers n ≤ n := by
  unfold workerCount
  omega

theorem length_boundsFrom (base remainder left i offset : ℕ) :
    (boundsFrom base remainder left i offset).length = left := by
  induction left generalizing i offset with
  | zero => rfl
  | succ left ih => exact congrArg Nat.succ (ih ..)

/-- The number of items in the shards from shard `i` on. -/
def total (base remainder left i : ℕ) : ℕ := left * base + min left (remainder - i)

theorem total_succ (base remainder left i : ℕ) : total base remainder (left + 1) i =
    (if i < remainder then base + 1 else base) + total base remainder left (i + 1) := by
  unfold total
  rw [Nat.succ_mul]
  split_ifs <;> omega

theorem total_all {n w : ℕ} (hw : 0 < w) : total (n / w) (n % w) w 0 = n := by
  have hlt := Nat.mod_lt n hw
  have hdiv := Nat.div_add_mod n w
  rw [total, Nat.sub_zero, min_eq_right hlt.le]
  exact hdiv

/-- Each shard lies between the offset and the end of the last one, and has one of two sizes. -/
theorem mem_boundsFrom {base remainder left i offset : ℕ} {b : ℕ × ℕ}
    (hb : b ∈ boundsFrom base remainder left i offset) :
    b.2 ≤ offset + total base remainder left i ∧
      (b.2 = b.1 + base ∨ (b.2 = b.1 + base + 1 ∧ i < remainder)) := by
  induction left generalizing i offset with
  | zero => cases hb
  | succ left ih =>
    rw [total_succ]
    rcases List.mem_cons.1 hb with rfl | hb
    · dsimp only
      split_ifs with hi
      · exact ⟨by omega, .inr ⟨by omega, hi⟩⟩
      · exact ⟨by omega, .inl rfl⟩
    · obtain ⟨hle, hsize⟩ := ih hb
      exact ⟨by omega, by omega⟩

/-- The sizes do not grow, and differ by at most one. -/
theorem pairwise_boundsFrom (base remainder left i offset : ℕ) :
    (boundsFrom base remainder left i offset).Pairwise fun a b =>
      b.2 - b.1 ≤ a.2 - a.1 ∧ a.2 - a.1 ≤ b.2 - b.1 + 1 := by
  induction left generalizing i offset with
  | zero => exact List.Pairwise.nil
  | succ left ih =>
    refine List.Pairwise.cons (fun b hb => ?_) (ih ..)
    have hsize := (mem_boundsFrom hb).2
    dsimp only
    split_ifs <;> omega

theorem flatten_boundsFrom (items : List T) (base remainder left i offset : ℕ) :
    ((boundsFrom base remainder left i offset).map (slice items)).flatten =
      (items.drop offset).take (total base remainder left i) := by
  induction left generalizing i offset with
  | zero => simp [boundsFrom, total]
  | succ left ih =>
    rw [boundsFrom, total_succ, List.map_cons, List.flatten_cons, ih, List.take_add, List.drop_drop,
      slice, Nat.add_sub_cancel_left]

section Partition

variable {items : List T} (hitems : items ≠ []) (workers : ℤ)

include hitems

theorem shards_eq : shards items workers = (shardBounds items.length workers).map (slice items) :=
  if_neg (List.length_pos_of_ne_nil hitems).ne'

theorem length_shards : (shards items workers).length = workerCount workers items.length := by
  rw [shards_eq hitems, List.length_map, shardBounds, length_boundsFrom]

theorem flatten_shards : (shards items workers).flatten = items := by
  rw [shards_eq hitems, shardBounds, flatten_boundsFrom, total_all (workerCount_pos _ _),
    List.drop_zero, List.take_length]

theorem mem_shardBounds {workers : ℤ} {b : ℕ × ℕ} (hb : b ∈ shardBounds items.length workers) :
    b.1 < b.2 ∧ b.2 ≤ items.length := by
  have hpos := workerCount_pos workers items.length
  have hbase : 0 < items.length / workerCount workers items.length :=
    Nat.div_pos (workerCount_le (List.length_pos_of_ne_nil hitems) workers) hpos
  obtain ⟨hle, hsize⟩ := mem_boundsFrom hb
  rw [total_all hpos] at hle
  omega

theorem pairwise_shards :
    (shards items workers).Pairwise fun a b => b.length ≤ a.length ∧ a.length ≤ b.length + 1 := by
  have hlength : ∀ b ∈ shardBounds items.length workers, (slice items b).length = b.2 - b.1 := by
    intro b hb
    have hbounds := mem_shardBounds hitems hb
    rw [slice, List.length_take, List.length_drop]
    omega
  rw [shards_eq hitems, List.pairwise_map]
  refine (pairwise_boundsFrom ..).imp_of_mem fun ha hb hab => ?_
  rw [hlength _ ha, hlength _ hb]
  exact hab

end Partition

/-! ### `ProcessSharded` -/

/-- A shard function: where it starts on a shard, its steps, and what happens in its
surroundings. -/
structure ShardFn (T R τ σ O A : Type) where
  start : List T → τ
  step : O → τ → σ → (τ ⊕ R) × σ
  env : A → σ → σ

/-- A function that returns in one step and touches nothing. -/
def ShardFn.ofFun (fn : List T → R) : ShardFn T R (List T) Unit Unit Unit where
  start := id
  step := fun _ shard s => (.inr (fn shard), s)
  env := fun _ s => s

/-- The goroutines of `ProcessSharded`. -/
def ShardFn.body (fn : ShardFn T R τ σ O A) : Body (List T) τ R σ O A where
  start := fn.start
  step := fn.step
  finish := fun _ s => s
  env := fn.env

/-- The fork of `ProcessSharded`, after a schedule. -/
def ShardFn.fork (fn : ShardFn T R τ σ O A) (items : List T) (workers : ℤ) (s : σ)
    (ms : List (Move O A)) : Fork (List T) τ R σ :=
  (Fork.start s [] 0 (shards items workers)).run fn.body ms

/-- `ProcessSharded`, after a schedule: `none` while it waits. -/
def processSharded (items : List T) (workers : ℤ) (fn : ShardFn T R τ σ O A) (s : σ)
    (ms : List (Move O A)) : Option (List R) :=
  if items.length = 0 then some []
  else if (fn.fork items workers s ms).joinable then some (fn.fork items workers s ms).results
  else none

/-- Calls of the function return: each step makes its state smaller. -/
def ShardFn.Returns (fn : ShardFn T R τ σ O A) : Prop :=
  ∃ size : τ → ℕ, ∀ o t s t', (fn.step o t s).1 = .inl t' → size t' < size t

theorem traced_shards {body : Body (List T) τ R σ O A} (s : σ) (shards : List (List T))
    (ms : List (Move O A)) : ((Fork.start s [] 0 shards).run body ms).Traced shards :=
  Fork.traced_run (Fork.traced_start (by simp)) ms

theorem answered_shards {body : Body (List T) τ R σ O A} {s : σ} {shards : List (List T)}
    {ms : List (Move O A)} (hjoin : ((Fork.start s [] 0 shards).run body ms).joinable = true) :
    Answered shards ((Fork.start s [] 0 shards).run body ms).results
      ((Fork.start s [] 0 shards).run body ms).log :=
  (traced_shards s shards ms).answered (Fork.base_run ..) hjoin

theorem processSharded_eq_some {items : List T} (hitems : items ≠ []) {workers : ℤ}
    {fn : ShardFn T R τ σ O A} {s : σ} {ms : List (Move O A)} {rs : List R} :
    processSharded items workers fn s ms = some rs ↔
      (fn.fork items workers s ms).joinable = true ∧ (fn.fork items workers s ms).results = rs := by
  rw [processSharded, if_neg (List.length_pos_of_ne_nil hitems).ne']
  split_ifs with hjoin <;> simp [hjoin]

/-- Under every schedule a function of the shard gives the same results. -/
theorem processSharded_ofFun {items : List T} (hitems : items ≠ []) {workers : ℤ} {fn : List T → R}
    {ms : List (Move Unit Unit)} {rs : List R}
    (h : processSharded items workers (ShardFn.ofFun fn) () ms = some rs) :
    rs = (shards items workers).map fn := by
  obtain ⟨hjoin, rfl⟩ := (processSharded_eq_some hitems).1 h
  have hkeep : ((ShardFn.ofFun fn).fork items workers () ms).Keeping (shards items workers)
      (fun shard t => t = shard) (fun shard r => r = fn shard) := by
    refine Fork.keeping_run (K := fun shard t => t = shard) (Q := fun shard r => r = fn shard)
      (fun _ => rfl) (fun shard o t s ht => ⟨fun t' h => ?_, fun r hr => ?_⟩)
      (Fork.keeping_start () [] 0) (Fork.traced_start fun _ he => by cases he) ms
    · cases h
    · cases hr
      exact congrArg fn ht
  have hanswered := answered_shards hjoin
  refine List.ext_getElem? fun k => ?_
  rw [List.getElem?_map]
  cases hk : (shards items workers)[k]? with
  | none =>
    rw [List.getElem?_eq_none_iff] at hk
    exact List.getElem?_eq_none (hanswered.length_eq.trans_le hk)
  | some shard =>
    obtain ⟨r, hr, -⟩ := hanswered.trace hk
    exact hr.trans (congrArg some (hkeep.results hjoin hk hr))

/-! ### `ProcessShardedWithError` -/

/-- A shard function with a context: a step also sees whether the context has been cancelled. -/
structure CtxShardFn (T R ε τ σ O A : Type) where
  start : List T → τ
  step : O → (cancelled : Bool) → τ → σ → (τ ⊕ R × Option ε) × σ
  env : A → σ → σ

/-- The context of the shards, and the memory of their surroundings. -/
structure CtxState (σ : Type) where
  cancelled : Bool
  memory : σ
  deriving DecidableEq

/-- What happens outside: the context of the caller is cancelled, or something else. -/
inductive Outside (A : Type)
  | cancel
  | other (a : A)

/-- The goroutines of `ProcessShardedWithError`: a failure cancels the context. -/
def CtxShardFn.body (fn : CtxShardFn T R ε τ σ O A) :
    Body (List T) τ (R × Option ε) (CtxState σ) O (Outside A) where
  start := fn.start
  step := fun o t s =>
    ((fn.step o s.cancelled t s.memory).1,
      { s with memory := (fn.step o s.cancelled t s.memory).2 })
  finish := fun r s => if r.2.isSome then { s with cancelled := true } else s
  env := fun a s =>
    match a with
    | .cancel => { s with cancelled := true }
    | .other a => { s with memory := fn.env a s.memory }

/-- The fork of `ProcessShardedWithError`, after a schedule. -/
def CtxShardFn.fork (fn : CtxShardFn T R ε τ σ O A) (items : List T) (workers : ℤ) (s : CtxState σ)
    (ms : List (Move O (Outside A))) : Fork (List T) τ (R × Option ε) (CtxState σ) :=
  (Fork.start s [] 0 (shards items workers)).run fn.body ms

/-- The loop over the results of the shards. -/
def collect (zero : R) (merge : List R → R) :
    List (R × Option ε) → (merged : List R) → R × Option ε
  | [], merged => (merge merged, none)
  | (_, some err) :: _, _ => (zero, some err)
  | (value, none) :: rest, merged => collect zero merge rest (merged ++ [value])

/-- `ProcessShardedWithError`, after a schedule: `none` while it waits. -/
def processShardedWithError (zero : R) (items : List T) (workers : ℤ)
    (fn : CtxShardFn T R ε τ σ O A) (merge : List R → R) (s : CtxState σ)
    (ms : List (Move O (Outside A))) : Option (R × Option ε) :=
  if items.length = 0 then some (zero, none)
  else if (fn.fork items workers s ms).joinable then
    some (collect zero merge (fn.fork items workers s ms).results [])
  else none

def CtxShardFn.Returns (fn : CtxShardFn T R ε τ σ O A) : Prop :=
  ∃ size : τ → ℕ, ∀ o c t s t', (fn.step o c t s).1 = .inl t' → size t' < size t

theorem collect_eq (zero : R) (merge : List R → R) (rs : List (R × Option ε)) (merged : List R) :
    collect zero merge rs merged =
      match rs.findSome? Prod.snd with
      | some err => (zero, some err)
      | none => (merge (merged ++ rs.map Prod.fst), none) := by
  induction rs generalizing merged with
  | nil => simp [collect]
  | cons r rs ih =>
    obtain ⟨value, err⟩ := r
    cases err with
    | some err => rfl
    | none =>
      rw [collect, ih]
      simp

theorem processShardedWithError_eq_some {zero : R} {items : List T} (hitems : items ≠ [])
    {workers : ℤ} {fn : CtxShardFn T R ε τ σ O A} {merge : List R → R} {s : CtxState σ}
    {ms : List (Move O (Outside A))} {out : R × Option ε} :
    processShardedWithError zero items workers fn merge s ms = some out ↔
      (fn.fork items workers s ms).joinable = true ∧
        collect zero merge (fn.fork items workers s ms).results [] = out := by
  rw [processShardedWithError, if_neg (List.length_pos_of_ne_nil hitems).ne']
  split_ifs with hjoin <;> simp [hjoin]

/-- **The shards, and what the two functions make of them.**  There are `max(1, min(workers, n))`
shards, non-empty and within the bounds of the list, which put together are the list, and the longer
ones are longer by one item and come first.  `ProcessSharded` calls its function once on each shard
and returns the results in the order of the shards, under every schedule, and so does
`ProcessShardedWithError`, which merges them, if no shard fails.  If the calls return, both
functions return. -/
theorem processSharded_spec {items : List T} (hitems : items ≠ []) (workers : ℤ)
    (fn : ShardFn T R τ σ O A) {τ' σ' O' A' : Type} (fnErr : CtxShardFn T R ε τ' σ' O' A')
    (zero : R)
    (merge : List R → R) :
    ((shards items workers).length = (max 1 (min workers items.length)).toNat ∧
      (∀ b ∈ shardBounds items.length workers, b.1 < b.2 ∧ b.2 ≤ items.length) ∧
      (shards items workers).flatten = items ∧
      (shards items workers).Pairwise fun a b => b.length ≤ a.length ∧ a.length ≤ b.length + 1) ∧
    (∀ s ms,
      (∀ rs, processSharded items workers fn s ms = some rs →
        Answered (shards items workers) rs (fn.fork items workers s ms).log) ∧
      (fn.Returns →
        ∀ _ : O, ∃ ms', (processSharded items workers fn s (ms ++ ms')).isSome = true)) ∧
    (∀ (g : List T → R) ms rs, processSharded items workers (ShardFn.ofFun g) () ms = some rs →
      rs = (shards items workers).map g) ∧
    ∀ s ms,
      (∀ out, processShardedWithError zero items workers fnErr merge s ms = some out →
        ∃ rs, Answered (shards items workers) rs (fnErr.fork items workers s ms).log ∧
          ((∀ r ∈ rs, r.2 = none) → out = (merge (rs.map Prod.fst), none))) ∧
      (fnErr.Returns → ∀ _ : O', ∃ ms',
        (processShardedWithError zero items workers fnErr merge s (ms ++ ms')).isSome = true) := by
  refine ⟨⟨length_shards hitems workers, fun b hb => mem_shardBounds hitems hb,
    flatten_shards hitems workers, pairwise_shards hitems workers⟩,
    fun s ms => ⟨fun rs hrs => ?_, ?_⟩,
    fun g ms rs hrs => processSharded_ofFun hitems hrs, fun s ms => ⟨fun out hout => ?_, ?_⟩⟩
  · obtain ⟨hjoin, rfl⟩ := (processSharded_eq_some hitems).1 hrs
    exact answered_shards hjoin
  · rintro ⟨size, hsize⟩ o
    obtain ⟨ms', hms'⟩ := Fork.exists_joinable fn.body hsize o (fn.fork items workers s ms)
    rw [ShardFn.fork, ← Fork.run_append] at hms'
    exact ⟨ms', Option.isSome_iff_exists.2 ⟨_, (processSharded_eq_some hitems).2 ⟨hms', rfl⟩⟩⟩
  · obtain ⟨hjoin, rfl⟩ := (processShardedWithError_eq_some hitems).1 hout
    refine ⟨(fnErr.fork items workers s ms).results, answered_shards hjoin, fun hnone => ?_⟩
    rw [collect_eq, List.findSome?_eq_none_iff.2 hnone, List.nil_append]
  · rintro ⟨size, hsize⟩ o
    obtain ⟨ms', hms'⟩ := Fork.exists_joinable fnErr.body
      (fun o t s t' h => hsize o s.cancelled t s.memory t' h) o (fnErr.fork items workers s ms)
    rw [CtxShardFn.fork, ← Fork.run_append] at hms'
    exact ⟨ms', Option.isSome_iff_exists.2
      ⟨_, (processShardedWithError_eq_some hitems).2 ⟨hms', rfl⟩⟩⟩

theorem processSharded_spec_sums :
    shards [1, 2, 3, 4, 5] 2 = [[1, 2, 3], [4, 5]] ∧
      ∀ ms rs, processSharded [1, 2, 3, 4, 5] 2 (ShardFn.ofFun List.sum) () ms = some rs →
        rs = [6, 9] := by
  refine ⟨by decide, fun ms rs hrs => ?_⟩
  let sums : CtxShardFn ℕ ℕ Go.Err (List ℕ) Unit Unit Unit :=
    ⟨id, fun _ _ shard s => (.inr (shard.sum, none), s), fun _ s => s⟩
  exact (processSharded_spec (by decide) 2 (ShardFn.ofFun List.sum) sums 0
    List.sum).2.2.1 _ ms rs hrs

/-! ### Failures -/

/-- The failures of shards, in the order in which their functions returned. -/
def failures (log : List (ForkJoin.Event (List T) (R × Option ε))) : List (ℕ × ε) :=
  log.reverse.filterMap fun
    | .ret k (_, some err) => some (k, err)
    | _ => none

theorem mem_failures {log : List (ForkJoin.Event (List T) (R × Option ε))} {k : ℕ} {err : ε} :
    (k, err) ∈ failures log ↔ ∃ value, .ret k (value, some err) ∈ log := by
  simp only [failures, List.mem_filterMap, List.mem_reverse]
  constructor
  · rintro ⟨e, he, heq⟩
    split at heq
    · cases heq
      exact ⟨_, he⟩
    · cases heq
  · rintro ⟨value, he⟩
    exact ⟨_, he, rfl⟩

/-- The shards that have failed, once all have returned. -/
theorem mem_failures_iff {shards : List (List T)} {rs : List (R × Option ε)}
    {log : List (ForkJoin.Event (List T) (R × Option ε))} (h : Answered shards rs log)
    {k : ℕ} {err : ε} :
    (k, err) ∈ failures log ↔ ∃ value, rs[k]? = some (value, some err) := by
  rw [mem_failures]
  exact exists_congr fun value => h.ret_mem_iff

/-- The failure that the loop over the results finds is the one with the least number. -/
theorem findSome?_eq_iff {shards : List (List T)} {rs : List (R × Option ε)}
    {log : List (ForkJoin.Event (List T) (R × Option ε))} (h : Answered shards rs log) {err : ε}
    (hfail : failures log ≠ []) : rs.findSome? Prod.snd = some err ↔
      ∀ q ∈ failures log, (∀ p ∈ failures log, q.1 ≤ p.1) → q.2 = err := by
  -- The loop finds some failure, with nothing but successes before it.
  obtain ⟨found, hfound⟩ : ∃ found, rs.findSome? Prod.snd = some found := by
    obtain ⟨⟨k, err⟩, hmem⟩ := List.exists_mem_of_ne_nil _ hfail
    obtain ⟨value, hk⟩ := (mem_failures_iff h).1 hmem
    rw [← Option.isSome_iff_exists, List.findSome?_isSome_iff]
    exact ⟨_, List.mem_of_getElem? hk, rfl⟩
  obtain ⟨before, ⟨value, err'⟩, after, rfl, herr, hbefore⟩ := List.findSome?_eq_some_iff.1 hfound
  cases herr
  have hmem : (before.length, found) ∈ failures log :=
    (mem_failures_iff h).2 ⟨value, by simp⟩
  have hleast : ∀ p ∈ failures log, before.length ≤ p.1 := fun ⟨k, err⟩ hp => by
    obtain ⟨value', hk⟩ := (mem_failures_iff h).1 hp
    by_contra hlt
    rw [List.getElem?_append_left (Nat.lt_of_not_le hlt)] at hk
    exact absurd (hbefore _ (List.mem_of_getElem? hk)) (by simp)
  rw [hfound, Option.some_inj]
  constructor
  · rintro rfl ⟨k, err⟩ hq hmin
    have hk : k = before.length := le_antisymm (hmin _ hmem) (hleast _ hq)
    obtain ⟨value', hk'⟩ := (mem_failures_iff h).1 hq
    rw [hk] at hk'
    simp at hk'
    exact hk'.2.symm
  · intro hall
    exact hall _ hmem hleast

/-- **`ProcessShardedWithError` reports the first failure in the order of the shards.**  That is the
first failure in time exactly if the failing shard with the least number failed with the same
error. -/
theorem rootCause_iff (items : List T) (workers : ℤ) (fn : CtxShardFn T R ε τ σ O A) (zero : R)
    (merge : List R → R) (s : CtxState σ) (ms : List (Move O (Outside A))) {out : R × Option ε}
    (hout : processShardedWithError zero items workers fn merge s ms = some out) {k : ℕ} {err : ε}
    {later : List (ℕ × ε)}
    (hfirst : failures (fn.fork items workers s ms).log = (k, err) :: later) :
    out = (zero, some err) ↔
      ∀ q ∈ failures (fn.fork items workers s ms).log,
        (∀ p ∈ failures (fn.fork items workers s ms).log, q.1 ≤ p.1) → q.2 = err := by
  have hfail : failures (fn.fork items workers s ms).log ≠ [] := by simp [hfirst]
  have hitems : items ≠ [] := by
    rintro rfl
    obtain ⟨value, hmem⟩ := mem_failures.1 (hfirst ▸ List.mem_cons_self)
    exact absurd ((traced_shards s _ ms).pos_lt _ hmem)
      (by simp [shards, Fork.base_run, Fork.start])
  obtain ⟨hjoin, rfl⟩ := (processShardedWithError_eq_some hitems).1 hout
  have hanswered : Answered (shards items workers) (fn.fork items workers s ms).results
      (fn.fork items workers s ms).log := answered_shards hjoin
  rw [← findSome?_eq_iff hanswered hfail, collect_eq]
  split
  · rename_i found hfound
    rw [hfound]
    simp
  · rename_i hnone
    rw [hnone]
    simp

/-! ### A shard that waits for the others -/

/-- `context.Canceled`. -/
def errCanceled : Go.Err := .msg "context canceled"

/-- The function of the shard `[0]` waits until the context is cancelled; the other one fails. -/
def waitOrFail : CtxShardFn ℕ ℕ Go.Err (List ℕ) Unit Unit Unit where
  start := id
  step := fun _ cancelled shard s =>
    if shard = [0] then
      if cancelled then (.inr (0, some errCanceled), s) else (.inl shard, s)
    else (.inr (0, some (.msg "boom")), s)
  env := fun _ s => s

/-- Of the shards `[1]` and `[0]` the first one fails and cancels the context, and the second one
returns. -/
def boomLower : List (Move Unit (Outside Unit)) :=
  [.spawn, .spawn, .step 0 (), .step 1 (), .step 0 (), .step 0 (), .step 1 (), .step 1 ()]

theorem rootCause_lower :
    processShardedWithError 0 [1, 0] 2 waitOrFail List.sum ⟨false, ()⟩ boomLower =
        some (0, some (.msg "boom")) ∧
      ∀ q ∈ failures (waitOrFail.fork [1, 0] 2 ⟨false, ()⟩ boomLower).log,
        (∀ p ∈ failures (waitOrFail.fork [1, 0] 2 ⟨false, ()⟩ boomLower).log, q.1 ≤ p.1) →
          q.2 = .msg "boom" := by
  have hout : processShardedWithError 0 [1, 0] 2 waitOrFail List.sum ⟨false, ()⟩ boomLower =
      some (0, some (.msg "boom")) := by decide
  have hfirst : failures (waitOrFail.fork [1, 0] 2 ⟨false, ()⟩ boomLower).log =
      [(0, .msg "boom"), (1, errCanceled)] := by decide
  exact ⟨hout, (rootCause_iff _ _ _ _ _ _ _ hout hfirst).1 rfl⟩

/-- Of the shards `[0]` and `[1]` the second one fails and cancels the context, and the first one
returns. -/
def boomHigher : List (Move Unit (Outside Unit)) :=
  [.spawn, .spawn, .step 0 (), .step 1 (), .step 0 (), .step 1 (), .step 1 (), .step 0 (),
    .step 0 ()]

/-- The failure of the second shard is the only one that is not caused by another one, and
`context.Canceled` is reported. -/
theorem rootCause_hidden :
    processShardedWithError 0 [0, 1] 2 waitOrFail List.sum ⟨false, ()⟩ boomHigher =
        some (0, some errCanceled) ∧
      failures (waitOrFail.fork [0, 1] 2 ⟨false, ()⟩ boomHigher).log =
        [(1, .msg "boom"), (0, errCanceled)] := by
  decide

end WolfCore.Concurrency
