import WolfCore.Lib.ForkJoin
import Mathlib.Data.List.Sort
import Mathlib.Data.List.TakeWhile

/-!
# Ordered shutdown (`infra/concurrency/shutdown.go`)

A `ShutdownGroup` holds closers with priorities.  `Shutdown` sorts them by priority, keeping the
order of registration within a priority, cuts the sorted list into batches of equal priority, and
closes one batch after the other, the closers of a batch concurrently.  The errors are joined.

* `sorted`, `batches`: the sort and the loop that cuts the sorted list;
* `startOf_batches`: closers with a lower priority are in an earlier batch;
* `shutdown_order`: what holds of every schedule.
-/

namespace WolfCore.Concurrency

open ForkJoin

variable {κ ε τ σ O A : Type}

/-- `shutdownEntry`. -/
structure ShutdownEntry (κ : Type) where
  priority : ℤ
  name : String
  closer : κ

structure ShutdownGroup (κ : Type) where
  entries : List (ShutdownEntry κ)

/-- `ShutdownGroup.Add`. -/
def ShutdownGroup.add (g : ShutdownGroup κ) (priority : ℤ) (name : String) (closer : κ) :
    ShutdownGroup κ := ⟨g.entries ++ [⟨priority, name, closer⟩]⟩

/-! ### The order of the closers -/

/-- `sort.SliceStable` by priority. -/
def sorted (entries : List (ShutdownEntry κ)) : List (ShutdownEntry κ) :=
  entries.insertionSort fun a b => a.priority ≤ b.priority

/-- The loop that cuts the sorted entries into batches; each round takes at least one entry. -/
def batchesFrom : ℕ → List (ShutdownEntry κ) → List (List (ShutdownEntry κ))
  | 0, _ => []
  | _ + 1, [] => []
  | rounds + 1, e :: entries =>
      (e :: entries).takeWhile (fun e' => e'.priority = e.priority) ::
        batchesFrom rounds ((e :: entries).dropWhile fun e' => e'.priority = e.priority)

def batches (entries : List (ShutdownEntry κ)) : List (List (ShutdownEntry κ)) :=
  batchesFrom entries.length entries

theorem sorted_perm (entries : List (ShutdownEntry κ)) : (sorted entries).Perm entries :=
  List.perm_insertionSort _ entries

instance : Std.Total fun a b : ShutdownEntry κ => a.priority ≤ b.priority :=
  ⟨fun a b => le_total a.priority b.priority⟩

instance : IsTrans (ShutdownEntry κ) fun a b => a.priority ≤ b.priority := ⟨fun _ _ _ => le_trans⟩

theorem pairwise_sorted (entries : List (ShutdownEntry κ)) :
    (sorted entries).Pairwise fun a b => a.priority ≤ b.priority :=
  List.pairwise_insertionSort _ entries

/-- The sort keeps the order of registration within a priority. -/
theorem filter_sorted (entries : List (ShutdownEntry κ)) (p : ℤ) :
    (sorted entries).filter (fun e => e.priority = p) =
      entries.filter fun e => e.priority = p := by
  have hpairwise : (entries.filter fun e => e.priority = p).Pairwise
      fun a b => a.priority ≤ b.priority := List.pairwise_iff_forall_sublist.2 fun {a b} hab => by
    have ha := List.mem_filter.1 (hab.subset List.mem_cons_self)
    have hb := List.mem_filter.1 (hab.subset (List.mem_cons_of_mem _ List.mem_cons_self))
    simp only [decide_eq_true_eq] at ha hb
    omega
  have hsub := (List.sublist_insertionSort hpairwise List.filter_sublist).filter
    fun e => e.priority = p
  rw [List.filter_filter] at hsub
  simp only [Bool.and_self] at hsub
  exact (hsub.eq_of_length ((sorted_perm entries).filter _).length_eq.symm).symm

/-- A round takes at least one entry. -/
theorem length_rest_le {rounds : ℕ} {e : ShutdownEntry κ} {entries : List (ShutdownEntry κ)}
    (h : (e :: entries).length ≤ rounds + 1) :
    ((e :: entries).dropWhile fun e' => e'.priority = e.priority).length ≤ rounds := by
  rw [List.dropWhile_cons_of_pos (by simp)]
  exact (List.length_dropWhile_le ..).trans (Nat.le_of_succ_le_succ h)

theorem flatten_batchesFrom {rounds : ℕ} {entries : List (ShutdownEntry κ)}
    (h : entries.length ≤ rounds) : (batchesFrom rounds entries).flatten = entries := by
  induction rounds generalizing entries with
  | zero =>
    rw [Nat.le_zero, List.length_eq_zero_iff] at h
    subst h
    rfl
  | succ rounds ih =>
    cases entries with
    | nil => rfl
    | cons e entries =>
      rw [batchesFrom, List.flatten_cons, ih (length_rest_le h), List.takeWhile_append_dropWhile]

theorem flatten_batches (entries : List (ShutdownEntry κ)) : (batches entries).flatten = entries :=
  flatten_batchesFrom le_rfl

/-- Entries of one priority in front of the others are the first batch. -/
theorem exists_batches_append {es rest : List (ShutdownEntry κ)} {p : ℤ} (hne : es ≠ [])
    (hes : ∀ e ∈ es, e.priority = p) (hrest : ∀ e ∈ rest, e.priority ≠ p) :
    ∃ later, batches (es ++ rest) = es :: later := by
  obtain ⟨e, es, rfl⟩ := List.exists_cons_of_ne_nil hne
  have hp : e.priority = p := hes e List.mem_cons_self
  have hlater : rest.takeWhile (fun e' => e'.priority = e.priority) = [] := by
    cases rest with
    | nil => rfl
    | cons r rest =>
      exact List.takeWhile_cons_of_neg (by simpa [hp] using hrest r List.mem_cons_self)
  have hbatch : (e :: es ++ rest).takeWhile (fun e' => e'.priority = e.priority) = e :: es := by
    rw [List.takeWhile_append_of_pos (fun e' he' => by simp [hes e' he', hp]), hlater,
      List.append_nil]
  exact ⟨_, congrArg₂ List.cons hbatch rfl⟩

/-- Of two entries, the one with the lower priority is in an earlier batch. -/
theorem startOf_batchesFrom {rounds : ℕ} {entries : List (ShutdownEntry κ)}
    (hsorted : entries.Pairwise fun a b => a.priority ≤ b.priority) (h : entries.length ≤ rounds)
    {j k : ℕ} {a b : ShutdownEntry κ} (ha : entries[j]? = some a) (hb : entries[k]? = some b)
    (hlt : a.priority < b.priority) : j < startOf (batchesFrom rounds entries) k := by
  induction rounds generalizing entries j k with
  | zero =>
    rw [Nat.le_zero, List.length_eq_zero_iff] at h
    subst h
    cases ha
  | succ rounds ih =>
    cases entries with
    | nil => cases ha
    | cons e entries =>
      have hmin : ∀ a ∈ e :: entries, e.priority ≤ a.priority := by
        rintro a (_ | ⟨_, hmem⟩)
        · exact le_rfl
        · exact (List.pairwise_cons.1 hsorted).1 a hmem
      have hsplit := List.takeWhile_append_dropWhile (p := fun e' => e'.priority = e.priority)
        (l := e :: entries)
      rw [batchesFrom, startOf]
      generalize hbatch : (e :: entries).takeWhile (fun e' => e'.priority = e.priority) = batch at *
      generalize hrest : (e :: entries).dropWhile (fun e' => e'.priority = e.priority) = rest at *
      have hk : ¬k < batch.length := fun hk => by
        -- The entries of the first batch have the least priority.
        rw [← hsplit, List.getElem?_append_left hk] at hb
        have hmem := List.mem_of_getElem? hb
        rw [← hbatch] at hmem
        have heq := List.mem_takeWhile_imp hmem
        have hle := hmin a (List.mem_of_getElem? ha)
        simp only [decide_eq_true_eq] at heq
        omega
      rw [if_neg hk]
      by_cases hj : j < batch.length
      · omega
      · rw [← hsplit] at ha hb hsorted
        rw [List.getElem?_append_right (Nat.le_of_not_lt hj)] at ha
        rw [List.getElem?_append_right (Nat.le_of_not_lt hk)] at hb
        have hrec := ih (List.pairwise_append.1 hsorted).2.1 (hrest ▸ length_rest_le h) ha hb
        omega

theorem startOf_batches {entries : List (ShutdownEntry κ)} {j k : ℕ} {a b : ShutdownEntry κ}
    (ha : (sorted entries)[j]? = some a) (hb : (sorted entries)[k]? = some b)
    (hlt : a.priority < b.priority) : j < startOf (batches (sorted entries)) k :=
  startOf_batchesFrom (pairwise_sorted entries) le_rfl ha hb hlt

/-! ### `Shutdown` -/

/-- What `Close` does for each closer: a program that takes steps over a memory of its surroundings
and returns an error or nil. -/
structure CloseFn (κ ε τ σ O A : Type) where
  start : κ → τ
  step : O → τ → σ → (τ ⊕ Option ε) × σ
  env : A → σ → σ

/-- The goroutines of `Shutdown`. -/
def CloseFn.body (close : CloseFn κ ε τ σ O A) : Body (ShutdownEntry κ) τ (Option ε) σ O A where
  start := fun e => close.start e.closer
  step := close.step
  finish := fun _ s => s
  env := close.env

def CloseFn.Returns (close : CloseFn κ ε τ σ O A) : Prop :=
  ∃ size : τ → ℕ, ∀ o t s t', (close.step o t s).1 = .inl t' → size t' < size t

/-- `ShutdownGroup.Shutdown`, after a schedule. -/
def ShutdownGroup.run (g : ShutdownGroup κ) (close : CloseFn κ ε τ σ O A) (s : σ)
    (ms : List (BatchMove O A)) : Batches (ShutdownEntry κ) τ (Option ε) σ :=
  (Batches.start s (batches (sorted g.entries))).run close.body ms

/-- The errors of the batches, appended batch by batch. -/
def allErrs (joined : List (List (Option ε))) : List ε :=
  joined.foldl (fun errs batchErrs => errs ++ batchErrs.filterMap id) []

/-- `errors.Join` of errors that are not nil. -/
def joinErrs : List ε → Option (List ε)
  | [] => none
  | errs => some errs

/-- What `Shutdown` returns, after a schedule: `none` while it waits. -/
def ShutdownGroup.shutdown (g : ShutdownGroup κ) (close : CloseFn κ ε τ σ O A) (s : σ)
    (ms : List (BatchMove O A)) : Option (Option (List ε)) :=
  if (g.run close s ms).ended then some (joinErrs (allErrs (g.run close s ms).joined)) else none

theorem allErrs_eq (joined : List (List (Option ε))) :
    allErrs joined = joined.flatten.filterMap id := by
  suffices h : ∀ errs, joined.foldl (fun errs batchErrs => errs ++ batchErrs.filterMap id) errs =
      errs ++ joined.flatten.filterMap id from (h []).trans (List.nil_append _)
  induction joined with
  | nil => simp
  | cons batchErrs joined ih =>
    intro errs
    rw [List.foldl_cons, ih, List.flatten_cons, List.filterMap_append, List.append_assoc]

section Run

variable {g : ShutdownGroup κ} {close : CloseFn κ ε τ σ O A} {s : σ} {ms : List (BatchMove O A)}

variable (g close s ms) in
theorem ShutdownGroup.inv_run :
    ∃ front batch, (g.run close s ms).Inv (batches (sorted g.entries)) front batch :=
  Batches.inv_run close.body s (batches (sorted g.entries)) ms

/-- When a closer is called, all closers with a lower priority have returned. -/
theorem ShutdownGroup.lower_returned
    {later earlier : List (ForkJoin.Event (ShutdownEntry κ) (Option ε))}
    {k : ℕ} {b : ShutdownEntry κ}
    (hlog : (g.run close s ms).fork.log = later ++ .call k b :: earlier) :
    (sorted g.entries)[k]? = some b ∧
      ∀ j a, (sorted g.entries)[j]? = some a → a.priority < b.priority →
        ∃ err, .ret j err ∈ earlier := by
  obtain ⟨front, batch, hinv⟩ := g.inv_run close s ms
  have hb : (sorted g.entries)[k]? = some b := by
    rw [← flatten_batches (sorted g.entries)]
    exact hinv.input_of_call (by simp [hlog])
  refine ⟨hb, fun j a ha hlt => ?_⟩
  have hordered := hinv.ordered
  rw [hlog] at hordered
  exact hordered.split (startOf_batches ha hb hlt)

theorem ShutdownGroup.shutdown_eq_some {out : Option (List ε)}
    (hout : g.shutdown close s ms = some out) :
    Answered (sorted g.entries) (g.run close s ms).joined.flatten (g.run close s ms).fork.log ∧
      out = joinErrs ((g.run close s ms).joined.flatten.filterMap id) := by
  rw [ShutdownGroup.shutdown] at hout
  split_ifs at hout with hended
  cases hout
  obtain ⟨front, batch, hinv⟩ := g.inv_run close s ms
  have hanswered := hinv.answered hended
  rw [flatten_batches] at hanswered
  exact ⟨hanswered, by rw [allErrs_eq]⟩

end Run

/-- **`Shutdown` closes in the order of priorities.**  Let the closers be sorted by priority, in the
order of registration within a priority.  Under every schedule, no closer is called twice, and when
a closer is called, all closers with a lower priority have returned.  When `Shutdown` returns, each
closer has been called once and has returned, and the result joins the errors, in the sorted order.
`Shutdown` returns if the closers do, whether they fail or not. -/
theorem shutdown_order (g : ShutdownGroup κ) (close : CloseFn κ ε τ σ O A) (s : σ) :
    ((sorted g.entries).Perm g.entries ∧
      (sorted g.entries).Pairwise (fun a b => a.priority ≤ b.priority) ∧
      ∀ p, (sorted g.entries).filter (fun e => e.priority = p) =
        g.entries.filter fun e => e.priority = p) ∧
    ∀ ms,
      (∀ k, ((g.run close s ms).fork.log.filter fun e => e.pos = k).countP
        ForkJoin.Event.isCall ≤ 1) ∧
      (∀ later k b earlier, (g.run close s ms).fork.log = later ++ .call k b :: earlier →
        (sorted g.entries)[k]? = some b ∧
          ∀ j a, (sorted g.entries)[j]? = some a → a.priority < b.priority →
            ∃ err, .ret j err ∈ earlier) ∧
      (∀ out, g.shutdown close s ms = some out → ∃ errs,
        Answered (sorted g.entries) errs (g.run close s ms).fork.log ∧
          out = joinErrs (errs.filterMap id)) ∧
      (close.Returns → ∀ _ : O, ∃ ms', (g.shutdown close s (ms ++ ms')).isSome = true) := by
  refine ⟨⟨sorted_perm _, pairwise_sorted _, filter_sorted _⟩, fun ms => ⟨?_, ?_, ?_, ?_⟩⟩
  · obtain ⟨front, batch, hinv⟩ := g.inv_run close s ms
    exact hinv.calls_le_one
  · exact fun later k b earlier hlog => ShutdownGroup.lower_returned hlog
  · exact fun out hout => ⟨_, ShutdownGroup.shutdown_eq_some hout⟩
  · rintro ⟨size, hsize⟩ o
    obtain ⟨ms', hms'⟩ := Batches.exists_ended close.body hsize o (g.run close s ms)
    rw [ShutdownGroup.run, ← Batches.run_append] at hms'
    exact ⟨ms', by rw [ShutdownGroup.shutdown, ShutdownGroup.run, if_pos hms']; rfl⟩

end WolfCore.Concurrency
