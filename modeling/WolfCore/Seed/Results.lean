import WolfCore.Seed.Runner

/-!
# The results of seeding one by one (`infra/seed/runner.go`)

With a transaction for each seeder, the results that `Run` returns should say what became of the
seeders: a seeder is `ok` when its transaction was committed after its `Seed`, and `error` when its
`Seed` or its commit failed.

* `Round`: what happens to one seeder, up to the point where `tx.Commit` is called;
* `rounds`: the rounds of a run, which follow the sessions of `runPerSeeder`;
* `runOne_of_returned`: the one place where the code and its account meet;
* `results_truthful_iff`: the results are truthful if and only if no commit fails.

`runPerSeeder` appends the result to the list and then writes a failed commit into its own copy.
-/

namespace WolfCore.Seed

open Go

variable {δ μ : Type}

/-- A round of `runPerSeeder` whose transaction has begun: its number and its seeder, what `Seed`
returned if it ran, and the session in which `tx.Commit` is called if it is. -/
structure Round (δ μ : Type) where
  n : ℕ
  name : String
  seed : Option (Option Err)
  atCommit : Option (Session δ μ)

/-- What `tx.Commit` returned, if it was called. -/
def Round.commit (faults : Faults) (round : Round δ μ) : Option (Option Err) :=
  round.atCommit.map fun s => (s.commit (faults.commit round.n)).1

/-- The transaction is open when it is to be committed, and the database commits it. -/
def Round.Commits (faults : Faults) (round : Round δ μ) : Prop :=
  ∀ s, round.atCommit = some s → s.tx ≠ none ∧ faults.commit round.n = none

/-- What happens to a seeder in its transaction, which is open in `s`.  A seeder that does not want
to run is committed as well. -/
def roundOf (sc : SeedContext) (n : ℕ) (seeder : Seeder δ μ) (s : Session δ μ) : Round δ μ :=
  match seeder.ask sc s with
  | (.panicked _, _) => ⟨n, seeder.name, none, none⟩
  | (.returned false, s) => ⟨n, seeder.name, none, some s⟩
  | (.returned true, s) =>
      match seeder.seed sc s with
      | (.panicked _, _) => ⟨n, seeder.name, none, none⟩
      | (.returned (some err), _) => ⟨n, seeder.name, some (some err), none⟩
      | (.returned none, s) => ⟨n, seeder.name, some none, some s⟩

/-- The rounds of `runPerSeeder`. -/
def rounds (faults : Faults) (sc : SeedContext) :
    ℕ → List (Seeder δ μ) → Session δ μ → List (Round δ μ)
  | _, [], _ => []
  | n, seeder :: seeders, s =>
      match runOne faults sc n seeder s with
      | (.returned (some _, none), s') =>
          roundOf sc n seeder s.begin :: rounds faults sc (n + 1) seeders s'
      | _ => []

/-- The result says what became of the seeder. -/
structure Truthful (faults : Faults) (result : SeederResult) (round : Round δ μ) : Prop where
  name : result.name = round.name
  ok_iff : (result.status = .ok ∧ result.error = none) ↔
    round.seed ≠ none ∧ round.commit faults = some none
  failed : ∀ err, round.seed = some (some err) ∨ round.commit faults = some (some err) →
    result.status = .error ∧ result.error ≠ none

namespace Runner

/-- The rounds of `Run` after the truncation. -/
def selectedRounds (r : Runner δ μ) (faults : Faults) (opts : RunOptions) (s : Session δ μ) :
    List (Round δ μ) :=
  if r.selected opts = [] then []
  else
    match topologicalSort faults.order (r.selected opts) with
    | .error _ => []
    | .ok sorted => Seed.rounds faults ⟨r.resolveEnv opts, opts.dryRun⟩ 0 sorted s

/-- The rounds of `Run`. -/
def rounds (r : Runner δ μ) (faults : Faults) (opts : RunOptions) (s : Session δ μ) :
    List (Round δ μ) :=
  if r.refuses opts then []
  else if opts.fresh then
    match r.handleFresh faults.truncate (r.selected opts) s with
    | (some _, _) => []
    | (none, s) => r.selectedRounds faults opts s
  else r.selectedRounds faults opts s

end Runner

/-! ### One round -/

theorem commit_eq_none_iff (fault : Option Err) (s : Session δ μ) :
    (s.commit fault).1 = none ↔ s.tx ≠ none ∧ fault = none := by
  unfold Session.commit
  cases s.tx <;> cases fault <;> simp

theorem Round.commits_iff (faults : Faults) (round : Round δ μ) :
    round.Commits faults ↔ ∀ err, round.commit faults ≠ some (some err) := by
  unfold Round.Commits Round.commit
  cases round.atCommit with
  | none => simp
  | some s =>
    simp only [Option.some.injEq, forall_eq', Option.map_some, ne_eq]
    rw [← commit_eq_none_iff]
    cases (s.commit (faults.commit round.n)).1 <;> simp

/-- How a round without a dry run ends: the transaction was not begun and the run is over, or
something panicked, or there is a result.  The result is that of a seeder that did not want to run,
that failed, or that ran. -/
theorem runOne_of_returned {faults : Faults} {sc : SeedContext} (hdry : sc.dryRun = false) {n : ℕ}
    {seeder : Seeder δ μ} {s s' : Session δ μ} {result : Option SeederResult} {err : Option Err}
    (h : runOne faults sc n seeder s = (.returned (result, err), s')) :
    (result = none ∧ err ≠ none) ∨ (err = none ∧
      ((∃ s₁, result = some ⟨seeder.name, .conditionalSkip, none⟩ ∧
          roundOf sc n seeder s.begin = ⟨n, seeder.name, none, some s₁⟩) ∨
        (∃ failure, result = some ⟨seeder.name, .error, some failure⟩ ∧
          roundOf sc n seeder s.begin = ⟨n, seeder.name, some (some failure), none⟩) ∨
        ∃ s₁, result = some ⟨seeder.name, .ok, none⟩ ∧
          roundOf sc n seeder s.begin = ⟨n, seeder.name, some none, some s₁⟩)) := by
  unfold runOne executeSingle at h
  unfold roundOf
  cases hbegin : faults.beginTx n with
  | some err' =>
    simp only [hbegin, Prod.mk.injEq, Outcome.returned.injEq] at h
    obtain ⟨⟨rfl, rfl⟩, -⟩ := h
    exact Or.inl ⟨rfl, by simp⟩
  | none =>
    right
    simp only [hbegin, hdry, Bool.false_eq_true, if_false] at h
    rcases hask : seeder.ask sc s.begin with ⟨(_ | _) | p, s₁⟩
    · simp only [hask, Prod.mk.injEq, Outcome.returned.injEq] at h
      obtain ⟨⟨rfl, rfl⟩, -⟩ := h
      exact ⟨rfl, Or.inl ⟨s₁, rfl, rfl⟩⟩
    · rcases hseed : seeder.seed sc s₁ with ⟨(_ | failure) | p, s₂⟩
      · simp only [hask, hseed, Prod.mk.injEq, Outcome.returned.injEq] at h ⊢
        obtain ⟨⟨rfl, rfl⟩, -⟩ := h
        exact ⟨rfl, Or.inr (Or.inr ⟨s₂, rfl, rfl⟩)⟩
      · simp only [hask, hseed, Prod.mk.injEq, Outcome.returned.injEq] at h ⊢
        obtain ⟨⟨rfl, rfl⟩, -⟩ := h
        exact ⟨rfl, Or.inr (Or.inl ⟨failure, rfl, rfl⟩)⟩
      · simp [hask, hseed] at h
    · simp [hask] at h

/-- The result of a round is truthful if and only if the round does not fail to commit. -/
theorem truthful_iff_commits {faults : Faults} {sc : SeedContext} (hdry : sc.dryRun = false) {n : ℕ}
    {seeder : Seeder δ μ} {s s' : Session δ μ} {result : SeederResult} {err : Option Err}
    (h : runOne faults sc n seeder s = (.returned (some result, err), s')) :
    Truthful faults result (roundOf sc n seeder s.begin) ↔
      (roundOf sc n seeder s.begin).Commits faults := by
  rw [Round.commits_iff]
  rcases runOne_of_returned hdry h with ⟨hnone, -⟩ |
    ⟨-, ⟨s₁, hres, hround⟩ | ⟨failure, hres, hround⟩ |
    ⟨s₁, hres, hround⟩⟩
  · cases hnone
  · -- a seeder that did not want to run: only its commit can fail
    cases hres
    rw [hround]
    constructor
    · intro ht err hcommit
      cases (ht.failed err (Or.inr hcommit)).1
    · intro hc
      exact ⟨rfl, by simp, fun err herr => by simp [hc err] at herr⟩
  · cases hres
    rw [hround]
    constructor
    · intro _ err hcommit
      cases hcommit
    · intro _
      exact ⟨rfl, by simp [Round.commit], fun err _ => by simp⟩
  · -- the result says `ok` before the commit is tried
    cases hres
    rw [hround]
    constructor
    · intro ht err hcommit
      cases (ht.failed err (Or.inr hcommit)).1
    · intro hc
      refine ⟨rfl, ?_, fun err herr => by simp [hc err] at herr⟩
      simp only [and_self, ne_eq, reduceCtorEq, not_false_eq_true, true_and, true_iff]
      rw [Round.commit, Option.map_some]
      cases hcommit : (s₁.commit (faults.commit n)).1 with
      | none => rfl
      | some err => exact absurd (by rw [Round.commit, Option.map_some, hcommit]) (hc err)

/-! ### A whole run -/

/-- What is proved about `runPerSeeder` and then about `Run`. -/
def TruthfulIff (faults : Faults) (results : List SeederResult) (rounds : List (Round δ μ)) :
    Prop :=
  List.Forall₂ (Truthful faults) results rounds ↔ ∀ round ∈ rounds, round.Commits faults

theorem truthfulIff_nil (faults : Faults) : TruthfulIff faults [] ([] : List (Round δ μ)) := by
  simp [TruthfulIff]

theorem runPerSeeder_truthful {faults : Faults} {sc : SeedContext}
    (hdry : sc.dryRun = false) {n : ℕ} {seeders : List (Seeder δ μ)} {s : Session δ μ}
    {results : List SeederResult} {err : Option Err}
    (h : (runPerSeeder faults sc n seeders s).1 = .returned (results, err)) :
    TruthfulIff faults results (rounds faults sc n seeders s) := by
  induction seeders generalizing n s results with
  | nil =>
    cases h
    exact truthfulIff_nil faults
  | cons seeder seeders ih =>
    unfold runPerSeeder at h
    unfold rounds
    rcases hone : runOne faults sc n seeder s with ⟨⟨result, stop⟩ | p, s₁⟩
    · rcases runOne_of_returned hdry hone with ⟨rfl, hstop⟩ | ⟨rfl, hres⟩
      · -- the transaction could not be begun, so this seeder and the rest have no result
        obtain ⟨stop, rfl⟩ := Option.ne_none_iff_exists'.1 hstop
        rw [hone] at h
        cases h
        exact truthfulIff_nil faults
      · obtain ⟨result, rfl⟩ : ∃ result', result = some result' := by
          rcases hres with ⟨_, hres, -⟩ | ⟨_, hres, -⟩ | ⟨_, hres, -⟩ <;> exact ⟨_, hres⟩
        rw [hone] at h
        rcases hrest : runPerSeeder faults sc (n + 1) seeders s₁ with ⟨⟨results', err'⟩ | p, s₂⟩
        · simp only [hrest, Outcome.returned.injEq, Prod.mk.injEq] at h
          obtain ⟨rfl, rfl⟩ := h
          have htail : TruthfulIff faults results' (rounds faults sc (n + 1) seeders s₁) :=
            ih (by rw [hrest])
          show List.Forall₂ _ (result :: results') _ ↔ _
          rw [List.forall₂_cons, List.forall_mem_cons, truthful_iff_commits hdry hone]
          exact and_congr_right fun _ => htail
        · simp [hrest] at h
    · rw [hone] at h
      cases h

namespace Runner

variable {r : Runner δ μ} {faults : Faults} {opts : RunOptions}

theorem runSelected_truthful (hmode : opts.txMode = .perSeeder) (hdry : opts.dryRun = false)
    {s : Session δ μ} {results : List SeederResult} {err : Option Err}
    (h : (r.runSelected faults opts s).1 = .returned (results, err)) :
    TruthfulIff faults results (r.selectedRounds faults opts s) := by
  unfold runSelected at h
  unfold selectedRounds
  split_ifs at h ⊢ with hnil
  · cases h
    exact truthfulIff_nil faults
  · cases hsort : topologicalSort faults.order (r.selected opts) with
    | error err' =>
      simp only [hsort] at h ⊢
      cases h
      exact truthfulIff_nil faults
    | ok sorted =>
      simp only [hsort, hmode] at h ⊢
      exact runPerSeeder_truthful hdry h

/-- **When the results are truthful.**  For every runner, database and pattern of failures: the
results that a run with a transaction for each seeder returns tell what became of the seeders if and
only if each transaction that is to be committed is open, and the database commits it. -/
theorem results_truthful_iff (hmode : opts.txMode = .perSeeder) (hdry : opts.dryRun = false)
    (s : Session δ μ) {results : List SeederResult} {err : Option Err}
    (hrun : (r.run faults opts s).1 = .returned (results, err)) :
    List.Forall₂ (Truthful faults) results (r.rounds faults opts s) ↔
      ∀ round ∈ r.rounds faults opts s, round.Commits faults := by
  unfold run at hrun
  show TruthfulIff faults results (r.rounds faults opts s)
  unfold rounds
  split_ifs at hrun ⊢ with hrefuse hfresh
  · cases hrun
    exact truthfulIff_nil faults
  · rcases hres : r.handleFresh faults.truncate (r.selected opts) s with ⟨_ | err', s'⟩
    · rw [hres] at hrun
      exact runSelected_truthful hmode hdry hrun
    · rw [hres] at hrun
      cases hrun
      exact truthfulIff_nil faults
  · exact runSelected_truthful hmode hdry hrun

end Runner

/-- The options of a run with a transaction for each seeder. -/
def oneByOne : RunOptions := { userOptions false false with txMode := .perSeeder }

/-- A database that loses the connection at the first commit. -/
def commitLost : Faults := { calm with commit := fun _ => some (.msg "driver: bad connection") }

/-- A seeder of roles that fails, and the seeder of users. -/
def rolesFail : Runner ℕ Unit where
  registry := ⟨[{ userSeeder (some (.msg "duplicate key")) with name := "iam.roles" },
    userSeeder none], by decide⟩
  appEnv := "staging"
  truncate := fun _ _ => 0

/-- The result of the seeder of roles is its error and its row is rolled back; the result of the
seeder of users is `ok`, and its row is committed. -/
theorem results_truthful_calm :
    let results : List SeederResult :=
      [⟨"iam.roles", .error, some (.msg "duplicate key")⟩, ⟨"iam.users", .ok, none⟩]
    (rolesFail.run calm oneByOne fiveUsers).1 = .returned (results, none) ∧
    (rolesFail.run calm oneByOne fiveUsers).2.committed = 6 ∧
    List.Forall₂ (Truthful calm) results (rolesFail.rounds calm oneByOne fiveUsers) := by
  intro results
  have hrun : (rolesFail.run calm oneByOne fiveUsers).1 = .returned (results, none) := rfl
  refine ⟨hrun, rfl, (Runner.results_truthful_iff rfl rfl fiveUsers hrun).2 ?_⟩
  intro round hround s hs
  have hmem : round ∈ [(⟨0, "iam.roles", some (some (.msg "duplicate key")), none⟩ : Round ℕ Unit),
    ⟨1, "iam.users", some none, some ⟨5, some 6, ()⟩⟩] := hround
  rcases List.mem_pair.1 hmem with rfl | rfl <;> cases hs
  exact ⟨by simp, rfl⟩

/-- The commit fails and the row of the seeder is not there, but its result is `ok` and `Run`
returns no error. -/
theorem lost_commit_is_ok :
    ((userRunner none).run commitLost oneByOne fiveUsers).1 =
      .returned ([⟨"iam.users", .ok, none⟩], none) ∧
    ((userRunner none).run commitLost oneByOne fiveUsers).2.committed = 5 ∧
    ¬ List.Forall₂ (Truthful commitLost) [⟨"iam.users", .ok, none⟩]
      ((userRunner none).rounds commitLost oneByOne fiveUsers) := by
  refine ⟨rfl, rfl, fun h => ?_⟩
  have hround : (userRunner none).rounds commitLost oneByOne fiveUsers =
      [⟨0, "iam.users", some none, some ⟨5, some 6, ()⟩⟩] := rfl
  rw [hround, List.forall₂_cons] at h
  cases (h.1.failed (.msg "driver: bad connection") (Or.inr rfl)).1

end WolfCore.Seed
