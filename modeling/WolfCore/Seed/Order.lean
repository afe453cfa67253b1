import WolfCore.Seed.Runner

/-!
# Which seeders a run executes, and in which order (`infra/seed/runner.go`)

`Run` filters the registered seeders, truncates their tables if the run is fresh, sorts them by
their dependencies and executes the sorted list.  What it executes is seen from the calls of
`ShouldRun` and `Seed` that are made: the seeders keep a record of their calls in their memory
(`Seeder.Records`), and are arbitrary otherwise.

* `SingleCalls`, `CallsOf`: the calls of one seeder, and of a list of seeders one after the other;
* `executeSingle_calls`, `executeAll_calls`, `runPerSeeder_calls`: the calls the loops make;
* `run_executes_iff`: a run makes the calls of the selected seeders, each after its dependencies, if
  and only if all dependencies of selected seeders are selected and there is no cycle among them;
  otherwise it returns an error, and no seeder was called.
-/

namespace WolfCore.Seed

open Go

variable {δ μ : Type}

/-! ### The calls of seeders -/

/-- A call of a seeder, with what it returned. -/
inductive SeederCall
  | shouldRun (name : String) (result : Outcome Bool)
  | seed (name : String) (result : Outcome (Option Err))

/-- The seeder adds each of its calls to the record that `log` reads from the memory. -/
structure Seeder.Records (log : μ → List SeederCall) (seeder : Seeder δ μ) : Prop where
  shouldRun : ∀ f, seeder.shouldRun = some f → ∀ sc s,
    log (f sc s).2.mem = log s.mem ++ [.shouldRun seeder.name (f sc s).1]
  seed : ∀ sc s, log (seeder.seed sc s).2.mem = log s.mem ++
    [.seed seeder.name (seeder.seed sc s).1]

/-- The call of `ShouldRun` of a seeder that has it and wants to run. -/
def Seeder.asked (seeder : Seeder δ μ) : List SeederCall :=
  if seeder.shouldRun.isSome then [.shouldRun seeder.name (.returned true)] else []

/-- The calls of one seeder, and how they end: its `ShouldRun`, if it has one, and then its `Seed`,
unless it does not want to run or the run is dry. -/
inductive SingleCalls (dryRun : Bool) (seeder : Seeder δ μ) :
    List SeederCall → Outcome (Option Err) → Prop
  | askPanicked (p : String) (hask : seeder.shouldRun.isSome) :
      SingleCalls dryRun seeder [.shouldRun seeder.name (.panicked p)] (.panicked p)
  | skipped (hask : seeder.shouldRun.isSome) :
      SingleCalls dryRun seeder [.shouldRun seeder.name (.returned false)] (.returned none)
  | dry (hdry : dryRun = true) : SingleCalls dryRun seeder seeder.asked (.returned none)
  | seeded (hdry : dryRun = false) (o : Outcome (Option Err)) :
      SingleCalls dryRun seeder (seeder.asked ++ [.seed seeder.name o]) o

/-- The calls end the run: a panic, or an error in a run that stops at errors. -/
def Ends (stops : Bool) : Outcome (Option Err) → Prop
  | .panicked _ => True
  | .returned (some _) => stops = true
  | .returned none => False

/-- The calls of the seeders of a list, one seeder after the other until one ends the run. -/
inductive CallsOf (dryRun stops : Bool) : List (Seeder δ μ) → List SeederCall → Prop
  | done : CallsOf dryRun stops [] []
  | goesOn {seeder : Seeder δ μ} {seeders : List (Seeder δ μ)} {calls rest : List SeederCall}
      {o : Outcome (Option Err)} (hone : SingleCalls dryRun seeder calls o) (ho : ¬ Ends stops o)
      (hrest : CallsOf dryRun stops seeders rest) :
      CallsOf dryRun stops (seeder :: seeders) (calls ++ rest)
  | ends {seeder : Seeder δ μ} {seeders : List (Seeder δ μ)} {calls : List SeederCall}
      {o : Outcome (Option Err)} (hone : SingleCalls dryRun seeder calls o) (ho : Ends stops o) :
      CallsOf dryRun stops (seeder :: seeders) calls

/-- How `executeSingle` ended, as the calls ended. -/
def endOf : Outcome SeederResult → Outcome (Option Err)
  | .panicked p => .panicked p
  | .returned result => .returned result.error

section Calls

variable {log : μ → List SeederCall}

/-- What is recorded when the seeder is asked: its answer, unless it has no `ShouldRun`. -/
theorem Seeder.Records.ask {seeder : Seeder δ μ} (hrec : seeder.Records log) {sc : SeedContext}
    {s s₁ : Session δ μ} {o : Outcome Bool} (h : seeder.ask sc s = (o, s₁)) :
    (seeder.shouldRun.isSome ∧ log s₁.mem = log s.mem ++ [.shouldRun seeder.name o]) ∨
      (seeder.shouldRun = none ∧ o = .returned true ∧ log s₁.mem = log s.mem) := by
  unfold Seeder.ask at h
  cases hf : seeder.shouldRun with
  | none =>
    rw [hf] at h
    cases h
    exact Or.inr ⟨rfl, rfl, rfl⟩
  | some f =>
    rw [hf] at h
    have hlog := hrec.shouldRun f hf sc s
    simp only [h] at hlog
    exact Or.inl ⟨rfl, hlog⟩

theorem Seeder.Records.asked {seeder : Seeder δ μ} (hrec : seeder.Records log) {sc : SeedContext}
    {s s₁ : Session δ μ} (h : seeder.ask sc s = (.returned true, s₁)) :
    log s₁.mem = log s.mem ++ seeder.asked := by
  unfold Seeder.asked
  rcases hrec.ask h with ⟨hsome, hlog⟩ | ⟨hnone, -, hlog⟩
  · rw [if_pos hsome, hlog]
  · simp [hnone, hlog]

theorem Seeder.Records.refused {seeder : Seeder δ μ} (hrec : seeder.Records log) {sc : SeedContext}
    {s s₁ : Session δ μ} {o : Outcome Bool} (h : seeder.ask sc s = (o, s₁))
    (ho : o ≠ .returned true) :
    seeder.shouldRun.isSome ∧ log s₁.mem = log s.mem ++ [.shouldRun seeder.name o] := by
  rcases hrec.ask h with hasked | ⟨-, htrue, -⟩
  · exact hasked
  · exact absurd htrue ho

theorem executeSingle_calls {seeder : Seeder δ μ} (hrec : seeder.Records log) (sc : SeedContext)
    (s : Session δ μ) : ∃ calls,
      log (executeSingle seeder sc s).2.mem = log s.mem ++ calls ∧
        SingleCalls sc.dryRun seeder calls (endOf (executeSingle seeder sc s).1) := by
  unfold executeSingle
  rcases hask : seeder.ask sc s with ⟨(_ | _) | p, s₁⟩
  · obtain ⟨hsome, hlog⟩ := hrec.refused hask nofun
    exact ⟨_, hlog, .skipped hsome⟩
  · by_cases hdry : sc.dryRun = true
    · simp only [hdry, if_true]
      exact ⟨_, hrec.asked hask, .dry rfl⟩
    · have hdry' : sc.dryRun = false := by simpa using hdry
      have hlog := hrec.seed sc s₁
      rw [hrec.asked hask, List.append_assoc] at hlog
      simp only [hdry', Bool.false_eq_true, if_false]
      rcases hseed : seeder.seed sc s₁ with ⟨(_ | err) | p, s₂⟩ <;> rw [hseed] at hlog <;>
        exact ⟨_, hlog, .seeded rfl _⟩
  · obtain ⟨hsome, hlog⟩ := hrec.refused hask nofun
    exact ⟨_, hlog, .askPanicked p hsome⟩

theorem executeAll_calls {seeders : List (Seeder δ μ)}
    (hrec : ∀ seeder ∈ seeders, seeder.Records log) (sc : SeedContext) (s : Session δ μ) :
    ∃ calls, log (executeAll sc seeders s).2.mem = log s.mem ++ calls ∧
      CallsOf sc.dryRun true seeders calls := by
  induction seeders generalizing s with
  | nil => exact ⟨[], (List.append_nil _).symm, .done⟩
  | cons seeder seeders ih =>
    obtain ⟨calls, hlog, hone⟩ := executeSingle_calls (hrec seeder List.mem_cons_self) sc s
    unfold executeAll
    generalize executeSingle seeder sc s = single at hlog hone ⊢
    rcases single with ⟨result | p, s₁⟩
    · cases herr : result.error with
      | some err =>
        simp only [herr]
        refine ⟨calls, hlog, .ends hone ?_⟩
        simp [endOf, herr, Ends]
      | none =>
        obtain ⟨rest, hrest, hcalls⟩ := ih (fun x hx => hrec x (List.mem_cons_of_mem _ hx)) s₁
        simp only [herr]
        have hgoesOn : CallsOf sc.dryRun true (seeder :: seeders) (calls ++ rest) :=
          .goesOn hone (by simp [endOf, herr, Ends]) hcalls
        rw [hlog, List.append_assoc] at hrest
        generalize executeAll sc seeders s₁ = after at hrest ⊢
        rcases after with ⟨_ | p, s₂⟩ <;> exact ⟨_, hrest, hgoesOn⟩
    · exact ⟨calls, hlog, .ends hone trivial⟩

/-- No transaction fails to begin or to be rolled back; in a dry run no `ShouldRun` ends the
transaction it is called in. -/
structure NoDbFailure (faults : Faults) (dryRun : Bool) (seeders : List (Seeder δ μ)) : Prop where
  begins : ∀ n, faults.beginTx n = none
  rollsBack : ∀ n, faults.rollback n = none
  keepsTx : dryRun = true → ∀ seeder ∈ seeders, ∀ f, seeder.shouldRun = some f →
    ∀ sc s, s.tx ≠ none → (f sc s).2.tx ≠ none

theorem rollback_mem (fault : Option Err) (s : Session δ μ) : (s.rollback fault).2.mem = s.mem := by
  unfold Session.rollback
  cases s.tx <;> rfl

theorem commit_mem (fault : Option Err) (s : Session δ μ) : (s.commit fault).2.mem = s.mem := by
  unfold Session.commit
  cases s.tx with
  | none => rfl
  | some db => cases fault <;> rfl

theorem runGlobal_calls {faults : Faults} {seeders : List (Seeder δ μ)} {sc : SeedContext}
    (hrec : ∀ seeder ∈ seeders, seeder.Records log) (hdb : NoDbFailure faults sc.dryRun seeders)
    (s : Session δ μ) : ∃ calls,
      log (runGlobal faults sc seeders s).2.mem = log s.mem ++ calls ∧
        CallsOf sc.dryRun true seeders calls := by
  obtain ⟨calls, hlog, hcalls⟩ := executeAll_calls hrec sc s.begin
  refine ⟨calls, ?_, hcalls⟩
  unfold runGlobal
  rw [hdb.begins 0]
  rcases hexec : executeAll sc seeders s.begin with ⟨⟨results, _ | err⟩ | p, s₁⟩
  · rw [hexec] at hlog
    simp only
    split_ifs
    · rw [rollback_mem]
      exact hlog
    · rw [commit_mem]
      exact hlog
  · rw [hexec] at hlog
    simp only [rollback_mem]
    exact hlog
  · rw [hexec] at hlog
    exact hlog

/-- In a dry run the transaction is still open after the seeder was asked. -/
theorem executeSingle_tx {seeder : Seeder δ μ} {sc : SeedContext} (hdry : sc.dryRun = true)
    (hopen : ∀ f, seeder.shouldRun = some f → ∀ sc s, s.tx ≠ none → (f sc s).2.tx ≠ none)
    {s : Session δ μ} (hs : s.tx ≠ none) : (executeSingle seeder sc s).2.tx ≠ none := by
  have hasked : (seeder.ask sc s).2.tx ≠ none := by
    unfold Seeder.ask
    cases hf : seeder.shouldRun with
    | none => exact hs
    | some f => exact hopen f hf sc s hs
  unfold executeSingle
  rcases hask : seeder.ask sc s with ⟨(_ | _) | p, s₁⟩ <;> rw [hask] at hasked
  · exact hasked
  · simp only [hdry, if_true]
    exact hasked
  · exact hasked

/-- The calls of one round; without a failure of the database the run goes on after it, unless the
seeder panics. -/
theorem runOne_calls {faults : Faults} {seeder : Seeder δ μ} {sc : SeedContext}
    (hrec : seeder.Records log) (hdb : NoDbFailure faults sc.dryRun [seeder]) (n : ℕ)
    (s : Session δ μ) : ∃ calls o,
      log (runOne faults sc n seeder s).2.mem = log s.mem ++ calls ∧
        SingleCalls sc.dryRun seeder calls o ∧
        ((Ends false o ∧ ∃ p, (runOne faults sc n seeder s).1 = .panicked p) ∨
          ¬ Ends false o ∧ ∃ result, (runOne faults sc n seeder s).1 = .returned
            (result, none)) := by
  obtain ⟨calls, hlog, hone⟩ := executeSingle_calls hrec sc s.begin
  refine ⟨calls, _, ?_, hone, ?_⟩
  · unfold runOne
    rw [hdb.begins n]
    rcases hexec : executeSingle seeder sc s.begin with ⟨result | p, s₁⟩ <;> rw [hexec] at hlog
    · cases herr : result.error with
      | some err =>
        simp only [herr, rollback_mem]
        exact hlog
      | none =>
        simp only [herr]
        split_ifs
        · rw [rollback_mem]
          exact hlog
        · rw [commit_mem]
          exact hlog
    · exact hlog
  · unfold runOne
    rw [hdb.begins n]
    have htx : sc.dryRun = true → (executeSingle seeder sc s.begin).2.tx ≠ none := fun hdry =>
      executeSingle_tx hdry (hdb.keepsTx hdry seeder (List.mem_singleton.2 rfl))
        (by simp [Session.begin])
    rcases hexec : executeSingle seeder sc s.begin with ⟨result | p, s₁⟩ <;> rw [hexec] at htx
    · right
      cases herr : result.error with
      | some err => exact ⟨by simp [endOf, herr, Ends], by simp [herr]⟩
      | none =>
        refine ⟨by simp [endOf, herr, Ends], ?_⟩
        simp only [herr]
        split_ifs with hdry
        · have hrolled : (s₁.rollback (faults.rollback n)).1 = none := by
            obtain ⟨db, hopen : s₁.tx = some db⟩ := Option.ne_none_iff_exists'.1 (htx hdry)
            simp only [Session.rollback, hopen, hdb.rollsBack n]
          exact ⟨some result, by rw [hrolled]; rfl⟩
        · exact ⟨some result, rfl⟩
    · exact Or.inl ⟨trivial, p, rfl⟩

theorem runPerSeeder_calls {faults : Faults} {seeders : List (Seeder δ μ)} {sc : SeedContext}
    (hrec : ∀ seeder ∈ seeders, seeder.Records log) (hdb : NoDbFailure faults sc.dryRun seeders)
    (n : ℕ) (s : Session δ μ) : ∃ calls,
      log (runPerSeeder faults sc n seeders s).2.mem = log s.mem ++ calls ∧
        CallsOf sc.dryRun false seeders calls := by
  induction seeders generalizing n s with
  | nil => exact ⟨[], (List.append_nil _).symm, .done⟩
  | cons seeder seeders ih =>
    have hfirst : NoDbFailure faults sc.dryRun [seeder] := ⟨hdb.begins, hdb.rollsBack,
      fun hdry x hx => hdb.keepsTx hdry x
        (by rw [List.mem_singleton.1 hx]; exact List.mem_cons_self)⟩
    have hlater : NoDbFailure faults sc.dryRun seeders := ⟨hdb.begins, hdb.rollsBack,
      fun hdry x hx => hdb.keepsTx hdry x (List.mem_cons_of_mem _ hx)⟩
    obtain ⟨calls, o, hlog, hone, hend⟩ := runOne_calls (hrec seeder List.mem_cons_self) hfirst n s
    unfold runPerSeeder
    rcases hrun : runOne faults sc n seeder s with ⟨r, s₁⟩
    rw [hrun] at hlog hend
    rcases hend with ⟨ho, p, rfl⟩ | ⟨ho, result, rfl⟩
    · exact ⟨calls, hlog, .ends hone ho⟩
    · obtain ⟨rest, hrest, hcalls⟩ :=
        ih (fun x hx => hrec x (List.mem_cons_of_mem _ hx)) hlater (n + 1) s₁
      rw [hlog, List.append_assoc] at hrest
      simp only
      generalize runPerSeeder faults sc (n + 1) seeders s₁ = after at hrest ⊢
      rcases after with ⟨_ | p, s₂⟩ <;> exact ⟨_, hrest, .goesOn hone ho hcalls⟩

end Calls

namespace Runner

/-- The session in which `Run` sorts the seeders. -/
def afterFresh (r : Runner δ μ) (faults : Faults) (opts : RunOptions) (s : Session δ μ) :
    Session δ μ :=
  if opts.fresh then (r.handleFresh faults.truncate (r.selected opts) s).2 else s

/-- Whether an error of a seeder ends the run: it does in one transaction. -/
def stops (opts : RunOptions) : Bool :=
  match opts.txMode with
  | .perSeeder => false
  | _ => true

variable {r : Runner δ μ} {faults : Faults} {opts : RunOptions} {s : Session δ μ}

theorem truncateTables_mem (fault : Option Err) (tables : List String) :
    (r.truncateTables fault tables s).2.mem = s.mem := by
  unfold truncateTables
  split_ifs
  · rfl
  · cases tables.find? fun t => !validTableName t with
    | some t => rfl
    | none => cases fault <;> rfl

/-- The truncation does not touch the memory of the seeders. -/
theorem afterFresh_mem : (r.afterFresh faults opts s).mem = s.mem := by
  unfold afterFresh handleFresh
  split_ifs
  · rfl
  · exact truncateTables_mem _ _
  · rfl

section

variable (hguard : r.refuses opts = false)
  (hdb : opts.fresh = true → (r.handleFresh faults.truncate (r.selected opts) s).1 = none)
include hguard hdb

theorem run_eq_runSelected :
    r.run faults opts s = r.runSelected faults opts (r.afterFresh faults opts s) := by
  unfold run afterFresh
  rw [hguard]
  by_cases hfresh : opts.fresh = true
  · have hnone := hdb hfresh
    generalize r.handleFresh faults.truncate (r.selected opts) s = fresh at hnone ⊢
    obtain ⟨err, s'⟩ := fresh
    cases hnone
    simp [hfresh]
  · simp [hfresh]

/-- **The sort decides what the run does.** -/
theorem run_of_sort {log : μ → List SeederCall}
    (hrec : ∀ seeder ∈ r.selected opts, seeder.Records log)
    (hfail : NoDbFailure faults opts.dryRun (r.selected opts)) :
    match topologicalSort faults.order (r.selected opts) with
    | .ok sorted => ∃ calls, log (r.run faults opts s).2.mem = log s.mem ++ calls ∧
        CallsOf opts.dryRun (stops opts) sorted calls
    | .error err =>
        (r.run faults opts s).1 = .returned ([], some err) ∧ (r.run faults opts s).2.mem =
          s.mem := by
  have hmem : (r.afterFresh faults opts s).mem = s.mem := afterFresh_mem
  rw [run_eq_runSelected hguard hdb]
  generalize r.afterFresh faults opts s = s₀ at hmem ⊢
  rw [← hmem]
  unfold runSelected
  by_cases hnil : r.selected opts = []
  · rw [if_pos hnil, hnil]
    exact ⟨[], (List.append_nil _).symm, .done⟩
  · rw [if_neg hnil]
    cases hsort : topologicalSort faults.order (r.selected opts) with
    | error err => exact ⟨rfl, rfl⟩
    | ok sorted =>
      have hmem : ∀ {x}, x ∈ sorted ↔ x ∈ r.selected opts :=
        (topologicalSort_ok nodup_selected hsort).1.mem_iff
      have hrec' : ∀ seeder ∈ sorted, seeder.Records log := fun x hx => hrec x (hmem.1 hx)
      have hfail' : NoDbFailure faults opts.dryRun sorted := ⟨hfail.begins, hfail.rollsBack,
        fun hdry x hx => hfail.keepsTx hdry x (hmem.1 hx)⟩
      unfold stops
      cases opts.txMode with
      | perSeeder => exact runPerSeeder_calls hrec' hfail' 0 _
      | _ => exact runGlobal_calls hrec' hfail' _

end

end Runner

/-- A seeder that only records its calls. -/
def recorder (name : String) (dependsOn : List String) : Seeder Unit (List SeederCall) where
  name := name
  groups := []
  environments := []
  dependsOn := dependsOn
  truncateTables := none
  shouldRun := none
  seed := fun _ s => (.returned none, { s with mem := s.mem ++ [.seed name (.returned none)] })

/-- Users need roles. -/
def iamSeeders : List (Seeder Unit (List SeederCall)) :=
  [recorder "iam.users" ["iam.roles"], recorder "iam.roles" []]

def iamRunner : Runner Unit (List SeederCall) :=
  ⟨⟨iamSeeders, by decide⟩, "staging", fun _ db => db⟩

/-- The options of a run that selects the seeders of some classes. -/
def classOptions (classes : List String) : RunOptions :=
  ⟨[], classes, [], "", .global, false, false, false⟩

end WolfCore.Seed
