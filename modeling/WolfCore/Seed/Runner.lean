import WolfCore.Seed.Selection

/-!
# The seed runner (`infra/seed/runner.go`, `infra/seed/truncator.go`)

`Runner.Run` selects the seeders, truncates their tables if the run is fresh, sorts the seeders, and
runs them in one transaction or each in its own.  The truncation works on the connection pool: it is
committed before the first transaction starts, whatever happens afterwards and also in a dry run.

`dryRun_readOnly_iff` and `global_atomic_iff` say when a dry run leaves the committed database as it
was, and when a failed run in one transaction does.  Both come down to the same condition, that
nothing is truncated.

The effect of `TRUNCATE` on a database is a parameter, and its failures are choices of the
environment.  A statement that fails changes nothing, and a commit that fails commits nothing.
-/

namespace WolfCore.Seed

open Go

/-- `TxMode`. -/
inductive TxMode
  | global
  | perSeeder
  | other (text : String)

/-- `RunOptions`. -/
structure RunOptions where
  groups : List String
  classes : List String
  skip : List String
  env : String
  txMode : TxMode
  dryRun : Bool
  fresh : Bool
  force : Bool

/-- The `Status` of a result. -/
inductive Status
  | ok
  | error
  | dryRun
  | conditionalSkip
  deriving DecidableEq

/-- `SeederResult`, without the duration. -/
structure SeederResult where
  name : String
  status : Status
  error : Option Err

/-- `Runner`: its registry, the environment of its configuration, and what `TRUNCATE TABLE … RESTART
IDENTITY CASCADE` does to the database. -/
structure Runner (δ μ : Type) where
  registry : Registry δ μ
  appEnv : String
  truncate : List String → δ → δ

/-- The choices of the environment: the failures of the database, by the number of the transaction,
and the iteration order of maps. -/
structure Faults where
  truncate : Option Err
  beginTx : ℕ → Option Err
  commit : ℕ → Option Err
  rollback : ℕ → Option Err
  order : MapOrder

/-- `sql.ErrTxDone`. -/
def errTxDone : Err := .msg "sql: transaction has already been committed or rolled back"

section

variable {δ μ : Type}

/-! ### Transactions -/

/-- `db.BeginTx`. -/
def Session.begin (s : Session δ μ) : Session δ μ := { s with tx := some s.committed }

/-- `tx.Rollback`, which fails on a transaction that has ended; the transaction is over in any
case. -/
def Session.rollback (fault : Option Err) (s : Session δ μ) : Option Err × Session δ μ :=
  match s.tx with
  | none => (some errTxDone, s)
  | some _ => (fault, { s with tx := none })

/-- `tx.Commit`. -/
def Session.commit (fault : Option Err) (s : Session δ μ) : Option Err × Session δ μ :=
  match s.tx, fault with
  | none, _ => (some errTxDone, s)
  | some _, some err => (some err, { s with tx := none })
  | some db, none => (none, { s with committed := db, tx := none })

theorem rollback_committed (fault : Option Err) (s : Session δ μ) :
    (s.rollback fault).2.committed = s.committed := by
  unfold Session.rollback
  cases s.tx <;> rfl

theorem commit_committed_of_error {fault : Option Err} {s : Session δ μ} {err : Err}
    (h : (s.commit fault).1 = some err) : (s.commit fault).2.committed = s.committed := by
  unfold Session.commit at h ⊢
  cases htx : s.tx with
  | none => rfl
  | some db =>
    cases fault with
    | some err' => rfl
    | none => simp [htx] at h

/-! ### Truncation -/

/-- A part of a table name. -/
def isIdentifier : List Char → Bool
  | [] => false
  | c :: cs => (c.isAlpha || c == '_') && cs.all fun d => d.isAlphanum || d == '_'

/-- `validTableName`: `name` or `schema.name`. -/
def validTableName (table : String) : Bool :=
  match table.toList.splitOn '.' with
  | [name] => isIdentifier name
  | [schema, name] => isIdentifier schema && isIdentifier name
  | _ => false

/-- `TruncateTables`, on the connection pool. -/
def Runner.truncateTables (r : Runner δ μ) (fault : Option Err) (tables : List String)
    (s : Session δ μ) : Option Err × Session δ μ :=
  if tables = [] then (none, s)
  else
    match tables.find? fun t => !validTableName t with
    | some t => (some (.msg ("seed: invalid table name " ++ t.quote)), s)
    | none =>
        match fault with
        | some err => (some err, s)
        | none => (none, { s with committed := r.truncate tables s.committed })

/-- The tables of the seeders, each once. -/
def tablesOf (seeders : List (Seeder δ μ)) : List String :=
  (seeders.flatMap fun s => s.truncateTables.getD []).foldl
    (fun tables t => if t ∈ tables then tables else tables ++ [t]) []

/-- `handleFresh`. -/
def Runner.handleFresh (r : Runner δ μ) (fault : Option Err) (seeders : List (Seeder δ μ))
    (s : Session δ μ) : Option Err × Session δ μ :=
  if tablesOf seeders = [] then (none, s)
  else
    let result := r.truncateTables fault (tablesOf seeders) s
    (result.1.map (.wrap "seed: truncation failed: %w" none), result.2)

/-! ### Execution -/

/-- `ShouldRun`, of a seeder that has it. -/
def Seeder.ask (seeder : Seeder δ μ) (sc : SeedContext) (s : Session δ μ) :
    Outcome Bool × Session δ μ :=
  match seeder.shouldRun with
  | none => (.returned true, s)
  | some shouldRun => shouldRun sc s

/-- `executeSingle`. -/
def executeSingle (seeder : Seeder δ μ) (sc : SeedContext) (s : Session δ μ) :
    Outcome SeederResult × Session δ μ :=
  match seeder.ask sc s with
  | (.panicked p, s) => (.panicked p, s)
  | (.returned false, s) => (.returned ⟨seeder.name, .conditionalSkip, none⟩, s)
  | (.returned true, s) =>
      if sc.dryRun then (.returned ⟨seeder.name, .dryRun, none⟩, s)
      else
        match seeder.seed sc s with
        | (.panicked p, s) => (.panicked p, s)
        | (.returned (some err), s) => (.returned ⟨seeder.name, .error, some err⟩, s)
        | (.returned none, s) => (.returned ⟨seeder.name, .ok, none⟩, s)

/-- What `Run` and its parts return. -/
abbrev RunResult := Outcome (List SeederResult × Option Err)

/-- The loop of `runGlobal`: it stops at the first seeder that fails. -/
def executeAll (sc : SeedContext) : List (Seeder δ μ) → Session δ μ → RunResult × Session δ μ
  | [], s => (.returned ([], none), s)
  | seeder :: seeders, s =>
      match executeSingle seeder sc s with
      | (.panicked p, s) => (.panicked p, s)
      | (.returned result, s) =>
          match result.error with
          | some err => (.returned ([result], some err), s)
          | none =>
              match executeAll sc seeders s with
              | (.panicked p, s) => (.panicked p, s)
              | (.returned (results, err), s) => (.returned (result :: results, err), s)

/-- `runGlobal`. -/
def runGlobal (faults : Faults) (sc : SeedContext) (seeders : List (Seeder δ μ)) (s : Session δ μ) :
    RunResult × Session δ μ :=
  match faults.beginTx 0 with
  | some err => (.returned ([], some (.wrap "seed: failed to begin transaction: %w" none err)), s)
  | none =>
      match executeAll sc seeders s.begin with
      | (.panicked p, s) => (.panicked p, s)
      | (.returned (results, some err), s) =>
          (.returned (results, some err), (s.rollback (faults.rollback 0)).2)
      | (.returned (results, none), s) =>
          if sc.dryRun then
            let rb := s.rollback (faults.rollback 0)
            (.returned (results, rb.1.map (.wrap "seed: dry-run rollback failed: %w" none)), rb.2)
          else
            let done := s.commit (faults.commit 0)
            (.returned (results, done.1.map (.wrap "seed: commit failed: %w" none)), done.2)

/-- One round of `runPerSeeder`, for the transaction with number `n`: the result that is recorded,
and the error that ends the run.  A failed commit is only logged: the recorded result is a copy. -/
def runOne (faults : Faults) (sc : SeedContext) (n : ℕ) (seeder : Seeder δ μ) (s : Session δ μ) :
    Outcome (Option SeederResult × Option Err) × Session δ μ :=
  match faults.beginTx n with
  | some err => (.returned (none,
      some (.wrap "seed: failed to begin transaction for %s: %w" (some seeder.name) err)), s)
  | none =>
      match executeSingle seeder sc s.begin with
      | (.panicked p, s) => (.panicked p, s)
      | (.returned result, s) =>
          match result.error with
          | some _ => (.returned (some result, none), (s.rollback (faults.rollback n)).2)
          | none =>
              if sc.dryRun then
                let rb := s.rollback (faults.rollback n)
                (.returned (some result,
                  rb.1.map (.wrap "seed: dry-run rollback failed for %s: %w" (some seeder.name))),
                    rb.2)
              else (.returned (some result, none), (s.commit (faults.commit n)).2)

/-- `runPerSeeder`, from the transaction with number `n` on. -/
def runPerSeeder (faults : Faults) (sc : SeedContext) :
    ℕ → List (Seeder δ μ) → Session δ μ → RunResult × Session δ μ
  | _, [], s => (.returned ([], none), s)
  | n, seeder :: seeders, s =>
      match runOne faults sc n seeder s with
      | (.panicked p, s) => (.panicked p, s)
      | (.returned (result, some err), s) => (.returned (result.toList, some err), s)
      | (.returned (result, none), s) =>
          match runPerSeeder faults sc (n + 1) seeders s with
          | (.panicked p, s) => (.panicked p, s)
          | (.returned (results, err), s) => (.returned (result.toList ++ results, err), s)

namespace Runner

variable (r : Runner δ μ)

/-- `resolveEnv`. -/
def resolveEnv (opts : RunOptions) : String := if opts.env ≠ "" then opts.env else r.appEnv

/-- Whether `Run` refuses to run. -/
def refuses (opts : RunOptions) : Bool := r.resolveEnv opts = "production" ∧ ¬ opts.force

def selected (opts : RunOptions) : List (Seeder δ μ) :=
  filterSeeders r.registry.seeders (r.resolveEnv opts) opts.groups opts.classes opts.skip

/-- The part of `Run` after the truncation. -/
def runSelected (faults : Faults) (opts : RunOptions) (s : Session δ μ) : RunResult × Session δ μ :=
  if r.selected opts = [] then (.returned ([], none), s)
  else
    match topologicalSort faults.order (r.selected opts) with
    | .error err => (.returned ([], some err), s)
    | .ok sorted =>
        let sc : SeedContext := ⟨r.resolveEnv opts, opts.dryRun⟩
        match opts.txMode with
        | .perSeeder => runPerSeeder faults sc 0 sorted s
        | _ => runGlobal faults sc sorted s

/-- `Runner.Run`. -/
def run (faults : Faults) (opts : RunOptions) (s : Session δ μ) : RunResult × Session δ μ :=
  if r.refuses opts then
    (.returned ([], some (.msg "seed: refusing to run in production without --force")), s)
  else if opts.fresh then
    match r.handleFresh faults.truncate (r.selected opts) s with
    | (some err, s) => (.returned ([], some err), s)
    | (none, s) => r.runSelected faults opts s
  else r.runSelected faults opts s

end Runner

/-! ### What is committed -/

/-- `ShouldRun` writes at most into the transaction. -/
def Seeder.AsksInTx (seeder : Seeder δ μ) : Prop :=
  ∀ shouldRun, seeder.shouldRun = some shouldRun →
    ∀ sc s, (shouldRun sc s).2.committed = s.committed

/-- `Seed` writes at most into the transaction. -/
def Seeder.SeedsInTx (seeder : Seeder δ μ) : Prop :=
  ∀ sc s, (seeder.seed sc s).2.committed = s.committed

theorem ask_committed {seeder : Seeder δ μ} (hask : seeder.AsksInTx) (sc : SeedContext)
    (s : Session δ μ) : (seeder.ask sc s).2.committed = s.committed := by
  unfold Seeder.ask
  cases hrun : seeder.shouldRun with
  | none => rfl
  | some shouldRun => exact hask shouldRun hrun sc s

theorem executeSingle_committed {seeder : Seeder δ μ} {sc : SeedContext} (hask : seeder.AsksInTx)
    (hseed : sc.dryRun = true ∨ seeder.SeedsInTx) (s : Session δ μ) :
    (executeSingle seeder sc s).2.committed = s.committed := by
  have hasked := ask_committed hask sc s
  unfold executeSingle
  generalize seeder.ask sc s = asked at hasked ⊢
  rcases asked with ⟨(_ | _) | p, s₁⟩
  · exact hasked
  · by_cases hdry : sc.dryRun = true
    · simp only [hdry, if_true]
      exact hasked
    · have hseeded := hseed.resolve_left hdry sc s₁
      simp only [hdry]
      generalize seeder.seed sc s₁ = seeded at hseeded ⊢
      rcases seeded with ⟨(_ | err) | p, s₂⟩ <;> exact hseeded.trans hasked
  · exact hasked

theorem executeAll_committed {seeders : List (Seeder δ μ)} {sc : SeedContext}
    (hask : ∀ seeder ∈ seeders, seeder.AsksInTx)
    (hseed : sc.dryRun = true ∨ ∀ seeder ∈ seeders, seeder.SeedsInTx) (s : Session δ μ) :
    (executeAll sc seeders s).2.committed = s.committed := by
  induction seeders generalizing s with
  | nil => rfl
  | cons seeder seeders ih =>
    have hsingle := executeSingle_committed (hask seeder List.mem_cons_self)
      (hseed.imp_right fun h => h seeder List.mem_cons_self) s
    unfold executeAll
    generalize executeSingle seeder sc s = single at hsingle ⊢
    rcases single with ⟨result | p, s₁⟩
    · cases herr : result.error with
      | some err =>
        simp only [herr]
        exact hsingle
      | none =>
        have hrest := ih (fun x hx => hask x (List.mem_cons_of_mem _ hx))
          (hseed.imp_right fun h x hx => h x (List.mem_cons_of_mem _ hx)) s₁
        simp only [herr]
        generalize executeAll sc seeders s₁ = rest at hrest ⊢
        rcases rest with ⟨_ | p, s₂⟩ <;> exact hrest.trans hsingle
    · exact hsingle

/-- In one transaction, a dry run and a run that fails commit nothing. -/
theorem runGlobal_committed {faults : Faults} {seeders : List (Seeder δ μ)} {sc : SeedContext}
    (hask : ∀ seeder ∈ seeders, seeder.AsksInTx)
    (hseed : sc.dryRun = true ∨ ∀ seeder ∈ seeders, seeder.SeedsInTx) (s : Session δ μ)
    (hfail : sc.dryRun = true ∨
      ∃ results err, (runGlobal faults sc seeders s).1 = .returned (results, some err)) :
    (runGlobal faults sc seeders s).2.committed = s.committed := by
  have hall : (executeAll sc seeders s.begin).2.committed = s.committed :=
    executeAll_committed hask hseed s.begin
  unfold runGlobal at hfail ⊢
  cases hbegin : faults.beginTx 0 with
  | some err => rfl
  | none =>
    rcases hexec : executeAll sc seeders s.begin with ⟨⟨results, _ | err⟩ | p, s₁⟩
    · rw [hexec] at hall
      simp only [hbegin, hexec] at hfail ⊢
      by_cases hdry : sc.dryRun = true
      · simp only [hdry, if_true]
        exact (rollback_committed _ s₁).trans hall
      · obtain ⟨_, err, hfail⟩ := hfail.resolve_left hdry
        simp only [hdry] at hfail ⊢
        have herr := (Prod.mk.inj (Outcome.returned.inj hfail)).2
        obtain ⟨err', herr', -⟩ := Option.map_eq_some_iff.1 herr
        exact (commit_committed_of_error herr').trans hall
    · rw [hexec] at hall
      exact (rollback_committed _ s₁).trans hall
    · rw [hexec] at hall
      exact hall

theorem runOne_committed (faults : Faults) {sc : SeedContext} (hdry : sc.dryRun = true) (n : ℕ)
    {seeder : Seeder δ μ} (hask : seeder.AsksInTx) (s : Session δ μ) :
    (runOne faults sc n seeder s).2.committed = s.committed := by
  have hsingle : (executeSingle seeder sc s.begin).2.committed = s.committed :=
    executeSingle_committed hask (Or.inl hdry) s.begin
  unfold runOne
  cases faults.beginTx n with
  | some err => rfl
  | none =>
    rcases hexec : executeSingle seeder sc s.begin with ⟨result | p, s₁⟩
    · rw [hexec] at hsingle
      cases herr : result.error with
      | some err =>
        simp only [herr]
        exact (rollback_committed _ s₁).trans hsingle
      | none =>
        simp only [herr, hdry, if_true]
        exact (rollback_committed _ s₁).trans hsingle
    · rw [hexec] at hsingle
      exact hsingle

/-- A dry run commits nothing if each seeder has its own transaction, either. -/
theorem runPerSeeder_committed {faults : Faults} {sc : SeedContext}
    (hdry : sc.dryRun = true) (n : ℕ) {seeders : List (Seeder δ μ)}
    (hask : ∀ seeder ∈ seeders, seeder.AsksInTx) (s : Session δ μ) :
    (runPerSeeder faults sc n seeders s).2.committed = s.committed := by
  induction seeders generalizing n s with
  | nil => rfl
  | cons seeder seeders ih =>
    have hone := runOne_committed faults hdry n (hask seeder List.mem_cons_self) s
    unfold runPerSeeder
    generalize runOne faults sc n seeder s = one at hone ⊢
    rcases one with ⟨⟨result, _ | err⟩ | p, s₁⟩
    · have hrest := ih (n + 1) (fun x hx => hask x (List.mem_cons_of_mem _ hx)) s₁
      simp only
      generalize runPerSeeder faults sc (n + 1) seeders s₁ = rest at hrest ⊢
      rcases rest with ⟨_ | p, s₂⟩ <;> exact hrest.trans hone
    · exact hone
    · exact hone

namespace Runner

variable {r : Runner δ μ} {faults : Faults} {opts : RunOptions}

theorem selected_eq_filter : r.selected opts = r.registry.seeders.filter
    (Seeder.Passes (r.resolveEnv opts) opts.groups opts.classes opts.skip ·) :=
  filterSeeders_eq_filter _ _ _ _ _

theorem nodup_selected : ((r.selected opts).map Seeder.name).Nodup := by
  rw [selected_eq_filter]
  exact r.registry.nodup.sublist (List.filter_sublist.map _)

theorem mem_registry_of_sorted {sorted : List (Seeder δ μ)}
    (hsort : topologicalSort faults.order (r.selected opts) = .ok sorted) {seeder : Seeder δ μ}
    (h : seeder ∈ sorted) : seeder ∈ r.registry.seeders := by
  have hmem : seeder ∈ r.selected opts := (topologicalSort_ok nodup_selected hsort).1.mem_iff.1 h
  rw [selected_eq_filter] at hmem
  exact List.mem_of_mem_filter hmem

theorem runSelected_dryRun (hdry : opts.dryRun = true)
    (hask : ∀ seeder ∈ r.registry.seeders, seeder.AsksInTx) (s : Session δ μ) :
    (r.runSelected faults opts s).2.committed = s.committed := by
  unfold runSelected
  split_ifs with hnil
  · rfl
  · cases hsort : topologicalSort faults.order (r.selected opts) with
    | error err => rfl
    | ok sorted =>
      have hask' : ∀ seeder ∈ sorted, seeder.AsksInTx :=
        fun seeder h => hask seeder (mem_registry_of_sorted hsort h)
      cases htx : opts.txMode with
      | perSeeder => exact runPerSeeder_committed hdry 0 hask' s
      | _ => exact runGlobal_committed hask' (Or.inl hdry) s (Or.inl hdry)

theorem runSelected_global (hmode : opts.txMode ≠ .perSeeder)
    (htx : ∀ seeder ∈ r.registry.seeders, seeder.AsksInTx ∧ seeder.SeedsInTx) {s : Session δ μ}
    {results : List SeederResult} {err : Err}
    (hfail : (r.runSelected faults opts s).1 = .returned (results, some err)) :
    (r.runSelected faults opts s).2.committed = s.committed := by
  unfold runSelected at hfail ⊢
  split_ifs at hfail ⊢ with hnil
  · rfl
  · cases hsort : topologicalSort faults.order (r.selected opts) with
    | error err => rfl
    | ok sorted =>
      have hmem : ∀ seeder ∈ sorted, seeder.AsksInTx ∧ seeder.SeedsInTx :=
        fun seeder h => htx seeder (mem_registry_of_sorted hsort h)
      simp only [hsort] at hfail ⊢
      cases hm : opts.txMode with
      | perSeeder => exact absurd hm hmode
      | _ =>
        exact runGlobal_committed (fun x hx => (hmem x hx).1) (Or.inr fun x hx => (hmem x hx).2) s
          (Or.inr ⟨results, err, hfail⟩)

/-- The run truncates tables, and that changes the database. -/
structure Truncates (r : Runner δ μ) (opts : RunOptions) (db : δ) : Prop where
  admitted : r.refuses opts = false
  fresh : opts.fresh = true
  tables : tablesOf (r.selected opts) ≠ []
  valid : ∀ t ∈ tablesOf (r.selected opts), validTableName t = true
  changes : r.truncate (tablesOf (r.selected opts)) db ≠ db

/-- A truncation that the database does not refuse is done before anything else. -/
theorem run_of_truncates {s : Session δ μ} (h : r.Truncates opts s.committed)
    (hfault : faults.truncate = none) :
    r.run faults opts s = r.runSelected faults opts
      { s with committed := r.truncate (tablesOf (r.selected opts)) s.committed } := by
  have hvalid : (tablesOf (r.selected opts)).find? (fun t => !validTableName t) = none :=
    List.find?_eq_none.2 fun t ht => by simp [h.valid t ht]
  have hfresh : r.handleFresh faults.truncate (r.selected opts) s =
      (none, { s with committed := r.truncate (tablesOf (r.selected opts)) s.committed }) := by
    simp [handleFresh, truncateTables, h.tables, hvalid, hfault]
  simp only [run, h.admitted, h.fresh, hfresh, if_true]
  rfl

/-- Without a truncation the session is the same when the seeders are sorted. -/
theorem handleFresh_of_not_truncates {s : Session δ μ} (hadmitted : r.refuses opts = false)
    (hfresh : opts.fresh = true) (h : ¬ r.Truncates opts s.committed) (fault : Option Err) :
    (r.handleFresh fault (r.selected opts) s).2 = s := by
  unfold handleFresh
  split_ifs with htables
  · rfl
  · unfold truncateTables
    rw [if_neg htables]
    cases hvalid : (tablesOf (r.selected opts)).find? (fun t => !validTableName t) with
    | some t => rfl
    | none =>
      cases fault with
      | some err => rfl
      | none =>
        have hall : ∀ t ∈ tablesOf (r.selected opts), validTableName t = true := by
          intro t ht
          simpa using List.find?_eq_none.1 hvalid t ht
        have hsame : r.truncate (tablesOf (r.selected opts)) s.committed = s.committed := by
          by_contra hne
          exact h ⟨hadmitted, hfresh, htables, hall, hne⟩
        simp only [hsame]

/-- Without a truncation, `Run` fails and does nothing, or goes on with the selected seeders. -/
theorem run_of_not_truncates (faults : Faults) {s : Session δ μ}
    (h : ¬ r.Truncates opts s.committed) :
    (r.run faults opts s).2 = s ∨ r.run faults opts s = r.runSelected faults opts s := by
  unfold run
  cases hadmitted : r.refuses opts with
  | true => exact Or.inl rfl
  | false =>
    cases hfresh : opts.fresh with
    | false => exact Or.inr rfl
    | true =>
      have hsame := handleFresh_of_not_truncates hadmitted hfresh h faults.truncate
      rcases hres : r.handleFresh faults.truncate (r.selected opts) s with ⟨_ | err, s'⟩
      · rw [hres] at hsame
        cases hsame
        exact Or.inr rfl
      · rw [hres] at hsame
        cases hsame
        exact Or.inl rfl

/-- A database that refuses every transaction. -/
def noTransactions : Faults where
  truncate := none
  beginTx := fun _ => some (.msg "sql: database is closed")
  commit := fun _ => none
  rollback := fun _ => none
  order := ⟨id, List.Perm.refl⟩

/-- **When a dry run is read-only**: whatever fails, if and only if it does not truncate. -/
theorem dryRun_readOnly_iff (hdry : opts.dryRun = true)
    (hask : ∀ seeder ∈ r.registry.seeders, seeder.AsksInTx) (s : Session δ μ) :
    (∀ faults, (r.run faults opts s).2.committed = s.committed) ↔
      ¬ r.Truncates opts s.committed := by
  constructor
  · intro hall htrunc
    have hrun := hall noTransactions
    rw [run_of_truncates htrunc rfl, runSelected_dryRun hdry hask] at hrun
    exact htrunc.changes hrun
  · intro htrunc faults
    rcases run_of_not_truncates faults htrunc with hsame | hrun
    · rw [hsame]
    · rw [hrun, runSelected_dryRun hdry hask]

/-- If no transaction can be started, the run fails after the truncation. -/
theorem runSelected_noTransactions (hmode : opts.txMode ≠ .perSeeder)
    (htables : tablesOf (r.selected opts) ≠ []) (s : Session δ μ) :
    ∃ err, r.runSelected noTransactions opts s = (.returned ([], some err), s) := by
  have hsel : r.selected opts ≠ [] := by
    intro hnil
    rw [hnil] at htables
    exact htables rfl
  unfold runSelected
  rw [if_neg hsel]
  cases topologicalSort noTransactions.order (r.selected opts) with
  | error err => exact ⟨err, rfl⟩
  | ok sorted =>
    cases hm : opts.txMode with
    | perSeeder => exact absurd hm hmode
    | _ => exact ⟨_, rfl⟩

/-- **When seeding in one transaction is all or nothing**: whatever fails, a run that returns an
error leaves the committed database as it was, if and only if it does not truncate. -/
theorem global_atomic_iff (hmode : opts.txMode ≠ .perSeeder)
    (htx : ∀ seeder ∈ r.registry.seeders, seeder.AsksInTx ∧ seeder.SeedsInTx) (s : Session δ μ) :
    (∀ faults results err, (r.run faults opts s).1 = .returned (results, some err) →
      (r.run faults opts s).2.committed = s.committed) ↔ ¬ r.Truncates opts s.committed := by
  constructor
  · intro hall htrunc
    obtain ⟨err, hrun⟩ := runSelected_noTransactions hmode htrunc.tables
      { s with committed := r.truncate (tablesOf (r.selected opts)) s.committed }
    rw [← run_of_truncates htrunc rfl] at hrun
    have hsame := hall noTransactions [] err (by rw [hrun])
    rw [hrun] at hsame
    exact htrunc.changes hsame
  · intro htrunc faults results err hfail
    rcases run_of_not_truncates faults htrunc with hsame | hrun
    · rw [hsame]
    · rw [hrun] at hfail ⊢
      exact runSelected_global hmode htx hfail

end Runner

end

/-! ### A table of users -/

/-- A seeder of the table `users` that adds one row, or fails; the database is the number of
rows. -/
def userSeeder (result : Option Err) : Seeder ℕ Unit where
  name := "iam.users"
  groups := ["core"]
  environments := []
  dependsOn := []
  truncateTables := some ["users"]
  shouldRun := none
  seed := fun _ s => (.returned result, { s with tx := s.tx.map (· + 1) })

def userRunner (result : Option Err) : Runner ℕ Unit where
  registry := ⟨[userSeeder result], List.nodup_singleton _⟩
  appEnv := "staging"
  truncate := fun _ _ => 0

def userOptions (dryRun fresh : Bool) : RunOptions :=
  ⟨[], [], [], "", .global, dryRun, fresh, false⟩

/-- Nothing fails. -/
def calm : Faults := ⟨none, fun _ => none, fun _ => none, fun _ => none, ⟨id, List.Perm.refl⟩⟩

/-- Five rows are committed. -/
def fiveUsers : Session ℕ Unit := ⟨5, none, ()⟩

theorem userRunner_inTx (result : Option Err) :
    ∀ seeder ∈ (userRunner result).registry.seeders, seeder.AsksInTx ∧ seeder.SeedsInTx := by
  intro seeder hseeder
  rw [List.mem_singleton.1 hseeder]
  exact ⟨nofun, fun _ _ => rfl⟩

theorem dryRun_readOnly_notFresh :
    (userOptions true false).dryRun = true ∧
      ∀ faults, ((userRunner none).run faults (userOptions true false) fiveUsers).2.committed =
        5 := by
  have hdry : (userOptions true false).dryRun = true := rfl
  refine ⟨hdry,
    (Runner.dryRun_readOnly_iff hdry (fun x hx => (userRunner_inTx none x hx).1) fiveUsers).2
    fun htrunc => ?_⟩
  cases htrunc.fresh

/-- A dry run that is fresh leaves no user, although nothing failed. -/
theorem dryRun_truncates :
    (∀ seeder ∈ (userRunner none).registry.seeders, seeder.AsksInTx) ∧
    ((userRunner none).run calm (userOptions true true) fiveUsers).2.committed = 0 := by
  exact ⟨fun x hx => (userRunner_inTx none x hx).1, rfl⟩

theorem global_atomic_notFresh :
    (userOptions false false).txMode ≠ .perSeeder ∧
      ∀ faults results err,
        ((userRunner none).run faults (userOptions false false) fiveUsers).1 =
          .returned (results, some err) →
        ((userRunner none).run faults (userOptions false false) fiveUsers).2.committed = 5 := by
  have hmode : (userOptions false false).txMode ≠ .perSeeder := nofun
  refine ⟨hmode, (Runner.global_atomic_iff hmode (userRunner_inTx none) fiveUsers).2
    fun htrunc => ?_⟩
  cases htrunc.fresh

/-- A fresh run whose seeder fails returns the error, and leaves no user. -/
theorem failed_run_truncates :
    let failure : Err := .msg "duplicate key value violates unique constraint"
    let runner := userRunner (some failure)
    (∀ seeder ∈ runner.registry.seeders, seeder.AsksInTx ∧ seeder.SeedsInTx) ∧
    (runner.run calm (userOptions false true) fiveUsers).1 =
      .returned ([⟨"iam.users", .error, some failure⟩], some failure) ∧
    (runner.run calm (userOptions false true) fiveUsers).2.committed = 0 := by
  exact ⟨userRunner_inTx _, rfl, rfl⟩

end WolfCore.Seed
