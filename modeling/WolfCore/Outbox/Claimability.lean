import WolfCore.Outbox.Leases

/-!
# When `ClaimBatch` can claim

`ClaimBatch` scans `lease_token` into a Go string.  `claimsOldest_iff` says when it returns the
oldest eligible rows, on any table: when the token of each of them can be scanned.

Neither insert names `lease_token`, both release statements set it to NULL, and only a successful
`ClaimBatch` sets it to anything else.  So with a nullable column without default, and a driver
that does not scan a NULL into a string, no table ever gets beyond rows that cannot be claimed
(`runOps_leaseToken`), and `ClaimBatch` succeeds only when nothing is eligible
(`claimBatch_succeeds_iff`).
-/

namespace WolfCore.Outbox

open Go Sql

/-- The operations of the store on its table, with the choices of the database each depends on. -/
inductive StoreOp
  | insert (r : NewRow) (seq : ℕ)
  | claimBatch (now : ℤ) (locked : String → Bool) (tie : String → ℕ) (token : String)
      (batchSize : ℤ)
  | releaseClaim (id : String) (lastError : Err)
  | releaseClaims (entries : List ReleaseEntry)
  | markPublished (now : ℤ) (ids : List String) (leaseToken : String)

/-- One operation; a failing insert leaves the table alone.  `Insert` and `InsertEntry` differ only
in the values of the columns. -/
def StoreOp.apply (schema : Schema) (t : OutboxTable) : StoreOp → OutboxTable
  | .insert r seq => (insertRow schema t r seq).getD t
  | .claimBatch now locked tie token batchSize =>
      (Outbox.claimBatch schema now locked tie token batchSize t).2
  | .releaseClaim id lastError => Outbox.releaseClaim id lastError t
  | .releaseClaims entries => (Outbox.releaseClaims schema entries t).2
  | .markPublished now ids leaseToken => Outbox.markPublished now ids leaseToken t

/-- The tables that can be reached: any operations, on the table without rows. -/
def runOps (schema : Schema) (ops : List StoreOp) : OutboxTable :=
  ops.foldl (StoreOp.apply schema) Table.empty

/-- `ClaimBatch` succeeds and returns the oldest eligible rows, as many as the limit and the table
allow, when no concurrent transaction holds a lock. -/
def ClaimsOldest (schema : Schema) (now : ℤ) (tie : String → ℕ) (token : String) (n : ℤ)
    (t : OutboxTable) : Prop :=
  ∃ entries rows, (claimBatch schema now (fun _ => false) tie token n t).1 = .ok entries ∧
    List.Forall₂ (fun r e => ScannedFrom e r) rows entries ∧
    rows.length = min n.toNat (t.rows.filter (eligible now)).length ∧
    (rows.map (·.id)).Nodup ∧
    (∀ r ∈ rows, r ∈ t ∧ eligible now r = true) ∧
    ∀ r ∈ rows, ∀ r' ∈ t, eligible now r' = true → r' ∉ rows → r.createdAt ≤ r'.createdAt

/-! ### Any table -/

section Select

variable {schema : Schema} {now : ℤ} {tie : String → ℕ} {token : String} {n : ℤ} {t : OutboxTable}

theorem mapM_scanRow_isOk_iff {rows : List Row} : (∃ es, rows.mapM (scanRow schema) = .ok es) ↔
    ∀ r ∈ rows, r.leaseToken ≠ none ∨ schema.scanNullString ≠ none := by
  induction rows with
  | nil => simp [pure, Except.pure]
  | cons r rows ih =>
    rw [List.forall_mem_cons, ← ih, ← scanRow_isOk_iff, List.mapM_cons]
    cases scanRow schema r with
    | error err => simp [bind, Except.bind]
    | ok e =>
      cases rows.mapM (scanRow schema) with
      | error err => simp [bind, Except.bind]
      | ok es => simp [bind, Except.bind, pure, Except.pure]

/-- A batch is claimed as soon as its rows can be scanned. -/
theorem claimBatch_isOk_iff (hn : 0 ≤ n) (locked : String → Bool) (token : String) :
    (∃ es, (claimBatch schema now locked tie token n t).1 = .ok es) ↔
      ∀ r ∈ selectBatch now locked tie n.toNat t,
        r.leaseToken ≠ none ∨ schema.scanNullString ≠ none := by
  rw [← mapM_scanRow_isOk_iff]
  unfold claimBatch
  rw [if_neg (not_lt.2 hn)]
  cases (selectBatch now locked tie n.toNat t).mapM (scanRow schema) with
  | error err => simp
  | ok es => cases es <;> simp

/-- The entries returned are those of the selected rows. -/
theorem claimBatch_rows {locked : String → Bool} {es : List OutboxEntry}
    (h : (claimBatch schema now locked tie token n t).1 = .ok es) :
    List.Forall₂ (fun r e => ScannedFrom e r) (selectBatch now locked tie n.toNat t) es := by
  unfold claimBatch at h
  split_ifs at h with hneg
  cases hm : (selectBatch now locked tie n.toNat t).mapM (scanRow schema) with
  | error err => rw [hm] at h; cases h
  | ok es' =>
    have hscan := mapM_scanRow_ok hm
    rw [hm] at h
    cases es' with
    | nil => cases h; exact hscan
    | cons e' es' =>
      cases h
      rw [List.forall₂_map_right_iff]
      exact hscan.imp fun r e hre => ⟨hre.id, hre.seq, hre.retryCount, hre.columns⟩

/-- **What `ClaimBatch` returns on any table**: it claims the oldest eligible rows if and only if
the `lease_token` of each of them can be scanned. -/
theorem claimsOldest_iff (hn : 0 ≤ n) : ClaimsOldest schema now tie token n t ↔
    ∀ r ∈ selectBatch now (fun _ => false) tie n.toNat t,
      r.leaseToken ≠ none ∨ schema.scanNullString ≠ none := by
  rw [← claimBatch_isOk_iff hn _ token]
  constructor
  · rintro ⟨entries, -, hok, -⟩
    exact ⟨entries, hok⟩
  · rintro ⟨entries, hok⟩
    have hunlocked : (fun r => eligible now r && !(fun _ => false) r.id) = eligible now := by
      funext r
      simp
    refine ⟨entries, _, hok, claimBatch_rows hok, ?_, Table.nodup_select, fun r hr => ?_,
      fun r hr r' hr' hel hnot => ?_⟩
    · unfold selectBatch
      rw [Table.length_select, hunlocked]
    · obtain ⟨hrt, hel⟩ := Table.mem_of_mem_select hr
      exact ⟨hrt, by simpa using hel⟩
    · have hle := Table.select_oldest hr hr' (by simpa using hel) hnot
      rcases (Prod.Lex.toLex_le_toLex.1 hle) with hlt | ⟨heq, -⟩
      · exact hlt.le
      · exact heq.le

end Select

/-! ### Reachable tables -/

section Reachable

variable {schema : Schema} (hdefault : schema.leaseTokenDefault = none)
  (hscan : schema.scanNullString = none)
include hscan

/-- On a table without lease tokens, `ClaimBatch` claims nothing. -/
theorem claimBatch_eq_of_leaseToken_none {t : OutboxTable} (ht : ∀ r ∈ t, r.leaseToken = none)
    (now : ℤ) (locked : String → Bool) (tie : String → ℕ) (token : String) (n : ℤ) :
    (claimBatch schema now locked tie token n t).2 = t := by
  cases hc : (claimBatch schema now locked tie token n t).1 with
  | error err => exact claimBatch_error hc
  | ok es =>
    have hn : 0 ≤ n := by
      by_contra hneg
      unfold claimBatch at hc
      rw [if_pos (not_le.1 hneg)] at hc
      cases hc
    have hrows := (claimBatch_isOk_iff hn locked token).1 ⟨es, hc⟩
    have hnil : selectBatch now locked tie n.toNat t = [] := by
      refine List.eq_nil_iff_forall_not_mem.2 fun r hr => ?_
      rcases hrows r hr with hne | hne
      · exact hne (ht r (Table.mem_of_mem_select hr).1)
      · exact hne hscan
    have hes : es = [] := by
      have hentries := claimBatch_rows hc
      rw [hnil] at hentries
      exact List.forall₂_nil_left_iff.1 hentries
    rw [(claimBatch_ok hc).2.2, hes]
    exact claimEntriesTx_nil now token t

include hdefault

/-- No operation sets a lease token on a table without any. -/
theorem apply_leaseToken {t : OutboxTable} (ht : ∀ r ∈ t, r.leaseToken = none) (op : StoreOp) :
    ∀ r ∈ op.apply schema t, r.leaseToken = none := by
  have hrelease : ∀ entries, ∀ r ∈ (Outbox.releaseClaims schema entries t).2,
      r.leaseToken = none := by
    intro entries r hr
    rcases releaseClaims_table schema entries t with ⟨-, heq⟩ | ⟨-, err, hf, heq⟩
    · rw [heq] at hr
      exact ht r hr
    · rw [heq] at hr
      obtain ⟨r₀, hr₀, rfl⟩ := Table.mem_update.1 hr
      split_ifs
      · rfl
      · exact ht r₀ hr₀
  cases op with
  | insert nr seq =>
    intro r hr
    simp only [StoreOp.apply] at hr
    cases hi : insertRow schema t nr seq with
    | none => rw [hi] at hr; exact ht r hr
    | some t' =>
      rw [hi] at hr
      obtain ⟨payload, -, hins⟩ := insertRow_eq_some.1 hi
      rcases (Table.mem_insert hins).1 hr with hr | rfl
      · exact ht r hr
      · exact hdefault
  | claimBatch now locked tie token n =>
    simp only [StoreOp.apply]
    rw [claimBatch_eq_of_leaseToken_none hscan ht]
    exact ht
  | releaseClaim id lastError => exact hrelease [⟨id, lastError⟩]
  | releaseClaims entries => exact hrelease entries
  | markPublished now ids token =>
    intro r hr
    obtain ⟨r₀, hr₀, rfl⟩ := mem_markPublished.1 hr
    split_ifs
    · exact ht r₀ hr₀
    · exact ht r₀ hr₀

/-- No reachable table has a row with a lease token. -/
theorem runOps_leaseToken (ops : List StoreOp) : ∀ r ∈ runOps schema ops, r.leaseToken = none := by
  have hrun : ∀ (ops : List StoreOp) (t : OutboxTable), (∀ r ∈ t, r.leaseToken = none) →
      ∀ r ∈ ops.foldl (StoreOp.apply schema) t, r.leaseToken = none := by
    intro ops
    induction ops with
    | nil => exact fun t ht => ht
    | cons op ops ih => exact fun t ht => ih _ (apply_leaseToken hdefault hscan ht op)
  exact hrun ops Table.empty fun r hr => absurd hr (Table.not_mem_empty r)

/-- **Claimability fails whenever it matters**: on a reachable table, `ClaimBatch` returns the
oldest eligible rows if and only if no row is eligible. -/
theorem claimBatch_succeeds_iff (ops : List StoreOp) (now : ℤ) (tie : String → ℕ) (token : String)
    (n : ℤ) (hn : 1 ≤ n) : ClaimsOldest schema now tie token n (runOps schema ops) ↔
      ∀ r ∈ runOps schema ops, eligible now r = false := by
  rw [claimsOldest_iff (by omega)]
  constructor
  · intro hrows r hr
    by_contra hel
    -- then the batch has a first row, whose token is NULL
    have hne : selectBatch now (fun _ => false) tie n.toNat (runOps schema ops) ≠ [] :=
      Table.select_ne_nil hr (by simpa using hel) (by omega)
    obtain ⟨r₁, hr₁⟩ := List.exists_mem_of_ne_nil _ hne
    rcases hrows r₁ hr₁ with h | h
    · exact h (runOps_leaseToken hdefault hscan ops r₁ (Table.mem_of_mem_select hr₁).1)
    · exact h hscan
  · intro hnone r hr
    obtain ⟨hrt, hel⟩ := Table.mem_of_mem_select hr
    rw [hnone r hrt] at hel
    cases hel

end Reachable

/-- A nullable `lease_token` without default, and `database/sql`. -/
def strictSchema : Schema := ⟨none, none, false, some⟩

/-- An insert, a claim that fails, and the next attempt. -/
def insertThenClaim : List StoreOp :=
  [.insert ⟨"e1", "order", "o1", "order.created", "\x7b\x7d", "", Metadata.zero, 0⟩ 0,
    .claimBatch 0 (fun _ => false) (fun _ => 0) "t1" 1]

theorem claimBatch_succeeds_insertThenClaim :
    ClaimsOldest strictSchema 0 (fun _ => 0) "t2" 1 (runOps strictSchema insertThenClaim) ↔
      ∀ r ∈ runOps strictSchema insertThenClaim, eligible 0 r = false :=
  claimBatch_succeeds_iff rfl rfl insertThenClaim 0 (fun _ => 0) "t2" 1 le_rfl

/-- A freshly inserted row is eligible and `ClaimBatch` fails on it. -/
theorem insertThenClaim_not_claimable :
    ((runOps strictSchema insertThenClaim).rows.map (eligible 0)) = [true] ∧
      ¬ ClaimsOldest strictSchema 0 (fun _ => 0) "t2" 1 (runOps strictSchema insertThenClaim) := by
  refine ⟨by decide, ?_⟩
  rintro ⟨entries, rows, hok, -⟩
  cases hok

end WolfCore.Outbox
