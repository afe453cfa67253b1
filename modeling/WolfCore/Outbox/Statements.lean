import WolfCore.Outbox.Worker

/-!
# What the statements of the outbox do to its rows

One lemma for each statement, in terms of rows: `claimBatch_ok` and `claimBatch_error` for the
claiming transaction, `releaseClaims_table` and `cleanup_table`; and `exec_row` and
`exec_survives`, which say once what any step of a worker can do to a row (`RowStep`).
-/

namespace WolfCore.Outbox

open Go Interleave Sql

/-! ### Scanning -/

/-- What a scanned entry keeps of its row. -/
structure ScannedFrom (e : OutboxEntry) (r : Row) : Prop where
  id : e.id = r.id
  seq : e.seq = r.seq
  retryCount : e.retryCount = r.retryCount
  columns : e.columns = r.columns.traced

theorem scanRow_ok {schema : Schema} {r : Row} {e : OutboxEntry} (h : scanRow schema r = .ok e) :
    ScannedFrom e r := by
  unfold scanRow at h
  cases hs : scanString schema r.leaseToken with
  | error err => rw [hs] at h; cases h
  | ok s => rw [hs] at h; cases h; exact ⟨rfl, rfl, rfl, rfl⟩

theorem scanRow_isOk_iff {schema : Schema} {r : Row} :
    (∃ e, scanRow schema r = .ok e) ↔ r.leaseToken ≠ none ∨ schema.scanNullString ≠ none := by
  unfold scanRow scanString
  cases hl : r.leaseToken <;> cases hn : schema.scanNullString <;>
    simp [bind, Except.bind, pure, Except.pure]

theorem mapM_scanRow_ok {schema : Schema} {rows : List Row} {es : List OutboxEntry}
    (h : rows.mapM (scanRow schema) = .ok es) :
    List.Forall₂ (fun r e => ScannedFrom e r) rows es := by
  induction rows generalizing es with
  | nil => cases h; exact .nil
  | cons r rows ih =>
    rw [List.mapM_cons] at h
    cases hr : scanRow schema r with
    | error err => rw [hr] at h; cases h
    | ok e =>
      rw [hr] at h
      cases hrs : rows.mapM (scanRow schema) with
      | error err => rw [hrs] at h; cases h
      | ok es' =>
        rw [hrs] at h
        cases h
        exact .cons (scanRow_ok hr) (ih hrs)

theorem ids_of_scanned {rows : List Row} {es : List OutboxEntry}
    (h : List.Forall₂ (fun r e => ScannedFrom e r) rows es) :
    es.map (·.id) = rows.map (·.id) := by
  induction h with
  | nil => rfl
  | cons hr _ ih => rw [List.map_cons, List.map_cons, hr.id, ih]

/-! ### `ClaimBatch` -/

theorem mem_claimEntriesTx {now : ℤ} {ids : List String} {token : String} {t : OutboxTable}
    {r' : Row} : r' ∈ claimEntriesTx now ids token t ↔
      ∃ r ∈ t, (if r.id ∈ ids then { r with claimedAt := some now, leaseToken := some token }
        else r) = r' := by
  simp [claimEntriesTx]

theorem claimEntriesTx_nil (now : ℤ) (token : String) (t : OutboxTable) :
    claimEntriesTx now [] token t = t := by
  unfold claimEntriesTx
  simp only [List.not_mem_nil, decide_false]
  exact Table.update_false t _ _

/-- A successful claim: every entry stems from an eligible row, carries the token, and the rows of
the entries, and no others, are claimed. -/
theorem claimBatch_ok {schema : Schema} {now : ℤ} {locked : String → Bool} {tie : String → ℕ}
    {token : String} {n : ℤ} {t : OutboxTable} {es : List OutboxEntry}
    (h : (claimBatch schema now locked tie token n t).1 = .ok es) :
    (∀ e ∈ es, e.leaseToken = token ∧ ∃ r ∈ t, eligible now r = true ∧ ScannedFrom e r) ∧
    (es.map (·.id)).Nodup ∧
    (claimBatch schema now locked tie token n t).2 =
      claimEntriesTx now (es.map (·.id)) token t := by
  unfold claimBatch at h ⊢
  split_ifs at h ⊢ with hn
  cases hm : (selectBatch now locked tie n.toNat t).mapM (scanRow schema) with
  | error err => rw [hm] at h; cases h
  | ok es' =>
    have hscan := mapM_scanRow_ok hm
    have hids := ids_of_scanned hscan
    rw [hm] at h
    cases es' with
    | nil =>
      cases h
      simp [claimEntriesTx_nil]
    | cons e' es' =>
      cases h
      have hids' : ((e' :: es').map fun e => { e with leaseToken := token }).map (·.id) =
          (e' :: es').map (·.id) := by
        rw [List.map_map]
        rfl
      refine ⟨fun e he => ?_, ?_, by rw [hids']⟩
      · obtain ⟨e₀, he₀, rfl⟩ := List.mem_map.1 he
        obtain ⟨r, hr, hre⟩ := exists_related hscan.flip he₀
        obtain ⟨hrt, hel⟩ := Table.mem_of_mem_select hr
        simp only [Bool.and_eq_true] at hel
        exact ⟨rfl, r, hrt, hel.1, ⟨hre.id, hre.seq, hre.retryCount, hre.columns⟩⟩
      · rw [hids', hids]
        exact Table.nodup_select

theorem claimBatch_error {schema : Schema} {now : ℤ} {locked : String → Bool} {tie : String → ℕ}
    {token : String} {n : ℤ} {t : OutboxTable} {err : Err}
    (h : (claimBatch schema now locked tie token n t).1 = .error err) :
    (claimBatch schema now locked tie token n t).2 = t := by
  unfold claimBatch at h ⊢
  split_ifs at h ⊢ with hn
  · rfl
  · split at h
    · rfl
    · rfl
    · cases h

/-! ### The other statements -/

theorem mem_markPublished {now : ℤ} {ids : List String} {token : String} {t : OutboxTable}
    {r' : Row} : r' ∈ markPublished now ids token t ↔
      ∃ r ∈ t, (if r.leaseToken = some token ∧ r.id ∈ ids then { r with publishedAt := some now }
        else r) = r' := by
  simp [markPublished]

/-- `ReleaseClaims` releases exactly the rows it names, each with some error text, or fails. -/
theorem releaseClaims_table (schema : Schema) (entries : List ReleaseEntry) (t : OutboxTable) :
    ((releaseClaims schema entries t).1 ≠ none ∧ (releaseClaims schema entries t).2 = t) ∨
    ((releaseClaims schema entries t).1 = none ∧ ∃ err : Row → Err, ∃ hf,
      (releaseClaims schema entries t).2 =
        t.update (fun r => r.id ∈ entries.map (·.id)) (fun r => r.release (err r)) hf) := by
  match entries with
  | [] =>
    refine Or.inr ⟨rfl, fun _ => .msg "", fun _ => rfl, ?_⟩
    simp only [List.map_nil, List.not_mem_nil, decide_false]
    exact (Table.update_false t _ _).symm
  | [e] =>
    refine Or.inr ⟨rfl, fun _ => e.lastError, fun _ => rfl, ?_⟩
    simp [releaseClaims, releaseClaim]
  | e :: e' :: es =>
    cases hu : schema.idIsUuid with
    | true => exact Or.inl (by simp [releaseClaims, hu])
    | false =>
      refine Or.inr ⟨by simp [releaseClaims, hu],
        fun r => ((e :: e' :: es).find? (·.id = r.id)).elim (.msg "") (·.lastError),
        fun _ => rfl, ?_⟩
      simp only [releaseClaims, hu, releaseJoin, Bool.false_eq_true, if_false]
      congr 1
      funext r
      rw [Bool.eq_iff_iff, List.any_eq_true, decide_eq_true_iff, List.mem_map]
      simp only [decide_eq_true_iff]

theorem releaseClaims_ok_iff {schema : Schema} {entries : List ReleaseEntry} {t : OutboxTable} :
    (releaseClaims schema entries t).1 = none ↔ (schema.idIsUuid = true → entries.length ≤ 1) := by
  match entries with
  | [] => simp [releaseClaims]
  | [_] => simp [releaseClaims]
  | _ :: _ :: _ => cases hu : schema.idIsUuid <;> simp [releaseClaims, hu]

theorem mem_releaseClaims {schema : Schema} {entries : List ReleaseEntry} {t : OutboxTable}
    (hok : (releaseClaims schema entries t).1 = none) {r' : Row}
    (hr' : r' ∈ (releaseClaims schema entries t).2) : ∃ r ∈ t,
      (r.id ∈ entries.map (·.id) ∧ ∃ err, r' = r.release err) ∨
        (r.id ∉ entries.map (·.id) ∧ r' = r) := by
  rcases releaseClaims_table schema entries t with ⟨herr, -⟩ | ⟨-, err, hf, heq⟩
  · exact absurd hok herr
  · rw [heq] at hr'
    obtain ⟨r, hr, rfl⟩ := Table.mem_update.1 hr'
    refine ⟨r, hr, ?_⟩
    by_cases hid : r.id ∈ entries.map (·.id)
    · exact Or.inl ⟨hid, err r, if_pos (decide_eq_true hid)⟩
    · exact Or.inr ⟨hid, if_neg (by simpa using hid)⟩

theorem cleanup_table (cutoff : ℤ) (pick : String → Bool) (t : OutboxTable) :
    ∃ p, (∀ r ∈ t, p r = true → r.publishedAt ≠ none) ∧ cleanup cutoff pick t = t.delete p := by
  refine ⟨_, fun r hr hp => ?_, rfl⟩
  simp only [decide_eq_true_eq] at hp
  obtain ⟨r', hr', hid⟩ := List.mem_map.1 hp
  have hmem := List.mem_filter.1 (List.mem_of_mem_take hr')
  rw [t.eq_of_key hr hmem.1 hid.symm]
  intro hnone
  simp [stale, hnone] at hmem

/-! ### Any step -/

/-- What a step can do to a row that stays in the table. -/
inductive RowStep (schema : Schema) (o : Oracle) (w : World) (r : Row) : Cmd → Row → Prop
  | kept (e : Cmd) : RowStep schema o w r e r
  | claimed (n : ℤ) (es : List OutboxEntry)
      (hes : (claimBatch schema w.now o.locked o.tie o.token n w.table).1 = .ok es)
      (hr : r.id ∈ es.map (·.id)) :
      RowStep schema o w r (.claimBatch n)
        { r with claimedAt := some w.now, leaseToken := some o.token }
  | marked (ids : List String) (token : String) (htoken : r.leaseToken = some token)
      (hr : r.id ∈ ids) :
      RowStep schema o w r (.markPublished ids token) { r with publishedAt := some w.now }
  | released (entries : List ReleaseEntry) (err : Err) (hr : r.id ∈ entries.map (·.id)) :
      RowStep schema o w r (.releaseClaims entries) (r.release err)

section RowStep

variable {schema : Schema} {o : Oracle} {w : World} {r r' : Row} {e : Cmd}

theorem RowStep.seq (h : RowStep schema o w r e r') : r'.seq = r.seq := by cases h <;> rfl

theorem RowStep.id (h : RowStep schema o w r e r') : r'.id = r.id := by cases h <;> rfl

/-- No statement changes the columns an INSERT names. -/
theorem RowStep.columns (h : RowStep schema o w r e r') : r'.columns = r.columns := by
  cases h <;> rfl

theorem RowStep.published (h : RowStep schema o w r e r') (hp : r.publishedAt ≠ none) :
    r'.publishedAt ≠ none := by
  cases h with
  | kept => exact hp
  | claimed => exact hp
  | marked => exact Option.some_ne_none _
  | released => exact hp

end RowStep

/-- A database call ends with its effect or without it. -/
theorem DbResult.state_cases {S : Type} {P : S → Prop} (r : DbResult) {w w' : S} (h : P w)
    (h' : P w') : P (r.state w w') := by
  match r with
  | .ok => exact h'
  | .failed true _ => exact h'
  | .failed false _ => exact h

/-- What a step can do to the table: update rows in place, or delete published ones. -/
def TableStep (schema : Schema) (o : Oracle) (w : World) (e : Cmd) (t : OutboxTable) : Prop :=
  (∃ p f hf, t = w.table.update p f hf ∧ ∀ r ∈ w.table, p r = true → RowStep schema o w r e (f r)) ∨
  (∃ p, t = w.table.delete p ∧ ∀ r ∈ w.table, p r = true → r.publishedAt ≠ none)

section TableStep

variable {schema : Schema} {o : Oracle} {w : World} {e : Cmd}

/-- A step that only updates rows. -/
def InPlace (schema : Schema) (o : Oracle) (w : World) (e : Cmd) (t : OutboxTable) : Prop :=
  ∃ p f hf, t = w.table.update p f hf ∧ ∀ r ∈ w.table, p r = true → RowStep schema o w r e (f r)

theorem InPlace.refl : InPlace schema o w e w.table :=
  ⟨fun _ => false, id, fun _ => rfl, (Table.update_false _ _ _).symm, by simp⟩

/-- A failing database call has its whole effect or none. -/
theorem InPlace.state {w₁ w₂ : World} (h₁ : w₁.table = w.table)
    (h₂ : InPlace schema o w e w₂.table) (r : DbResult) :
    InPlace schema o w e (r.state w₁ w₂).table :=
  DbResult.state_cases (P := fun w' : World => InPlace schema o w e w'.table) r
    (h₁ ▸ InPlace.refl) h₂

/-- Only `Cleanup` deletes rows. -/
theorem exec_inPlace (schema : Schema) {e : Cmd} (he : ∀ retention, e ≠ .cleanup retention)
    (o : Oracle) (w : World) :
    InPlace schema o w e (exec schema e o w).2.table := by
  cases e with
  | wake => exact .refl
  | breaker entry => exact .refl
  | publish entry => exact .refl
  | dlqInsert entry d =>
    simp only [exec]
    refine InPlace.state ?_ ?_ o.db
    · rfl
    · exact .refl
  | claimBatch n =>
    simp only [exec]
    refine InPlace.state ?_ ?_ o.db
    · rfl
    show InPlace schema o w _ (claimBatch schema w.now o.locked o.tie o.token n w.table).2
    cases hc : (claimBatch schema w.now o.locked o.tie o.token n w.table).1 with
    | error err => rw [claimBatch_error hc]; exact .refl
    | ok es =>
      refine ⟨_, _, _, (claimBatch_ok hc).2.2, fun r _ hp => ?_⟩
      exact .claimed n es hc (of_decide_eq_true hp)
  | markPublished ids token =>
    simp only [exec]
    split_ifs
    · exact .refl
    · refine InPlace.state rfl ⟨_, _, ?_, rfl, fun r _ hp => ?_⟩ o.db
      · exact fun _ => rfl
      simp only [Bool.and_eq_true, decide_eq_true_eq] at hp
      exact .marked ids token hp.1 hp.2
  | releaseClaims entries =>
    simp only [exec]
    split_ifs
    · exact .refl
    · refine InPlace.state rfl ?_ o.db
      show InPlace schema o w _ (releaseClaims schema entries w.table).2
      rcases releaseClaims_table schema entries w.table with ⟨-, h⟩ | ⟨-, err, hf, h⟩
      · rw [h]
        exact .refl
      · refine ⟨_, _, hf, h, fun r _ hp => ?_⟩
        exact .released entries (err r) (of_decide_eq_true hp)
  | cleanup retention => exact absurd rfl (he retention)

/-- **What a step of a worker can do to the table.** -/
theorem exec_table (schema : Schema) (e : Cmd) (o : Oracle) (w : World) :
    TableStep schema o w e (exec schema e o w).2.table := by
  by_cases he : ∀ retention, e ≠ .cleanup retention
  · exact Or.inl (exec_inPlace schema he o w)
  · obtain ⟨retention, rfl⟩ := not_forall_not.1 he
    refine DbResult.state_cases (P := fun w' : World => TableStep schema o w _ w'.table) o.db
      (Or.inl InPlace.refl) ?_
    obtain ⟨p, hp, h⟩ := cleanup_table (o.appNow - retention) o.pick w.table
    exact Or.inr ⟨p, h, hp⟩

theorem InPlace.survives {t : OutboxTable} (h : InPlace schema o w e t) {r : Row}
    (hr : r ∈ w.table) :
    ∃ r' ∈ t, RowStep schema o w r e r' := by
  obtain ⟨p, f, hf, rfl, hstep⟩ := h
  refine ⟨_, Table.mem_update.2 ⟨r, hr, rfl⟩, ?_⟩
  split_ifs with hpr
  · exact hstep r hr hpr
  · exact .kept e

/-- Every row after a step stems from a row before it. -/
theorem exec_row {r' : Row} (hr : r' ∈ (exec schema e o w).2.table) :
    ∃ r ∈ w.table, RowStep schema o w r e r' := by
  rcases exec_table schema e o w with ⟨p, f, hf, ht, hstep⟩ | ⟨p, ht, -⟩
  · rw [ht] at hr
    obtain ⟨r, hrt, rfl⟩ := Table.mem_update.1 hr
    refine ⟨r, hrt, ?_⟩
    split_ifs with hp
    · exact hstep r hrt hp
    · exact .kept e
  · rw [ht] at hr
    exact ⟨r', (Table.mem_delete.1 hr).1, .kept e⟩

/-- A row that is not published survives every step. -/
theorem exec_survives {r : Row} (hr : r ∈ w.table) (hp : r.publishedAt = none) :
    ∃ r' ∈ (exec schema e o w).2.table, RowStep schema o w r e r' := by
  rcases exec_table schema e o w with hupdate | ⟨p, ht, hdel⟩
  · exact InPlace.survives hupdate hr
  · rw [ht]
    refine ⟨r, Table.mem_delete.2 ⟨hr, ?_⟩, .kept e⟩
    by_contra hne
    exact hdel r hr (by simpa using hne) hp

end TableStep

/-! ### The rest of the state -/

/-- What a step leaves alone: the clock, the row counter, and the claims unless it is one. -/
structure Frame (o : Oracle) (w : World) (e : Cmd) (w' : World) : Prop where
  now : w'.now = w.now
  nextSeq : w'.nextSeq = w.nextSeq
  claims : w'.claims = w.claims ∨ ∃ n seqs, e = .claimBatch n ∧
    w'.claims = (o.token, seqs) :: w.claims

theorem exec_frame (schema : Schema) (e : Cmd) (o : Oracle) (w : World) :
    Frame o w e (exec schema e o w).2 := by
  have hstate : ∀ (w' : World), Frame o w e w' → Frame o w e (o.db.state w w') :=
    fun w' h => DbResult.state_cases o.db ⟨rfl, rfl, Or.inl rfl⟩ h
  cases e with
  | wake => exact ⟨rfl, rfl, Or.inl rfl⟩
  | breaker entry => exact ⟨rfl, rfl, Or.inl rfl⟩
  | publish entry => exact ⟨rfl, rfl, Or.inl rfl⟩
  | dlqInsert entry d => exact hstate _ ⟨rfl, rfl, Or.inl rfl⟩
  | claimBatch n =>
    exact DbResult.state_cases (P := Frame o w (.claimBatch n)) o.db
      ⟨rfl, rfl, Or.inr ⟨n, _, rfl, rfl⟩⟩ ⟨rfl, rfl, Or.inr ⟨n, _, rfl, rfl⟩⟩
  | markPublished ids token =>
    simp only [exec]
    split_ifs
    · exact ⟨rfl, rfl, Or.inl rfl⟩
    · exact hstate _ ⟨rfl, rfl, Or.inl rfl⟩
  | releaseClaims entries =>
    simp only [exec]
    split_ifs
    · exact ⟨rfl, rfl, Or.inl rfl⟩
    · exact hstate _ ⟨rfl, rfl, Or.inl rfl⟩
  | cleanup retention => exact hstate _ ⟨rfl, rfl, Or.inl rfl⟩

/-- What the environment can do: advance the clock, or insert a row. -/
theorem envStep_cases (schema : Schema) (a : EnvAct) (w : World) :
    (∃ now, envStep schema a w = { w with now := now }) ∨
    ∃ nr payload t, w.table.insert (NewRow.toRow schema nr payload w.nextSeq) = some t ∧
      envStep schema a w = { w with table := t, nextSeq := w.nextSeq + 1 } := by
  cases a with
  | elapse d => exact Or.inl ⟨_, rfl⟩
  | insert nr =>
    simp only [envStep]
    cases hins : insertRow schema w.table nr w.nextSeq with
    | none => exact Or.inl ⟨w.now, rfl⟩
    | some t =>
      obtain ⟨payload, -, ht⟩ := insertRow_eq_some.1 hins
      exact Or.inr ⟨nr, payload, t, ht, rfl⟩

end WolfCore.Outbox
