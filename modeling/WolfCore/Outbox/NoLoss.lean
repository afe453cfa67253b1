import WolfCore.Outbox.Relay

/-!
# The outbox loses no event

Any number of workers poll one table, in any interleaving, with crashes, expired leases and
failures anywhere.  A row is marked as published only if the broker or the dead letter queue took
it, or it was exhausted and no such queue is configured (`Justified`); the mark is never removed;
and a row without it is never deleted (`KeepsRows`).

The insert into the dead letter queue is `ON CONFLICT (id) DO NOTHING`: it reports success when the
queue has a letter with the id, whoever wrote it.  So the ids of rows have to be new (`FreshId`,
`World.Unqueued`): `no_loss` is the statement for such runs, and `letter_dropped` a run in which an
exhausted event is neither published nor in the queue, and marked as published.

The proof needs the lease tokens: `MarkPublished` names rows by id, and an id may belong to another
row by then; the token tells that the row is still the one that was claimed (`Leased.linked`).
-/

namespace WolfCore.Outbox

open Go Interleave Sql

/-- `bus.Publish` returned nil for the row. -/
def PublishedOk (h : History Reply) (r : Row) : Prop :=
  ∃ i entry, ⟨i, .publish entry, none⟩ ∈ h ∧ entry.seq = r.seq

/-- A worker tried to insert the entry into the dead letter queue. -/
def DlqTried (h : History Reply) (entry : OutboxEntry) : Prop :=
  ∃ i reply, ⟨i, .dlqInsert entry (dlqEntryOf entry), reply⟩ ∈ h

/-- The letter in the queue is the one that was built from the entry. -/
def IsLetterOf (entry : OutboxEntry) (d : DLQEntry) : Prop :=
  d = { dlqEntryOf entry with deadAt := d.deadAt }

/-- The row was inserted in the dead letter queue: the letter there was built from an entry that was
scanned from this row. -/
def DeadLettered (w : World) (h : History Reply) (r : Row) : Prop :=
  ∃ entry, DlqTried h entry ∧ entry.seq = r.seq ∧ entry.columns = r.columns.traced ∧
    ∃ d ∈ w.dlq, IsLetterOf entry d

/-- A worker without a dead letter queue claimed the row and saw it exhausted. -/
def GivenUp (workers : ℕ → Worker) (h : History Reply) (r : Row) : Prop :=
  ∃ i entry, Claimed h i entry ∧ entry.seq = r.seq ∧
    (workers i).dlqStore = false ∧ (workers i).maxRetries ≤ entry.retryCount

/-- There is a reason to mark the row as published. -/
def Justified (workers : ℕ → Worker) (w : World) (h : History Reply) (r : Row) : Prop :=
  PublishedOk h r ∨ DeadLettered w h r ∨ GivenUp workers h r

/-- What a move of the system must not do to the rows: clear `published_at`, or delete a row that
is not published. -/
structure KeepsRows (t t' : OutboxTable) : Prop where
  published : ∀ r ∈ t, ∀ r' ∈ t', r'.seq = r.seq → r.publishedAt ≠ none → r'.publishedAt ≠ none
  unpublished : ∀ r ∈ t, r.publishedAt = none → ∃ r' ∈ t', r'.seq = r.seq

/-- No letter in the queue has the id of a row. -/
def World.Unqueued (w : World) : Prop := ∀ d ∈ w.dlq, ∀ r ∈ w.table, r.id ≠ d.id

/-- A row that is inserted has an id that no letter in the queue has, nor any entry claimed so
far. -/
def FreshId (p : Pool Reply World Local) : Action Oracle EnvAct → Prop
  | .env (.insert nr) => (∀ d ∈ p.shared.dlq, d.id ≠ nr.id) ∧
      ∀ i entry, Claimed p.hist i entry → entry.id ≠ nr.id
  | _ => True

/-! ### The dead letter queue -/

section Dlq

variable {schema : Schema} {w : World} {e : Cmd} {o : Oracle}

theorem exec_dlq {d : DLQEntry} (hd : d ∈ w.dlq) : d ∈ (exec schema e o w).2.dlq := by
  have hstate : ∀ w' : World, d ∈ w'.dlq → d ∈ (o.db.state w w').dlq :=
    fun w' hd' => DbResult.state_cases (P := fun w' : World => d ∈ w'.dlq) o.db hd hd'
  cases e with
  | wake => exact hd
  | breaker entry => exact hd
  | publish entry => exact hd
  | dlqInsert entry d' => exact hstate _ (Table.mem_insertIfAbsent_of_mem hd)
  | claimBatch n =>
    exact DbResult.state_cases (P := fun w' : World => d ∈ w'.dlq) o.db hd hd
  | markPublished ids token =>
    simp only [exec]
    split_ifs
    · exact hd
    · exact hstate _ hd
  | releaseClaims entries =>
    simp only [exec]
    split_ifs
    · exact hd
    · exact hstate _ hd
  | cleanup retention => exact hstate _ hd

/-- An insert that reports success leaves a letter with its id. -/
theorem exec_dlqInsert_ok {entry : OutboxEntry} {d : DLQEntry}
    (hr : (exec schema (.dlqInsert entry d) o w).1 = none) :
    ∃ d' ∈ (exec schema (.dlqInsert entry d) o w).2.dlq, d'.id = d.id := by
  cases hdb : o.db with
  | ok =>
    simp only [exec, hdb, DbResult.state]
    exact Table.exists_mem_insertIfAbsent w.dlq { d with deadAt := w.now }
  | failed applied err => simp [exec, hdb, DbResult.error] at hr

/-- A letter in the queue was there, or it is the one of an insert. -/
theorem mem_exec_dlq {d : DLQEntry} (hd : d ∈ (exec schema e o w).2.dlq) :
    d ∈ w.dlq ∨ ∃ entry d', e = .dlqInsert entry d' ∧ d = { d' with deadAt := w.now } := by
  have hstate : ∀ {w₁ w₂ : World}, d ∈ (o.db.state w₁ w₂).dlq → w₁.dlq = w.dlq →
      w₂.dlq = w.dlq → d ∈ w.dlq := by
    intro w₁ w₂ hmem h₁ h₂
    exact DbResult.state_cases (P := fun w' : World => d ∈ w'.dlq → d ∈ w.dlq) o.db
      (fun hd' => h₁ ▸ hd') (fun hd' => h₂ ▸ hd') hmem
  cases e with
  | wake => exact Or.inl hd
  | breaker entry => exact Or.inl hd
  | publish entry => exact Or.inl hd
  | dlqInsert entry d' =>
    refine DbResult.state_cases (P := fun w' : World => d ∈ w'.dlq → _) o.db Or.inl
      (fun hd' => ?_) hd
    exact (Table.mem_insertIfAbsent hd').imp_right fun heq => ⟨entry, d', rfl, heq⟩
  | claimBatch n =>
    exact Or.inl (hstate hd rfl rfl)
  | markPublished ids token =>
    simp only [exec] at hd
    split_ifs at hd
    · exact Or.inl hd
    · exact Or.inl (hstate hd rfl rfl)
  | releaseClaims entries =>
    simp only [exec] at hd
    split_ifs at hd
    · exact Or.inl hd
    · exact Or.inl (hstate hd rfl rfl)
  | cleanup retention => exact Or.inl (hstate hd rfl rfl)

theorem envStep_dlq (schema : Schema) (a : EnvAct) (w : World) :
    (envStep schema a w).dlq = w.dlq := by
  rcases envStep_cases schema a w with ⟨now, heq⟩ | ⟨nr, payload, t, -, heq⟩ <;> rw [heq]

end Dlq

/-! ### Ids -/

/-- An id belongs to one row for ever: to the row that carries it, to the entries scanned from that
row, and to the letters built from these. -/
structure OwnIds (w : World) (h : History Reply) : Prop where
  rows : ∀ i entry, Claimed h i entry → ∀ r ∈ w.table, r.id = entry.id → r.seq = entry.seq
  entries : ∀ i entry j entry', Claimed h i entry → Claimed h j entry' → entry.id = entry'.id →
    entry.seq = entry'.seq
  scanned : ∀ i entry, Claimed h i entry → ∀ r ∈ w.table, r.seq = entry.seq →
    entry.columns = r.columns.traced
  tried : ∀ entry, DlqTried h entry → ∃ i, Claimed h i entry
  letters : ∀ d ∈ w.dlq, (∃ entry, DlqTried h entry ∧ IsLetterOf entry d) ∨
    ((∀ r ∈ w.table, r.id ≠ d.id) ∧ ∀ i entry, Claimed h i entry → entry.id ≠ d.id)

section OwnIds

variable {schema : Schema} {workers : ℕ → Worker} {w : World} {h : History Reply} {i : ℕ} {e : Cmd}
  {o : Oracle}

theorem ownIds_init (hw : w.Unqueued) : OwnIds w [] := by
  have hnone : ∀ i entry, ¬ Claimed [] i entry := fun i entry ⟨_, _, hmem, _⟩ => by cases hmem
  refine ⟨fun i entry hc => absurd hc (hnone i entry), fun i entry _ _ hc =>
    absurd hc (hnone i entry),
    fun i entry hc => absurd hc (hnone i entry), fun entry ⟨_, _, hmem⟩ => (by cases hmem),
    fun d hd => Or.inr ⟨fun r hr => hw d hd r hr, fun i entry hc => absurd hc (hnone i entry)⟩⟩

/-- An entry known after a step was known before, or was scanned from a row. -/
theorem claimed_or_scanned {j : ℕ} {entry : OutboxEntry}
    (hc : Claimed (⟨i, e, (exec schema e o w).1⟩ :: h) j entry) :
    Claimed h j entry ∨ ∃ r ∈ w.table, ScannedFrom entry r := by
  rcases claimed_exec hc with hc | ⟨n, es, -, -, he, hes⟩
  · exact Or.inl hc
  · obtain ⟨-, r, hr, -, hscan⟩ := (claimBatch_ok hes).1 entry he
    exact Or.inr ⟨r, hr, hscan⟩

theorem DlqTried.cons {entry : OutboxEntry} (ht : DlqTried h entry) (ev : Logged Reply) :
    DlqTried (ev :: h) entry := by
  obtain ⟨j, reply, hmem⟩ := ht
  exact ⟨j, reply, List.mem_cons_of_mem _ hmem⟩

theorem OwnIds.exec (hi : OwnIds w h) (hw : w.Numbered) (hk : Knows workers i h e) :
    OwnIds (exec schema e o w).2 (⟨i, e, (exec schema e o w).1⟩ :: h) where
  rows := by
    intro j entry hc r' hr' hid
    obtain ⟨r, hr, hstep⟩ := exec_row hr'
    rw [hstep.id] at hid
    rw [hstep.seq]
    rcases claimed_or_scanned hc with hc | ⟨r₀, hr₀, hscan⟩
    · exact hi.rows j entry hc r hr hid
    · rw [hscan.seq, Table.eq_of_key _ hr hr₀ (hid.trans hscan.id)]
  entries := by
    intro j entry j' entry' hc hc' hid
    rcases claimed_or_scanned hc with hc | ⟨r, hr, hscan⟩
    · rcases claimed_or_scanned hc' with hc' | ⟨r', hr', hscan'⟩
      · exact hi.entries j entry j' entry' hc hc' hid
      · exact (hscan'.seq.trans (hi.rows j entry hc r' hr' (hscan'.id.symm.trans hid.symm))).symm
    · rcases claimed_or_scanned hc' with hc' | ⟨r', hr', hscan'⟩
      · exact hscan.seq.trans (hi.rows j' entry' hc' r hr (hscan.id.symm.trans hid))
      · have heq : r = r' :=
          Table.eq_of_key _ hr hr' (hscan.id.symm.trans (hid.trans hscan'.id))
        rw [hscan.seq, hscan'.seq, heq]
  scanned := by
    intro j entry hc r' hr' hseq
    obtain ⟨r, hr, hstep⟩ := exec_row hr'
    rw [hstep.seq] at hseq
    rw [hstep.columns]
    rcases claimed_or_scanned hc with hc | ⟨r₀, hr₀, hscan⟩
    · exact hi.scanned j entry hc r hr hseq
    · rw [hw.seq_inj r hr r₀ hr₀ (hseq.trans hscan.seq)]
      exact hscan.columns
  tried := by
    rintro entry ⟨j, reply, hmem⟩
    have hmono : ∀ j, Claimed h j entry → ∃ j, Claimed
        (⟨i, e, (Outbox.exec schema e o w).1⟩ :: h) j entry :=
      fun j hc => ⟨j, hc.mono fun _ hev => List.mem_cons_of_mem _ hev⟩
    rcases List.mem_cons.1 hmem with hev | hmem
    · injection hev with htid hcmd
      subst hcmd
      exact hmono i (claimed_of_batch hk.1)
    · obtain ⟨j, hc⟩ := hi.tried entry ⟨j, reply, hmem⟩
      exact hmono j hc
  letters := by
    intro d hd
    rcases mem_exec_dlq hd with hd | ⟨entry, d', rfl, rfl⟩
    · rcases hi.letters d hd with ⟨entry, ht, hletter⟩ | ⟨hrows, hclaims⟩
      · exact Or.inl ⟨entry, ht.cons _, hletter⟩
      · refine Or.inr ⟨fun r' hr' => ?_, fun j entry hc => ?_⟩
        · obtain ⟨r, hr, hstep⟩ := exec_row hr'
          rw [hstep.id]
          exact hrows r hr
        · rcases claimed_or_scanned hc with hc | ⟨r, hr, hscan⟩
          · exact hclaims j entry hc
          · rw [hscan.id]
            exact hrows r hr
    · obtain ⟨-, rfl, -⟩ := hk
      exact Or.inl ⟨entry, ⟨i, _, List.mem_cons_self⟩, rfl⟩

/-- The environment keeps the ids apart, if the id of a row it inserts is new. -/
theorem OwnIds.env (hi : OwnIds w h) (hl : Leased schema w h) {a : EnvAct}
    (hfresh : ∀ nr, a = .insert nr → (∀ d ∈ w.dlq, d.id ≠ nr.id) ∧
      ∀ j entry, Claimed h j entry → entry.id ≠ nr.id) : OwnIds (envStep schema a w) h := by
  cases a with
  | elapse d => exact ⟨hi.rows, hi.entries, hi.scanned, hi.tried, hi.letters⟩
  | insert nr =>
    obtain ⟨hletters, hclaims⟩ := hfresh nr rfl
    simp only [envStep]
    cases hins : insertRow schema w.table nr w.nextSeq with
    | none => exact hi
    | some t =>
      obtain ⟨payload, -, ht⟩ := insertRow_eq_some.1 hins
      refine ⟨fun j entry hc r hr hid => ?_, hi.entries, fun j entry hc r hr hseq => ?_, hi.tried,
        fun d hd => ?_⟩
      · rcases (Table.mem_insert ht).1 hr with hr | rfl
        · exact hi.rows j entry hc r hr hid
        · exact absurd hid.symm (hclaims j entry hc)
      · rcases (Table.mem_insert ht).1 hr with hr | rfl
        · exact hi.scanned j entry hc r hr hseq
        · exact absurd (hl.seq_lt j entry hc) (by rw [← hseq]; exact lt_irrefl _)
      · refine (hi.letters d hd).imp_right fun hother => ⟨fun r hr => ?_, hother.2⟩
        rcases (Table.mem_insert ht).1 hr with hr | rfl
        · exact hother.1 r hr
        · exact (hletters d hd).symm

end OwnIds

/-! ### The invariant -/

/-- Publications are justified: `t₀` is the table at the beginning. -/
structure Lossless (schema : Schema) (workers : ℕ → Worker) (t₀ : OutboxTable) (w : World)
    (h : History Reply) : Prop where
  leased : Leased schema w h
  ids : OwnIds w h
  dead : ∀ i entry, ⟨i, .dlqInsert entry (dlqEntryOf entry), none⟩ ∈ h →
    ∃ d ∈ w.dlq, d.id = entry.id
  justified : ∀ r ∈ w.table, r.publishedAt ≠ none →
    (∃ r₀ ∈ t₀, r₀.seq = r.seq ∧ r₀.publishedAt ≠ none) ∨ Justified workers w h r

section Lossless

variable {schema : Schema} {workers : ℕ → Worker} {t₀ : OutboxTable} {w : World}
  {h : History Reply} {i : ℕ} {e : Cmd} {o : Oracle}

/-- A justification outlives every later step, and holds of the row in all its later versions. -/
theorem Justified.mono {w' : World} {h' : History Reply} {r r' : Row}
    (hj : Justified workers w h r) (hseq : r'.seq = r.seq) (hcolumns : r'.columns = r.columns)
    (hh : ∀ ev ∈ h, ev ∈ h') (hd : ∀ d ∈ w.dlq, d ∈ w'.dlq) : Justified workers w' h' r' := by
  rcases hj with ⟨i, entry, hev, he⟩ | ⟨entry, ⟨i, reply, hev⟩, he, hcol, d, hmem, hletter⟩ |
    ⟨i, entry, hc, he, hg⟩
  · exact Or.inl ⟨i, entry, hh _ hev, he.trans hseq.symm⟩
  · exact Or.inr (Or.inl ⟨entry, ⟨i, reply, hh _ hev⟩, he.trans hseq.symm,
      hcol.trans (congrArg NewRow.traced hcolumns.symm), d, hd d hmem, hletter⟩)
  · exact Or.inr (Or.inr ⟨i, entry, hc.mono hh, he.trans hseq.symm, hg⟩)

/-- A letter with the id of a claimed entry was built from an entry of the same row. -/
theorem OwnIds.deadLettered (hi : OwnIds w h) {entry : OutboxEntry} (hc : Claimed h i entry)
    {d : DLQEntry} (hd : d ∈ w.dlq) (hid : d.id = entry.id) {r : Row} (hr : r ∈ w.table)
    (hseq : r.seq = entry.seq) : DeadLettered w h r := by
  rcases hi.letters d hd with ⟨entry', htried, hletter⟩ | ⟨-, hother⟩
  · obtain ⟨j, hc'⟩ := hi.tried entry' htried
    have hsame : entry'.id = entry.id := by
      rw [← hid, hletter]
      rfl
    have hseq' : entry'.seq = r.seq := (hi.entries j entry' i entry hc' hc hsame).trans hseq.symm
    exact ⟨entry', htried, hseq', hi.scanned j entry' hc' r hr hseq'.symm, d, hd, hletter⟩
  · exact absurd hid.symm (hother i entry hc)

/-- What a worker has handled is justified, for the row the entry was read from. -/
theorem Lossless.justified_of_handled (hi : Lossless schema workers t₀ w h) {r : Row}
    (hr : r ∈ w.table) {entry : OutboxEntry} (hb : entry ∈ batch i h)
    (ha : Handled workers i h entry) (hseq : r.seq = entry.seq) : Justified workers w h r := by
  rcases ha with hp | hd | hg
  · exact Or.inl ⟨i, entry, hp, hseq.symm⟩
  · obtain ⟨d, hmem, hdid⟩ := hi.dead i entry hd
    exact Or.inr (Or.inl (hi.ids.deadLettered (claimed_of_batch hb) hmem hdid hr hseq))
  · exact Or.inr (Or.inr ⟨i, entry, claimed_of_batch hb, hseq.symm, hg⟩)

theorem Lossless.exec (hi : Lossless schema workers t₀ w h) (hk : Knows workers i h e)
    (hf : FreshToken i e o w h) :
    Lossless schema workers t₀ (exec schema e o w).2 (⟨i, e, (exec schema e o w).1⟩ :: h) where
  leased := hi.leased.exec hf
  ids := hi.ids.exec hi.leased.consistent.toNumbered hk
  dead := by
    intro j entry hev
    rcases List.mem_cons.1 hev with hev | hev
    · injection hev with _ hcmd hreply
      subst hcmd
      exact exec_dlqInsert_ok (d := dlqEntryOf entry) (eq_of_heq hreply).symm
    · obtain ⟨d, hd, hid⟩ := hi.dead j entry hev
      exact ⟨d, exec_dlq hd, hid⟩
  justified := by
    intro r' hr' hp'
    obtain ⟨r, hr, hstep⟩ := exec_row hr'
    have hmono : Justified workers w h r → Justified workers (Outbox.exec schema e o w).2
        (⟨i, e, (Outbox.exec schema e o w).1⟩ :: h) r' := fun hj =>
      hj.mono hstep.seq hstep.columns (fun _ hev => List.mem_cons_of_mem _ hev)
        fun _ hd => exec_dlq hd
    by_cases hp : r.publishedAt = none
    · -- only `MarkPublished` sets the mark, and the token links the row to the entry handled
      refine Or.inr (hmono ?_)
      cases hstep with
      | kept => exact absurd hp hp'
      | claimed => exact absurd hp hp'
      | released => exact absurd hp hp'
      | marked ids token htoken hid =>
        obtain ⟨htokens, hids⟩ := hk
        obtain ⟨entry, hb, hentry, ha⟩ := hids r.id hid
        have hlink := hi.leased.linked i entry (claimed_of_batch hb) r hr
          (by rw [htoken, htokens entry hb]) hentry.symm
        exact hi.justified_of_handled hr hb ha hlink
    · rcases hi.justified r hr hp with ⟨r₀, hr₀, hseq, hp₀⟩ | hj
      · exact Or.inl ⟨r₀, hr₀, hseq.trans hstep.seq.symm, hp₀⟩
      · exact Or.inr (hmono hj)

/-- The environment keeps the invariant, if the ids of the rows it inserts are new. -/
theorem Lossless.env (hi : Lossless schema workers t₀ w h) {a : EnvAct}
    (hfresh : ∀ nr, a = .insert nr → (∀ d ∈ w.dlq, d.id ≠ nr.id) ∧
      ∀ j entry, Claimed h j entry → entry.id ≠ nr.id) :
    Lossless schema workers t₀ (envStep schema a w) h := by
  have hdlq := envStep_dlq schema a w
  refine ⟨hi.leased.env a, hi.ids.env hi.leased hfresh, hdlq ▸ hi.dead, fun r hr hp => ?_⟩
  have hold : r ∈ w.table := by
    rcases envStep_cases schema a w with ⟨now, heq⟩ | ⟨nr, payload, t, ht, heq⟩
    · rwa [heq] at hr
    · rw [heq] at hr
      rcases (Table.mem_insert ht).1 hr with hr | rfl
      · exact hr
      · exact absurd rfl hp
  rcases hi.justified r hold hp with hr₀ | hj
  · exact Or.inl hr₀
  · exact Or.inr (hj.mono rfl rfl (fun _ hev => hev) fun d hd => hdlq ▸ hd)

end Lossless

/-! ### One move -/

section Moves

variable {schema : Schema} {workers : ℕ → Worker}

theorem keepsRows_exec {w : World} (hw : w.Consistent schema) (e : Cmd) (o : Oracle) :
    KeepsRows w.table (exec schema e o w).2.table where
  published := by
    intro r hr r' hr' hseq hp
    obtain ⟨r₀, hr₀, hstep⟩ := exec_row hr'
    rw [hw.seq_inj r hr r₀ hr₀ (hseq.symm.trans hstep.seq)] at hp
    exact hstep.published hp
  unpublished := by
    intro r hr hp
    have hsurvives : ∃ r' ∈ (exec schema e o w).2.table, RowStep schema o w r e r' :=
      exec_survives hr hp
    obtain ⟨r', hr', hstep⟩ := hsurvives
    exact ⟨r', hr', hstep.seq⟩

theorem keepsRows_refl {w : World} (hw : w.Consistent schema) : KeepsRows w.table w.table where
  published := fun r hr r' hr' hseq hp => by rwa [hw.seq_inj r' hr' r hr hseq]
  unpublished := fun r hr _ => ⟨r, hr, rfl⟩

theorem keepsRows_env {w : World} (hw : w.Consistent schema) (a : EnvAct) :
    KeepsRows w.table (envStep schema a w).table := by
  rcases envStep_cases schema a w with ⟨now, heq⟩ | ⟨nr, payload, t, ht, heq⟩
  · rw [heq]
    exact keepsRows_refl hw
  · rw [heq]
    refine ⟨fun r hr r' hr' hseq hp => ?_,
      fun r hr _ => ⟨r, (Table.mem_insert ht).2 (Or.inl hr), rfl⟩⟩
    rcases (Table.mem_insert ht).1 hr' with hr' | rfl
    · exact (keepsRows_refl hw).published r hr r' hr' hseq hp
    · exact absurd hseq (hw.seq_lt r hr).ne'

theorem keepsRows_advance {p : Pool Reply World Local} (hp : p.shared.Consistent schema)
    (a : Action Oracle EnvAct) :
    KeepsRows p.shared.table (p.advance (machine schema workers) a).shared.table := by
  cases a with
  | step i o =>
    simp only [Pool.advance]
    cases p.thread i with
    | pure l => exact keepsRows_refl hp
    | call e k => exact keepsRows_exec hp e o
  | resume i =>
    simp only [Pool.advance]
    cases p.thread i <;> exact keepsRows_refl hp
  | crash i => exact keepsRows_refl hp
  | env a => exact keepsRows_env hp a

theorem Lossless.advance {t₀ : OutboxTable} {p : Pool Reply World Local}
    {a : Action Oracle EnvAct} (hI : Lossless schema workers t₀ p.shared p.hist)
    (hknows : OnStep (fun i e _ _ h => Knows workers i h e) p a) (htoken : OnStep FreshToken p a)
    (hid : FreshId p a) :
    Lossless schema workers t₀ (p.advance (machine schema workers) a).shared
      (p.advance (machine schema workers) a).hist := by
  cases a with
  | step i o =>
    simp only [OnStep, Pool.advance] at hknows htoken ⊢
    cases hthread : p.thread i with
    | pure l => exact hI
    | call e k =>
      rw [hthread] at hknows htoken
      exact hI.exec hknows htoken
  | resume i =>
    simp only [Pool.advance]
    cases p.thread i <;> exact hI
  | crash i => exact hI
  | env a => exact hI.env fun nr ha => by subst ha; exact hid

end Moves

/-- **No loss.**  In every run of any workers from a consistent database in which the lease tokens
drawn are distinct and no id is used again: a row is published only if it was so at the beginning or
for a reason, and no move clears `published_at` or deletes a row that is not published. -/
theorem no_loss (schema : Schema) (workers : ℕ → Worker) (w : World) (hw : w.Consistent schema)
    (hids : w.Unqueued) (schedule : Schedule)
    (hfresh : Along (machine schema workers) (OnStep FreshToken) (start workers w) schedule)
    (hnew : Along (machine schema workers) FreshId (start workers w) schedule) :
    let final := (start workers w).run (machine schema workers) schedule
    (∀ r ∈ final.shared.table, r.publishedAt ≠ none →
      (∃ r₀ ∈ w.table, r₀.seq = r.seq ∧ r₀.publishedAt ≠ none) ∨
        Justified workers final.shared final.hist r) ∧
    Along (machine schema workers)
      (fun p a => KeepsRows p.shared.table (p.advance (machine schema workers) a).shared.table)
      (start workers w) schedule := by
  have hinit : Lossless schema workers w.table (start workers w).shared (start workers w).hist :=
    ⟨leased_init hw, ownIds_init hids, fun i entry hev => (by cases hev),
      fun r hr hp => Or.inl ⟨r, hr, rfl, hp⟩⟩
  have hsteps := ((relay_knows schema workers w schedule).and _ hfresh).and _ hnew
  obtain ⟨halong, hend⟩ := Along.invariant (machine schema workers)
    (I := fun p => Lossless schema workers w.table p.shared p.hist)
    (P := fun p a => KeepsRows p.shared.table (p.advance (machine schema workers) a).shared.table)
    (fun p a hI hQ => ⟨keepsRows_advance hI.leased.consistent a, hI.advance hQ.1.1 hQ.1.2 hQ.2⟩)
    hinit hsteps
  exact ⟨hend.justified, halong⟩

theorem no_loss_relayed :
    let final := (start (fun _ => relayWorker) oneRow).run
      (machine textSchema fun _ => relayWorker) relayed
    final.shared.table.rows.map (·.publishedAt) = [some 0] ∧
      ∀ r ∈ final.shared.table, r.publishedAt ≠ none →
        (∃ r₀ ∈ oneRow.table, r₀.seq = r.seq ∧ r₀.publishedAt ≠ none) ∨
          Justified (fun _ => relayWorker) final.shared final.hist r :=
  ⟨by decide, (no_loss textSchema (fun _ => relayWorker) oneRow oneRow_consistent
    (fun d hd => by cases hd) relayed (by decide)
    ⟨trivial, trivial, trivial, trivial, trivial, trivial, trivial⟩).1⟩

/-! ### An id that was used before -/

/-- The letter of an earlier event, whose row is gone. -/
def earlierLetter : DLQEntry := { dlqEntryOf
    ⟨"e1", "order", "o1", "order.cancelled", "\x7b\x7d", "", Metadata.zero, 0, none, "", none, 3,
      .msg "timeout", 0⟩ with deadAt := 0 }

/-- A new row with the id of that event. -/
def reusedId : World := { oneRow with dlq := ⟨[earlierLetter], List.nodup_singleton _⟩ }

/-- A worker that gives up at once. -/
def hastyWorker : Worker := { relayWorker with maxRetries := 0 }

/-- A poll of this worker: it claims the row, inserts the letter and marks the row. -/
def handedOver : Schedule :=
  [.resume 0, .step 0 (smooth ""), .step 0 (smooth "t1"), .step 0 (smooth ""), .step 0 (smooth "")]

/-- The insert is reported as a success and does nothing: the event is marked as published, was
never published, and is not in the queue. -/
theorem letter_dropped :
    let final := (start (fun _ => hastyWorker) reusedId).run
      (machine textSchema fun _ => hastyWorker) handedOver
    reusedId.Consistent textSchema ∧
    Along (machine textSchema fun _ => hastyWorker) (OnStep FreshToken)
      (start (fun _ => hastyWorker) reusedId) handedOver ∧
    final.shared.dlq.rows.map (·.subject) = ["order.cancelled"] ∧
    ∃ r ∈ final.shared.table, r.publishedAt = some 0 ∧
      (∀ r₀ ∈ reusedId.table, r₀.publishedAt = none) ∧
      ¬ Justified (fun _ => hastyWorker) final.shared final.hist r := by
  intro final
  have hcalls : ∀ ev ∈ final.hist, ∀ entry, ev.cmd ≠ .publish entry := by
    intro ev hev entry
    have hall : final.hist.all (fun ev =>
        match ev.cmd with
        | .publish _ => false
        | _ => true) = true := by decide
    have hcmd := List.all_eq_true.1 hall ev hev
    intro heq
    rw [heq] at hcmd
    cases hcmd
  refine ⟨{ oneRow_consistent with }, by decide, by decide, _, List.mem_singleton.2 rfl, rfl,
    fun r₀ hr₀ => by rw [List.mem_singleton.1 hr₀]; rfl, ?_⟩
  rintro (⟨i, entry, hmem, -⟩ | ⟨entry, -, -, hcolumns, d, hd, hletter⟩ | ⟨i, entry, -, -, hdlq, -⟩)
  · exact hcalls _ hmem entry rfl
  · -- the only letter is that of the earlier event
    have hsubject : entry.eventType = "order.created" := congrArg NewRow.eventType hcolumns
    have hearlier : d = earlierLetter := List.mem_singleton.1 hd
    rw [hearlier] at hletter
    have heq : "order.cancelled" = entry.eventType := congrArg DLQEntry.subject hletter
    exact absurd (heq.trans hsubject) (by decide)
  · cases hdlq

end WolfCore.Outbox
