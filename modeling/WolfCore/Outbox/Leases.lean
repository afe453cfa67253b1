import WolfCore.Outbox.Statements

/-!
# Rows, claims and lease tokens

What the workers' claims and the lease tokens of the rows have to do with each other, in every
run in which each `ClaimBatch` draws a token that was not drawn before (`FreshToken`).

* `Claimed`: the entries some poll received;
* `Leased`: the invariant, with `Leased.linked` as its point: a row that carries the token of a
  claimed entry under the same id is the row that was claimed, even when ids are used again;
* `Leased.exec`, `Leased.env`: every step keeps it.
-/

namespace WolfCore.Outbox

open Go Interleave Sql

/-- A poll of worker `i` received the entry `e`. -/
def Claimed (h : History Reply) (i : ℕ) (e : OutboxEntry) : Prop :=
  ∃ n es, ⟨i, .claimBatch n, .ok es⟩ ∈ h ∧ e ∈ es

theorem Claimed.mono {h h' : History Reply} {i : ℕ} {e : OutboxEntry} (hc : Claimed h i e)
    (hh : ∀ ev ∈ h, ev ∈ h') : Claimed h' i e := by
  obtain ⟨n, es, hmem, he⟩ := hc
  exact ⟨n, es, hh _ hmem, he⟩

/-- The token a `ClaimBatch` draws has not been drawn before. -/
def FreshToken : ℕ → (e : Cmd) → Oracle → World → History Reply → Prop
  | _, .claimBatch _, o, w, _ => o.token ∉ w.issued
  | _, _, _, _, _ => True

instance (i : ℕ) (e : Cmd) (o : Oracle) (w : World) (h : History Reply) :
    Decidable (FreshToken i e o w h) :=
  match e with
  | .claimBatch _ => inferInstanceAs (Decidable (o.token ∉ w.issued))
  | .wake | .breaker _ | .publish _ | .dlqInsert _ _ | .markPublished _ _ | .releaseClaims _
  | .cleanup _ => .isTrue trivial

/-- The row `seq` was claimed under `token`, and later under another token. -/
def Reclaimed : List (String × List ℕ) → ℕ → String → Prop
  | [], _, _ => False
  | (token', seqs) :: claims, seq, token => Reclaimed claims seq token ∨
      (token' ≠ token ∧ seq ∈ seqs ∧ ∃ seqs', (token, seqs') ∈ claims ∧ seq ∈ seqs')

theorem Reclaimed.claimed {claims : List (String × List ℕ)} {seq : ℕ} {token : String}
    (hre : Reclaimed claims seq token) : ∃ seqs, (token, seqs) ∈ claims ∧ seq ∈ seqs := by
  induction claims with
  | nil => exact hre.elim
  | cons c claims ih =>
    rcases hre with hre | ⟨-, -, seqs, hmem, hseq⟩
    · obtain ⟨seqs, hmem, hseq⟩ := ih hre
      exact ⟨seqs, List.mem_cons_of_mem _ hmem, hseq⟩
    · exact ⟨seqs, List.mem_cons_of_mem _ hmem, hseq⟩

theorem Reclaimed.issued {w : World} {seq : ℕ} {token : String}
    (hre : Reclaimed w.claims seq token) : token ∈ w.issued := by
  obtain ⟨seqs, hmem, -⟩ := hre.claimed
  exact List.mem_map.2 ⟨_, hmem, rfl⟩

/-- The rows have distinct identities below `nextSeq`. -/
structure World.Numbered (w : World) : Prop where
  seq_lt : ∀ r ∈ w.table, r.seq < w.nextSeq
  seq_inj : ∀ r ∈ w.table, ∀ r' ∈ w.table, r.seq = r'.seq → r = r'

/-- The rows are numbered; the tokens in the table, as well as the default of the column, count as
drawn; and no row carries the token of a claim that has been superseded. -/
structure World.Consistent (schema : Schema) (w : World) : Prop extends w.Numbered where
  token_issued : ∀ r ∈ w.table, ∀ token, r.leaseToken = some token → token ∈ w.issued
  default_issued : ∀ token, schema.leaseTokenDefault = some token → token ∈ w.issued
  claims_lt : ∀ c ∈ w.claims, ∀ seq ∈ c.2, seq < w.nextSeq
  superseded : ∀ r ∈ w.table, ∀ token, Reclaimed w.claims r.seq token → r.leaseToken ≠ some token

/-- The invariant of tokens and claims. -/
structure Leased (schema : Schema) (w : World) (h : History Reply) : Prop where
  consistent : w.Consistent schema
  seq_lt : ∀ i e, Claimed h i e → e.seq < w.nextSeq
  issued : ∀ i e, Claimed h i e → e.leaseToken ∈ w.issued
  not_default : ∀ i e, Claimed h i e → schema.leaseTokenDefault ≠ some e.leaseToken
  linked : ∀ i e, Claimed h i e → ∀ r ∈ w.table, r.leaseToken = some e.leaseToken →
    r.id = e.id → r.seq = e.seq

theorem leased_init {schema : Schema} {w : World} (hw : w.Consistent schema) :
    Leased schema w [] := by
  have hnone : ∀ i e, ¬ Claimed [] i e := fun i e ⟨_, _, hmem, _⟩ => by cases hmem
  exact ⟨hw, fun i e hc => absurd hc (hnone i e), fun i e hc => absurd hc (hnone i e),
    fun i e hc => absurd hc (hnone i e), fun i e hc => absurd hc (hnone i e)⟩

/-! ### Steps of the workers -/

section Exec

variable {schema : Schema} {w : World} {h : History Reply} {i : ℕ} {e : Cmd} {o : Oracle}

theorem exec_claimBatch_ok {n : ℤ} {es : List OutboxEntry}
    (hr : (exec schema (.claimBatch n) o w).1 = .ok es) :
    (claimBatch schema w.now o.locked o.tie o.token n w.table).1 = .ok es ∧
    (exec schema (.claimBatch n) o w).2.table = claimEntriesTx w.now (es.map (·.id)) o.token w.table
    := by
  cases hdb : o.db with
  | ok =>
    simp only [exec, hdb] at hr
    refine ⟨hr, ?_⟩
    simp only [exec, hdb, DbResult.state]
    exact (claimBatch_ok hr).2.2
  | failed applied err => cases applied <;> simp [exec, hdb] at hr

/-- An entry known after a step was known before, or the step was the claim that returned it. -/
theorem claimed_exec {j : ℕ} {entry : OutboxEntry}
    (hc : Claimed (⟨i, e, (exec schema e o w).1⟩ :: h) j entry) : Claimed h j entry ∨
      ∃ n es, j = i ∧ e = .claimBatch n ∧ entry ∈ es ∧
        (claimBatch schema w.now o.locked o.tie o.token n w.table).1 = .ok es := by
  obtain ⟨n, es, hmem, he⟩ := hc
  rcases List.mem_cons.1 hmem with hev | hmem
  · injection hev with htid hcmd hreply
    subst hcmd
    exact Or.inr ⟨n, es, htid, rfl, he, (exec_claimBatch_ok (eq_of_heq hreply).symm).1⟩
  · exact Or.inl ⟨n, es, hmem, he⟩

/-- What a claiming transaction does, whatever it reports. -/
theorem exec_claimBatch (schema : Schema) (n : ℤ) (o : Oracle) (w : World) :
    ((exec schema (.claimBatch n) o w).2.table = w.table ∧
      (exec schema (.claimBatch n) o w).2.claims = (o.token, []) :: w.claims) ∨
    ∃ es, (claimBatch schema w.now o.locked o.tie o.token n w.table).1 = .ok es ∧
      (exec schema (.claimBatch n) o w).2.table =
        claimEntriesTx w.now (es.map (·.id)) o.token w.table ∧
      (exec schema (.claimBatch n) o w).2.claims = (o.token, es.map (·.seq)) :: w.claims := by
  refine DbResult.state_cases (P := fun w' : World =>
    (w'.table = w.table ∧ w'.claims = (o.token, []) :: w.claims) ∨
    ∃ es, (claimBatch schema w.now o.locked o.tie o.token n w.table).1 = .ok es ∧
      w'.table = claimEntriesTx w.now (es.map (·.id)) o.token w.table ∧
      w'.claims = (o.token, es.map (·.seq)) :: w.claims) o.db (Or.inl ⟨rfl, rfl⟩) ?_
  cases hc : (claimBatch schema w.now o.locked o.tie o.token n w.table).1 with
  | error err => exact Or.inl ⟨claimBatch_error hc, rfl⟩
  | ok es => exact Or.inr ⟨es, rfl, (claimBatch_ok hc).2.2, rfl⟩

theorem exec_nextSeq : (exec schema e o w).2.nextSeq = w.nextSeq :=
  (exec_frame schema e o w).nextSeq

theorem exec_claims (he : ∀ n, e ≠ .claimBatch n) : (exec schema e o w).2.claims = w.claims := by
  rcases (exec_frame schema e o w).claims with hc | ⟨n, -, hn, -⟩
  · exact hc
  · exact absurd hn (he n)

theorem exec_issued {token : String} (ht : token ∈ w.issued) :
    token ∈ (exec schema e o w).2.issued := by
  unfold World.issued at ht ⊢
  rcases (exec_frame schema e o w).claims with hc | ⟨n, seqs, -, hc⟩
  · rwa [hc]
  · rw [hc]
    exact List.mem_cons_of_mem _ ht

theorem exec_claimBatch_issued {n : ℤ} : o.token ∈ (exec schema (.claimBatch n) o w).2.issued :=
  DbResult.state_cases (P := fun w' : World => o.token ∈ w'.issued) o.db List.mem_cons_self
    List.mem_cons_self

/-- A row that carries a token after a step other than a claim that drew it carried it before. -/
theorem RowStep.token {r r' : Row} {token : String} (hs : RowStep schema o w r e r')
    (htoken : r'.leaseToken = some token) :
    r.leaseToken = some token ∨ (token = o.token ∧ ∃ n, e = .claimBatch n) := by
  cases hs with
  | kept => exact Or.inl htoken
  | claimed n es =>
    cases htoken
    exact Or.inr ⟨rfl, n, rfl⟩
  | marked => exact Or.inl htoken
  | released => cases htoken

/-- After a claim, no row carries the token of a superseded claim. -/
theorem World.Consistent.superseded_claim (hw : w.Consistent schema) {n : ℤ}
    (hf : o.token ∉ w.issued) {r' : Row} (hr' : r' ∈ (exec schema (.claimBatch n) o w).2.table)
    {token : String} (hre : Reclaimed (exec schema (.claimBatch n) o w).2.claims r'.seq token) :
    r'.leaseToken ≠ some token := by
  rcases exec_claimBatch schema n o w with ⟨ht, hc⟩ | ⟨es, hes, ht, hc⟩
  · rw [ht] at hr'
    rw [hc] at hre
    rcases hre with hre | ⟨-, hmem, -⟩
    · exact hw.superseded r' hr' token hre
    · cases hmem
  · rw [ht] at hr'
    rw [hc] at hre
    obtain ⟨r, hr, rfl⟩ := mem_claimEntriesTx.1 hr'
    split_ifs at hre ⊢ with hid
    · -- the row now carries the new token, which no earlier claim drew
      intro htoken
      cases htoken
      rcases hre with hre | ⟨hne, -⟩
      · exact hf hre.issued
      · exact hne rfl
    · rcases hre with hre | ⟨-, hmem, -⟩
      · exact hw.superseded r hr token hre
      · -- a row of the batch has been claimed
        obtain ⟨entry, he, hseq⟩ := List.mem_map.1 hmem
        obtain ⟨-, r₀, hr₀, -, hscan⟩ := (claimBatch_ok hes).1 entry he
        have heq : r₀ = r := hw.seq_inj r₀ hr₀ r hr (hscan.seq.symm.trans hseq)
        exact absurd (List.mem_map.2 ⟨entry, he, hscan.id.trans (by rw [heq])⟩) hid

theorem World.Numbered.exec (hw : w.Numbered) : (exec schema e o w).2.Numbered where
  seq_lt := by
    intro r' hr'
    obtain ⟨r, hr, hstep⟩ := exec_row hr'
    rw [hstep.seq, exec_nextSeq]
    exact hw.seq_lt r hr
  seq_inj := by
    intro r₁' hr₁' r₂' hr₂' hseq
    obtain ⟨r₁, hr₁, hstep₁⟩ := exec_row hr₁'
    obtain ⟨r₂, hr₂, hstep₂⟩ := exec_row hr₂'
    rw [hstep₁.seq, hstep₂.seq] at hseq
    have hr := hw.seq_inj r₁ hr₁ r₂ hr₂ hseq
    refine Table.eq_of_key _ hr₁' hr₂' ?_
    rw [hstep₁.id, hstep₂.id, hr]

theorem World.Consistent.exec (hw : w.Consistent schema) (hf : FreshToken i e o w h) :
    (exec schema e o w).2.Consistent schema where
  toNumbered := hw.toNumbered.exec
  token_issued := by
    intro r' hr' token htoken
    obtain ⟨r, hr, hstep⟩ := exec_row hr'
    cases hstep with
    | kept => exact exec_issued (hw.token_issued r' hr token htoken)
    | claimed n es =>
      cases htoken
      exact exec_claimBatch_issued
    | marked => exact exec_issued (hw.token_issued r hr token htoken)
    | released => cases htoken
  default_issued := fun token htoken => exec_issued (hw.default_issued token htoken)
  claims_lt := by
    intro c hc seq hseq
    rw [exec_nextSeq]
    by_cases hclaim : ∃ n, e = .claimBatch n
    · obtain ⟨n, rfl⟩ := hclaim
      rcases exec_claimBatch schema n o w with ⟨-, hcl⟩ | ⟨es, hes, -, hcl⟩
      · rw [hcl] at hc
        rcases List.mem_cons.1 hc with rfl | hc
        · cases hseq
        · exact hw.claims_lt c hc seq hseq
      · rw [hcl] at hc
        rcases List.mem_cons.1 hc with rfl | hc
        · obtain ⟨entry, he, rfl⟩ := List.mem_map.1 hseq
          obtain ⟨-, r, hr, -, hscan⟩ := (claimBatch_ok hes).1 entry he
          rw [hscan.seq]
          exact hw.seq_lt r hr
        · exact hw.claims_lt c hc seq hseq
    · rw [exec_claims fun n hn => hclaim ⟨n, hn⟩] at hc
      exact hw.claims_lt c hc seq hseq
  superseded := by
    intro r' hr' token hre
    by_cases hclaim : ∃ n, e = .claimBatch n
    · obtain ⟨n, rfl⟩ := hclaim
      exact hw.superseded_claim hf hr' hre
    · rw [exec_claims fun n hn => hclaim ⟨n, hn⟩] at hre
      obtain ⟨r, hr, hstep⟩ := exec_row hr'
      intro htoken
      rcases hstep.token htoken with htoken | ⟨-, hn⟩
      · exact hw.superseded r hr token (hstep.seq ▸ hre) htoken
      · exact hclaim hn

theorem Leased.exec (hi : Leased schema w h) (hf : FreshToken i e o w h) :
    Leased schema (exec schema e o w).2 (⟨i, e, (exec schema e o w).1⟩ :: h) where
  consistent := hi.consistent.exec hf
  seq_lt := by
    intro j entry hc
    rw [exec_nextSeq]
    rcases claimed_exec hc with hc | ⟨n, es, -, rfl, he, hes⟩
    · exact hi.seq_lt j entry hc
    · obtain ⟨-, r, hr, -, hscan⟩ := (claimBatch_ok hes).1 entry he
      rw [hscan.seq]
      exact hi.consistent.seq_lt r hr
  issued := by
    intro j entry hc
    rcases claimed_exec hc with hc | ⟨n, es, -, rfl, he, hes⟩
    · exact exec_issued (hi.issued j entry hc)
    · rw [((claimBatch_ok hes).1 entry he).1]
      exact exec_claimBatch_issued
  not_default := by
    intro j entry hc
    rcases claimed_exec hc with hc | ⟨n, es, -, rfl, he, hes⟩
    · exact hi.not_default j entry hc
    · rw [((claimBatch_ok hes).1 entry he).1]
      exact fun hd => hf (hi.consistent.default_issued _ hd)
  linked := by
    intro j entry hc r' hr' htoken hid
    obtain ⟨r, hr, hstep⟩ := exec_row hr'
    rw [hstep.id] at hid
    rw [hstep.seq]
    rcases claimed_exec hc with hold | ⟨n, es, -, rfl, he, hes⟩
    · rcases hstep.token htoken with htoken | ⟨hdrawn, n, rfl⟩
      · exact hi.linked j entry hold r hr htoken hid
      · -- the token of an earlier claim is not drawn again
        exact absurd (hdrawn ▸ hi.issued j entry hold) hf
    · -- the entry was scanned from the row of its id
      obtain ⟨-, r₀, hr₀, -, hscan⟩ := (claimBatch_ok hes).1 entry he
      rw [hscan.seq, Table.eq_of_key _ hr hr₀ (hid.trans hscan.id)]

end Exec

/-! ### Steps of the environment -/

section Env

variable {schema : Schema} {w : World} {h : History Reply}

theorem World.Numbered.env (hw : w.Numbered) (a : EnvAct) : (envStep schema a w).Numbered := by
  rcases envStep_cases schema a w with ⟨now, heq⟩ | ⟨nr, payload, t, ht, heq⟩
  · rw [heq]
    exact ⟨hw.seq_lt, hw.seq_inj⟩
  · rw [heq]
    refine ⟨fun r hr => ?_, fun r₁ hr₁ r₂ hr₂ hseq => ?_⟩
    · rcases (Table.mem_insert ht).1 hr with hr | rfl
      · exact Nat.lt_succ_of_lt (hw.seq_lt r hr)
      · exact Nat.lt_succ_self _
    · rcases (Table.mem_insert ht).1 hr₁ with hr₁ | rfl
      · rcases (Table.mem_insert ht).1 hr₂ with hr₂ | rfl
        · exact hw.seq_inj r₁ hr₁ r₂ hr₂ hseq
        · exact absurd hseq (hw.seq_lt r₁ hr₁).ne
      · rcases (Table.mem_insert ht).1 hr₂ with hr₂ | rfl
        · exact absurd hseq (hw.seq_lt r₂ hr₂).ne'
        · rfl

theorem World.Consistent.env (hw : w.Consistent schema) (a : EnvAct) :
    (envStep schema a w).Consistent schema := by
  have hnum : (envStep schema a w).Numbered := hw.toNumbered.env a
  rcases envStep_cases schema a w with ⟨now, heq⟩ | ⟨nr, payload, t, ht, heq⟩
  · rw [heq] at hnum ⊢
    exact ⟨hnum, hw.token_issued, hw.default_issued, hw.claims_lt, hw.superseded⟩
  · rw [heq] at hnum ⊢
    refine ⟨hnum, fun r hr token htoken => ?_, hw.default_issued,
      fun c hc seq hseq => Nat.lt_succ_of_lt (hw.claims_lt c hc seq hseq),
      fun r hr token hre => ?_⟩
    · rcases (Table.mem_insert ht).1 hr with hr | rfl
      · exact hw.token_issued r hr token htoken
      · exact hw.default_issued token htoken
    · rcases (Table.mem_insert ht).1 hr with hr | rfl
      · exact hw.superseded r hr token hre
      · -- no claim names the identity of a row yet to be inserted
        obtain ⟨seqs, hmem, hseq⟩ := hre.claimed
        exact absurd (hw.claims_lt _ hmem _ hseq) (lt_irrefl _)

/-- The environment keeps the invariant: the row it inserts carries no token of a claim. -/
theorem Leased.env (hi : Leased schema w h) (a : EnvAct) :
    Leased schema (envStep schema a w) h := by
  have hcons := hi.consistent.env a
  rcases envStep_cases schema a w with ⟨now, heq⟩ | ⟨nr, payload, t, ht, heq⟩
  · rw [heq] at hcons ⊢
    exact ⟨hcons, hi.seq_lt, hi.issued, hi.not_default, hi.linked⟩
  · rw [heq] at hcons ⊢
    refine ⟨hcons, fun i e hc => Nat.lt_succ_of_lt (hi.seq_lt i e hc), hi.issued, hi.not_default,
      fun i e hc r hr htoken hid => ?_⟩
    rcases (Table.mem_insert ht).1 hr with hr | rfl
    · exact hi.linked i e hc r hr htoken hid
    · exact absurd htoken (hi.not_default i e hc)

end Env

/-! ### A database with one row -/

/-- A table with text ids and `lease_token TEXT DEFAULT ''`; a NULL is not scanned into a string. -/
def textSchema : Schema := ⟨some "", none, false, some⟩

def insertedRow : Row :=
  NewRow.toRow textSchema
    ⟨"e1", "order", "o1", "order.created", "\x7b\x7d", "", Metadata.zero, 0⟩ "\x7b\x7d" 0

def oneRow : World where
  table := ⟨[insertedRow], List.nodup_singleton _⟩
  dlq := Table.empty
  now := 0
  nextSeq := 1
  claims := [("", [])]

/-- A worker with a dead letter queue and a circuit breaker that allows one retry. -/
def relayWorker : Worker where
  dlqStore := true
  cb := true
  pollInterval := 1000
  batchSize := 10
  maxRetries := 1
  retention := 0

/-- The choices of an environment in which nothing fails, with the token it would draw. -/
def smooth (token : String) : Oracle where
  wake := .tick
  db := .ok
  token := token
  locked := fun _ => false
  tie := fun _ => 0
  breaker := none
  broker := none
  appNow := 0
  pick := fun _ => true

/-- One poll that claims a row, publishes it and marks it. -/
def relayed : Schedule :=
  [.resume 0, .step 0 (smooth ""), .step 0 (smooth "t1"), .step 0 (smooth ""),
    .step 0 (smooth ""), .step 0 (smooth "")]

theorem numbered_of_singleton {w : World} {r : Row} (hrows : w.table.rows = [r])
    (hseq : r.seq < w.nextSeq) : w.Numbered := by
  have heq : ∀ r' ∈ w.table, r' = r := by
    intro r' hr'
    rwa [Table.mem_def, hrows, List.mem_singleton] at hr'
  refine ⟨fun r' hr' => ?_, fun r' hr' r'' hr'' _ => ?_⟩
  · rw [heq r' hr']
    exact hseq
  · rw [heq r' hr', heq r'' hr'']

theorem oneRow_consistent : oneRow.Consistent textSchema where
  toNumbered := numbered_of_singleton rfl Nat.one_pos
  token_issued := by
    intro r hr token htoken
    rw [List.mem_singleton.1 hr] at htoken
    cases htoken
    exact List.mem_singleton.2 rfl
  default_issued := by
    intro token htoken
    cases htoken
    exact List.mem_singleton.2 rfl
  claims_lt := by
    intro c hc seq hseq
    rw [List.mem_singleton.1 hc] at hseq
    cases hseq
  superseded := by
    intro r hr token hre
    obtain ⟨seqs, hmem, hseq⟩ := hre.claimed
    rw [(Prod.mk.inj (List.mem_singleton.1 hmem)).2] at hseq
    cases hseq

end WolfCore.Outbox
