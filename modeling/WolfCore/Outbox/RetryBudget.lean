import WolfCore.Outbox.Relay

/-!
# What `retry_count` counts

The worker releases an entry, and so counts a retry, whenever its round of the loop ended with an
error: because `bus.Publish` failed, but also because the circuit breaker rejected the call or the
dead letter queue could not be written.

`retryCount_counts_rounds`: in every run of one worker, whatever the broker, the breaker and the
dead letter queue answer, `retry_count` is the number of rounds that ended with an error
(`failedRounds`), and so is the number of attempts of every dead letter, which is at least
`maxRetries`.  `breakerOpen_counts` is a poll in which the breaker is open and a retry is counted
without a call of `bus.Publish`.
-/

namespace WolfCore.Outbox

open Go Interleave Sql

/-- The exchange is a call of `bus.Publish` for the row `seq` that returned an error. -/
def publishFailed (seq : ℕ) : Logged Reply → Bool
  | ⟨_, .publish entry, some _⟩ => entry.seq = seq
  | _ => false

/-- The exchange ends the round of the loop for the row `seq` with an error. -/
def roundFailed (seq : ℕ) : Logged Reply → Bool
  | ⟨_, .publish entry, some _⟩ => entry.seq = seq
  | ⟨_, .breaker entry, some _⟩ => entry.seq = seq
  | ⟨_, .dlqInsert entry _, some _⟩ => entry.seq = seq
  | _ => false

/-- How many rounds for the row `seq` ended with an error. -/
def failedRounds (seq : ℕ) (h : History Reply) : ℕ := h.countP (roundFailed seq)

/-- The retry counts a worker sees, and the attempts it reports to the dead letter queue, are the
number of failed rounds; it gives up only after `maxRetries` of them. -/
def CountsRounds (workers : ℕ → Worker) : Logged Reply → History Reply → Prop
  | ⟨_, .claimBatch _, .ok es⟩, h => ∀ entry ∈ es, entry.retryCount = failedRounds entry.seq h
  | ⟨i, .dlqInsert entry d, _⟩, h => d.attempts = failedRounds entry.seq h ∧
      (workers i).maxRetries ≤ failedRounds entry.seq h
  | _, _ => True

/-- Only worker 0 runs, and the database does not fail; the dead letter queue may. -/
def SingleWorker : ℕ → (e : Cmd) → Oracle → World → History Reply → Prop
  | i, .dlqInsert _ _, _, _, _ => i = 0
  | i, _, o, _, _ => i = 0 ∧ o.db = .ok

instance (i : ℕ) (e : Cmd) (o : Oracle) (w : World) (h : History Reply) :
    Decidable (SingleWorker i e o w h) :=
  match e with
  | .dlqInsert _ _ => inferInstanceAs (Decidable (i = 0))
  | .wake | .claimBatch _ | .breaker _ | .publish _ | .markPublished _ _ | .releaseClaims _
  | .cleanup _ => inferInstanceAs (Decidable (i = 0 ∧ o.db = .ok))

/-! ### Assertions -/

/-- What the environment can do while worker 0 is between two steps. -/
structure EnvOnly (w : World) (h : History Reply) (w' : World) (h' : History Reply) : Prop where
  hist : h' = h
  next : w.nextSeq ≤ w'.nextSeq
  kept : ∀ r ∈ w.table, r ∈ w'.table
  new : ∀ r ∈ w'.table, r ∈ w.table ∨ (r.retryCount = 0 ∧ w.nextSeq ≤ r.seq)

/-- `retry_count` is the number of failed rounds, but for the rows in `due`, which have yet to be
released. -/
structure Counted (due : List ℕ) (w : World) (h : History Reply) : Prop where
  rows : ∀ r ∈ w.table, r.retryCount + (if r.seq ∈ due then 1 else 0) = failedRounds r.seq h
  unseen : ∀ seq, w.nextSeq ≤ seq → failedRounds seq h = 0
  due_lt : ∀ seq ∈ due, seq < w.nextSeq

/-- What holds before each round of the loop over the batch `es`. -/
structure Budgeted (es rest : List OutboxEntry) (failed : List ReleaseEntry) (w : World)
    (h : History Reply) : Prop where
  present : ∀ entry ∈ es, ∃ r ∈ w.table, ScannedFrom entry r
  rest_mem : ∀ entry ∈ rest, entry ∈ es
  nodup : (rest.map (·.id)).Nodup
  counted : ∃ fs : List OutboxEntry, failed.map (·.id) = fs.map (·.id) ∧
    (∀ entry ∈ fs, entry ∈ es ∧ entry.id ∉ rest.map (·.id)) ∧ Counted (fs.map (·.seq)) w h

section Assertions

variable {w w' : World} {h h' : History Reply} {due : List ℕ}

theorem EnvOnly.trans {w'' : World} {h'' : History Reply} (h₁ : EnvOnly w h w' h')
    (h₂ : EnvOnly w' h' w'' h'') : EnvOnly w h w'' h'' where
  hist := h₂.hist.trans h₁.hist
  next := h₁.next.trans h₂.next
  kept := fun r hr => h₂.kept r (h₁.kept r hr)
  new := by
    intro r hr
    rcases h₂.new r hr with hr | ⟨hz, hn⟩
    · exact h₁.new r hr
    · exact Or.inr ⟨hz, h₁.next.trans hn⟩

theorem EnvOnly.refl (w : World) (h : History Reply) : EnvOnly w h w h :=
  ⟨rfl, le_rfl, fun _ hr => hr, fun _ hr => Or.inl hr⟩

theorem EnvOnly.env (schema : Schema) (a : EnvAct) (w : World) (h : History Reply) :
    EnvOnly w h (envStep schema a w) h := by
  rcases envStep_cases schema a w with ⟨now, heq⟩ | ⟨nr, payload, t, ht, heq⟩
  · rw [heq]
    exact ⟨rfl, le_rfl, fun _ hr => hr, fun _ hr => Or.inl hr⟩
  · rw [heq]
    refine ⟨rfl, Nat.le_succ _, fun r hr => (Table.mem_insert ht).2 (Or.inl hr), fun r hr => ?_⟩
    rcases (Table.mem_insert ht).1 hr with hr | rfl
    · exact Or.inl hr
    · exact Or.inr ⟨rfl, le_rfl⟩

/-- A row inserted meanwhile has no failed rounds and no retries. -/
theorem Counted.env (hc : Counted due w h) (he : EnvOnly w h w' h') : Counted due w' h' := by
  obtain ⟨rfl, hnext, -, hnew⟩ := he
  refine ⟨fun r hr => ?_, fun seq hs => hc.unseen seq (hnext.trans hs),
    fun seq hs => (hc.due_lt seq hs).trans_le hnext⟩
  rcases hnew r hr with hr | ⟨hz, hn⟩
  · exact hc.rows r hr
  · rw [hz, hc.unseen r.seq hn, if_neg fun hd => absurd (hc.due_lt r.seq hd) (not_lt.2 hn)]
    rfl

theorem Budgeted.env {es rest : List OutboxEntry} {failed : List ReleaseEntry}
    (hb : Budgeted es rest failed w h) (he : EnvOnly w h w' h') :
    Budgeted es rest failed w' h' where
  present := by
    intro entry hentry
    obtain ⟨r, hr, hs⟩ := hb.present entry hentry
    exact ⟨r, he.kept r hr, hs⟩
  rest_mem := hb.rest_mem
  nodup := hb.nodup
  counted := by
    obtain ⟨fs, hids, hmem, hc⟩ := hb.counted
    exact ⟨fs, hids, hmem, hc.env he⟩

theorem failedRounds_cons (seq : ℕ) (ev : Logged Reply) (h : History Reply) :
    failedRounds seq (ev :: h) = (if roundFailed seq ev then 1 else 0) + failedRounds seq h := by
  rw [failedRounds, List.countP_cons, Nat.add_comm]
  rfl

theorem failedRounds_cons_of_not {seq : ℕ} {ev : Logged Reply} (hev : roundFailed seq ev = false)
    (h : History Reply) : failedRounds seq (ev :: h) = failedRounds seq h := by
  rw [failedRounds_cons, hev, if_neg Bool.false_ne_true, Nat.zero_add]

/-- Rows that keep their identity and their count, under an unchanged number of failed rounds. -/
theorem Counted.of_rows (hc : Counted due w h)
    (hrows : ∀ r' ∈ w'.table, ∃ r ∈ w.table, r'.seq = r.seq ∧ r'.retryCount = r.retryCount)
    (hnext : w'.nextSeq = w.nextSeq) (hf : ∀ seq, failedRounds seq h' = failedRounds seq h) :
    Counted due w' h' where
  rows := by
    intro r' hr'
    obtain ⟨r, hr, hseq, hcount⟩ := hrows r' hr'
    rw [hseq, hcount, hf]
    exact hc.rows r hr
  unseen := fun seq hs => by rw [hf]; exact hc.unseen seq (hnext ▸ hs)
  due_lt := fun seq hs => hnext ▸ hc.due_lt seq hs

/-- Statements other than a release keep the counts. -/
theorem Counted.keep {schema : Schema} {e : Cmd} {o : Oracle} {i : ℕ} (hc : Counted due w h)
    (hrel : ∀ entries, e ≠ .releaseClaims entries)
    (hround : ∀ seq r, roundFailed seq ⟨i, e, r⟩ = false) :
    Counted due (exec schema e o w).2 (⟨i, e, (exec schema e o w).1⟩ :: h) := by
  refine hc.of_rows (fun r' hr' => ?_) (exec_frame schema e o w).nextSeq
    fun seq => failedRounds_cons_of_not (hround seq _) h
  obtain ⟨r, hr, hstep⟩ := exec_row hr'
  refine ⟨r, hr, hstep.seq, ?_⟩
  cases hstep with
  | released entries => exact absurd rfl (hrel entries)
  | _ => rfl

end Assertions

/-! ### Rounds of the loop -/

namespace Budgeted

variable {es rest : List OutboxEntry} {entry : OutboxEntry} {failed : List ReleaseEntry}
  {w w' : World} {h h' : History Reply}

/-- A step that leaves the table alone and ends no round with an error. -/
theorem frame (hb : Budgeted es rest failed w h) (ht : w'.table = w.table)
    (hn : w'.nextSeq = w.nextSeq) (hf : ∀ seq, failedRounds seq h' = failedRounds seq h) :
    Budgeted es rest failed w' h' where
  present := fun e he => ht ▸ hb.present e he
  rest_mem := hb.rest_mem
  nodup := hb.nodup
  counted := by
    obtain ⟨fs, hids, hmem, hc⟩ := hb.counted
    exact ⟨fs, hids, hmem, hc.of_rows (fun r hr => ⟨r, ht ▸ hr, rfl, rfl⟩) hn hf⟩

/-- An entry yet to be handled is not among those to be released. -/
theorem not_due (hnum : w.Numbered) (hb : Budgeted es (entry :: rest) failed w h)
    {fs : List OutboxEntry}
    (hmem : ∀ e ∈ fs, e ∈ es ∧ e.id ∉ (entry :: rest).map (·.id)) :
    entry.seq ∉ fs.map (·.seq) := by
  intro hdue
  obtain ⟨e, he, hseq⟩ := List.mem_map.1 hdue
  obtain ⟨r, hr, hs⟩ := hb.present entry (hb.rest_mem entry List.mem_cons_self)
  obtain ⟨r', hr', hs'⟩ := hb.present e (hmem e he).1
  have heq : r' = r := hnum.seq_inj r' hr' r hr (by rw [← hs'.seq, ← hs.seq]; exact hseq)
  refine (hmem e he).2 ?_
  rw [hs'.id, heq, ← hs.id]
  exact List.mem_cons_self

/-- The entry at hand carries the number of its failed rounds. -/
theorem retryCount_eq (hnum : w.Numbered) (hb : Budgeted es (entry :: rest) failed w h) :
    entry.retryCount = failedRounds entry.seq h := by
  obtain ⟨fs, -, hmem, hc⟩ := hb.counted
  obtain ⟨r, hr, hs⟩ := hb.present entry (hb.rest_mem entry List.mem_cons_self)
  have hrow := hc.rows r hr
  rw [← hs.seq, if_neg (hb.not_due hnum hmem), add_zero] at hrow
  rw [hs.retryCount, hrow]

theorem handled (hb : Budgeted es (entry :: rest) failed w h) : Budgeted es rest failed w h where
  present := hb.present
  rest_mem := fun e he => hb.rest_mem e (List.mem_cons_of_mem _ he)
  nodup := (List.nodup_cons.1 hb.nodup).2
  counted := by
    obtain ⟨fs, hids, hmem, hc⟩ := hb.counted
    exact ⟨fs, hids, fun e he => ⟨(hmem e he).1, fun hin => (hmem e he).2
      (List.mem_cons_of_mem _ hin)⟩, hc⟩

/-- The round ended with an error: one more failed round, and one more row to be released. -/
theorem fail (hnum : w.Numbered) (hb : Budgeted es (entry :: rest) failed w h) {ev : Logged Reply}
    (hev : ∀ seq, roundFailed seq ev = decide (entry.seq = seq)) (err : Err) :
    Budgeted es rest (failed ++ [⟨entry.id, err⟩]) w (ev :: h) where
  present := hb.present
  rest_mem := hb.handled.rest_mem
  nodup := hb.handled.nodup
  counted := by
    obtain ⟨fs, hids, hmem, hc⟩ := hb.counted
    obtain ⟨r₀, hr₀, hs₀⟩ := hb.present entry (hb.rest_mem entry List.mem_cons_self)
    have hlt : entry.seq < w.nextSeq := hs₀.seq ▸ hnum.seq_lt r₀ hr₀
    have hnew := hb.not_due hnum hmem
    refine ⟨fs ++ [entry], by simp [hids], fun e he => ?_, fun r hr => ?_, fun seq hseq => ?_,
      fun seq hseq => ?_⟩
    · rcases List.mem_append.1 he with he | he
      · exact ⟨(hmem e he).1, fun hin => (hmem e he).2 (List.mem_cons_of_mem _ hin)⟩
      · rw [List.mem_singleton.1 he]
        exact ⟨hb.rest_mem entry List.mem_cons_self, (List.nodup_cons.1 hb.nodup).1⟩
    · have hrow := hc.rows r hr
      simp only [failedRounds_cons, hev, decide_eq_true_eq, List.map_append, List.map_singleton,
        List.mem_append, List.mem_singleton]
      by_cases hseq : entry.seq = r.seq
      · rw [← hseq, if_neg hnew, add_zero] at hrow
        rw [← hseq, if_pos (Or.inr rfl), if_pos rfl, hrow]
        push_cast
        ring
      · have hiff : (r.seq ∈ fs.map (·.seq) ∨ r.seq = entry.seq) ↔ r.seq ∈ fs.map (·.seq) :=
          or_iff_left fun heq => hseq heq.symm
        simp only [hiff, if_neg hseq, zero_add]
        exact hrow
    · rw [failedRounds_cons_of_not (by rw [hev]; exact decide_eq_false (by omega)),
        hc.unseen seq hseq]
    · rw [List.map_append, List.map_singleton] at hseq
      rcases List.mem_append.1 hseq with hseq | hseq
      · exact hc.due_lt seq hseq
      · rw [List.mem_singleton.1 hseq]
        exact hlt

end Budgeted

/-- The release of the rows that are due makes the counts right again. -/
theorem Counted.release {schema : Schema} (hid : schema.idIsUuid = false) {o : Oracle}
    (hdb : o.db = .ok) {es : List OutboxEntry} {failed : List ReleaseEntry} {w : World}
    {h : History Reply} (hnum : w.Numbered) (hb : Budgeted es [] failed w h) {i : ℕ} :
    Counted [] (exec schema (.releaseClaims failed) o w).2
      (⟨i, .releaseClaims failed, (exec schema (.releaseClaims failed) o w).1⟩ :: h) := by
  obtain ⟨fs, hids, hmem, hc⟩ := hb.counted
  -- a row is named by its id exactly if its number is due
  have hdue : ∀ r ∈ w.table, r.id ∈ failed.map (·.id) ↔ r.seq ∈ fs.map (·.seq) := by
    intro r hr
    rw [hids, List.mem_map, List.mem_map]
    constructor
    · rintro ⟨e, he, heid⟩
      obtain ⟨r', hr', hs⟩ := hb.present e (hmem e he).1
      have heq : r' = r := Table.eq_of_key _ hr' hr (hs.id.symm.trans heid)
      exact ⟨e, he, by rw [hs.seq, heq]⟩
    · rintro ⟨e, he, heseq⟩
      obtain ⟨r', hr', hs⟩ := hb.present e (hmem e he).1
      have heq : r' = r := hnum.seq_inj r' hr' r hr (hs.seq.symm.trans heseq)
      exact ⟨e, he, by rw [hs.id, heq]⟩
  have hrows : ∀ r' ∈ (exec schema (.releaseClaims failed) o w).2.table, ∃ r ∈ w.table,
      r'.seq = r.seq ∧ r'.retryCount = r.retryCount + if r.seq ∈ fs.map (·.seq) then 1 else 0 := by
    intro r' hr'
    have hmem' : r' ∈ (releaseClaims schema failed w.table).2 := by
      simp only [exec, hdb, DbResult.state] at hr'
      split_ifs at hr' with hnil
      · rw [hnil]
        exact hr'
      · exact hr'
    have hok : (releaseClaims schema failed w.table).1 = none :=
      releaseClaims_ok_iff.2 fun hu => absurd (hid.symm.trans hu) (by decide)
    obtain ⟨r, hr, ⟨hin, err, rfl⟩ | ⟨hin, rfl⟩⟩ := mem_releaseClaims hok hmem'
    · exact ⟨r, hr, rfl, by rw [if_pos ((hdue r hr).1 hin)]; rfl⟩
    · exact ⟨r', hr, rfl, by rw [if_neg fun hs => hin ((hdue r' hr).2 hs), add_zero]⟩
  refine ⟨fun r' hr' => ?_, fun seq hseq => ?_, fun seq hseq => by cases hseq⟩
  · obtain ⟨r, hr, hseq, hcount⟩ := hrows r' hr'
    rw [hseq, hcount, if_neg List.not_mem_nil, add_zero]
    exact hc.rows r hr
  · rw [(exec_frame schema _ o w).nextSeq] at hseq
    exact hc.unseen seq hseq

/-! ### Every run -/

section Budget

variable (schema : Schema) (workers : ℕ → Worker)

/-- The contract of a single worker. -/
def budget : Contract (machine schema workers) where
  inv := fun w h => w.Numbered ∧ Throughout (CountsRounds workers) h
  rely := fun i w h w' h' => i = 0 → EnvOnly w h w' h'
  idle := fun i _ w h => i = 0 → Counted [] w h
  allowed := SingleWorker
  envAllowed := fun _ _ => True
  crashes := False
  ok := fun _ _ _ _ _ => True

variable {schema workers} {w : World} {h : History Reply}

theorem budget_call {α : Type} {Q : α → World → History Reply → Prop} {e : Cmd}
    {k : Reply e → Prog Reply α}
    (hk : ∀ w₁ h₁ o, EnvOnly w h w₁ h₁ → w₁.Numbered → SingleWorker 0 e o w₁ h₁ →
      CountsRounds workers ⟨0, e, (exec schema e o w₁).1⟩ h₁ ∧
      Safe (budget schema workers) 0 Q (k (exec schema e o w₁).1) (exec schema e o w₁).2
        (⟨0, e, (exec schema e o w₁).1⟩ :: h₁)) :
    Safe (budget schema workers) 0 Q (.call e k) w h := by
  intro w₁ h₁ hr hi o hs
  obtain ⟨hcount, hsafe⟩ := hk w₁ h₁ o (hr rfl) hi.1 hs
  exact ⟨trivial, ⟨hi.1.exec, hcount, hi.2⟩, fun j hj h0 => absurd h0 hj, hsafe⟩

/-- Steps that neither release nor belong to a round keep the counts between two polls. -/
theorem budget_perform {e : Cmd} (hrel : ∀ entries, e ≠ .releaseClaims entries)
    (hround : ∀ seq r, roundFailed seq ⟨0, e, r⟩ = false)
    (hcounts : ∀ r h, CountsRounds workers ⟨0, e, r⟩ h) {due : List ℕ} (hc : Counted due w h) :
    Safe (budget schema workers) 0 (fun _ => Counted due) (Prog.perform e) w h :=
  budget_call fun _ _ _ he _ _ => ⟨hcounts _ _, fun _ _ hr _ =>
    ((hc.env he).keep hrel hround).env (hr rfl)⟩

/-- The loop assertion of this contract. -/
def budgeted (es : List OutboxEntry) : LoopAssertion :=
  fun rest _ failed w h => Budgeted es rest failed w h

/-- The exchange that ends the round of the entry at hand leaves the table alone. -/
theorem budget_outcome {es rest : List OutboxEntry} {entry : OutboxEntry}
    {publishedIDs : List String} {failed : List ReleaseEntry} (hnum : w.Numbered)
    (hb : Budgeted es (entry :: rest) failed w h) {w₁ w₂ : World} {h₂ : History Reply}
    (ht : w₁.table = w.table) (hn : w₁.nextSeq = w.nextSeq) {ev : Logged Reply}
    {result : Option Err}
    (hev : ∀ seq, roundFailed seq ev = (result.isSome && decide (entry.seq = seq)))
    (he : EnvOnly w₁ (ev :: h) w₂ h₂) :
    (budgeted es).after entry rest publishedIDs failed result w₂ h₂ := by
  cases result with
  | none =>
    have hb₁ : Budgeted es rest failed w₁ (ev :: h) :=
      hb.handled.frame ht hn fun seq => failedRounds_cons_of_not (hev seq) h
    exact hb₁.env he
  | some err =>
    have hb₁ : Budgeted es rest (failed ++ [⟨entry.id, err⟩]) w₁ (ev :: h) :=
      (hb.fail hnum hev err).frame ht hn fun _ => rfl
    exact hb₁.env he

theorem budget_publish {es rest : List OutboxEntry} {entry : OutboxEntry}
    {publishedIDs : List String} {failed : List ReleaseEntry}
    (hb : Budgeted es (entry :: rest) failed w h) :
    Safe (budget schema workers) 0 ((budgeted es).after entry rest publishedIDs failed)
      (.call (.publish entry) .pure) w h := by
  refine budget_call fun w₁ h₁ o he hnum _ => ⟨trivial, fun w₂ h₂ hr _ => ?_⟩
  refine budget_outcome hnum (hb.env he) rfl rfl (fun seq => ?_) (hr rfl)
  cases hreply : (exec schema (.publish entry) o w₁).1 <;> simp [roundFailed]

theorem budget_handleEntry {es rest : List OutboxEntry} {entry : OutboxEntry}
    {publishedIDs : List String} {failed : List ReleaseEntry}
    (hb : Budgeted es (entry :: rest) failed w h) :
    Safe (budget schema workers) 0 ((budgeted es).after entry rest publishedIDs failed)
      (handleEntry (workers 0) entry) w h := by
  rw [handleEntry_eq]
  split_ifs with hmax hdlq hcb
  · refine budget_call fun w₁ h₁ o he hnum _ => ?_
    have hcount := (hb.env he).retryCount_eq hnum
    refine ⟨⟨hcount, hcount ▸ hmax⟩, fun w₂ h₂ hr _ => ?_⟩
    refine budget_outcome hnum (hb.env he) ?_ (exec_frame schema _ o w₁).nextSeq (fun seq => ?_)
      (hr rfl)
    · exact DbResult.state_cases (P := fun w' : World => w'.table = w₁.table) o.db rfl rfl
    · cases hreply : (exec schema (.dlqInsert entry (dlqEntryOf entry)) o w₁).1 <;>
        simp [roundFailed]
  · exact fun w₁ h₁ hr _ => hb.handled.env (hr rfl)
  · refine budget_call fun w₁ h₁ o he hnum _ => ⟨trivial, ?_⟩
    cases hreply : (exec schema (.breaker entry) o w₁).1 with
    | none =>
      exact budget_publish ((hb.env he).frame rfl rfl fun seq => failedRounds_cons_of_not rfl h₁)
    | some err =>
      -- the breaker rejects the call, and the entry is released as after a failed call
      intro w₂ h₂ hr _
      have hev : ∀ seq, roundFailed seq (⟨0, .breaker entry, some err⟩ : Logged Reply) =
          ((some err).isSome && decide (entry.seq = seq)) := fun seq => by simp [roundFailed]
      exact budget_outcome hnum (hb.env he) rfl rfl hev (hr rfl)
  · exact budget_publish hb

theorem budget_claim {n : ℤ} (hc : Counted [] w h) :
    Safe (budget schema workers) 0 (afterClaim budgeted (Counted []))
      (Prog.perform (Cmd.claimBatch n)) w h := by
  refine budget_call fun w₁ h₁ o he hnum _ => ?_
  have hc₁ := hc.env he
  have hkeep : Counted [] (exec schema (.claimBatch n) o w₁).2
      (⟨0, .claimBatch n, (exec schema (.claimBatch n) o w₁).1⟩ :: h₁) :=
    hc₁.keep (by simp) fun _ _ => rfl
  match hreply : (exec schema (.claimBatch n) o w₁).1 with
  | .error err => exact ⟨trivial, fun w₂ h₂ hr _ => (hreply ▸ hkeep).env (hr rfl)⟩
  | .ok [] => exact ⟨by simp [CountsRounds], fun w₂ h₂ hr _ => (hreply ▸ hkeep).env (hr rfl)⟩
  | .ok (entry :: entries) =>
    obtain ⟨hes, htable⟩ := exec_claimBatch_ok hreply
    obtain ⟨hscan, hnodup, -⟩ := claimBatch_ok hes
    refine ⟨fun e hmem => ?_, fun w₂ h₂ hr _ => ?_⟩
    · obtain ⟨-, r, hr, -, hs⟩ := hscan e hmem
      have hrow := hc₁.rows r hr
      rw [if_neg List.not_mem_nil, add_zero] at hrow
      rw [hs.retryCount, hs.seq, hrow]
    · refine Budgeted.env ⟨fun e hmem => ?_, fun _ hmem => hmem, hnodup,
        [], rfl, fun _ hmem => (by cases hmem), hreply ▸ hkeep⟩ (hr rfl)
      obtain ⟨-, r, hr, -, hs⟩ := hscan e hmem
      refine ⟨_, htable ▸ mem_claimEntriesTx.2 ⟨r, hr, rfl⟩, ?_⟩
      split_ifs
      · exact ⟨hs.id, hs.seq, hs.retryCount, hs.columns⟩
      · exact hs

theorem Budgeted.done {es : List OutboxEntry} (hb : Budgeted es [] [] w h) : Counted [] w h := by
  obtain ⟨fs, hids, -, hc⟩ := hb.counted
  rw [List.map_eq_nil_iff.1 (hids.symm.trans List.map_nil)] at hc
  exact hc

theorem budget_settle (hid : schema.idIsUuid = false) {entry : OutboxEntry}
    {entries : List OutboxEntry} {publishedIDs : List String} {failed : List ReleaseEntry}
    (hi : (budget schema workers).inv w h) (hb : Budgeted (entry :: entries) [] failed w h) :
    Safe (budget schema workers) 0 (fun _ => Counted [])
      (settle entry.leaseToken publishedIDs failed) w h := by
  refine settle_safe (fun w h _ => EnvOnly.refl w h) (K := Budgeted (entry :: entries) [] failed)
    (fun _ _ _ _ hr hc => hc.env (hr rfl)) hi (fun _ => hb) (fun hpub => ?_) (fun hnil w h hb => ?_)
    fun _ w₁ h₁ _ hb₁ => ?_
  · refine budget_call fun w₁ h₁ o he _ hs => ⟨trivial, fun w₂ h₂ hr _ => ?_⟩
    have hb₁ := hb.env he
    have hdb : o.db = .ok := hs.2
    refine Budgeted.env ⟨fun e hmem => ?_, hb₁.rest_mem, hb₁.nodup, ?_⟩ (hr rfl)
    · obtain ⟨r, hr, hs⟩ := hb₁.present e hmem
      simp only [exec, hpub, hdb, DbResult.state, if_false]
      refine ⟨_, mem_markPublished.2 ⟨r, hr, rfl⟩, ?_⟩
      split_ifs
      · exact ⟨hs.id, hs.seq, hs.retryCount, hs.columns⟩
      · exact hs
    · obtain ⟨fs, hids, hmem, hc⟩ := hb₁.counted
      exact ⟨fs, hids, hmem, hc.keep (by simp) fun _ _ => rfl⟩
  · subst hnil
    exact hb.done
  · exact budget_call fun w₂ h₂ o he hnum hs => ⟨trivial, fun w₃ h₃ hr _ =>
      (Counted.release hid hs.2 hnum (hb₁.env he)).env (hr rfl)⟩

theorem budget_sound (hid : schema.idIsUuid = false) : (budget schema workers).Sound where
  refl := fun _ w h _ => EnvOnly.refl w h
  trans := fun h₁ h₂ h0 => (h₁ h0).trans (h₂ h0)
  env := fun a w h hi _ => ⟨⟨hi.1.env a, hi.2⟩, fun _ _ => EnvOnly.env schema a w h⟩
  crash := fun hc => hc.elim
  body := by
    intro i l w h hi hidle
    by_cases h0 : i = 0
    · subst h0
      have hstable : ∀ w h w₁ h₁, (budget schema workers).rely 0 w h w₁ h₁ → Counted [] w h →
          Counted [] w₁ h₁ := fun _ _ _ _ hr hc => hc.env (hr rfl)
      have hround := startRound_safe (C := budget schema workers) (i := 0)
        (fun w h _ => EnvOnly.refl w h) (J := Counted []) hstable
        (fun w h _ hc =>
          budget_perform (e := .wake) (by simp) (fun _ _ => rfl) (fun _ _ => trivial) hc)
        (fun w h hi hc => poll_safe (fun w h _ => EnvOnly.refl w h) (I := budgeted) hstable
          (fun _ _ _ hc => budget_claim hc) (fun _ _ _ _ _ _ _ _ hb => budget_handleEntry hb)
          (fun _ _ _ _ _ _ _ hr hb => Budgeted.env hb (hr rfl))
          (fun _ _ _ _ _ _ hi hb => budget_settle hid hi hb) hi hc)
        (fun w h _ hc =>
          budget_perform (e := .cleanup _) (by simp) (fun _ _ => rfl) (fun _ _ => trivial) hc)
        l hi (hidle rfl)
      exact Safe.mono (fun _ _ _ hc _ => hc) hround
    · -- the other workers do not run
      intro w₁ h₁ _ _ o ho
      have hs : SingleWorker i .wake o w₁ h₁ := ho
      exact absurd hs.1 h0

end Budget

/-- **The retry budget counts failed rounds**, in every run of one worker from a table whose rows
have not been tried yet: at every claim and every insert into the dead letter queue, and in the
table whenever the worker is between two polls. -/
theorem retryCount_counts_rounds (schema : Schema) (hid : schema.idIsUuid = false)
    (workers : ℕ → Worker) (w : World) (hw : w.Numbered) (hnew : ∀ r ∈ w.table, r.retryCount = 0)
    (schedule : Schedule) (hcrash : ∀ i, .crash i ∉ schedule)
    (hsingle : Along (machine schema workers) (OnStep SingleWorker) (start workers w) schedule) :
    let final := (start workers w).run (machine schema workers) schedule
    Throughout (CountsRounds workers) final.hist ∧
      ∀ l, final.thread 0 = .pure l →
        ∀ r ∈ final.shared.table, r.retryCount = failedRounds r.seq final.hist := by
  intro final
  have hcounted : Counted [] w [] :=
    ⟨fun r hr => by rw [hnew r hr]; rfl, fun _ _ => rfl, fun _ hs => by cases hs⟩
  have hgood : (start workers w).Good (budget schema workers) :=
    ⟨⟨hw, trivial⟩, fun i w₁ h₁ hr _ h0 => hcounted.env (hr h0)⟩
  have hadm : Along (machine schema workers) (budget schema workers).Admits (start workers w)
      schedule := by
    have hnocrash : Along (machine schema workers) (fun _ a => ∀ i, a ≠ .crash i)
        (start workers w) schedule := by
      refine Along.of_mem _ (fun a ha _ i hai => hcrash i ?_) _
      rwa [← hai]
    refine (hsingle.and _ hnocrash).mono _ fun p a hpa => ?_
    cases a with
    | step i o => exact hpa.1
    | resume i => trivial
    | crash i => exact absurd rfl (hpa.2 i)
    | env a => trivial
  obtain ⟨-, hinv, hsafe⟩ := (budget_sound hid).along hgood hadm
  refine ⟨hinv.2, fun l hl r hr => ?_⟩
  have hidle : Safe (budget schema workers) 0 ((budget schema workers).idle 0) (final.thread 0)
      final.shared final.hist := hsafe 0
  rw [hl] at hidle
  have hrow := (hidle _ _ (fun _ => EnvOnly.refl _ _) hinv rfl).rows r hr
  rwa [if_neg List.not_mem_nil, add_zero] at hrow

/-- A poll whose only call is answered by the breaker or the broker as given. -/
def onePoll (breaker broker : Option Err) : Schedule :=
  [.resume 0, .step 0 (smooth ""), .step 0 (smooth "t1"),
    .step 0 { smooth "" with breaker := breaker }, .step 0 { smooth "" with broker := broker },
    .step 0 (smooth "")]

/-- After a call of `bus.Publish` that failed, the row has one retry. -/
theorem retryCount_counts_rounds_timeout :
    let final := (start (fun _ => relayWorker) oneRow).run
      (machine textSchema fun _ => relayWorker) (onePoll none (some (.msg "timeout")))
    final.shared.table.rows.map (·.retryCount) = [1] ∧
      ∀ r ∈ final.shared.table, r.retryCount = failedRounds r.seq final.hist := by
  refine ⟨by decide, ?_⟩
  exact (retryCount_counts_rounds textSchema rfl (fun _ => relayWorker) oneRow
    oneRow_consistent.toNumbered (fun r hr => by rw [List.mem_singleton.1 hr]; rfl)
    (onePoll none (some (.msg "timeout"))) (by simp [onePoll]) (by decide)).2 _ rfl

/-- The breaker is open: the row has one retry although `bus.Publish` was never called for it. -/
theorem breakerOpen_counts :
    let schedule := onePoll (some (.msg "circuit breaker is open")) none
    let final := (start (fun _ => relayWorker) oneRow).run
      (machine textSchema fun _ => relayWorker) schedule
    Along (machine textSchema fun _ => relayWorker) (OnStep SingleWorker)
      (start (fun _ => relayWorker) oneRow) schedule ∧
    final.shared.table.rows.map (fun r => (r.seq, r.retryCount)) = [(0, 1)] ∧
    final.hist.countP (publishFailed 0) = 0 := by
  exact ⟨by decide, by decide, by decide⟩

end WolfCore.Outbox
