import WolfCore.Outbox.Relay

/-!
# What a worker whose lease has been taken over can still do

A worker whose lease expired may finish its poll after another worker has claimed the same row
under another token.  `MarkPublished` names the token, so the row is safe from it; `ReleaseClaim`
and `ReleaseClaims` do not, and release the row under the other worker's hands.

`leaseExclusive_iff` says so exactly: in every run the rows re-claimed by others are left alone if
and only if no release that takes effect names one of them.
-/

namespace WolfCore.Outbox

open Go Interleave Sql

/-- The current poll of worker `i` claimed its batch under `token`. -/
def Holds (i : ℕ) (h : History Reply) (token : String) : Prop :=
  ∃ entry ∈ batch i h, entry.leaseToken = token

/-- The columns of the lease and of the delivery are as before. -/
structure Untouched (r r' : Row) : Prop where
  claimedAt : r'.claimedAt = r.claimedAt
  leaseToken : r'.leaseToken = r.leaseToken
  retryCount : r'.retryCount = r.retryCount
  lastError : r'.lastError = r.lastError
  publishedAt : r'.publishedAt = r.publishedAt

/-- A step of a poll that holds `token` leaves alone the rows that were claimed under `token` and
re-claimed under another one.  (`ClaimBatch` begins the next poll.) -/
def RespectsLease (schema : Schema) (i : ℕ) (e : Cmd) (o : Oracle) (w : World)
    (h : History Reply) : Prop :=
  (∀ n, e ≠ .claimBatch n) → ∀ token, Holds i h token →
    ∀ r ∈ w.table, Reclaimed w.claims r.seq token →
      ∀ r' ∈ (exec schema e o w).2.table, r'.seq = r.seq → Untouched r r'

/-- Whether `ReleaseClaims` changes the rows it names: the database executes it, and on a uuid
column it is not the batch statement. -/
def ReleaseTakesEffect (schema : Schema) (o : Oracle) (entries : List ReleaseEntry) : Prop :=
  o.db.applied = true ∧ (schema.idIsUuid = true → entries.length ≤ 1)

/-- A release that takes effect names no row that was claimed under the token of the poll and
re-claimed under another one. -/
def SparesReclaimed (schema : Schema) (i : ℕ) :
    (e : Cmd) → Oracle → World → History Reply → Prop
  | .releaseClaims entries, o, w, h => ReleaseTakesEffect schema o entries →
      ∀ token, Holds i h token → ∀ r ∈ w.table, Reclaimed w.claims r.seq token →
        r.id ∉ entries.map (·.id)
  | _, _, _, _ => True

section

variable {schema : Schema} {workers : ℕ → Worker} {i : ℕ} {e : Cmd} {o : Oracle} {w : World}
  {h : History Reply} {entries : List ReleaseEntry}

theorem DbResult.state_of_applied {S : Type} {r : DbResult} (hr : r.applied = true) (w w' : S) :
    r.state w w' = w' := by
  match r with
  | .ok => rfl
  | .failed true _ => rfl

theorem DbResult.state_of_not_applied {S : Type} {r : DbResult} (hr : r.applied ≠ true)
    (w w' : S) : r.state w w' = w := by
  match r with
  | .ok => exact absurd rfl hr
  | .failed true _ => exact absurd rfl hr
  | .failed false _ => rfl

/-- A release that takes effect releases the rows it names. -/
theorem exec_releaseClaims (ht : ReleaseTakesEffect schema o entries) {r : Row} (hr : r ∈ w.table)
    (hid : r.id ∈ entries.map (·.id)) :
    ∃ err, r.release err ∈ (exec schema (.releaseClaims entries) o w).2.table := by
  have hne : entries ≠ [] := by
    rintro rfl
    cases hid
  simp only [exec, hne, if_false, DbResult.state_of_applied ht.1]
  rcases releaseClaims_table schema entries w.table with ⟨herr, -⟩ | ⟨-, err, hf, heq⟩
  · exact absurd (releaseClaims_ok_iff.2 ht.2) herr
  · rw [heq]
    exact ⟨err r, Table.mem_update.2 ⟨r, hr, if_pos (decide_eq_true hid)⟩⟩

theorem exec_releaseClaims_none (ht : ¬ ReleaseTakesEffect schema o entries) :
    (exec schema (.releaseClaims entries) o w).2.table = w.table := by
  simp only [exec]
  split_ifs
  · rfl
  · by_cases ha : o.db.applied = true
    · rw [DbResult.state_of_applied ha]
      rcases releaseClaims_table schema entries w.table with ⟨-, heq⟩ | ⟨hok, -⟩
      · exact heq
      · exact absurd ⟨ha, releaseClaims_ok_iff.1 hok⟩ ht
    · rw [DbResult.state_of_not_applied ha]

/-- For one step: only a release can touch a row re-claimed by another worker, and one that takes
effect always does. -/
theorem respectsLease_iff (hw : w.Consistent schema) (hk : Knows workers i h e) :
    RespectsLease schema i e o w h ↔ SparesReclaimed schema i e o w h := by
  constructor
  · intro hok
    cases e with
    | releaseClaims entries =>
      intro heff token hholds r hr hre hid
      obtain ⟨err, hr'⟩ := exec_releaseClaims heff hr hid
      have hcount := (hok (by simp) token hholds r hr hre _ hr' rfl).retryCount
      simp [Row.release] at hcount
    | _ => trivial
  · intro hspare hclaim token hholds r hr hre r' hr' hseq
    obtain ⟨r₀, hr₀, hstep⟩ := exec_row hr'
    have heq : r₀ = r := hw.seq_inj r₀ hr₀ r hr (hstep.seq.symm.trans hseq)
    subst heq
    cases hstep with
    | kept => exact ⟨rfl, rfl, rfl, rfl, rfl⟩
    | claimed n => exact absurd rfl (hclaim n)
    | marked ids token' htoken hid =>
      -- the poll marks under the token it holds, which the row no longer carries
      obtain ⟨entry, hb, rfl⟩ := hholds
      rw [← hk.1 entry hb] at htoken
      exact absurd htoken (hw.superseded r₀ hr₀ _ hre)
    | released entries err hid =>
      by_cases heff : ReleaseTakesEffect schema o entries
      · exact absurd hid (hspare heff token hholds r₀ hr₀ hre)
      · rw [exec_releaseClaims_none heff] at hr'
        have hsame : r₀.release err = r₀ := hw.seq_inj _ hr' r₀ hr₀ rfl
        rw [hsame]
        exact ⟨rfl, rfl, rfl, rfl, rfl⟩

end

/-- **Lease exclusivity, exactly.**  In every run in which the tokens drawn are distinct, no step
of a poll touches a row re-claimed under another token if and only if no release that takes effect
names such a row. -/
theorem leaseExclusive_iff (schema : Schema) (workers : ℕ → Worker) (w : World)
    (hw : w.Consistent schema) (schedule : Schedule)
    (hfresh : Along (machine schema workers) (OnStep FreshToken) (start workers w) schedule) :
    Along (machine schema workers) (OnStep (RespectsLease schema)) (start workers w) schedule ↔
      Along (machine schema workers) (OnStep (SparesReclaimed schema)) (start workers w)
        schedule := by
  have hcons := (Along.state_invariant (machine schema workers)
    (I := fun w _ => w.Consistent schema) (fun i e o s h hI hf => hI.exec (i := i) (h := h) hf)
    (fun a s _ hI => hI.env a) (p := start workers w) hw hfresh).1
  refine ((relay_knows schema workers w schedule).and _ hcons).congr _ ?_
  rintro p a ⟨hk, hc⟩
  cases a with
  | step i o =>
    simp only [OnStep] at hk ⊢
    split
    · exact Iff.rfl
    · rename_i e k heq
      rw [heq] at hk
      exact respectsLease_iff hc hk
  | _ => exact Iff.rfl

/-- Worker 0 claims the row, its lease expires, worker 1 claims the row, and then worker 0 calls
`bus.Publish`, which fails with `err` or not, and settles. -/
def takenOver (err : Option Err) : Schedule :=
  [.resume 0, .step 0 (smooth ""), .step 0 (smooth "t1"), .env (.elapse 300000000001),
    .resume 1, .step 1 (smooth ""), .step 1 (smooth "t2"),
    .step 0 (smooth ""), .step 0 { smooth "" with broker := err }, .step 0 (smooth "")]

theorem leaseExclusive_takenOver :
    Along (machine textSchema fun _ => relayWorker) (OnStep (RespectsLease textSchema))
      (start (fun _ => relayWorker) oneRow) (takenOver none) :=
  (leaseExclusive_iff textSchema (fun _ => relayWorker) oneRow oneRow_consistent
    (takenOver none) (by decide)).2
    ⟨trivial, trivial, trivial, trivial, trivial, trivial, trivial, trivial, trivial, trivial,
      trivial⟩

/-- The stale worker's release clears the lease of the other worker and counts a retry. -/
theorem takenOver_released :
    Along (machine textSchema fun _ => relayWorker) (OnStep FreshToken)
      (start (fun _ => relayWorker) oneRow) (takenOver (some (.msg "timeout"))) ∧
    ¬ Along (machine textSchema fun _ => relayWorker) (OnStep (RespectsLease textSchema))
      (start (fun _ => relayWorker) oneRow) (takenOver (some (.msg "timeout"))) := by
  refine ⟨by decide, fun hall => ?_⟩
  -- the last move: `ReleaseClaims` while the row is leased under `t2`
  have hlast := hall.2.2.2.2.2.2.2.2.2.1
  have hrow := hlast (by simp) "t1" ⟨_, List.mem_singleton.2 rfl, rfl⟩ _ (List.mem_singleton.2 rfl)
    (Or.inr ⟨by decide, List.mem_singleton.2 rfl, _, List.mem_cons_self, List.mem_singleton.2 rfl⟩)
    _ (List.mem_singleton.2 rfl) rfl
  exact absurd hrow.retryCount (by decide)

end WolfCore.Outbox
