import WolfCore.UoW.Atomicity

/-!
# Retrying a unit of work

A rollback restores the database, but not the aggregates: their pending events have been drained by
then.  `retry_safe` says when an attempt that fails leaves them as they were: when it fails before
the aggregates are drained and the function has left them alone, or when the aggregates that were
drained had nothing pending before.  After such attempts only, the first one that returns nil
commits every pending event.

`commitFails_loses_event` is an attempt whose commit fails, followed by one that returns nil and
commits nothing.
-/

namespace WolfCore.UoW

open Go Outbox

section

variable {δ V A : Type} [DecidableEq A]

/-- One attempt: a call, with all it is given and all it meets. -/
structure Attempt (δ V A : Type) where
  call : Call A
  ctx : Ctx
  fn : Fn δ V A
  faults : Faults δ V A

def Attempt.run (u : UnitOfWork V) (a : Attempt δ V A) : Proc (World δ V A) :=
  a.call.run u a.faults a.ctx a.fn

def runAll (u : UnitOfWork V) : List (Attempt δ V A) → World δ V A → World δ V A
  | [], w => w
  | a :: as, w => runAll u as (a.run u w).2

/-- What the function of the attempt returns, and the database and pending events it leaves. -/
def Attempt.left (a : Attempt δ V A) (w : World δ V A) :
    Outcome (Option Err) × Db δ × (A → List (Event V)) := a.fn (w.conn.pool, w.pending)

/-- The aggregates that are drained after the function has returned nil. -/
def Attempt.drains (u : UnitOfWork V) (a : Attempt δ V A) (w : World δ V A) : List A :=
  drainedBy u a.faults a.ctx a.call.aggs
    { w.setTx (a.left w).2.1 with pending := (a.left w).2.2 }

/-- The transaction is not begun; or the function fails and has left the pending events alone; or
it succeeds, the aggregates that are then drained had nothing pending before, and it has left the
others alone. -/
def Attempt.Spares (u : UnitOfWork V) (a : Attempt δ V A) (w : World δ V A) : Prop :=
  a.faults.beginTx ≠ none ∨
  ((a.left w).1 ≠ .returned none ∧ (a.left w).2.2 = w.pending) ∨
  ((a.left w).1 = .returned none ∧
    ∀ agg, if agg ∈ a.drains u w then w.pending agg = [] else (a.left w).2.2 agg = w.pending agg)

/-- All the attempts fail, and spare the pending events. -/
def Retried (u : UnitOfWork V) : List (Attempt δ V A) → World δ V A → Prop
  | [], _ => True
  | a :: as, w => (a.run u w).1 ≠ .returned none ∧ a.Spares u w ∧ Retried u as (a.run u w).2

variable (u : UnitOfWork V)

theorem forall_ite_iff_eq {gone : List A} {before after : A → List (Event V)} :
    (∀ agg, if agg ∈ gone then before agg = [] else after agg = before agg) ↔
      cleared gone after = before := by
  rw [funext_iff]
  refine forall_congr' fun agg => ?_
  unfold cleared
  by_cases hagg : agg ∈ gone
  · rw [if_pos hagg, if_pos hagg, eq_comm]
  · rw [if_neg hagg, if_neg hagg]

/-- For one attempt that fails: the pending events are kept exactly if it spares them. -/
theorem pending_kept_iff {a : Attempt δ V A} {w : World δ V A}
    (hfail : (a.run u w).1 ≠ .returned none) :
    (a.run u w).2.pending = w.pending ↔ a.Spares u w := by
  rcases hfn : a.left w with ⟨o, db, pending⟩
  unfold Attempt.Spares Attempt.drains
  rw [hfn, forall_ite_iff_eq]
  rcases a.call.run_spec u a.faults a.ctx a.fn w hfn with ⟨hok, -⟩ | ⟨-, -, hcases⟩
  · exact absurd hok hfail
  · change (a.call.run u a.faults a.ctx a.fn w).2.pending = w.pending ↔ _
    rcases hcases with ⟨hb, hp⟩ | ⟨hb, ho, hp⟩ | ⟨hb, ho, hp⟩
    · exact iff_of_true hp (Or.inl hb)
    · rw [hp]
      simp [hb, ho]
    · rw [hp]
      simp [hb, ho]

/-- Attempts that fail and spare the pending events leave everything as it was. -/
theorem Retried.unchanged {as : List (Attempt δ V A)} {w : World δ V A} (h : Retried u as w) :
    (runAll u as w).pending = w.pending ∧ (runAll u as w).conn.pool = w.conn.pool := by
  induction as generalizing w with
  | nil => exact ⟨rfl, rfl⟩
  | cons a as ih =>
    obtain ⟨hfail, hspares, hrest⟩ := h
    obtain ⟨hpending, hpool⟩ := ih hrest
    exact ⟨hpending.trans ((pending_kept_iff u hfail).2 hspares),
      hpool.trans (Call.unchanged hfail)⟩

/-- **Retry safety, exactly.**  An attempt that fails, with any function, leaves the pending events
as they were if and only if it spares them; and after any number of such attempts an attempt that
returns nil commits every event that is pending when its function returns, once and in order. -/
theorem retry_safe :
    (∀ (a : Attempt δ V A) (w : World δ V A), (a.run u w).1 ≠ .returned none →
      ((a.run u w).2.pending = w.pending ↔ a.Spares u w)) ∧
    ∀ (failed : List (Attempt δ V A)) (last : Attempt δ V A) (w : World δ V A), Retried u failed w →
      (last.run u (runAll u failed w)).1 = .returned none →
      Committed u last.ctx last.call.aggs (last.left w).2.1 (last.left w).2.2
        (last.run u (runAll u failed w)).2.conn.pool := by
  refine ⟨fun a w hfail => pending_kept_iff u hfail, fun failed last w hr hok => ?_⟩
  obtain ⟨hpending, hpool⟩ := hr.unchanged u
  have hcommitted := (Call.committed hok).2
  rw [hpending, hpool] at hcommitted
  exact hcommitted

end

/-! ### Two attempts on one aggregate -/

/-- An attempt on the aggregate whose function writes nothing and ends with `fnErr`, and whose
commit ends with `commitErr`. -/
def attemptWith (fnErr commitErr : Option Err) : Attempt Unit Unit Unit where
  call := .execute ()
  ctx := ⟨false, "", ""⟩
  fn := fun s => (.returned fnErr, s)
  faults := ⟨none, fun _ _ => none, commitErr, none⟩

theorem retry_safe_fnFails :
    Retried plainUnit [attemptWith (some (.msg "conflict")) none] oneEvent ∧
    Committed plainUnit (attemptWith none none).ctx [()] oneEvent.conn.pool oneEvent.pending
      ((attemptWith none none).run plainUnit
        (runAll plainUnit [attemptWith (some (.msg "conflict")) none] oneEvent)).2.conn.pool := by
  have hretried : Retried plainUnit [attemptWith (some (.msg "conflict")) none] oneEvent :=
    ⟨nofun, Or.inr (Or.inl ⟨nofun, rfl⟩), trivial⟩
  exact ⟨hretried, (retry_safe plainUnit).2 _ (attemptWith none none) oneEvent hretried rfl⟩

/-- The commit fails, and the next attempt returns nil without a row for the event. -/
theorem commitFails_loses_event :
    let first := (attemptWith none (some (.msg "connection reset"))).run plainUnit oneEvent
    let second := (attemptWith none none).run plainUnit first.2
    first.1 ≠ .returned none ∧ first.2.pending ≠ oneEvent.pending ∧
      second.1 = .returned none ∧ second.2.conn.pool.outbox.rows = [] := by
  refine ⟨nofun, fun h => ?_, rfl, rfl⟩
  have happ := congrFun h ()
  cases happ

end WolfCore.UoW
