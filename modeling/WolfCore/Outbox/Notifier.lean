import WolfCore.Lib.Calls
import WolfCore.Lib.Chan
import WolfCore.Outbox.Relay

/-!
# Wake-ups of the outbox worker (`infra/events/outbox/notifier.go`, `infra/events/outbox/worker.go`)

The commit of an insert sends a notification.  The notifier receives it and sends to `wake`, a
channel with room for one signal, unless there is no room; the worker receives from `wake`, or is
woken up by its ticker, and polls.  So many notifications may end in one signal, and a signal may
come while a poll is running.

* `RelayCmd`, `listenRound`, `lift`, `relayMachine`: the loop of `listenLoop` and the program of the
  worker (`startRound`) over one database, one connection and one channel;
* `WakeInv`: as long as no `ClaimBatch` has been executed since a notification was received, it is
  not forwarded yet, or there is a signal in the channel, or the worker has woken up;
* `no_lost_wakeup`: so there is one if none of the three is the case.

The connection is never lost, and nobody crashes.  A command of the worker records the database it
was executed in, and whether it got there (`DbResult.applied`); the program does not see this.
-/

namespace WolfCore.Outbox

open Go Interleave

/-- What the notifier and the worker do. -/
inductive RelayCmd
  /-- `conn.WaitForNotification` -/
  | receive
  /-- `select { case n.wake <- struct{}{}: default: }` -/
  | signal
  /-- the worker comes to its `select`; `worker .wake` leaves it -/
  | select
  | worker (e : Cmd)

/-- The answer to each command.  A notification is given by the numbers of the rows it is for;
`none` means that there is none yet. -/
abbrev RelayReply : RelayCmd → Type
  | .receive => Option (List ℕ)
  | .signal => Unit
  | .select => Unit
  | .worker e => Reply e × World × Bool

/-- The database, the notifications on their way to the notifier, and the channel. -/
structure RelayWorld where
  db : World
  notifications : List (List ℕ)
  wake : Chan Unit 1

/-- The `select` of `Worker.Start`: it takes a signal, or a tick.  A tick is not taken by a worker
that was sent a signal already. -/
def chooseWake (wake : Wake) (c : Chan Unit 1) : Wake × Chan Unit 1 :=
  match wake, c.hasRoom with
  | .tick, true => (.tick, c.leave)
  | _, _ =>
      match c.recv.1 with
      | .received _ => (.notify, c.recv.2)
      | _ => (.tick, c.leave)

/-- The channel after a command of the worker. -/
def wakeAfter (o : Oracle) (c : Chan Unit 1) : Cmd → Chan Unit 1
  | .wake => (chooseWake o.wake c).2
  | _ => c

def relayExec (schema : Schema) : (e : RelayCmd) → Oracle → RelayWorld → RelayReply e × RelayWorld
  | .receive, _, s =>
      match s.notifications with
      | [] => (none, s)
      | rows :: rest => (some rows, { s with notifications := rest })
  | .signal, _, s => ((), { s with wake := (s.wake.send ()).2 })
  | .select, _, s => ((), { s with wake := s.wake.await })
  | .worker e, o, s =>
      let r := exec schema e { o with wake := (chooseWake o.wake s.wake).1 } s.db
      ((r.1, s.db, o.db.applied), ⟨r.2, s.notifications, wakeAfter o s.wake e⟩)

/-- One round of the loop of `Notifier.listenLoop`. -/
def listenRound (l : Local) : Prog RelayReply Local :=
  .call .receive fun
    | none => .pure l
    | some _ => .call .signal fun _ => .pure l

/-- A program of the worker. -/
def lift {α : Type} : Prog Reply α → Prog RelayReply α
  | .pure a => .pure a
  | .call e k => .call (.worker e) fun r => lift (k r.1)

/-- The inserts of a transaction; it fails if one of them does. -/
def insertRows (schema : Schema) : World → List NewRow → Option World
  | w, [] => some w
  | w, r :: rs =>
      match insertRow schema w.table r w.nextSeq with
      | none => none
      | some t => insertRows schema { w with table := t, nextSeq := w.nextSeq + 1 } rs

/-- What happens around the two: others commit inserts, and time passes. -/
inductive RelayEnv
  | commit (rows : List NewRow)
  | elapse (d : ℕ)

/-- A commit sends a notification for its rows. -/
def relayEnv (schema : Schema) : RelayEnv → RelayWorld → RelayWorld
  | .commit rows, s =>
      match insertRows schema s.db rows with
      | none => s
      | some db => { s with
          db := db
          notifications := s.notifications ++ [List.range' s.db.nextSeq rows.length] }
  | .elapse d, s => { s with db := envStep schema (.elapse d) s.db }

/-- Thread 0 is the notifier, thread 1 the worker. -/
def relayMachine (schema : Schema) (w : Worker) :
    Machine RelayReply RelayWorld Oracle Local RelayEnv where
  exec := relayExec schema
  body
    | 0, l => listenRound l
    | 1, l => .call .select fun _ => lift (startRound w l)
    | _, l => .pure l
  boot := fun _ => ⟨0, 0, w.pollInterval⟩
  env := relayEnv schema

/-! ### Events -/

def isReceived : Logged RelayReply → Bool
  | ⟨_, .receive, reply⟩ => reply.isSome
  | _ => false

/-- The notifier has forwarded what it received. -/
def isSignal : Logged RelayReply → Bool
  | ⟨_, .signal, _⟩ => true
  | _ => false

def isWake : Logged RelayReply → Bool
  | ⟨_, .worker .wake, _⟩ => true
  | _ => false

/-- The query of `ClaimBatch` is executed. -/
def isQuery : Logged RelayReply → Bool
  | ⟨_, .worker (.claimBatch _), (_, _, applied)⟩ => applied
  | _ => false

/-- A notification is received and not forwarded. -/
def unforwarded : History RelayReply → Bool := outstanding isReceived isSignal

/-- The worker has woken up and has not made its query. -/
def woken : History RelayReply → Bool := outstanding isWake isQuery

/-- A notification was received after the last query. -/
def unseen : History RelayReply → Bool := outstanding isReceived isQuery

/-- Every transaction of `ClaimBatch` can begin. -/
def Connected (_ : ℕ) (e : RelayCmd) (o : Oracle) (_ : RelayWorld) (_ : History RelayReply) :
    Prop :=
  ∀ n, e = .worker (.claimBatch n) → o.db.applied = true

/-! ### Signals -/

/-- No wake-up is lost. -/
structure WakeInv (s : RelayWorld) (h : History RelayReply) : Prop where
  isOpen : s.wake.closed = false
  signalled : unseen h = true → unforwarded h = true ∨ s.wake.buf ≠ [] ∨ woken h = true

section

variable {schema : Schema} {s : RelayWorld} {h : History RelayReply} {i : ℕ} {e : RelayCmd}
    {o : Oracle}

theorem closed_chooseWake (wake : Wake) (c : Chan Unit 1) :
    (chooseWake wake c).2.closed = c.closed := by
  unfold chooseWake
  split
  · rfl
  · split
    · exact Chan.closed_recv
    · rfl

/-- A command that is none of the four kinds keeps what the invariant says about the history. -/
theorem WakeInv.frame {s' : RelayWorld} (hi : WakeInv s h) (hopen : s'.wake.closed = s.wake.closed)
    (hbuf : s.wake.buf ≠ [] → s'.wake.buf ≠ []) {ev : Logged RelayReply}
    (hr : isReceived ev = false) (hs : isSignal ev = false) (hw : isWake ev = false)
    (hq : isQuery ev = false) :
    WakeInv s' (ev :: h) := by
  refine ⟨hopen.trans hi.isOpen, fun hunseen => ?_⟩
  rw [unseen, outstanding_cons_of_not hr hq] at hunseen
  rw [unforwarded, outstanding_cons_of_not hr hs, woken, outstanding_cons_of_not hw hq]
  exact (hi.signalled hunseen).imp_right (Or.imp_left hbuf)

theorem WakeInv.exec (hi : WakeInv s h) (hc : Connected i e o s h) :
    WakeInv (relayExec schema e o s).2 (⟨i, e, (relayExec schema e o s).1⟩ :: h) := by
  cases e with
  | receive =>
    cases hn : s.notifications with
    | nil =>
      simp only [relayExec, hn]
      refine hi.frame ?_ ?_ ?_ ?_ ?_ ?_
      exacts [rfl, id, rfl, rfl, rfl, rfl]
    | cons rows rest =>
      simp only [relayExec, hn]
      exact ⟨hi.isOpen, fun _ => Or.inl (outstanding_cons_of rfl)⟩
  | signal =>
    exact ⟨(Chan.closed_send ()).trans hi.isOpen,
      fun _ => Or.inr (Or.inl (Chan.send_ne_nil Nat.one_pos hi.isOpen ()))⟩
  | select =>
    refine hi.frame ?_ ?_ ?_ ?_ ?_ ?_
    exacts [rfl, id, rfl, rfl, rfl, rfl]
  | worker e =>
    cases e with
    | wake =>
      exact ⟨(closed_chooseWake _ _).trans hi.isOpen,
        fun _ => Or.inr (Or.inr (outstanding_cons_of rfl))⟩
    | claimBatch n =>
      have happlied : o.db.applied = true := hc n rfl
      refine ⟨hi.isOpen, fun hunseen => ?_⟩
      rw [unseen, outstanding_cons_of_answer rfl happlied] at hunseen
      cases hunseen
    | _ =>
      refine hi.frame ?_ ?_ ?_ ?_ ?_ ?_
      exacts [rfl, id, rfl, rfl, rfl, rfl]

/-! ### Rows -/

/-- A `Cleanup` found the row, and found it published. -/
def CleanedUp (h : History RelayReply) (row : ℕ) : Prop :=
  ∃ i retention reply db applied, ⟨i, .worker (.cleanup retention), (reply, db, applied)⟩ ∈ h ∧
    ∃ r ∈ db.table, r.seq = row ∧ r.publishedAt ≠ none

/-- The row is committed in a database, and in its table, unless it was deleted after it had been
published. -/
def Visible (db : World) (h : History RelayReply) (row : ℕ) : Prop :=
  row < db.nextSeq ∧ ((∃ r ∈ db.table, r.seq = row) ∨ CleanedUp h row)

/-- A notification is for rows that are visible, and a command of the worker sees all rows whose
notification was received before. -/
structure RowsInv (s : RelayWorld) (h : History RelayReply) : Prop where
  sent : ∀ rows ∈ s.notifications, ∀ row ∈ rows, Visible s.db h row
  received : ∀ i rows, ⟨i, .receive, some rows⟩ ∈ h → ∀ row ∈ rows, Visible s.db h row
  seen : Throughout (fun ev h => ∀ i e reply db applied, ev = ⟨i, .worker e, (reply, db, applied)⟩ →
    ∀ j rows, ⟨j, .receive, some rows⟩ ∈ h → ∀ row ∈ rows, Visible db h row) h

theorem CleanedUp.mono {h' : History RelayReply} {row : ℕ} (hc : CleanedUp h row)
    (hh : ∀ ev ∈ h, ev ∈ h') : CleanedUp h' row := by
  obtain ⟨i, retention, reply, db, applied, hmem, hr⟩ := hc
  exact ⟨i, retention, reply, db, applied, hh _ hmem, hr⟩

theorem Visible.mono {db : World} {h' : History RelayReply} {row : ℕ} (hv : Visible db h row)
    (hh : ∀ ev ∈ h, ev ∈ h') : Visible db h' row := ⟨hv.1, hv.2.imp_right fun hc => hc.mono hh⟩

theorem Visible.exec {row : ℕ} (hv : Visible s.db h row) (e : Cmd) (o o' : Oracle)
    (reply : Reply e) :
    Visible (exec schema e o' s.db).2 (⟨i, .worker e, (reply, s.db, o.db.applied)⟩ :: h) row := by
  refine ⟨(exec_frame schema e o' s.db).nextSeq ▸ hv.1, ?_⟩
  rcases hv.2 with ⟨r, hr, rfl⟩ | hc
  · by_cases he : ∀ retention, e ≠ .cleanup retention
    · obtain ⟨r', hr', hstep⟩ := (exec_inPlace schema he o' s.db).survives hr
      exact Or.inl ⟨r', hr', hstep.seq⟩
    · obtain ⟨retention, rfl⟩ := not_forall_not.1 he
      by_cases hp : r.publishedAt = none
      · obtain ⟨r', hr', hstep⟩ : ∃ r' ∈ (Outbox.exec schema (.cleanup retention) o' s.db).2.table,
            RowStep schema o' s.db r (.cleanup retention) r' := exec_survives hr hp
        exact Or.inl ⟨r', hr', hstep.seq⟩
      · exact Or.inr ⟨i, retention, reply, s.db, _, List.mem_cons_self, r, hr, rfl, hp⟩
  · exact Or.inr (hc.mono fun _ hev => List.mem_cons_of_mem _ hev)

theorem Visible.cons {db : World} {row : ℕ} (hv : Visible db h row) (ev : Logged RelayReply) :
    Visible db (ev :: h) row :=
  hv.mono fun _ hev => List.mem_cons_of_mem _ hev

theorem RowsInv.exec (hi : RowsInv s h) :
    RowsInv (relayExec schema e o s).2 (⟨i, e, (relayExec schema e o s).1⟩ :: h) := by
  cases e with
  | receive =>
    cases hn : s.notifications with
    | nil =>
      simp only [relayExec, hn]
      refine ⟨by simp [hn], fun j rows hmem row hrow => ?_, by simp, hi.seen⟩
      rcases List.mem_cons.1 hmem with heq | hmem
      · injection heq with _ _ hreply
        cases hreply
      · exact (hi.received j rows hmem row hrow).cons _
    | cons rows rest =>
      simp only [relayExec, hn]
      have hsent := hi.sent
      simp only [hn, List.forall_mem_cons] at hsent
      refine ⟨fun rows' hmem row hrow => (hsent.2 rows' hmem row hrow).cons _,
        fun j rows' hmem row hrow => ?_, by simp, hi.seen⟩
      rcases List.mem_cons.1 hmem with heq | hmem
      · injection heq with _ _ hreply
        cases hreply
        exact (hsent.1 row hrow).cons _
      · exact (hi.received j rows' hmem row hrow).cons _
  | signal =>
    refine ⟨fun rows hmem row hrow => (hi.sent rows hmem row hrow).cons _,
      fun j rows hmem row hrow => ?_, by simp, hi.seen⟩
    rcases List.mem_cons.1 hmem with heq | hmem
    · cases heq
    · exact (hi.received j rows hmem row hrow).cons _
  | select =>
    refine ⟨fun rows hmem row hrow => (hi.sent rows hmem row hrow).cons _,
      fun j rows hmem row hrow => ?_, by simp, hi.seen⟩
    rcases List.mem_cons.1 hmem with heq | hmem
    · cases heq
    · exact (hi.received j rows hmem row hrow).cons _
  | worker e =>
    refine ⟨fun rows hmem row hrow => (hi.sent rows hmem row hrow).exec e o _ _,
      fun j rows hmem row hrow => ?_, ?_, hi.seen⟩
    · rcases List.mem_cons.1 hmem with heq | hmem
      · cases heq
      · exact (hi.received j rows hmem row hrow).exec e o _ _
    · intro j e' reply db applied heq
      injection heq with _ hcmd hreply
      injection hcmd with hcmd
      subst hcmd
      cases hreply
      exact hi.received

theorem insertRows_spec {rows : List NewRow} {w w' : World}
    (hins : insertRows schema w rows = some w') :
    w'.nextSeq = w.nextSeq + rows.length ∧ (∀ r ∈ w.table, r ∈ w'.table) ∧
      ∀ row, w.nextSeq ≤ row → row < w'.nextSeq → ∃ r ∈ w'.table, r.seq = row := by
  induction rows generalizing w with
  | nil =>
    obtain rfl : w = w' := Option.some.inj hins
    exact ⟨rfl, fun _ hr => hr, fun row hle hlt => absurd hlt (not_lt.2 hle)⟩
  | cons r rows ih =>
    simp only [insertRows] at hins
    cases ht : insertRow schema w.table r w.nextSeq with
    | none => simp [ht] at hins
    | some t =>
      rw [ht] at hins
      obtain ⟨payload, -, hinsert⟩ := insertRow_eq_some.1 ht
      obtain ⟨hseq, hkeep, hnew⟩ := ih hins
      have hseq : w'.nextSeq = w.nextSeq + 1 + rows.length := hseq
      refine ⟨by rw [hseq, List.length_cons]; omega,
        fun r' hr' => hkeep r' ((Sql.Table.mem_insert hinsert).2 (Or.inl hr')),
        fun row hle hlt => ?_⟩
      rcases Nat.eq_or_lt_of_le hle with rfl | hlt'
      · exact ⟨_, hkeep _ ((Sql.Table.mem_insert hinsert).2 (Or.inr rfl)), rfl⟩
      · exact hnew row hlt' hlt

theorem WakeInv.env (hi : WakeInv s h) (a : RelayEnv) : WakeInv (relayEnv schema a s) h := by
  cases a with
  | elapse d => exact ⟨hi.isOpen, hi.signalled⟩
  | commit rows =>
    simp only [relayEnv]
    cases insertRows schema s.db rows <;> exact ⟨hi.isOpen, hi.signalled⟩

theorem RowsInv.env (hi : RowsInv s h) (a : RelayEnv) : RowsInv (relayEnv schema a s) h := by
  cases a with
  | elapse d => exact ⟨hi.sent, hi.received, hi.seen⟩
  | commit rows =>
    simp only [relayEnv]
    cases hins : insertRows schema s.db rows with
    | none => exact hi
    | some db =>
      obtain ⟨hseq, hkeep, hnew⟩ := insertRows_spec hins
      have hold : ∀ row, Visible s.db h row → Visible db h row := fun row hv =>
        ⟨by have := hv.1; omega, hv.2.imp_left fun ⟨r, hr, hrow⟩ => ⟨r, hkeep r hr, hrow⟩⟩
      refine ⟨fun rows' hmem row hrow => ?_,
        fun j rows' hmem row hrow => hold row (hi.received j rows' hmem row hrow), hi.seen⟩
      rcases List.mem_append.1 hmem with hmem | hmem
      · exact hold row (hi.sent rows' hmem row hrow)
      · rw [List.mem_singleton.1 hmem, List.mem_range'_1] at hrow
        exact ⟨by rw [hseq]; exact hrow.2, Or.inl (hnew row hrow.1 (by rw [hseq]; exact hrow.2))⟩

end

/-! ### The programs -/

theorem handleEntry_only (w : Worker) (entry : OutboxEntry) :
    Only (fun e => e ≠ .wake) (handleEntry w entry) := by
  rw [handleEntry_eq]
  split_ifs
  · exact ⟨by simp, fun _ => trivial⟩
  · trivial
  · refine ⟨by simp, fun rejected => ?_⟩
    cases rejected with
    | some err => trivial
    | none => exact ⟨by simp, fun _ => trivial⟩
  · exact ⟨by simp, fun _ => trivial⟩

theorem pollEntries_only (w : Worker) (entries : List OutboxEntry) (publishedIDs : List String)
    (failed : List ReleaseEntry) :
    Only (fun e => e ≠ .wake) (pollEntries w entries publishedIDs failed) := by
  induction entries generalizing publishedIDs failed with
  | nil => trivial
  | cons entry entries ih =>
    refine Only.bind (handleEntry_only w entry) fun err => ?_
    cases err with
    | none => exact ih _ _
    | some err => exact ih _ _

theorem settle_only (leaseToken : String) (publishedIDs : List String)
    (failed : List ReleaseEntry) :
    Only (fun e => e ≠ .wake) (settle leaseToken publishedIDs failed) := by
  unfold settle
  split_ifs
  · exact ⟨by simp, fun _ => ⟨by simp, fun _ => trivial⟩⟩
  · exact ⟨by simp, fun _ => trivial⟩
  · exact ⟨by simp, fun _ => trivial⟩
  · trivial

/-- `poll` starts with its claim, and does not wait for a signal. -/
theorem poll_eq (w : Worker) : ∃ k : Reply (.claimBatch w.batchSize) → Prog Reply (Option Err),
    poll w = .call (.claimBatch w.batchSize) k ∧ ∀ r, Only (fun e => e ≠ .wake) (k r) := by
  refine ⟨_, rfl, fun r => ?_⟩
  match r with
  | .error err => trivial
  | .ok [] => trivial
  | .ok (entry :: entries) =>
    change Only _
      ((pollEntries w (entry :: entries) [] []).bind fun r => settle entry.leaseToken r.1 r.2)
    exact (pollEntries_only w _ _ _).bind fun _ => settle_only _ _ _

theorem doPoll_eq (w : Worker) (l : Local) :
    ∃ k : Reply (.claimBatch w.batchSize) → Prog Reply Local,
      doPoll w l = .call (.claimBatch w.batchSize) k ∧ ∀ r, Only (fun e => e ≠ .wake) (k r) := by
  obtain ⟨k, hk, honly⟩ := poll_eq w
  unfold doPoll
  rw [hk]
  refine ⟨_, rfl, fun r => Only.bind (honly r) fun err => ?_⟩
  dsimp only
  split_ifs
  · exact ⟨by simp, fun _ => trivial⟩
  · trivial

/-- What a worker does when it has woken up: its claim comes first. -/
theorem startRound_eq (w : Worker) (l : Local) :
    ∃ f : Wake → Prog Reply Local, startRound w l = .call .wake f ∧
      ∀ wake, ∃ k : Reply (.claimBatch w.batchSize) → Prog Reply Local,
        f wake = .call (.claimBatch w.batchSize) k ∧
      ∀ r, Only (fun e => e ≠ .wake) (k r) := by
  obtain ⟨k, hk, honly⟩ := doPoll_eq w l
  refine ⟨_, rfl, fun wake => ?_⟩
  cases wake with
  | tick => exact ⟨k, hk, honly⟩
  | notify =>
    change ∃ k', (doPoll w l).bind (fun l => .pure { l with interval := w.pollInterval }) = _ ∧ _
    rw [hk]
    exact ⟨_, rfl, fun r => (honly r).bind fun _ => trivial⟩

/-- What the notifier and the worker know: when it waits for a notification, the notifier has
forwarded the ones before; when it waits in its `select`, the worker has made its query. -/
def relayContract (schema : Schema) (w : Worker) : Contract (relayMachine schema w) where
  inv := fun _ _ => True
  rely := fun i _ h _ h' => (i = 0 → unforwarded h' = unforwarded h) ∧ (i = 1 → woken h' = woken h)
  idle := fun i _ _ h => (i = 0 → unforwarded h = false) ∧ (i = 1 → woken h = false)
  allowed := Connected
  envAllowed := fun _ _ => True
  crashes := False
  ok := fun i e _ _ h => (i = 0 → e ≠ .signal → unforwarded h = false) ∧
    (i = 1 → e = .worker .wake → woken h = false)

section

variable {schema : Schema} {w : Worker} {s : RelayWorld} {h : History RelayReply}

/-- A program of the worker that does not wait, after the query. -/
theorem lift_safe {α : Type} {p : Prog Reply α} (hp : Only (fun e => e ≠ .wake) p)
    (hw : woken h = false) :
    Safe (relayContract schema w) 1 (fun _ _ h => woken h = false) (lift p) s h := by
  induction p generalizing s h with
  | pure a => exact fun s₁ h₁ hr _ => (hr.2 rfl).trans hw
  | call e k ih =>
    intro s₁ h₁ hr _ o ho
    have hw₁ : woken h₁ = false := (hr.2 rfl).trans hw
    refine ⟨⟨by simp, fun _ he => absurd (RelayCmd.worker.inj he) hp.1⟩, trivial,
      fun j hj => ⟨fun _ => ?_, fun hj' => absurd hj' hj⟩, ih _ (hp.2 _) ?_⟩
    · exact outstanding_cons_of_not rfl rfl
    · refine not_outstanding_cons ?_ hw₁
      cases e with
      | wake => exact absurd rfl hp.1
      | _ => rfl

theorem listenRound_safe (hu : unforwarded h = false) (l : Local) :
    Safe (relayContract schema w) 0 (fun _ _ h => unforwarded h = false) (listenRound l) s h := by
  intro s₁ h₁ hr _ o _
  have hu₁ : unforwarded h₁ = false := (hr.1 rfl).trans hu
  refine ⟨⟨fun _ _ => hu₁, by simp⟩, trivial,
    fun j hj => ⟨fun hj' => absurd hj' hj, fun _ => outstanding_cons_of_not rfl rfl⟩, ?_⟩
  obtain ⟨reply, s₂⟩ := (relayMachine schema w).exec .receive o s₁
  cases reply with
  | none => exact fun s₃ h₃ hr₃ _ => (hr₃.1 rfl).trans (not_outstanding_cons rfl hu₁)
  | some rows =>
    intro s₃ h₃ _ _ o _
    refine ⟨⟨fun _ hne => absurd rfl hne, by simp⟩, trivial,
      fun j hj => ⟨fun hj' => absurd hj' hj, fun _ => outstanding_cons_of_not rfl rfl⟩, ?_⟩
    exact fun s₄ h₄ hr₄ _ => (hr₄.1 rfl).trans (outstanding_cons_of_answer rfl rfl)

theorem selectRound_safe (hw : woken h = false) (l : Local) :
    Safe (relayContract schema w) 1 (fun _ _ h => woken h = false)
      (.call .select fun _ => lift (startRound w l)) s h := by
  obtain ⟨f, hf, hclaim⟩ := startRound_eq w l
  rw [hf]
  intro s₁ h₁ hr₁ _ o₁ _
  have hw₁ : woken (⟨1, .select, ()⟩ :: h₁) = false :=
    not_outstanding_cons rfl ((hr₁.2 rfl).trans hw)
  refine ⟨⟨by simp, fun _ he => by cases he⟩, trivial,
    fun j hj => ⟨fun _ => outstanding_cons_of_not rfl rfl, fun hj' => absurd hj' hj⟩, ?_⟩
  -- the worker wakes up
  intro s₂ h₂ hr₂ _ o₂ _
  refine ⟨⟨by simp, fun _ _ => (hr₂.2 rfl).trans hw₁⟩, trivial,
    fun j hj => ⟨fun _ => outstanding_cons_of_not rfl rfl, fun hj' => absurd hj' hj⟩, ?_⟩
  obtain ⟨k, hk, honly⟩ := hclaim (relayExec schema (.worker .wake) o₂ s₂).1.1
  show Safe _ 1 _ (lift (f (relayExec schema (.worker .wake) o₂ s₂).1.1)) _ _
  rw [hk]
  -- and makes its query
  intro s₃ h₃ _ _ o₃ ho₃
  have happlied : o₃.db.applied = true := ho₃ _ rfl
  refine ⟨⟨by simp, fun _ he => by cases he⟩, trivial,
    fun j hj => ⟨fun _ => outstanding_cons_of_not rfl rfl, fun hj' => absurd hj' hj⟩, ?_⟩
  exact lift_safe (honly _) (outstanding_cons_of_answer rfl happlied)

theorem relayContract_sound : (relayContract schema w).Sound where
  refl := fun _ _ _ => ⟨fun _ => rfl, fun _ => rfl⟩
  trans := fun h₁ h₂ => ⟨fun hi => (h₂.1 hi).trans (h₁.1 hi), fun hi => (h₂.2 hi).trans (h₁.2 hi)⟩
  env := fun _ _ _ _ _ => ⟨trivial, fun _ => ⟨fun _ => rfl, fun _ => rfl⟩⟩
  crash := nofun
  body := by
    intro i l s h _ hidle
    match i with
    | 0 => exact (listenRound_safe (hidle.1 rfl) l).mono fun _ _ _ hu => ⟨fun _ => hu, by simp⟩
    | 1 => exact (selectRound_safe (hidle.2 rfl) l).mono fun _ _ _ hw => ⟨by simp, fun _ => hw⟩
    | i + 2 => exact fun s₁ h₁ _ _ => ⟨by simp, by simp⟩

end

/-- The next command of a program. -/
def next? {α : Type} : Prog RelayReply α → Option RelayCmd
  | .pure _ => none
  | .call e _ => some e

theorem ok_of_good {schema : Schema} {w : Worker} {p : Pool RelayReply RelayWorld Local}
    (hgood : p.Good (relayContract schema w)) {i : ℕ} {e : RelayCmd}
    (he : next? (p.thread i) = some e) :
    (i = 0 → e ≠ .signal → unforwarded p.hist = false) ∧
    (i = 1 → e = .worker .wake → woken p.hist = false) := by
  have hsafe := hgood.safe i
  cases hthread : p.thread i with
  | pure l => simp [next?, hthread] at he
  | call e' k =>
    obtain rfl : e' = e := by simpa [next?, hthread] using he
    rw [hthread] at hsafe
    -- the answer the command will get does not matter
    let o : Oracle := ⟨.tick, .ok, "", fun _ => false, fun _ => 0, none, none, 0, fun _ => false⟩
    exact (hsafe _ _ (relayContract_sound.refl _ _ _) trivial o fun _ _ => rfl).1

theorem eq_of_isQuery {q : Logged RelayReply} (hq : isQuery q = true) :
    ∃ j n reply db, q = ⟨j, .worker (.claimBatch n), (reply, db, true)⟩ := by
  obtain ⟨j, e, reply⟩ := q
  cases e with
  | worker e =>
    cases e with
    | claimBatch n =>
      obtain ⟨reply, db, applied⟩ := reply
      obtain rfl : applied = true := hq
      exact ⟨j, n, reply, db, rfl⟩
    | _ => cases hq
  | _ => cases hq

/-- **No wake-up is lost.**  Take any run of the notifier and the worker with commits of others, in
which the connection is not lost and nobody crashes, and suppose that the worker waits in its
`select`, that there is no signal in the channel, and that the notifier has forwarded what it
received.  Then for every notification that was received, a `ClaimBatch` query was executed
afterwards, in a database in which every row of the notification was committed; and it was still in
the table, unless a `Cleanup` had found it published. -/
theorem no_lost_wakeup (schema : Schema) (w : Worker) (db : World)
    (as : List (Action Oracle RelayEnv))
    (hconnected : Along (relayMachine schema w) (OnStep Connected)
      (.boot (relayMachine schema w) ⟨db, [], .make⟩) as)
    (hcrash : ∀ i, .crash i ∉ as) :
    let p := (Pool.boot (relayMachine schema w) ⟨db, [], .make⟩).run (relayMachine schema w) as
    next? (p.thread 1) = some (.worker .wake) → p.shared.wake.buf = [] →
    next? (p.thread 0) ≠ some .signal →
    ∀ h₁ h₂ i rows, p.hist = h₁ ++ ⟨i, .receive, some rows⟩ :: h₂ →
      ∃ l₁ l₂ j n reply db, h₁ = l₁ ++ ⟨j, .worker (.claimBatch n), (reply, db, true)⟩ :: l₂ ∧
        ∀ row ∈ rows, Visible db (l₂ ++ ⟨i, .receive, some rows⟩ :: h₂) row := by
  intro p hselect hempty hforwarded h₁ h₂ i rows hhist
  have hinv : WakeInv p.shared p.hist ∧ RowsInv p.shared p.hist := by
    refine (Along.state_invariant (I := fun s h => WakeInv s h ∧ RowsInv s h) _
      (fun i e o s h hi hc => ⟨hi.1.exec hc, hi.2.exec⟩)
        (fun a s h hi => ⟨hi.1.env a, hi.2.env a⟩) ?_ hconnected).2
    exact ⟨⟨rfl, fun hunseen => by cases hunseen⟩,
      ⟨by simp [Pool.boot], by simp [Pool.boot], trivial⟩⟩
  have hgood : p.Good (relayContract schema w) := by
    have hboot :
      (Pool.boot (relayMachine schema w) ⟨db, [], .make⟩).Good (relayContract schema w) := by
      refine ⟨trivial, fun i => ?_⟩
      intro s₁ h₁ hr _
      exact ⟨fun hi => hr.1 hi, fun hi => hr.2 hi⟩
    exact (relayContract_sound.along hboot (Contract.admits hconnected hcrash fun _ _ => trivial)).2
  have hwoken : woken p.hist = false := (ok_of_good hgood hselect).2 rfl rfl
  have hforwarded : unforwarded p.hist = false := by
    have hsafe := hgood.safe 0
    cases hthread : p.thread 0 with
    | call e k =>
      have hnext : next? (p.thread 0) = some e := by rw [hthread]; rfl
      exact (ok_of_good hgood hnext).1 rfl fun he => hforwarded (he ▸ hnext)
    | pure l =>
      rw [hthread] at hsafe
      exact (hsafe _ _ (relayContract_sound.refl _ _ _) trivial).1 rfl
  have hunseen : unseen p.hist = false := by
    by_contra hne
    rcases hinv.1.signalled (by simpa using hne) with hu | hbuf | hw
    · simp [hforwarded] at hu
    · exact hbuf hempty
    · simp [hwoken] at hw
  -- so a query came after the notification, and it is the one that saw the rows
  rw [hhist] at hunseen
  obtain ⟨q, hmem, hq⟩ := answered_of_not_outstanding hunseen rfl
  obtain ⟨j, n, reply, db, rfl⟩ := eq_of_isQuery hq
  obtain ⟨l₁, l₂, rfl⟩ := List.append_of_mem hmem
  refine ⟨l₁, l₂, j, n, reply, db, rfl, fun row hrow => ?_⟩
  have hseen := hinv.2.seen
  rw [hhist, List.append_assoc, List.cons_append] at hseen
  exact hseen.split j _ reply db true rfl i rows (by simp) row hrow

/-- The commit of a row, its notification, and a poll that the signal starts; then the worker is
back at its `select`. -/
def notified : List (Action Oracle RelayEnv) :=
  [.env (.commit [⟨"e2", "order", "o1", "order.created", "\x7b\x7d", "", Metadata.zero, 0⟩]),
    .resume 0, .step 0 (smooth ""), .step 0 (smooth ""), .resume 1, .step 1 (smooth ""),
    .step 1 { smooth "" with wake := .notify }, .step 1 (smooth "t1")] ++
  List.replicate 5 (.step 1 (smooth "")) ++ [.resume 1, .step 1 (smooth "")]

/-- A move that is no crash, and whose call of the database is executed. -/
def calm : Action Oracle RelayEnv → Bool
  | .step _ o => o.db.applied
  | .crash _ => false
  | _ => true

theorem connected_of_calm (schema : Schema) (w : Worker) {as : List (Action Oracle RelayEnv)}
    (h : ∀ a ∈ as, calm a = true) (p : Pool RelayReply RelayWorld Local) :
    Along (relayMachine schema w) (OnStep Connected) p as := by
  refine Along.of_mem _ (fun a ha q => ?_) p
  cases a with
  | step i o =>
    simp only [OnStep]
    cases q.thread i with
    | pure l => trivial
    | call e k => exact fun _ _ => h _ ha
  | _ => trivial

/-- In this run the worker saw the row of the notification. -/
theorem no_lost_wakeup_notified :
    let p := (Pool.boot (relayMachine textSchema relayWorker) ⟨oneRow, [], .make⟩).run
      (relayMachine textSchema relayWorker) notified
    p.hist[10]? = some ⟨0, .receive, some [1]⟩ ∧ next? (p.thread 1) = some (.worker .wake) ∧
      ∃ j n reply db h, ⟨j, .worker (.claimBatch n), (reply, db, true)⟩ ∈ p.hist ∧
        Visible db h 1 := by
  intro p
  have hcalm : ∀ a ∈ notified, calm a = true := List.all_eq_true.1 rfl
  have hreceived : p.hist[10]? = some ⟨0, .receive, some [1]⟩ := rfl
  obtain ⟨h₁, h₂, hhist⟩ := List.append_of_mem (List.mem_of_getElem? hreceived)
  obtain ⟨l₁, l₂, j, n, reply, db, rfl, hvisible⟩ :=
    no_lost_wakeup textSchema relayWorker oneRow notified (connected_of_calm _ _ hcalm _)
    (fun i hi => by cases hcalm _ hi) rfl rfl nofun h₁ h₂ 0 [1] hhist
  refine ⟨hreceived, rfl, j, n, reply, db, _, ?_, hvisible 1 (by simp)⟩
  rw [hhist]
  simp

end WolfCore.Outbox
