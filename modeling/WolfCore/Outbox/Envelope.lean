import WolfCore.Outbox.Relay
import WolfCore.Messaging.EventStream

/-!
# What the relay publishes (`infra/events/outbox/worker.go`, `envelopeEvent`)

A worker hands each entry to the bus as an `envelopeEvent`, which `streamEventPublisher` turns into
a message.  The columns an INSERT has written never change, and an entry holds them as they are in
its row, so that in every run of any workers each message published for a row is made from these
columns (`published_message`), whenever the row was inserted and even if it has been deleted
meanwhile.
-/

namespace WolfCore.Outbox

open Go Interleave Sql Messaging

/-- `envelopeEvent`. -/
def envelopeEvent (V : Type) (entry : OutboxEntry) : Event (Payload V) where
  eventID := entry.id
  eventType := entry.eventType
  aggregateID := entry.aggregateID
  aggregateType := entry.aggregateType
  occurredAt := entry.createdAt
  version := 1
  payload := some (.bytes entry.payload)
  metadata := entry.metadata

/-- The event that the columns of an entry describe. -/
def NewRow.event (c : NewRow) : Event String where
  eventID := c.id
  eventType := c.eventType
  aggregateID := c.aggregateID
  aggregateType := c.aggregateType
  occurredAt := c.createdAt
  version := 1
  payload := some c.payload
  metadata := c.metadata

/-- The message for an entry with these columns. -/
def NewRow.message (c : NewRow) : RawMessage :=
  ⟨c.id, c.eventType, c.eventType, c.payload, eventHeaders c.event⟩

/-- The payload of an envelope is not encoded again, so that the message can always be sent. -/
theorem streamMessage_envelopeEvent {V : Type} (marshal : V → Except Err String)
    (entry : OutboxEntry) :
    streamMessage marshal (envelopeEvent V entry) = .ok entry.columns.message := rfl

/-! ### Every run -/

/-- Entries agree with the rows they were read from, and only claimed entries are published. -/
structure Recorded (w : World) (h : History Reply) : Prop where
  numbered : w.Numbered
  seq_lt : ∀ i e, Claimed h i e → e.seq < w.nextSeq
  agree : ∀ i e, Claimed h i e → ∀ r ∈ w.table, r.seq = e.seq → e.columns = r.columns.traced
  published : ∀ i e reply, ⟨i, .publish e, reply⟩ ∈ h → Claimed h i e

/-- The entries of one row, which need not be in the table any more. -/
structure RecordedOf (c : NewRow) (seq : ℕ) (w : World) (h : History Reply) : Prop where
  seq_lt : seq < w.nextSeq
  rows : ∀ r ∈ w.table, r.seq = seq → r.columns = c
  agree : ∀ i e, Claimed h i e → e.seq = seq → e.columns = c.traced
  published : ∀ i e reply, ⟨i, .publish e, reply⟩ ∈ h → Claimed h i e

section

variable {schema : Schema} {workers : ℕ → Worker} {w : World} {h : History Reply} {i : ℕ} {e : Cmd}
  {o : Oracle}

theorem recorded_init (hw : w.Numbered) : Recorded w [] := by
  have hnone : ∀ i e, ¬ Claimed [] i e := fun i e ⟨_, _, hmem, _⟩ => by cases hmem
  exact ⟨hw, fun i e hc => absurd hc (hnone i e), fun i e hc => absurd hc (hnone i e),
    fun i e reply hmem => (by cases hmem)⟩

theorem published_exec (hp : ∀ i e reply, ⟨i, .publish e, reply⟩ ∈ h → Claimed h i e)
    (hk : Knows workers i h e) :
    ∀ j entry reply, ⟨j, .publish entry, reply⟩ ∈ (⟨i, e, (exec schema e o w).1⟩ :: h) →
      Claimed (⟨i, e, (exec schema e o w).1⟩ :: h) j entry := by
  intro j entry reply hmem
  have hold : Claimed h j entry := by
    rcases List.mem_cons.1 hmem with hev | hmem
    · injection hev with htid hcmd _
      subst htid hcmd
      exact claimed_of_batch hk.1
    · exact hp j entry reply hmem
  exact hold.mono fun _ hev => List.mem_cons_of_mem _ hev

theorem claimed_row {n : ℤ} {es : List OutboxEntry} {entry : OutboxEntry}
    (hes : (claimBatch schema w.now o.locked o.tie o.token n w.table).1 = .ok es)
    (he : entry ∈ es) : ∃ r ∈ w.table, ScannedFrom entry r := by
  obtain ⟨-, r, hr, -, hs⟩ := (claimBatch_ok hes).1 entry he
  exact ⟨r, hr, hs⟩

theorem Recorded.exec (hi : Recorded w h) (hk : Knows workers i h e) :
    Recorded (exec schema e o w).2 (⟨i, e, (exec schema e o w).1⟩ :: h) where
  numbered := hi.numbered.exec
  seq_lt := by
    intro j entry hc
    rw [exec_nextSeq]
    rcases claimed_exec hc with hc | ⟨n, es, -, rfl, he, hes⟩
    · exact hi.seq_lt j entry hc
    · obtain ⟨r, hr, hs⟩ := claimed_row hes he
      rw [hs.seq]
      exact hi.numbered.seq_lt r hr
  agree := by
    intro j entry hc r' hr' hseq
    obtain ⟨r, hr, hstep⟩ := exec_row hr'
    rw [hstep.columns]
    rw [hstep.seq] at hseq
    rcases claimed_exec hc with hc | ⟨n, es, -, rfl, he, hes⟩
    · exact hi.agree j entry hc r hr hseq
    · obtain ⟨r₀, hr₀, hs⟩ := claimed_row hes he
      rw [hi.numbered.seq_inj r hr r₀ hr₀ (hseq.trans hs.seq)]
      exact hs.columns
  published := published_exec hi.published hk

theorem RecordedOf.exec {c : NewRow} {seq : ℕ} (hi : RecordedOf c seq w h)
    (hk : Knows workers i h e) :
    RecordedOf c seq (exec schema e o w).2 (⟨i, e, (exec schema e o w).1⟩ :: h) where
  seq_lt := by
    rw [exec_nextSeq]
    exact hi.seq_lt
  rows := by
    intro r' hr' hseq
    obtain ⟨r, hr, hstep⟩ := exec_row hr'
    rw [hstep.columns]
    exact hi.rows r hr (hstep.seq ▸ hseq)
  agree := by
    intro j entry hc hseq
    rcases claimed_exec hc with hc | ⟨n, es, -, rfl, he, hes⟩
    · exact hi.agree j entry hc hseq
    · obtain ⟨r, hr, hs⟩ := claimed_row hes he
      rw [hs.columns, hi.rows r hr (hs.seq ▸ hseq)]
  published := published_exec hi.published hk

theorem Recorded.env (hi : Recorded w h) (a : EnvAct) : Recorded (envStep schema a w) h := by
  have hnum : (envStep schema a w).Numbered := hi.numbered.env a
  rcases envStep_cases schema a w with ⟨now, heq⟩ | ⟨nr, payload, t, ht, heq⟩
  · rw [heq] at hnum ⊢
    exact ⟨hnum, hi.seq_lt, hi.agree, hi.published⟩
  · rw [heq] at hnum ⊢
    refine ⟨hnum, fun j entry hc => Nat.lt_succ_of_lt (hi.seq_lt j entry hc),
      fun j entry hc r hr hseq => ?_, hi.published⟩
    rcases (Table.mem_insert ht).1 hr with hr | rfl
    · exact hi.agree j entry hc r hr hseq
    · exact absurd hseq (hi.seq_lt j entry hc).ne'

theorem RecordedOf.env {c : NewRow} {seq : ℕ} (hi : RecordedOf c seq w h) (a : EnvAct) :
    RecordedOf c seq (envStep schema a w) h := by
  rcases envStep_cases schema a w with ⟨now, heq⟩ | ⟨nr, payload, t, ht, heq⟩
  · rw [heq]
    exact ⟨hi.seq_lt, hi.rows, hi.agree, hi.published⟩
  · rw [heq]
    refine ⟨Nat.lt_succ_of_lt hi.seq_lt, fun r hr hseq => ?_, hi.agree, hi.published⟩
    rcases (Table.mem_insert ht).1 hr with hr | rfl
    · exact hi.rows r hr hseq
    · exact absurd hseq hi.seq_lt.ne'

/-- From the moment a row is there, its entries are recorded. -/
theorem Recorded.of_row (hi : Recorded w h) {r : Row} (hr : r ∈ w.table) :
    RecordedOf r.columns r.seq w h where
  seq_lt := hi.numbered.seq_lt r hr
  rows := fun r' hr' hseq => by rw [hi.numbered.seq_inj r' hr' r hr hseq]
  agree := fun i e hc hseq => hi.agree i e hc r hr hseq.symm
  published := hi.published

end

/-- **What is published for a row.**  In every run, from the moment a row is in the table every
message published for it, earlier or later, is that of its columns. -/
theorem published_message {V : Type} (marshal : V → Except Err String) {schema : Schema}
    {workers : ℕ → Worker} {w : World} (hw : w.Numbered) {before : Schedule} {r : Row}
    (hr : r ∈ ((start workers w).run (machine schema workers) before).shared.table)
    {after : Schedule} {i : ℕ} {entry : OutboxEntry} {reply : Option Err}
    (hpub : ⟨i, .publish entry, reply⟩ ∈ (((start workers w).run (machine schema workers)
      before).run (machine schema workers) after).hist) (hseq : entry.seq = r.seq) :
    streamMessage marshal (envelopeEvent V entry) = .ok r.columns.traced.message := by
  obtain ⟨hbefore, hafter⟩ :=
    (Along.append _).1 (relay_knows schema workers w (before ++ after))
  obtain ⟨-, hrec⟩ := Along.state_invariant (machine schema workers)
    (I := Recorded) (fun i e o s h hI hQ => hI.exec hQ) (fun a s h hI => hI.env a)
    (recorded_init hw) hbefore
  obtain ⟨-, hend⟩ := Along.state_invariant (machine schema workers)
    (I := RecordedOf r.columns r.seq) (fun i e o s h hI hQ => hI.exec hQ) (fun a s h hI => hI.env a)
    (hrec.of_row hr) hafter
  rw [streamMessage_envelopeEvent, hend.agree i entry (hend.published i entry reply hpub) hseq]

/-! ### One poll -/

/-- A database with a table of at most one row, numbered 0. -/
def foundDb (t : OutboxTable) : World := ⟨t, Table.empty, 0, 1, []⟩

/-- One worker relays the row it finds. -/
def relayOnce (schema : Schema) (t : OutboxTable) : Pool Reply World Local :=
  (start (fun _ => relayWorker) (foundDb t)).run (machine schema fun _ => relayWorker) relayed

end WolfCore.Outbox
