import WolfCore.Messenger.OutboxOrder

/-!
# Claims of several relays (`messenger/transport/outbox/`)

Relays that poll one table should not get the same row: a row returned to a relay belongs to it
until the relay has acked or rejected it, or `claimTimeout` has passed.  And a relay that comes too
late should not spoil the claim of the next one.

There are two gaps.  The query gets the timeout in whole seconds, `int(claimTimeout.Seconds())`,
which drops what is left over: a timeout of half a second is none.  And `MarkPublished` and
`IncrementRetry` name only the row, not the claim, so that an ack or a reject of a relay whose claim
has expired releases the row under the hands of the relay that has claimed it since.

`exclusive_iff` says that there is no third one.
-/

namespace WolfCore.Messenger

open Go Sql

section

variable {V : Type}

/-- A call on the table: by a relay, or by a sender.  `discard` is the `IncrementRetry` of `Get` for
an entry that cannot be decoded. -/
inductive Call (V : Type)
  | getUnpublished (relay : ℕ) (now : ℤ) (locked : String → Bool) (order : RowOrder) (batchSize : ℕ)
  | ack (relay : ℕ) (env : Envelope V) (now : ℤ)
  | reject (relay : ℕ) (env : Envelope V) (reason : Option Err)
  | discard (relay : ℕ) (id : String) (reason : Option Err)
  | insert (entry : Entry)

/-- What happened to the claims: rows were returned to a relay, or a relay has settled a row. -/
inductive ClaimEvent
  | returned (relay : ℕ) (ids : List String) (at_ : ℤ)
  | settled (relay : ℕ) (id : String)
  deriving DecidableEq

/-- The table, the time of the last call that asked for it, and what happened, latest first. -/
structure Relays where
  table : OutboxTable
  clock : ℤ
  hist : List ClaimEvent

/-- The relay that settles a row by the call, and the row. -/
def Call.settles : Call V → Option (ℕ × String)
  | .ack relay env _ | .reject relay env _ => (entryIDOf env).map fun id => (relay, id)
  | .discard relay id _ => some (relay, id)
  | _ => none

def Call.time : Call V → Option ℤ
  | .getUnpublished _ now _ _ _ | .ack _ _ now => some now
  | _ => none

def Call.table (store : PostgresStore) : Call V → OutboxTable → OutboxTable
  | .getUnpublished _ now locked order batchSize, t =>
    (store.getUnpublished now locked order batchSize t).2
  | .ack _ env now, t => (Messenger.ack env now none t).2
  | .reject _ env reason, t => (Messenger.reject env reason none t).2
  | .discard _ id reason, t => (incrementRetry id reason none t).2
  | .insert entry, t => (insertEntry entry none t).2

def Call.returns (store : PostgresStore) (t : OutboxTable) : Call V → List String
  | .getUnpublished _ now locked order batchSize =>
      (store.getUnpublished now locked order batchSize t).1.map Entry.id
  | _ => []

/-- What the history records of a call. -/
def Call.events (store : PostgresStore) (t : OutboxTable) (c : Call V) : List ClaimEvent :=
  match c with
  | .getUnpublished relay now _ _ _ => [.returned relay (c.returns store t) now]
  | _ => (c.settles.map fun s => ClaimEvent.settled s.1 s.2).toList

def Relays.step (store : PostgresStore) (c : Call V) (st : Relays) : Relays :=
  ⟨c.table store st.table, c.time.getD st.clock, c.events store st.table ++ st.hist⟩

/-- A property of the state before each call and the call. -/
def EachCall (store : PostgresStore) (P : Relays → Call V → Prop) : Relays → List (Call V) → Prop
  | _, [] => True
  | st, c :: calls => P st c ∧ EachCall store P (st.step store c) calls

/-- The relay that a row was returned to last, and when, unless it has settled the row since. -/
def holder : List ClaimEvent → String → Option (ℕ × ℤ)
  | [], _ => none
  | .returned relay ids t :: h, id => if id ∈ ids then some (relay, t) else holder h id
  | .settled relay id' :: h, id =>
      if id' = id then (holder h id).filter fun claim => claim.1 ≠ relay else holder h id

/-- The row was returned to the relay at the time, and the relay has not settled it since. -/
def Outstanding (relay : ℕ) (id : String) (t : ℤ) : List ClaimEvent → Prop
  | [] => False
  | .returned relay' ids t' :: h => (relay' = relay ∧ id ∈ ids ∧ t' = t) ∨ Outstanding relay id t h
  | .settled relay' id' :: h => ¬(relay' = relay ∧ id' = id) ∧ Outstanding relay id t h

/-- The clock of the database, a `timestamptz`, has microseconds and does not go back. -/
def Timely (st : Relays) (c : Call V) : Prop :=
  ∀ now, c.time = some now → st.clock ≤ now ∧ 1000 ∣ now

/-- No row is returned while another relay, or the same one, has it for less than the timeout. -/
def Exclusive (store : PostgresStore) (st : Relays) (c : Call V) : Prop :=
  ∀ now, c.time = some now → ∀ id ∈ c.returns store st.table, ∀ relay t,
    Outstanding relay id t st.hist → store.claimTimeout ≤ now - t

/-- A relay that settles a row another relay holds does not release the row or count a retry. -/
def Undisturbed (store : PostgresStore) (st : Relays) (c : Call V) : Prop :=
  ∀ relay id, c.settles = some (relay, id) → ∀ relay' t, holder st.hist id = some (relay', t) →
    relay' ≠ relay → ∀ r ∈ st.table, r.id = id →
      ∃ r' ∈ c.table store st.table, r'.id = id ∧ r'.claimedAt = r.claimedAt ∧
        r'.entry.retryCount = r.entry.retryCount

/-- No relay settles a row that another relay holds. -/
def NotStale (st : Relays) (c : Call V) : Prop :=
  ∀ relay id, c.settles = some (relay, id) → ∀ relay' t, holder st.hist id = some (relay', t) →
    relay' = relay

/-! ### What a call does to a row -/

/-- A poll of a claiming store: the rows it returns were available and are claimed now, the others
stay. -/
theorem getUnpublished_claims {store : PostgresStore} (htimeout : 0 < store.claimTimeout) (now : ℤ)
    (locked : String → Bool) (order : RowOrder) (batchSize : ℕ) {t : OutboxTable} {r : OutboxRow}
    (hr : r ∈ t) :
    (r.id ∈ (store.getUnpublished now locked order batchSize t).1.map Entry.id ∧
      store.available now locked r = true ∧
      { r with claimedAt := some now } ∈ (store.getUnpublished now locked order batchSize t).2) ∨
    (r.id ∉ (store.getUnpublished now locked order batchSize t).1.map Entry.id ∧
      r ∈ (store.getUnpublished now locked order batchSize t).2) := by
  rw [PostgresStore.getUnpublished, if_neg (not_le_of_gt htimeout)]
  unfold PostgresStore.getUnpublishedClaim
  set claimed := t.select (store.available now locked) order.rank batchSize with hclaimed
  have hids : r.id ∈ ((order.returning claimed).map OutboxRow.entry).map Entry.id ↔
      r.id ∈ claimed.map OutboxRow.id := by
    rw [List.map_map]
    exact ((order.perm claimed).map OutboxRow.id).mem_iff
  simp only [hids]
  by_cases hmem : r.id ∈ claimed.map OutboxRow.id
  · obtain ⟨r', hr', hid⟩ := List.mem_map.1 hmem
    obtain ⟨hrt', havailable⟩ := Table.mem_of_mem_select hr'
    obtain rfl := t.eq_of_key hrt' hr hid
    exact .inl ⟨hmem, havailable, Table.mem_update.2 ⟨r', hr, if_pos (decide_eq_true hmem)⟩⟩
  · exact .inr ⟨hmem, Table.mem_update.2 ⟨r, hr, if_neg (by simpa using hmem)⟩⟩

/-- Every row that a poll returns is one of the table. -/
theorem exists_row_of_returned {store : PostgresStore} {now : ℤ} {locked : String → Bool}
    {order : RowOrder} {batchSize : ℕ} {t : OutboxTable} {id : String}
    (h : id ∈ (store.getUnpublished now locked order batchSize t).1.map Entry.id) :
    ∃ r ∈ t, r.id = id := by
  obtain ⟨e, he, rfl⟩ := List.mem_map.1 h
  obtain ⟨r, hr, rfl⟩ := (getUnpublished_spec store now locked order batchSize t).1 e he
  exact ⟨r, hr, rfl⟩

/-- An available row that was claimed: the claim is older than the timeout in whole seconds. -/
theorem claim_expired {store : PostgresStore} {now t : ℤ} {locked : String → Bool} {r : OutboxRow}
    (h : store.available now locked r = true) (hclaim : r.claimedAt = some t) :
    store.claimTimeoutSecs * 1000000000 < now - t := by
  simp only [PostgresStore.available, PostgresStore.claimable, hclaim, Bool.and_eq_true,
    decide_eq_true_eq] at h
  omega

/-- The row with the id loses its claim, and the other rows stay as they are. -/
def Releases (id : String) (t t' : OutboxTable) : Prop :=
  ∀ r ∈ t, ∃ r' ∈ t', r'.id = r.id ∧ (r.id = id → r'.claimedAt = none) ∧ (r.id ≠ id → r' = r)

theorem releases_update {t : OutboxTable} {id : String} {f : OutboxRow → OutboxRow}
    (hf : ∀ r, (f r).id = r.id) (hclaim : ∀ r, (f r).claimedAt = none) :
    Releases id t (t.update (fun r => decide (r.id = id)) f hf) := by
  intro r hr
  by_cases hid : r.id = id
  · exact ⟨f r, Table.mem_update.2 ⟨r, hr, if_pos (decide_eq_true hid)⟩, hf r, fun _ => hclaim r,
      fun hne => absurd hid hne⟩
  · exact ⟨r, Table.mem_update.2 ⟨r, hr, if_neg (by simpa using hid)⟩, rfl,
      fun heq => absurd heq hid, fun _ => rfl⟩

/-- The effect of a call that is no poll: it settles a row and so releases it, or it keeps all
rows. -/
def SettlesOrKeeps (c : Call V) (store : PostgresStore) (t : OutboxTable) : Prop :=
  (∃ relay id, c.settles = some (relay, id) ∧ c.events store t = [.settled relay id] ∧
    Releases id t (c.table store t)) ∨
  (c.settles = none ∧ c.events store t = [] ∧ ∀ r ∈ t, r ∈ c.table store t)

theorem settlesOrKeeps_onEntry {c : Call V} {store : PostgresStore} {t : OutboxTable} {relay : ℕ}
    {env : Envelope V} {what : String} {update : String → OutboxTable → Option Err × OutboxTable}
    (hsettles : c.settles = (entryIDOf env).map fun id => (relay, id))
    (hevents : c.events store t = (c.settles.map fun s => ClaimEvent.settled s.1 s.2).toList)
    (htable : c.table store t = (onEntry what env update t).2)
    (hupdate : ∀ id, Releases id t (update id t).2) : SettlesOrKeeps c store t := by
  cases hid : entryIDOf env with
  | none =>
    rw [hid] at hsettles
    rw [hsettles] at hevents
    refine .inr ⟨hsettles, hevents, fun r hr => ?_⟩
    rwa [htable, onEntry_of_none hid]
  | some id =>
    rw [hid] at hsettles
    rw [hsettles] at hevents
    refine .inl ⟨relay, id, hsettles, hevents, ?_⟩
    rw [htable, onEntry_of_some hid]
    exact hupdate id

theorem Call.kinds (c : Call V) (store : PostgresStore) (t : OutboxTable) :
    (∃ relay now locked order batchSize, c = .getUnpublished relay now locked order batchSize) ∨
      SettlesOrKeeps c store t := by
  cases c with
  | getUnpublished relay now locked order batchSize => exact .inl ⟨_, _, _, _, _, rfl⟩
  | ack relay env now =>
    refine .inr (settlesOrKeeps_onEntry rfl rfl rfl fun id => ?_)
    apply releases_update <;> exact fun _ => rfl
  | reject relay env reason =>
    refine .inr (settlesOrKeeps_onEntry rfl rfl rfl fun id => ?_)
    apply releases_update <;> exact fun _ => rfl
  | discard relay id reason =>
    refine .inr (.inl ⟨relay, id, rfl, rfl, ?_⟩)
    apply releases_update <;> exact fun _ => rfl
  | insert entry =>
    refine .inr (.inr ⟨rfl, rfl, fun r hr => ?_⟩)
    show r ∈ (insertEntry entry none t).2
    unfold insertEntry
    cases hinsert : t.insert ⟨{ entry with retryCount := 0 }, none, none, none⟩ with
    | none => exact hr
    | some t' => exact (Table.mem_insert hinsert).2 (.inl hr)

/-! ### The invariant -/

/-- The row of each holder is claimed since it was returned, and a relay that still has a row is its
holder, or has had it for the timeout. -/
structure ClaimsKept (store : PostgresStore) (st : Relays) : Prop where
  held : ∀ id relay t, holder st.hist id = some (relay, t) →
    1000 ∣ t ∧ ∃ r ∈ st.table, r.id = id ∧ r.claimedAt = some t
  outstanding : ∀ relay id t, Outstanding relay id t st.hist →
    holder st.hist id = some (relay, t) ∨ store.claimTimeout ≤ st.clock - t

theorem claimsKept_start (store : PostgresStore) (t : OutboxTable) (clock : ℤ) :
    ClaimsKept store ⟨t, clock, []⟩ :=
  ⟨fun _ _ _ h => (by cases h), fun _ _ _ h => h.elim⟩

section

variable {store : PostgresStore} {st : Relays} {c : Call V}

/-- A row that is returned: whoever still has it has had it for the timeout. -/
theorem ClaimsKept.returned (htimeout : 0 < store.claimTimeout)
    (hsecs : store.claimTimeout ≤ store.claimTimeoutSecs * 1000000000 + 1000)
    (h : ClaimsKept store st) {now : ℤ} (hnow : st.clock ≤ now ∧ 1000 ∣ now)
    {locked : String → Bool} {order : RowOrder}
    {batchSize : ℕ} {id : String}
    (hid : id ∈ (store.getUnpublished now locked order batchSize st.table).1.map Entry.id)
    {relay : ℕ} {t : ℤ} (hout : Outstanding relay id t st.hist) : store.claimTimeout ≤ now - t := by
  rcases h.outstanding relay id t hout with hholder | hold
  · obtain ⟨hmicros, r, hr, rfl, hclaim⟩ := h.held id relay t hholder
    rcases getUnpublished_claims htimeout now locked order batchSize hr with
      ⟨_, havailable, _⟩ | ⟨hnot, _⟩
    · -- the claim is older than whole seconds, so by a microsecond at least
      have hexpired := claim_expired havailable hclaim
      omega
    · exact absurd hid hnot
  · omega

theorem ClaimsKept.exclusive (htimeout : 0 < store.claimTimeout)
    (hsecs : store.claimTimeout ≤ store.claimTimeoutSecs * 1000000000 + 1000)
    (h : ClaimsKept store st) (htime : Timely st c) : Exclusive store st c := by
  intro now hnow id hid relay t hout
  cases c with
  | getUnpublished relay' now' locked order batchSize =>
    have hpast := htime now hnow
    obtain rfl : now' = now := Option.some.inj hnow
    exact h.returned htimeout hsecs hpast hid hout
  | _ => exact absurd hid List.not_mem_nil

/-- A relay that settles a row another one holds releases it. -/
theorem ClaimsKept.notStale (h : ClaimsKept store st) (hundisturbed : Undisturbed store st c) :
    NotStale st c := by
  intro relay id hsettles relay' t hholder
  by_contra hne
  obtain ⟨-, r, hr, rfl, hclaim⟩ := h.held id relay' t hholder
  obtain ⟨r', hr', hid', hclaim', -⟩ :=
    hundisturbed relay r.id hsettles relay' t hholder hne r hr rfl
  rcases c.kinds store st.table with ⟨_, _, _, _, _, rfl⟩ | ⟨_, id'', hsettles', -, hreleases⟩ |
    ⟨hnone, -⟩
  · cases hsettles
  · obtain ⟨-, rfl⟩ := Prod.mk.inj (Option.some.inj (hsettles'.symm.trans hsettles))
    obtain ⟨r'', hr'', hid'', hreleased, -⟩ := hreleases r hr
    have heq := (c.table store st.table).eq_of_key hr' hr'' (hid'.trans hid''.symm)
    rw [heq, hreleased rfl, hclaim] at hclaim'
    cases hclaim'
  · rw [hnone] at hsettles
    cases hsettles

theorem ClaimsKept.frame (h : ClaimsKept store st) {t' : OutboxTable} {clock' : ℤ}
    (hclock : st.clock ≤ clock')
    (hrows : ∀ r ∈ st.table, r ∈ t') : ClaimsKept store ⟨t', clock', st.hist⟩ where
  held id relay t hholder := by
    obtain ⟨hmicros, r, hr, hid, hclaim⟩ := h.held id relay t hholder
    exact ⟨hmicros, r, hrows r hr, hid, hclaim⟩
  outstanding relay id t hout := by
    refine (h.outstanding relay id t hout).imp_right fun hold => ?_
    dsimp only
    omega

/-- A relay settles a row that no other relay holds: the row has no holder any more. -/
theorem ClaimsKept.settled (h : ClaimsKept store st) {t' : OutboxTable} {clock' : ℤ}
    (hclock : st.clock ≤ clock') {relay : ℕ} {id : String} (hreleases : Releases id st.table t')
    (hstale : ∀ relay' t, holder st.hist id = some (relay', t) → relay' = relay) :
    ClaimsKept store ⟨t', clock', .settled relay id :: st.hist⟩ where
  held id' relay' t hholder := by
    rw [holder] at hholder
    split_ifs at hholder with hid
    · subst hid
      obtain ⟨hold, hother⟩ := Option.filter_eq_some_iff.1 hholder
      exact absurd (hstale relay' t hold) (of_decide_eq_true hother)
    · obtain ⟨hmicros, r, hr, rfl, hclaim⟩ := h.held id' relay' t hholder
      obtain ⟨r', hr', -, -, hsame⟩ := hreleases r hr
      rw [hsame (Ne.symm hid)] at hr'
      exact ⟨hmicros, r, hr', rfl, hclaim⟩
  outstanding relay' id' t hout := by
    obtain ⟨hother, hout⟩ := hout
    rcases h.outstanding relay' id' t hout with hholder | hold
    · left
      rw [holder, if_neg, hholder]
      rintro rfl
      exact hother ⟨(hstale relay' t hholder).symm, rfl⟩
    · right
      dsimp only
      omega

/-- A relay polls: the rows it gets are its own now. -/
theorem ClaimsKept.polled (htimeout : 0 < store.claimTimeout)
    (hsecs : store.claimTimeout ≤ store.claimTimeoutSecs * 1000000000 + 1000)
    (h : ClaimsKept store st) {now : ℤ} (hnow : st.clock ≤ now ∧ 1000 ∣ now) (relay : ℕ)
    (locked : String → Bool) (order : RowOrder) (batchSize : ℕ) :
    ClaimsKept store ⟨(store.getUnpublished now locked order batchSize st.table).2, now,
      .returned relay ((store.getUnpublished now locked order batchSize st.table).1.map Entry.id)
        now :: st.hist⟩ where
  held id relay' t hholder := by
    rw [holder] at hholder
    split_ifs at hholder with hmem
    · cases hholder
      obtain ⟨r, hr, rfl⟩ := exists_row_of_returned hmem
      rcases getUnpublished_claims htimeout now locked order batchSize hr with ⟨_, _, hr'⟩ |
        ⟨hnot, _⟩
      · exact ⟨hnow.2, _, hr', rfl, rfl⟩
      · exact absurd hmem hnot
    · obtain ⟨hmicros, r, hr, rfl, hclaim⟩ := h.held id relay' t hholder
      rcases getUnpublished_claims htimeout now locked order batchSize hr with ⟨hid, _⟩ | ⟨_, hr'⟩
      · exact absurd hid hmem
      · exact ⟨hmicros, r, hr', rfl, hclaim⟩
  outstanding relay' id t hout := by
    rw [holder]
    rcases hout with ⟨rfl, hmem, rfl⟩ | hout
    · exact .inl (if_pos hmem)
    · by_cases hmem : id ∈ (store.getUnpublished now locked order batchSize st.table).1.map Entry.id
      · exact .inr (h.returned htimeout hsecs hnow hmem hout)
      · rw [if_neg hmem]
        refine (h.outstanding relay' id t hout).imp_right fun hold => ?_
        dsimp only
        omega

/-- The invariant after a call that settles nothing of another relay. -/
theorem ClaimsKept.step (htimeout : 0 < store.claimTimeout)
    (hsecs : store.claimTimeout ≤ store.claimTimeoutSecs * 1000000000 + 1000)
    (h : ClaimsKept store st) (htime : Timely st c)
    (hstale : NotStale st c) : ClaimsKept store (st.step store c) := by
  have hclock : st.clock ≤ c.time.getD st.clock := by
    cases htime' : c.time with
    | none => exact le_refl _
    | some now => exact (htime now htime').1
  unfold Relays.step
  rcases c.kinds store st.table with
    ⟨relay, now, locked, order, batchSize, rfl⟩ | ⟨relay, id, hsettles, hevents, hreleases⟩ | ⟨-,
      hevents, hrows⟩
  · exact h.polled htimeout hsecs (htime now rfl) relay locked order batchSize
  · rw [hevents]
    exact h.settled hclock hreleases (hstale relay id hsettles)
  · rw [hevents]
    exact h.frame hclock hrows

/-- Calls from a state in which the invariant holds. -/
theorem ClaimsKept.eachCall (htimeout : 0 < store.claimTimeout)
    (hsecs : store.claimTimeout ≤ store.claimTimeoutSecs * 1000000000 + 1000)
    (h : ClaimsKept store st) {calls : List (Call V)} (htime : EachCall store Timely st calls) :
    EachCall store (fun st c => Exclusive store st c ∧ Undisturbed store st c) st calls ↔
      EachCall store NotStale st calls := by
  induction calls generalizing st with
  | nil => exact Iff.rfl
  | cons c calls ih =>
    obtain ⟨hnow, htime⟩ := htime
    constructor
    · rintro ⟨⟨_, hundisturbed⟩, hrest⟩
      have hstale := h.notStale hundisturbed
      exact ⟨hstale, (ih (h.step htimeout hsecs hnow hstale) htime).1 hrest⟩
    · rintro ⟨hstale, hrest⟩
      refine ⟨⟨h.exclusive htimeout hsecs hnow, ?_⟩,
        (ih (h.step htimeout hsecs hnow hstale) htime).2 hrest⟩
      intro relay id hsettles relay' t hholder hne
      exact absurd (hstale relay id hsettles relay' t hholder) hne

end

/-! ### The timeout of the query -/

/-- An available row is returned if the batch has room for the table. -/
theorem returned_of_available {store : PostgresStore} (htimeout : 0 < store.claimTimeout) {now : ℤ}
    {locked : String → Bool} (order : RowOrder) {batchSize : ℕ} {t : OutboxTable}
    (hbatch : t.rows.length ≤ batchSize) {r : OutboxRow} (hr : r ∈ t)
    (havailable : store.available now locked r = true) :
    r.id ∈ (store.getUnpublished now locked order batchSize t).1.map Entry.id := by
  rw [PostgresStore.getUnpublished, if_neg (not_le_of_gt htimeout)]
  have hselected : r ∈ t.select (store.available now locked) order.rank batchSize :=
    Table.mem_select_of_length_le ((List.length_filter_le _ _).trans hbatch) hr havailable
  exact List.mem_map.2 ⟨r.entry, List.mem_map.2 ⟨r, (order.perm _).mem_iff.2 hselected, rfl⟩, rfl⟩

/-- A timeout of whole seconds is the one of the query. -/
theorem claimTimeoutSecs_whole {store : PostgresStore} {n : ℤ} (hn : |n| < 2 ^ 53)
    (h : store.claimTimeout = n * 1000000000) : store.claimTimeoutSecs = n := by
  rw [PostgresStore.claimTimeoutSecs, h, seconds_whole hn, Float64.truncate_intCast]

/-- An entry that has one try left. -/
def lastTry (store : PostgresStore) : OutboxRow :=
  ⟨⟨"order-1", "", "", "", .null, "", 0, store.maxRetries - 1⟩, none, none, none⟩

/-- One row, polled by two relays as soon as the query lets them. -/
def takeover (V : Type) (store : PostgresStore) : List (Call V) :=
  [.getUnpublished 0 0 (fun _ => false) tableOrder 1,
    .getUnpublished 1 (max 0 (store.claimTimeoutSecs * 1000000000 + 1000))
      (fun _ => false) tableOrder 1]

theorem takeover_timely (store : PostgresStore) :
    EachCall store Timely ⟨⟨[lastTry store], List.nodup_singleton _⟩, 0, []⟩ (takeover V store) ∧
      EachCall store NotStale ⟨⟨[lastTry store], List.nodup_singleton _⟩, 0, []⟩
        (takeover V store) := by
  constructor
  · refine ⟨?_, ?_, trivial⟩ <;> rintro now ⟨⟩
    · exact ⟨le_refl _, dvd_zero _⟩
    · exact ⟨le_max_left _ _, by omega⟩
  · refine ⟨?_, ?_, trivial⟩ <;> rintro relay id ⟨⟩

theorem claimTimeout_le_of_takeover {store : PostgresStore} (htimeout : 0 < store.claimTimeout)
    (h : EachCall store (Exclusive store) ⟨⟨[lastTry store], List.nodup_singleton _⟩, 0, []⟩
      (takeover V store)) :
    store.claimTimeout ≤ store.claimTimeoutSecs * 1000000000 + 1000 := by
  set now := max 0 (store.claimTimeoutSecs * 1000000000 + 1000) with hnow
  set t : OutboxTable := ⟨[lastTry store], List.nodup_singleton _⟩ with ht
  have hr : lastTry store ∈ t := List.mem_singleton.2 rfl
  have hfirst : store.available 0 (fun _ => false) (lastTry store) = true := by
    simp [PostgresStore.available, PostgresStore.unpublished, PostgresStore.claimable, lastTry]
  have hreturned := returned_of_available htimeout tableOrder (le_refl _) hr hfirst
  rcases getUnpublished_claims htimeout 0 (fun _ => false) tableOrder 1 hr with ⟨-, -, hr'⟩ |
    ⟨hnot, -⟩
  · have hsecond : store.available now (fun _ => false)
        { lastTry store with claimedAt := some 0 } = true := by
      have hlate : store.claimTimeoutSecs * 1000000000 < now := by omega
      simp [PostgresStore.available, PostgresStore.unpublished, PostgresStore.claimable,
        lastTry, hlate]
    have hlength : (store.getUnpublished 0 (fun _ => false) tableOrder 1 t).2.rows.length ≤ 1 := by
      rw [PostgresStore.getUnpublished, if_neg (not_le_of_gt htimeout)]
      exact (List.length_map _).le
    have hagain := returned_of_available htimeout tableOrder hlength hr' hsecond
    have hexclusive := h.2.1 now rfl _ hagain 0 0 (.inl ⟨rfl, hreturned, rfl⟩)
    omega
  · exact absurd hreturned hnot

/-- **Exclusive claims.** The timeout is no longer than the whole seconds that the query gets, up to
the microsecond by which a claim has to be older, exactly if the following holds for any table and
any calls of relays and senders with a clock that does not go back: every row is returned to one
relay at a time and no relay disturbs the claim of another, exactly if no relay settles a row that
another one holds. -/
theorem exclusive_iff (store : PostgresStore) (htimeout : 0 < store.claimTimeout) :
    store.claimTimeout ≤ store.claimTimeoutSecs * 1000000000 + 1000 ↔
      ∀ (t : OutboxTable) (clock : ℤ) (calls : List (Call V)), EachCall store Timely
        ⟨t, clock, []⟩ calls →
        (EachCall store (fun st c => Exclusive store st c ∧ Undisturbed store st c)
          ⟨t, clock, []⟩ calls ↔
          EachCall store NotStale ⟨t, clock, []⟩ calls) := by
  constructor
  · intro hsecs t clock calls htime
    exact (claimsKept_start store t clock).eachCall htimeout hsecs htime
  · intro h
    obtain ⟨htime, hstale⟩ := takeover_timely (V := V) store
    obtain ⟨hfirst, hsecond, -⟩ := (h _ _ _ htime).2 hstale
    exact claimTimeout_le_of_takeover htimeout ⟨hfirst.1, hsecond.1, trivial⟩

/-- An order that has not been published yet. -/
def freshOrder : OutboxTable :=
  ⟨[⟨⟨"e1", "Order", "o1", "order.PlaceOrder", .null, "", 1, 0⟩, none, none, none⟩],
    List.nodup_singleton _⟩

/-- The envelope that a relay gets for it. -/
def freshOrderEnvelope : Envelope Unit := ⟨(), [.outboxID "e1"], 1⟩

def fiveMinutes : PostgresStore := ⟨300000000000, 10⟩

/-- A relay rejects the order, and another one polls. -/
def rejectedOrder : List (Call Unit) :=
  [.getUnpublished 0 0 (fun _ => false) tableOrder 100, .reject 0 freshOrderEnvelope none,
    .getUnpublished 1 1000 (fun _ => false) tableOrder 100]

theorem exclusive_rejectedOrder :
    0 < fiveMinutes.claimTimeout ∧
      EachCall fiveMinutes (fun st c => Exclusive fiveMinutes st c ∧ Undisturbed fiveMinutes st c)
        ⟨freshOrder, 0, []⟩ rejectedOrder := by
  have hsecs : fiveMinutes.claimTimeout ≤ fiveMinutes.claimTimeoutSecs * 1000000000 + 1000 := by
    rw [claimTimeoutSecs_whole (n := 300) (by norm_num) rfl]
    decide
  have htime : EachCall fiveMinutes Timely ⟨freshOrder, 0, []⟩ rejectedOrder := by
    refine ⟨?_, ?_, ?_, trivial⟩ <;> rintro now ⟨⟩
    · exact ⟨le_refl _, dvd_zero _⟩
    · exact ⟨by decide, dvd_refl _⟩
  refine ⟨by decide, ((exclusive_iff fiveMinutes (by decide)).1 hsecs _ _ _ htime).2 ?_⟩
  refine ⟨?_, ?_, ?_, trivial⟩ <;> rintro relay id ⟨⟩
  -- the order is still the first relay's
  rintro relay t ⟨⟩
  rfl

/-- A relay rejects the order a second after the claim of another one. -/
def lateReject : List (Call Unit) :=
  [.getUnpublished 0 0 (fun _ => false) tableOrder 100,
    .getUnpublished 1 301000000000 (fun _ => false) tableOrder 100,
      .reject 0 freshOrderEnvelope none]

/-- With a timeout of half a second two relays get a row within a microsecond.  With the default
timeout a late reject releases the claim of the relay that has the row. -/
theorem claims_overlap :
    (EachCall ⟨500000000, 10⟩ Timely ⟨⟨[lastTry ⟨500000000, 10⟩], List.nodup_singleton _⟩, 0, []⟩
        (takeover Unit ⟨500000000, 10⟩) ∧
      ¬EachCall ⟨500000000, 10⟩ (Exclusive ⟨500000000, 10⟩)
        ⟨⟨[lastTry ⟨500000000, 10⟩], List.nodup_singleton _⟩, 0, []⟩
          (takeover Unit ⟨500000000, 10⟩)) ∧
    (EachCall fiveMinutes Timely ⟨freshOrder, 0, []⟩ lateReject ∧
      ¬EachCall fiveMinutes (Undisturbed fiveMinutes) ⟨freshOrder, 0, []⟩ lateReject) := by
  refine ⟨⟨(takeover_timely _).1, fun h => ?_⟩, ?_, fun h => ?_⟩
  · have hle := claimTimeout_le_of_takeover (by decide) h
    exact absurd hle (by decide +kernel)
  · refine ⟨?_, ?_, ?_, trivial⟩ <;> rintro now ⟨⟩ <;> decide
  · -- the third call: the second relay holds the order
    obtain ⟨r', hr', -, -, hretry⟩ := h.2.2.1 0 "e1" rfl 1 301000000000 (by decide +kernel)
      (by decide)
      _ (List.mem_singleton.2 rfl) (by decide +kernel)
    rw [List.mem_singleton.1 hr'] at hretry
    exact absurd hretry (by decide +kernel)

end

end WolfCore.Messenger
