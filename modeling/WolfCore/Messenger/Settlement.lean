import WolfCore.Messenger.Fidelity

/-!
# Settling a batch (`messenger/worker/worker.go`, `messenger/transport/outbox/`)

A worker polls the outbox and processes one envelope after the other.  On a bus that handles
messages in process, every row of the poll is settled once, by its own message: published if the
message was dispatched without an error, and retried if it was not, or could not be decoded.  The
other rows stay as they are (`rows_settled`).

The row travels with the message as a stamp.  The payload may have such stamps from earlier hops,
but the last one is the one that counts, and `Get` adds it (`entryIDOf_received`).
-/

namespace WolfCore.Messenger

open Go Interleave Sql

/-! ### Settlements of single rows -/

/-- `MarkPublished` at a time, or `IncrementRetry`. -/
inductive Settlement
  | published (now : ℤ)
  | retried (lastError : Option Err)

def Settlement.row : Settlement → OutboxRow → OutboxRow
  | .published now, r => { r with publishedAt := some now, claimedAt := none }
  | .retried lastError, r =>
      { r with
        entry := { r.entry with retryCount := r.entry.retryCount + 1 }
        lastError := lastError
        claimedAt := none }

theorem Settlement.row_id (s : Settlement) (r : OutboxRow) : (s.row r).id = r.id := by
  cases s <;> rfl

theorem Settlement.row_claimed (s : Settlement) (r : OutboxRow) (claimedAt : Option ℤ) :
    s.row { r with claimedAt := claimedAt } = s.row r := by
  cases s <;> rfl

def settleRow (t : OutboxTable) (s : String × Settlement) : OutboxTable :=
  t.update (fun r => decide (r.id = s.1)) s.2.row s.2.row_id

/-- What becomes of a row if some rows are settled. -/
def settledBy (ss : List (String × Settlement)) (r : OutboxRow) : OutboxRow :=
  ss.foldl (fun r s => if r.id = s.1 then s.2.row r else r) r

theorem rows_foldl_settleRow (ss : List (String × Settlement)) (t : OutboxTable) :
    (ss.foldl settleRow t).rows = t.rows.map (settledBy ss) := by
  induction ss generalizing t with
  | nil => exact (List.map_id _).symm
  | cons s ss ih =>
    rw [List.foldl_cons, ih]
    simp [settleRow, Table.update, settledBy]

theorem settledBy_of_not_mem {ss : List (String × Settlement)} {r : OutboxRow}
    (h : r.id ∉ ss.map Prod.fst) : settledBy ss r = r := by
  induction ss with
  | nil => rfl
  | cons s ss ih =>
    rw [List.map_cons, List.mem_cons, not_or] at h
    rw [settledBy, List.foldl_cons, if_neg h.1]
    exact ih h.2

theorem settledBy_of_mem {ss : List (String × Settlement)} (hnodup : (ss.map Prod.fst).Nodup)
    {r : OutboxRow} {s : Settlement} (h : (r.id, s) ∈ ss) : settledBy ss r = s.row r := by
  induction ss with
  | nil => cases h
  | cons s' ss ih =>
    rw [List.map_cons, List.nodup_cons] at hnodup
    rw [settledBy, List.foldl_cons]
    rcases List.mem_cons.1 h with rfl | h
    · rw [if_pos rfl]
      apply settledBy_of_not_mem
      rw [s.row_id]
      exact hnodup.1
    · have hne : r.id ≠ s'.1 := by
        intro heq
        exact hnodup.1 (heq ▸ List.mem_map_of_mem h)
      rw [if_neg hne]
      exact ih hnodup.2 h

/-- Keys that two functions give to elements of a list, not both to the same, are distinct if those
of the list are. -/
theorem nodup_filterMap_append {α κ : Type} {key : α → κ} {f g : α → Option κ}
    (hf : ∀ a k, f a = some k → k = key a ∧ g a = none) (hg : ∀ a k, g a = some k → k = key a)
    {as : List α} (hnodup : (as.map key).Nodup) : (as.filterMap f ++ as.filterMap g).Nodup := by
  have hmem : ∀ as : List α, ∀ k ∈ as.filterMap f ++ as.filterMap g, k ∈ as.map key := by
    intro as k hk
    rcases List.mem_append.1 hk with hk | hk
    · obtain ⟨a, ha, hfa⟩ := List.mem_filterMap.1 hk
      exact List.mem_map.2 ⟨a, ha, (hf a k hfa).1.symm⟩
    · obtain ⟨a, ha, hga⟩ := List.mem_filterMap.1 hk
      exact List.mem_map.2 ⟨a, ha, (hg a k hga).symm⟩
  induction as with
  | nil => exact List.nodup_nil
  | cons a as ih =>
    obtain ⟨hfresh, hnodup⟩ := List.nodup_cons.1 hnodup
    cases hfa : f a with
    | some k =>
      obtain ⟨rfl, hga⟩ := hf a k hfa
      rw [List.filterMap_cons_some hfa, List.filterMap_cons_none hga, List.cons_append,
        List.nodup_cons]
      exact ⟨fun hk => hfresh (hmem as _ hk), ih hnodup⟩
    | none =>
      rw [List.filterMap_cons_none hfa]
      cases hga : g a with
      | some k =>
        obtain rfl := hg a k hga
        rw [List.filterMap_cons_some hga, List.nodup_middle, List.nodup_cons]
        exact ⟨fun hk => hfresh (hmem as _ hk), ih hnodup⟩
      | none =>
        rw [List.filterMap_cons_none hga]
        exact ih hnodup

section

variable {V T C : Type}

/-! ### `Get` -/

/-- The settlement of an entry that cannot be decoded. -/
def Transport.discarded (tr : Transport V T) (e : Entry) : Option (String × Settlement) :=
  match tr.serializer.decode e.payload with
  | .returned (.error err) => some (e.id, .retried (some (.wrap "decode: %w" none err)))
  | _ => none

/-- The envelope of an entry that can. -/
def Transport.decoded (tr : Transport V T) (e : Entry) : Option (Envelope V) :=
  match tr.serializer.decode e.payload with
  | .returned (.ok env) => some (env.withStamp (.outboxID e.id))
  | _ => none

theorem discarded_eq_some {tr : Transport V T} {e : Entry} {s : String × Settlement}
    (h : tr.discarded e = some s) :
    s.1 = e.id ∧ tr.decoded e = none := by
  unfold Transport.discarded at h
  unfold Transport.decoded
  split at h
  · next err hdecode =>
    cases h
    rw [hdecode]
    exact ⟨rfl, rfl⟩
  · cases h

theorem decoded_eq_some {tr : Transport V T} {e : Entry} {env : Envelope V}
    (h : tr.decoded e = some env) :
    ∃ env', tr.serializer.decode e.payload = .returned (.ok env') ∧ env = env'.withStamp
      (.outboxID e.id) := by
  unfold Transport.decoded at h
  split at h
  · next env' hdecode =>
    cases h
    exact ⟨env', hdecode, rfl⟩
  · cases h

/-- The loop of `Get` settles the entries it cannot decode, and returns the others. -/
theorem receive_settles (tr : Transport V T) {poll : Poll} (hretry : ∀ id, poll.retryErr id = none)
    {entries : List Entry} {t : OutboxTable} {envs : List (Envelope V)}
    (h : (tr.receive poll entries t).1 = .returned envs) :
    (tr.receive poll entries t).2 = (entries.filterMap tr.discarded).foldl settleRow t ∧
      envs = entries.filterMap tr.decoded ∧
      ∀ e ∈ entries, ∃ r, tr.serializer.decode e.payload = .returned r := by
  induction entries generalizing t envs with
  | nil =>
    cases h
    exact ⟨rfl, rfl, fun _ he => (by cases he)⟩
  | cons e entries ih =>
    unfold Transport.receive at h ⊢
    rcases hdecode : tr.serializer.decode e.payload with (err | env') | p
    · simp only [hdecode, hretry] at h ⊢
      obtain ⟨htable, henvs, hall⟩ := ih h
      refine ⟨?_, ?_, List.forall_mem_cons.2 ⟨⟨_, hdecode⟩, hall⟩⟩
      · rw [htable, List.filterMap_cons_some (show tr.discarded e = some _ by
          rw [Transport.discarded, hdecode])]
        rfl
      · rw [henvs, List.filterMap_cons_none (by rw [Transport.decoded, hdecode])]
    · simp only [hdecode] at h ⊢
      rcases hrest : tr.receive poll entries t with ⟨envs' | p, t'⟩
      · rw [hrest] at h
        cases h
        obtain ⟨htable, henvs, hall⟩ := ih (congrArg Prod.fst hrest)
        rw [hrest] at htable
        refine ⟨?_, ?_, List.forall_mem_cons.2 ⟨⟨_, hdecode⟩, hall⟩⟩
        · rw [List.filterMap_cons_none (by rw [Transport.discarded, hdecode])]
          exact htable
        · rw [henvs, List.filterMap_cons_some (show tr.decoded e = some _ by
            rw [Transport.decoded, hdecode])]
      · rw [hrest] at h
        cases h
    · simp only [hdecode] at h
      cases h

theorem get_settles (tr : Transport V T) {poll : Poll} (hretry : ∀ id, poll.retryErr id = none)
    {t : OutboxTable} {envs : List (Envelope V)} (h : (tr.get poll t).1 = .returned (.ok envs)) :
    let polled := tr.store.getUnpublished poll.now poll.locked poll.order tr.batchSize t
    (tr.get poll t).2 = (polled.1.filterMap tr.discarded).foldl settleRow polled.2 ∧
      envs = polled.1.filterMap tr.decoded ∧
      ∀ e ∈ polled.1, ∃ r, tr.serializer.decode e.payload = .returned r := by
  intro polled
  unfold Transport.get at h ⊢
  cases hquery : poll.queryErr with
  | some err =>
    rw [hquery] at h
    cases h
  | none =>
    rw [hquery] at h
    dsimp only at h ⊢
    rcases hreceive : tr.receive poll polled.1 polled.2 with ⟨envs' | p, t'⟩
    · rw [hreceive] at h
      cases h
      have hsettles := receive_settles tr hretry (congrArg Prod.fst hreceive)
      rwa [hreceive] at hsettles
    · rw [hreceive] at h
      cases h

/-- A poll changes no row but for the claim of those it returns. -/
theorem rows_getUnpublished (store : PostgresStore) (now : ℤ) (locked : String → Bool)
    (order : RowOrder) (batchSize : ℕ) (t : OutboxTable) :
    ∃ f : OutboxRow → OutboxRow, (store.getUnpublished now locked order batchSize t).2.rows =
      t.rows.map f ∧
      ∀ r, f r = r ∨ r.id ∈ (store.getUnpublished now locked order batchSize t).1.map Entry.id ∧
        f r = { r with claimedAt := some now } := by
  unfold PostgresStore.getUnpublished
  split_ifs
  · exact ⟨id, (List.map_id _).symm, fun r => .inl rfl⟩
  · refine ⟨_, rfl, fun r => ?_⟩
    dsimp only
    split_ifs with hmem
    · refine .inr ⟨?_, rfl⟩
      show r.id ∈ (List.map OutboxRow.entry _).map Entry.id
      rw [List.map_map]
      exact ((order.perm _).map OutboxRow.id).mem_iff.2 (of_decide_eq_true hmem)
    · exact .inl rfl

theorem entry_mem_of_polled {store : PostgresStore} {now : ℤ} {locked : String → Bool}
    {order : RowOrder} {batchSize : ℕ} {t : OutboxTable} {r : OutboxRow} (hr : r ∈ t)
    (h : r.id ∈ (store.getUnpublished now locked order batchSize t).1.map Entry.id) :
    r.entry ∈ (store.getUnpublished now locked order batchSize t).1 := by
  obtain ⟨e, he, hid⟩ := List.mem_map.1 h
  obtain ⟨r', hr', rfl⟩ := (getUnpublished_spec store now locked order batchSize t).1 e he
  rwa [t.eq_of_key hr hr' hid.symm]

theorem nodup_getUnpublished (store : PostgresStore) (now : ℤ) (locked : String → Bool)
    (order : RowOrder) (batchSize : ℕ) (t : OutboxTable) :
    ((store.getUnpublished now locked order batchSize t).1.map Entry.id).Nodup := by
  unfold PostgresStore.getUnpublished
  split_ifs
  · show ((List.map OutboxRow.entry _).map Entry.id).Nodup
    rw [List.map_map]
    exact Table.nodup_select
  · show ((List.map OutboxRow.entry _).map Entry.id).Nodup
    rw [List.map_map]
    exact ((order.perm _).map OutboxRow.id).nodup_iff.2 Table.nodup_select

/-- The entry of an envelope that `Get` has stamped, whatever stamps it had before. -/
theorem entryIDOf_outboxID (env : Envelope V) (id : String) :
    entryIDOf (env.withStamp (.outboxID id)) = some id := by
  have hlast : (env.withStamp (.outboxID id)).last "messenger.outbox_id" = some (.outboxID id) :=
    env.last_withStamp_self (.outboxID id)
  rw [entryIDOf, outboxEntryID, hlast]

/-- The stamp of the worker does not hide it. -/
theorem entryIDOf_received (env : Envelope V) (transportName : String) (t : ℤ) :
    entryIDOf (env.withStamp (.received transportName t)) = entryIDOf env := by
  have hlast := env.last_withStamp_of_ne (s := .received transportName t)
    (show Stamp.nameReceived ≠ "messenger.outbox_id" by decide)
  rw [entryIDOf, outboxEntryID, hlast]
  rfl

/-! ### The table under the commands of a worker -/

/-- What a command does to the table at the time, if the store does not fail.  Commands other than
`Ack` and `Reject` of the outbox transport leave it as it is. -/
def Cmd.onTable (now : ℤ) : Cmd V C → OutboxTable → OutboxTable
  | .ack env, t => (Messenger.ack env now none t).2
  | .reject env reason, t => (Messenger.reject env (some reason) none t).2
  | _, t => t

/-- The table after some commands, each at its time. -/
def tableAfter : (ℕ → ℤ) → List (Exchange (Reply V C)) → OutboxTable → OutboxTable
  | _, [], t => t
  | clock, ev :: l, t => tableAfter (fun n => clock (n + 1)) l (ev.cmd.onTable (clock 0) t)

theorem tableAfter_append (clock : ℕ → ℤ) (l l' : List (Exchange (Reply V C))) (t : OutboxTable) :
    tableAfter clock (l ++ l') t =
      tableAfter (fun n => clock (n + l.length)) l' (tableAfter clock l t) := by
  induction l generalizing clock t with
  | nil => rfl
  | cons ev l ih =>
    rw [List.cons_append, tableAfter, ih, tableAfter]
    simp only [List.length_cons, Nat.add_assoc]

theorem onTable_of_not_settle {e : Cmd V C} (h : e.isSettle = false) (now : ℤ) (t : OutboxTable) :
    e.onTable now t = t := by
  cases e <;> first | rfl | cases h

theorem tableAfter_of_not_settle {l : List (Exchange (Reply V C))} (clock : ℕ → ℤ) (t : OutboxTable)
    (h : ∀ ev ∈ l, ev.cmd.isSettle = false) : tableAfter clock l t = t := by
  induction l generalizing clock with
  | nil => rfl
  | cons ev l ih =>
    obtain ⟨hev, hl⟩ := List.forall_mem_cons.1 h
    rw [tableAfter, onTable_of_not_settle hev]
    exact ih _ hl

/-- The settlement for the result of a dispatch. -/
def SettlesAs : Except Err (DispatchResult V) → Settlement → Prop
  | .error err, s => s = .retried (some err)
  | .ok _, s => ∃ now, s = .published now

/-- The end of `processMessage` settles the entry of the envelope. -/
theorem tableAfter_settle {env : Envelope V} {id : String} (hid : entryIDOf env = some id)
    {r : Except Err (DispatchResult V)} {l : List (Exchange (Reply V C))}
    (h : Execution (settle env (.returned r)) l (.returned ())) (clock : ℕ → ℤ) (t : OutboxTable) :
    ∃ s, SettlesAs r s ∧ tableAfter clock l t = settleRow t (id, s) := by
  cases r with
  | error err =>
    obtain ⟨_, _, rfl, hend⟩ := execution_call.1 h
    obtain ⟨rfl, -⟩ := execution_pure.1 hend
    refine ⟨.retried (some err), rfl, ?_⟩
    rw [tableAfter, tableAfter, Cmd.onTable, Messenger.reject, onEntry_of_some hid]
    rfl
  | ok result =>
    obtain ⟨_, _, rfl, hend⟩ := execution_call.1 h
    obtain ⟨rfl, -⟩ := execution_pure.1 hend
    refine ⟨.published (clock 0), ⟨_, rfl⟩, ?_⟩
    rw [tableAfter, tableAfter, Cmd.onTable, Messenger.ack, onEntry_of_some hid]
    rfl

/-! ### The rows -/

/-- What becomes of a row, given the entries of the poll and the results of the envelopes that were
processed. -/
inductive SettledRow (tr : Transport V T) (polled : List Entry)
    (handled : List (Envelope V × Except Err (DispatchResult V))) : OutboxRow → OutboxRow → Prop
  | other {r : OutboxRow} (h : r.id ∉ polled.map Entry.id) : SettledRow tr polled handled r r
  | undecodable {r : OutboxRow} {err : Err} (h : r.id ∈ polled.map Entry.id)
      (hdecode : tr.serializer.decode r.entry.payload = .returned (.error err)) :
      SettledRow tr polled handled r
        ((Settlement.retried (some (.wrap "decode: %w" none err))).row r)
  | failed {r : OutboxRow} {env : Envelope V} {err : Err} (h : r.id ∈ polled.map Entry.id)
      (hdecode : tr.serializer.decode r.entry.payload = .returned (.ok env))
      (hhandled : (env.withStamp (.outboxID r.id), .error err) ∈ handled) :
      SettledRow tr polled handled r ((Settlement.retried (some err)).row r)
  | published {r : OutboxRow} {env : Envelope V} {result : DispatchResult V}
      (h : r.id ∈ polled.map Entry.id)
      (hdecode : tr.serializer.decode r.entry.payload = .returned (.ok env))
      (hhandled : (env.withStamp (.outboxID r.id), .ok result) ∈ handled) (now : ℤ) :
      SettledRow tr polled handled r ((Settlement.published now).row r)

theorem ids_of_settles {tr : Transport V T} {es : List Entry}
    {rs : List (Except Err (DispatchResult V))} {ss : List (String × Settlement)}
    (hlength : (es.filterMap tr.decoded).length = rs.length)
    (hss : List.Forall₂ (fun p s => entryIDOf p.1 = some s.1 ∧ SettlesAs p.2 s.2)
      ((es.filterMap tr.decoded).zip rs) ss) :
    ss.map Prod.fst = es.filterMap fun e => (tr.decoded e).map fun _ => e.id := by
  have hids : ((es.filterMap tr.decoded).zip rs).map (fun p => entryIDOf p.1) =
      ss.map fun s => some s.1 := by
    rw [← List.forall₂_eq_eq_eq, List.forall₂_map_left_iff, List.forall₂_map_right_iff]
    exact hss.imp fun _ _ h => h.1
  have hfst : ((es.filterMap tr.decoded).zip rs).map (fun p => entryIDOf p.1) =
      (es.filterMap tr.decoded).map entryIDOf := by
    have hzip := congrArg (List.map entryIDOf) (List.map_fst_zip hlength.le)
    rwa [List.map_map] at hzip
  have hdecoded : (es.filterMap tr.decoded).map entryIDOf =
      (es.filterMap fun e => (tr.decoded e).map fun _ => e.id).map some := by
    rw [List.map_filterMap, List.map_filterMap]
    congr
    funext e
    cases hdecode : tr.decoded e with
    | none => rfl
    | some env =>
      obtain ⟨env', -, rfl⟩ := decoded_eq_some hdecode
      simp [entryIDOf_outboxID]
  apply List.map_injective_iff.2 (Option.some_injective String)
  rw [List.map_map]
  exact hids.symm.trans (hfst.trans hdecoded)

section

variable {tr : Transport V T} {es : List Entry} {rs : List (Except Err (DispatchResult V))}
  {ss : List (String × Settlement)}

theorem nodup_settled (hnodup : (es.map Entry.id).Nodup)
    (hlength : (es.filterMap tr.decoded).length = rs.length)
    (hss : List.Forall₂ (fun p s => entryIDOf p.1 = some s.1 ∧ SettlesAs p.2 s.2)
      ((es.filterMap tr.decoded).zip rs) ss) :
    ((es.filterMap tr.discarded ++ ss).map Prod.fst).Nodup := by
  rw [List.map_append, List.map_filterMap, ids_of_settles hlength hss]
  refine nodup_filterMap_append (fun e id hid => ?_) (fun e id hid => ?_) hnodup
  · obtain ⟨s, hs, rfl⟩ := Option.map_eq_some_iff.1 hid
    obtain ⟨heq, hnone⟩ := discarded_eq_some hs
    exact ⟨heq, by rw [hnone]; rfl⟩
  · obtain ⟨_, -, rfl⟩ := Option.map_eq_some_iff.1 hid
    rfl

theorem mem_ids_of_settled (hlength : (es.filterMap tr.decoded).length = rs.length)
    (hss : List.Forall₂ (fun p s => entryIDOf p.1 = some s.1 ∧ SettlesAs p.2 s.2)
      ((es.filterMap tr.decoded).zip rs) ss) {id : String}
    (h : id ∈ (es.filterMap tr.discarded ++ ss).map Prod.fst) : id ∈ es.map Entry.id := by
  rw [List.map_append, List.map_filterMap, ids_of_settles hlength hss] at h
  rcases List.mem_append.1 h with h | h
  · obtain ⟨e, he, hid⟩ := List.mem_filterMap.1 h
    obtain ⟨s, hs, rfl⟩ := Option.map_eq_some_iff.1 hid
    exact List.mem_map.2 ⟨e, he, (discarded_eq_some hs).1.symm⟩
  · obtain ⟨e, he, hid⟩ := List.mem_filterMap.1 h
    obtain ⟨_, -, rfl⟩ := Option.map_eq_some_iff.1 hid
    exact List.mem_map_of_mem he

/-- Every row of the poll is settled, as its payload or the result of its message says. -/
theorem exists_settlement (hdecode : ∀ e ∈ es, ∃ r, tr.serializer.decode e.payload = .returned r)
    (hlength : (es.filterMap tr.decoded).length = rs.length)
    (hss : List.Forall₂ (fun p s => entryIDOf p.1 = some s.1 ∧ SettlesAs p.2 s.2)
      ((es.filterMap tr.decoded).zip rs) ss) {r : OutboxRow} (hr : r.entry ∈ es) :
    ∃ s : Settlement, (r.id, s) ∈ es.filterMap tr.discarded ++ ss ∧
      SettledRow tr es ((es.filterMap tr.decoded).zip rs) r (s.row r) := by
  have hid : r.id ∈ es.map Entry.id := List.mem_map_of_mem hr
  obtain ⟨err | env, hpayload⟩ := hdecode r.entry hr
  · refine ⟨_, List.mem_append_left _ (List.mem_filterMap.2 ⟨r.entry, hr, ?_⟩),
      .undecodable hid hpayload⟩
    rw [Transport.discarded, hpayload]
    rfl
  · have henv : env.withStamp (.outboxID r.id) ∈ es.filterMap tr.decoded := by
      refine List.mem_filterMap.2 ⟨r.entry, hr, ?_⟩
      rw [Transport.decoded, hpayload]
      rfl
    rw [← List.map_fst_zip hlength.le] at henv
    obtain ⟨⟨_, res⟩, hres, rfl⟩ := List.mem_map.1 henv
    obtain ⟨⟨id, s⟩, hs, hentry, hsettles⟩ := exists_related hss hres
    obtain rfl : r.id = id := Option.some.inj ((entryIDOf_outboxID env r.id).symm.trans hentry)
    refine ⟨s, List.mem_append_right _ hs, ?_⟩
    cases res with
    | error err =>
      obtain rfl : s = .retried (some err) := hsettles
      exact .failed hid hpayload hres
    | ok result =>
      obtain ⟨now, rfl⟩ := hsettles
      exact .published hid hpayload hres now

end

/-! ### A batch -/

variable [Typed V]

/-- The loop of `consumeLoop` over the envelopes of one `Get`. -/
def consumeBatch (b : MessageBus V C) (transportName : String) (ctx : C) :
    List (Envelope V) → Prog (Reply V C) (Outcome Unit)
  | [] => .pure (.returned ())
  | env :: envs => (processMessage b transportName ctx env).bind fun
      | .panicked p => .pure (.panicked p)
      | .returned () => consumeBatch b transportName ctx envs

/-- The bus handles the message of the envelope in process: its dispatch neither sends nor settles
anything. -/
def InProcess (b : MessageBus V C) (transportName : String) (ctx : C) (env : Envelope V) : Prop :=
  ∀ t, Only (fun e => e.isSend = false ∧ e.isSettle = false)
    (dispatch b ctx env.message (env.withStamp (.received transportName t)).stamps)

theorem only_syncTerminal (b : MessageBus V C) (ctx : C) (env : Envelope V) :
    Only (fun e => e.isSend = false ∧ e.isSettle = false) (syncTerminal b ctx env) := by
  unfold syncTerminal
  split
  · trivial
  · refine Only.bind ?_ fun _ => trivial
    unfold handleAny
    split
    · trivial
    · exact ⟨⟨rfl, rfl⟩, fun _ => trivial⟩

/-- A message without a route, on a bus whose middleware passes through. -/
theorem inProcess_of_handlesSync {b : MessageBus V C} (hmw : ∀ m ∈ b.middleware, PassThrough m)
    (transportName : String) (ctx : C) {env : Envelope V} (hsync : HandlesSync b env) :
    InProcess b transportName ctx env := by
  intro t
  unfold dispatch
  split_ifs
  · trivial
  · refine ⟨⟨rfl, rfl⟩, fun t' => only_buildChain (fun e he => ?_) hmw (fun ctx' => ?_) ctx⟩
    · cases e <;> first | exact ⟨rfl, rfl⟩ | cases he
    · rw [dispatchTerminal_of_handlesSync ((handlesSync_received b env transportName t t').2 hsync)]
      exact only_syncTerminal b ctx' _

/-- What was executed for a batch: each message was dispatched, with this result, and settled. -/
inductive Processed (b : MessageBus V C) (transportName : String) (ctx : C) :
    List (Envelope V) → List (Except Err (DispatchResult V)) → List (Exchange (Reply V C)) → Prop
  | nil : Processed b transportName ctx [] [] []
  | cons {env : Envelope V} {envs : List (Envelope V)} {r : Except Err (DispatchResult V)}
      {rs : List (Except Err (DispatchResult V))} {t : ℤ} {l l' l'' : List (Exchange (Reply V C))}
      (hdispatch : Execution (dispatch b ctx env.message
        (env.withStamp (.received transportName t)).stamps) l (.returned r))
      (hsettle : Execution (settle (env.withStamp (.received transportName t)) (.returned r)) l'
        (.returned ()))
      (hrest : Processed b transportName ctx envs rs l'') :
      Processed b transportName ctx (env :: envs) (r :: rs) (⟨.now, t⟩ :: (l ++ (l' ++ l'')))

section

variable {b : MessageBus V C} {transportName : String} {ctx : C} {envs : List (Envelope V)}
  {rs : List (Except Err (DispatchResult V))} {l : List (Exchange (Reply V C))}

theorem processed_of_execution
    (h : Execution (consumeBatch b transportName ctx envs) l (.returned ())) :
    ∃ rs, Processed b transportName ctx envs rs l := by
  induction envs generalizing l with
  | nil =>
    obtain ⟨rfl, -⟩ := execution_pure.1 h
    exact ⟨[], .nil⟩
  | cons env envs ih =>
    obtain ⟨l₁, o, l₂, rfl, hprocess, hrest⟩ := execution_bind.1 h
    cases o with
    | panicked p => cases (execution_pure.1 hrest).2
    | returned u =>
      obtain ⟨rs, hrs⟩ := ih hrest
      obtain ⟨t, _, rfl, hbody⟩ := execution_call.1 hprocess
      obtain ⟨l, r, l', rfl, hdispatch, hsettle⟩ := execution_bind.1 hbody
      cases r with
      | panicked p => cases (execution_pure.1 hsettle).2
      | returned r =>
        refine ⟨r :: rs, ?_⟩
        rw [List.cons_append, List.append_assoc]
        exact .cons hdispatch hsettle hrs

theorem Processed.length_eq (h : Processed b transportName ctx envs rs l) :
    envs.length = rs.length := by
  induction h with
  | nil => rfl
  | cons _ _ _ ih => rw [List.length_cons, List.length_cons, ih]

/-- A batch settles the entries of its envelopes, each by the result of its message. -/
theorem Processed.settles (h : Processed b transportName ctx envs rs l)
    (hin : ∀ env ∈ envs, InProcess b transportName ctx env)
    (hids : ∀ env ∈ envs, ∃ id, entryIDOf env = some id) (clock : ℕ → ℤ) (t : OutboxTable) :
    ∃ ss, List.Forall₂ (fun p s => entryIDOf p.1 = some s.1 ∧ SettlesAs p.2 s.2) (envs.zip rs) ss ∧
      tableAfter clock l t = ss.foldl settleRow t := by
  induction h generalizing clock t with
  | nil => exact ⟨[], .nil, rfl⟩
  | @cons env envs r rs received l l' l'' hdispatch hsettle hrest ih =>
    obtain ⟨hfirst, hin⟩ := List.forall_mem_cons.1 hin
    obtain ⟨⟨id, hid⟩, hids⟩ := List.forall_mem_cons.1 hids
    have hquiet : ∀ ev ∈ l, ev.cmd.isSettle = false := fun ev hev =>
      (Only.mem (hfirst received) hdispatch ev hev).2
    rw [tableAfter, onTable_of_not_settle rfl, tableAfter_append,
      tableAfter_of_not_settle _ _ hquiet, tableAfter_append]
    obtain ⟨s, hs, htable⟩ :=
      tableAfter_settle ((entryIDOf_received env transportName received).trans hid)
      hsettle (fun n => clock (n + l.length + 1)) t
    rw [htable]
    obtain ⟨ss, hss, hrest⟩ := ih hin hids _ (settleRow t (id, s))
    exact ⟨(id, s) :: ss, .cons ⟨hid, hs⟩ hss, hrest⟩

end

/-- **Settlement of a batch.**  For every table, every poll that succeeds, every bus that handles
the messages in process and every execution of the worker's loop: each row of the poll is settled
once, by its own message or for its own payload, and no other row changes. -/
theorem rows_settled (tr : Transport V T) (poll : Poll) (hretry : ∀ id, poll.retryErr id = none)
    (t : OutboxTable) {envs : List (Envelope V)} (hget : (tr.get poll t).1 = .returned (.ok envs))
    (b : MessageBus V C) (transportName : String) (ctx : C)
    (hin : ∀ env ∈ envs, InProcess b transportName ctx env) {l : List (Exchange (Reply V C))}
    (h : Execution (consumeBatch b transportName ctx envs) l (.returned ())) (clock : ℕ → ℤ) :
    ∃ rs, Processed b transportName ctx envs rs l ∧
      List.Forall₂ (SettledRow tr
          (tr.store.getUnpublished poll.now poll.locked poll.order tr.batchSize t).1 (envs.zip rs))
        t.rows (tableAfter clock l (tr.get poll t).2).rows := by
  obtain ⟨htable, rfl, hdecode⟩ := get_settles tr hretry hget
  obtain ⟨f, hrows, hf⟩ :=
    rows_getUnpublished tr.store poll.now poll.locked poll.order tr.batchSize t
  have hnodup := nodup_getUnpublished tr.store poll.now poll.locked poll.order tr.batchSize t
  set polled := tr.store.getUnpublished poll.now poll.locked poll.order tr.batchSize t
  obtain ⟨rs, hrs⟩ := processed_of_execution h
  refine ⟨rs, hrs, ?_⟩
  have hids : ∀ env ∈ polled.1.filterMap tr.decoded, ∃ id, entryIDOf env = some id := by
    intro env henv
    obtain ⟨e, -, he⟩ := List.mem_filterMap.1 henv
    obtain ⟨env', -, rfl⟩ := decoded_eq_some he
    exact ⟨e.id, entryIDOf_outboxID env' e.id⟩
  obtain ⟨ss, hss, hafter⟩ := hrs.settles hin hids clock (tr.get poll t).2
  rw [hafter, htable, ← List.foldl_append, rows_foldl_settleRow, hrows, List.map_map,
    List.forall₂_map_right_iff, List.forall₂_same]
  intro r hr
  rw [Function.comp_apply]
  by_cases hpolled : r.id ∈ polled.1.map Entry.id
  · obtain ⟨s, hs, hrow⟩ :=
      exists_settlement hdecode hrs.length_eq hss (entry_mem_of_polled hr hpolled)
    have honce := nodup_settled hnodup hrs.length_eq hss
    rcases hf r with heq | ⟨-, heq⟩
    · rw [heq, settledBy_of_mem honce hs]
      exact hrow
    · rw [heq, settledBy_of_mem (r := { r with claimedAt := some poll.now }) honce hs,
        s.row_claimed]
      exact hrow
  · rw [(hf r).resolve_right fun h => hpolled h.1,
      settledBy_of_not_mem fun hmem => hpolled (mem_ids_of_settled hrs.length_eq hss hmem)]
    exact .other hpolled

end

/-! ### A batch of orders -/

/-- Two orders, the first with the stamp of an earlier hop, and an entry that cannot be decoded. -/
def orderTable : OutboxTable :=
  (insertEntry ⟨"e3", "", "", "", .null, "", 2, 0⟩ none
    (orderTransport.run [.send "w1" "e1" ⟨"o1"⟩ [.outboxID "e0"] 0 none,
      .send "w2" "e2" ⟨"o2"⟩ [] 1 none])).2

def orderBatch : List (Envelope PlaceOrder) :=
  [⟨⟨"o1"⟩, [.outboxID "e0", .outboxID "e1"], 0⟩, ⟨⟨"o2"⟩, [.outboxID "e2"], 1⟩]

def orderHandled (msg : PlaceOrder) (reply : Outcome (Except Err (Option PlaceOrder))) :
    List (Exchange (Reply PlaceOrder Unit)) :=
  [⟨.now, (1 : ℤ)⟩, ⟨.now, (2 : ℤ)⟩, ⟨.now, (3 : ℤ)⟩, ⟨.handle "order.PlaceOrder" () msg, reply⟩,
    ⟨.now, (4 : ℤ)⟩, ⟨.own 0, (0 : ℕ)⟩]

/-- The first order is acked, and the second one rejected. -/
def orderBatchRun : List (Exchange (Reply PlaceOrder Unit)) :=
  orderHandled ⟨"o1"⟩ (.returned (.ok none)) ++
    [⟨.ack ⟨⟨"o1"⟩, [.outboxID "e0", .outboxID "e1", .received "outbox" 1], 0⟩, none⟩] ++
    orderHandled ⟨"o2"⟩ (.returned (.error (.msg "out of stock"))) ++
    [⟨.reject ⟨⟨"o2"⟩, [.outboxID "e2", .received "outbox" 1], 1⟩ (.msg "out of stock"), none⟩]

theorem rows_settled_orders :
    ∃ rs, Processed (orderBus StrMap.empty) "outbox" () orderBatch rs orderBatchRun ∧
      List.Forall₂ (SettledRow orderTransport
          (orderTransport.store.getUnpublished 0 (fun _ => false) tableOrder 100 orderTable).1
          (orderBatch.zip rs))
        orderTable.rows
          (tableAfter (fun _ => 5) orderBatchRun
          (orderTransport.get quietPoll orderTable).2).rows := by
  have hget : (orderTransport.get quietPoll orderTable).1 = .returned (.ok orderBatch) := rfl
  refine rows_settled orderTransport quietPoll (fun _ => rfl) orderTable hget
    (orderBus StrMap.empty) "outbox" ()
    (fun env henv => ?_) ?_ fun _ => 5
  · refine inProcess_of_handlesSync (fun m hm => ?_) "outbox" () (.inr ?_)
    · rw [List.mem_singleton.1 hm]
      exact passThrough_logging
    · rw [orderBatch, List.mem_cons, List.mem_singleton] at henv
      rcases henv with rfl | rfl <;> exact ⟨rfl, rfl⟩
  · exact .call
      (.call (.call (.call (.call (.call (.call (.call (.call (.call (.call (.call (.call (.call
      (.pure _))))))))))))))

end WolfCore.Messenger
