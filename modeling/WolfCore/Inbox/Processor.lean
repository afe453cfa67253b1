import WolfCore.Event.Basic
import WolfCore.Inbox.Middleware
import WolfCore.Lib.Threads

/-!
# The processor (`infra/events/inbox/processor.go`, `InboxStore.Cleanup`)

`Process` records the ID of an event before it calls the handler, and skips an event whose ID is
recorded; `Cleanup` deletes the records that are older than a retention period.  Both work on
`inbox_events`, from any number of goroutines, and every statement may fail with or without its
effect.

`processor_at_most_once`: a handler runs only in a call that has recorded the ID itself; between two
records of one ID there is a cleanup that deletes what was recorded before its cutoff, and the first
one was; and a call that succeeds has run the handler, or has stored no row itself because the ID
was recorded before.
-/

namespace WolfCore.Inbox.Processor

open Go Interleave

variable {V : Type}

inductive Request (V : Type)
  | process (evt : Event V)
  | cleanup (retention : ℤ)

inductive Response
  | processed (result : Outcome (Option Err))
  | cleaned (result : Except Err ℕ)

/-- The effects of the calls. -/
inductive Cmd (V : Type)
  | call
  | respond (request : Request V) (response : Response)
  /-- the `INSERT` of `Process` -/
  | record (eventID eventType : String)
  | handle (evt : Event V)
  /-- `time.Now` -/
  | now
  /-- the `DELETE` of `Cleanup` -/
  | purge (cutoff : ℤ)

/-- What the `INSERT` returns, and then `RowsAffected`; and when the row was stored, if it was. -/
structure Recorded where
  result : Except Err (Except Err ℕ)
  stored : Option ℤ

/-- What the `DELETE` returns, and then `RowsAffected`; and whether it took effect. -/
structure Purged where
  result : Except Err (Except Err ℕ)
  applied : Bool

abbrev Reply : Cmd V → Type
  | .call => Request V
  | .respond _ _ => Unit
  | .record _ _ => Recorded
  | .handle _ => Outcome (Option Err)
  | .now => ℤ
  | .purge _ => Purged

/-! ### The programs -/

/-- What `Process` makes of the result of the handler. -/
def handlerResult (evt : Event V) : Outcome (Option Err) → Outcome (Option Err)
  | .returned (some err) =>
      .returned (some (.wrap "inbox: handler error for event %q: %w" (some evt.eventID) err))
  | result => result

/-- `Processor.Process`. -/
def process (evt : Event V) : Prog (Reply (V := V)) (Outcome (Option Err)) :=
  .call (.record evt.eventID evt.eventType) fun recorded =>
    match recorded.result with
    | .error err =>
        .pure (.returned (some (.wrap "inbox: record event %q: %w" (some evt.eventID) err)))
    | .ok (.error err) =>
        .pure (.returned (some (.wrap "inbox: rows affected %q: %w" (some evt.eventID) err)))
    | .ok (.ok 0) => .pure (.returned none)
    | .ok (.ok _) => .call (.handle evt) fun result => .pure (handlerResult evt result)

/-- `InboxStore.Cleanup`. -/
def cleanup (retention : ℤ) : Prog (Reply (V := V)) (Except Err ℕ) :=
  .call .now fun now => .call (.purge (now - retention)) fun purged =>
    match purged.result with
    | .error err => .pure (.error (.wrap "inbox store: cleanup: %w" none err))
    | .ok rowsAffected => .pure rowsAffected

def handleRequest : Request V → Prog (Reply (V := V)) Response
  | .process evt => (process evt).bind fun result => .pure (.processed result)
  | .cleanup retention => (cleanup retention).bind fun result => .pure (.cleaned result)

/-! ### The database -/

/-- What is not determined about an effect. -/
structure Choice (V : Type) where
  request : Request V
  handler : Outcome (Option Err)
  dbErr : Option Err
  /-- a statement that fails takes effect all the same -/
  effective : Bool
  rowsErr : Option Err
  /-- the clock of the database, or of the program -/
  clock : ℤ

/-- `RowsAffected`, of a statement that affected `n` rows. -/
def rowsAffected (o : Choice V) (n : ℕ) : Except Err ℕ :=
  match o.rowsErr with
  | some err => .error err
  | none => .ok n

/-- `INSERT … ON CONFLICT (id) DO NOTHING`, and when the row was stored. -/
def insertRow (t : InboxTable) (eventID eventType : String) (now : ℤ) : Option ℤ × InboxTable :=
  match t.insert ⟨eventID, eventType, now⟩ with
  | some t' => (some now, t')
  | none => (none, t)

def exec : (e : Cmd V) → Choice V → InboxTable → Reply e × InboxTable
  | .call, o, t => (o.request, t)
  | .respond _ _, _, t => ((), t)
  | .record eventID eventType, o, t =>
      let (stored, t') := insertRow t eventID eventType o.clock
      match o.dbErr with
      | some err => if o.effective then (⟨.error err, stored⟩, t') else (⟨.error err, none⟩, t)
      | none => (⟨.ok (rowsAffected o (if stored.isSome then 1 else 0)), stored⟩, t')
  | .handle _, o, t => (o.handler, t)
  | .now, o, t => (o.clock, t)
  | .purge cutoff, o, t =>
      let t' := t.delete fun r => r.processedAt < cutoff
      match o.dbErr with
      | some err => (⟨.error err, o.effective⟩, if o.effective then t' else t)
      | none => (⟨.ok (rowsAffected o (t.rows.length - t'.rows.length)), true⟩, t')

/-- Goroutines that call the processor and the store. -/
def machine (V : Type) : Machine (Reply (V := V)) InboxTable (Choice V) Unit Empty where
  exec := exec
  body := fun _ _ => serve .call .respond handleRequest
  boot := fun _ => ()
  env := fun a => a.elim

/-! ### Records -/

/-- The ID that the event records, and when. -/
def recordOf : Logged (Reply (V := V)) → Option (String × ℤ)
  | ⟨_, .record eventID _, recorded⟩ => recorded.stored.map fun t => (eventID, t)
  | _ => none

/-- The event deletes what was recorded at a time. -/
def purges (t : ℤ) : Logged (Reply (V := V)) → Bool
  | ⟨_, .purge cutoff, purged⟩ => purged.applied && decide (t < cutoff)
  | _ => false

/-- A record is in the table until it is deleted. -/
def Lasting (t : InboxTable) (h : History (Reply (V := V))) : Prop :=
  ∀ l ev h' id at', h = l ++ ev :: h' → recordOf ev = some (id, at') →
    (∃ r ∈ t, r.id = id ∧ r.processedAt = at') ∨ ∃ ev' ∈ l, purges at' ev' = true

/-- Whoever records an ID finds all earlier records of it deleted. -/
def Separated : Logged (Reply (V := V)) → History (Reply (V := V)) → Prop := fun ev h =>
  ∀ id at', recordOf ev = some (id, at') → ∀ l ev' h' before, h = l ++ ev' :: h' →
    recordOf ev' = some (id, before) → ∃ ev'' ∈ l, purges before ev'' = true

/-- A row is in the table only if it was recorded. -/
def Founded (t : InboxTable) (h : History (Reply (V := V))) : Prop :=
  ∀ r ∈ t, ∃ ev ∈ h, recordOf ev = some (r.id, r.processedAt)

/-- `RowsAffected` reports the row that was stored; if it was none, the ID was recorded before. -/
def Truthful : Logged (Reply (V := V)) → History (Reply (V := V)) → Prop
  | ⟨_, .record eventID _, recorded⟩, h => ∀ n, recorded.result = .ok (.ok n) →
      (n ≠ 0 → recorded.stored.isSome) ∧
        (n = 0 → recorded.stored = none ∧ ∃ ev ∈ h, ∃ at', recordOf ev = some (eventID, at'))
  | _, _ => True

theorem insertRow_cases (t : InboxTable) (eventID eventType : String) (now : ℤ) :
    (insertRow t eventID eventType now = (none, t) ∧ ∃ r ∈ t, r.id = eventID) ∨
    ((∀ r ∈ t, r.id ≠ eventID) ∧ ∃ t', insertRow t eventID eventType now = (some now, t') ∧
      ∀ r, r ∈ t' ↔ r ∈ t ∨ r = ⟨eventID, eventType, now⟩) := by
  unfold insertRow
  cases hins : t.insert ⟨eventID, eventType, now⟩ with
  | none => exact Or.inl ⟨rfl, Sql.Table.insert_eq_none.1 hins⟩
  | some t' =>
    exact Or.inr ⟨fun r hr => Sql.Table.key_ne_of_insert hins hr, t', rfl,
      fun r => Sql.Table.mem_insert hins⟩

section Steps

variable {t t' : InboxTable} {h : History (Reply (V := V))} {ev : Logged (Reply (V := V))}

/-- An event after which every row is still there, and the one it records. -/
theorem Lasting.cons (hl : Lasting t h) (hkeep : ∀ r ∈ t, r ∈ t' ∨ purges r.processedAt ev = true)
    (hnew : ∀ id at', recordOf ev = some (id, at') → ∃ r ∈ t', r.id = id ∧ r.processedAt = at') :
    Lasting t' (ev :: h) := by
  intro l ev' h' id at' heq hrec
  rcases l with _ | ⟨ev'', l⟩
  · cases heq
    exact Or.inl (hnew id at' hrec)
  · obtain ⟨rfl, rfl⟩ := List.cons.inj heq
    rcases hl l ev' h' id at' rfl hrec with ⟨r, hr, rfl, rfl⟩ | ⟨ev'', hev'', hp⟩
    · rcases hkeep r hr with hr' | hp
      · exact Or.inl ⟨r, hr', rfl, rfl⟩
      · exact Or.inr ⟨_, List.mem_cons_self, hp⟩
    · exact Or.inr ⟨ev'', List.mem_cons_of_mem _ hev'', hp⟩

/-- An ID that has no row has no record that lasts. -/
theorem Lasting.separated (hl : Lasting t h)
    (hnew : ∀ id at', recordOf ev = some (id, at') → ∀ r ∈ t, r.id ≠ id) : Separated ev h := by
  intro id at' hrec l ev' h' before heq hrec'
  rcases hl l ev' h' id before heq hrec' with ⟨r, hr, hid, -⟩ | hp
  · exact absurd hid (hnew id at' hrec r hr)
  · exact hp

variable {i : ℕ}

/-- An event that is neither a record nor a cleanup. -/
theorem Lasting.quiet (hl : Lasting t h) (hrec : recordOf ev = none) :
    Lasting t (ev :: h) ∧ Separated ev h :=
  ⟨hl.cons (fun _ hr => Or.inl hr) (by rw [hrec]; nofun), hl.separated (by rw [hrec]; nofun)⟩

theorem Lasting.record (hl : Lasting t h) (eventID eventType : String) (now : ℤ)
    (result : Except Err (Except Err ℕ)) :
    Lasting (insertRow t eventID eventType now).2 (⟨i, .record eventID eventType,
      ⟨result, (insertRow t eventID eventType now).1⟩⟩ :: h) ∧
    Separated (⟨i, .record eventID eventType,
      ⟨result, (insertRow t eventID eventType now).1⟩⟩ : Logged (Reply (V := V))) h := by
  rcases insertRow_cases t eventID eventType now with ⟨heq, -⟩ | ⟨hfree, t', heq, hmem⟩
  · rw [heq]
    exact hl.quiet rfl
  · rw [heq]
    refine ⟨hl.cons (fun r hr => Or.inl ((hmem r).2 (Or.inl hr))) ?_, hl.separated ?_⟩
    · rintro _ _ ⟨⟩
      exact ⟨_, (hmem _).2 (Or.inr rfl), rfl, rfl⟩
    · rintro _ _ ⟨⟩
      exact hfree

theorem Lasting.purge (hl : Lasting t h) (cutoff : ℤ) (result : Except Err (Except Err ℕ)) :
    Lasting (t.delete fun r => r.processedAt < cutoff)
      (⟨i, .purge cutoff, ⟨result, true⟩⟩ :: h : History (Reply (V := V))) := by
  refine hl.cons (fun r hr => ?_) nofun
  by_cases hlt : r.processedAt < cutoff
  · exact Or.inr (by simpa [purges] using hlt)
  · exact Or.inl (Sql.Table.mem_delete.2 ⟨hr, decide_eq_false hlt⟩)

theorem Founded.cons (hf : Founded t h)
    (hnew : ∀ r ∈ t', r ∈ t ∨ recordOf ev = some (r.id, r.processedAt)) :
    Founded t' (ev :: h) := by
  intro r hr
  rcases hnew r hr with hr' | hrec
  · obtain ⟨ev', hev', hrec⟩ := hf r hr'
    exact ⟨ev', List.mem_cons_of_mem _ hev', hrec⟩
  · exact ⟨ev, List.mem_cons_self, hrec⟩

theorem Founded.record (hf : Founded t h) (eventID eventType : String) (now : ℤ)
    (result : Except Err (Except Err ℕ)) :
    Founded (insertRow t eventID eventType now).2 (⟨i, .record eventID eventType,
      ⟨result, (insertRow t eventID eventType now).1⟩⟩ :: h) := by
  refine hf.cons fun r hr => ?_
  rcases insertRow_cases t eventID eventType now with ⟨heq, -⟩ | ⟨-, t', heq, hmem⟩
  · rw [heq] at hr
    exact Or.inl hr
  · rw [heq] at hr ⊢
    rcases (hmem r).1 hr with hr' | rfl
    · exact Or.inl hr'
    · exact Or.inr rfl

theorem Founded.truthful (hf : Founded t h) (eventID eventType : String) (now : ℤ) :
    Truthful ⟨i, .record eventID eventType,
      ⟨.ok (.ok (if (insertRow t eventID eventType now).1.isSome then 1 else 0)),
        (insertRow t eventID eventType now).1⟩⟩ h := by
  rintro n ⟨⟩
  rcases insertRow_cases t eventID eventType now with ⟨heq, r, hr, rfl⟩ | ⟨-, t', heq, -⟩
  · rw [heq]
    obtain ⟨ev, hev, hrec⟩ := hf r hr
    exact ⟨fun h => absurd rfl h, fun _ => ⟨rfl, ev, hev, _, hrec⟩⟩
  · rw [heq]
    exact ⟨fun _ => rfl, nofun⟩

/-- What holds of the table and the history, and of each event. -/
structure Inv (t : InboxTable) (h : History (Reply (V := V))) : Prop where
  events : Throughout (fun ev h => Separated ev h ∧ Truthful ev h) h
  lasting : Lasting t h
  founded : Founded t h

theorem Inv.quiet (hinv : Inv t h) (hrec : recordOf ev = none) (htruth : Truthful ev h) :
    Inv t (ev :: h) :=
  ⟨⟨⟨(hinv.lasting.quiet hrec).2, htruth⟩, hinv.events⟩, (hinv.lasting.quiet hrec).1,
    hinv.founded.cons fun _ hr => Or.inl hr⟩

theorem Inv.record (hinv : Inv t h) (eventID eventType : String) (now : ℤ)
    (result : Except Err (Except Err ℕ)) (htruth : Truthful ⟨i, .record eventID eventType,
      ⟨result, (insertRow t eventID eventType now).1⟩⟩ h) :
    Inv (insertRow t eventID eventType now).2 (⟨i, .record eventID eventType,
      ⟨result, (insertRow t eventID eventType now).1⟩⟩ :: h) := by
  obtain ⟨hlast, hsep⟩ := hinv.lasting.record (i := i) eventID eventType now result
  exact ⟨⟨⟨hsep, htruth⟩, hinv.events⟩, hlast, hinv.founded.record eventID eventType now result⟩

theorem Inv.purge (hinv : Inv t h) (cutoff : ℤ) (result : Except Err (Except Err ℕ)) :
    Inv (t.delete fun r => r.processedAt < cutoff)
      (⟨i, .purge cutoff, ⟨result, true⟩⟩ :: h : History (Reply (V := V))) :=
  ⟨⟨⟨hinv.lasting.separated nofun, trivial⟩, hinv.events⟩, hinv.lasting.purge cutoff result,
    hinv.founded.cons fun _ hr => Or.inl (Sql.Table.mem_delete.1 hr).1⟩

theorem Inv.exec (hinv : Inv t h) (e : Cmd V) (o : Choice V) :
    Inv (exec e o t).2 (⟨i, e, (Processor.exec e o t).1⟩ :: h) := by
  obtain ⟨request, handler, dbErr, effective, rowsErr, clock⟩ := o
  cases e with
  | record eventID eventType =>
    rcases dbErr with _ | err
    · cases rowsErr with
      | some err => exact hinv.record eventID eventType clock _ nofun
      | none =>
        exact hinv.record eventID eventType clock _ (hinv.founded.truthful eventID eventType clock)
    · cases effective with
      | true => exact hinv.record eventID eventType clock _ nofun
      | false => exact hinv.quiet rfl nofun
  | purge cutoff =>
    rcases dbErr with _ | err
    · exact hinv.purge cutoff _
    · cases effective with
      | true => exact hinv.purge cutoff _
      | false => exact hinv.quiet rfl trivial
  | _ => exact hinv.quiet rfl trivial

end Steps

theorem inv_run (as : List (Action (Choice V) Empty)) :
    Inv ((Pool.boot (machine V) Sql.Table.empty).run (machine V) as).shared
      ((Pool.boot (machine V) Sql.Table.empty).run (machine V) as).hist := by
  have hempty : Inv (V := V) Sql.Table.empty [] :=
    ⟨trivial, fun l _ _ _ _ heq => by simp at heq, fun r hr =>
      absurd hr (Sql.Table.not_mem_empty r)⟩
  exact (Along.state_invariant (machine V) (I := Inv) (Q := fun _ _ _ _ _ => True)
    (fun i e o t h hinv _ => hinv.exec e o) (fun a => a.elim)
    (p := Pool.boot (machine V) Sql.Table.empty) hempty
    (.of_mem _ (fun a _ p => .of_forall (fun _ _ _ _ _ => trivial) p a) _)).2

/-! ### Calls -/

/-- The first command of a call. -/
def opens : Cmd V → Bool
  | .call => true
  | _ => false

/-- The last command of a call. -/
def closes : Cmd V → Bool
  | .respond _ _ => true
  | _ => false

/-- What `Process` does: the event is not handled, and then it succeeds only if the ID was recorded
before; or it is handled, and then the row was new. -/
theorem process_cases {evt : Event V} {l : List (Exchange (Reply (V := V)))}
    {result : Outcome (Option Err)} (h : Execution (process evt) l result) :
    ∃ recorded, (l = [⟨.record evt.eventID evt.eventType, recorded⟩] ∧
        (result = .returned none → recorded.result = .ok (.ok 0))) ∨
      ∃ n o, recorded.result = .ok (.ok (n + 1)) ∧ result = handlerResult evt o ∧
        l = [⟨.record evt.eventID evt.eventType, recorded⟩, ⟨.handle evt, o⟩] := by
  obtain ⟨recorded, l', rfl, hrest⟩ := execution_call.1 h
  refine ⟨recorded, ?_⟩
  obtain ⟨result', stored⟩ := recorded
  rcases result' with err | err | _ | n
  · obtain ⟨rfl, rfl⟩ := execution_pure.1 hrest
    exact Or.inl ⟨rfl, nofun⟩
  · obtain ⟨rfl, rfl⟩ := execution_pure.1 hrest
    exact Or.inl ⟨rfl, nofun⟩
  · obtain ⟨rfl, rfl⟩ := execution_pure.1 hrest
    exact Or.inl ⟨rfl, fun _ => rfl⟩
  · obtain ⟨o, l'', rfl, hpure⟩ := execution_call.1 hrest
    obtain ⟨rfl, rfl⟩ := execution_pure.1 hpure
    exact Or.inr ⟨n, o, rfl, rfl, rfl⟩

theorem serves : Serves (R := Reply (V := V)) .call .respond handleRequest opens closes where
  accepts := rfl
  responds := fun _ _ => ⟨rfl, rfl⟩
  injective := by
    rintro _ _ _ _ ⟨⟩
    exact ⟨rfl, rfl⟩
  handles := by
    rintro (evt | retention)
    · refine Only.bind ⟨⟨rfl, rfl⟩, fun recorded => ?_⟩ fun _ => trivial
      obtain ⟨_ | _ | _ | n, stored⟩ := recorded
      · trivial
      · trivial
      · trivial
      · exact ⟨⟨rfl, rfl⟩, fun _ => trivial⟩
    · refine Only.bind ⟨⟨rfl, rfl⟩, fun _ => ⟨⟨rfl, rfl⟩, fun purged => ?_⟩⟩ fun _ => trivial
      obtain ⟨_ | _, applied⟩ := purged <;> trivial
  distinct := rfl

/-- The handler runs in a call that has recorded the ID. -/
def HandledOnce : Logged (Reply (V := V)) → History (Reply (V := V)) → Prop
  | ⟨i, .handle evt, _⟩, h => ∃ recorded, own opens i h =
      [⟨.call, .process evt⟩, ⟨.record evt.eventID evt.eventType, recorded⟩] ∧
        recorded.stored.isSome
  | _, _ => True

/-- The `INSERT` of the call stores no row and reports that, since the ID was recorded before it. -/
def Skipped (i : ℕ) (evt : Event V) (h : History (Reply (V := V))) : Prop :=
  ∃ recorded before, own opens i h =
      [⟨.call, .process evt⟩, ⟨.record evt.eventID evt.eventType, recorded⟩] ∧
    recorded.result = .ok (.ok 0) ∧ recorded.stored = none ∧
    ⟨i, .record evt.eventID evt.eventType, recorded⟩ :: before <:+ h ∧
    ∃ ev ∈ before, ∃ at', recordOf ev = some (evt.eventID, at')

/-- A call of `Process` succeeds if the handler did, or if it is skipped. -/
def Answered : Logged (Reply (V := V)) → History (Reply (V := V)) → Prop
  | ⟨i, .respond (.process evt) (.processed (.returned none)), _⟩, h =>
      ⟨.handle evt, .returned none⟩ ∈ own opens i h ∨ Skipped i evt h
  | _, _ => True

/-- Only `Process` calls the handler, after it has recorded the ID. -/
theorem handle_execution {request : Request V} {l l' : List (Exchange (Reply (V := V)))}
    {evt : Event V} {o : Outcome (Option Err)} {response : Response}
    (h : Execution (handleRequest request) (l ++ ⟨.handle evt, o⟩ :: l') response) :
    request = .process evt ∧ ∃ recorded n, recorded.result = .ok (.ok (n + 1)) ∧
      l = [⟨.record evt.eventID evt.eventType, recorded⟩] := by
  cases request with
  | process evt' =>
    obtain ⟨l₁, result, l₂, heq, hprocess, hpure⟩ := execution_bind.1 h
    obtain ⟨rfl, -⟩ := execution_pure.1 hpure
    rw [List.append_nil] at heq
    obtain ⟨recorded, ⟨rfl, -⟩ | ⟨n, o', hn, -, rfl⟩⟩ := process_cases hprocess
    · rcases l with _ | ⟨x, l⟩
      · cases heq
      · simp at heq
    · rcases l with _ | ⟨x, _ | ⟨y, l⟩⟩
      · cases heq
      · cases heq
        exact ⟨rfl, recorded, n, hn, rfl⟩
      · simp at heq
  | cleanup retention =>
    obtain ⟨l₁, result, l₂, heq, hcleanup, hpure⟩ := execution_bind.1 h
    obtain ⟨rfl, -⟩ := execution_pure.1 hpure
    obtain ⟨now, _, rfl, hrest⟩ := execution_call.1 hcleanup
    obtain ⟨⟨result', applied⟩, _, rfl, hend⟩ := execution_call.1 hrest
    cases result' with
    | error err =>
      obtain ⟨rfl, -⟩ := execution_pure.1 hend
      rcases l with _ | ⟨x, _ | ⟨y, l⟩⟩ <;> simp at heq
    | ok rows =>
      obtain ⟨rfl, -⟩ := execution_pure.1 hend
      rcases l with _ | ⟨x, _ | ⟨y, l⟩⟩ <;> simp at heq

/-- What a call has recorded is reported truthfully. -/
theorem truthful_of_own {i : ℕ} {h : History (Reply (V := V))} {request : Request V}
    {eventID eventType : String} {recorded : Recorded} {rest : List (Exchange (Reply (V := V)))}
    (hpast : Throughout (fun ev h => Separated ev h ∧ Truthful ev h) h)
    (hown : own opens i h = ⟨.call, request⟩ :: ⟨.record eventID eventType, recorded⟩ :: rest) :
    ∃ h', ⟨i, .record eventID eventType, recorded⟩ :: h' <:+ h ∧
      Truthful ⟨i, .record eventID eventType, recorded⟩ h' := by
  have hx : (⟨.record eventID eventType, recorded⟩ : Exchange (Reply (V := V))) ∈
      own opens i h := by
    rw [hown]
    exact List.mem_cons_of_mem _ List.mem_cons_self
  obtain ⟨l, h', heq⟩ := List.append_of_mem (mem_of_mem_own hx)
  rw [heq] at hpast ⊢
  exact ⟨h', List.suffix_append l _, hpast.split.2⟩

/-- **Every ID is processed at most once until its record is deleted.** In every interleaving of any
number of calls of `Process` and `Cleanup`, whatever fails: the handler runs only in a call that has
stored the row of the ID itself; between any two rows stored for one ID there is a cleanup whose
cutoff is later than the first of them; and a call of `Process` that succeeds has seen the handler
succeed, or its `INSERT` stored nothing because the ID was recorded before it. -/
theorem processor_at_most_once (as : List (Action (Choice V) Empty)) :
    let hist := ((Pool.boot (machine V) Sql.Table.empty).run (machine V) as).hist
    Throughout HandledOnce hist ∧ Throughout Separated hist ∧ Throughout Answered hist := by
  intro hist
  have hevents := (inv_run as).events
  have hanswer : ∀ e : Cmd V, Nonempty (Reply e) := by
    intro e
    cases e with
    | call => exact ⟨.cleanup 0⟩
    | respond _ _ => exact ⟨()⟩
    | record _ _ => exact ⟨⟨.ok (.ok 0), none⟩⟩
    | handle _ => exact ⟨.returned none⟩
    | now => exact ⟨(0 : ℤ)⟩
    | purge _ => exact ⟨⟨.ok (.ok 0), true⟩⟩
  refine ⟨?_, hevents.mono fun _ _ h => h.1, ?_⟩
  · have hcalls := handled_run (m := machine V) serves (fun _ _ => rfl) Sql.Table.empty as
    refine (hcalls.and hevents.with_past).mono fun ev h hev => ?_
    obtain ⟨i, e, r⟩ := ev
    cases e with
    | handle evt =>
      obtain ⟨hcall, -, hpast⟩ := hev
      obtain ⟨request, l, l', response, hown, hexec⟩ := hcall rfl rfl
      obtain ⟨rfl, recorded, n, hn, rfl⟩ := handle_execution hexec
      obtain ⟨_, -, htruth⟩ := truthful_of_own hpast hown
      exact ⟨recorded, hown, (htruth _ hn).1 (Nat.succ_ne_zero n)⟩
    | _ => trivial
  · have hcalls := served_run (m := machine V) serves (fun _ _ => rfl) Sql.Table.empty as
    refine (hcalls.and hevents.with_past).mono fun ev h hev => ?_
    unfold Answered
    split
    · next i evt =>
      obtain ⟨hcall, -, hpast⟩ := hev
      obtain ⟨l, hown, hexec⟩ := hcall _ _ rfl
      obtain ⟨l', result, _, rfl, hprocess, hpure⟩ := execution_bind.1 hexec
      obtain ⟨rfl, heq⟩ := execution_pure.1 hpure
      cases heq
      rw [List.append_nil] at hown
      obtain ⟨recorded, ⟨rfl, hzero⟩ | ⟨n, o, -, ho, rfl⟩⟩ := process_cases hprocess
      · obtain ⟨h', hs, htruth⟩ := truthful_of_own hpast hown
        obtain ⟨hstored, hbefore⟩ := (htruth 0 (hzero rfl)).2 rfl
        exact Or.inr ⟨recorded, h', hown, hzero rfl, hstored, hs, hbefore⟩
      · rcases o with (_ | err) | p
        · exact Or.inl (by simp [hown])
        · cases ho
        · cases ho
    · trivial

end WolfCore.Inbox.Processor
