import WolfCore.Lib.Calls
import WolfCore.Inbox.Middleware

/-!
# Concurrent deliveries to one wrapped handler

Any number of threads receive messages and hand each of them to the same wrapped handler, in any
interleaving; handlers fail and panic, the database fails with or without its effect, threads crash.

`Pre` says what has happened when a step is taken: a marker is written for a message that has been
handled, a delivery returns nil for such a message, and a handler runs only if no marker was there
when its delivery started.  `delivery_guarantees` states this as it shows from the outside.
-/

namespace WolfCore.Inbox

open Go Interleave Messaging

section

variable {H : Type} (next : H)

def delivery : Prog (Answer (H := H)) Unit :=
  .call .receive fun msg => (wrap next msg).bind fun r => .call (.respond msg r) fun _ => .pure ()

def machine : Machine (Answer (H := H)) InboxTable Choice Unit Empty where
  exec := exec
  body := fun _ _ => delivery next
  boot := fun _ => ()
  env := fun a => a.elim

/-- Whether the command starts a delivery. -/
def Cmd.isReceive : Cmd H → Bool
  | .receive => true
  | _ => false

/-- The ID whose marker the event stores, if it does. -/
def storedID : Logged (Answer (H := H)) → Option String
  | ⟨_, .markProcessed messageID _, .ok _⟩ => some messageID
  | ⟨_, .markProcessed messageID _, .failed _ true⟩ => some messageID
  | _ => none

/-- A marker for the ID has been stored. -/
def Stored (h : History (Answer (H := H))) (id : String) : Prop := ∃ ev ∈ h, storedID ev = some id

/-- The handler has completed successfully for the ID. -/
def Handled (h : History (Answer (H := H))) (id : String) : Prop :=
  ∃ i msg, msg.id = id ∧ ⟨i, .handle next msg, .returned none⟩ ∈ h

variable {next}

theorem Stored.mono {h h' : History (Answer (H := H))} (hs : h <:+ h') {id : String}
    (hid : Stored h id) : Stored h' id := by
  obtain ⟨ev, hev, hid⟩ := hid
  exact ⟨ev, hs.subset hev, hid⟩

theorem Handled.mono {h h' : History (Answer (H := H))} (hs : h ⊆ h') {id : String}
    (hid : Handled next h id) : Handled next h' id := by
  obtain ⟨i, msg, hmsg, hmem⟩ := hid
  exact ⟨i, msg, hmsg, hs hmem⟩

theorem stored_cons {ev : Logged (Answer (H := H))} {h : History (Answer (H := H))} {id : String} :
    Stored (ev :: h) id ↔ storedID ev = some id ∨ Stored h id := by
  simp [Stored]

/-! ### What holds at each step -/

/-- The rows of the table are the markers stored so far, and each is of a message that was
handled. -/
structure Inv (next : H) (t : InboxTable) (h : History (Answer (H := H))) : Prop where
  marked : ∀ id, isProcessed t id = true ↔ Stored h id
  handled : ∀ id, Stored h id → Handled next h id

variable (next) in
/-- What a thread knows when it takes a step. -/
def Pre (i : ℕ) : Cmd H → History (Answer (H := H)) → Prop
  | .handle _ msg, h => ¬ Stored (before Cmd.isReceive i h) msg.id
  | .markProcessed messageID _, h => Handled next h messageID
  | .respond msg (.returned none), h => Handled next h msg.id
  | _, _ => True

/-- The effect of a command on the table, as the history has it. -/
theorem isProcessed_exec (i : ℕ) (e : Cmd H) (o : Choice) (t : InboxTable) (id : String) :
    isProcessed (exec e o t).2 id = true ↔
      storedID ⟨i, e, (exec e o t).1⟩ = some id ∨ isProcessed t id = true := by
  obtain ⟨msg, handler, dbErr, stored, rowsErr, now⟩ := o
  cases e with
  | markProcessed messageID eventType =>
    have hmark : isProcessed (markProcessed t messageID eventType now) id = true ↔
        some messageID = some id ∨ isProcessed t id = true := by
      rw [isProcessed_markProcessed, or_comm, Option.some.injEq, eq_comm (a := id)]
    cases dbErr with
    | some err =>
      cases stored with
      | true => exact hmark
      | false => simp [exec, storedID]
    | none => cases rowsErr <;> exact hmark
  | isProcessed messageID => cases dbErr <;> simp [exec, storedID]
  | _ => simp [exec, storedID]

theorem handled_of_storedID {i : ℕ} {e : Cmd H} {r : Answer e} {id : String}
    {h : History (Answer (H := H))} (hpre : Pre next i e h) (hs : storedID ⟨i, e, r⟩ = some id) :
    Handled next h id := by
  cases e with
  | markProcessed messageID eventType =>
    have hid : messageID = id := by
      rcases r with _ | ⟨_, _ | _⟩ <;> simp [storedID] at hs <;> exact hs
    exact hid ▸ hpre
  | _ => simp [storedID] at hs

theorem Inv.exec {t : InboxTable} {h : History (Answer (H := H))} (hinv : Inv next t h) {i : ℕ}
    {e : Cmd H} (hpre : Pre next i e h) (o : Choice) :
    Inv next (exec e o t).2 (⟨i, e, (Inbox.exec e o t).1⟩ :: h) := by
  constructor
  · intro id
    rw [isProcessed_exec i, stored_cons, hinv.marked]
  · intro id hid
    refine Handled.mono (List.subset_cons_self _ h) ?_
    rcases stored_cons.1 hid with hid | hid
    · exact handled_of_storedID hpre hid
    · exact hinv.handled id hid

variable (next) in
def protocol : Protocol (machine next) where
  inv := Inv next
  pre := Pre next
  idle := fun _ _ _ => True
  allowed := fun _ _ _ _ _ => True
  step := fun hinv _ hpre _ => hinv.exec hpre _
  env := fun {a} _ => a.elim

/-! ### One delivery -/

/-- The wrapped handler returns nil only if the message has been handled. -/
theorem safe_wrap (i : ℕ) (msg : Message) (t : InboxTable) (h : History (Answer (H := H))) :
    Safe (protocol next).contract i (fun r _ h => r = .returned none → Handled next h msg.id)
      (wrap next msg) t h := by
  refine Protocol.safe_call fun t₁ h₁ o₁ _ hinv₁ _ _ => ⟨trivial, ?_⟩
  have hcheck : ((machine next).exec (.isProcessed msg.id) o₁ t₁).1 = .ok (isProcessed t₁ msg.id) ∨
      ∃ err, ((machine next).exec (.isProcessed msg.id) o₁ t₁).1 = .error err := by
    obtain ⟨_, _, dbErr, _, _, _⟩ := o₁
    cases dbErr with
    | none => exact Or.inl rfl
    | some err => exact Or.inr ⟨_, rfl⟩
  rcases hcheck with hcheck | ⟨err, hcheck⟩
  · rw [hcheck]
    cases hp : isProcessed t₁ msg.id with
    | true =>
      -- skipped: there is a marker, so the message has been handled
      have hhandled := hinv₁.handled msg.id ((hinv₁.marked msg.id).1 hp)
      exact Protocol.safe_pure fun _ _ ho _ =>
        hhandled.mono fun _ hev => ho.mem (List.mem_cons_of_mem _ hev)
    | false =>
      have hnew : ¬ Stored h₁ msg.id := fun hs => by
        rw [(hinv₁.marked msg.id).2 hs] at hp
        cases hp
      refine Protocol.safe_call fun t₂ h₂ o₂ ho₂ _ _ _ => ⟨fun hs => hnew ?_, ?_⟩
      · rw [before_of_others ho₂, before_cons rfl] at hs
        exact hs.mono before_suffix
      · generalize hreply : ((machine next).exec (.handle next msg) o₂ t₂).1 = r
        rcases r with (_ | err) | p
        · have hhandled : Handled next (⟨i, .handle next msg, .returned none⟩ :: h₂) msg.id :=
            ⟨i, msg, rfl, List.mem_cons_self⟩
          refine Protocol.safe_call fun t₃ h₃ o₃ ho₃ _ _ _ => ⟨?_, ?_⟩
          · exact hhandled.mono fun _ hev => ho₃.mem hev
          · exact Protocol.safe_pure fun _ _ ho _ =>
              hhandled.mono fun _ hev => ho.mem (List.mem_cons_of_mem _ (ho₃.mem hev))
        · exact Protocol.safe_pure fun _ _ _ => nofun
        · exact Protocol.safe_pure fun _ _ _ => nofun
  · rw [hcheck]
    exact Protocol.safe_pure fun _ _ _ => nofun

theorem safe_delivery (i : ℕ) (t : InboxTable) (h : History (Answer (H := H))) :
    Safe (protocol next).contract i (fun _ _ _ => True) (delivery next) t h := by
  refine Protocol.safe_call fun t₁ h₁ o₁ _ _ _ _ => ⟨trivial, ?_⟩
  refine Protocol.safe_bind (safe_wrap i _ _ _) fun r t₂ h₂ _ hr => ?_
  refine Protocol.safe_call fun t₃ h₃ o₃ ho₃ _ _ _ => ⟨?_, Protocol.safe_pure fun _ _ _ => trivial⟩
  rcases r with (_ | err) | p
  · exact (hr rfl).mono fun _ hev => ho₃.mem hev
  · trivial
  · trivial

/-! ### Whole runs -/

variable (next) in
theorem inv_run (as : List (Action Choice Empty)) :
    Inv next ((Pool.boot (machine next) Sql.Table.empty).run (machine next) as).shared
        ((Pool.boot (machine next) Sql.Table.empty).run (machine next) as).hist ∧
      (protocol next).Kept
        ((Pool.boot (machine next) Sql.Table.empty).run (machine next) as).hist := by
  have hempty : Inv next Sql.Table.empty [] := by
    constructor
    · intro id
      simp [Stored, isProcessed, Sql.Table.empty]
    · rintro id ⟨_, hev, -⟩
      cases hev
  refine (protocol next).run (fun _ _ => trivial) (fun i _ t h _ => safe_delivery i t h) hempty ?_
  exact Along.of_mem _ (fun a _ p => .of_forall (fun _ _ _ _ _ => trivial) p a) _

variable (next) in
/-- **Deliveries to a wrapped handler.**  In every interleaving of deliveries, with any failures,
panics and crashes: a delivery returns nil only after the handler has succeeded for its message ID;
a row of `inbox_events` is there only if the handler has succeeded for its ID; and once it is there,
no delivery of the ID that starts afterwards runs the handler. -/
theorem delivery_guarantees (as : List (Action Choice Empty)) :
    let p := (Pool.boot (machine next) Sql.Table.empty).run (machine next) as
    (∀ l h i msg, p.hist = l ++ ⟨i, .respond msg (.returned none), ()⟩ :: h →
      Handled next h msg.id) ∧
    (∀ r ∈ p.shared, Handled next p.hist r.id) ∧
    ∀ r ∈ p.shared, ∀ bs l h i msg reply,
      (p.run (machine next) bs).hist = l ++ ⟨i, .handle next msg, reply⟩ :: (h ++ p.hist) →
      msg.id = r.id → ∀ ev ∈ h, ev.tid = i → ev.cmd ≠ .receive := by
  intro p
  obtain ⟨hinv, hkept⟩ := inv_run next as
  refine ⟨fun l h i msg heq => ?_, fun r hr => ?_,
    fun r hr bs l h i msg reply heq hid ev hev hi hcmd => ?_⟩
  · have hp := (heq ▸ hkept : (protocol next).Kept _).split
    exact hp
  · exact hinv.handled _ ((hinv.marked _).1 (isProcessed_iff.2 ⟨r, hr, rfl⟩))
  · have hstored : Stored p.hist msg.id :=
      (hinv.marked _).1 (isProcessed_iff.2 ⟨r, hr, hid.symm⟩)
    obtain ⟨-, hkept'⟩ := inv_run next (as ++ bs)
    rw [Pool.run_append] at hkept'
    have hpre := (heq ▸ hkept' : (protocol next).Kept _).split
    exact hpre (hstored.mono (suffix_before hev hi (by rw [hcmd]; rfl)))

end

end WolfCore.Inbox
