import WolfCore.Outbox.Leases

/-!
# What a worker knows at each of its steps

The worker's loop, read as a proof outline.  `pollEntries_safe`, `poll_safe` and `startRound_safe`
are the rules for the loop of `poll`, for `poll` and for one round of `Start`, for any contract;
`relay_knows` uses them with the weakest one: in every run, whatever the other workers, the
environment and the failures do, each step of a worker is as `Knows` says.

* `batch`: the entries the current poll of a worker is working on;
* `Handled`: what makes a worker count an entry as published;
* `Knows`: the precondition of each step.
-/

namespace WolfCore.Outbox

open Go Interleave Sql

/-! ### Rules for the program -/

/-- One round of the loop of `poll`, with its steps written out. -/
theorem handleEntry_eq (w : Worker) (entry : OutboxEntry) : handleEntry w entry =
    if w.maxRetries ≤ entry.retryCount then
      if w.dlqStore then
        .call (.dlqInsert entry (dlqEntryOf entry)) fun r => .pure (r.map fun err =>
          .wrap "outbox: DLQ insert failed for %q: %w" (some entry.id)
            (.wrap "outbox: DLQ insert for %q: %w" (some entry.id) err))
      else .pure none
    else if w.cb then
      .call (.breaker entry) fun
        | some err => .pure (some err)
        | none => .call (.publish entry) .pure
    else .call (.publish entry) .pure := by
  unfold handleEntry
  split_ifs with hmax hdlq hcb
  · simp only [handleExhaustedEntry, hdlq, if_true, moveToDLQ]
    refine congrArg (Prog.call (Cmd.dlqInsert entry (dlqEntryOf entry))) (funext fun r => ?_)
    cases r <;> rfl
  · simp [handleExhaustedEntry, hdlq]
  · simp only [publishEntry, hcb, if_true]
    refine congrArg (Prog.call (Cmd.breaker entry)) (funext fun r => ?_)
    cases r <;> rfl
  · simp only [publishEntry, hcb]
    rfl

/-- An assertion about a poll: what is left of the batch, `publishedIDs` and `failed`. -/
abbrev LoopAssertion :=
  List OutboxEntry → List String → List ReleaseEntry → World → History Reply → Prop

/-- The loop assertion after the round for `entry`. -/
def LoopAssertion.after (I : LoopAssertion) (entry : OutboxEntry) (rest : List OutboxEntry)
    (publishedIDs : List String) (failed : List ReleaseEntry) :
    Option Err → World → History Reply → Prop
  | none => I rest (publishedIDs ++ [entry.id]) failed
  | some err => I rest publishedIDs (failed ++ [⟨entry.id, err⟩])

/-- What holds after `ClaimBatch`: the loop assertion of the batch, or that of an idle worker. -/
def afterClaim (I : List OutboxEntry → LoopAssertion) (J : World → History Reply → Prop) :
    Except Err (List OutboxEntry) → World → History Reply → Prop
  | .ok (entry :: entries) => I (entry :: entries) (entry :: entries) [] []
  | _ => J

section Rules

variable {schema : Schema} {workers : ℕ → Worker} {C : Contract (machine schema workers)} {i : ℕ}
variable (hrefl : ∀ s h, C.rely i s h s h)
include hrefl

/-- The rule for the loop of `poll`: `I rest publishedIDs failed` holds before each round. -/
theorem pollEntries_safe {I : LoopAssertion}
    (hround : ∀ entry rest publishedIDs failed s h, C.inv s h →
      I (entry :: rest) publishedIDs failed s h →
      Safe C i (I.after entry rest publishedIDs failed) (handleEntry (workers i) entry) s h)
    (hstable : ∀ publishedIDs failed s h s₁ h₁, C.rely i s h s₁ h₁ →
      I [] publishedIDs failed s h → I [] publishedIDs failed s₁ h₁)
    (entries : List OutboxEntry) (publishedIDs : List String) (failed : List ReleaseEntry)
    {s : World} {h : History Reply} (hi : C.inv s h) (hI : I entries publishedIDs failed s h) :
    Safe C i (fun r => I [] r.1 r.2) (pollEntries (workers i) entries publishedIDs failed) s h := by
  induction entries generalizing publishedIDs failed s h with
  | nil => exact fun s₁ h₁ hr _ => hstable _ _ _ _ _ _ hr hI
  | cons entry rest ih =>
    refine Safe.bind hrefl hi (hround entry rest publishedIDs failed s h hi hI) ?_
    intro r s₁ h₁ hi₁ hI₁
    cases r with
    | none => exact ih _ _ hi₁ hI₁
    | some err => exact ih _ _ hi₁ hI₁

/-- The rule for `poll`: `I batch rest publishedIDs failed` holds before each round of the loop
over `batch`, and `J` between two polls. -/
theorem poll_safe {J : World → History Reply → Prop} {I : List OutboxEntry → LoopAssertion}
    (hJ : ∀ s h s₁ h₁, C.rely i s h s₁ h₁ → J s h → J s₁ h₁)
    (hclaim : ∀ s h, C.inv s h → J s h → Safe C i (afterClaim I J)
        (Prog.perform (Cmd.claimBatch (workers i).batchSize)) s h)
    (hround : ∀ es entry rest publishedIDs failed s h, C.inv s h →
      I es (entry :: rest) publishedIDs failed s h →
      Safe C i ((I es).after entry rest publishedIDs failed) (handleEntry (workers i) entry) s h)
    (hstable : ∀ es publishedIDs failed s h s₁ h₁, C.rely i s h s₁ h₁ →
      I es [] publishedIDs failed s h → I es [] publishedIDs failed s₁ h₁)
    (hsettle : ∀ entry entries publishedIDs failed s h, C.inv s h →
      I (entry :: entries) [] publishedIDs failed s h →
      Safe C i (fun _ => J) (settle entry.leaseToken publishedIDs failed) s h)
    {s : World} {h : History Reply} (hi : C.inv s h) (hs : J s h) :
    Safe C i (fun _ => J) (poll (workers i)) s h := by
  refine Safe.bind hrefl hi (hclaim s h hi hs) ?_
  intro r s₁ h₁ hi₁ hr
  match r with
  | .error err => exact fun s₂ h₂ hr₂ _ => hJ _ _ _ _ hr₂ hr
  | .ok [] => exact fun s₂ h₂ hr₂ _ => hJ _ _ _ _ hr₂ hr
  | .ok (entry :: entries) =>
    refine Safe.bind hrefl hi₁ (pollEntries_safe hrefl (I := I (entry :: entries))
      (hround (entry :: entries)) (hstable (entry :: entries)) (entry :: entries) [] [] hi₁ hr) ?_
    intro ids s₂ h₂ hi₂ hI
    exact hsettle entry entries ids.1 ids.2 s₂ h₂ hi₂ hI

/-- The rule for the end of `poll`: `K` holds between the two statements. -/
theorem settle_safe {J K : World → History Reply → Prop} {token : String}
    {publishedIDs : List String} {failed : List ReleaseEntry}
    (hJ : ∀ s h s₁ h₁, C.rely i s h s₁ h₁ → J s h → J s₁ h₁) {s : World} {h : History Reply}
    (hi : C.inv s h) (hnone : publishedIDs = [] → K s h)
    (hmark : publishedIDs ≠ [] →
      Safe C i (fun _ => K) (Prog.perform (Cmd.markPublished publishedIDs token)) s h)
    (hdone : failed = [] → ∀ s h, K s h → J s h)
    (hrelease : failed ≠ [] → ∀ s h, C.inv s h → K s h →
      Safe C i (fun _ => J) (Prog.perform (Cmd.releaseClaims failed)) s h) :
    Safe C i (fun _ => J) (settle token publishedIDs failed) s h := by
  have hrest : ∀ s h, C.inv s h → K s h → Safe C i (fun _ => J)
      (if failed ≠ [] then .call (Cmd.releaseClaims failed) fun _ => .pure none
        else (.pure none : Prog Reply (Option Err))) s h := by
    intro s h hi hK
    split_ifs with hf
    · exact Safe.bind hrefl hi (hrelease hf s h hi hK)
        fun _ s₁ h₁ _ hs₁ s₂ h₂ hr _ => hJ _ _ _ _ hr hs₁
    · exact fun s₁ h₁ hr _ => hJ _ _ _ _ hr (hdone (not_not.1 hf) s h hK)
  by_cases hp : publishedIDs = []
  · simpa [settle, hp] using hrest s h hi (hnone hp)
  · simpa [settle, hp] using Safe.bind hrefl hi (hmark hp) fun _ s₁ h₁ hi₁ hK => hrest s₁ h₁ hi₁ hK

/-- The rule for one round of `Start`: `J` holds between any two of waking up, polling and
cleaning up. -/
theorem startRound_safe {J : World → History Reply → Prop}
    (hJ : ∀ s h s₁ h₁, C.rely i s h s₁ h₁ → J s h → J s₁ h₁)
    (hwake : ∀ s h, C.inv s h → J s h → Safe C i (fun _ => J) (Prog.perform Cmd.wake) s h)
    (hpoll : ∀ s h, C.inv s h → J s h → Safe C i (fun _ => J) (poll (workers i)) s h)
    (hcleanup : ∀ s h, C.inv s h → J s h →
      Safe C i (fun _ => J) (Prog.perform (Cmd.cleanup (workers i).retention)) s h)
    (l : Local) {s : World} {h : History Reply} (hi : C.inv s h) (hs : J s h) :
    Safe C i (fun _ => J) (startRound (workers i) l) s h := by
  have hpure : ∀ (l : Local) s h, J s h → Safe C i (fun _ => J) (.pure l) s h :=
    fun l s h hs s₁ h₁ hr _ => hJ _ _ _ _ hr hs
  have hdo : ∀ l s h, C.inv s h → J s h → Safe C i (fun _ => J) (doPoll (workers i) l) s h := by
    intro l s h hi hs
    refine Safe.bind hrefl hi (hpoll s h hi hs) ?_
    intro err s₁ h₁ hi₁ hs₁
    simp only
    split_ifs
    · exact Safe.bind hrefl hi₁ (hcleanup s₁ h₁ hi₁ hs₁) fun _ s₂ h₂ _ hs₂ => hpure _ _ _ hs₂
    · exact hpure _ _ _ hs₁
  refine Safe.bind hrefl hi (hwake s h hi hs) ?_
  intro r s₁ h₁ hi₁ hs₁
  cases r with
  | tick => exact hdo l s₁ h₁ hi₁ hs₁
  | notify =>
    exact Safe.bind hrefl hi₁ (hdo l s₁ h₁ hi₁ hs₁) fun _ s₂ h₂ _ hs₂ => hpure _ _ _ hs₂

end Rules

/-! ### The current poll -/

/-- The entries the last `ClaimBatch` of worker `i` returned. -/
def batch (i : ℕ) : History Reply → List OutboxEntry
  | [] => []
  | ⟨j, .claimBatch _, r⟩ :: h =>
      if j = i then (match r with | .ok es => es | .error _ => []) else batch i h
  | _ :: h => batch i h

theorem batch_cons_of_ne {i : ℕ} {ev : Logged Reply} (hi : ev.tid ≠ i) (h : History Reply) :
    batch i (ev :: h) = batch i h := by
  obtain ⟨j, e, r⟩ := ev
  cases e <;> simp_all [batch]

theorem batch_cons_of_not_claim {i j : ℕ} {e : Cmd} (he : ∀ n, e ≠ .claimBatch n) (r : Reply e)
    (h : History Reply) : batch i (⟨j, e, r⟩ :: h) = batch i h := by
  cases e with
  | claimBatch n => exact absurd rfl (he n)
  | _ => rfl

theorem batch_of_others {i : ℕ} {h h' : History Reply} (ho : Others i h h') :
    batch i h' = batch i h :=
  ho.induct (P := fun h' => batch i h' = batch i h)
    (fun _ h₁ hi hb => (batch_cons_of_ne hi h₁).trans hb) rfl

theorem claimed_of_batch {i : ℕ} {h : History Reply} {entry : OutboxEntry}
    (he : entry ∈ batch i h) : Claimed h i entry := by
  induction h with
  | nil => cases he
  | cons ev h ih =>
    obtain ⟨j, e, r⟩ := ev
    by_cases hc : ∃ n, e = .claimBatch n
    · obtain ⟨n, rfl⟩ := hc
      by_cases hj : j = i
      · subst hj
        cases r with
        | error err => simp [batch] at he
        | ok es => exact ⟨n, es, List.mem_cons_self, by simpa [batch] using he⟩
      · rw [batch_cons_of_ne hj] at he
        exact (ih he).mono fun ev hev => List.mem_cons_of_mem _ hev
    · rw [batch_cons_of_not_claim (fun n hn => hc ⟨n, hn⟩)] at he
      exact (ih he).mono fun ev hev => List.mem_cons_of_mem _ hev

/-- What makes worker `i` count an entry as published: the broker took it, the dead letter queue
took it, or it is exhausted and there is no such queue. -/
def Handled (workers : ℕ → Worker) (i : ℕ) (h : History Reply) (entry : OutboxEntry) : Prop :=
  ⟨i, .publish entry, none⟩ ∈ h ∨ ⟨i, .dlqInsert entry (dlqEntryOf entry), none⟩ ∈ h ∨
    ((workers i).dlqStore = false ∧ (workers i).maxRetries ≤ entry.retryCount)

theorem Handled.mono {workers : ℕ → Worker} {i : ℕ} {h h' : History Reply} {entry : OutboxEntry}
    (hh : ∀ ev ∈ h, ev ∈ h') (ha : Handled workers i h entry) : Handled workers i h' entry := by
  rcases ha with hp | hd | hg
  · exact Or.inl (hh _ hp)
  · exact Or.inr (Or.inl (hh _ hd))
  · exact Or.inr (Or.inr hg)

/-- What worker `i` knows when it executes a command. -/
def Knows (workers : ℕ → Worker) (i : ℕ) (h : History Reply) : Cmd → Prop
  | .publish entry => entry ∈ batch i h ∧ entry.retryCount < (workers i).maxRetries
  | .dlqInsert entry d => entry ∈ batch i h ∧ d = dlqEntryOf entry ∧
      (workers i).maxRetries ≤ entry.retryCount ∧ (workers i).dlqStore = true
  | .markPublished ids token => (∀ entry ∈ batch i h, entry.leaseToken = token) ∧
      ∀ id ∈ ids, ∃ entry ∈ batch i h, entry.id = id ∧ Handled workers i h entry
  | .releaseClaims entries => ∀ r ∈ entries, ∃ entry ∈ batch i h, entry.id = r.id
  | _ => True

/-- What holds before each round of the loop over the batch `es` claimed under `token`. -/
structure Polling (workers : ℕ → Worker) (i : ℕ) (es rest : List OutboxEntry)
    (publishedIDs : List String) (failed : List ReleaseEntry) (h : History Reply) : Prop where
  batch_eq : batch i h = es
  token : ∃ token, ∀ entry ∈ es, entry.leaseToken = token
  rest_mem : ∀ entry ∈ rest, entry ∈ es
  published : ∀ id ∈ publishedIDs, ∃ entry ∈ es, entry.id = id ∧ Handled workers i h entry
  failed : ∀ r ∈ failed, ∃ entry ∈ es, entry.id = r.id

namespace Polling

variable {workers : ℕ → Worker} {i : ℕ} {es rest : List OutboxEntry} {publishedIDs : List String}
  {failed : List ReleaseEntry} {h h' : History Reply}

theorem mono (hp : Polling workers i es rest publishedIDs failed h)
    (hb : batch i h' = batch i h) (hh : ∀ ev ∈ h, ev ∈ h') :
    Polling workers i es rest publishedIDs failed h' where
  batch_eq := hb.trans hp.batch_eq
  token := hp.token
  rest_mem := hp.rest_mem
  published := by
    intro id hid
    obtain ⟨entry, he, rfl, ha⟩ := hp.published id hid
    exact ⟨entry, he, rfl, ha.mono hh⟩
  failed := hp.failed

theorem others (hp : Polling workers i es rest publishedIDs failed h) (ho : Others i h h') :
    Polling workers i es rest publishedIDs failed h' :=
  hp.mono (batch_of_others ho) fun _ hev => ho.mem hev

theorem own (hp : Polling workers i es rest publishedIDs failed h) {e : Cmd}
    (he : ∀ n, e ≠ .claimBatch n) (r : Reply e) :
    Polling workers i es rest publishedIDs failed (⟨i, e, r⟩ :: h) :=
  hp.mono (batch_cons_of_not_claim he r h) fun _ hev => List.mem_cons_of_mem _ hev

theorem publish {entry : OutboxEntry}
    (hp : Polling workers i es (entry :: rest) publishedIDs failed h)
    (ha : Handled workers i h entry) :
    Polling workers i es rest (publishedIDs ++ [entry.id]) failed h where
  batch_eq := hp.batch_eq
  token := hp.token
  rest_mem := fun _ he => hp.rest_mem _ (List.mem_cons_of_mem _ he)
  published := by
    intro id hid
    rcases List.mem_append.1 hid with hid | hid
    · exact hp.published id hid
    · rw [List.mem_singleton.1 hid]
      exact ⟨entry, hp.rest_mem entry List.mem_cons_self, rfl, ha⟩
  failed := hp.failed

theorem fail {entry : OutboxEntry} (hp : Polling workers i es (entry :: rest) publishedIDs failed h)
    (err : Err) : Polling workers i es rest publishedIDs (failed ++ [⟨entry.id, err⟩]) h where
  batch_eq := hp.batch_eq
  token := hp.token
  rest_mem := fun _ he => hp.rest_mem _ (List.mem_cons_of_mem _ he)
  published := hp.published
  failed := by
    intro r hr
    rcases List.mem_append.1 hr with hr | hr
    · exact hp.failed r hr
    · rw [List.mem_singleton.1 hr]
      exact ⟨entry, hp.rest_mem entry List.mem_cons_self, rfl⟩

end Polling

/-! ### Every run -/

section Knowledge

variable (schema : Schema) (workers : ℕ → Worker)

/-- The contract that asks of every step what `Knows` says, and nothing of the others. -/
def knowledge : Contract (machine schema workers) where
  inv := fun _ _ => True
  rely := fun i _ h _ h' => Others i h h'
  idle := fun _ _ _ _ => True
  allowed := fun _ _ _ _ _ => True
  envAllowed := fun _ _ => True
  crashes := True
  ok := fun i e _ _ h => Knows workers i h e

variable {schema workers} {i : ℕ} {h : History Reply} {w : World}

theorem knowledge_call {α : Type} {Q : α → World → History Reply → Prop} {e : Cmd}
    {k : Reply e → Prog Reply α}
    (hk : ∀ w₁ h₁ o, Others i h h₁ → Knows workers i h₁ e ∧
      Safe (knowledge schema workers) i Q (k (exec schema e o w₁).1) (exec schema e o w₁).2
        (⟨i, e, (exec schema e o w₁).1⟩ :: h₁)) :
    Safe (knowledge schema workers) i Q (.call e k) w h := by
  intro w₁ h₁ ho _ o _
  obtain ⟨hp, hsafe⟩ := hk w₁ h₁ o ho
  exact ⟨hp, trivial, fun j hj => Others.cons (Ne.symm hj) h₁, hsafe⟩

theorem knowledge_perform {e : Cmd} (he : ∀ h, Knows workers i h e) :
    Safe (knowledge schema workers) i (fun _ _ _ => True) (Prog.perform e) w h :=
  knowledge_call fun _ h₁ _ _ => ⟨he h₁, fun _ _ _ _ => trivial⟩

/-- The loop assertion of this contract. -/
def polling (workers : ℕ → Worker) (i : ℕ) (es : List OutboxEntry) : LoopAssertion :=
  fun rest publishedIDs failed _ h => Polling workers i es rest publishedIDs failed h

theorem knowledge_publish {es rest : List OutboxEntry} {entry : OutboxEntry}
    {publishedIDs : List String} {failed : List ReleaseEntry}
    (hp : Polling workers i es (entry :: rest) publishedIDs failed h)
    (hlt : entry.retryCount < (workers i).maxRetries) :
    Safe (knowledge schema workers) i ((polling workers i es).after entry rest publishedIDs failed)
      (.call (.publish entry) .pure) w h := by
  refine knowledge_call fun w₁ h₁ o ho => ?_
  have hp₁ := hp.others ho
  refine ⟨⟨hp₁.batch_eq ▸ hp.rest_mem entry List.mem_cons_self, hlt⟩, fun w₂ h₂ ho₂ _ => ?_⟩
  have hp₂ := (hp₁.own (by simp) _).others ho₂
  cases hr : (exec schema (.publish entry) o w₁).1 with
  | none =>
    rw [hr] at ho₂
    exact hp₂.publish (Or.inl (ho₂.mem List.mem_cons_self))
  | some err => exact hp₂.fail err

theorem knowledge_handleEntry {es rest : List OutboxEntry} {entry : OutboxEntry}
    {publishedIDs : List String} {failed : List ReleaseEntry}
    (hp : Polling workers i es (entry :: rest) publishedIDs failed h) :
    Safe (knowledge schema workers) i ((polling workers i es).after entry rest publishedIDs failed)
      (handleEntry (workers i) entry) w h := by
  rw [handleEntry_eq]
  split_ifs with hmax hdlq hcb
  · refine knowledge_call fun w₁ h₁ o ho => ?_
    have hp₁ := hp.others ho
    refine ⟨⟨hp₁.batch_eq ▸ hp.rest_mem entry List.mem_cons_self, rfl, hmax, hdlq⟩,
      fun w₂ h₂ ho₂ _ => ?_⟩
    have hp₂ := (hp₁.own (by simp) _).others ho₂
    cases hr : (exec schema (.dlqInsert entry (dlqEntryOf entry)) o w₁).1 with
    | none =>
      rw [hr] at ho₂
      exact hp₂.publish (Or.inr (Or.inl (ho₂.mem List.mem_cons_self)))
    | some err => exact hp₂.fail _
  · exact fun w₁ h₁ ho _ =>
      (hp.others ho).publish (Or.inr (Or.inr ⟨by simpa using hdlq, hmax⟩))
  · refine knowledge_call fun w₁ h₁ o ho => ⟨trivial, ?_⟩
    have hp₁ := (hp.others ho).own (e := .breaker entry) (by simp)
      (exec schema (.breaker entry) o w₁).1
    cases hr : (exec schema (.breaker entry) o w₁).1 with
    | none => exact knowledge_publish (hr ▸ hp₁) (not_le.1 hmax)
    | some err => exact fun w₂ h₂ ho₂ _ => ((hr ▸ hp₁).others ho₂).fail err
  · exact knowledge_publish hp (not_le.1 hmax)

theorem knowledge_settle {entry : OutboxEntry} {entries : List OutboxEntry}
    {publishedIDs : List String} {failed : List ReleaseEntry}
    (hp : Polling workers i (entry :: entries) [] publishedIDs failed h) :
    Safe (knowledge schema workers) i (fun _ _ _ => True)
      (settle entry.leaseToken publishedIDs failed) w h := by
  refine settle_safe (fun _ h => Others.refl i h)
    (K := fun _ h => Polling workers i (entry :: entries) [] publishedIDs failed h)
    (fun _ _ _ _ _ _ => trivial) trivial (fun _ => hp) (fun _ => ?_) (fun _ _ _ _ => trivial)
    fun _ w₁ h₁ _ hp₁ => ?_
  · refine knowledge_call fun w₁ h₁ o ho => ?_
    have hp₁ := hp.others ho
    refine ⟨⟨fun e he => ?_, fun id hid => ?_⟩,
      fun w₂ h₂ ho₂ _ => (hp₁.own (by simp) _).others ho₂⟩
    · obtain ⟨token, ht⟩ := hp₁.token
      rw [hp₁.batch_eq] at he
      rw [ht e he, ht entry List.mem_cons_self]
    · rw [hp₁.batch_eq]
      exact hp₁.published id hid
  · refine knowledge_call fun w₂ h₂ o ho => ⟨?_, fun _ _ _ _ => trivial⟩
    have hp₂ := hp₁.others ho
    intro r hr
    rw [hp₂.batch_eq]
    exact hp₂.failed r hr

theorem knowledge_claim :
    Safe (knowledge schema workers) i (afterClaim (polling workers i) fun _ _ => True)
      (Prog.perform (Cmd.claimBatch (workers i).batchSize)) w h := by
  refine knowledge_call fun w₁ h₁ o _ => ⟨trivial, fun w₂ h₂ ho₂ _ => ?_⟩
  match hr : (exec schema (.claimBatch (workers i).batchSize) o w₁).1 with
  | .error err => trivial
  | .ok [] => trivial
  | .ok (entry :: entries) =>
    rw [hr] at ho₂
    refine Polling.others ?_ ho₂
    have hes := (claimBatch_ok (exec_claimBatch_ok hr).1).1
    exact ⟨by simp [batch], ⟨o.token, fun e he => (hes e he).1⟩, fun _ he => he, by simp, by simp⟩

theorem knowledge_sound : (knowledge schema workers).Sound where
  refl := fun i _ h => Others.refl i h
  trans := fun ho ho' => ho.trans ho'
  env := fun _ _ h _ _ => ⟨trivial, fun i => Others.refl i h⟩
  crash := fun _ _ _ _ _ => trivial
  body := by
    intro i l w h hi _
    refine startRound_safe (fun _ h => Others.refl i h) (J := fun _ _ => True)
      (fun _ _ _ _ _ _ => trivial) (fun w h _ _ => ?_) (fun w h _ _ => ?_) (fun w h _ _ => ?_)
      l hi trivial
    · exact knowledge_perform fun _ => trivial
    · exact poll_safe (fun _ h => Others.refl i h)
        (I := polling workers i)
        (fun _ _ _ _ _ _ => trivial) (fun _ _ _ _ => knowledge_claim)
        (fun _ _ _ _ _ _ _ _ hp => knowledge_handleEntry hp)
        (fun _ _ _ _ _ _ _ ho hp => hp.others ho)
        (fun _ _ _ _ _ _ _ hp => knowledge_settle hp) trivial trivial
    · exact knowledge_perform fun _ => trivial

/-- **The proof outline of the relay**: in every run, every step of every worker is as `Knows`
says. -/
theorem relay_knows (schema : Schema) (workers : ℕ → Worker) (w : World) (schedule : Schedule) :
    Along (machine schema workers) (OnStep fun i e _ _ h => Knows workers i h e)
      (start workers w) schedule := by
  refine (knowledge_sound.along ?_ ?_).1
  · exact ⟨trivial, fun i _ _ _ _ => trivial⟩
  · exact Contract.admits_all (fun _ _ _ _ _ => trivial) trivial (fun _ _ => trivial) _ schedule

end Knowledge

end WolfCore.Outbox
