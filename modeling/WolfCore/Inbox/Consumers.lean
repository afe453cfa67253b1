import WolfCore.Inbox.Middleware

/-!
# Consumers that share an inbox

Handlers wrapped over one store and subscribed to a stream in memory, when neither the handlers nor
the store fail.  `firstRuns` is what comes of it: a message goes to the first subscriber of its
subject, and only if its ID is new; `handledBy_play` says that this is what the code does.

`everyConsumerRuns_iff` says that messages with distinct IDs are handled by every consumer exactly
if there is one consumer only, and `second_consumer_skips` is a run with two.
-/

namespace WolfCore.Inbox

open Go Interleave Messaging

section

variable {H : Type}

/-! ### Handlers and store that do not fail -/

/-- Nothing fails. -/
def reliable (now : ℤ) : Choice :=
  ⟨⟨"", "", "", StrMap.empty⟩, .returned none, none, false, none, now⟩

variable (now : InboxTable → ℤ)

/-- The program, run alone on the store when nothing fails; the clock of the database is
arbitrary. -/
def runAlone {α : Type} (p : Prog (Answer (H := H)) α) (t : InboxTable) :
    List (Exchange (Answer (H := H))) × α × InboxTable :=
  p.eval (fun e t => exec e (reliable (now t)) t) t

/-- The call of a handler, if the event is one. -/
def handleCall : Exchange (Answer (H := H)) → Option (H × Message)
  | ⟨.handle next msg, _⟩ => some (next, msg)
  | _ => none

/-- The calls of handlers among the events. -/
def handledBy (l : List (Exchange (Answer (H := H)))) : List (H × Message) := l.filterMap handleCall

theorem handledBy_append (l l' : List (Exchange (Answer (H := H)))) :
    handledBy (l ++ l') = handledBy l ++ handledBy l' := List.filterMap_append

theorem runAlone_wrap (next : H) (msg : Message) (t : InboxTable) :
    handledBy (runAlone now (wrap next msg) t).1 =
        (if isProcessed t msg.id = true then [] else [(next, msg)]) ∧
      (runAlone now (wrap next msg) t).2.1 = .returned none ∧
      ∀ id, isProcessed (runAlone now (wrap next msg) t).2.2 id = true ↔
        isProcessed t id = true ∨ id = msg.id := by
  cases hp : isProcessed t msg.id with
  | true =>
    have hrun : runAlone now (wrap next msg) t =
        ([⟨.isProcessed msg.id, .ok true⟩], .returned none, t) := by
      simp [runAlone, wrap, Prog.eval, exec, reliable, hp]
    rw [hrun]
    refine ⟨rfl, rfl, fun id => ⟨Or.inl, ?_⟩⟩
    rintro (h | rfl)
    · exact h
    · exact hp
  | false =>
    have hrun : runAlone now (wrap next msg) t =
        ([⟨.isProcessed msg.id, .ok false⟩, ⟨.handle next msg, .returned none⟩,
          ⟨.markProcessed msg.id (eventTypeOf msg), .ok true⟩], .returned none,
          markProcessed t msg.id (eventTypeOf msg) (now t)) := by
      simp [runAlone, wrap, settle, Prog.eval, exec, reliable, hp]
    rw [hrun]
    exact ⟨rfl, rfl, fun id => isProcessed_markProcessed⟩

/-- A delivery to several wrapped handlers: the first one handles the message, if it is new. -/
theorem runAlone_deliver (msg : Message) (hs : List H) (t : InboxTable) :
    handledBy (runAlone now (deliver msg (hs.map wrap)) t).1 =
        (if isProcessed t msg.id = true then [] else hs.head?.toList.map fun h => (h, msg)) ∧
      ∀ id, isProcessed (runAlone now (deliver msg (hs.map wrap)) t).2.2 id = true ↔
        isProcessed t id = true ∨ hs ≠ [] ∧ id = msg.id := by
  induction hs generalizing t with
  | nil =>
    constructor
    · split_ifs <;> rfl
    · simp [runAlone, deliver, Prog.eval]
  | cons h hs ih =>
    obtain ⟨hhandled, hresult, hmarked⟩ := runAlone_wrap now h msg t
    have hrun : runAlone now (deliver msg ((h :: hs).map wrap)) t =
        ((runAlone now (wrap h msg) t).1 ++
            (runAlone now (deliver msg (hs.map wrap)) (runAlone now (wrap h msg) t).2.2).1,
          (runAlone now (deliver msg (hs.map wrap)) (runAlone now (wrap h msg) t).2.2).2) := by
      simp only [runAlone] at hresult ⊢
      rw [List.map_cons, deliver, Prog.eval_bind, hresult]
    obtain ⟨hrest, hmarkedRest⟩ := ih (runAlone now (wrap h msg) t).2.2
    -- after the first delivery the message is marked, whether it was handled or skipped
    have hseen : isProcessed (runAlone now (wrap h msg) t).2.2 msg.id = true :=
      (hmarked msg.id).2 (Or.inr rfl)
    rw [if_pos hseen] at hrest
    rw [hrun]
    constructor
    · rw [handledBy_append, hhandled, hrest, List.append_nil]
      rfl
    · intro id
      rw [hmarkedRest, hmarked]
      constructor
      · rintro ((hid | hid) | ⟨-, hid⟩)
        · exact Or.inl hid
        · exact Or.inr ⟨by simp, hid⟩
        · exact Or.inr ⟨by simp, hid⟩
      · rintro (hid | ⟨-, hid⟩)
        · exact Or.inl (Or.inl hid)
        · exact Or.inl (Or.inr hid)

/-! ### What the consumers get -/

/-- An operation on the stream: a handler is wrapped and subscribed, or a message is published. -/
inductive Op (H : Type)
  | subscribe (subject : String) (consumer : H)
  | publish (subject : String) (msg : RawMessage)

def play (s : InprocessStream (Answer (H := H))) : List (Op H) → Prog (Answer (H := H)) Unit
  | [] => .pure ()
  | .subscribe subject consumer :: ops => play (s.subscribe subject (wrap consumer)) ops
  | .publish subject msg :: ops => (s.publish subject msg).bind fun _ => play s ops

/-- The consumers of each subject after one more subscription. -/
def addConsumer (c : String → List H) (subject : String) (consumer : H) : String → List H :=
  Function.update c subject (c subject ++ [consumer])

/-- The calls of handlers: the first consumer of its subject gets a message whose ID is new. -/
def firstRuns (c : String → List H) (seen : List String) : List (Op H) → List (H × Message)
  | [] => []
  | .subscribe subject consumer :: ops => firstRuns (addConsumer c subject consumer) seen ops
  | .publish subject msg :: ops =>
      match c subject with
      | [] => firstRuns c seen ops
      | h :: _ =>
          if msg.id ∈ seen then firstRuns c seen ops
          else (h, inprocessMessage subject msg) :: firstRuns c (msg.id :: seen) ops

/-- The stream of consumers that are all wrapped. -/
def streamOf (c : String → List H) : InprocessStream (Answer (H := H)) :=
  fun subject => (c subject).map wrap

theorem streamOf_subscribe (c : String → List H) (subject : String) (consumer : H) :
    (streamOf c).subscribe subject (wrap consumer) = streamOf (addConsumer c subject consumer) := by
  funext subject'
  unfold InprocessStream.subscribe streamOf addConsumer
  by_cases h : subject' = subject
  · subst h
    simp
  · simp [Function.update_of_ne h]

/-- **What the code does with a sequence of operations**, in terms of the IDs in the store. -/
theorem handledBy_play (ops : List (Op H)) (c : String → List H) (seen : List String)
    (t : InboxTable) (hseen : ∀ id, isProcessed t id = true ↔ id ∈ seen) :
    handledBy (runAlone now (play (streamOf c) ops) t).1 = firstRuns c seen ops := by
  induction ops generalizing c seen t with
  | nil => rfl
  | cons op ops ih =>
    cases op with
    | subscribe subject consumer =>
      rw [play, streamOf_subscribe]
      exact ih _ seen t hseen
    | publish subject msg =>
      obtain ⟨hhandled, hmarked⟩ :=
        runAlone_deliver now (inprocessMessage subject msg) (c subject) t
      have hrun : (runAlone now (play (streamOf c) (.publish subject msg :: ops)) t).1 =
          (runAlone now (deliver (inprocessMessage subject msg) ((c subject).map wrap)) t).1 ++
            (runAlone now (play (streamOf c) ops) (runAlone now
              (deliver (inprocessMessage subject msg) ((c subject).map wrap)) t).2.2).1 := by
        unfold runAlone
        rw [play, Prog.eval_bind]
        rfl
      have hid : (inprocessMessage subject msg).id = msg.id := rfl
      rw [hid] at hhandled hmarked
      -- the rest runs on the IDs seen so far, and this one if anybody was there to see it
      have hrest : ∀ seen', (∀ id, id ∈ seen' ↔ id ∈ seen ∨ c subject ≠ [] ∧ id = msg.id) →
          handledBy (runAlone now (play (streamOf c) ops) (runAlone now
            (deliver (inprocessMessage subject msg) ((c subject).map wrap)) t).2.2).1 =
          firstRuns c seen' ops :=
        fun seen' h => ih c seen' _ fun id => by rw [hmarked, hseen, h]
      rw [hrun, handledBy_append, hhandled, firstRuns]
      cases hc : c subject with
      | nil =>
        rw [hc] at hrest
        rw [hrest seen (by simp)]
        split_ifs <;> rfl
      | cons h hs =>
        rw [hc] at hrest
        by_cases hmem : msg.id ∈ seen
        · rw [hrest seen (fun id => ⟨Or.inl, fun hor => hor.elim (fun h => h) fun h => h.2 ▸ hmem⟩),
            if_pos ((hseen _).2 hmem)]
          exact (if_pos hmem).symm
        · rw [hrest (msg.id :: seen) (by simp [or_comm]), if_neg (fun hp => hmem ((hseen _).1 hp))]
          exact (if_neg hmem).symm

/-! ### Distinct messages and several consumers -/

def publishedIDs (ops : List (Op H)) : List String :=
  ops.filterMap fun
    | .publish _ msg => some msg.id
    | .subscribe _ _ => none

def consumersAfter (c : String → List H) : List (Op H) → String → List H
  | [] => c
  | .subscribe subject consumer :: ops => consumersAfter (addConsumer c subject consumer) ops
  | .publish _ _ :: ops => consumersAfter c ops

theorem mem_consumersAfter {ops : List (Op H)} {c : String → List H} {subject : String} {h : H} :
    h ∈ consumersAfter c ops subject ↔ h ∈ c subject ∨ Op.subscribe subject h ∈ ops := by
  induction ops generalizing c with
  | nil => simp [consumersAfter]
  | cons op ops ih =>
    cases op with
    | publish subject' msg => simp [consumersAfter, ih]
    | subscribe subject' consumer =>
      rw [consumersAfter, ih, addConsumer]
      by_cases hs : subject = subject'
      · subst hs
        simp [or_assoc]
      · simp [hs]

theorem id_mem_publishedIDs {ops : List (Op H)} {c : String → List H} {seen : List String}
    {h : H} {m : Message} (hm : (h, m) ∈ firstRuns c seen ops) : m.id ∈ publishedIDs ops := by
  induction ops generalizing c seen with
  | nil => cases hm
  | cons op ops ih =>
    cases op with
    | subscribe subject consumer => exact ih hm
    | publish subject msg =>
      simp only [firstRuns] at hm
      split at hm
      · exact List.mem_cons_of_mem _ (ih hm)
      · split_ifs at hm
        · exact List.mem_cons_of_mem _ (ih hm)
        · rcases List.mem_cons.1 hm with heq | hm
          · cases heq
            exact List.mem_cons_self
          · exact List.mem_cons_of_mem _ (ih hm)

/-- Which consumer gets a message, if no other message has its ID. -/
theorem mem_firstRuns {pre post : List (Op H)} {subject : String} {msg : RawMessage}
    {c : String → List H} {seen : List String}
    (hids : (publishedIDs (pre ++ .publish subject msg :: post)).Nodup) {h : H} :
    (h, inprocessMessage subject msg) ∈ firstRuns c seen (pre ++ .publish subject msg :: post) ↔
      msg.id ∉ seen ∧ (consumersAfter c pre subject).head? = some h := by
  induction pre generalizing c seen with
  | nil =>
    have hpost : ∀ c' seen', (h, inprocessMessage subject msg) ∉ firstRuns c' seen' post :=
      fun c' seen' hm => (List.nodup_cons.1 hids).1 (id_mem_publishedIDs hm)
    simp only [List.nil_append, firstRuns, consumersAfter]
    cases c subject with
    | nil => simp [hpost]
    | cons h' hs =>
      dsimp only
      split_ifs with hseen
      · simp [hpost, hseen]
      · simp [hpost, hseen, eq_comm]
  | cons op pre ih =>
    cases op with
    | subscribe subject' consumer => exact ih hids
    | publish subject' msg' =>
      obtain ⟨hnew, hids'⟩ := List.nodup_cons.1 hids
      have hne : msg.id ≠ msg'.id := by
        rintro heq
        refine hnew (heq ▸ ?_)
        simp
      simp only [List.cons_append, firstRuns, consumersAfter]
      split
      · exact ih hids'
      · split_ifs
        · exact ih hids'
        · rw [List.mem_cons, ih hids']
          have hpair :
              ∀ h', (h, inprocessMessage subject msg) ≠ (h', inprocessMessage subject' msg') :=
            fun h' heq => hne (congrArg (fun p => p.2.id) heq)
          simp [hpair, hne]

/-- Every consumer handles each message that is published on its subject after it subscribed. -/
def EveryConsumerRuns (ops : List (Op H)) (t : InboxTable) : Prop :=
  ∀ pre subject msg post, ops = pre ++ .publish subject msg :: post →
    ∀ h, .subscribe subject h ∈ pre →
      (h, inprocessMessage subject msg) ∈ handledBy (runAlone now (play .new ops) t).1

/-- Whenever a message is published, its ID is not in the store from before and all consumers of its
subject are one and the same. -/
def OneConsumer (ops : List (Op H)) (t : InboxTable) : Prop :=
  ∀ pre subject msg post, ops = pre ++ .publish subject msg :: post →
    ∀ h, .subscribe subject h ∈ pre →
      isProcessed t msg.id = false ∧ ∀ h', .subscribe subject h' ∈ pre → h' = h

/-- **When every consumer gets every message**: messages with distinct IDs are handled by all
consumers exactly if each is published to at most one. -/
theorem everyConsumerRuns_iff (ops : List (Op H)) (hids : (publishedIDs ops).Nodup)
    (t : InboxTable) : EveryConsumerRuns now ops t ↔ OneConsumer ops t := by
  have hseen := isProcessed_iff_mem t
  have hplay := handledBy_play now ops (fun _ => []) _ t hseen
  unfold EveryConsumerRuns OneConsumer
  refine forall_congr' fun pre => forall_congr' fun subject => forall_congr' fun msg =>
    forall_congr' fun post => forall_congr' fun heq => ?_
  subst heq
  have hmem : ∀ h, h ∈ consumersAfter (fun _ => []) pre subject ↔ Op.subscribe subject h ∈ pre := by
    simp [mem_consumersAfter]
  change (∀ h, _ → _ ∈ handledBy (runAlone now (play (streamOf fun _ => []) _) t).1) ↔ _
  rw [hplay]
  simp only [mem_firstRuns hids, ← hmem, ← hseen, Bool.not_eq_true]
  constructor
  · rintro hall h hh
    obtain ⟨hnew, hhead⟩ := hall h hh
    refine ⟨hnew, fun h' hh' => ?_⟩
    have hhead' := (hall h' hh').2
    rw [hhead] at hhead'
    exact (Option.some.inj hhead').symm
  · rintro hall h hh
    obtain ⟨hnew, hsame⟩ := hall h hh
    refine ⟨hnew, ?_⟩
    cases hc : consumersAfter (fun _ => []) pre subject with
    | nil =>
      rw [hc] at hh
      cases hh
    | cons h' hs =>
      rw [hc] at hsame
      rw [List.head?_cons, hsame h' List.mem_cons_self]

end

/-! ### Two consumers -/

def orderPlaced (id : String) : RawMessage :=
  ⟨id, "order.placed", "orders", "\x7b\x7d", StrMap.empty⟩

def oneConsumer : List (Op String) :=
  [.subscribe "orders" "billing", .publish "orders" (orderPlaced "m1"),
    .publish "orders" (orderPlaced "m2")]

theorem everyConsumerRuns_iff_oneConsumer : OneConsumer oneConsumer Sql.Table.empty ∧
    EveryConsumerRuns (fun _ => 0) oneConsumer Sql.Table.empty := by
  have hone : OneConsumer oneConsumer Sql.Table.empty := by
    intro pre subject msg post heq h hh
    have hsub : ∀ h', Op.subscribe subject h' ∈ oneConsumer → h' = "billing" := by
      intro h' hh'
      simp [oneConsumer] at hh'
      exact hh'.2
    have hpre : ∀ h', Op.subscribe subject h' ∈ pre → h' = "billing" :=
      fun h' hh' => hsub h' (heq ▸ List.mem_append_left _ hh')
    exact ⟨rfl, fun h' hh' => (hpre h' hh').trans (hpre h hh).symm⟩
  exact ⟨hone, (everyConsumerRuns_iff (fun _ => 0) oneConsumer (by decide) _).2 hone⟩

def twoConsumers : List (Op String) :=
  [.subscribe "orders" "billing", .subscribe "orders" "shipping",
    .publish "orders" (orderPlaced "m1")]

/-- The second consumer never handles the message. -/
theorem second_consumer_skips :
    handledBy (runAlone (fun _ => 0) (play .new twoConsumers) Sql.Table.empty).1 =
        [("billing", inprocessMessage "orders" (orderPlaced "m1"))] ∧
      ¬ EveryConsumerRuns (fun _ => 0) twoConsumers Sql.Table.empty := by
  have hrun : handledBy (runAlone (fun _ => 0) (play .new twoConsumers) Sql.Table.empty).1 =
      [("billing", inprocessMessage "orders" (orderPlaced "m1"))] := by
    rfl
  refine ⟨hrun, fun h => ?_⟩
  have hshipping := h [.subscribe "orders" "billing", .subscribe "orders" "shipping"] "orders"
    (orderPlaced "m1") [] rfl "shipping" (by simp)
  rw [hrun, List.mem_singleton, Prod.mk.injEq] at hshipping
  exact absurd hshipping.1 (by decide)

end WolfCore.Inbox
