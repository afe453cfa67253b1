import WolfCore.Lib.Execution

/-!
# Calls in a history

Threads that serve calls start each of them with a command of its own.  `before` is the history in
front of the last such command of a thread, so an event in it lies before the call the thread is
serving, and one outside of it does not; `since` is what has happened since.

* `before_of_others`: what other threads do does not move the start of a call;
* `suffix_before`: a call that started after some point has everything up to that point before it;
* `Throughout.split`: what holds throughout a history holds of each event with what is before it;
* `outstanding`: an event of one kind has not been followed by one of another kind yet;
* `within`: the threads that are between an event of one kind and one of another kind.

A `Protocol` is a contract for threads that remember only what they have done themselves: each
command has a precondition on the history, and a command whose precondition holds keeps an invariant
of the state and the history.  In every admitted run, the preconditions hold throughout the history
and the invariant holds at the end (`Protocol.run`).
-/

namespace Interleave

variable {E : Type} {R : E → Type}

/-- A suffix that starts with an event of the older part lies in the older part. -/
theorem suffix_of_not_mem {l h h' : History R} {ev : Logged R} (hs : (ev :: h') <:+ l ++ h)
    (hev : ev ∉ l) : (ev :: h') <:+ h := by
  induction l with
  | nil => exact hs
  | cons ev' l ih =>
    rw [List.cons_append, List.suffix_cons_iff] at hs
    rcases hs with heq | hs
    · cases heq
      exact absurd List.mem_cons_self hev
    · exact ih hs fun hmem => hev (List.mem_cons_of_mem _ hmem)

/-- What holds throughout a history holds of each of its events. -/
theorem Throughout.split {P : Logged R → History R → Prop} {l h : History R} {ev : Logged R}
    (hP : Throughout P (l ++ ev :: h)) : P ev h := by
  induction l with
  | nil => exact hP.1
  | cons ev' l ih => exact ih hP.2

theorem Throughout.mono {P Q : Logged R → History R → Prop} {h : History R} (hP : Throughout P h)
    (hPQ : ∀ ev h, P ev h → Q ev h) : Throughout Q h := by
  induction h with
  | nil => trivial
  | cons ev h ih => exact ⟨hPQ ev h hP.1, ih hP.2⟩

theorem Throughout.suffix {P : Logged R → History R → Prop} {h h' : History R} (hs : h' <:+ h)
    (hP : Throughout P h) : Throughout P h' := by
  obtain ⟨l, rfl⟩ := hs
  induction l with
  | nil => exact hP
  | cons ev l ih => exact ih hP.2

theorem Throughout.mem {P : Logged R → History R → Prop} {h : History R} (hP : Throughout P h)
    {ev : Logged R} (hev : ev ∈ h) : ∃ h', h' <:+ h ∧ P ev h' := by
  obtain ⟨l, h', rfl⟩ := List.append_of_mem hev
  exact ⟨h', (List.suffix_cons ev h').trans (List.suffix_append l _), hP.split⟩

/-- Whatever held at an event also held at every event before it. -/
theorem Throughout.with_past {P : Logged R → History R → Prop} {h : History R}
    (hP : Throughout P h) :
    Throughout (fun ev h => P ev h ∧ Throughout P h) h := by
  induction h with
  | nil => trivial
  | cons ev h ih => exact ⟨⟨hP.1, hP.2⟩, ih hP.2⟩

theorem Throughout.and {P Q : Logged R → History R → Prop} {h : History R} (hP : Throughout P h)
    (hQ : Throughout Q h) : Throughout (fun ev h => P ev h ∧ Q ev h) h := by
  induction h with
  | nil => trivial
  | cons ev h ih => exact ⟨⟨hP.1, hQ.1⟩, ih hP.2 hQ.2⟩

instance Throughout.decidable {P : Logged R → History R → Prop} [∀ ev h, Decidable (P ev h)] :
    (h : History R) → Decidable (Throughout P h)
  | [] => .isTrue trivial
  | _ :: h => @instDecidableAnd _ _ _ (Throughout.decidable h)

/-- What holds of every event exactly if `B` holds of it with what is before it. -/
theorem Throughout.forall_iff {A : Logged R → Prop} {B : Logged R → History R → Prop}
    {h : History R}
    (hAB : Throughout (fun ev h => A ev ↔ B ev h) h) : (∀ ev ∈ h, A ev) ↔ Throughout B h := by
  induction h with
  | nil => exact iff_of_true (by simp) trivial
  | cons ev h ih =>
    have hev : A ev ↔ B ev h := hAB.1
    rw [List.forall_mem_cons, ih hAB.2, hev]
    rfl

theorem Pool.run_append {S O L A : Type} (m : Machine R S O L A) (p : Pool R S L)
    (as bs : List (Action O A)) : p.run m (as ++ bs) = (p.run m as).run m bs := by
  induction as generalizing p with
  | nil => rfl
  | cons a as ih => exact ih (p.advance m a)

/-- What a run adds to the history, while the state has a property that the run keeps. -/
theorem Pool.hist_of_kept {S O L A : Type} {m : Machine R S O L A} {K : S → Prop}
    {N : Logged R → Prop} (hexec : ∀ i e o s, K s → K (m.exec e o s).2 ∧ N ⟨i, e, (m.exec e o s).1⟩)
    {as : List (Action O A)} (henv : ∀ a, .env a ∈ as → ∀ s, K s → K (m.env a s)) {p : Pool R S L}
    (hp : K p.shared) : ∃ l, (p.run m as).hist = l ++ p.hist ∧ ∀ ev ∈ l, N ev := by
  induction as generalizing p with
  | nil => exact ⟨[], rfl, nofun⟩
  | cons a as ih =>
    have hstep : K (p.advance m a).shared ∧
        ∃ l, (p.advance m a).hist = l ++ p.hist ∧ ∀ ev ∈ l, N ev := by
      cases a with
      | step i o =>
        simp only [Pool.advance]
        cases p.thread i with
        | pure _ => exact ⟨hp, [], rfl, nofun⟩
        | call e k =>
          obtain ⟨hK, hN⟩ := hexec i e o p.shared hp
          exact ⟨hK, [_], rfl, by simpa using hN⟩
      | resume i =>
        simp only [Pool.advance]
        cases p.thread i <;> exact ⟨hp, [], rfl, nofun⟩
      | crash i => exact ⟨hp, [], rfl, nofun⟩
      | env a => exact ⟨henv a List.mem_cons_self _ hp, [], rfl, nofun⟩
    obtain ⟨hK, l, hl, hN⟩ := hstep
    obtain ⟨l', hl', hN'⟩ := ih (fun a ha => henv a (List.mem_cons_of_mem _ ha)) hK
    refine ⟨l' ++ l, ?_, fun ev hev => ?_⟩
    · rw [Pool.run, hl', hl, List.append_assoc]
    · rcases List.mem_append.1 hev with hev | hev
      · exact hN' ev hev
      · exact hN ev hev

section Before

variable (isStart : E → Bool)

/-- The history before the last command of thread `i` that starts a call. -/
def before (i : ℕ) : History R → History R
  | [] => []
  | ev :: h => if ev.tid = i ∧ isStart ev.cmd = true then h else before i h

variable {isStart} {i : ℕ} {h : History R}

theorem before_cons_eq (ev : Logged R) : before isStart i (ev :: h) =
    if ev.tid = i ∧ isStart ev.cmd = true then h else before isStart i h := rfl

theorem before_cons {ev : Logged R} (hev : isStart ev.cmd = false) :
    before isStart i (ev :: h) = before isStart i h := if_neg fun he => by simp [hev] at he

theorem before_cons_of_ne {ev : Logged R} (hi : ev.tid ≠ i) :
    before isStart i (ev :: h) = before isStart i h := if_neg fun he => hi he.1

theorem before_of_others {h' : History R} (ho : Others i h h') :
    before isStart i h' = before isStart i h :=
  ho.induct (P := fun h' => before isStart i h' = before isStart i h)
    (fun _ _ hi hP => (before_cons_of_ne hi).trans hP) rfl

theorem before_suffix : before isStart i h <:+ h := by
  induction h with
  | nil => exact List.suffix_rfl
  | cons ev h ih =>
    rw [before_cons_eq]
    split_ifs
    · exact List.suffix_cons ev h
    · exact ih.trans (List.suffix_cons ev h)

/-- If thread `i` started a call since `h`, then `h` is before its last call. -/
theorem suffix_before {l : History R} {ev : Logged R} (hev : ev ∈ l) (hi : ev.tid = i)
    (hs : isStart ev.cmd = true) : h <:+ before isStart i (l ++ h) := by
  induction l with
  | nil => cases hev
  | cons ev' l ih =>
    rw [List.cons_append]
    rw [before_cons_eq]
    split_ifs with hstart
    · exact List.suffix_append l h
    · rcases List.mem_cons.1 hev with rfl | hev
      · exact absurd ⟨hi, hs⟩ hstart
      · exact ih hev

/-- The command that started the last call of thread `i`, if it has started one. -/
theorem exists_start {ev : Logged R} (hev : ev ∈ h) (hi : ev.tid = i) (hs : isStart ev.cmd = true) :
    ∃ l start, h = l ++ start :: before isStart i h ∧ start.tid = i ∧
      isStart start.cmd = true := by
  induction h with
  | nil => cases hev
  | cons ev' h ih =>
    rw [before_cons_eq]
    split_ifs with hstart
    · exact ⟨[], ev', rfl, hstart⟩
    · rcases List.mem_cons.1 hev with rfl | hev
      · exact absurd ⟨hi, hs⟩ hstart
      · obtain ⟨l, start, heq, hstart'⟩ := ih hev
        exact ⟨ev' :: l, start, congrArg (ev' :: ·) heq, hstart'⟩

variable (isStart) in
/-- What has happened since the last command of thread `i` that starts a call. -/
def since (i : ℕ) : History R → History R
  | [] => []
  | ev :: h => if ev.tid = i ∧ isStart ev.cmd = true then [] else ev :: since i h

theorem since_cons_eq (ev : Logged R) : since isStart i (ev :: h) =
    if ev.tid = i ∧ isStart ev.cmd = true then [] else ev :: since isStart i h := rfl

theorem mem_of_mem_since {ev : Logged R} (hev : ev ∈ since isStart i h) : ev ∈ h := by
  induction h with
  | nil => cases hev
  | cons ev' h ih =>
    rw [since_cons_eq] at hev
    split_ifs at hev
    · cases hev
    · rcases List.mem_cons.1 hev with rfl | hev
      · exact List.mem_cons_self
      · exact List.mem_cons_of_mem _ (ih hev)

theorem mem_since_cons {ev ev' : Logged R} (hev' : isStart ev'.cmd = false) :
    ev ∈ since isStart i (ev' :: h) ↔ ev = ev' ∨ ev ∈ since isStart i h := by
  rw [since_cons_eq, if_neg fun he => by simp [hev'] at he, List.mem_cons]

theorem mem_since_mono {h' : History R} (ho : Others i h h') {ev : Logged R}
    (hev : ev ∈ since isStart i h) : ev ∈ since isStart i h' :=
  ho.induct (P := fun h' => ev ∈ since isStart i h') (fun ev' h₁ hne hP => by
    rw [since_cons_eq, if_neg fun he => hne he.1]
    exact List.mem_cons_of_mem _ hP) hev

/-- What other threads do does not add to what thread `i` has done. -/
theorem mem_since_of_others {h' : History R} (ho : Others i h h') {ev : Logged R} (hi : ev.tid = i)
    (hev : ev ∈ since isStart i h') : ev ∈ since isStart i h := by
  refine ho.induct (P := fun h' => ev ∈ since isStart i h' → ev ∈ since isStart i h)
    (fun ev' h₁ hne hP hmem => hP ?_) (fun hmem => hmem) hev
  rw [since_cons_eq, if_neg fun he => hne he.1] at hmem
  rcases List.mem_cons.1 hmem with rfl | hmem
  · exact absurd hi hne
  · exact hmem

end Before

section Outstanding

variable (P Q : Logged R → Bool)

/-- Some event with `P` is still without one with `Q` after it. -/
def outstanding : History R → Bool
  | [] => false
  | ev :: h => P ev || (!Q ev && outstanding h)

variable {P Q} {ev : Logged R} {h : History R}

theorem outstanding_cons_eq (ev : Logged R) :
    outstanding P Q (ev :: h) = (P ev || (!Q ev && outstanding P Q h)) := rfl

theorem outstanding_cons_of (hP : P ev = true) : outstanding P Q (ev :: h) = true := by
  rw [outstanding_cons_eq, hP, Bool.true_or]

theorem outstanding_cons_of_answer (hP : P ev = false) (hQ : Q ev = true) :
    outstanding P Q (ev :: h) = false := by
  rw [outstanding_cons_eq, hP, hQ]
  rfl

theorem outstanding_cons_of_not (hP : P ev = false) (hQ : Q ev = false) :
    outstanding P Q (ev :: h) = outstanding P Q h := by
  rw [outstanding_cons_eq, hP, hQ]
  rfl

theorem not_outstanding_cons (hP : P ev = false) (hout : outstanding P Q h = false) :
    outstanding P Q (ev :: h) = false := by
  rw [outstanding_cons_eq, hP, hout, Bool.and_false]
  rfl

theorem outstanding_append {l : History R} (hQ : ∀ ev ∈ l, Q ev = false) :
    outstanding P Q (l ++ h) = (l.any P || outstanding P Q h) := by
  induction l with
  | nil => rfl
  | cons ev l ih =>
    rw [List.forall_mem_cons] at hQ
    rw [List.cons_append, outstanding_cons_eq, hQ.1, ih hQ.2, List.any_cons, Bool.or_assoc]
    rfl

/-- If none is outstanding, every event with `P` has one with `Q` after it. -/
theorem answered_of_not_outstanding {l : History R}
    (hout : outstanding P Q (l ++ ev :: h) = false) (hP : P ev = true) :
    ∃ q ∈ l, Q q = true := by
  induction l with
  | nil =>
    rw [List.nil_append, outstanding_cons_of hP] at hout
    cases hout
  | cons ev' l ih =>
    cases hQ : Q ev' with
    | true => exact ⟨ev', List.mem_cons_self, hQ⟩
    | false =>
      rw [List.cons_append, outstanding_cons_eq, hQ, Bool.or_eq_false_iff] at hout
      obtain ⟨q, hq, hQq⟩ := ih (by simpa using hout.2)
      exact ⟨q, List.mem_cons_of_mem _ hq, hQq⟩

end Outstanding

section Within

variable (opens closes : Logged R → Bool)

/-- The threads whose last event of the two kinds is one that opens. -/
def within : History R → Finset ℕ
  | [] => ∅
  | ev :: h =>
      if opens ev then insert ev.tid (within h)
      else if closes ev then (within h).erase ev.tid
      else within h

variable {opens closes} {i : ℕ} {ev : Logged R} {h h' : History R}

theorem within_cons_eq (ev : Logged R) : within opens closes (ev :: h) =
    if opens ev then insert ev.tid (within opens closes h)
    else if closes ev then (within opens closes h).erase ev.tid
    else within opens closes h := rfl

theorem within_cons_of_opens (ho : opens ev = true) :
    within opens closes (ev :: h) = insert ev.tid (within opens closes h) := if_pos ho

theorem within_cons_of_closes (ho : opens ev = false) (hc : closes ev = true) :
    within opens closes (ev :: h) = (within opens closes h).erase ev.tid := by
  simp [within_cons_eq, ho, hc]

theorem within_cons_of_not (ho : opens ev = false) (hc : closes ev = false) :
    within opens closes (ev :: h) = within opens closes h := by simp [within_cons_eq, ho, hc]

theorem mem_within_cons_of_ne (hi : ev.tid ≠ i) :
    i ∈ within opens closes (ev :: h) ↔ i ∈ within opens closes h := by
  rw [within_cons_eq]
  split_ifs
  · rw [Finset.mem_insert, or_iff_right (Ne.symm hi)]
  · rw [Finset.mem_erase, and_iff_right (Ne.symm hi)]
  · rfl

theorem mem_within_of_others (ho : Others i h h') :
    i ∈ within opens closes h' ↔ i ∈ within opens closes h :=
  ho.induct (P := fun h' => i ∈ within opens closes h' ↔ i ∈ within opens closes h)
    (fun _ _ hi hP => (mem_within_cons_of_ne hi).trans hP) Iff.rfl

theorem exists_of_mem_within (hi : i ∈ within opens closes h) :
    ∃ ev ∈ h, ev.tid = i ∧ opens ev = true := by
  induction h with
  | nil => exact absurd hi (Finset.notMem_empty i)
  | cons ev h ih =>
    by_cases hev : ev.tid = i ∧ opens ev = true
    · exact ⟨ev, List.mem_cons_self, hev⟩
    · have hmem : i ∈ within opens closes h := by
        rw [within_cons_eq] at hi
        split_ifs at hi with ho hc
        · exact (Finset.mem_insert.1 hi).resolve_left fun heq => hev ⟨heq.symm, ho⟩
        · exact Finset.mem_of_mem_erase hi
        · exact hi
      obtain ⟨ev', hmem', h'⟩ := ih hmem
      exact ⟨ev', List.mem_cons_of_mem _ hmem', h'⟩

/-- Fewer events that open leave fewer threads within. -/
theorem within_mono {opens' : Logged R → Bool} (ho : ∀ ev, opens ev = true → opens' ev = true)
    (h : History R) : within opens closes h ⊆ within opens' closes h := by
  induction h with
  | nil => exact subset_rfl
  | cons ev h ih =>
    rw [within_cons_eq, within_cons_eq]
    by_cases hev : opens ev = true
    · rw [if_pos hev, if_pos (ho ev hev)]
      exact Finset.insert_subset_insert _ ih
    · rw [if_neg hev]
      split_ifs with hev' hc hc
      · exact ((Finset.erase_subset _ _).trans ih).trans (Finset.subset_insert _ _)
      · exact Finset.erase_subset_erase _ ih
      · exact ih.trans (Finset.subset_insert _ _)
      · exact ih

end Within

section Protocol

variable {S O L A : Type}

/-- All threads before their first round. -/
def Pool.boot (m : Machine R S O L A) (s : S) : Pool R S L := ⟨s, [], fun i => .pure (m.boot i)⟩

/-- Preconditions of commands, and an invariant they keep. -/
structure Protocol (m : Machine R S O L A) where
  inv : S → History R → Prop
  /-- the precondition of a command of thread `i` -/
  pre : ℕ → (e : E) → History R → Prop
  /-- what thread `i` knows between two rounds -/
  idle : ℕ → L → History R → Prop
  /-- the commands admitted in the runs under consideration -/
  allowed : ℕ → (e : E) → O → S → History R → Prop
  step : ∀ {i e o s h}, inv s h → Throughout (fun ev h => pre ev.tid ev.cmd h) h → pre i e h →
    allowed i e o s h → inv (m.exec e o s).2 (⟨i, e, (m.exec e o s).1⟩ :: h)
  env : ∀ {a s h}, inv s h → inv (m.env a s) h

namespace Protocol

variable {m : Machine R S O L A} (P : Protocol m)

/-- The preconditions held whenever a command was executed. -/
def Kept (h : History R) : Prop := Throughout (fun ev h => P.pre ev.tid ev.cmd h) h

/-- The contract of a protocol.  Threads may crash if one that starts needs to know nothing. -/
def contract : Contract m where
  inv := fun s h => P.inv s h ∧ P.Kept h
  rely := fun i _ h _ h' => Others i h h'
  idle := fun i l _ h => P.idle i l h
  allowed := P.allowed
  envAllowed := fun _ _ => True
  crashes := ∀ i h, P.idle i (m.boot i) h
  ok := fun _ _ _ _ _ => True

variable {P} {α : Type} {i : ℕ} {Q : α → S → History R → Prop} {s : S} {h : History R}

/-- The rule of commands: the precondition holds, and the rest is safe after the command. -/
theorem safe_call {e : E} {k : R e → Prog R α}
    (hk : ∀ s₁ h₁ o, Others i h h₁ → P.inv s₁ h₁ → P.Kept h₁ → P.allowed i e o s₁ h₁ →
      P.pre i e h₁ ∧ Safe P.contract i Q (k (m.exec e o s₁).1) (m.exec e o s₁).2
        (⟨i, e, (m.exec e o s₁).1⟩ :: h₁)) :
    Safe P.contract i Q (.call e k) s h := by
  intro s₁ h₁ ho ⟨hinv, hkept⟩ o ha
  obtain ⟨hpre, hsafe⟩ := hk s₁ h₁ o ho hinv hkept ha
  exact ⟨trivial, ⟨P.step hinv hkept hpre ha, hpre, hkept⟩,
    fun j hj => Others.cons (Ne.symm hj) h₁, hsafe⟩

theorem safe_pure {a : α} (hq : ∀ s₁ h₁, Others i h h₁ → Q a s₁ h₁) :
    Safe P.contract i Q (.pure a) s h := fun s₁ h₁ ho _ => hq s₁ h₁ ho

/-- Commands without a precondition may always be executed. -/
theorem safe_free {p : Prog R α} (hp : Only (fun e => ∀ h, P.pre i e h) p) :
    Safe P.contract i (fun _ _ _ => True) p s h := by
  induction p generalizing s h with
  | pure a => exact safe_pure fun _ _ _ => trivial
  | call e k ih => exact safe_call fun _ h₁ _ _ _ _ _ => ⟨hp.1 h₁, ih _ (hp.2 _)⟩

theorem safe_bind {β : Type} {Q' : β → S → History R → Prop} {p : Prog R α} {f : α → Prog R β}
    (hp : Safe P.contract i Q p s h)
    (hf : ∀ a s₁ h₁, P.inv s₁ h₁ → Q a s₁ h₁ → Safe P.contract i Q' (f a) s₁ h₁) :
    Safe P.contract i Q' (p.bind f) s h := by
  induction p generalizing s h with
  | pure a =>
    have hlater : ∀ s₁ h₁, Others i h h₁ → P.contract.inv s₁ h₁ → Safe P.contract i Q'
        (f a) s₁ h₁ :=
      fun s₁ h₁ ho hinv => hf a s₁ h₁ hinv.1 (hp s₁ h₁ ho hinv)
    rw [Prog.pure_bind]
    cases hfa : f a with
    | pure b =>
      intro s₁ h₁ ho hinv
      have hsafe := hlater s₁ h₁ ho hinv
      rw [hfa] at hsafe
      exact hsafe s₁ h₁ (Others.refl i h₁) hinv
    | call e k =>
      intro s₁ h₁ ho hinv
      have hsafe := hlater s₁ h₁ ho hinv
      rw [hfa] at hsafe
      exact hsafe s₁ h₁ (Others.refl i h₁) hinv
  | call e k ih =>
    intro s₁ h₁ ho hinv o ha
    obtain ⟨hok, hinv', hrely, hk⟩ := hp s₁ h₁ ho hinv o ha
    exact ⟨hok, hinv', hrely, ih _ hk⟩

/-- A program that starts no call runs within one. -/
theorem safe_within {isStart : E → Bool} {p : Prog R α}
    (honly : Only (fun e => isStart e = false) p)
    (hp : Safe P.contract i Q p s h) : Safe P.contract i
      (fun a s' h' => Q a s' h' ∧ before isStart i h' = before isStart i h) p s h := by
  induction p generalizing s h with
  | pure a => exact fun s₁ h₁ ho hinv => ⟨hp s₁ h₁ ho hinv, before_of_others ho⟩
  | call e k ih =>
    intro s₁ h₁ ho hinv o ha
    obtain ⟨hok, hinv', hrely, hk⟩ := hp s₁ h₁ ho hinv o ha
    refine ⟨hok, hinv', hrely, ?_⟩
    have hbefore : before isStart i (⟨i, e, (m.exec e o s₁).1⟩ :: h₁) = before isStart i h := by
      rw [before_cons honly.1, before_of_others ho]
    exact hbefore ▸ ih _ (honly.2 _) hk

/-- Every pool that an admitted run reaches keeps the protocol. -/
theorem good (hboot : ∀ i s h, P.inv s h → Others i [] h → P.idle i (m.boot i) h)
    (hbody : ∀ i l s h, P.idle i l h → Safe P.contract i (fun l _ h => P.idle i l h)
      (m.body i l) s h)
    (hs : P.inv s []) {as : List (Action O A)} (ha : Along m (OnStep P.allowed) (.boot m s) as)
    (hcrash : ∀ i, .crash i ∈ as → ∀ i h, P.idle i (m.boot i) h) :
    ((Pool.boot m s).run m as).Good P.contract := by
  have hsound : P.contract.Sound :=
    { refl := fun i _ h => Others.refl i h
      trans := fun h h' => h.trans h'
      env := fun _ _ h hinv _ => ⟨⟨P.env hinv.1, hinv.2⟩, fun i => Others.refl i h⟩
      crash := fun hidle i _ h _ => hidle i h
      body := fun i l s h _ hidle => hbody i l s h hidle }
  have hgood : (Pool.boot m s).Good P.contract :=
    ⟨⟨hs, trivial⟩, fun i s₁ h₁ ho hinv => hboot i s₁ h₁ hinv.1 ho⟩
  exact (hsound.along hgood (Contract.admits ha hcrash fun _ _ => trivial)).2

/-- **The rule of protocols.** -/
theorem run (hboot : ∀ i h, P.idle i (m.boot i) h)
    (hbody : ∀ i l s h, P.idle i l h → Safe P.contract i (fun l _ h => P.idle i l h)
      (m.body i l) s h)
    (hs : P.inv s []) {as : List (Action O A)} (ha : Along m (OnStep P.allowed) (.boot m s) as) :
    P.inv ((Pool.boot m s).run m as).shared ((Pool.boot m s).run m as).hist ∧
      P.Kept ((Pool.boot m s).run m as).hist :=
  (good (fun i _ h _ _ => hboot i h) hbody hs ha fun _ _ => hboot).inv

end Protocol

end Protocol

end Interleave
