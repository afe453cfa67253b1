import Mathlib.Tactic

/-!
# Interleaved programs over atomic commands

A thread is a program `Prog R α`: a tree of atomic commands `e : E`, each answered by a value of
`R e`.  A `Pool` holds the shared state, one residual program for each thread number and the
history of the commands executed so far (newest first).  One `Action` executes the next command
of one thread, lets a finished thread start its next round, crashes a thread, or lets the
environment change the shared state; every nondeterministic choice (a failure, a clock reading,
a random token) is an oracle argument of the command, so a run is a list of actions.

* `Machine`, `Pool`, `Action`, `Pool.advance`, `Pool.run`, `Along`;
* `Contract`: an invariant of the shared state and the history, what each thread relies on while
  the others move, what holds between two rounds of a thread, which actions are admitted and what
  every admitted command must satisfy;
* `Safe`: a residual program keeps its contract whatever the other threads do;
* `Contract.Sound.along`: in every run whose actions are admitted, every command is as the
  contract says and the invariant holds at the end.
-/

namespace Interleave

/-- A program over the commands `E`; the command `e` is answered by a value of `R e`. -/
inductive Prog {E : Type} (R : E → Type) (α : Type)
  | pure (a : α)
  | call (e : E) (k : R e → Prog R α)

namespace Prog

variable {E : Type} {R : E → Type} {α β : Type}

def bind : Prog R α → (α → Prog R β) → Prog R β
  | pure a, f => f a
  | call e k, f => call e fun r => (k r).bind f

/-- The program that executes one command and returns its reply. -/
def perform (e : E) : Prog R (R e) := call e pure

instance : Monad (Prog R) where
  pure := Prog.pure
  bind := Prog.bind

@[simp] theorem bind_eq (p : Prog R α) (f : α → Prog R β) : p >>= f = p.bind f := rfl

@[simp] theorem pure_eq (a : α) : (Pure.pure a : Prog R α) = .pure a := rfl

@[simp] theorem pure_bind (a : α) (f : α → Prog R β) : (pure a : Prog R α).bind f = f a := rfl

@[simp] theorem perform_bind (e : E) (f : R e → Prog R β) : (perform e).bind f = call e f := rfl

end Prog

/-- One executed command: the thread, the command and its reply. -/
structure Logged {E : Type} (R : E → Type) where
  tid : ℕ
  cmd : E
  reply : R cmd

/-- The commands executed so far, newest first. -/
abbrev History {E : Type} (R : E → Type) := List (Logged R)

/-- `P` holds of every event of the history, seen with the events before it. -/
def Throughout {E : Type} {R : E → Type} (P : Logged R → History R → Prop) : History R → Prop
  | [] => True
  | ev :: h => P ev h ∧ Throughout P h

/-- Since `h`, only threads other than `i` have executed commands. -/
def Others {E : Type} {R : E → Type} (i : ℕ) (h h' : History R) : Prop :=
  ∃ l, h' = l ++ h ∧ ∀ ev ∈ l, ev.tid ≠ i

namespace Others

variable {E : Type} {R : E → Type} {i : ℕ} {h h₁ h₂ : History R}

theorem refl (i : ℕ) (h : History R) : Others i h h := ⟨[], rfl, by simp⟩

theorem cons {ev : Logged R} (hi : ev.tid ≠ i) (h : History R) : Others i h (ev :: h) :=
  ⟨[ev], rfl, by simpa using hi⟩

theorem trans (h₀₁ : Others i h h₁) (h₁₂ : Others i h₁ h₂) : Others i h h₂ := by
  obtain ⟨l, rfl, hl⟩ := h₀₁
  obtain ⟨l', rfl, hl'⟩ := h₁₂
  refine ⟨l' ++ l, by simp, fun ev hev => ?_⟩
  rcases List.mem_append.1 hev with hev | hev
  · exact hl' ev hev
  · exact hl ev hev

theorem mem {ev : Logged R} (ho : Others i h h₁) (hev : ev ∈ h) : ev ∈ h₁ := by
  obtain ⟨l, rfl, -⟩ := ho
  exact List.mem_append_right _ hev

theorem induct {P : History R → Prop} (ho : Others i h h₁)
    (hP : ∀ ev h, ev.tid ≠ i → P h → P (ev :: h)) (hh : P h) : P h₁ := by
  obtain ⟨l, rfl, hl⟩ := ho
  induction l with
  | nil => exact hh
  | cons ev l ih =>
    exact hP ev _ (hl ev (by simp)) (ih fun ev' h' => hl ev' (List.mem_cons_of_mem _ h'))

end Others

/-- The semantics of a family of threads: what a command does to the shared state under an
oracle, the program thread `i` runs in its next round from its local state, its local state
after a crash, and what the environment can do. -/
structure Machine {E : Type} (R : E → Type) (S O L A : Type) where
  exec : (e : E) → O → S → R e × S
  body : ℕ → L → Prog R L
  boot : ℕ → L
  env : A → S → S

/-- A shared state, the history, and the residual program of every thread. -/
structure Pool {E : Type} (R : E → Type) (S L : Type) where
  shared : S
  hist : History R
  thread : ℕ → Prog R L

/-- One move of the scheduler. -/
inductive Action (O A : Type)
  | step (i : ℕ) (o : O)
  | resume (i : ℕ)
  | crash (i : ℕ)
  | env (a : A)

section Run

variable {E : Type} {R : E → Type} {S O L A : Type} (m : Machine R S O L A)

/-- The pool in which thread `i` has executed `e` under `o` and goes on with `k`. -/
def Pool.exec (p : Pool R S L) (i : ℕ) (o : O) (e : E) (k : R e → Prog R L) : Pool R S L where
  shared := (m.exec e o p.shared).2
  hist := ⟨i, e, (m.exec e o p.shared).1⟩ :: p.hist
  thread := Function.update p.thread i (k (m.exec e o p.shared).1)

/-- One move.  A step of a finished thread and a resumption of a running one do nothing. -/
def Pool.advance (p : Pool R S L) : Action O A → Pool R S L
  | .step i o =>
      match p.thread i with
      | .pure _ => p
      | .call e k => p.exec m i o e k
  | .resume i =>
      match p.thread i with
      | .pure l => { p with thread := Function.update p.thread i (m.body i l) }
      | .call _ _ => p
  | .crash i => { p with thread := Function.update p.thread i (.pure (m.boot i)) }
  | .env a => { p with shared := m.env a p.shared }

/-- A run: the moves of a list, in order. -/
def Pool.run (p : Pool R S L) : List (Action O A) → Pool R S L
  | [] => p
  | a :: as => (p.advance m a).run as

/-- `P` holds of every move of the run, in the pool in which the move is made. -/
def Along (P : Pool R S L → Action O A → Prop) : Pool R S L → List (Action O A) → Prop
  | _, [] => True
  | p, a :: as => P p a ∧ Along P (p.advance m a) as

theorem Along.mono {P Q : Pool R S L → Action O A → Prop} (h : ∀ p a, P p a → Q p a)
    {p : Pool R S L} {as : List (Action O A)} (hp : Along m P p as) : Along m Q p as := by
  induction as generalizing p with
  | nil => trivial
  | cons a as ih => exact ⟨h _ _ hp.1, ih hp.2⟩

theorem Along.append {P : Pool R S L → Action O A → Prop} {p : Pool R S L}
    {as bs : List (Action O A)} :
    Along m P p (as ++ bs) ↔ Along m P p as ∧ Along m P (p.run m as) bs := by
  induction as generalizing p with
  | nil => exact ⟨fun h => ⟨trivial, h⟩, fun h => h.2⟩
  | cons a as ih =>
    simp only [List.cons_append, Along, ih, and_assoc]
    rfl

theorem Along.of_mem {P : Pool R S L → Action O A → Prop} {as : List (Action O A)}
    (h : ∀ a ∈ as, ∀ p, P p a) (p : Pool R S L) : Along m P p as := by
  induction as generalizing p with
  | nil => trivial
  | cons a as ih =>
    exact ⟨h a List.mem_cons_self p, ih (fun a' ha' => h a' (List.mem_cons_of_mem _ ha')) _⟩

/-- The rule of invariants: what every move with `Q` keeps holds at the end, and with it
whatever it implies of the moves. -/
theorem Along.invariant {I : Pool R S L → Prop} {P Q : Pool R S L → Action O A → Prop}
    (hstep : ∀ p a, I p → Q p a → P p a ∧ I (p.advance m a)) {p : Pool R S L}
    {as : List (Action O A)} (hp : I p) (hq : Along m Q p as) :
    Along m P p as ∧ I (p.run m as) := by
  induction as generalizing p with
  | nil => exact ⟨trivial, hp⟩
  | cons a as ih =>
    obtain ⟨hPa, hI⟩ := hstep p a hp hq.1
    obtain ⟨hrest, hend⟩ := ih hI hq.2
    exact ⟨⟨hPa, hrest⟩, hend⟩

/-- A property of executed commands, as a property of moves. -/
def OnStep (P : ℕ → (e : E) → O → S → History R → Prop) (p : Pool R S L) : Action O A → Prop
  | .step i o =>
      match p.thread i with
      | .pure _ => True
      | .call e _ => P i e o p.shared p.hist
  | _ => True

theorem OnStep.of_state {P : ℕ → (e : E) → O → S → History R → Prop} {p : Pool R S L}
    (hP : ∀ i e o, P i e o p.shared p.hist) (a : Action O A) : OnStep P p a := by
  cases a with
  | step i o =>
    simp only [OnStep]
    cases p.thread i with
    | pure l => trivial
    | call e k => exact hP i e o
  | _ => trivial

theorem OnStep.of_forall {P : ℕ → (e : E) → O → S → History R → Prop}
    (hP : ∀ i e o s h, P i e o s h) (p : Pool R S L) (a : Action O A) : OnStep P p a :=
  .of_state (fun i e o => hP i e o p.shared p.hist) a

theorem OnStep.and {P Q : ℕ → (e : E) → O → S → History R → Prop} {p : Pool R S L}
    {a : Action O A} (hP : OnStep P p a) (hQ : OnStep Q p a) :
    OnStep (fun i e o s h => P i e o s h ∧ Q i e o s h) p a := by
  cases a with
  | step i o =>
    simp only [OnStep] at hP hQ ⊢
    split <;> simp_all
  | _ => trivial

theorem Along.and {P Q : Pool R S L → Action O A → Prop} {p : Pool R S L}
    {as : List (Action O A)} (hp : Along m P p as) (hq : Along m Q p as) :
    Along m (fun p a => P p a ∧ Q p a) p as := by
  induction as generalizing p with
  | nil => trivial
  | cons a as ih => exact ⟨⟨hp.1, hq.1⟩, ih hp.2 hq.2⟩

/-- Two properties that agree on every move of a run hold along it together. -/
theorem Along.congr {P Q T : Pool R S L → Action O A → Prop} {p : Pool R S L}
    {as : List (Action O A)} (ht : Along m T p as) (h : ∀ p a, T p a → (P p a ↔ Q p a)) :
    Along m P p as ↔ Along m Q p as :=
  ⟨fun hp => (ht.and m hp).mono m fun p a hpa => (h p a hpa.1).1 hpa.2,
    fun hq => (ht.and m hq).mono m fun p a hpa => (h p a hpa.1).2 hpa.2⟩

instance {P : ℕ → (e : E) → O → S → History R → Prop} [∀ i e o s h, Decidable (P i e o s h)]
    (p : Pool R S L) (a : Action O A) : Decidable (OnStep P p a) :=
  match a with
  | .step i o =>
      match h : p.thread i with
      | .pure _ => .isTrue (by simp [OnStep, h])
      | .call e _ => decidable_of_iff (P i e o p.shared p.hist) (by simp [OnStep, h])
  | .resume _ => .isTrue trivial
  | .crash _ => .isTrue trivial
  | .env _ => .isTrue trivial

instance Along.decidable {P : Pool R S L → Action O A → Prop} [∀ p a, Decidable (P p a)] :
    (p : Pool R S L) → (as : List (Action O A)) → Decidable (Along m P p as)
  | _, [] => .isTrue trivial
  | p, a :: as => @instDecidableAnd _ _ _ (Along.decidable (p.advance m a) as)

/-- The rule of invariants for assertions about the shared state and the history: they hold
whenever a move is made, and at the end. -/
theorem Along.state_invariant {I : S → History R → Prop}
    {Q : ℕ → (e : E) → O → S → History R → Prop}
    (hexec : ∀ i e o s h, I s h → Q i e o s h →
      I (m.exec e o s).2 (⟨i, e, (m.exec e o s).1⟩ :: h))
    (henv : ∀ a s h, I s h → I (m.env a s) h) {p : Pool R S L} {as : List (Action O A)}
    (hp : I p.shared p.hist) (hq : Along m (OnStep Q) p as) :
    Along m (fun p _ => I p.shared p.hist) p as ∧ I (p.run m as).shared (p.run m as).hist := by
  refine Along.invariant (I := fun p => I p.shared p.hist) m (fun p a hI hQ => ⟨hI, ?_⟩) hp hq
  cases a with
  | step i o =>
    simp only [OnStep, Pool.advance] at hQ ⊢
    cases ht : p.thread i with
    | pure l => exact hI
    | call e k =>
      rw [ht] at hQ
      exact hexec i e o _ _ hI hQ
  | resume i =>
    simp only [Pool.advance]
    cases p.thread i <;> exact hI
  | crash i => exact hI
  | env a => exact henv a _ _ hI

/-- For an assertion that a move keeps exactly if `Q` holds of it: it holds after every part of the
run exactly if `Q` holds along the run. -/
theorem Along.state_invariant_iff {I : S → History R → Prop}
    {Q : ℕ → (e : E) → O → S → History R → Prop}
    (hexec : ∀ i e o s h, I s h →
      (I (m.exec e o s).2 (⟨i, e, (m.exec e o s).1⟩ :: h) ↔ Q i e o s h))
    (henv : ∀ a s h, I s h → I (m.env a s) h) {p : Pool R S L} {as : List (Action O A)}
    (hp : I p.shared p.hist) :
    (∀ as', as' <+: as → I (p.run m as').shared (p.run m as').hist) ↔ Along m (OnStep Q) p as := by
  have hstep : ∀ (p : Pool R S L) (a : Action O A), I p.shared p.hist →
      (I (p.advance m a).shared (p.advance m a).hist ↔ OnStep Q p a) := by
    intro p a hI
    cases a with
    | step i o =>
      simp only [OnStep, Pool.advance]
      cases p.thread i with
      | pure l => exact iff_of_true hI trivial
      | call e k => exact hexec i e o _ _ hI
    | resume i =>
      simp only [Pool.advance]
      cases p.thread i <;> exact iff_of_true hI trivial
    | crash i => exact iff_of_true hI trivial
    | env a => exact iff_of_true (henv a _ _ hI) trivial
  induction as generalizing p with
  | nil => exact iff_of_true (fun as' has' => by rw [List.prefix_nil.1 has']; exact hp) trivial
  | cons a as ih =>
    constructor
    · intro hall
      have hnext := hall [a] (by simp)
      exact ⟨(hstep p a hp).1 hnext, (ih hnext).1 fun as' has' =>
        hall (a :: as') (by simpa using has')⟩
    · rintro ⟨ha, hrest⟩ as' has'
      cases as' with
      | nil => exact hp
      | cons b bs =>
        obtain ⟨rfl, hbs⟩ := List.cons_prefix_cons.1 has'
        exact (ih ((hstep p b hp).2 ha)).2 hrest bs hbs

end Run

/-- A rely–guarantee contract for the threads of a machine. -/
structure Contract {E : Type} {R : E → Type} {S O L A : Type} (m : Machine R S O L A) where
  /-- holds in every reached pool -/
  inv : S → History R → Prop
  /-- what thread `i` relies on between two of its own commands -/
  rely : ℕ → S → History R → S → History R → Prop
  /-- holds while thread `i` is between two rounds -/
  idle : ℕ → L → S → History R → Prop
  /-- the commands admitted in the runs under consideration -/
  allowed : ℕ → (e : E) → O → S → History R → Prop
  /-- the moves of the environment admitted in the runs under consideration -/
  envAllowed : A → S → Prop
  /-- whether threads may crash -/
  crashes : Prop
  /-- what every admitted command must satisfy -/
  ok : ℕ → (e : E) → O → S → History R → Prop

section Contract

variable {E : Type} {R : E → Type} {S O L A : Type} {m : Machine R S O L A}
variable (C : Contract m) {α β : Type}

/-- Started in a state reached from `s` and `h` under interference, the residual program of
thread `i` keeps the contract at each of its commands and ends in `Q`. -/
def Safe (i : ℕ) (Q : α → S → History R → Prop) : Prog R α → S → History R → Prop
  | .pure a, s, h => ∀ s₁ h₁, C.rely i s h s₁ h₁ → C.inv s₁ h₁ → Q a s₁ h₁
  | .call e k, s, h => ∀ s₁ h₁, C.rely i s h s₁ h₁ → C.inv s₁ h₁ →
      ∀ o, C.allowed i e o s₁ h₁ →
        C.ok i e o s₁ h₁ ∧
        C.inv (m.exec e o s₁).2 (⟨i, e, (m.exec e o s₁).1⟩ :: h₁) ∧
        (∀ j, j ≠ i → C.rely j s₁ h₁ (m.exec e o s₁).2 (⟨i, e, (m.exec e o s₁).1⟩ :: h₁)) ∧
        Safe i Q (k (m.exec e o s₁).1) (m.exec e o s₁).2 (⟨i, e, (m.exec e o s₁).1⟩ :: h₁)

/-- The proof obligations of a contract. -/
structure Contract.Sound : Prop where
  refl : ∀ i s h, C.rely i s h s h
  trans : ∀ {i s h s₁ h₁ s₂ h₂}, C.rely i s h s₁ h₁ → C.rely i s₁ h₁ s₂ h₂ → C.rely i s h s₂ h₂
  env : ∀ a s h, C.inv s h → C.envAllowed a s →
    C.inv (m.env a s) h ∧ ∀ i, C.rely i s h (m.env a s) h
  crash : C.crashes → ∀ i s h, C.inv s h → C.idle i (m.boot i) s h
  body : ∀ i l s h, C.inv s h → C.idle i l s h → Safe C i (C.idle i) (m.body i l) s h

variable {C}

/-- Safety survives whatever the other threads do. -/
theorem Safe.stable (hC : C.Sound) {i : ℕ} {Q : α → S → History R → Prop} {p : Prog R α}
    {s s₁ : S} {h h₁ : History R} (hp : Safe C i Q p s h) (hr : C.rely i s h s₁ h₁) :
    Safe C i Q p s₁ h₁ := by
  cases p with
  | pure a => exact fun s₂ h₂ hr₂ hi => hp s₂ h₂ (hC.trans hr hr₂) hi
  | call e k => exact fun s₂ h₂ hr₂ hi => hp s₂ h₂ (hC.trans hr hr₂) hi

theorem Safe.mono {i : ℕ} {Q Q' : α → S → History R → Prop} (hQ : ∀ a s h, Q a s h → Q' a s h)
    {p : Prog R α} {s : S} {h : History R} (hp : Safe C i Q p s h) : Safe C i Q' p s h := by
  induction p generalizing s h with
  | pure a => exact fun s₁ h₁ hr hi => hQ a s₁ h₁ (hp s₁ h₁ hr hi)
  | call e k ih =>
    intro s₁ h₁ hr hi o ho
    obtain ⟨hok, hinv, hguar, hk⟩ := hp s₁ h₁ hr hi o ho
    exact ⟨hok, hinv, hguar, ih _ hk⟩

/-- The rule of sequential composition. -/
theorem Safe.bind {i : ℕ} (hrefl : ∀ s h, C.rely i s h s h) {Q : α → S → History R → Prop}
    {Q' : β → S → History R → Prop} {p : Prog R α} {f : α → Prog R β} {s : S} {h : History R}
    (hi : C.inv s h) (hp : Safe C i Q p s h)
    (hf : ∀ a s₁ h₁, C.inv s₁ h₁ → Q a s₁ h₁ → Safe C i Q' (f a) s₁ h₁) :
    Safe C i Q' (p.bind f) s h := by
  induction p generalizing s h with
  | pure a => exact hf a s h hi (hp s h (hrefl s h) hi)
  | call e k ih =>
    intro s₁ h₁ hr hi₁ o ho
    obtain ⟨hok, hinv, hguar, hk⟩ := hp s₁ h₁ hr hi₁ o ho
    exact ⟨hok, hinv, hguar, ih _ hinv hk⟩

/-- A pool that meets its contract: the invariant holds and every thread is safe. -/
structure Pool.Good (C : Contract m) (p : Pool R S L) : Prop where
  inv : C.inv p.shared p.hist
  safe : ∀ i, Safe C i (C.idle i) (p.thread i) p.shared p.hist

/-- The moves of the runs a contract speaks about. -/
def Contract.Admits (C : Contract m) (p : Pool R S L) : Action O A → Prop
  | .step i o => OnStep C.allowed p (.step i o : Action O A)
  | .resume _ => True
  | .crash _ => C.crashes
  | .env a => C.envAllowed a p.shared

/-- A run is admitted if its commands are, and threads crash only if they may. -/
theorem Contract.admits {C : Contract m} {p : Pool R S L} {as : List (Action O A)}
    (hstep : Along m (OnStep C.allowed) p as) (hcrash : ∀ i, .crash i ∈ as → C.crashes)
    (henv : ∀ a s, C.envAllowed a s) : Along m C.Admits p as := by
  induction as generalizing p with
  | nil => trivial
  | cons a as ih =>
    refine ⟨?_, ih hstep.2 fun i hi => hcrash i (List.mem_cons_of_mem _ hi)⟩
    cases a with
    | step i o => exact hstep.1
    | resume i => trivial
    | crash i => exact hcrash i List.mem_cons_self
    | env a => exact henv a p.shared

/-- A contract that allows everything admits every run. -/
theorem Contract.admits_all {C : Contract m} (hstep : ∀ i e o s h, C.allowed i e o s h)
    (hcrash : C.crashes) (henv : ∀ a s, C.envAllowed a s) (p : Pool R S L)
    (as : List (Action O A)) :
    Along m C.Admits p as :=
  Contract.admits (.of_mem m (fun a _ p => OnStep.of_forall hstep p a) p) (fun _ _ => hcrash) henv

/-- One admitted move keeps the contract, and the command it executes is as required. -/
theorem Pool.Good.advance (hC : C.Sound) {p : Pool R S L} (hp : p.Good C) {a : Action O A}
    (ha : C.Admits p a) : OnStep C.ok p a ∧ (p.advance m a).Good C := by
  cases a with
  | step i o =>
    simp only [Contract.Admits, OnStep, Pool.advance] at ha ⊢
    have hi := hp.safe i
    cases ht : p.thread i with
    | pure l => exact ⟨trivial, hp⟩
    | call e k =>
      rw [ht] at ha hi
      obtain ⟨hok, hinv, hguar, hk⟩ := hi _ _ (hC.refl _ _ _) hp.inv o ha
      refine ⟨hok, hinv, fun j => ?_⟩
      by_cases hj : j = i
      · subst hj
        simpa [Pool.exec] using hk
      · simpa [Pool.exec, Function.update_of_ne hj] using (hp.safe j).stable hC (hguar j hj)
  | resume i =>
    refine ⟨trivial, ?_⟩
    simp only [Pool.advance]
    have hi := hp.safe i
    cases ht : p.thread i with
    | call e k => exact hp
    | pure l =>
      rw [ht] at hi
      refine ⟨hp.inv, fun j => ?_⟩
      by_cases hj : j = i
      · subst hj
        simpa using hC.body j l _ _ hp.inv (hi _ _ (hC.refl _ _ _) hp.inv)
      · simpa [Function.update_of_ne hj] using hp.safe j
  | crash i =>
    refine ⟨trivial, hp.inv, fun j => ?_⟩
    by_cases hj : j = i
    · subst hj
      have hboot : Safe C j (C.idle j) (.pure (m.boot j)) p.shared p.hist :=
        fun s₁ h₁ _ hi => hC.crash ha j s₁ h₁ hi
      simpa [Pool.advance] using hboot
    · simpa [Pool.advance, Function.update_of_ne hj] using hp.safe j
  | env a =>
    obtain ⟨hinv, hrely⟩ := hC.env a _ _ hp.inv ha
    exact ⟨trivial, hinv, fun j => (hp.safe j).stable hC (hrely j)⟩

/-- **The rely–guarantee rule**: in every run whose moves are admitted, every executed command
is as the contract requires and the pool reached meets the contract. -/
theorem Contract.Sound.along (hC : C.Sound) {p : Pool R S L} (hp : p.Good C)
    {as : List (Action O A)} (ha : Along m C.Admits p as) :
    Along m (OnStep C.ok) p as ∧ (p.run m as).Good C :=
  Along.invariant m (fun _ _ hp ha => hp.advance hC ha) hp ha

end Contract

end Interleave
