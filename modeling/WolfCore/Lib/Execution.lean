import WolfCore.Lib.Interleave

/-!
# Executions of one program

What a single program can do, whatever answers it gets: `Execution p l a` says that `p` executes the
commands of `l`, oldest first and each with its reply, and returns `a`.

* an execution of a sequence is an execution of the first part followed by one of the second
  (`execution_bind`);
* what a program does is determined by the answers it gets (`Execution.eq_of_append`);
* a program all of whose commands satisfy a condition (`Only`) executes no others;
* every program has an execution (`exists_execution`).

`Prog.eval` runs a program alone against a state that answers every command.
-/

namespace Interleave

structure Exchange {E : Type} (R : E → Type) where
  cmd : E
  reply : R cmd

section

variable {E : Type} {R : E → Type} {α β : Type}

theorem Prog.bind_assoc {γ : Type} (p : Prog R α) (f : α → Prog R β) (g : β → Prog R γ) :
    (p.bind f).bind g = p.bind fun a => (f a).bind g := by
  induction p with
  | pure a => rfl
  | call e k ih => exact congrArg (Prog.call e) (funext ih)

theorem Prog.bind_pure (p : Prog R α) : p.bind .pure = p := by
  induction p with
  | pure a => rfl
  | call e k ih => exact congrArg (Prog.call e) (funext ih)

/-- The program executes the commands of the list, oldest first, and returns the value. -/
inductive Execution : Prog R α → List (Exchange R) → α → Prop
  | pure (a : α) : Execution (.pure a) [] a
  | call {e : E} {k : R e → Prog R α} {r : R e} {l : List (Exchange R)} {a : α}
      (h : Execution (k r) l a) : Execution (.call e k) (⟨e, r⟩ :: l) a

@[simp] theorem execution_pure {a b : α} {l : List (Exchange R)} :
    Execution (.pure a : Prog R α) l b ↔ l = [] ∧ b = a := by
  constructor
  · rintro ⟨⟩
    exact ⟨rfl, rfl⟩
  · rintro ⟨rfl, rfl⟩
    exact .pure _

@[simp] theorem execution_call {e : E} {k : R e → Prog R α} {l : List (Exchange R)} {a : α} :
    Execution (.call e k) l a ↔ ∃ r l', l = ⟨e, r⟩ :: l' ∧ Execution (k r) l' a := by
  constructor
  · rintro ⟨⟩
    exact ⟨_, _, rfl, ‹_›⟩
  · rintro ⟨r, l', rfl, h⟩
    exact .call h

theorem execution_bind {p : Prog R α} {f : α → Prog R β} {l : List (Exchange R)} {b : β} :
    Execution (p.bind f) l b ↔
      ∃ l₁ a l₂, l = l₁ ++ l₂ ∧ Execution p l₁ a ∧ Execution (f a) l₂ b := by
  induction p generalizing l with
  | pure a => simp
  | call e k ih =>
    simp only [Prog.bind, execution_call, ih]
    constructor
    · rintro ⟨r, _, rfl, l₁, a, l₂, rfl, hk, hf⟩
      exact ⟨⟨e, r⟩ :: l₁, a, l₂, rfl, ⟨r, l₁, rfl, hk⟩, hf⟩
    · rintro ⟨_, a, l₂, rfl, ⟨r, l₁, rfl, hk⟩, hf⟩
      exact ⟨r, l₁ ++ l₂, rfl, l₁, a, l₂, rfl, hk, hf⟩

theorem Execution.bind {p : Prog R α} {f : α → Prog R β} {l₁ l₂ : List (Exchange R)} {a : α} {b : β}
    (hp : Execution p l₁ a) (hf : Execution (f a) l₂ b) : Execution (p.bind f) (l₁ ++ l₂) b :=
  execution_bind.2 ⟨l₁, a, l₂, rfl, hp, hf⟩

/-- What a program does is determined by the answers it gets. -/
theorem Execution.eq_of_append {p : Prog R α} {l l' m m' : List (Exchange R)} {a a' : α}
    (h : Execution p l a) (h' : Execution p l' a') (heq : l ++ m = l' ++ m') : l = l' ∧ a = a' := by
  induction h generalizing l' with
  | pure a =>
    obtain ⟨rfl, rfl⟩ := execution_pure.1 h'
    exact ⟨rfl, rfl⟩
  | call _ ih =>
    obtain ⟨r, l', rfl, hk⟩ := execution_call.1 h'
    obtain ⟨hev, htail⟩ := List.cons.inj heq
    cases hev
    obtain ⟨rfl, rfl⟩ := ih hk htail
    exact ⟨rfl, rfl⟩

/-- Every program ends, if every command has an answer. -/
theorem exists_execution [∀ e, Nonempty (R e)] (p : Prog R α) : ∃ l a, Execution p l a := by
  induction p with
  | pure a => exact ⟨[], a, .pure a⟩
  | call e k ih =>
    obtain ⟨l, a, h⟩ := ih (Classical.arbitrary (R e))
    exact ⟨_, a, .call h⟩

/-- Every command of the program satisfies `P`. -/
def Only (P : E → Prop) : Prog R α → Prop
  | .pure _ => True
  | .call e k => P e ∧ ∀ r, Only P (k r)

theorem Only.imp {P Q : E → Prop} (hPQ : ∀ e, P e → Q e) {p : Prog R α} (hp : Only P p) :
    Only Q p := by
  induction p with
  | pure a => trivial
  | call e k ih => exact ⟨hPQ e hp.1, fun r => ih r (hp.2 r)⟩

theorem Only.bind {P : E → Prop} {p : Prog R α} {f : α → Prog R β} (hp : Only P p)
    (hf : ∀ a, Only P (f a)) : Only P (p.bind f) := by
  induction p with
  | pure a => exact hf a
  | call e k ih => exact ⟨hp.1, fun r => ih r (hp.2 r)⟩

theorem Only.mem {P : E → Prop} {p : Prog R α} (hp : Only P p) {l : List (Exchange R)} {a : α}
    (h : Execution p l a) : ∀ ev ∈ l, P ev.cmd := by
  induction h with
  | pure a => simp
  | call _ ih =>
    intro ev hev
    rcases List.mem_cons.1 hev with rfl | hev
    · exact hp.1
    · exact ih (hp.2 _) ev hev

end

/-! ### Running a program alone -/

section

variable {E : Type} {R : E → Type} {S α β : Type} (exec : (e : E) → S → R e × S)

/-- The commands the program executes, what it returns, and the state it leaves. -/
def Prog.eval : Prog R α → S → List (Exchange R) × α × S
  | .pure a, s => ([], a, s)
  | .call e k, s =>
      (⟨e, (exec e s).1⟩ :: ((k (exec e s).1).eval (exec e s).2).1,
        ((k (exec e s).1).eval (exec e s).2).2)

/-- A sequence runs its second part in the state the first one leaves. -/
theorem Prog.eval_bind (p : Prog R α) (f : α → Prog R β) (s : S) :
    (p.bind f).eval exec s =
      ((p.eval exec s).1 ++ ((f (p.eval exec s).2.1).eval exec (p.eval exec s).2.2).1,
        ((f (p.eval exec s).2.1).eval exec (p.eval exec s).2.2).2) := by
  induction p generalizing s with
  | pure a => rfl
  | call e k ih =>
    simp only [Prog.bind, Prog.eval, ih]
    rfl

end

end Interleave
