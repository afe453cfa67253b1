import WolfCore.Lib.Calls

/-!
# Calls of interleaved threads as executions

Whatever the other threads do, the commands that a thread has executed since its call started are
the beginning of an execution of its program.  So what holds of every execution of the program
alone, for all answers it can get, holds of every call in every run.

* `Reaches p l q`: the exchanges of `l` lead from `p` to what is left of it;
* `own start i h`: the exchanges of thread `i` since the last command of it that starts a call;
* `calls_run`: in every run, for every command of the history, the exchanges of its call up to it
  lead from the program of the thread to what is left of it;
* `handled_run`: for threads that serve calls, what a call does is part of an execution of the
  handler;
* `served_run`: for threads that serve calls, what is answered is what an execution of the handler
  answers.
-/

namespace Interleave

variable {E : Type} {R : E → Type} {α : Type}

/-- The exchanges lead from a program to what is left of it. -/
inductive Reaches : Prog R α → List (Exchange R) → Prog R α → Prop
  | refl (p : Prog R α) : Reaches p [] p
  | step {p : Prog R α} {l : List (Exchange R)} {e : E} {k : R e → Prog R α}
      (h : Reaches p l (.call e k)) (r : R e) : Reaches p (l ++ [⟨e, r⟩]) (k r)

/-- An execution of what is left completes one of the whole. -/
theorem Reaches.execution {p q : Prog R α} {l l' : List (Exchange R)} {a : α} (h : Reaches p l q)
    (hq : Execution q l' a) : Execution p (l ++ l') a := by
  induction h generalizing l' with
  | refl => exact hq
  | step _ r ih =>
    rw [List.append_assoc]
    exact ih (.call hq)

theorem Reaches.complete [∀ e, Nonempty (R e)] {p q : Prog R α} {l : List (Exchange R)}
    (h : Reaches p l q) : ∃ l' a, Execution p (l ++ l') a := by
  obtain ⟨l', a, hq⟩ := exists_execution q
  exact ⟨l', a, h.execution hq⟩

section Own

variable (start : E → Bool)

/-- The program begins with a command that starts a call, and has no other such command. -/
def Opens : Prog R α → Prop
  | .pure _ => False
  | .call e k => start e = true ∧ ∀ r, Only (fun e' => start e' = false) (k r)

/-- The exchanges of thread `i` since the last command of it that starts a call, oldest first. -/
def own (i : ℕ) : History R → List (Exchange R)
  | [] => []
  | ev :: h =>
      if ev.tid = i then
        if start ev.cmd then [⟨ev.cmd, ev.reply⟩] else own i h ++ [⟨ev.cmd, ev.reply⟩]
      else own i h

variable {start} {i : ℕ} {h : History R} {ev : Logged R}

theorem own_cons_of_ne (hi : ev.tid ≠ i) : own start i (ev :: h) = own start i h := if_neg hi

theorem mem_of_mem_own {x : Exchange R} (hx : x ∈ own start i h) : ⟨i, x.cmd, x.reply⟩ ∈ h := by
  induction h with
  | nil => cases hx
  | cons ev h ih =>
    rw [own] at hx
    split_ifs at hx with hi hs
    · subst hi
      cases List.mem_singleton.1 hx
      exact List.mem_cons_self
    · rcases List.mem_append.1 hx with hearlier | hlast
      · exact List.mem_cons_of_mem _ (ih hearlier)
      · subst hi
        cases List.mem_singleton.1 hlast
        exact List.mem_cons_self
    · exact List.mem_cons_of_mem _ (ih hx)

/-- Where in the history an exchange of the call is. -/
theorem own_split {xs ys : List (Exchange R)} {x : Exchange R} (hxs : xs ≠ [])
    (hown : own start i h = xs ++ x :: ys) :
    ∃ h', ⟨i, x.cmd, x.reply⟩ :: h' <:+ h ∧ own start i h' = xs := by
  induction h generalizing ys with
  | nil =>
    rw [own] at hown
    exact absurd hown.symm (by simp)
  | cons ev h ih =>
    rw [own] at hown
    split_ifs at hown with hi hs
    · rcases xs with _ | ⟨y, xs⟩
      · exact absurd rfl hxs
      · simp at hown
    · rcases List.eq_nil_or_concat ys with rfl | ⟨ys, last, rfl⟩
      · obtain ⟨hbefore, hlast⟩ := List.append_inj' hown rfl
        subst hi
        cases List.cons.inj hlast |>.1
        exact ⟨h, List.suffix_rfl, hbefore⟩
      · rw [List.concat_eq_append, ← List.cons_append, ← List.append_assoc] at hown
        obtain ⟨h', hs', hown'⟩ := ih (List.append_inj' hown rfl).1
        exact ⟨h', hs'.trans (List.suffix_cons ev h), hown'⟩
    · obtain ⟨h', hs', hown'⟩ := ih hown
      exact ⟨h', hs'.trans (List.suffix_cons ev h), hown'⟩

variable (h ev)

theorem own_cons_of_start (hs : start ev.cmd = true) :
    own start ev.tid (ev :: h) = [⟨ev.cmd, ev.reply⟩] := by
  rw [own, if_pos rfl, if_pos hs]

theorem own_cons_of_not_start (hs : start ev.cmd = false) :
    own start ev.tid (ev :: h) = own start ev.tid h ++ [⟨ev.cmd, ev.reply⟩] := by
  rw [own, if_pos rfl, if_neg (by simp [hs])]

end Own

section Run

variable {S O L A : Type} (m : Machine R S O L A) (start : E → Bool)

/-- The command belongs to a call of its thread. -/
def OfCall (ev : Logged R) (h : History R) : Prop :=
  ∃ l q, Reaches (m.body ev.tid l) (own start ev.tid (ev :: h)) q

/-- Where a thread is: between two calls, before the first command of one, or within one. -/
def Located (i : ℕ) (h : History R) (p : Prog R L) : Prop :=
  (∃ l, p = .pure l) ∨ (∃ l, p = m.body i l) ∨
    ∃ l, Reaches (m.body i l) (own start i h) p ∧ Only (fun e => start e = false) p

variable {m start}

/-- One command of a thread leads on in its call. -/
theorem Located.step (hbody : ∀ i l, Opens start (m.body i l)) {i : ℕ} {h : History R} {e : E}
    {k : R e → Prog R L} (hp : Located m start i h (.call e k)) (r : R e) :
    OfCall m start ⟨i, e, r⟩ h ∧ Located m start i (⟨i, e, r⟩ :: h) (k r) := by
  rcases hp with ⟨l, hpure⟩ | ⟨l, heq⟩ | ⟨l, hreach, honly⟩
  · cases hpure
  · have hopens := hbody i l
    rw [← heq] at hopens
    have hreach : Reaches (m.body i l) [⟨e, r⟩] (k r) := heq ▸ (Reaches.refl (.call e k)).step r
    rw [← own_cons_of_start h ⟨i, e, r⟩ hopens.1] at hreach
    exact ⟨⟨l, k r, hreach⟩, Or.inr (Or.inr ⟨l, hreach, hopens.2 r⟩)⟩
  · have hnext := hreach.step r
    rw [← own_cons_of_not_start h ⟨i, e, r⟩ honly.1] at hnext
    exact ⟨⟨l, k r, hnext⟩, Or.inr (Or.inr ⟨l, hnext, honly.2 r⟩)⟩

theorem Located.of_ne {i : ℕ} {h : History R} {ev : Logged R} {p : Prog R L} (hne : ev.tid ≠ i)
    (hp : Located m start i h p) : Located m start i (ev :: h) p := by
  simpa only [Located, own_cons_of_ne hne] using hp

/-- **In every run, every command belongs to a call of its thread.** -/
theorem calls_run (hbody : ∀ i l, Opens start (m.body i l)) (s : S) (as : List (Action O A)) :
    Throughout (OfCall m start) ((Pool.boot m s).run m as).hist := by
  suffices hrun : ∀ p : Pool R S L, Throughout (OfCall m start) p.hist →
      (∀ i, Located m start i p.hist (p.thread i)) → Throughout (OfCall m start)
        (p.run m as).hist from
    hrun _ trivial fun i => Or.inl ⟨_, rfl⟩
  induction as with
  | nil => exact fun p hp _ => hp
  | cons a as ih =>
    intro p hp hloc
    refine ih (p.advance m a) ?_ ?_
    · cases a with
      | step i o =>
        simp only [Pool.advance]
        have hi := hloc i
        cases ht : p.thread i with
        | pure l => exact hp
        | call e k =>
          rw [ht] at hi
          exact ⟨(hi.step hbody _).1, hp⟩
      | resume i =>
        simp only [Pool.advance]
        cases p.thread i <;> exact hp
      | _ => exact hp
    · intro j
      cases a with
      | step i o =>
        simp only [Pool.advance]
        have hi := hloc i
        cases ht : p.thread i with
        | pure l => exact hloc j
        | call e k =>
          rw [ht] at hi
          by_cases hj : j = i
          · subst hj
            simpa [Pool.exec] using (hi.step hbody _).2
          · simpa [Pool.exec, Function.update_of_ne hj] using (hloc j).of_ne (Ne.symm hj)
      | resume i =>
        simp only [Pool.advance]
        cases ht : p.thread i with
        | call e k => exact hloc j
        | pure l =>
          by_cases hj : j = i
          · subst hj
            simp only [Function.update_self]
            exact Or.inr (Or.inl ⟨l, rfl⟩)
          · simpa [Function.update_of_ne hj] using hloc j
      | crash i =>
        by_cases hj : j = i
        · subst hj
          simp only [Pool.advance, Function.update_self]
          exact Or.inl ⟨_, rfl⟩
        · simpa [Pool.advance, Function.update_of_ne hj] using hloc j
      | env a => exact hloc j

end Run

/-! ### Servers -/

section Server

variable {S O A β : Type} (accept : E) (respond : R accept → β → E) (handle : R accept → Prog R β)

/-- A call arrives, is handled and is answered. -/
def serve : Prog R Unit :=
  .call accept fun request => (handle request).bind fun response =>
    .call (respond request response) fun _ => .pure ()

/-- The commands with which calls arrive and are answered have no other use. -/
structure Serves (start finish : E → Bool) : Prop where
  accepts : start accept = true
  responds : ∀ request response, start (respond request response) = false ∧
    finish (respond request response) = true
  injective : ∀ {request request' : R accept} {response response' : β},
    respond request response = respond request' response' → request = request' ∧
      response = response'
  handles : ∀ request, Only (fun e => start e = false ∧ finish e = false) (handle request)
  distinct : finish accept = false

variable {accept respond handle} {start finish : E → Bool}

theorem Serves.opens (hs : Serves accept respond handle start finish) :
    Opens start (serve accept respond handle) :=
  ⟨hs.accepts, fun request => ((hs.handles request).imp fun _ h => h.1).bind fun response =>
    ⟨(hs.responds request response).1, fun _ => trivial⟩⟩

/-- Only the last entry of a list has a property: then everything up to an entry with it is the
whole list. -/
theorem eq_of_only_last {γ : Type} {P : γ → Prop} {xs ys zs : List γ} {a b : γ}
    (h : xs ++ a :: ys = zs ++ [b]) (ha : P a) (hz : ∀ z ∈ zs, ¬ P z) : xs = zs ∧ a = b := by
  rcases List.eq_nil_or_concat ys with rfl | ⟨ys, c, rfl⟩
  · obtain ⟨hxs, hab⟩ := List.append_inj' h rfl
    exact ⟨hxs, List.cons.inj hab |>.1⟩
  · rw [List.concat_eq_append, ← List.cons_append, ← List.append_assoc] at h
    have hzs := (List.append_inj' h rfl).1
    exact absurd ha (hz a (hzs ▸ by simp))

/-- **What a server answers in any run is what an execution of its handler answers, on the exchanges
of the call alone.** -/
theorem served_run [∀ e, Nonempty (R e)] {m : Machine R S O Unit A}
    (hs : Serves accept respond handle start finish)
    (hbody : ∀ i l, m.body i l = serve accept respond handle) (s : S) (as : List (Action O A)) :
    Throughout (fun ev h => ∀ request response, ev.cmd = respond request response →
        ∃ l, own start ev.tid h = ⟨accept, request⟩ :: l ∧ Execution (handle request) l response)
      ((Pool.boot m s).run m as).hist := by
  refine (calls_run (fun i l => hbody i l ▸ hs.opens) s as).mono
    fun ev h hcall request response heq => ?_
  obtain ⟨i, e, r⟩ := ev
  cases heq
  obtain ⟨_, q, hreach⟩ := hcall
  rw [hbody] at hreach
  obtain ⟨l', _, hexec⟩ := hreach.complete
  rw [own_cons_of_not_start _ _ (hs.responds request response).1, List.append_assoc] at hexec
  obtain ⟨request', lrest, hlist, hrest⟩ := execution_call.1 hexec
  obtain ⟨lh, response', _, rfl, hhandle, hrespond⟩ := execution_bind.1 hrest
  obtain ⟨r', _, rfl, hpure⟩ := execution_call.1 hrespond
  obtain ⟨rfl, -⟩ := execution_pure.1 hpure
  -- of the exchanges of the call, only the last answers
  have hbefore : ∀ x ∈ (⟨accept, request'⟩ :: lh : List (Exchange R)), ¬ finish x.cmd = true := by
    intro x hx
    rcases List.mem_cons.1 hx with rfl | hx
    · simp [hs.distinct]
    · simp [((hs.handles request').mem hhandle x hx).2]
  have hsplit : own start i h ++ ⟨respond request response, r⟩ :: l' =
      (⟨accept, request'⟩ :: lh) ++ [⟨respond request' response', r'⟩] := by simpa using hlist
  obtain ⟨hown, hlast⟩ := eq_of_only_last (P := fun x : Exchange R => finish x.cmd = true) hsplit
    (hs.responds request response).2 hbefore
  obtain ⟨rfl, rfl⟩ := hs.injective (congrArg Exchange.cmd hlast)
  exact ⟨lh, hown, hhandle⟩

/-- **What a server does within a call is part of an execution of its handler.** -/
theorem handled_run [∀ e, Nonempty (R e)] {m : Machine R S O Unit A}
    (hs : Serves accept respond handle start finish)
    (hbody : ∀ i l, m.body i l = serve accept respond handle) (s : S) (as : List (Action O A)) :
    Throughout (fun ev h => start ev.cmd = false → finish ev.cmd = false →
        ∃ request l l' response, own start ev.tid h = ⟨accept, request⟩ :: l ∧
          Execution (handle request) (l ++ ⟨ev.cmd, ev.reply⟩ :: l') response)
      ((Pool.boot m s).run m as).hist := by
  refine (calls_run (fun i l => hbody i l ▸ hs.opens) s as).mono fun ev h hcall hstart hfinish => ?_
  obtain ⟨_, q, hreach⟩ := hcall
  rw [hbody] at hreach
  obtain ⟨l', _, hexec⟩ := hreach.complete
  rw [own_cons_of_not_start _ _ hstart, List.append_assoc] at hexec
  obtain ⟨request, lrest, hlist, hrest⟩ := execution_call.1 hexec
  obtain ⟨lh, response, _, rfl, hhandle, hrespond⟩ := execution_bind.1 hrest
  obtain ⟨r, _, rfl, hpure⟩ := execution_call.1 hrespond
  obtain ⟨rfl, -⟩ := execution_pure.1 hpure
  cases hown : own start ev.tid h with
  | nil =>
    rw [hown, List.nil_append, List.singleton_append] at hlist
    have hcmd : ev.cmd = accept := congrArg Exchange.cmd (List.cons.inj hlist).1
    rw [hcmd, hs.accepts] at hstart
    cases hstart
  | cons x l =>
    rw [hown, List.cons_append] at hlist
    obtain ⟨rfl, hrest⟩ := List.cons.inj hlist
    -- the answer is not the command itself, so it comes after it
    rcases List.eq_nil_or_concat l' with rfl | ⟨l', last, rfl⟩
    · have hlast := (List.append_inj' hrest rfl).2
      have hcmd : ev.cmd = respond request response := congrArg Exchange.cmd (List.cons.inj hlast).1
      rw [hcmd, (hs.responds request response).2] at hfinish
      cases hfinish
    · rw [List.concat_eq_append, ← List.append_assoc, ← List.append_assoc] at hrest
      have heq := (List.append_inj' hrest rfl).1
      exact ⟨request, l, l', response, rfl, by rwa [← heq, List.append_assoc] at hhandle⟩

end Server

end Interleave
