import Mathlib.Tactic
import Mathlib.Algebra.Order.BigOperators.Group.List
import Mathlib.Data.Fintype.Card
import Mathlib.Logic.Relation

/-!
# Kahn's algorithm

The loop of Kahn's topological sort: the node at the head of the queue is put out, and the in-degree
of each node that depends on it is decremented; a node whose in-degree becomes zero joins the queue.

The loop is given a number of rounds.  `queue_drain` says that it ends with an empty queue if this
is at least the `potential` of its start: the length of the queue plus the sum of the in-degrees.  A
round takes one from the queue, and a node that joins it takes one from its in-degree.

A `Graph` is a list of nodes with their dependencies, repeated ones and dependencies on oneself
included.

* `inDegree_releases`, `queue_releases`: what the inner loop of a round does;
* `Invariant`: in-degrees count the dependencies that are not put out yet, the nodes of in-degree
  zero are those in the queue or put out, and a node is put out after its dependencies;
* `Graph.Invariant.length_sorted_iff`: all nodes are put out if and only if the graph has no cycle.
-/

namespace Kahn

/-- The in-degrees, the queue, and the nodes put out so far. -/
structure State (α : Type) where
  inDegree : α → ℤ
  queue : List α
  sorted : List α

section

variable {α : Type} [DecidableEq α]

/-- `inDegree[d]--; if inDegree[d] == 0 { queue = append(queue, d) }`. -/
def release (s : State α) (d : α) : State α where
  inDegree := Function.update s.inDegree d (s.inDegree d - 1)
  queue := if s.inDegree d - 1 = 0 then s.queue ++ [d] else s.queue
  sorted := s.sorted

/-- One round, for the nodes that depend on each node. -/
def round (dependents : α → List α) (s : State α) : State α :=
  match s.queue with
  | [] => s
  | name :: queue =>
      (dependents name).foldl release { s with queue := queue, sorted := s.sorted ++ [name] }

def drain (dependents : α → List α) : ℕ → State α → State α
  | 0, s => s
  | n + 1, s => drain dependents n (round dependents s)

/-- The number of rounds that are enough. -/
def potential (nodes : List α) (s : State α) : ℕ :=
  s.queue.length + (nodes.map fun x => (s.inDegree x).toNat).sum

theorem sum_update {nodes : List α} {f : α → ℤ} {d : α} (hd : d ∈ nodes) (hpos : f d - 1 = 0) :
    (nodes.map fun x => (Function.update f d (f d - 1) x).toNat).sum + 1 ≤
      (nodes.map fun x => (f x).toNat).sum := by
  have hle : ∀ x, (Function.update f d (f d - 1) x).toNat ≤ (f x).toNat := by
    intro x
    by_cases hx : x = d
    · subst hx
      rw [Function.update_self]
      omega
    · rw [Function.update_of_ne hx]
  refine Nat.succ_le_of_lt (List.sum_lt_sum _ _ (fun x _ => hle x) ⟨d, hd, ?_⟩)
  rw [Function.update_self]
  omega

theorem potential_release {nodes : List α} {d : α} (hd : d ∈ nodes) (s : State α) :
    potential nodes (release s d) ≤ potential nodes s := by
  unfold potential release
  by_cases hzero : s.inDegree d - 1 = 0
  · have hsum := sum_update hd hzero
    simp only [hzero, if_true, List.length_append, List.length_singleton] at hsum ⊢
    omega
  · have hsum : (nodes.map fun x => (Function.update s.inDegree d (s.inDegree d - 1) x).toNat).sum ≤
        (nodes.map fun x => (s.inDegree x).toNat).sum := by
      refine List.sum_le_sum fun x _ => ?_
      by_cases hx : x = d
      · subst hx
        rw [Function.update_self]
        omega
      · rw [Function.update_of_ne hx]
    simp only [hzero, if_false]
    omega

theorem potential_releases {nodes ds : List α} (hds : ∀ d ∈ ds, d ∈ nodes) (s : State α) :
    potential nodes (ds.foldl release s) ≤ potential nodes s := by
  induction ds generalizing s with
  | nil => exact le_rfl
  | cons d ds ih =>
    have hd := potential_release (hds d List.mem_cons_self) s
    exact (ih (fun d' hd' => hds d' (List.mem_cons_of_mem _ hd')) _).trans hd

theorem drain_of_empty {dependents : α → List α} {s : State α} (h : s.queue = []) (n : ℕ) :
    drain dependents n s = s := by
  induction n with
  | zero => rfl
  | succ n ih =>
    have hround : round dependents s = s := by
      unfold round
      rw [h]
    rw [drain, hround, ih]

/-- **The loop ends**: after as many rounds as the potential the queue is empty. -/
theorem queue_drain {nodes : List α} {dependents : α → List α}
    (hdep : ∀ x, ∀ d ∈ dependents x, d ∈ nodes) {n : ℕ} {s : State α} (hn : potential nodes s ≤ n) :
    (drain dependents n s).queue = [] := by
  induction n generalizing s with
  | zero =>
    have hlen : s.queue.length = 0 := by
      unfold potential at hn
      omega
    exact List.length_eq_zero_iff.1 hlen
  | succ n ih =>
    cases hq : s.queue with
    | nil => rw [drain_of_empty hq, hq]
    | cons name queue =>
      refine ih ?_
      have hreleases := potential_releases (hdep name)
        { s with queue := queue, sorted := s.sorted ++ [name] }
      have hround : potential nodes { s with queue := queue, sorted := s.sorted ++ [name] } + 1 =
          potential nodes s := by
        simp only [potential, hq, List.length_cons]
        omega
      unfold round
      rw [hq]
      simp only
      omega

/-! ### One round -/

theorem inDegree_release (s : State α) (d x : α) :
    (release s d).inDegree x = s.inDegree x - if x = d then 1 else 0 := by
  by_cases hx : x = d
  · subst hx
    simp [release]
  · simp [release, hx]

theorem queue_release (s : State α) (d : α) :
    (release s d).queue = s.queue ++ if s.inDegree d - 1 = 0 then [d] else [] := by
  simp only [release]
  split_ifs <;> simp

/-- In-degrees go down by the number of times a node is released. -/
theorem inDegree_releases (ds : List α) (s : State α) (x : α) :
    (ds.foldl release s).inDegree x = s.inDegree x - ds.count x := by
  induction ds generalizing s with
  | nil => simp
  | cons d ds ih =>
    rw [List.foldl_cons, ih, inDegree_release, List.count_cons]
    by_cases hx : x = d
    · subst hx
      simp
      omega
    · simp [hx, Ne.symm hx]

theorem sorted_releases (ds : List α) (s : State α) : (ds.foldl release s).sorted = s.sorted := by
  induction ds generalizing s with
  | nil => rfl
  | cons d ds ih => exact ih (release s d)

/-- The nodes whose in-degree goes through zero join the queue, each once and in the order in which
they are released. -/
theorem queue_releases (ds : List α) (s : State α) :
    ∃ joined, (ds.foldl release s).queue = s.queue ++ joined ∧ joined.Nodup ∧ joined.Sublist ds ∧
      ∀ x, x ∈ joined ↔ 1 ≤ s.inDegree x ∧ s.inDegree x ≤ ds.count x := by
  induction ds generalizing s with
  | nil => exact ⟨[], by simp, List.nodup_nil, .slnil, fun x => by simp; omega⟩
  | cons d ds ih =>
    obtain ⟨joined, hqueue, hnodup, hsub, hmem⟩ := ih (release s d)
    simp only [inDegree_release] at hmem
    refine ⟨(if s.inDegree d - 1 = 0 then [d] else []) ++ joined, ?_, ?_, ?_, fun x => ?_⟩
    · rw [List.foldl_cons, hqueue, queue_release, List.append_assoc]
    · split_ifs with hzero
      · -- a node that has gone through zero does not come back to it
        refine List.nodup_cons.2 ⟨fun hd => ?_, hnodup⟩
        have hone := ((hmem d).1 hd).1
        rw [if_pos rfl] at hone
        omega
      · exact hnodup
    · split_ifs
      · exact hsub.cons_cons d
      · exact hsub.cons d
    · rw [List.mem_append, hmem, List.count_cons]
      by_cases hx : x = d
      · subst hx
        by_cases hzero : s.inDegree x - 1 = 0
        · simp [hzero]
          omega
        · simp [hzero]
          omega
      · have hnot : x ∉ (if s.inDegree d - 1 = 0 then [d] else [] : List α) := by
          split_ifs <;> simp [hx]
        simp [hnot, hx, Ne.symm hx]

/-! ### Graphs -/

/-- Nodes and their dependencies, which are nodes. -/
structure Graph (α : Type) where
  nodes : List α
  deps : α → List α
  nodup : nodes.Nodup
  closed : ∀ x, ∀ d ∈ deps x, d ∈ nodes ∧ x ∈ nodes

namespace Graph

variable (g : Graph α)

/-- No node depends on itself, directly or through others. -/
def Acyclic : Prop := ∀ x, ¬ Relation.TransGen (fun d x => d ∈ g.deps x) x x

def start : State α where
  inDegree := fun x => (g.deps x).length
  queue := g.nodes.filter fun x => g.deps x = []
  sorted := []

/-- The nodes that depend on a node, for the keys in the order of an iteration. -/
def dependents (keys : List α) (d : α) : List α :=
  keys.flatMap fun x => ((g.deps x).filter (· = d)).map fun _ => x

structure Invariant (s : State α) : Prop where
  nodup : (s.sorted ++ s.queue).Nodup
  subset : ∀ x ∈ s.sorted ++ s.queue, x ∈ g.nodes
  inDegree : ∀ x ∈ g.nodes, s.inDegree x = (g.deps x).countP (· ∉ s.sorted)
  zero : ∀ x ∈ g.nodes, x ∈ s.sorted ++ s.queue ↔ s.inDegree x = 0
  after : ∀ before x rest, s.sorted = before ++ x :: rest → ∀ d ∈ g.deps x, d ∈ before

variable {g} {keys : List α}

/-- A node is listed as a dependent once for each time it names the dependency. -/
theorem count_dependents (keys : List α) (d x : α) :
    (g.dependents keys d).count x = keys.count x * (g.deps x).count d := by
  unfold dependents
  induction keys with
  | nil => simp
  | cons y keys ih =>
    rw [List.flatMap_cons, List.count_append, ih, List.map_const', List.count_replicate]
    by_cases hyx : y = x
    · subst hyx
      simp [List.count_eq_length_filter, beq_eq_decide, add_mul, add_comm]
    · simp [hyx]

/-- Of the nodes that are listed as dependents, each taken once, the order is that of the keys. -/
theorem sublist_of_dependents {d : α} {l : List α} (hl : l.Nodup)
    (h : l.Sublist (g.dependents keys d)) : l.Sublist keys := by
  unfold dependents at h
  induction keys generalizing l with
  | nil => simpa using h
  | cons x keys ih =>
    rw [List.flatMap_cons, List.map_const'] at h
    obtain ⟨l₁, l₂, rfl, h₁, h₂⟩ := List.sublist_append_iff.1 h
    have hrest := ih hl.of_append_right h₂
    obtain ⟨n, -, rfl⟩ := List.sublist_replicate_iff.1 h₁
    have hn : n ≤ 1 := List.nodup_replicate.1 hl.of_append_left
    interval_cases n
    · exact hrest.cons x
    · exact hrest.cons_cons x

theorem invariant_start : g.Invariant g.start where
  nodup := by simpa [start] using g.nodup.filter _
  subset := fun x hx => by
    rw [start, List.nil_append] at hx
    exact List.mem_of_mem_filter hx
  inDegree := by simp [start]
  zero := by simp +contextual [start]
  after := by simp [start]

theorem countP_not_mem_append {sorted : List α} {name : α} (h : name ∉ sorted) (l : List α) :
    l.countP (· ∉ sorted) = l.countP (· ∉ sorted ++ [name]) + l.count name := by
  induction l with
  | nil => rfl
  | cons d l ih =>
    rw [List.countP_cons, List.countP_cons, List.count_cons, ih]
    by_cases hd : d = name
    · subst hd
      simp [h]
      omega
    · by_cases hds : d ∈ sorted
      · simp [hd, hds]
      · simp [hd, hds]
        omega

/-- A node that is in the queue or put out has all its dependencies put out. -/
theorem Invariant.deps_sorted {s : State α} (h : g.Invariant s) {x : α}
    (hx : x ∈ s.sorted ++ s.queue) : ∀ d ∈ g.deps x, d ∈ s.sorted := by
  have hnode := h.subset x hx
  have hdeg := h.inDegree x hnode
  rw [(h.zero x hnode).1 hx] at hdeg
  have hzero : (g.deps x).countP (· ∉ s.sorted) = 0 := by omega
  simpa using List.countP_eq_zero.1 hzero

/-- A round that puts a node out: each node is released once for each time it names it. -/
theorem round_cons (hkeys : keys.Nodup) (hdeps : ∀ x, g.deps x ≠ [] → x ∈ keys) {s : State α}
    {name : α} {queue : List α} (hq : s.queue = name :: queue) :
    (Kahn.round (g.dependents keys) s).sorted = s.sorted ++ [name] ∧
    (∀ x, (Kahn.round (g.dependents keys) s).inDegree x = s.inDegree x - (g.deps x).count name) ∧
    ∃ joined, (Kahn.round (g.dependents keys) s).queue = queue ++ joined ∧ joined.Nodup ∧
      joined.Sublist keys ∧
      ∀ x, x ∈ joined ↔ 1 ≤ s.inDegree x ∧ s.inDegree x ≤ (g.deps x).count name := by
  have hcount : ∀ x, (g.dependents keys name).count x = (g.deps x).count name := by
    intro x
    rw [count_dependents]
    by_cases hx : x ∈ keys
    · rw [List.count_eq_one_of_mem hkeys hx, one_mul]
    · rw [not_ne_iff.1 fun hne => hx (hdeps x hne), List.count_nil, mul_zero]
  unfold Kahn.round
  rw [hq]
  refine ⟨sorted_releases _ _, fun x => ?_, ?_⟩
  · rw [inDegree_releases, hcount]
  · obtain ⟨joined, hqueue, hnodup, hsub, hmem⟩ :=
      queue_releases (g.dependents keys name)
        { s with queue := queue, sorted := s.sorted ++ [name] }
    simp only [hcount] at hmem
    exact ⟨joined, hqueue, hnodup, sublist_of_dependents hnodup hsub, hmem⟩

/-- The node at the head of the queue may be put out: its dependencies are out. -/
theorem Invariant.after_concat {s : State α} (h : g.Invariant s) {name : α} {queue : List α}
    (hq : s.queue = name :: queue) {before rest : List α} {x : α}
    (hrest : s.sorted ++ [name] = before ++ x :: rest) : ∀ d ∈ g.deps x, d ∈ before := by
  intro d hd
  rcases List.eq_nil_or_concat rest with rfl | ⟨rest', y, rfl⟩
  · obtain ⟨rfl, hx⟩ := List.append_inj' hrest rfl
    cases hx
    exact h.deps_sorted (by simp [hq]) d hd
  · have hold : s.sorted ++ [name] = before ++ x :: rest' ++ [y] := by simpa using hrest
    exact h.after before x rest' (List.append_inj_left' hold rfl) d hd

/-- **A round keeps the invariant.** -/
theorem Invariant.round (hkeys : keys.Nodup) (hdeps : ∀ x, g.deps x ≠ [] → x ∈ keys) {s : State α}
    (h : g.Invariant s) : g.Invariant (Kahn.round (g.dependents keys) s) := by
  cases hq : s.queue with
  | nil =>
    unfold Kahn.round
    rw [hq]
    exact h
  | cons name queue =>
    obtain ⟨hsorted, hdeg, joined, hqueue, hnodup, -, hmem⟩ := round_cons hkeys hdeps hq
    have hnodup₀ := h.nodup
    rw [hq] at hnodup₀
    have hname : name ∉ s.sorted := fun hs =>
      (List.disjoint_of_nodup_append hnodup₀) hs List.mem_cons_self
    have hleft := fun x => countP_not_mem_append hname (g.deps x)
    have hsplit : s.sorted ++ [name] ++ (queue ++ joined) = s.sorted ++ s.queue ++ joined := by
      simp [hq]
    refine ⟨?_, ?_, fun x hx => ?_, fun x hx => ?_, fun before x rest hrest => ?_⟩
    · rw [hsorted, hqueue, hsplit]
      refine List.Nodup.append h.nodup hnodup fun x hx hxj => ?_
      have hzero := (h.zero x (h.subset x hx)).1 hx
      have hone := ((hmem x).1 hxj).1
      omega
    · rw [hsorted, hqueue, hsplit]
      intro x hx
      rcases List.mem_append.1 hx with hx | hx
      · exact h.subset x hx
      · have hone := (hmem x).1 hx
        have hpos : 0 < (g.deps x).count name := by omega
        exact (g.closed x name (List.count_pos_iff.1 hpos)).2
    · rw [hdeg, hsorted]
      have hxdeg := h.inDegree x hx
      have hxleft := hleft x
      omega
    · -- in-degree zero now: it was zero before, or it has gone through zero in this round
      rw [hsorted, hqueue, hsplit, List.mem_append, h.zero x hx, hmem, hdeg]
      have hxdeg := h.inDegree x hx
      have hxleft := hleft x
      omega
    · rw [hsorted] at hrest
      exact h.after_concat hq hrest

theorem Invariant.drain (hkeys : keys.Nodup) (hdeps : ∀ x, g.deps x ≠ [] → x ∈ keys) (n : ℕ)
    {s : State α} (h : g.Invariant s) : g.Invariant (Kahn.drain (g.dependents keys) n s) := by
  induction n generalizing s with
  | zero => exact h
  | succ n ih => exact ih (h.round hkeys hdeps)

/-! ### When the queue is empty -/

/-- All nodes are put out if the graph has no cycle: a node that is left would have a dependency
that is left. -/
theorem Invariant.mem_sorted {s : State α} (h : g.Invariant s) (hempty : s.queue = [])
    (hacyclic : g.Acyclic) : ∀ x ∈ g.nodes, x ∈ s.sorted := by
  let below : {x // x ∈ g.nodes} → {x // x ∈ g.nodes} → Prop :=
    fun d x => Relation.TransGen (fun d x => d ∈ g.deps x) d.1 x.1
  have : IsTrans _ below := ⟨fun _ _ _ hab hbc => hab.trans hbc⟩
  have : Std.Irrefl below := ⟨fun x => hacyclic x.1⟩
  have hall : ∀ x : {x // x ∈ g.nodes}, x.1 ∈ s.sorted := by
    intro x
    induction x using (Finite.wellFounded_of_trans_of_irrefl below).induction with
    | _ x ih =>
      have hdeps : ∀ d ∈ g.deps x.1, d ∈ s.sorted := fun d hd =>
        ih ⟨d, (g.closed x.1 d hd).1⟩ (Relation.TransGen.single hd)
      have hzero : (g.deps x.1).countP (· ∉ s.sorted) = 0 :=
        List.countP_eq_zero.2 fun d hd => by simpa using hdeps d hd
      have hmem := (h.zero x.1 x.2).2 (by rw [h.inDegree x.1 x.2, hzero]; rfl)
      rwa [hempty, List.append_nil] at hmem
  exact fun x hx => hall ⟨x, hx⟩

theorem Invariant.idxOf_lt {s : State α} (h : g.Invariant s) {d x : α} (hd : d ∈ g.deps x)
    (hx : x ∈ s.sorted) : s.sorted.idxOf d < s.sorted.idxOf x := by
  obtain ⟨before, rest, hsplit⟩ := List.append_of_mem hx
  have hmem := h.after before x rest hsplit d hd
  have hnodup : (before ++ x :: rest).Nodup := hsplit ▸ h.nodup.of_append_left
  have hnot : x ∉ before :=
    fun hmem' => (List.disjoint_of_nodup_append hnodup) hmem' List.mem_cons_self
  rw [hsplit, List.idxOf_append_of_mem hmem, List.idxOf_append_of_notMem hnot]
  have := List.idxOf_lt_length_of_mem hmem
  omega

theorem Invariant.subperm {s : State α} (h : g.Invariant s) : s.sorted.Subperm g.nodes :=
  List.subperm_of_subset h.nodup.of_append_left fun x hx => h.subset x (List.mem_append_left _ hx)

theorem Invariant.perm_of_length {s : State α} (h : g.Invariant s)
    (hlen : s.sorted.length = g.nodes.length) : s.sorted.Perm g.nodes :=
  h.subperm.perm_of_length_le hlen.ge

/-- If all nodes are put out, the graph has no cycle. -/
theorem Invariant.acyclic {s : State α} (h : g.Invariant s) (hall : ∀ x ∈ g.nodes, x ∈ s.sorted) :
    g.Acyclic := by
  have hlt : ∀ d x, Relation.TransGen (fun d x => d ∈ g.deps x) d x →
      s.sorted.idxOf d < s.sorted.idxOf x := by
    intro d x hdx
    induction hdx with
    | single hd => exact h.idxOf_lt hd (hall _ (g.closed _ _ hd).2)
    | tail _ hd ih => exact ih.trans (h.idxOf_lt hd (hall _ (g.closed _ _ hd).2))
  exact fun x hx => lt_irrefl _ (hlt x x hx)

/-- **The nodes are all put out if and only if the graph has no cycle.** -/
theorem Invariant.length_sorted_iff {s : State α} (h : g.Invariant s) (hempty : s.queue = []) :
    s.sorted.length = g.nodes.length ↔ g.Acyclic := by
  constructor
  · intro hlen
    exact h.acyclic fun x hx => (h.perm_of_length hlen).mem_iff.2 hx
  · intro hacyclic
    have hsub : g.nodes.Subperm s.sorted :=
      List.subperm_of_subset g.nodup (h.mem_sorted hempty hacyclic)
    exact le_antisymm h.subperm.length_le hsub.length_le

end Graph

end

end Kahn
