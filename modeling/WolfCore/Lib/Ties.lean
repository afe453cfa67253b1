import WolfCore.Lib.Named

/-!
# Ties in Kahn's algorithm

The nodes without dependencies come out first, as they are listed.  Any other node joins the queue
in the round of the dependency that comes out last, so the others come out in the order of their
last dependencies.  Nodes with the same last dependency are tied: they come out in the order in
which the dependents were iterated.

* `Graph.Fifo`: the invariant of the queue, and `Graph.exists_rest`, what it says at the end;
* `Graph.eq_of_untied`: an order without ties is the only one;
* `Naming.items_eq_iff`: the order in which items come out is the same for all iteration orders if
  and only if the items can be put into an order without ties.
-/

namespace Kahn

section

variable {α : Type} [DecidableEq α]

/-- The position in a list of the last of some dependencies. -/
def lastDep (deps l : List α) : ℕ := deps.toFinset.sup l.idxOf

theorem lastDep_append {deps l : List α} (h : ∀ d ∈ deps, d ∈ l) (l' : List α) :
    lastDep deps (l ++ l') = lastDep deps l :=
  Finset.sup_congr rfl fun d hd => List.idxOf_append_of_mem (h d (List.mem_toFinset.1 hd))

/-- The last dependency is the one behind all others. -/
theorem lastDep_eq_length {deps sorted : List α} {d : α} (hd : d ∈ deps) (hnew : d ∉ sorted)
    (h : ∀ d' ∈ deps, d' ∈ sorted ++ [d]) (l : List α) :
    lastDep deps (sorted ++ d :: l) = sorted.length := by
  have hlast : (sorted ++ d :: l).idxOf d = sorted.length := by
    rw [List.idxOf_append_of_notMem hnew, List.idxOf_cons_self, add_zero]
  apply le_antisymm
  · refine Finset.sup_le fun d' hd' => ?_
    rcases List.mem_append.1 (h d' (List.mem_toFinset.1 hd')) with hmem | hmem
    · rw [List.idxOf_append_of_mem hmem]
      exact (List.idxOf_lt_length_of_mem hmem).le
    · rw [List.mem_singleton.1 hmem, hlast]
  · exact hlast.ge.trans (Finset.le_sup (f := (sorted ++ d :: l).idxOf) (List.mem_toFinset.2 hd))

theorem idxOf_lt_of_sublist {l : List α} (hl : l.Nodup) {x y : α} (h : [x, y].Sublist l) :
    l.idxOf x < l.idxOf y := by
  obtain ⟨l₁, l₂, rfl, hx, hy⟩ := List.cons_sublist_iff.1 h
  have hnot : y ∉ l₁ := fun hin =>
    List.disjoint_of_nodup_append hl hin (List.singleton_sublist.1 hy)
  rw [List.idxOf_append_of_mem hx, List.idxOf_append_of_notMem hnot]
  have := List.idxOf_lt_length_of_mem hx
  omega

namespace Graph

variable (g : Graph α)

/-- The nodes without dependencies. -/
def roots : List α := g.nodes.filter fun x => g.deps x = []

/-- In a list, the first node has an earlier last dependency than the second one, or they are tied
and come in the order of the keys. -/
def Precedes (keys l : List α) (x y : α) : Prop :=
  lastDep (g.deps x) l < lastDep (g.deps y) l ∨
    lastDep (g.deps x) l = lastDep (g.deps y) l ∧ [x, y].Sublist keys

/-- Between two rounds: which nodes are put out or wait in the queue, and in which order. -/
def Fifo (keys : List α) (s : State α) : Prop :=
  ∃ rest, s.sorted ++ s.queue = g.roots ++ rest ∧
    rest.Pairwise (g.Precedes keys (s.sorted ++ s.queue)) ∧
    ∀ x ∈ rest, lastDep (g.deps x) (s.sorted ++ s.queue) < s.sorted.length

variable {g} {keys : List α}

theorem fifo_start : g.Fifo keys g.start := ⟨[], by simp [start, roots], .nil, nofun⟩

/-- Nodes that are put out or wait in the queue keep their last dependencies. -/
theorem Invariant.lastDep_append {s : State α} (hinv : g.Invariant s) {x : α}
    (hx : x ∈ s.sorted ++ s.queue) (l : List α) :
    lastDep (g.deps x) (s.sorted ++ s.queue ++ l) = lastDep (g.deps x) (s.sorted ++ s.queue) :=
  Kahn.lastDep_append (fun d hd => List.mem_append_left _ (hinv.deps_sorted hx d hd)) l

/-- Nodes that join the queue have the node of the round as their last dependency. -/
theorem Invariant.lastDep_joined {s s' : State α} (hinv : g.Invariant s) (hinv' : g.Invariant s')
    {name : α} {queue : List α} (hq : s.queue = name :: queue)
    (hsorted : s'.sorted = s.sorted ++ [name]) {x : α} (hx : x ∈ s'.sorted ++ s'.queue)
    (hname : name ∈ g.deps x) (l : List α) :
    lastDep (g.deps x) (s.sorted ++ s.queue ++ l) = s.sorted.length := by
  have hnew : name ∉ s.sorted := fun hin =>
    List.disjoint_of_nodup_append hinv.nodup hin (by simp [hq])
  have hout := hinv'.deps_sorted hx
  rw [hsorted] at hout
  rw [hq, List.append_assoc, List.cons_append]
  exact lastDep_eq_length hname hnew hout _

theorem Fifo.round (hkeys : keys.Nodup) (hdeps : ∀ x, g.deps x ≠ [] → x ∈ keys) {s : State α}
    (hinv : g.Invariant s) (h : g.Fifo keys s) :
    g.Fifo keys (Kahn.round (g.dependents keys) s) := by
  cases hq : s.queue with
  | nil =>
    unfold Kahn.round
    rw [hq]
    exact h
  | cons name queue =>
    obtain ⟨hsorted, -, joined, hqueue, -, hsub, hmem⟩ := round_cons hkeys hdeps hq
    obtain ⟨rest, hrest, hpairs, hlast⟩ := h
    have hlist : (Kahn.round (g.dependents keys) s).sorted ++
        (Kahn.round (g.dependents keys) s).queue = s.sorted ++ s.queue ++ joined := by
      rw [hsorted, hqueue, hq]
      simp
    have hold : ∀ x ∈ rest, lastDep (g.deps x) (s.sorted ++ s.queue ++ joined) =
        lastDep (g.deps x) (s.sorted ++ s.queue) := fun x hx =>
      hinv.lastDep_append (hrest ▸ List.mem_append_right _ hx) joined
    have hnew : ∀ x ∈ joined,
        lastDep (g.deps x) (s.sorted ++ s.queue ++ joined) = s.sorted.length := by
      intro x hx
      have hcount : 0 < (g.deps x).count name := by
        have := (hmem x).1 hx
        omega
      exact hinv.lastDep_joined (hinv.round hkeys hdeps) hq hsorted
        (hlist ▸ List.mem_append_right _ hx) (List.count_pos_iff.1 hcount) joined
    unfold Fifo
    rw [hlist, hsorted, List.length_append, List.length_singleton]
    refine ⟨rest ++ joined, by rw [hrest, List.append_assoc], ?_, fun x hx => ?_⟩
    · refine List.pairwise_append.2 ⟨hpairs.imp_of_mem fun hx hy hxy => ?_, ?_, fun x hx y hy => ?_⟩
      · unfold Precedes
        rw [hold _ hx, hold _ hy]
        exact hxy
      · refine List.pairwise_iff_forall_sublist.2 fun {x y} hxy => Or.inr ⟨?_, hxy.trans hsub⟩
        have hpair : ∀ z ∈ [x, y], z ∈ joined := fun z hz => hxy.subset hz
        rw [hnew x (hpair x (by simp)), hnew y (hpair y (by simp))]
      · left
        rw [hold x hx, hnew y hy]
        exact hlast x hx
    · rcases List.mem_append.1 hx with hx | hx
      · rw [hold x hx]
        exact Nat.lt_succ_of_lt (hlast x hx)
      · rw [hnew x hx]
        exact Nat.lt_succ_self _

theorem Fifo.drain (hkeys : keys.Nodup) (hdeps : ∀ x, g.deps x ≠ [] → x ∈ keys) (n : ℕ)
    {s : State α} (hinv : g.Invariant s) (h : g.Fifo keys s) :
    g.Fifo keys (Kahn.drain (g.dependents keys) n s) := by
  induction n generalizing s with
  | zero => exact h
  | succ n ih => exact ih (hinv.round hkeys hdeps) (h.round hkeys hdeps hinv)

/-- **The order in which the nodes come out.** -/
theorem Fifo.exists_rest {s : State α} (h : g.Fifo keys s) (hempty : s.queue = []) :
    ∃ rest, s.sorted = g.roots ++ rest ∧ rest.Pairwise (g.Precedes keys s.sorted) := by
  obtain ⟨rest, hrest, hpairs, -⟩ := h
  rw [hempty, List.append_nil] at hrest hpairs
  exact ⟨rest, hrest, hpairs⟩

/-- An order of the nodes: each once, and after its dependencies. -/
structure Ordering (g : Graph α) (l : List α) : Prop where
  perm : l.Perm g.nodes
  after : ∀ before x rest, l = before ++ x :: rest → ∀ d ∈ g.deps x, d ∈ before

/-- **An order without ties is the only one**, of those that begin with the same nodes and follow
the last dependencies. -/
theorem eq_of_untied {first rest rest' : List α} (h : g.Ordering (first ++ rest))
    (h' : g.Ordering (first ++ rest'))
    (hstrict : rest.Pairwise fun x y =>
      lastDep (g.deps x) (first ++ rest) < lastDep (g.deps y) (first ++ rest))
    (hweak : rest'.Pairwise fun x y =>
      lastDep (g.deps x) (first ++ rest') ≤ lastDep (g.deps y) (first ++ rest')) :
    rest' = rest := by
  have hperm : rest'.Perm rest :=
    (List.perm_append_left_iff first).1 (h'.perm.trans h.perm.symm)
  induction rest generalizing first rest' with
  | nil => exact hperm.eq_nil
  | cons x rest ih =>
    cases rest' with
    | nil => exact absurd hperm.length_eq (by simp)
    | cons y rest' =>
      obtain ⟨hlt, hstrict⟩ := List.pairwise_cons.1 hstrict
      obtain ⟨hle, hweak⟩ := List.pairwise_cons.1 hweak
      -- Otherwise each of them would come behind the other one.
      obtain rfl : y = x := by
        by_contra hne
        have hy : y ∈ rest :=
          (List.mem_cons.1 (hperm.mem_iff.1 List.mem_cons_self)).resolve_left hne
        have hx : x ∈ rest' :=
          (List.mem_cons.1 (hperm.mem_iff.2 List.mem_cons_self)).resolve_left (Ne.symm hne)
        have hdx := h.after _ x rest rfl
        have hdy := h'.after _ y rest' rfl
        have hxy := hlt y hy
        have hyx := hle x hx
        rw [lastDep_append hdx, lastDep_append hdy] at hxy hyx
        omega
      rw [List.append_cons] at h h' hstrict hweak
      rw [ih h h' hstrict hweak hperm.cons_inv]

/-- If the nodes come out in the same order for some keys and for the keys in reverse, there are no
ties. -/
theorem untied_of_reverse (hkeys : keys.Nodup) {l rest : List α}
    (h : rest.Pairwise (g.Precedes keys l)) (hrev : rest.Pairwise (g.Precedes keys.reverse l)) :
    rest.Pairwise fun x y => lastDep (g.deps x) l < lastDep (g.deps y) l := by
  refine (h.and hrev).imp fun {x y} hxy => ?_
  rcases hxy with ⟨hlt | ⟨-, hbefore⟩, hlt | ⟨-, hafter⟩⟩
  · exact hlt
  · exact hlt
  · exact hlt
  · -- tied nodes would come in both orders
    have hback : [y, x].Sublist keys := by simpa using hafter.reverse
    have := idxOf_lt_of_sublist hkeys hbefore
    have := idxOf_lt_of_sublist hkeys hback
    omega

end Graph

end

/-! ### Items -/

namespace Naming

variable {α κ : Type} [DecidableEq κ] {N : Naming α κ} {xs : List α}

variable (N) in
/-- The items can be put into an order, those without dependencies first and as they are listed,
each after its dependencies, and the others by different last dependencies. -/
def Untied (xs : List α) : Prop :=
  ∃ rest, (xs.filter (N.deps · = []) ++ rest).Perm xs ∧
    N.AfterDeps (xs.filter (N.deps · = []) ++ rest) ∧
    rest.Pairwise fun x y =>
      lastDep (N.deps x) ((xs.filter (N.deps · = []) ++ rest).map N.name) <
        lastDep (N.deps y) ((xs.filter (N.deps · = []) ++ rest).map N.name)

section

variable (hnodup : (xs.map N.name).Nodup) (hclosed : N.Closed xs)
include hnodup

theorem map_name_roots : (xs.filter (N.deps · = [])).map N.name =
    (N.graph xs hnodup hclosed).roots := by
  show _ = (xs.map N.name).filter fun k => N.edges xs k = []
  rw [List.filter_map]
  refine congrArg _ (List.filter_congr fun x hx => ?_)
  simp [edges_name hnodup hx]

theorem ordering_map {ys : List α} (hperm : ys.Perm xs) (hafter : N.AfterDeps ys) :
    (N.graph xs hnodup hclosed).Ordering (ys.map N.name) := by
  refine ⟨hperm.map _, fun before k rest hsplit d hd => ?_⟩
  obtain ⟨ys₁, ys₂, hys, rfl, hys₂⟩ := List.map_eq_append_iff.1 hsplit
  obtain ⟨x, ys₃, rfl, rfl, -⟩ := List.map_eq_cons_iff.1 hys₂
  have hx : x ∈ xs := hperm.mem_iff.1 (by rw [hys]; simp)
  have hd' : d ∈ N.edges xs (N.name x) := hd
  rw [edges_name hnodup hx] at hd'
  obtain ⟨y, hy, rfl⟩ := hafter ys₁ x ys₃ hys d hd'
  exact List.mem_map_of_mem hy

variable {range : List κ} (hrange : range.Perm (N.keys xs))
include hclosed hrange

theorem ordering_sorted (hacyclic : N.Acyclic xs) :
    (N.graph xs hnodup hclosed).Ordering (N.loop xs range).sorted := by
  obtain ⟨hperm, hafter⟩ := items_of_acyclic hnodup hclosed hrange hacyclic
  rw [← map_name_items hnodup hclosed hrange]
  exact ordering_map hnodup hclosed hperm hafter

theorem exists_rest : ∃ rest,
    (N.loop xs range).sorted = (N.graph xs hnodup hclosed).roots ++ rest ∧
      rest.Pairwise ((N.graph xs hnodup hclosed).Precedes range (N.loop xs range).sorted) := by
  have hfifo : (N.graph xs hnodup hclosed).Fifo range (N.loop xs range) :=
    Graph.fifo_start.drain (hrange.nodup_iff.2 (hnodup.filter _))
      (fun _ hne => hrange.mem_iff.2 (mem_keys hne)) _ Graph.invariant_start
  exact hfifo.exists_rest (loop_drained hrange)

/-- If there is an order without ties, it comes out. -/
theorem items_of_untied (hacyclic : N.Acyclic xs) {rest : List α}
    (hperm : (xs.filter (N.deps · = []) ++ rest).Perm xs)
    (hafter : N.AfterDeps (xs.filter (N.deps · = []) ++ rest))
    (hstrict : rest.Pairwise fun x y =>
      lastDep (N.deps x) ((xs.filter (N.deps · = []) ++ rest).map N.name) <
        lastDep (N.deps y) ((xs.filter (N.deps · = []) ++ rest).map N.name)) :
    N.items xs range = xs.filter (N.deps · = []) ++ rest := by
  have hroots := map_name_roots hnodup hclosed
  obtain ⟨rest', hrest', hpairs⟩ := exists_rest hnodup hclosed hrange
  have horder := ordering_map hnodup hclosed hperm hafter
  have horder' := ordering_sorted hnodup hclosed hrange hacyclic
  rw [hrest'] at hpairs horder'
  rw [List.map_append, hroots] at horder hstrict
  have hin : ∀ z ∈ rest, z ∈ xs := fun z hz => hperm.mem_iff.1 (List.mem_append_right _ hz)
  have hnames : (rest.map N.name).Pairwise fun k k' =>
      lastDep ((N.graph xs hnodup hclosed).deps k)
          ((N.graph xs hnodup hclosed).roots ++ rest.map N.name) <
        lastDep ((N.graph xs hnodup hclosed).deps k')
          ((N.graph xs hnodup hclosed).roots ++ rest.map N.name) := by
    refine List.pairwise_map.2 (hstrict.imp_of_mem fun {x y} hx hy hxy => ?_)
    show lastDep (N.edges xs (N.name x)) _ < lastDep (N.edges xs (N.name y)) _
    rwa [edges_name hnodup (hin x hx), edges_name hnodup (hin y hy)]
  have hsorted : rest' = rest.map N.name := by
    refine Graph.eq_of_untied horder horder' hnames (hpairs.imp fun hxy => ?_)
    rcases hxy with hlt | ⟨heq, -⟩
    · exact hlt.le
    · exact heq.le
  rw [items, hrest', hsorted, ← hroots, ← List.map_append,
    filterMap_find_names hnodup fun y hy => hperm.mem_iff.1 hy]

end

/-- **When the order does not depend on the iteration.** -/
theorem items_eq_iff (hnodup : (xs.map N.name).Nodup) (hclosed : N.Closed xs)
    (hacyclic : N.Acyclic xs) :
    (∀ range range', range.Perm (N.keys xs) → range'.Perm (N.keys xs) →
      N.items xs range = N.items xs range') ↔ N.Untied xs := by
  constructor
  · intro hall
    -- it is enough to look at the keys as they are listed and in reverse
    have hkeys := List.Perm.refl (N.keys xs)
    have hrev := List.reverse_perm (N.keys xs)
    have hsorted : (N.loop xs (N.keys xs)).sorted = (N.loop xs (N.keys xs).reverse).sorted := by
      rw [← map_name_items hnodup hclosed hkeys, hall _ _ hkeys hrev,
        map_name_items hnodup hclosed hrev]
    obtain ⟨rest, hrest, hpairs⟩ := exists_rest hnodup hclosed hkeys
    obtain ⟨rest', hrest', hpairs'⟩ := exists_rest hnodup hclosed hrev
    obtain rfl : rest' = rest := by
      rw [hsorted, hrest'] at hrest
      exact List.append_cancel_left hrest
    rw [← hsorted] at hpairs'
    have hstrict := Graph.untied_of_reverse (hnodup.filter _) hpairs hpairs'
    obtain ⟨hperm, hafter⟩ := items_of_acyclic hnodup hclosed hkeys hacyclic
    have hitems : N.items xs (N.keys xs) =
        xs.filter (N.deps · = []) ++ rest'.filterMap (N.find xs) := by
      rw [items, hrest, List.filterMap_append, ← map_name_roots hnodup hclosed,
        filterMap_find_names hnodup fun x hx => List.mem_of_mem_filter hx]
    refine ⟨rest'.filterMap (N.find xs), hitems ▸ hperm, hitems ▸ hafter, ?_⟩
    rw [← hitems, map_name_items hnodup hclosed hkeys]
    have hmem : ∀ k ∈ rest', k ∈ xs.map N.name := fun k hk =>
      (loop_invariant hnodup hclosed hkeys).subset k (by rw [hrest]; simp [hk])
    rw [← map_name_filterMap_find hnodup hmem, List.pairwise_map] at hstrict
    refine hstrict.imp_of_mem fun {x y} hx hy hxy => ?_
    have hin : ∀ z ∈ rest'.filterMap (N.find xs), z ∈ xs := fun z hz =>
      hperm.mem_iff.1 (by rw [hitems]; exact List.mem_append_right _ hz)
    rwa [← edges_name hnodup (hin x hx), ← edges_name hnodup (hin y hy)]
  · rintro ⟨rest, hperm, hafter, hstrict⟩ range range' hrange hrange'
    rw [items_of_untied hnodup hclosed hrange hacyclic hperm hafter hstrict,
      items_of_untied hnodup hclosed hrange' hacyclic hperm hafter hstrict]

end Naming

end Kahn
