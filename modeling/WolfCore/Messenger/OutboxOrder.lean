import WolfCore.Messenger.Fidelity

/-!
# The order of a poll (`messenger/transport/outbox/postgres_store.go`)

`GetUnpublished` should return the oldest entries that may be published, ordered by creation time.
Without claiming it is a `SELECT … ORDER BY`.  With claiming it is an `UPDATE … RETURNING`: the
subquery still chooses the oldest entries, but its `ORDER BY` does not order the rows that are
returned, and the code does not sort them.

`oldestFirst_iff` says when every order the database may return is the right one.
-/

namespace WolfCore.Messenger

open Go Sql

/-- The rows `GetUnpublished` chooses from. -/
def PostgresStore.eligible (store : PostgresStore) (now : ℤ) (locked : String → Bool)
    (r : OutboxRow) : Bool :=
  if store.claimTimeout ≤ 0 then store.unpublished r else store.available now locked r

/-- The entries are those of the `n` oldest rows that satisfy the condition, or of all if there are
fewer, and they are in the order of their creation. -/
structure OldestFirst (t : OutboxTable) (p : OutboxRow → Bool) (n : ℕ) (es : List Entry) :
    Prop where
  mem : ∀ e ∈ es, ∃ r ∈ t, p r = true ∧ r.entry = e
  nodup : (es.map Entry.id).Nodup
  length : es.length = min n (t.rows.filter p).length
  oldest : ∀ e ∈ es, ∀ r ∈ t, p r = true → r.id ∉ es.map Entry.id → e.createdAt ≤ r.entry.createdAt
  sorted : es.Pairwise fun e e' => e.createdAt ≤ e'.createdAt

/-- The rows that satisfy the condition and were created before the time. -/
def olderThan (t : OutboxTable) (p : OutboxRow → Bool) (createdAt : ℤ) : List OutboxRow :=
  t.rows.filter fun r => p r && r.entry.createdAt < createdAt

section

variable {t : OutboxTable} {p : OutboxRow → Bool} {n : ℕ} {order : RowOrder}

theorem createdAt_le_of_rank {r r' : OutboxRow} (h : order.rank r ≤ order.rank r') :
    r.entry.createdAt ≤ r'.entry.createdAt := by
  rcases Prod.Lex.toLex_le_toLex.1 h with hlt | ⟨heq, -⟩
  · exact hlt.le
  · exact heq.le

/-- The selected rows are in the order of their creation. -/
theorem sorted_select :
    (t.select p order.rank n).Pairwise fun r r' => r.entry.createdAt ≤ r'.entry.createdAt := by
  refine Table.pairwise_select.imp fun hle => ?_
  exact createdAt_le_of_rank hle

theorem rank_lt_of_createdAt {r r' : OutboxRow} (h : r.entry.createdAt < r'.entry.createdAt) :
    order.rank r < order.rank r' :=
  Prod.Lex.toLex_lt_toLex.2 (.inl h)

/-- A list of the selected rows, in any order, has all but the order. -/
theorem oldestFirst_of_perm {rows : List OutboxRow} (hperm : rows.Perm (t.select p order.rank n))
    (hsorted : rows.Pairwise fun r r' => r.entry.createdAt ≤ r'.entry.createdAt) :
    OldestFirst t p n (rows.map OutboxRow.entry) where
  mem e he := by
    obtain ⟨r, hr, rfl⟩ := List.mem_map.1 he
    obtain ⟨hrt, hp⟩ := Table.mem_of_mem_select (hperm.mem_iff.1 hr)
    exact ⟨r, hrt, hp, rfl⟩
  nodup := by
    rw [List.map_map]
    exact (hperm.map OutboxRow.id).nodup_iff.2 Table.nodup_select
  length := by rw [List.length_map, hperm.length_eq, Table.length_select]
  oldest e he r hr hp hnot := by
    obtain ⟨r', hr', rfl⟩ := List.mem_map.1 he
    have hunselected : r ∉ t.select p order.rank n := fun hmem =>
      hnot (List.mem_map.2 ⟨r.entry, List.mem_map.2 ⟨r, hperm.mem_iff.2 hmem, rfl⟩, rfl⟩)
    exact createdAt_le_of_rank (Table.select_oldest (hperm.mem_iff.1 hr') hr hp hunselected)
  sorted := List.pairwise_map.2 hsorted

theorem nodup_rows (t : OutboxTable) : t.rows.Nodup := List.Nodup.of_map _ t.nodup

/-- The selected rows were all created at the same time if a younger row has enough older ones
before it. -/
theorem createdAt_eq_of_mem_select
    (h : ∀ r ∈ t, p r = true → ∀ r' ∈ t, p r' = true → r.entry.createdAt < r'.entry.createdAt →
      n ≤ (olderThan t p r'.entry.createdAt).length)
    {r r' : OutboxRow} (hr : r ∈ t.select p order.rank n) (hr' : r' ∈ t.select p order.rank n) :
    r'.entry.createdAt ≤ r.entry.createdAt := by
  by_contra hlt
  obtain ⟨hrt, hp⟩ := Table.mem_of_mem_select hr
  obtain ⟨hrt', hp'⟩ := Table.mem_of_mem_select hr'
  have hmany := h r hrt hp r' hrt' hp' (lt_of_not_ge hlt)
  -- the younger row and all older ones are selected, and they are too many
  have hnodup : (r' :: olderThan t p r'.entry.createdAt).Nodup :=
    List.nodup_cons.2 ⟨by simp [olderThan], (nodup_rows t).filter _⟩
  have hsub : r' :: olderThan t p r'.entry.createdAt ⊆ t.select p order.rank n := by
    intro r'' hr''
    rcases List.mem_cons.1 hr'' with rfl | hr''
    · exact hr'
    · obtain ⟨hmem, hold⟩ := List.mem_filter.1 hr''
      simp only [Bool.and_eq_true, decide_eq_true_eq] at hold
      exact Table.mem_select_of_lt hr' hmem hold.1 (rank_lt_of_createdAt hold.2)
  have hle := (List.subperm_of_subset hnodup hsub).length_le
  rw [List.length_cons, Table.length_select] at hle
  omega

/-- The order of rows in which, of those with the same creation time, one comes first, and
`RETURNING` gives the youngest rows first. -/
def RowOrder.youngestFirst (id : String) : RowOrder :=
  ⟨fun id' => if id' = id then 0 else 1, List.reverse, List.reverse_perm⟩

/-- A row with too few older ones is selected when it comes first among those of its time. -/
theorem mem_select_youngestFirst {r : OutboxRow} (hr : r ∈ t) (hp : p r = true)
    (hfew : (olderThan t p r.entry.createdAt).length < n) :
    r ∈ t.select p (RowOrder.youngestFirst r.id).rank n := by
  by_contra hnot
  have hlength := Table.length_select_of_not_mem hr hp hnot
  have hsub :
      t.select p (RowOrder.youngestFirst r.id).rank n ⊆ olderThan t p r.entry.createdAt := by
    intro r' hr'
    obtain ⟨hrt', hp'⟩ := Table.mem_of_mem_select hr'
    refine List.mem_filter.2 ⟨hrt', ?_⟩
    rw [hp', Bool.true_and, decide_eq_true_eq]
    rcases Prod.Lex.toLex_le_toLex.1 (Table.select_oldest hr' hr hp hnot) with hlt | ⟨_, htie⟩
    · exact hlt
    · have hid : r'.id = r.id := by
        by_contra hne
        simp [RowOrder.youngestFirst, hne] at htie
      exact absurd (t.eq_of_key hrt' hr hid ▸ hr') hnot
  have hnodup : (t.select p (RowOrder.youngestFirst r.id).rank n).Nodup :=
    List.Nodup.of_map _ Table.nodup_select
  have hle := (List.subperm_of_subset hnodup hsub).length_le
  omega

theorem createdAt_eq_of_sorted_reverse {rows : List OutboxRow}
    (h : rows.Pairwise fun r r' => r.entry.createdAt ≤ r'.entry.createdAt)
    (h' : rows.reverse.Pairwise fun r r' => r.entry.createdAt ≤ r'.entry.createdAt)
    {r r' : OutboxRow} (hr : r ∈ rows) (hr' : r' ∈ rows) :
    r.entry.createdAt = r'.entry.createdAt := by
  have heq : rows.Pairwise fun r r' => r.entry.createdAt = r'.entry.createdAt :=
    (h.and (List.pairwise_reverse.1 h')).imp fun hboth => le_antisymm hboth.1 hboth.2
  have : Std.Symm fun r r' : OutboxRow => r.entry.createdAt = r'.entry.createdAt :=
    ⟨fun _ _ => Eq.symm⟩
  exact List.Pairwise.forall_of_forall
    (R := fun r r' : OutboxRow => r.entry.createdAt = r'.entry.createdAt)
      (fun _ _ => rfl) heq hr hr'

end

/-- **The order of a poll.**  Whatever the database leaves open, `GetUnpublished` returns the oldest
eligible entries by creation time: exactly if it does not claim, or every eligible row that is
younger than another one has at least `batchSize` eligible rows before it, so that all returned rows
were created at the same time. -/
theorem oldestFirst_iff (store : PostgresStore) (now : ℤ) (locked : String → Bool) (batchSize : ℕ)
    (t : OutboxTable) :
    (∀ order, OldestFirst t (store.eligible now locked) batchSize
      (store.getUnpublished now locked order batchSize t).1) ↔
    store.claimTimeout ≤ 0 ∨
      ∀ r ∈ t, store.eligible now locked r = true → ∀ r' ∈ t, store.eligible now locked r' = true →
        r.entry.createdAt < r'.entry.createdAt →
        batchSize ≤ (olderThan t (store.eligible now locked) r'.entry.createdAt).length := by
  by_cases htimeout : store.claimTimeout ≤ 0
  · have helig : store.eligible now locked = store.unpublished := by
      funext r
      exact if_pos htimeout
    refine ⟨fun _ => .inl htimeout, fun _ order => ?_⟩
    rw [PostgresStore.getUnpublished, if_pos htimeout, helig]
    exact oldestFirst_of_perm (.refl _) sorted_select
  · have helig : store.eligible now locked = store.available now locked := by
      funext r
      exact if_neg htimeout
    have hclaim : ∀ order, store.getUnpublished now locked order batchSize t =
        store.getUnpublishedClaim now locked order batchSize t := fun order => if_neg htimeout
    rw [helig, or_iff_right htimeout]
    simp only [hclaim]
    constructor
    · intro hall r hr hp r' hr' hp' hlt
      by_contra hfew
      have hsorted : (t.select (store.available now locked) (RowOrder.youngestFirst r'.id).rank
          batchSize).reverse.Pairwise fun r r' => r.entry.createdAt ≤ r'.entry.createdAt := by
        have hmap := (hall (.youngestFirst r'.id)).sorted
        rw [PostgresStore.getUnpublishedClaim, List.pairwise_map] at hmap
        exact hmap
      have hmem' : r' ∈ t.select (store.available now locked)
          (RowOrder.youngestFirst r'.id).rank batchSize :=
        mem_select_youngestFirst hr' hp' (lt_of_not_ge hfew)
      have hmem := Table.mem_select_of_lt hmem' hr hp (rank_lt_of_createdAt hlt)
      have heq := createdAt_eq_of_sorted_reverse sorted_select hsorted hmem hmem'
      omega
    · intro h order
      refine oldestFirst_of_perm (order.perm _) ?_
      refine List.pairwise_of_forall_mem_list fun r hr r' hr' => ?_
      exact createdAt_eq_of_mem_select h ((order.perm _).mem_iff.1 hr')
        ((order.perm _).mem_iff.1 hr)

/-- Two orders, created one after the other. -/
def twoOrders : OutboxTable :=
  ⟨[⟨⟨"e1", "Order", "o1", "order.PlaceOrder", .null, "", 1, 0⟩, none, none, none⟩,
    ⟨⟨"e2", "Order", "o2", "order.PlaceOrder", .null, "", 2, 0⟩, none, none, none⟩], by decide⟩

/-- The order in which a poll of a claiming store may return them. -/
def polledOrders : List Entry :=
  ((⟨300000000000, 10⟩ : PostgresStore).getUnpublished 3 (fun _ => false) (.youngestFirst "e2") 100
    twoOrders).1

/-- The second order is returned before the first. -/
theorem younger_first : polledOrders.map Entry.createdAt = [2, 1] ∧
    ¬OldestFirst twoOrders ((⟨300000000000, 10⟩ : PostgresStore).eligible 3 fun _ => false) 100
      polledOrders := by
  refine ⟨rfl, fun h => ?_⟩
  have hsorted := List.pairwise_map.2 h.sorted
  exact absurd hsorted (show ¬List.Pairwise (· ≤ ·) [(2 : ℤ), 1] by decide)

end WolfCore.Messenger
