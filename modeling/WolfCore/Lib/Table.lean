import Mathlib.Tactic
import Mathlib.Data.List.Sort
import Mathlib.Data.Prod.Lex

/-!
# Tables with a primary key

A `Table` is the list of its rows together with the primary key constraint: no two rows have the
same key.  The operations are the statements of SQL the constraint matters for:

* `insert` (fails on a duplicate key), `insertIfAbsent` (`ON CONFLICT DO NOTHING`);
* `update` (`UPDATE … SET … WHERE`, which does not change keys), `delete` (`DELETE … WHERE`);
* `select` (`SELECT … WHERE … ORDER BY … LIMIT`).

The rows selected by `select` are the first of the rows that satisfy the condition
(`select_oldest`), and there are as many of them as the limit and the table allow
(`length_select`).
-/

namespace Sql

/-- Of two lists related element by element, each element of the first has a counterpart. -/
theorem exists_related {α β : Type} {R : α → β → Prop} {as : List α} {bs : List β}
    (h : List.Forall₂ R as bs) {a : α} (ha : a ∈ as) : ∃ b ∈ bs, R a b := by
  induction h with
  | nil => cases ha
  | cons hr _ ih =>
    rcases List.mem_cons.1 ha with rfl | ha
    · exact ⟨_, List.mem_cons_self, hr⟩
    · obtain ⟨b, hb, hab⟩ := ih ha
      exact ⟨b, List.mem_cons_of_mem _ hb, hab⟩

/-- A table of rows `ρ` with the primary key `key`. -/
structure Table {ρ κ : Type} (key : ρ → κ) where
  rows : List ρ
  nodup : (rows.map key).Nodup

namespace Table

variable {ρ κ : Type} {key : ρ → κ}

instance : Membership ρ (Table key) := ⟨fun t r => r ∈ t.rows⟩

theorem mem_def {t : Table key} {r : ρ} : r ∈ t ↔ r ∈ t.rows := Iff.rfl

def empty : Table key := ⟨[], List.nodup_nil⟩

@[simp] theorem not_mem_empty (r : ρ) : r ∉ (empty : Table key) := List.not_mem_nil

theorem eq_of_key (t : Table key) {r r' : ρ} (hr : r ∈ t) (hr' : r' ∈ t) (h : key r = key r') :
    r = r' :=
  List.inj_on_of_nodup_map t.nodup hr hr' h

/-! ### Statements -/

/-- `INSERT`: fails when the key is taken. -/
def insert [DecidableEq κ] (t : Table key) (r : ρ) : Option (Table key) :=
  if h : key r ∈ t.rows.map key then none
  else some ⟨t.rows ++ [r], by
    rw [List.map_append, List.map_singleton]
    exact t.nodup.append (List.nodup_singleton _) (List.disjoint_singleton.2 h)⟩

/-- `INSERT … ON CONFLICT DO NOTHING`. -/
def insertIfAbsent [DecidableEq κ] (t : Table key) (r : ρ) : Table key := (t.insert r).getD t

/-- `UPDATE … SET f WHERE p`, for an assignment that keeps the key. -/
def update (t : Table key) (p : ρ → Bool) (f : ρ → ρ) (hf : ∀ r, key (f r) = key r) :
    Table key where
  rows := t.rows.map fun r => if p r then f r else r
  nodup := by
    have h : key ∘ (fun r => if p r then f r else r) = key := by
      funext r
      by_cases hp : p r <;> simp [hp, hf]
    rw [List.map_map, h]
    exact t.nodup

/-- `DELETE … WHERE p`. -/
def delete (t : Table key) (p : ρ → Bool) : Table key where
  rows := t.rows.filter fun r => !p r
  nodup := t.nodup.sublist (List.filter_sublist.map key)

/-- `SELECT … WHERE p ORDER BY rank ASC LIMIT n`. -/
def select {α : Type} [LinearOrder α] (t : Table key) (p : ρ → Bool) (rank : ρ → α) (n : ℕ) :
    List ρ :=
  ((t.rows.filter p).insertionSort fun r r' => rank r ≤ rank r').take n

/-! ### Membership -/

theorem insert_eq_none [DecidableEq κ] {t : Table key} {r : ρ} :
    t.insert r = none ↔ ∃ r' ∈ t, key r' = key r := by
  simp [insert, mem_def]

theorem mem_insert [DecidableEq κ] {t t' : Table key} {r r' : ρ} (h : t.insert r = some t') :
    r' ∈ t' ↔ r' ∈ t ∨ r' = r := by
  unfold insert at h
  split_ifs at h
  cases h
  simp [mem_def]

theorem rows_insert [DecidableEq κ] {t t' : Table key} {r : ρ} (h : t.insert r = some t') :
    t'.rows = t.rows ++ [r] := by
  unfold insert at h
  split_ifs at h
  cases h
  rfl

theorem key_ne_of_insert [DecidableEq κ] {t t' : Table key} {r r' : ρ}
    (h : t.insert r = some t') (hr' : r' ∈ t) : key r' ≠ key r := by
  intro hk
  rw [insert_eq_none.2 ⟨r', hr', hk⟩] at h
  cases h

theorem mem_insertIfAbsent_of_mem [DecidableEq κ] {t : Table key} {r r' : ρ} (h : r' ∈ t) :
    r' ∈ t.insertIfAbsent r := by
  unfold insertIfAbsent
  cases ht : t.insert r with
  | none => exact h
  | some t' => exact (mem_insert ht).2 (Or.inl h)

theorem mem_insertIfAbsent [DecidableEq κ] {t : Table key} {r r' : ρ}
    (h : r' ∈ t.insertIfAbsent r) : r' ∈ t ∨ r' = r := by
  unfold insertIfAbsent at h
  cases ht : t.insert r with
  | none =>
    rw [ht] at h
    exact Or.inl h
  | some t' =>
    rw [ht] at h
    exact (mem_insert ht).1 h

/-- After `ON CONFLICT DO NOTHING` the key is present. -/
theorem exists_mem_insertIfAbsent [DecidableEq κ] (t : Table key) (r : ρ) :
    ∃ r' ∈ t.insertIfAbsent r, key r' = key r := by
  unfold insertIfAbsent
  cases ht : t.insert r with
  | none => exact insert_eq_none.1 ht
  | some t' => exact ⟨r, (mem_insert ht).2 (Or.inr rfl), rfl⟩

@[simp] theorem mem_update {t : Table key} {p : ρ → Bool} {f : ρ → ρ}
    {hf : ∀ r, key (f r) = key r} {r' : ρ} :
    r' ∈ t.update p f hf ↔ ∃ r ∈ t, (if p r then f r else r) = r' := by
  simp [mem_def, update]

theorem update_false (t : Table key) (f : ρ → ρ) (hf : ∀ r, key (f r) = key r) :
    t.update (fun _ => false) f hf = t := by
  cases t
  simp [update]

@[simp] theorem mem_delete {t : Table key} {p : ρ → Bool} {r : ρ} :
    r ∈ t.delete p ↔ r ∈ t ∧ p r = false := by
  simp [mem_def, delete]

/-! ### Selection -/

section Select

variable {α : Type} [LinearOrder α] {t : Table key} {p : ρ → Bool} {rank : ρ → α} {n : ℕ}

theorem mem_of_mem_select {r : ρ} (h : r ∈ t.select p rank n) : r ∈ t ∧ p r = true := by
  have h' := List.mem_of_mem_take h
  rw [List.mem_insertionSort] at h'
  exact List.mem_filter.1 h'

theorem nodup_select : ((t.select p rank n).map key).Nodup := by
  have hperm := (List.perm_insertionSort (fun r r' => rank r ≤ rank r') (t.rows.filter p)).map key
  have hfilter : ((t.rows.filter p).map key).Nodup :=
    t.nodup.sublist (List.filter_sublist.map key)
  exact (hperm.nodup_iff.2 hfilter).sublist ((List.take_sublist n _).map key)

theorem length_select : (t.select p rank n).length = min n (t.rows.filter p).length := by
  simp [select]

theorem pairwise_select : (t.select p rank n).Pairwise fun r r' => rank r ≤ rank r' := by
  have : Std.Total (fun r r' : ρ => rank r ≤ rank r') := ⟨fun a b => le_total _ _⟩
  have : IsTrans ρ (fun r r' : ρ => rank r ≤ rank r') := ⟨fun a b c => le_trans⟩
  exact (List.pairwise_insertionSort _ _).sublist (List.take_sublist n _)

/-- A row that satisfies the condition and is not selected comes after every selected row. -/
theorem select_oldest {r r' : ρ} (hr : r ∈ t.select p rank n) (hr' : r' ∈ t) (hp : p r' = true)
    (hn : r' ∉ t.select p rank n) : rank r ≤ rank r' := by
  have : Std.Total (fun r r' : ρ => rank r ≤ rank r') := ⟨fun a b => le_total _ _⟩
  have : IsTrans ρ (fun r r' : ρ => rank r ≤ rank r') := ⟨fun a b c => le_trans⟩
  set l := (t.rows.filter p).insertionSort fun r r' => rank r ≤ rank r' with hl
  have hsorted : l.Pairwise fun r r' => rank r ≤ rank r' := List.pairwise_insertionSort _ _
  have hmem : r' ∈ l := by
    rw [hl, List.mem_insertionSort]
    exact List.mem_filter.2 ⟨hr', hp⟩
  rw [← List.take_append_drop n l, List.pairwise_append] at hsorted
  rw [← List.take_append_drop n l, List.mem_append] at hmem
  rcases hmem with hmem | hmem
  · exact absurd hmem hn
  · exact hsorted.2.2 r hr r' hmem

/-- With a row, every row before it that satisfies the condition is selected. -/
theorem mem_select_of_lt {r r' : ρ} (hr' : r' ∈ t.select p rank n) (hr : r ∈ t) (hp : p r = true)
    (hlt : rank r < rank r') : r ∈ t.select p rank n := by
  by_contra hnot
  exact absurd (select_oldest hr' hr hp hnot) (not_le_of_gt hlt)

/-- Below the limit, every row that satisfies the condition is selected. -/
theorem mem_select_of_length_le {r : ρ} (hn : (t.rows.filter p).length ≤ n) (hr : r ∈ t)
    (hp : p r = true) : r ∈ t.select p rank n := by
  rw [select, List.take_of_length_le (by rw [List.length_insertionSort]; exact hn),
    List.mem_insertionSort]
  exact List.mem_filter.2 ⟨hr, hp⟩

/-- A row that satisfies the condition and is not selected: the limit is reached. -/
theorem length_select_of_not_mem {r : ρ} (hr : r ∈ t) (hp : p r = true)
    (hnot : r ∉ t.select p rank n) : (t.select p rank n).length = n := by
  rw [length_select]
  exact min_eq_left (le_of_not_gt fun hlt => hnot (mem_select_of_length_le hlt.le hr hp))

/-- Some row is selected as soon as one satisfies the condition and the limit is not zero. -/
theorem select_ne_nil {r : ρ} (hr : r ∈ t) (hp : p r = true) (hn : 0 < n) :
    t.select p rank n ≠ [] := by
  intro h
  have hlen : (t.rows.filter p).length ≠ 0 :=
    List.length_pos_iff_exists_mem.2 ⟨r, List.mem_filter.2 ⟨hr, hp⟩⟩ |>.ne'
  have hsel : (t.select p rank n).length = min n (t.rows.filter p).length := length_select
  rw [h, List.length_nil] at hsel
  omega

end Select

end Table

end Sql
