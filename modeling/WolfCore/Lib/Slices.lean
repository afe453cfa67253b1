import Mathlib.Data.List.Basic
import Mathlib.Tactic.Common

/-!
# Arrays behind slices

A Go slice refers to an array, and two slices of one array see each other's writes.  `Arrays` is the
memory such arrays live in, by address; `make` and `copy` give a new array, and a write changes one
element of one array.

A `Slice` is the beginning of its array.  `append` writes to the array while it has room, so that a
slice may see what is appended to another one of the same array.  `keeps_append` says which do not;
and slices of different arrays (`Separate`) are as good as lists.
-/

namespace Go

/-- The arrays of a memory, by address. -/
structure Arrays (α : Type) where
  cells : List (List α)

namespace Arrays

variable {α : Type} (h : Arrays α)

/-- The number of arrays, which is the address of the next one. -/
def size : ℕ := h.cells.length

/-- The elements of the array at an address. -/
def get (a : ℕ) : List α := h.cells.getD a []

/-- A new array; its address is the size of the memory before. -/
def alloc (elems : List α) : Arrays α := ⟨h.cells ++ [elems]⟩

/-- `s[i] = x`, for a slice of the array at `a`. -/
def write (a i : ℕ) (x : α) : Arrays α := ⟨h.cells.modify a fun elems => elems.set i x⟩

variable {h}

@[simp] theorem size_alloc (elems : List α) :
    (h.alloc elems).size = h.size + 1 := by simp [size, alloc]

@[simp] theorem size_write (a i : ℕ) (x : α) :
    (h.write a i x).size = h.size := by simp [size, write]

@[simp] theorem get_alloc_self (elems : List α) : (h.alloc elems).get h.size = elems := by
  simp [get, alloc, size]

theorem get_alloc_of_lt {a : ℕ} (ha : a < h.size) (elems : List α) :
    (h.alloc elems).get a = h.get a := by
  simp [get, alloc, List.getElem?_append_left ha]

theorem get_write_of_ne {a b : ℕ} (hab : a ≠ b) (i : ℕ) (x : α) :
    (h.write a i x).get b = h.get b := by
  simp [get, write, hab]

/-- A memory with the array of the nil slice, which has no elements. -/
def init : Arrays α := ⟨[[]]⟩

end Arrays

/-- A slice of the beginning of an array, the length of which is its capacity. -/
structure Slice where
  addr : ℕ
  len : ℕ
  deriving DecidableEq

namespace Slice

variable {α : Type}

def nil : Slice := ⟨0, 0⟩

section

variable (h : Arrays α) (s : Slice)

def elems : List α := (h.get s.addr).take s.len

/-- `append(s, x)`: in place while the capacity allows, or else in a new array, which may have some
more elements, all of them zero. -/
def append (x zero : α) (extra : ℕ) : Arrays α × Slice :=
  if s.len < (h.get s.addr).length then (h.write s.addr s.len x, ⟨s.addr, s.len + 1⟩)
  else (h.alloc (s.elems h ++ x :: List.replicate extra zero), ⟨h.size, s.len + 1⟩)

/-- `make` and `copy`. -/
def clone : Arrays α × Slice := (h.alloc (s.elems h), ⟨h.size, s.len⟩)

/-- The slice is in memory. -/
structure Valid : Prop where
  addr_lt : s.addr < h.size
  len_le : s.len ≤ (h.get s.addr).length

end

variable {h h' h'' : Arrays α} {s t : Slice}

/-- The slice is there afterwards, with the same elements. -/
def Keeps (h h' : Arrays α) (s : Slice) : Prop := s.Valid h' ∧ s.elems h' = s.elems h

theorem valid_nil : nil.Valid (Arrays.init : Arrays α) := ⟨Nat.one_pos, Nat.zero_le _⟩

theorem Valid.length_elems (hs : s.Valid h) : (s.elems h).length = s.len :=
  (List.length_take ..).trans (Nat.min_eq_left hs.len_le)

theorem Valid.keeps_alloc (hs : s.Valid h) (l : List α) : s.Keeps h (h.alloc l) := by
  have hget := Arrays.get_alloc_of_lt hs.addr_lt l
  refine ⟨⟨?_, ?_⟩, ?_⟩
  · rw [Arrays.size_alloc]
    exact Nat.lt_succ_of_lt hs.addr_lt
  · rw [hget]
    exact hs.len_le
  · rw [elems, hget, elems]

theorem Valid.get_write (hs : s.Valid h) (i : ℕ) (x : α) :
    (h.write s.addr i x).get s.addr = (h.get s.addr).set i x := by
  have hlt : s.addr < h.cells.length := hs.addr_lt
  simp [Arrays.get, Arrays.write, hlt]

theorem Valid.write (hs : s.Valid h) (a i : ℕ) (x : α) : s.Valid (h.write a i x) := by
  refine ⟨by rw [Arrays.size_write]; exact hs.addr_lt, ?_⟩
  by_cases ha : a = s.addr
  · subst ha
    rw [hs.get_write, List.length_set]
    exact hs.len_le
  · rw [Arrays.get_write_of_ne ha]
    exact hs.len_le

theorem Valid.elems_write (hs : s.Valid h) (i : ℕ) (x : α) :
    s.elems (h.write s.addr i x) = (s.elems h).set i x := by
  rw [elems, hs.get_write, List.take_set, elems]

/-- A write beyond its end, or to another array, leaves a slice alone. -/
theorem Valid.keeps_write (hs : s.Valid h) {a i : ℕ} (hi : s.addr = a → s.len ≤ i) (x : α) :
    s.Keeps h (h.write a i x) := by
  refine ⟨hs.write a i x, ?_⟩
  by_cases ha : s.addr = a
  · subst ha
    rw [hs.elems_write]
    exact List.set_eq_of_length_le (hs.length_elems ▸ hi rfl)
  · rw [elems, Arrays.get_write_of_ne (Ne.symm ha), elems]

/-- What is appended to a slice does not change one that is not longer. -/
theorem Valid.keeps_append (ht : t.Valid h) (hst : t.addr = s.addr → t.len ≤ s.len) (x zero : α)
    (extra : ℕ) : t.Keeps h (s.append h x zero extra).1 := by
  unfold append
  split_ifs
  · exact ht.keeps_write hst x
  · exact ht.keeps_alloc _

theorem Valid.append (hs : s.Valid h) (x zero : α) (extra : ℕ) :
    (s.append h x zero extra).2.Valid (s.append h x zero extra).1 ∧
      (s.append h x zero extra).2.elems (s.append h x zero extra).1 = s.elems h ++ [x] := by
  unfold Slice.append
  split_ifs with hroom
  · have hget := hs.get_write s.len x
    refine ⟨⟨(hs.write s.addr s.len x).addr_lt, ?_⟩, ?_⟩
    · rw [hget, List.length_set]
      exact hroom
    · rw [elems, hget, elems, List.take_add_one, List.getElem?_set_self hroom,
        List.take_set_of_le (Nat.le_refl _)]
      rfl
  · have hlen := hs.length_elems
    refine ⟨⟨by simp, ?_⟩, ?_⟩
    · simp only [Arrays.get_alloc_self, List.length_append, List.length_cons, hlen]
      omega
    · simp only [elems, Arrays.get_alloc_self]
      rw [← elems, List.take_append, hlen, List.take_of_length_le (by omega)]
      simp

theorem Valid.clone (hs : s.Valid h) :
    (s.clone h).2.Valid (s.clone h).1 ∧ (s.clone h).2.elems (s.clone h).1 = s.elems h := by
  have hlen := hs.length_elems
  refine ⟨⟨by simp [Slice.clone], ?_⟩, ?_⟩
  · simp [Slice.clone, hlen]
  · rw [elems, Slice.clone, Arrays.get_alloc_self, List.take_of_length_le (Nat.le_of_eq hlen)]

/-! ### Slices of different arrays -/

/-- Slices in memory, no two of one array. -/
structure Separate (h : Arrays α) (ss : List Slice) : Prop where
  valid : ∀ s ∈ ss, s.Valid h
  injective : ∀ {i j : ℕ} {s t : Slice}, ss[i]? = some s → ss[j]? = some t → s.addr = t.addr → i = j

variable {ss : List Slice} {k : ℕ}

theorem set_self (hk : ss[k]? = some s) : ss.set k s = ss := by
  obtain ⟨hlt, rfl⟩ := List.getElem?_eq_some_iff.1 hk
  exact List.set_getElem_self hlt

theorem Separate.singleton (hs : s.Valid h) : Separate h [s] where
  valid := fun t ht => List.mem_singleton.1 ht ▸ hs
  injective := fun {i j _ _} hi hj _ => by
    have hi' := (List.getElem?_eq_some_iff.1 hi).1
    have hj' := (List.getElem?_eq_some_iff.1 hj).1
    simp only [List.length_singleton] at hi' hj'
    omega

/-- An operation on one of the slices, which stays in its array or moves to a new one. -/
theorem Separate.update (hss : Separate h ss) (hk : ss[k]? = some s) (hs' : t.Valid h')
    (haddr : t.addr = s.addr ∨ h.size ≤ t.addr)
    (hkeeps : ∀ {u : Slice}, u.Valid h → u.addr ≠ s.addr → u.Keeps h h') :
    Separate h' (ss.set k t) ∧
      (ss.set k t).map (elems h') = (ss.map (elems h)).set k (t.elems h') := by
  have hlt : k < ss.length := (List.getElem?_eq_some_iff.1 hk).1
  have hother : ∀ {j : ℕ} {u : Slice}, ss[j]? = some u → j ≠ k → u.addr ≠ s.addr ∧
      u.Keeps h h' := by
    intro j u hu hj
    have hne : u.addr ≠ s.addr := fun heq => hj (hss.injective hu hk heq)
    exact ⟨hne, hkeeps (hss.valid u (List.mem_of_getElem? hu)) hne⟩
  have hfresh : ∀ {j : ℕ} {u : Slice}, ss[j]? = some u → j ≠ k → u.addr ≠ t.addr := by
    intro j u hu hj heq
    have hu' := (hss.valid u (List.mem_of_getElem? hu)).addr_lt
    rcases haddr with hsame | hnew
    · exact (hother hu hj).1 (heq.trans hsame)
    · omega
  have hget : ∀ {j : ℕ} {u : Slice}, (ss.set k t)[j]? = some u → (j = k ∧ u = t) ∨
      (j ≠ k ∧ ss[j]? = some u) := by
    intro j u hu
    by_cases hj : j = k
    · subst hj
      rw [List.getElem?_set_self hlt] at hu
      exact Or.inl ⟨rfl, (Option.some.inj hu).symm⟩
    · rw [List.getElem?_set_ne (Ne.symm hj)] at hu
      exact Or.inr ⟨hj, hu⟩
  refine ⟨⟨?_, ?_⟩, ?_⟩
  · intro u hu
    obtain ⟨j, hj⟩ := List.mem_iff_getElem?.1 hu
    rcases hget hj with ⟨-, rfl⟩ | ⟨hne, hj'⟩
    · exact hs'
    · exact (hother hj' hne).2.1
  · intro i j u v hu hv heq
    rcases hget hu with ⟨rfl, rfl⟩ | ⟨hi, hu'⟩ <;> rcases hget hv with ⟨rfl, rfl⟩ | ⟨hj, hv'⟩
    · rfl
    · exact absurd heq.symm (hfresh hv' hj)
    · exact absurd heq (hfresh hu' hi)
    · exact hss.injective hu' hv' heq
  · refine List.ext_getElem? fun j => ?_
    by_cases hj : j = k
    · subst hj
      simp [hlt]
    · simp only [List.getElem?_map, List.getElem?_set_ne (Ne.symm hj)]
      cases hu : ss[j]? with
      | none => rfl
      | some u => exact congrArg some (hother hu hj).2.2

theorem Separate.append (hss : Separate h ss) (hk : ss[k]? = some s) (x zero : α) (extra : ℕ) :
    Separate (s.append h x zero extra).1 (ss.set k (s.append h x zero extra).2) ∧
      (ss.set k (s.append h x zero extra).2).map (elems (s.append h x zero extra).1) =
        (ss.map (elems h)).set k (s.elems h ++ [x]) := by
  have happend := (hss.valid s (List.mem_of_getElem? hk)).append x zero extra
  rw [← happend.2]
  refine hss.update hk happend.1 ?_ fun hu hne => hu.keeps_append (fun heq => absurd heq hne) ..
  unfold Slice.append
  split_ifs
  · exact Or.inl rfl
  · exact Or.inr (Nat.le_refl _)

theorem Separate.write (hss : Separate h ss) (hk : ss[k]? = some s) (i : ℕ) (x : α) :
    Separate (h.write s.addr i x) ss ∧
      ss.map (elems (h.write s.addr i x)) = (ss.map (elems h)).set k ((s.elems h).set i x) := by
  have hs := hss.valid s (List.mem_of_getElem? hk)
  have hupdate := hss.update hk (hs.write s.addr i x) (Or.inl rfl) fun hu hne =>
    hu.keeps_write (fun heq => absurd heq hne) x
  rwa [set_self hk, hs.elems_write] at hupdate

/-- The slice is cut to nothing, and its array stays. -/
theorem Separate.cut (hss : Separate h ss) (hk : ss[k]? = some s) :
    Separate h (ss.set k ⟨s.addr, 0⟩) ∧
      (ss.set k ⟨s.addr, 0⟩).map (elems h) = (ss.map (elems h)).set k [] :=
  hss.update hk ⟨(hss.valid s (List.mem_of_getElem? hk)).addr_lt, Nat.zero_le _⟩ (Or.inl rfl)
    fun hu _ => ⟨hu, rfl⟩

theorem Separate.clone (hss : Separate h ss) (hs : s ∈ ss) :
    Separate (s.clone h).1 (ss ++ [(s.clone h).2]) ∧
      (ss ++ [(s.clone h).2]).map (elems (s.clone h).1) = ss.map (elems h) ++ [s.elems h] := by
  have hclone := (hss.valid s hs).clone
  have hkeeps : ∀ u ∈ ss, u.Keeps h (s.clone h).1 := fun u hu => (hss.valid u hu).keeps_alloc _
  refine ⟨⟨fun u hu => ?_, fun {i j u v} hu hv heq => ?_⟩, ?_⟩
  · rcases List.mem_append.1 hu with hu | hu
    · exact (hkeeps u hu).1
    · rw [List.mem_singleton.1 hu]
      exact hclone.1
  · have hold : ∀ {j : ℕ} {u : Slice}, ss[j]? = some u → u.addr < h.size :=
      fun hu => (hss.valid _ (List.mem_of_getElem? hu)).addr_lt
    have hcases : ∀ {j : ℕ} {u : Slice}, (ss ++ [(s.clone h).2])[j]? = some u →
        ss[j]? = some u ∨ (j = ss.length ∧ u.addr = h.size) := by
      intro j u hu
      by_cases hj : j < ss.length
      · rw [List.getElem?_append_left hj] at hu
        exact Or.inl hu
      · rw [List.getElem?_append_right (Nat.le_of_not_lt hj), List.getElem?_singleton] at hu
        split_ifs at hu with hlast
        cases hu
        exact Or.inr ⟨by omega, rfl⟩
    rcases hcases hu with hu' | ⟨rfl, hu'⟩ <;> rcases hcases hv with hv' | ⟨rfl, hv'⟩
    · exact hss.injective hu' hv' heq
    · exact absurd (hold hu') (by omega)
    · exact absurd (hold hv') (by omega)
    · rfl
  · rw [List.map_append, List.map_singleton, hclone.2, List.map_congr_left fun u hu =>
      (hkeeps u hu).2]

end Slice

end Go
