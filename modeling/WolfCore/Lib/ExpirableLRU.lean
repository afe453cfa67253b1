import Mathlib.Tactic

/-!
# A least-recently-used cache whose entries expire

The operations of an LRU cache with one time to live for all entries.  Adding an entry restarts its
time; a time to live that is not positive means that entries never expire; and a size of zero means
that none is evicted.  An expired entry is not found, but stays where it is until it is deleted or
evicted.

The lemmas say which entries there can be after each operation: an entry is there only because it
was added.
-/

namespace ExpirableLRU

/-- An entry; without a time it never expires. -/
structure Entry (κ ν : Type) where
  key : κ
  value : ν
  expiresAt : Option ℤ

def Entry.expired {κ ν : Type} (e : Entry κ ν) (now : ℤ) : Bool := e.expiresAt.any fun t => t < now

/-- The cache, with the entry that was used last first. -/
structure LRU (κ ν : Type) where
  size : ℕ
  ttl : ℤ
  items : List (Entry κ ν)

namespace LRU

variable {κ ν : Type} [DecidableEq κ] (c : LRU κ ν)

def new (size ttl : ℤ) : LRU κ ν := ⟨size.toNat, ttl, []⟩

/-- The entry for a key, with a new time to live. -/
def entryAt (now : ℤ) (key : κ) (value : ν) : Entry κ ν :=
  ⟨key, value, if 0 < c.ttl then some (now + c.ttl) else none⟩

/-- The entries without those for a key. -/
def others (key : κ) : List (Entry κ ν) := c.items.filter fun e => e.key ≠ key

/-- Look up a key; an entry that is found becomes the one used last. -/
def get (now : ℤ) (key : κ) : Option ν × LRU κ ν :=
  match c.items.find? fun e => e.key = key with
  | none => (none, c)
  | some e => if e.expired now then (none, c) else
      (some e.value, { c with items := e :: c.others key })

/-- Add an entry, or replace it.  A new one may evict the entry that was not used for longest. -/
def add (now : ℤ) (key : κ) (value : ν) : LRU κ ν :=
  let items := c.entryAt now key value :: c.others key
  if c.items.any fun e => e.key = key then { c with items := items }
  else if 0 < c.size ∧ c.size < items.length then { c with items := items.dropLast }
  else { c with items := items }

def remove (key : κ) : LRU κ ν := { c with items := c.others key }

/-- Delete the expired entries for some keys. -/
def deleteExpired (now : ℤ) (keys : List κ) : LRU κ ν :=
  { c with items := c.items.filter fun e => ¬ (e.key ∈ keys ∧ e.expired now) }

variable {c} {e : Entry κ ν} {now : ℤ} {key : κ} {value : ν}

@[simp] theorem ttl_get : (c.get now key).2.ttl = c.ttl := by
  unfold get
  split
  · rfl
  · split_ifs <;> rfl

@[simp] theorem ttl_add : (c.add now key value).ttl = c.ttl := by
  unfold add
  dsimp only
  split_ifs <;> rfl

@[simp] theorem ttl_deleteExpired (keys : List κ) : (c.deleteExpired now keys).ttl = c.ttl := rfl

@[simp] theorem ttl_foldl_remove (keys : List κ) : (keys.foldl remove c).ttl = c.ttl := by
  induction keys generalizing c with
  | nil => rfl
  | cons key keys ih => exact ih

theorem entryAt_get (key' : κ) :
    (c.get now key).2.entryAt now key' value = c.entryAt now key' value := by
  simp [entryAt]

theorem mem_of_mem_others (h : e ∈ c.others key) : e ∈ c.items := List.mem_of_mem_filter h

theorem mem_of_mem_remove (h : e ∈ (c.remove key).items) : e ∈ c.items := mem_of_mem_others h

theorem mem_of_mem_foldl_remove {keys : List κ} (h : e ∈ (keys.foldl remove c).items) :
    e ∈ c.items := by
  induction keys generalizing c with
  | nil => exact h
  | cons key keys ih => exact mem_of_mem_remove (ih h)

theorem mem_of_mem_deleteExpired {keys : List κ} (h : e ∈ (c.deleteExpired now keys).items) :
    e ∈ c.items :=
  List.mem_of_mem_filter h

theorem mem_of_mem_get (h : e ∈ (c.get now key).2.items) : e ∈ c.items := by
  unfold get at h
  split at h
  · exact h
  · rename_i found hfound
    split_ifs at h
    · exact h
    · rcases List.mem_cons.1 h with rfl | h
      · exact List.mem_of_find?_eq_some hfound
      · exact mem_of_mem_others h

/-- What is found is the value of an entry that has not expired. -/
theorem mem_of_get_eq_some (h : (c.get now key).1 = some value) :
    ∃ e ∈ c.items, e.key = key ∧ e.value = value ∧ e.expired now = false := by
  unfold get at h
  split at h
  · cases h
  · rename_i found hfound
    split_ifs at h with hexpired
    obtain rfl : found.value = value := Option.some.inj h
    exact ⟨found, List.mem_of_find?_eq_some hfound, by simpa using List.find?_some hfound, rfl,
      by simpa using hexpired⟩

theorem eq_or_mem_of_mem_add (h : e ∈ (c.add now key value).items) :
    e = c.entryAt now key value ∨ e ∈ c.items := by
  have hcons : e ∈ c.entryAt now key value :: c.others key →
      e = c.entryAt now key value ∨ e ∈ c.items := fun h =>
    (List.mem_cons.1 h).imp_right mem_of_mem_others
  unfold add at h
  dsimp only at h
  split_ifs at h
  · exact hcons h
  · exact hcons (List.mem_of_mem_dropLast h)
  · exact hcons h

theorem head?_add : (c.add now key value).items.head? = some (c.entryAt now key value) := by
  unfold add
  dsimp only
  split_ifs with hmem hfull
  · rfl
  · -- there is another entry, which is the one evicted
    obtain ⟨hpos, hlt⟩ := hfull
    cases hothers : c.others key with
    | nil =>
      rw [hothers, List.length_singleton] at hlt
      omega
    | cons e' es => rfl
  · rfl

/-- An entry that was just added is found, unless it has expired. -/
theorem get_add (later : ℤ) (h : (c.entryAt now key value).expired later = false) :
    ((c.add now key value).get later key).1 = some value := by
  have hhead : (c.add now key value).items.head? = _ := head?_add
  cases hitems : (c.add now key value).items with
  | nil => simp [hitems] at hhead
  | cons e es =>
    obtain rfl : e = c.entryAt now key value := by simpa [hitems] using hhead
    unfold get
    rw [hitems, List.find?_cons_of_pos (by simp [entryAt])]
    simp only [h, Bool.false_eq_true, if_false]
    rfl

end LRU

end ExpirableLRU
