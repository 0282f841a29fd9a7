/-!
# Sorted maps

A finite map is kept as the list of its entries with increasing keys, so that two maps are equal
when they give the same value to every key. `get?` is the view through which the operations are
described.
-/

namespace ConstPromotion

/-- Keys whose order is transitive and tells different keys apart. -/
class OrderedKey (κ : Type) [LT κ] : Prop where
  trans : ∀ {a b c : κ}, a < b → b < c → a < c
  eq_of_not_lt : ∀ {a b : κ}, ¬ a < b → ¬ b < a → a = b

instance : OrderedKey String where
  trans := String.lt_trans
  eq_of_not_lt h h' := String.le_antisymm (String.not_lt.1 h') (String.not_lt.1 h)

/-- A finite map as the list of its entries, keys increasing. -/
structure SortedMap (κ α : Type) [LT κ] where
  entries : List (κ × α)
  sorted : entries.Pairwise fun a b => a.1 < b.1

namespace SortedMap

variable {κ α : Type} [LT κ] [DecidableLT κ] [DecidableEq κ]

/-- The map without entries. -/
def empty : SortedMap κ α := ⟨[], .nil⟩

/-- The value of a key. -/
def get? (m : SortedMap κ α) (k : κ) : Option α := (m.entries.find? (·.1 = k)).map (·.2)

/-- The keys of a map in increasing order. -/
def keys (m : SortedMap κ α) : List κ := m.entries.map (·.1)

/-- Keeps the entries whose keys satisfy a test. -/
def restrict (m : SortedMap κ α) (keep : κ → Bool) : SortedMap κ α :=
  ⟨m.entries.filter fun e => keep e.1, m.sorted.filter _⟩

/-- Removes a key. -/
def erase (m : SortedMap κ α) (k : κ) : SortedMap κ α := m.restrict (· ≠ k)

/-- Puts an entry into a list with increasing keys. -/
def insertEntry (k : κ) (v : α) : List (κ × α) → List (κ × α)
  | [] => [(k, v)]
  | (k', v') :: rest =>
    if k < k' then (k, v) :: (k', v') :: rest
    else if k = k' then (k, v) :: rest
    else (k', v') :: insertEntry k v rest

/-- The new entry is the only one that is added. -/
theorem mem_insertEntry {k : κ} {v : α} {l : List (κ × α)} {e : κ × α}
    (h : e ∈ insertEntry k v l) : e = (k, v) ∨ e ∈ l := by
  induction l with
  | nil => simpa [insertEntry] using h
  | cons a rest ih =>
    rw [insertEntry] at h
    split at h
    · simpa using h
    · split at h
      · rcases List.mem_cons.1 h with h | h
        · exact .inl h
        · exact .inr (List.mem_cons_of_mem _ h)
      · rcases List.mem_cons.1 h with h | h
        · exact .inr (h ▸ List.mem_cons_self)
        · exact (ih h).imp id (List.mem_cons_of_mem _)

variable [OrderedKey κ]

/-- Keys stay in order. -/
theorem sorted_insertEntry (k : κ) (v : α) {l : List (κ × α)}
    (h : l.Pairwise fun a b => a.1 < b.1) :
    (insertEntry k v l).Pairwise fun a b => a.1 < b.1 := by
  induction l with
  | nil => simp [insertEntry]
  | cons a rest ih =>
    obtain ⟨first, later⟩ := List.pairwise_cons.1 h
    rw [insertEntry]
    split
    next hk =>
      refine List.pairwise_cons.2 ⟨fun e he => ?_, h⟩
      rcases List.mem_cons.1 he with rfl | he
      · exact hk
      · exact OrderedKey.trans hk (first e he)
    next hk =>
      split
      next heq =>
        subst heq
        exact List.pairwise_cons.2 ⟨first, later⟩
      next hne =>
        refine List.pairwise_cons.2 ⟨fun e he => ?_, ih later⟩
        rcases mem_insertEntry he with rfl | he
        · exact Classical.byContradiction fun hlt => hne (OrderedKey.eq_of_not_lt hk hlt)
        · exact first e he

/-- Gives a key a value, in place of the one it may have. -/
def insert (m : SortedMap κ α) (k : κ) (v : α) : SortedMap κ α :=
  ⟨insertEntry k v m.entries, sorted_insertEntry k v m.sorted⟩

/-- The map of a list of entries, where later ones replace earlier ones. -/
def ofList (l : List (κ × α)) : SortedMap κ α := l.foldl (fun m e => m.insert e.1 e.2) empty

end SortedMap

end ConstPromotion
