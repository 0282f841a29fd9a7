import ConstPromotion.SortedMap
import Mathlib.Tactic

/-!
# Sorted maps

What the operations on a map do to the values of its keys. A map is the only one with its values
(`ext_get?`), and in the map of a list of entries the last value of a key counts (`get?_ofList`).
-/

namespace ConstPromotion

namespace SortedMap

/-! ### Entries with different keys -/

section Entries

variable {κ α : Type} [DecidableEq κ] {l : List (κ × α)}

/-- Where keys differ, looking for a key finds its only entry. -/
lemma find?_key_eq_some_iff (h : (l.map (·.1)).Nodup) {k : κ} {v : α} :
    (l.find? (·.1 = k)).map (·.2) = some v ↔ (k, v) ∈ l := by
  constructor
  · intro hfind
    obtain ⟨e, he, rfl⟩ := Option.map_eq_some_iff.mp hfind
    have hk : e.1 = k := by simpa using List.find?_some he
    exact hk ▸ List.mem_of_find?_eq_some he
  · intro hmem
    have hsome : (l.find? (·.1 = k)).isSome := List.find?_isSome.mpr ⟨(k, v), hmem, by simp⟩
    obtain ⟨e, he⟩ := Option.isSome_iff_exists.mp hsome
    have hk : e.1 = k := by simpa using List.find?_some he
    obtain rfl : e = (k, v) := List.inj_on_of_nodup_map h (List.mem_of_find?_eq_some he) hmem hk
    rw [he, Option.map_some]

/-- Where keys differ, the first entry of a key is the last one. -/
lemma find?_reverse_of_nodup (h : (l.map (·.1)).Nodup) (k : κ) :
    (l.reverse.find? (·.1 = k)).map (·.2) = (l.find? (·.1 = k)).map (·.2) := by
  have hreverse : (l.reverse.map (·.1)).Nodup := by
    rwa [List.map_reverse, List.nodup_reverse]
  ext v
  rw [find?_key_eq_some_iff h, find?_key_eq_some_iff hreverse, List.mem_reverse]

end Entries

/-! ### Look-up -/

lemma nodup_keys {κ α : Type} [LT κ] [Std.Irrefl (· < · : κ → κ → Prop)] (m : SortedMap κ α) :
    m.keys.Nodup := by
  rw [keys, List.Nodup, List.pairwise_map]
  refine m.sorted.imp fun {a b} hlt heq => ?_
  rw [heq] at hlt
  exact Std.Irrefl.irrefl b.1 hlt

variable {κ α : Type} [LT κ] [DecidableEq κ]

lemma mem_keys_of_get? {m : SortedMap κ α} {k : κ} {v : α} (h : m.get? k = some v) :
    k ∈ m.keys := by
  obtain ⟨e, he, -⟩ := Option.map_eq_some_iff.mp h
  have hk : e.1 = k := by simpa using List.find?_some he
  rw [keys, ← hk]
  exact List.mem_map_of_mem (List.mem_of_find?_eq_some he)

lemma mem_entries_of_get? {m : SortedMap κ α} {k : κ} {v : α} (h : m.get? k = some v) :
    (k, v) ∈ m.entries := by
  obtain ⟨e, he, rfl⟩ := Option.map_eq_some_iff.mp h
  have hk : e.1 = k := by simpa using List.find?_some he
  exact hk ▸ List.mem_of_find?_eq_some he

lemma get?_eq_some_iff [Std.Irrefl (· < · : κ → κ → Prop)] {m : SortedMap κ α} {k : κ} {v : α} :
    m.get? k = some v ↔ (k, v) ∈ m.entries :=
  find?_key_eq_some_iff m.nodup_keys

lemma get?_restrict (m : SortedMap κ α) (keep : κ → Bool) (k : κ) :
    (m.restrict keep).get? k = if keep k then m.get? k else none := by
  rw [get?, get?, restrict, List.find?_filter]
  by_cases h : keep k
  · have hkey : (fun e : κ × α => keep e.1 && decide (e.1 = k)) = fun e => decide (e.1 = k) := by
      funext e
      by_cases he : e.1 = k <;> simp [he, h]
    simp [h, hkey]
  · have hkey : (fun e : κ × α => keep e.1 && decide (e.1 = k)) = fun _ => false := by
      funext e
      by_cases he : e.1 = k <;> simp [he, h]
    simp [h, hkey]

/-- Two maps with the same values are equal. -/
lemma ext_get? [OrderedKey κ] [Std.Irrefl (· < · : κ → κ → Prop)] {m m' : SortedMap κ α}
    (h : ∀ k, m.get? k = m'.get? k) : m = m' := by
  have hmem (e : κ × α) : e ∈ m.entries ↔ e ∈ m'.entries := by
    rw [← get?_eq_some_iff, ← get?_eq_some_iff, h e.1]
  have hperm : m.entries.Perm m'.entries :=
    (List.perm_ext_iff_of_nodup m.nodup_keys.of_map m'.nodup_keys.of_map).mpr hmem
  have hentries : m.entries = m'.entries := by
    refine hperm.eq_of_pairwise (fun a b _ _ hab hba => ?_) m.sorted m'.sorted
    exact absurd (OrderedKey.trans hab hba) (Std.Irrefl.irrefl a.1)
  obtain ⟨entries, sorted⟩ := m
  subst hentries
  rfl

variable [DecidableLT κ]

lemma find?_insertEntry (k k' : κ) (v : α) (entries : List (κ × α)) :
    ((insertEntry k v entries).find? (·.1 = k')).map (·.2) =
      if k = k' then some v else (entries.find? (·.1 = k')).map (·.2) := by
  induction entries with
  | nil => by_cases h : k = k' <;> simp [insertEntry, h]
  | cons e entries ih =>
    rw [insertEntry]
    by_cases hk : k = k'
    · rw [if_pos hk] at ih ⊢
      split_ifs with hlt heq
      · simp [hk]
      · simp [hk]
      · rw [List.find?_cons_of_neg (by simpa [← hk] using Ne.symm heq), ih]
    · rw [if_neg hk] at ih ⊢
      split_ifs with hlt heq
      · simp [hk]
      · simp [← heq, hk]
      · by_cases he : e.1 = k'
        · simp [he]
        · rw [List.find?_cons_of_neg (by simpa using he),
            List.find?_cons_of_neg (by simpa using he), ih]

variable [OrderedKey κ]

lemma get?_insert (m : SortedMap κ α) (k k' : κ) (v : α) :
    (m.insert k v).get? k' = if k = k' then some v else m.get? k' :=
  find?_insertEntry k k' v m.entries

/-! ### Maps of lists -/

/-- Of several values of a key the last one counts. -/
lemma get?_ofList (l : List (κ × α)) (k : κ) :
    (ofList l).get? k = (l.reverse.find? (·.1 = k)).map (·.2) := by
  induction l using List.reverseRecOn with
  | nil => rfl
  | append_singleton l e ih =>
    rw [ofList, List.foldl_append, List.foldl_cons, List.foldl_nil, ← ofList, get?_insert, ih,
      List.reverse_append, List.reverse_singleton, List.singleton_append]
    by_cases hk : e.1 = k
    · rw [if_pos hk, List.find?_cons_of_pos (by simpa using hk), Option.map_some]
    · rw [if_neg hk, List.find?_cons_of_neg (by simpa using hk)]

end SortedMap

end ConstPromotion
