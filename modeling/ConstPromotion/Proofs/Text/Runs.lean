import Mathlib.Data.List.TakeWhile

/-!
# Runs of characters

A text that starts with a run of characters of one kind falls into that run and what follows it.
-/

namespace ConstPromotion

/-- A list is cut into its longest prefix with a property and what follows in one way only. -/
lemma takeWhile_dropWhile_of_append {α : Type} {q : α → Bool} {s rest : List α} (hs : ∀ a ∈ s, q a)
    (hrest : ∀ a ∈ rest.head?, ¬ q a) :
    (s ++ rest).takeWhile q = s ∧ (s ++ rest).dropWhile q = rest := by
  rw [List.takeWhile_append_of_pos hs, List.dropWhile_append_of_pos hs]
  cases rest with
  | nil => simp
  | cons a rest => simp [hrest a rfl]

lemma not_of_mem_head?_dropWhile {α : Type} {q : α → Bool} {s : List α} :
    ∀ a ∈ (s.dropWhile q).head?, ¬ q a := by
  intro a ha
  have := List.head?_dropWhile_not q s
  rw [Option.mem_def.mp ha] at this
  simpa using this

end ConstPromotion
