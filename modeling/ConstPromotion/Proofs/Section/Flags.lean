import ConstPromotion.Section.Flags
import Mathlib.Data.Nat.Bitwise
import Mathlib.Tactic

/-!
# Flag letters

The letters of a flag word tell its known bits, and nothing else of it (`flagLetters_eq_iff`): each
known bit has a letter of its own, and the letters stand in the order of the table. A section is
reported as writable exactly if the lowest bit of its flag word is set.
-/

namespace ConstPromotion

/-- The bit of a flag word that lets a section be written. -/
def writeFlag : UInt64 := 1

lemma testBit_zero_iff (flags : UInt64) : flags.toNat.testBit 0 ↔ flags &&& writeFlag ≠ 0 := by
  rw [ne_eq, ← UInt64.toNat_inj, UInt64.toNat_and, Nat.testBit_zero, decide_eq_true_iff,
    show writeFlag.toNat = 1 from rfl, Nat.and_one_is_mod, UInt64.toNat_zero]
  omega

/-- A letter is shown exactly if its bit is set, whatever the other bits are. -/
lemma mem_flagLetters {bit : Nat} {letter : Char} (h : (bit, letter) ∈ flagTable) (flags : UInt64) :
    letter ∈ flagLetters flags ↔ flags.toNat.testBit bit := by
  have hinjective : ∀ e ∈ flagTable, ∀ e' ∈ flagTable, e.2 = e'.2 → e.1 = e'.1 := by decide
  rw [flagLetters, List.mem_filterMap]
  constructor
  · rintro ⟨⟨bit', letter'⟩, hmem, hletter⟩
    by_cases htest : flags.toNat.testBit bit'
    · simp only [htest, if_true, Option.some_inj] at hletter
      obtain rfl : bit' = bit := hinjective _ hmem _ h hletter
      exact htest
    · simp [htest] at hletter
  · intro htest
    exact ⟨(bit, letter), h, if_pos htest⟩

/-- A record of a section is writable exactly if the section is. -/
lemma isWritable_flagLetters (object name : String) (flags : UInt64) :
    (⟨object, name, String.ofList (flagLetters flags)⟩ : SectionRecord).isWritable ↔
      flags &&& writeFlag ≠ 0 := by
  have hW : (0, 'W') ∈ flagTable := by decide
  rw [SectionRecord.isWritable, String.toList_ofList, List.contains_iff_mem, mem_flagLetters hW,
    testBit_zero_iff]

/-! ### Known bits -/

/-- The words with a single bit, one for each bit that has a letter. -/
def knownFlags : List UInt64 :=
  [0x1, 0x2, 0x4, 0x10, 0x20, 0x40, 0x80, 0x100, 0x200, 0x400, 0x800, 0x80000000]

lemma and_eq_and_iff {mask : UInt64} {bit : Nat} (h : mask.toNat = 2 ^ bit) (f g : UInt64) :
    f &&& mask = g &&& mask ↔ f.toNat.testBit bit = g.toNat.testBit bit := by
  rw [← UInt64.toNat_inj, UInt64.toNat_and, UInt64.toNat_and, h, Nat.and_two_pow, Nat.and_two_pow,
    Nat.mul_left_inj (Nat.two_pow_pos bit).ne']
  cases f.toNat.testBit bit <;> cases g.toNat.testBit bit <;> decide

/-- The words are those of the bits of the table, in its order. -/
lemma map_toNat_knownFlags : knownFlags.map UInt64.toNat = flagTable.map (2 ^ ·.1) := by decide

/-- Two words agree on the known flags just if they agree on the bits of the table. -/
lemma forall_knownFlags_iff (f g : UInt64) :
    (∀ mask ∈ knownFlags, f &&& mask = g &&& mask) ↔
      ∀ e ∈ flagTable, f.toNat.testBit e.1 = g.toNat.testBit e.1 := by
  constructor
  · intro h e he
    have hpow : 2 ^ e.1 ∈ knownFlags.map UInt64.toNat := by
      rw [map_toNat_knownFlags]
      exact List.mem_map_of_mem he
    obtain ⟨mask, hknown, hmask⟩ := List.mem_map.mp hpow
    exact (and_eq_and_iff hmask f g).mp (h mask hknown)
  · intro h mask hknown
    have hmask : mask.toNat ∈ flagTable.map (2 ^ ·.1) := by
      rw [← map_toNat_knownFlags]
      exact List.mem_map_of_mem hknown
    obtain ⟨e, he, hpow⟩ := List.mem_map.mp hmask
    exact (and_eq_and_iff hpow.symm f g).mpr (h e he)

lemma flagLetters_sublist (f : UInt64) : (flagLetters f).Sublist (flagTable.map Prod.snd) := by
  rw [flagLetters]
  induction flagTable with
  | nil => exact List.Sublist.refl []
  | cons e table ih =>
    rw [List.map_cons, List.filterMap_cons]
    by_cases htest : f.toNat.testBit e.1
    · simpa [htest] using ih
    · simpa [htest] using ih.cons e.2

/-- The letters of a flag word tell all its known bits and only these. They stand in the order of
the table, each at most once, and the section can be written just if the lowest bit is set. -/
theorem flagLetters_eq_iff (f g : UInt64) (object name : String) :
    (flagLetters f = flagLetters g ↔ ∀ mask ∈ knownFlags, f &&& mask = g &&& mask) ∧
      (flagLetters f).Sublist (flagTable.map Prod.snd) ∧
      (flagLetters f).Nodup ∧
      ((⟨object, name, String.ofList (flagLetters f)⟩ : SectionRecord).isWritable ↔
        f &&& writeFlag ≠ 0) := by
  have hnodup : (flagTable.map Prod.snd).Nodup := by decide
  refine ⟨?_, flagLetters_sublist f, hnodup.sublist (flagLetters_sublist f),
    isWritable_flagLetters object name f⟩
  rw [forall_knownFlags_iff]
  constructor
  · intro h e he
    rw [Bool.eq_iff_iff, ← mem_flagLetters he f, ← mem_flagLetters he g, h]
  · intro h
    refine List.filterMap_congr fun ⟨bit, letter⟩ he => ?_
    simp only [h _ he]

/-- Bits without a letter leave no trace. -/
example : flagLetters 0x80001003 = ['W', 'A', 'E'] := by decide

end ConstPromotion
