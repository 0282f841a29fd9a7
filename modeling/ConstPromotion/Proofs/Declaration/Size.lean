import ConstPromotion.Proofs.Declaration.Grammar
import ConstPromotion.Proofs.Text.Decimal

/-!
# The size of a declaration

Between the brackets of a declaration stand digits and nothing else. However many there are, they
are read as the number that they write if it fits a 64-bit word, and as no number if it does not
(`ArrayDeclaration.sizeValue_of_match`). Zeros before the number do not count.
-/

namespace ConstPromotion

namespace ArrayDeclaration

/-- The size of a declaration is read exactly from the digits between its brackets: it is the number
that they write, where they write one and it fits a 64-bit word, and there is no size otherwise. -/
structure ReadsSize (d : ArrayDeclaration) (digits : List Char) : Prop where
  eq_some_iff (n : Nat) :
    d.sizeValue = some n ↔ digits ≠ [] ∧ Decimal.Writes digits n ∧ n ≤ 2 ^ 64 - 1
  eq_none_iff : d.sizeValue = none ↔ digits = [] ∨ ∃ n, Decimal.Writes digits n ∧ 2 ^ 64 - 1 < n

end ArrayDeclaration

namespace DeclarationParts

variable {p : DeclarationParts}

/-- No sign stands before the digits, and where there are none no number is read. -/
lemma WellFormed.sizeValue_declaration (hp : p.WellFormed) :
    p.declaration.sizeValue = Decimal.parse? Decimal.word64 p.digits := by
  rw [declaration, ArrayDeclaration.sizeValue]
  split_ifs with hnil
  · rw [hnil]
    rfl
  · rw [Option.bind_some, String.toList_ofList, Decimal.parseSigned?_of_isDigit hp.digits]

lemma WellFormed.readsSize (hp : p.WellFormed) : p.declaration.ReadsSize p.digits where
  eq_some_iff n := by
    have hword : n < Decimal.word64 ↔ n ≤ 2 ^ 64 - 1 := by
      rw [Decimal.word64, UInt64.size]
      omega
    rw [hp.sizeValue_declaration, Decimal.parse?_eq_some_iff, hword]
    exact ⟨fun h => ⟨(Decimal.writes_iff.mp h.1).1, h⟩, And.right⟩
  eq_none_iff := by
    rw [hp.sizeValue_declaration, Option.eq_none_iff_forall_ne_some]
    constructor
    · intro h
      refine or_iff_not_imp_left.mpr fun hne => ?_
      have hwrites := Decimal.writes_value hne hp.digits
      have hlarge : ¬ Decimal.value p.digits < Decimal.word64 := fun hlt =>
        h _ (Decimal.parse?_eq_some_iff.mpr ⟨hwrites, hlt⟩)
      rw [Decimal.word64, UInt64.size] at hlarge
      exact ⟨_, hwrites, by omega⟩
    · rintro hlarge n hn
      obtain ⟨hwrites, hlt⟩ := Decimal.parse?_eq_some_iff.mp hn
      obtain ⟨hne, -, hvalue⟩ := Decimal.writes_iff.mp hwrites
      rcases hlarge with hnil | ⟨k, hk, hlarge⟩
      · exact hne hnil
      · -- a row of digits writes one number only
        obtain rfl : n = k := hvalue.symm.trans (Decimal.writes_iff.mp hk).2.2
        rw [Decimal.word64, UInt64.size] at hlt
        omega

end DeclarationParts

namespace ArrayDeclaration

variable {m : DeclarationMatch} {p : DeclarationParts}

/-- A line of text declares what the parts that it starts with declare. -/
lemma declaration_of_match? {line : List Char} (hm : match? line = some m) (hp : p.WellFormed)
    (hline : p.text <+: line) : m.declaration = p.declaration := by
  have hconst := (match?_eq_some_iff.mp hm).1
  obtain ⟨rest, rfl⟩ := hline
  have hfound := match?_eq_some_iff.mpr ⟨hconst, p, hp, rest, rfl, rfl⟩
  obtain rfl : m = p.found (dimensionsLength rest) := Option.some.inj (hm.symm.trans hfound)
  rfl

/-- A line of bytes declares what the parts that it starts with declare. -/
lemma declaration_of_matchBytes? {line : Bytes} (hm : matchBytes? line = some m)
    (hp : p.WellFormed) (hline : Utf8.encode p.text <+: line) :
    m.declaration = p.declaration := by
  have hconst := (matchBytes?_eq_some_iff.mp hm).1
  obtain ⟨run, -, hfound⟩ := matchBytes?_of_isPrefix hconst hp hline
  obtain rfl : m = p.found run.length := Option.some.inj (hm.symm.trans hfound)
  rfl

/-- A line that is recognised, of text or of bytes, starts with the parts of a declaration, and the
size is read exactly from the digits among them. -/
theorem sizeValue_of_match :
    (∀ (line : List Char) (m : DeclarationMatch), match? line = some m →
      (∃ p : DeclarationParts, p.WellFormed ∧ p.text <+: line) ∧
      ∀ p : DeclarationParts, p.WellFormed → p.text <+: line →
        m.declaration.ReadsSize p.digits) ∧
    ∀ (line : Bytes) (m : DeclarationMatch), matchBytes? line = some m →
      (∃ p : DeclarationParts, p.WellFormed ∧ Utf8.encode p.text <+: line) ∧
      ∀ p : DeclarationParts, p.WellFormed → Utf8.encode p.text <+: line →
        m.declaration.ReadsSize p.digits := by
  refine ⟨fun line m hm => ⟨?_, fun p hp hline => ?_⟩, fun line m hm => ⟨?_, fun p hp hline => ?_⟩⟩
  · obtain ⟨-, p, hp, rest, rfl, -⟩ := match?_eq_some_iff.mp hm
    exact ⟨p, hp, List.prefix_append _ _⟩
  · rw [declaration_of_match? hm hp hline]
    exact hp.readsSize
  · obtain ⟨-, p, hp, rest, rfl, -⟩ := matchBytes?_eq_some_iff.mp hm
    exact ⟨p, hp, List.prefix_append _ _⟩
  · rw [declaration_of_matchBytes? hm hp hline]
    exact hp.readsSize

/-- The largest number that fits is read, also after zeros, and the one after it is not. -/
theorem sizeValue_of_match_limit :
    let fits : DeclarationParts :=
      ⟨[' '], "int".toList, [' '], ['t'], "0018446744073709551615".toList⟩
    let exceeds : DeclarationParts :=
      ⟨[' '], "int".toList, [' '], ['t'], "18446744073709551616".toList⟩
    let text := fits.text ++ ";".toList
    let line := Utf8.encode exceeds.text ++ [0xE9]
    (match? text = some (fits.found 0) ∧ fits.WellFormed ∧ fits.text <+: text ∧
      (fits.found 0).declaration.sizeValue = some (2 ^ 64 - 1)) ∧
    matchBytes? line = some (exceeds.found 0) ∧ exceeds.WellFormed ∧
      Utf8.encode exceeds.text <+: line ∧ (exceeds.found 0).declaration.sizeValue = none := by
  intro fits exceeds text line
  have hgap : IsGap [' '] := ⟨by decide, List.all_eq_true.mp (by decide)⟩
  have hint : IsIdentifier "int".toList :=
    ⟨⟨'i', ['n', 't'], rfl, rfl⟩, List.all_eq_true.mp (by decide)⟩
  have ht : IsIdentifier ['t'] := ⟨⟨'t', [], rfl, rfl⟩, List.all_eq_true.mp (by decide)⟩
  have hfits : fits.WellFormed := ⟨hgap, hint, hgap, ht, List.all_eq_true.mp (by decide)⟩
  have hexceeds : exceeds.WellFormed := ⟨hgap, hint, hgap, ht, List.all_eq_true.mp (by decide)⟩
  have htext : match? text = some (fits.found 0) := by decide +kernel
  have hline : matchBytes? line = some (exceeds.found 0) := by decide +kernel
  have hreads := (sizeValue_of_match.1 text _ htext).2 fits hfits (List.prefix_append _ _)
  have hreads' := (sizeValue_of_match.2 line _ hline).2 exceeds hexceeds (List.prefix_append _ _)
  refine ⟨⟨htext, hfits, List.prefix_append _ _, ?_⟩, hline, hexceeds, List.prefix_append _ _, ?_⟩
  · exact (hreads.eq_some_iff _).mpr ⟨by decide, ⟨2, by decide +kernel⟩, le_rfl⟩
  · exact hreads'.eq_none_iff.mpr (.inr ⟨2 ^ 64, ⟨0, by decide +kernel⟩, by decide⟩)

end ArrayDeclaration

end ConstPromotion
