import ConstPromotion.Text.Decimal
import Mathlib.Tactic

/-!
# Decimal numbers

Rendered numbers are made of digits, and different numbers look different, padded or not. The rows
of digits that write a number are the rendered one with zeros before it (`writes_iff`). A number is
read exactly where one is written in digits (`isSome_parseSigned?_iff`), and what is read is the
number itself: a check on the way to a number below the bound never fails, and a number that reaches
the bound fails some check (`parse?_eq_some_iff`).
-/

namespace ConstPromotion.Decimal

/-! ### Rendering -/

lemma isDigit_of_mem_renderPadded {width n : Nat} {c : Char} (h : c ∈ renderPadded width n) :
    c.isDigit := by
  rw [renderPadded, List.mem_append] at h
  rcases h with h | h
  · rw [List.eq_of_mem_replicate h]
    rfl
  · exact Nat.isDigit_of_mem_toDigits (by decide) le_rfl h

lemma renderPadded_ne_nil (width n : Nat) : renderPadded width n ≠ [] := by
  intro h
  rw [renderPadded, List.append_eq_nil_iff] at h
  exact Nat.toDigits_ne_nil h.2

/-- A padded number is read back. -/
lemma ofDigitChars_renderPadded (width n : Nat) :
    Nat.ofDigitChars 10 (renderPadded width n) 0 = n := by
  rw [renderPadded, Nat.ofDigitChars_append, Nat.ofDigitChars_replicate_zero, Nat.mul_zero]
  exact Nat.ofDigitChars_ten_toDigits

lemma renderPadded_injective (width : Nat) : Function.Injective (renderPadded width) := by
  intro m n h
  calc
    m = Nat.ofDigitChars 10 (renderPadded width m) 0 := (ofDigitChars_renderPadded width m).symm
    _ = Nat.ofDigitChars 10 (renderPadded width n) 0 := by rw [h]
    _ = n := ofDigitChars_renderPadded width n

/-! ### Rows of digits -/

/-- A row of digits that writes a number: as it is rendered, with any number of zeros before it. -/
def Writes (digits : List Char) (n : Nat) : Prop :=
  ∃ zeros, digits = List.replicate zeros '0' ++ render n

lemma value_eq (digits : List Char) : value digits = Nat.ofDigitChars 10 digits 0 := rfl

lemma isDigit_iff {c : Char} : c.isDigit ↔ 48 ≤ c.toNat ∧ c.toNat ≤ 57 := by
  simp only [Char.isDigit, Bool.and_eq_true, decide_eq_true_eq, UInt32.le_iff_toNat_le]
  exact Iff.rfl

lemma sub_zero_lt_ten {c : Char} (hc : c.isDigit) : c.toNat - '0'.toNat < 10 := by
  have hbounds := isDigit_iff.mp hc
  change c.toNat - 48 < 10
  omega

/-- A digit is rendered as it was read. -/
lemma render_sub_zero {c : Char} (hc : c.isDigit) : render (c.toNat - '0'.toNat) = [c] := by
  have hbounds := isDigit_iff.mp hc
  have hlt := sub_zero_lt_ten hc
  rw [render, Nat.toDigits_of_lt_base hlt, List.singleton_inj, ← Char.toNat_inj,
    Nat.toNat_digitChar_of_lt_ten hlt]
  change 48 + (c.toNat - 48) = c.toNat
  omega

/-- Digits behind a number that is not zero stay behind it when it is rendered. -/
lemma render_append {digits : List Char} (hdigits : ∀ c ∈ digits, c.isDigit) {n : Nat}
    (hn : 0 < n) : render n ++ digits = render (Nat.ofDigitChars 10 digits n) := by
  induction digits generalizing n with
  | nil => rw [List.append_nil, Nat.ofDigitChars_nil]
  | cons c digits ih =>
    obtain ⟨hc, hdigits⟩ := List.forall_mem_cons.mp hdigits
    have hpush : render n ++ [c] = render (10 * n + (c.toNat - '0'.toNat)) := by
      rw [← render_sub_zero hc]
      exact Nat.toDigits_append_toDigits (by decide) hn (sub_zero_lt_ten hc)
    calc
      render n ++ c :: digits = (render n ++ [c]) ++ digits := by simp
      _ = render (10 * n + (c.toNat - '0'.toNat)) ++ digits := by rw [hpush]
      _ = render (Nat.ofDigitChars 10 digits (10 * n + (c.toNat - '0'.toNat))) :=
        ih hdigits (by omega)
      _ = render (Nat.ofDigitChars 10 (c :: digits) n) := by rw [Nat.ofDigitChars_cons]

/-- Every row of digits writes the number that it is worth. -/
lemma writes_value {digits : List Char} (hne : digits ≠ []) (hdigits : ∀ c ∈ digits, c.isDigit) :
    Writes digits (value digits) := by
  induction digits with
  | nil => exact absurd rfl hne
  | cons c digits ih =>
    obtain ⟨hc, htail⟩ := List.forall_mem_cons.mp hdigits
    by_cases hzero : c = '0'
    · subst hzero
      cases digits with
      | nil => exact ⟨0, rfl⟩
      | cons d digits =>
        obtain ⟨zeros, hzeros⟩ := ih (by simp) htail
        refine ⟨zeros + 1, ?_⟩
        rw [List.replicate_succ, List.cons_append]
        exact congrArg ('0' :: ·) hzeros
    · -- the first digit that is no zero starts the rendered number
      have hpos : 0 < c.toNat - '0'.toNat := by
        have hbounds := isDigit_iff.mp hc
        have hne : c.toNat ≠ 48 := fun h => hzero (Char.toNat_inj.mp h)
        change 0 < c.toNat - 48
        omega
      refine ⟨0, ?_⟩
      rw [List.replicate_zero, List.nil_append, value_eq, Nat.ofDigitChars_cons, Nat.mul_zero,
        Nat.zero_add, ← render_append htail hpos, render_sub_zero hc]
      rfl

/-- Which rows of characters write a number: one or more digits that are worth it. -/
theorem writes_iff {digits : List Char} {n : Nat} : Writes digits n ↔
    digits ≠ [] ∧ (∀ c ∈ digits, c.isDigit) ∧ value digits = n := by
  constructor
  · rintro ⟨zeros, rfl⟩
    have hpadded : List.replicate zeros '0' ++ render n =
        renderPadded (zeros + (render n).length) n := by simp [renderPadded]
    rw [hpadded]
    exact ⟨renderPadded_ne_nil _ _, fun c => isDigit_of_mem_renderPadded,
      ofDigitChars_renderPadded _ _⟩
  · rintro ⟨hne, hdigits, rfl⟩
    exact writes_value hne hdigits

/-! ### Reading -/

lemma below?_eq_some_iff {bound n m : Nat} : below? bound n = some m ↔ n = m ∧ n < bound := by
  rw [below?, Option.ite_none_right_eq_some, Option.some.injEq, and_comm]

/-- One digit more. A product that reaches the bound takes the sum with it. -/
lemma push?_eq_some_iff {bound n m : Nat} {c : Char} : push? bound n c = some m ↔
    c.isDigit ∧ 10 * n + (c.toNat - '0'.toNat) = m ∧ m < bound := by
  simp only [push?, digit?, Option.bind_eq_bind, Option.bind_eq_some_iff,
    Option.ite_none_right_eq_some, Option.some.injEq, below?_eq_some_iff]
  constructor
  · rintro ⟨_, ⟨hc, rfl⟩, _, ⟨rfl, -⟩, rfl, hsum⟩
    exact ⟨hc, rfl, hsum⟩
  · rintro ⟨hc, rfl, hsum⟩
    exact ⟨_, ⟨hc, rfl⟩, _, ⟨rfl, by omega⟩, rfl, hsum⟩

/-- Digits that are put behind a number make it no smaller. -/
lemma le_ofDigitChars (digits : List Char) (n : Nat) : n ≤ Nat.ofDigitChars 10 digits n := by
  rw [Nat.ofDigitChars_eq_ofDigitChars_zero]
  have hmul : n ≤ 10 ^ digits.length * n := Nat.le_mul_of_pos_left n (by positivity)
  omega

/-- A row of digits is put behind a number below the bound, one digit after the other, exactly when
the number that comes out is below the bound. -/
lemma foldlM_push?_eq_some_iff {bound n m : Nat} (hn : n < bound) {text : List Char} :
    text.foldlM (push? bound) n = some m ↔
      (∀ c ∈ text, c.isDigit) ∧ Nat.ofDigitChars 10 text n = m ∧ m < bound := by
  -- along the digits that are still to come, for every number below the bound before them
  induction text generalizing n with
  | nil =>
    simp only [List.foldlM_nil, Option.pure_def, Option.some.injEq, List.not_mem_nil,
      IsEmpty.forall_iff, implies_true, Nat.ofDigitChars_nil, true_and]
    exact ⟨fun h => ⟨h, h ▸ hn⟩, And.left⟩
  | cons c text ih =>
    rw [List.foldlM_cons, Option.bind_eq_bind, Option.bind_eq_some_iff, Nat.ofDigitChars_cons,
      List.forall_mem_cons]
    constructor
    · rintro ⟨k, hpush, hrest⟩
      obtain ⟨hc, rfl, hk⟩ := push?_eq_some_iff.mp hpush
      obtain ⟨htext, hm, hlt⟩ := (ih hk).mp hrest
      exact ⟨⟨hc, htext⟩, hm, hlt⟩
    · rintro ⟨⟨hc, htext⟩, rfl, hlt⟩
      -- no check fails here, as a number that reaches the bound does not get below it again
      have hk := (le_ofDigitChars text _).trans_lt hlt
      exact ⟨_, push?_eq_some_iff.mpr ⟨hc, rfl, hk⟩, (ih hk).mpr ⟨htext, rfl, hlt⟩⟩

/-- What is read of a row of digits is the number that it writes, if that is below the bound. -/
theorem parse?_eq_some_iff {bound n : Nat} {text : List Char} :
    parse? bound text = some n ↔ Writes text n ∧ n < bound := by
  rw [writes_iff, parse?, Option.ite_none_left_eq_some, value_eq]
  rcases bound.eq_zero_or_pos with rfl | hbound
  · have hnone : ∀ k, push? 0 k = fun _ => none := by
      intro k
      funext c
      exact Option.eq_none_iff_forall_ne_some.mpr fun m hm =>
        absurd (push?_eq_some_iff.mp hm).2.2 (Nat.not_lt_zero m)
    cases text with
    | nil => simp
    | cons c text => simp [hnone]
  · rw [foldlM_push?_eq_some_iff hbound]
    tauto

/-- A text that writes a number below a bound in digits, maybe with a plus sign before them. -/
def IsSigned (bound : Nat) (text : List Char) : Prop :=
  ∃ sign digits, text = sign ++ digits ∧ (sign = [] ∨ sign = ['+']) ∧ digits ≠ [] ∧
    (∀ c ∈ digits, c.isDigit) ∧ value digits < bound

lemma isSome_parse?_iff {bound : Nat} {text : List Char} : (parse? bound text).isSome ↔
    text ≠ [] ∧ (∀ c ∈ text, c.isDigit) ∧ value text < bound := by
  simp only [Option.isSome_iff_exists, parse?_eq_some_iff, writes_iff]
  constructor
  · rintro ⟨_, ⟨hne, hdigits, rfl⟩, hlt⟩
    exact ⟨hne, hdigits, hlt⟩
  · rintro ⟨hne, hdigits, hlt⟩
    exact ⟨_, ⟨hne, hdigits, rfl⟩, hlt⟩

/-- Digits alone have no sign before them. -/
lemma parseSigned?_of_isDigit {bound : Nat} {text : List Char} (h : ∀ c ∈ text, c.isDigit) :
    parseSigned? bound text = parse? bound text := by
  rw [parseSigned?.eq_def]
  split
  next digits =>
    have hplus : ('+' : Char).isDigit := h '+' List.mem_cons_self
    simp at hplus
  next => rfl

/-- A number is read where one is written, and nowhere else. -/
theorem isSome_parseSigned?_iff {bound : Nat} {text : List Char} :
    (parseSigned? bound text).isSome ↔ IsSigned bound text := by
  constructor
  · intro h
    rw [parseSigned?.eq_def] at h
    split at h
    next digits => exact ⟨['+'], digits, rfl, .inr rfl, isSome_parse?_iff.mp h⟩
    next => exact ⟨[], text, rfl, .inl rfl, isSome_parse?_iff.mp h⟩
  · rintro ⟨sign, digits, rfl, rfl | rfl, hdigits⟩
    · rw [List.nil_append, parseSigned?_of_isDigit hdigits.2.1]
      exact isSome_parse?_iff.mpr hdigits
    · exact isSome_parse?_iff.mpr hdigits

end ConstPromotion.Decimal
