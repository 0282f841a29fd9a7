import ConstPromotion.Json.Parser
import ConstPromotion.Json.Printer
import ConstPromotion.Proofs.Text.Runs
import Mathlib.Data.List.DropRight
import Mathlib.Tactic

/-!
# Written JSON is read back

A value that is built from texts, natural numbers, truth values and null is written in two layouts,
and the text of each is read as the value again (`parse?_compact`, `parse?_pretty`). Blank space
before a value and before a closing bracket does not count, so both layouts are read by the same
lemmas on arrays and objects.
-/

namespace ConstPromotion.Json

variable {text space rest : List Char} {v : Json} {fuel : Nat}

/-! ### Blank space -/

/-- Characters that may stand between tokens. -/
def IsSpace (space : List Char) : Prop := ∀ c ∈ space, isSpace c = true

lemma skipSpace_append (h : IsSpace space) (text : List Char) :
    skipSpace (space ++ text) = skipSpace text := by
  rw [skipSpace, List.dropWhile_append_of_pos h, skipSpace]

lemma skipSpace_cons {c : Char} (hc : isSpace c = false) (rest : List Char) :
    skipSpace (c :: rest) = c :: rest := by
  rw [skipSpace, List.dropWhile_cons_of_neg (by simp [hc])]

lemma skipSpace_skipSpace (text : List Char) : skipSpace (skipSpace text) = skipSpace text :=
  List.dropWhile_idempotent _ _

lemma isSpace_newLine (level : Nat) : IsSpace (newLine level) := by
  intro c hc
  rcases List.mem_cons.mp hc with rfl | hc
  · rfl
  · rw [List.eq_of_mem_replicate hc]
    rfl

lemma value?_skipSpace (fuel : Nat) (text : List Char) :
    value? fuel (skipSpace text) = value? fuel text := by
  cases fuel with
  | zero => rfl
  | succ fuel => rw [value?, value?, skipSpace_skipSpace]

lemma items?_skipSpace (fuel : Nat) (text : List Char) :
    items? fuel (skipSpace text) = items? fuel text := by
  cases fuel with
  | zero => rfl
  | succ fuel => rw [items?, items?, value?_skipSpace]

lemma fields?_skipSpace (fuel : Nat) (text : List Char) :
    fields? fuel (skipSpace text) = fields? fuel text := by
  cases fuel with
  | zero => rfl
  | succ fuel => rw [fields?, fields?, skipSpace_skipSpace]

/-! ### Numbers -/

/-- What follows a value does not go on with a number. -/
def EndsNumber (rest : List Char) : Prop :=
  ∀ c ∈ rest.head?, c.isDigit = false ∧ c ≠ '.' ∧ c ≠ 'e' ∧ c ≠ 'E'

lemma endsNumber_nil : EndsNumber [] := by simp [EndsNumber]

/-- Blank space ends a number as well. -/
lemma EndsNumber.append (hrest : EndsNumber rest) (hspace : IsSpace space) :
    EndsNumber (space ++ rest) := by
  cases space with
  | nil => exact hrest
  | cons b space =>
    have hb := hspace b List.mem_cons_self
    simp only [isSpace, Bool.or_eq_true, beq_iff_eq] at hb
    intro c hc
    obtain rfl : b = c := by simpa using hc
    rcases hb with ((rfl | rfl) | rfl) | rfl <;> decide

lemma head?_toDigits_ne_zero {n : Nat} (hn : 0 < n) : (Nat.toDigits 10 n).head? ≠ some '0' := by
  induction n using Nat.strongRecOn with
  | ind n ih =>
    rw [Nat.toDigits_eq_if (by decide)]
    split_ifs with hlt
    · interval_cases n <;> decide
    · rw [List.head?_append_of_ne_nil _ Nat.toDigits_ne_nil]
      exact ih (n / 10) (by omega) (by omega)

lemma isDigit_of_mem_toDigits {n : Nat} {c : Char} (h : c ∈ Nat.toDigits 10 n) : c.isDigit = true :=
  Nat.isDigit_of_mem_toDigits (by decide) le_rfl h

lemma digits?_toDigits (n : Nat) (hrest : EndsNumber rest) :
    digits? (Nat.toDigits 10 n ++ rest) = some (Nat.toDigits 10 n, rest) := by
  have hdigits : ∀ c ∈ Nat.toDigits 10 n, c.isDigit := fun c => isDigit_of_mem_toDigits
  obtain ⟨htake, hdrop⟩ := takeWhile_dropWhile_of_append hdigits fun c hc => by
    simp [(hrest c hc).1]
  rw [digits?, htake, hdrop]
  cases heq : Nat.toDigits 10 n with
  | nil => exact absurd heq Nat.toDigits_ne_nil
  | cons c digits => rfl

/-- A natural number has no zero before it, so all its digits are read. -/
lemma whole?_toDigits (n : Nat) (hrest : EndsNumber rest) :
    whole? (Nat.toDigits 10 n ++ rest) = some (Nat.toDigits 10 n, rest) := by
  rcases Nat.eq_zero_or_pos n with rfl | hn
  · rfl
  · have hhead : (Nat.toDigits 10 n ++ rest).head? ≠ some '0' := by
      rw [List.head?_append_of_ne_nil _ Nat.toDigits_ne_nil]
      exact head?_toDigits_ne_zero hn
    rw [whole?.eq_def]
    split
    next heq => exact absurd (congrArg List.head? heq) hhead
    next => exact digits?_toDigits n hrest

lemma fraction?_of_endsNumber (hrest : EndsNumber rest) : fraction? rest = some ([], rest) := by
  rw [fraction?.eq_def]
  split
  next => exact absurd rfl (hrest '.' rfl).2.1
  next => rfl

lemma exponent?_of_endsNumber (hrest : EndsNumber rest) : exponent? rest = some ([], rest) := by
  cases rest with
  | nil => rfl
  | cons c rest =>
    obtain ⟨-, -, he, hE⟩ := hrest c rfl
    rw [exponent?.eq_def]
    exact if_neg (by simp [he, hE])

lemma number?_toDigits (n : Nat) (hrest : EndsNumber rest) :
    number? (Nat.toDigits 10 n ++ rest) = some (Nat.toDigits 10 n, rest) := by
  have hhead : (Nat.toDigits 10 n ++ rest).head? ≠ some '-' := by
    rw [List.head?_append_of_ne_nil _ Nat.toDigits_ne_nil]
    exact fun hsign => absurd (isDigit_of_mem_toDigits (List.mem_of_mem_head? hsign)) (by decide)
  have hunsigned := whole?_toDigits n hrest
  generalize Nat.toDigits 10 n ++ rest = text at hhead hunsigned ⊢
  rw [number?.eq_def]
  split
  next sign digits heq =>
    split at heq
    next => exact absurd rfl hhead
    next =>
      obtain ⟨rfl, rfl⟩ := Prod.mk.inj heq
      simp [hunsigned, fraction?_of_endsNumber hrest, exponent?_of_endsNumber hrest]

/-! ### Strings -/

lemma hexDigit?_hexChar {n : Nat} (h : n < 16) : hexDigit? (hexChar n) = some n := by
  have hall : ∀ n < 16, hexDigit? (hexChar n) = some n := by decide
  exact hall n h

lemma units?_cons {c : Char} (hquote : c ≠ '"') (hescape : c ≠ '\\') (hlow : ¬ c.toNat < 0x20)
    (fuel : Nat) (text : List Char) :
    units? (fuel + 1) (c :: text) =
      (units? fuel text).map fun (units, rest) => (.char c :: units, rest) := by
  rw [units?, if_neg (by simp [hescape, hlow])]
  · cases units? fuel text <;> rfl
  · exact hquote
  · exact fun _ heq _ => hescape heq
  · exact fun _ _ heq _ => hescape heq

/-- What a letter after a backslash stands for is one unit. -/
lemma units?_escape {letter c : Char} (hletter : escape? letter = some c) (fuel : Nat)
    (text : List Char) :
    units? (fuel + 1) ('\\' :: letter :: text) =
      (units? fuel text).map fun (units, rest) => (.char c :: units, rest) := by
  rw [units?, hletter]
  · cases units? fuel text <;> rfl
  · rintro rfl
    cases hletter

/-- A control character is written by its code. -/
lemma units?_control {c : Char} (hlow : c.toNat < 0x20) (fuel : Nat) (text : List Char) :
    units? (fuel + 1)
        ('\\' :: 'u' :: '0' :: '0' :: hexChar (c.toNat / 16) :: hexChar (c.toNat % 16) :: text) =
      (units? fuel text).map fun (units, rest) => (.char c :: units, rest) := by
  have hcode : hex4? ('0' :: '0' :: hexChar (c.toNat / 16) :: hexChar (c.toNat % 16) :: text) =
      some (c.toNat, text) := by
    have hzero : hexDigit? '0' = some 0 := rfl
    rw [hex4?, hzero, hexDigit?_hexChar (by omega), hexDigit?_hexChar (by omega)]
    simp only [Option.bind_eq_bind, Option.bind_some, Option.pure_def, Option.some.injEq,
      Prod.mk.injEq, and_true]
    omega
  have hunit : TextUnit.ofCode c.toNat = .char c := by
    rw [TextUnit.ofCode, if_neg (by omega), Char.ofNat_toNat]
  rw [units?, hcode]
  simp only [Option.bind_eq_bind, Option.bind_some, hunit]
  cases units? fuel text <;> rfl

/-- A character as it stands in a literal is read as one unit. -/
lemma units?_escapeChar (c : Char) (fuel : Nat) (text : List Char) :
    units? (fuel + 1) (escapeChar c ++ text) =
      (units? fuel text).map fun (units, rest) => (.char c :: units, rest) := by
  rw [escapeChar.eq_def]
  split
  case h_8 hquote hescape _ _ _ _ _ =>
    split_ifs with hlow
    · exact units?_control hlow fuel text
    · exact units?_cons hquote hescape hlow fuel text
  all_goals exact units?_escape rfl fuel text

/-- A text in its literal is read as one unit for each character. -/
lemma units?_flatMap (s : List Char) (rest : List Char) (hfuel : s.length < fuel) :
    units? fuel (s.flatMap escapeChar ++ '"' :: rest) = some (s.map .char, rest) := by
  induction s generalizing fuel with
  | nil =>
    obtain ⟨fuel, rfl⟩ := Nat.exists_eq_add_one_of_ne_zero (Nat.ne_zero_of_lt hfuel)
    rfl
  | cons c s ih =>
    obtain ⟨fuel, rfl⟩ := Nat.exists_eq_add_one_of_ne_zero (Nat.ne_zero_of_lt hfuel)
    rw [List.flatMap_cons, List.append_assoc, units?_escapeChar, ih (by simpa using hfuel)]
    rfl

lemma textOfUnits?_map (s : List Char) : textOfUnits? (s.map .char) = some s := by
  induction s with
  | nil => rfl
  | cons c s ih => rw [List.map_cons, textOfUnits?, ih, Option.map_some]

lemma length_le_flatMap_escapeChar (s : List Char) : s.length ≤ (s.flatMap escapeChar).length := by
  have hpos (c : Char) : 1 ≤ (escapeChar c).length := by
    rw [escapeChar.eq_def]
    split
    case h_8 => split_ifs <;> simp
    all_goals simp
  induction s with
  | nil => simp
  | cons c s ih =>
    have := hpos c
    simp only [List.flatMap_cons, List.length_cons, List.length_append]
    omega

/-- A literal is read as its text. -/
lemma string?_flatMap (s rest : List Char) :
    string? (s.flatMap escapeChar ++ '"' :: rest) = some (some (String.ofList s), rest) := by
  have hfuel : s.length < (s.flatMap escapeChar ++ '"' :: rest).length + 1 := by
    have := length_le_flatMap_escapeChar s
    simp only [List.length_append, List.length_cons]
    omega
  rw [string?, units?_flatMap s rest hfuel]
  simp [textOfUnits?_map]

/-! ### Values -/

/-- A text is read as a value wherever it stands, unless what follows goes on with a number. -/
def IsRead (text : List Char) (v : Json) : Prop :=
  ∀ fuel rest, text.length < fuel → EndsNumber rest → value? fuel (text ++ rest) = some (v, rest)

/-- A text is read as the items of an array up to its closing bracket. -/
def AreItems (text : List Char) (items : List Json) : Prop :=
  ∀ fuel rest, text.length < fuel → items? fuel (text ++ rest) = some (items, rest)

/-- A text is read as the fields of an object up to its closing brace. -/
def AreFields (text : List Char) (fields : List (Option String × Json)) : Prop :=
  ∀ fuel rest, text.length < fuel → fields? fuel (text ++ rest) = some (fields, rest)

/-- There is always a step to take. -/
lemma IsRead.of_succ (h : ∀ fuel rest, text.length ≤ fuel → EndsNumber rest →
    value? (fuel + 1) (text ++ rest) = some (v, rest)) : IsRead text v := by
  intro fuel rest hfuel hrest
  obtain ⟨fuel, rfl⟩ := Nat.exists_eq_add_one_of_ne_zero (Nat.ne_zero_of_lt hfuel)
  exact h fuel rest (Nat.le_of_lt_succ hfuel) hrest

lemma AreItems.of_succ {items : List Json} (h : ∀ fuel rest, text.length ≤ fuel →
    items? (fuel + 1) (text ++ rest) = some (items, rest)) : AreItems text items := by
  intro fuel rest hfuel
  obtain ⟨fuel, rfl⟩ := Nat.exists_eq_add_one_of_ne_zero (Nat.ne_zero_of_lt hfuel)
  exact h fuel rest (Nat.le_of_lt_succ hfuel)

lemma AreFields.of_succ {fields : List (Option String × Json)} (h : ∀ fuel rest,
    text.length ≤ fuel → fields? (fuel + 1) (text ++ rest) = some (fields, rest)) :
    AreFields text fields := by
  intro fuel rest hfuel
  obtain ⟨fuel, rfl⟩ := Nat.exists_eq_add_one_of_ne_zero (Nat.ne_zero_of_lt hfuel)
  exact h fuel rest (Nat.le_of_lt_succ hfuel)

/-- Blank space before a value does not count. -/
lemma IsRead.after_space (h : IsRead text v) (hspace : IsSpace space) :
    IsRead (space ++ text) v := by
  intro fuel rest hfuel hrest
  rw [List.length_append] at hfuel
  rw [List.append_assoc, ← value?_skipSpace, skipSpace_append hspace, value?_skipSpace]
  exact h fuel rest (by omega) hrest

lemma AreFields.after_space {fields : List (Option String × Json)} (h : AreFields text fields)
    (hspace : IsSpace space) : AreFields (space ++ text) fields := by
  intro fuel rest hfuel
  rw [List.length_append] at hfuel
  rw [List.append_assoc, ← fields?_skipSpace, skipSpace_append hspace, fields?_skipSpace]
  exact h fuel rest (by omega)

lemma isRead_null : IsRead "null".toList .null :=
  .of_succ fun _ _ _ _ => rfl

lemma isRead_true : IsRead "true".toList (.bool true) :=
  .of_succ fun _ _ _ _ => rfl

lemma isRead_false : IsRead "false".toList (.bool false) :=
  .of_succ fun _ _ _ _ => rfl

lemma isRead_nat (n : Nat) : IsRead (Nat.toDigits 10 n) (.nat n) := by
  refine .of_succ fun fuel rest _ hrest => ?_
  have hnumber := number?_toDigits n hrest
  obtain ⟨c, digits, hdigits⟩ := List.exists_cons_of_ne_nil
    (Nat.toDigits_ne_nil : Nat.toDigits 10 n ≠ [])
  have hc : c.isDigit = true := isDigit_of_mem_toDigits (hdigits ▸ List.mem_cons_self)
  have hspace : isSpace c = false := by
    rw [Bool.eq_false_iff, isSpace]
    rintro h
    simp only [Bool.or_eq_true, beq_iff_eq] at h
    rcases h with ((rfl | rfl) | rfl) | rfl <;> exact absurd hc (by decide)
  -- a digit starts none of the other values
  have hne (d : Char) (hd : d.isDigit = false) (tail : List Char) :
      Nat.toDigits 10 n ++ rest ≠ d :: tail := by
    rw [hdigits]
    rintro heq
    obtain ⟨rfl, -⟩ := List.cons.inj heq
    exact absurd hc (by simp [hd])
  have hskip : skipSpace (Nat.toDigits 10 n ++ rest) = Nat.toDigits 10 n ++ rest := by
    rw [hdigits]
    exact skipSpace_cons hspace _
  rw [value?, hskip]
  split
  next heq => exact absurd heq (hne _ rfl _)
  next heq => exact absurd heq (hne _ rfl _)
  next heq => exact absurd heq (hne _ rfl _)
  next heq => exact absurd heq (hne _ rfl _)
  next heq => exact absurd heq (hne _ rfl _)
  next heq => exact absurd heq (hne _ rfl _)
  next =>
    rw [hnumber]
    rfl

lemma quote_append (s : String) (rest : List Char) :
    quote s ++ rest = '"' :: (s.toList.flatMap escapeChar ++ '"' :: rest) := by
  simp [quote]

lemma isRead_quote (s : String) : IsRead (quote s) (.text s) := by
  refine .of_succ fun fuel rest _ _ => ?_
  rw [value?, quote_append, skipSpace_cons rfl]
  simp only [string?_flatMap, Option.map_some, String.ofList_toList]
  rfl

/-! ### Lists of values -/

/-- A bracket or a comma ends a number. -/
lemma endsNumber_cons {c : Char} (hc : c ∈ [',', ']', '}']) (rest : List Char) :
    EndsNumber (c :: rest) := by
  intro d hd
  obtain rfl : c = d := by simpa using hd
  simp only [List.mem_cons, List.not_mem_nil, or_false] at hc
  rcases hc with rfl | rfl | rfl <;> decide

lemma intercalate_comma_cons (text more : List Char) (texts : List (List Char)) :
    [','].intercalate (text :: more :: texts) = text ++ ',' :: [','].intercalate (more :: texts) := by
  simp [List.intercalate]

/-- The last item stands before the bracket. -/
lemma IsRead.areItems_singleton (h : IsRead text v) (hspace : IsSpace space) :
    AreItems (text ++ (space ++ [']'])) [v] := by
  refine .of_succ fun fuel rest hfuel => ?_
  simp only [List.length_append, List.length_singleton] at hfuel
  have hend : EndsNumber (space ++ ']' :: rest) := (endsNumber_cons (by simp) rest).append hspace
  simp only [List.append_assoc, List.singleton_append]
  rw [items?, h fuel _ (by omega) hend]
  simp only [Option.bind_eq_bind, Option.bind_some, skipSpace_append hspace]
  rfl

lemma IsRead.areItems_cons {more : List Char} {items : List Json} (h : IsRead text v)
    (hmore : AreItems more items) : AreItems (text ++ ',' :: more) (v :: items) := by
  refine .of_succ fun fuel rest hfuel => ?_
  simp only [List.length_append, List.length_cons] at hfuel
  have hend : EndsNumber (',' :: (more ++ rest)) := endsNumber_cons (by simp) _
  rw [List.append_assoc, List.cons_append, items?, h fuel _ (by omega) hend]
  simp only [Option.bind_eq_bind, Option.bind_some, skipSpace_cons (rfl : isSpace ',' = false)]
  rw [hmore fuel rest (by omega)]
  rfl

/-- Items with commas between them are read in their order. -/
lemma areItems_intercalate {texts : List (List Char)} {items : List Json}
    (h : List.Forall₂ IsRead texts items) (hne : texts ≠ []) (hspace : IsSpace space) :
    AreItems ([','].intercalate texts ++ (space ++ [']'])) items := by
  induction h with
  | nil => contradiction
  | @cons text v texts items hv hitems ih =>
    cases texts with
    | nil =>
      cases hitems
      rw [List.intercalate_singleton]
      exact hv.areItems_singleton hspace
    | cons more texts =>
      rw [intercalate_comma_cons, List.append_assoc]
      exact hv.areItems_cons (ih (List.cons_ne_nil _ _))

/-- A text is read as a field, which has its name in quotes before a colon. -/
def IsField (text : List Char) (field : String × Json) : Prop :=
  ∃ space value, text = space ++ (quote field.1 ++ ':' :: value) ∧ IsSpace space ∧
    IsRead value field.2

/-- The last field stands before the brace. -/
lemma IsField.areFields_singleton {field : String × Json} (h : IsField text field)
    (hspace : IsSpace space) : AreFields (text ++ (space ++ ['}'])) [(some field.1, field.2)] := by
  obtain ⟨before, value, rfl, hbefore, hvalue⟩ := h
  rw [List.append_assoc]
  refine AreFields.after_space (.of_succ fun fuel rest hfuel => ?_) hbefore
  simp only [List.length_append, List.length_cons, List.length_nil] at hfuel
  have hend : EndsNumber (space ++ '}' :: rest) := (endsNumber_cons (by simp) rest).append hspace
  have hread := hvalue fuel _ (by omega) hend
  simp only [List.append_assoc, List.cons_append, List.nil_append]
  rw [fields?, quote_append, skipSpace_cons rfl]
  simp only [string?_flatMap, String.ofList_toList, skipSpace_cons (rfl : isSpace ':' = false),
    hread, skipSpace_append hspace, skipSpace_cons (rfl : isSpace '}' = false),
    Option.bind_eq_bind, Option.bind_some]

lemma IsField.areFields_cons {field : String × Json} {more : List Char}
    {fields : List (Option String × Json)} (h : IsField text field) (hmore : AreFields more fields) :
    AreFields (text ++ ',' :: more) ((some field.1, field.2) :: fields) := by
  obtain ⟨before, value, rfl, hbefore, hvalue⟩ := h
  rw [List.append_assoc]
  refine AreFields.after_space (.of_succ fun fuel rest hfuel => ?_) hbefore
  simp only [List.length_append, List.length_cons] at hfuel
  have hend : EndsNumber (',' :: (more ++ rest)) := endsNumber_cons (by simp) _
  have hread := hvalue fuel _ (by omega) hend
  simp only [List.append_assoc, List.cons_append]
  rw [fields?, quote_append, skipSpace_cons rfl]
  simp only [string?_flatMap, String.ofList_toList, skipSpace_cons (rfl : isSpace ':' = false),
    hread, skipSpace_cons (rfl : isSpace ',' = false), hmore fuel rest (by omega),
    Option.bind_eq_bind, Option.bind_some, Option.map_some]

/-- Fields with commas between them are read in their order. -/
lemma areFields_intercalate {texts : List (List Char)} {fields : List (String × Json)}
    (h : List.Forall₂ IsField texts fields) (hne : texts ≠ []) (hspace : IsSpace space) :
    AreFields ([','].intercalate texts ++ (space ++ ['}']))
      (fields.map fun field => (some field.1, field.2)) := by
  induction h with
  | nil => contradiction
  | @cons text field texts fields hfield hfields ih =>
    cases texts with
    | nil =>
      cases hfields
      rw [List.intercalate_singleton]
      exact hfield.areFields_singleton hspace
    | cons more texts =>
      rw [intercalate_comma_cons, List.append_assoc]
      exact hfield.areFields_cons (ih (List.cons_ne_nil _ _))

/-! ### Arrays and objects -/

lemma value?_bracket (fuel : Nat) (rest : List Char) : value? fuel (']' :: rest) = none := by
  cases fuel <;> rfl

/-- The bracket that closes an array starts none of its items. -/
lemma skipSpace_ne_bracket {items : List Json} {after : List Char}
    (h : items? fuel text = some (items, rest)) : skipSpace text ≠ ']' :: after := by
  intro heq
  rw [← items?_skipSpace, heq] at h
  cases fuel with
  | zero => cases h
  | succ fuel =>
    rw [items?, value?_bracket] at h
    cases h

lemma skipSpace_ne_brace {fields : List (Option String × Json)} {after : List Char}
    (h : fields? fuel text = some (fields, rest)) : skipSpace text ≠ '}' :: after := by
  intro heq
  rw [← fields?_skipSpace, heq] at h
  cases fuel <;> cases h

lemma isRead_array {items : List Json} (h : AreItems text items) :
    IsRead ('[' :: text) (.array items) := by
  refine .of_succ fun fuel rest hfuel _ => ?_
  have hitems := h fuel rest (by simpa using hfuel)
  rw [List.cons_append, value?, skipSpace_cons rfl]
  simp only
  split
  next heq => exact absurd heq (skipSpace_ne_bracket hitems)
  next => rw [items?_skipSpace, hitems, Option.map_some]

lemma isRead_record {fields : List (String × Json)}
    (h : AreFields text (fields.map fun field => (some field.1, field.2))) :
    IsRead ('{' :: text) (.record fields) := by
  refine .of_succ fun fuel rest hfuel _ => ?_
  have hfields := h fuel rest (by simpa using hfuel)
  rw [List.cons_append, value?, skipSpace_cons rfl]
  simp only
  split
  next heq => exact absurd heq (skipSpace_ne_brace hfields)
  next => rw [fields?_skipSpace, hfields, Option.map_some, record]

lemma isRead_array_nil : IsRead ['[', ']'] (.array []) :=
  .of_succ fun _ _ _ _ => rfl

lemma isRead_record_nil : IsRead ['{', '}'] (.record []) :=
  .of_succ fun _ _ _ _ => rfl

/-! ### The two layouts -/

/-- Values of texts, natural numbers, truth values and null. -/
inductive IsPlain : Json → Prop
  | null : IsPlain .null
  | bool (b : Bool) : IsPlain (.bool b)
  | nat (n : Nat) : IsPlain (.nat n)
  | text (s : String) : IsPlain (.text s)
  | array {items : List Json} (h : ∀ v ∈ items, IsPlain v) : IsPlain (.array items)
  | record {fields : List (String × Json)} (h : ∀ field ∈ fields, IsPlain field.2) :
    IsPlain (.record fields)

lemma compactItems_eq (items : List Json) :
    compactItems items = [','].intercalate (items.map compactChars) := by
  induction items with
  | nil => rfl
  | cons item items ih =>
    cases items with
    | nil => simp [compactItems]
    | cons next items =>
      rw [compactItems, ih]
      · simp
      · simp

lemma compactFields_singleton (name : String) (v : Json) :
    compactFields [(some name, v)] = quote name ++ ':' :: compactChars v :=
  compactFields.eq_2 (some name) v

lemma compactFields_cons (name : String) (v : Json) {fields : List (Option String × Json)}
    (hne : fields ≠ []) : compactFields ((some name, v) :: fields) =
      quote name ++ ':' :: compactChars v ++ ',' :: compactFields fields :=
  compactFields.eq_3 (some name) v fields hne

lemma compactFields_eq (fields : List (String × Json)) :
    compactFields (fields.map fun field => (some field.1, field.2)) =
      [','].intercalate (fields.map fun field => quote field.1 ++ ':' :: compactChars field.2) := by
  induction fields with
  | nil => rfl
  | cons field fields ih =>
    cases fields with
    | nil =>
      rw [List.map_singleton, compactFields_singleton, List.map_singleton,
        List.intercalate_singleton]
    | cons next fields =>
      have hne : (next :: fields).map (fun field => (some field.1, field.2)) ≠ [] := by simp
      rw [List.map_cons, compactFields_cons _ _ hne, ih]
      simp

lemma prettyItems_eq (level : Nat) (items : List Json) :
    prettyItems level items =
      [','].intercalate (items.map fun item => newLine level ++ prettyChars level item) := by
  induction items with
  | nil => rfl
  | cons item items ih =>
    cases items with
    | nil => simp [prettyItems]
    | cons next items =>
      rw [prettyItems, ih]
      · simp
      · simp

lemma prettyFields_singleton (level : Nat) (name : String) (v : Json) :
    prettyFields level [(some name, v)] =
      newLine level ++ quote name ++ ": ".toList ++ prettyChars level v :=
  prettyFields.eq_2 level (some name) v

lemma prettyFields_cons (level : Nat) (name : String) (v : Json)
    {fields : List (Option String × Json)} (hne : fields ≠ []) :
    prettyFields level ((some name, v) :: fields) =
      newLine level ++ quote name ++ ": ".toList ++ prettyChars level v
        ++ ',' :: prettyFields level fields :=
  prettyFields.eq_3 level (some name) v fields hne

lemma prettyFields_eq (level : Nat) (fields : List (String × Json)) :
    prettyFields level (fields.map fun field => (some field.1, field.2)) =
      [','].intercalate (fields.map fun field =>
        newLine level ++ (quote field.1 ++ ':' :: ([' '] ++ prettyChars level field.2))) := by
  induction fields with
  | nil => rfl
  | cons field fields ih =>
    cases fields with
    | nil =>
      rw [List.map_singleton, prettyFields_singleton, List.map_singleton,
        List.intercalate_singleton]
      simp
    | cons next fields =>
      have hne : (next :: fields).map (fun field => (some field.1, field.2)) ≠ [] := by simp
      rw [List.map_cons, prettyFields_cons _ _ _ hne, ih]
      simp

lemma record_eq (fields : List (String × Json)) :
    record fields = .object (fields.map fun field => (some field.1, field.2)) := rfl

lemma isRead_toString (n : Nat) : IsRead (toString n).toList (.nat n) := by
  have hdigits : (toString n).toList = Nat.toDigits 10 n := String.toList_ofList
  rw [hdigits]
  exact isRead_nat n

lemma isSpace_nil : IsSpace [] := by simp [IsSpace]

/-- A plain value is read from its text without space. -/
lemma IsPlain.isRead_compactChars (h : IsPlain v) : IsRead (compactChars v) v := by
  induction h with
  | null => exact isRead_null
  | bool b =>
    cases b
    · exact isRead_false
    · exact isRead_true
  | nat n => exact isRead_toString n
  | text s => exact isRead_quote s
  | @array items h ih =>
    cases items with
    | nil => exact isRead_array_nil
    | cons item items =>
      have hitems : List.Forall₂ IsRead ((item :: items).map compactChars) (item :: items) := by
        rw [List.forall₂_map_left_iff, List.forall₂_same]
        exact ih
      rw [compactChars, compactItems_eq]
      exact isRead_array (areItems_intercalate hitems (by simp) isSpace_nil)
  | @record fields h ih =>
    cases fields with
    | nil => exact isRead_record_nil
    | cons field fields =>
      have hfields : List.Forall₂ IsField ((field :: fields).map fun field =>
          quote field.1 ++ ':' :: compactChars field.2) (field :: fields) := by
        rw [List.forall₂_map_left_iff, List.forall₂_same]
        exact fun field hfield => ⟨[], _, rfl, isSpace_nil, ih field hfield⟩
      rw [record_eq, compactChars, compactFields_eq]
      exact isRead_record (areFields_intercalate hfields (by simp) isSpace_nil)

/-- A plain value is read from its text of several lines. -/
lemma IsPlain.isRead_prettyChars (h : IsPlain v) (level : Nat) : IsRead (prettyChars level v) v := by
  induction h generalizing level with
  | null => exact isRead_null
  | bool b =>
    cases b
    · exact isRead_false
    · exact isRead_true
  | nat n => exact isRead_toString n
  | text s => exact isRead_quote s
  | @array items h ih =>
    cases items with
    | nil => exact isRead_array_nil
    | cons item items =>
      have hitems : List.Forall₂ IsRead ((item :: items).map fun item =>
          newLine (level + 1) ++ prettyChars (level + 1) item) (item :: items) := by
        rw [List.forall₂_map_left_iff, List.forall₂_same]
        exact fun item hitem => (ih item hitem (level + 1)).after_space (isSpace_newLine _)
      rw [prettyChars, prettyItems_eq, List.cons_append, List.cons_append,
        List.append_assoc]
      exact isRead_array (areItems_intercalate hitems (by simp) (isSpace_newLine level))
  | @record fields h ih =>
    cases fields with
    | nil => exact isRead_record_nil
    | cons field fields =>
      have hfields : List.Forall₂ IsField ((field :: fields).map fun field =>
          newLine (level + 1) ++
            (quote field.1 ++ ':' :: ([' '] ++ prettyChars (level + 1) field.2)))
          (field :: fields) := by
        rw [List.forall₂_map_left_iff, List.forall₂_same]
        exact fun field hfield => ⟨newLine (level + 1), _, rfl, isSpace_newLine _,
          (ih field hfield (level + 1)).after_space (by simp [IsSpace, isSpace])⟩
      have hpretty : prettyChars level (.record (field :: fields)) =
          '{' :: prettyFields (level + 1) ((field :: fields).map fun field => (some field.1, field.2))
            ++ newLine level ++ ['}'] := prettyChars.eq_4 level _ _
      rw [hpretty, prettyFields_eq, List.cons_append, List.cons_append, List.append_assoc]
      exact isRead_record (areFields_intercalate hfields (by simp) (isSpace_newLine level))

lemma parse?_of_isRead (h : IsRead text v) : parse? text = some v := by
  have hvalue := h (text.length + 1) [] (Nat.lt_succ_self _) endsNumber_nil
  rw [List.append_nil] at hvalue
  rw [parse?, hvalue]
  rfl

/-- A plain value is read back from both layouts. -/
theorem IsPlain.parse?_compact (h : IsPlain v) : parse? (compact v).toList = some v := by
  rw [compact, String.toList_ofList]
  exact parse?_of_isRead h.isRead_compactChars

theorem IsPlain.parse?_pretty (h : IsPlain v) : parse? (pretty v).toList = some v := by
  rw [pretty, String.toList_ofList]
  exact parse?_of_isRead (h.isRead_prettyChars 0)

end ConstPromotion.Json
