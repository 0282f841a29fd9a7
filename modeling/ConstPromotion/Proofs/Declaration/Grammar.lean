import ConstPromotion.Proofs.Declaration.Words
import ConstPromotion.Proofs.Text.Runs

/-!
# The grammar of declarations

Which lines hold a declaration, said without the recognizer: the words `static`, a type and a name
with gaps between them, a bracket group of digits, and the longest run of further bracket groups;
and the word `const` nowhere in the line.

`ArrayDeclaration.match?_eq_some_iff` is the grammar of texts. `matchBytes?_eq_some_iff` carries it
over to lines of any bytes, with offsets that count bytes of the line itself.
-/

namespace ConstPromotion

/-! ### The grammar -/

/-- One or more spaces and tabs. -/
structure IsGap (s : List Char) : Prop where
  ne_nil : s ≠ []
  isGap : ∀ c ∈ s, isGap c

/-- A letter or an underscore, with letters, digits and underscores after it. -/
structure IsIdentifier (s : List Char) : Prop where
  start : ∃ c rest, s = c :: rest ∧ isWordStart c
  isWordChar : ∀ c ∈ s, isWordChar c

/-- Bracket groups one after the other, with nothing but ASCII between the brackets and no bracket
among it. -/
inductive IsGroups : List Char → Prop where
  | nil : IsGroups []
  | cons {inner rest : List Char} (hinner : ∀ c ∈ inner, c.toNat < 0x80 ∧ c ≠ '[' ∧ c ≠ ']')
      (hrest : IsGroups rest) : IsGroups ('[' :: inner ++ ']' :: rest)

/-- The parts of a declaration up to the end of its first bracket group. -/
structure DeclarationParts where
  gap₁ : List Char
  type : List Char
  gap₂ : List Char
  name : List Char
  digits : List Char

namespace DeclarationParts

/-- The text of a declaration before its type. -/
def lead (p : DeclarationParts) : List Char := "static".toList ++ p.gap₁

lemma lead_eq (p : DeclarationParts) : p.lead = "static".toList ++ p.gap₁ := rfl

/-- The text of a declaration up to the end of its first bracket group. -/
def text (p : DeclarationParts) : List Char :=
  p.lead ++ p.type ++ p.gap₂ ++ p.name ++ '[' :: p.digits ++ [']']

/-- What the parts declare. -/
def declaration (p : DeclarationParts) : ArrayDeclaration where
  elementType := String.ofList p.type
  name := String.ofList p.name
  size := if p.digits = [] then none else some (String.ofList p.digits)

/-- The parts are what they are called. -/
structure WellFormed (p : DeclarationParts) : Prop where
  gap₁ : IsGap p.gap₁
  type : IsIdentifier p.type
  gap₂ : IsGap p.gap₂
  name : IsIdentifier p.name
  digits : ∀ c ∈ p.digits, c.isDigit

end DeclarationParts

/-! ### Gaps, identifiers and sizes -/

lemma gap?_eq_some_iff {s gap rest : List Char} :
    gap? s = some (gap, rest) ↔
      s = gap ++ rest ∧ IsGap gap ∧ ∀ c ∈ rest.head?, ¬ isGap c := by
  constructor
  · intro h
    cases s with
    | nil => cases h
    | cons c s =>
      simp only [gap?, Option.ite_none_right_eq_some, Option.some.injEq, Prod.mk.injEq] at h
      obtain ⟨hc, rfl, rfl⟩ := h
      refine ⟨by simp, ⟨by simp, ?_⟩, not_of_mem_head?_dropWhile⟩
      simpa [hc] using fun c hc => List.mem_takeWhile_imp hc
  · rintro ⟨rfl, ⟨hne, hgap⟩, hrest⟩
    obtain ⟨c, gap, rfl⟩ := List.exists_cons_of_ne_nil hne
    obtain ⟨hc, hgap⟩ := List.forall_mem_cons.mp hgap
    obtain ⟨htake, hdrop⟩ := takeWhile_dropWhile_of_append hgap hrest
    simp [gap?, hc, htake, hdrop]

lemma isWordChar_of_isWordStart {c : Char} (h : isWordStart c) : isWordChar c := by
  simp only [isWordStart, isWordChar, Char.isAlphanum, Bool.or_eq_true] at h ⊢
  exact h.imp Or.inl id

lemma identifier?_eq_some_iff {s word rest : List Char} :
    identifier? s = some (word, rest) ↔
      s = word ++ rest ∧ IsIdentifier word ∧ ∀ c ∈ rest.head?, ¬ isWordChar c := by
  constructor
  · intro h
    cases s with
    | nil => cases h
    | cons c s =>
      simp only [identifier?, Option.ite_none_right_eq_some, Option.some.injEq,
        Prod.mk.injEq] at h
      obtain ⟨hc, rfl, rfl⟩ := h
      refine ⟨by simp, ⟨⟨c, _, rfl, hc⟩, ?_⟩, not_of_mem_head?_dropWhile⟩
      have hword := isWordChar_of_isWordStart hc
      simpa [hword] using fun c hc => List.mem_takeWhile_imp hc
  · rintro ⟨rfl, ⟨⟨c, word, rfl, hstart⟩, hword⟩, hrest⟩
    obtain ⟨-, hword⟩ := List.forall_mem_cons.mp hword
    obtain ⟨htake, hdrop⟩ := takeWhile_dropWhile_of_append hword hrest
    simp [identifier?, hstart, htake, hdrop]

lemma sizeGroup?_eq_some_iff {s digits rest : List Char} :
    sizeGroup? s = some (digits, rest) ↔
      s = '[' :: digits ++ ']' :: rest ∧ ∀ c ∈ digits, c.isDigit := by
  constructor
  · intro h
    unfold sizeGroup? at h
    split at h
    next s =>
      split at h
      next after hafter =>
        cases h
        refine ⟨?_, fun c hc => List.mem_takeWhile_imp hc⟩
        rw [List.cons_append, ← hafter, List.takeWhile_append_dropWhile]
      next => cases h
    next => cases h
  · rintro ⟨rfl, hdigits⟩
    have hclose : ∀ c ∈ (']' :: rest).head?, ¬ c.isDigit := by simp
    obtain ⟨htake, hdrop⟩ := takeWhile_dropWhile_of_append hdigits hclose
    simp [sizeGroup?, htake, hdrop]

/-! ### Bracket groups -/

/-- What may stand between the brackets of a group. -/
def isInner (c : Char) : Bool := c.toNat < 0x80 && c != '[' && c != ']'

lemma isInner_iff {c : Char} : isInner c ↔ c.toNat < 0x80 ∧ c ≠ '[' ∧ c ≠ ']' := by
  simp [isInner, and_assoc]

lemma groupsLength_inner_append {inner : List Char} (hinner : ∀ c ∈ inner, isInner c)
    (closed n : Nat) (rest : List Char) :
    groupsLength closed (some n) (inner ++ rest) =
      groupsLength closed (some (n + inner.length)) rest := by
  induction inner generalizing n with
  | nil => rfl
  | cons c inner ih =>
    obtain ⟨hc, hinner⟩ := List.forall_mem_cons.mp hinner
    obtain ⟨hascii, hopen, hclose⟩ := isInner_iff.mp hc
    rw [List.cons_append, groupsLength, if_neg hclose, if_neg (by simp [hopen]; omega),
      ih hinner, List.length_cons]
    congr 2
    omega

/-- A group that is not closed does not count. -/
lemma groupsLength_of_not_closed {rest : List Char} (hrest : ∀ c ∈ rest.head?, ¬ isInner c)
    (hclose : rest.head? ≠ some ']') (closed n : Nat) :
    groupsLength closed (some n) rest = closed := by
  cases rest with
  | nil => rfl
  | cons c rest =>
    have hne : c ≠ ']' := by simpa using hclose
    have hc := hrest c rfl
    rw [isInner_iff] at hc
    rw [groupsLength, if_neg hne, if_pos]
    by_contra hcon
    exact hc ⟨by omega, by tauto, hne⟩

/-- A group ends at its first bracket. -/
lemma inner_append_close_inj {inner inner' s s' : List Char} (hinner : ∀ c ∈ inner, isInner c)
    (hinner' : ∀ c ∈ inner', isInner c) (h : inner ++ ']' :: s = inner' ++ ']' :: s') :
    inner = inner' ∧ s = s' := by
  have hclose (t : List Char) : ∀ c ∈ (']' :: t).head?, ¬ isInner c := by simp [isInner]
  obtain ⟨htake, hdrop⟩ := takeWhile_dropWhile_of_append hinner (hclose s)
  obtain ⟨htake', hdrop'⟩ := takeWhile_dropWhile_of_append hinner' (hclose s')
  rw [h] at htake hdrop
  exact ⟨htake.symm.trans htake', (List.cons.inj (hdrop.symm.trans hdrop')).2⟩

/-- Groups start with a bracket, and that one is closed before another one opens. -/
lemma IsGroups.of_cons {c : Char} {run : List Char} (h : IsGroups (c :: run)) :
    ∃ inner rest, c = '[' ∧ run = inner ++ ']' :: rest ∧ (∀ c ∈ inner, isInner c) ∧
      IsGroups rest := by
  cases h with
  | cons hinner hrest => exact ⟨_, _, rfl, rfl, fun c hc => isInner_iff.mpr (hinner c hc), hrest⟩

/-- Groups after groups are groups. -/
lemma IsGroups.append {run more : List Char} (h : IsGroups run) (hmore : IsGroups more) :
    IsGroups (run ++ more) := by
  induction h with
  | nil => exact hmore
  | cons hinner _ ih => simpa using IsGroups.cons hinner ih

/-- What groups hold after groups are groups. -/
lemma IsGroups.of_append {run more : List Char} (h : IsGroups run) (happend : IsGroups (run ++ more)) :
    IsGroups more := by
  induction h with
  | nil => exact happend
  | cons hinner _ ih =>
    obtain ⟨inner, rest, -, hcut, hinner', hrest⟩ := happend.of_cons
    have hinner := fun c hc => isInner_iff.mpr (hinner c hc)
    obtain ⟨rfl, rfl⟩ := inner_append_close_inj hinner hinner' (by simpa using hcut)
    exact ih hrest

lemma IsGroups.isAscii {run : List Char} (h : IsGroups run) : Utf8.IsAscii run := by
  induction h with
  | nil => simp [Utf8.IsAscii]
  | cons hinner _ ih =>
    intro c hc
    simp only [List.cons_append, List.mem_cons, List.mem_append] at hc
    rcases hc with rfl | hc | rfl | hc
    · decide
    · exact (hinner c hc).1
    · decide
    · exact ih c hc

/-- A run of groups at the start of a text, as long as there is one. -/
structure IsLongestRun (run text : List Char) : Prop where
  isPrefix : run <+: text
  isGroups : IsGroups run
  longest : ∀ other, other <+: text → IsGroups other → other.length ≤ run.length

/-- Before anything but a group the longest run is empty. -/
lemma isLongestRun_nil {text : List Char}
    (h : ∀ inner rest, text = '[' :: inner ++ ']' :: rest → ¬ ∀ c ∈ inner, isInner c) :
    IsLongestRun [] text := by
  refine ⟨List.nil_prefix, .nil, fun other hother hgroups => ?_⟩
  cases other with
  | nil => exact le_rfl
  | cons c other =>
    obtain ⟨inner, rest, rfl, rfl, hinner, -⟩ := hgroups.of_cons
    obtain ⟨after, rfl⟩ := hother
    exact absurd hinner (h inner (rest ++ after) (by simp))

/-- The longest run goes on after a group. -/
lemma IsLongestRun.cons {inner run rest : List Char} (hinner : ∀ c ∈ inner, isInner c)
    (h : IsLongestRun run rest) :
    IsLongestRun ('[' :: inner ++ ']' :: run) ('[' :: inner ++ ']' :: rest) := by
  obtain ⟨⟨after, rfl⟩, hgroups, hlongest⟩ := h
  refine ⟨⟨after, by simp⟩, .cons (fun c hc => isInner_iff.mp (hinner c hc)) hgroups,
    fun other hother hother' => ?_⟩
  cases other with
  | nil => simp
  | cons c other =>
    obtain ⟨inner', rest', rfl, rfl, hinner', hrest'⟩ := hother'.of_cons
    obtain ⟨after', heq⟩ := hother
    have hcut : inner' ++ ']' :: (rest' ++ after') = inner ++ ']' :: (run ++ after) := by
      simpa using heq
    obtain ⟨rfl, hrest⟩ := inner_append_close_inj hinner' hinner hcut
    have := hlongest rest' ⟨after', hrest⟩ hrest'
    simpa using this

/-- A text is what may stand inside of a group, and something that starts with nothing of it. -/
lemma exists_inner_append (text : List Char) :
    ∃ inner rest, text = inner ++ rest ∧ (∀ c ∈ inner, isInner c) ∧
      ∀ c ∈ rest.head?, ¬ isInner c :=
  ⟨text.takeWhile isInner, text.dropWhile isInner, List.takeWhile_append_dropWhile.symm,
    fun _ hc => List.mem_takeWhile_imp hc, not_of_mem_head?_dropWhile⟩

/-- The bracket groups at the start of a text are counted up to the end of their longest run. -/
lemma exists_isLongestRun (text : List Char) (closed : Nat) :
    ∃ run, IsLongestRun run text ∧ groupsLength closed none text = closed + run.length := by
  -- a whole group is passed over in one step, so the induction is on the length of the text
  induction hlen : text.length using Nat.strong_induction_on generalizing text closed with
  | _ n ih =>
    match text with
    | [] => exact ⟨[], isLongestRun_nil (by simp), rfl⟩
    | c :: rest =>
      by_cases hc : c = '['
      · obtain ⟨inner, tail, rfl, hinner, htail⟩ := exists_inner_append rest
        by_cases hclose : tail.head? = some ']'
        · obtain ⟨after, rfl⟩ := List.head?_eq_some_iff.mp hclose
          have hlt : after.length < n := by
            rw [← hlen]
            simp only [List.length_cons, List.length_append]
            omega
          obtain ⟨run, hrun, hlength⟩ :=
            ih after.length hlt after (closed + (1 + inner.length) + 1) rfl
          refine ⟨'[' :: inner ++ ']' :: run, hc ▸ hrun.cons hinner, ?_⟩
          rw [groupsLength, if_pos hc, groupsLength_inner_append hinner, groupsLength,
            if_pos rfl, hlength]
          simp only [List.cons_append, List.length_cons, List.length_append]
          omega
        · refine ⟨[], isLongestRun_nil fun inner' rest' h hinner' => hclose ?_, ?_⟩
          · have hcut : inner ++ tail = inner' ++ ']' :: rest' := (List.cons.inj h).2
            have hclose' : ∀ c ∈ (']' :: rest').head?, ¬ isInner c := by simp [isInner]
            rw [← (takeWhile_dropWhile_of_append hinner htail).2, hcut,
              (takeWhile_dropWhile_of_append hinner' hclose').2]
            rfl
          · rw [groupsLength, if_pos hc, groupsLength_inner_append hinner,
              groupsLength_of_not_closed htail hclose]
            rfl
      · refine ⟨[], isLongestRun_nil fun inner rest h => ?_, by rw [groupsLength, if_neg hc]; rfl⟩
        exact absurd (List.cons.inj h).1 hc

lemma dimensionsLength_eq (text : List Char) :
    ∃ run, IsLongestRun run text ∧ dimensionsLength text = run.length := by
  simpa [dimensionsLength] using exists_isLongestRun text 0

/-! ### Lines of text -/

namespace DeclarationParts

/-- The match of a declaration of these parts, with a longest run of the given length after it. -/
def found (p : DeclarationParts) (run : Nat) : DeclarationMatch where
  declaration := p.declaration
  typeStart := p.lead.length
  declaratorEnd := p.text.length + run

end DeclarationParts

lemma not_isGap_of_isWordChar {c : Char} (h : isWordChar c) : ¬ isGap c := by
  intro hgap
  simp only [isGap, Bool.or_eq_true, beq_iff_eq] at hgap
  rcases hgap with rfl | rfl <;> exact absurd h (by decide)

lemma IsIdentifier.not_isGap {s rest : List Char} (h : IsIdentifier s) :
    ∀ c ∈ (s ++ rest).head?, ¬ isGap c := by
  obtain ⟨⟨d, s, rfl, -⟩, hword⟩ := h
  simpa using not_isGap_of_isWordChar (hword d List.mem_cons_self)

lemma IsGap.not_isWordChar {s rest : List Char} (h : IsGap s) :
    ∀ c ∈ (s ++ rest).head?, ¬ isWordChar c := by
  obtain ⟨hne, hgap⟩ := h
  obtain ⟨d, s, rfl⟩ := List.exists_cons_of_ne_nil hne
  simpa using mt not_isGap_of_isWordChar (by simpa using hgap d List.mem_cons_self)

namespace ArrayDeclaration

/-- A line of text is recognised exactly when it follows the grammar. -/
theorem match?_eq_some_iff {line : List Char} {m : DeclarationMatch} :
    match? line = some m ↔
      "const".toList ∉ words line ∧ ∃ p : DeclarationParts, p.WellFormed ∧
        ∃ rest, line = p.text ++ rest ∧ m = p.found (dimensionsLength rest) := by
  have hconst : !mentionsConst line ↔ "const".toList ∉ words line := by
    simp [mentionsConst]
  constructor
  · intro h
    simp only [match?, Option.bind_eq_bind, Option.bind_eq_some_iff, Option.guard_eq_some',
      exists_const, List.isPrefixOf?_eq_some_iff_append_eq] at h
    obtain ⟨hwords, s₁, rfl, ⟨gap₁, s₂⟩, h₁, ⟨type, s₃⟩, h₂, ⟨gap₂, s₄⟩, h₃, ⟨name, s₅⟩, h₄,
      ⟨digits, rest⟩, h₅, hm⟩ := h
    obtain ⟨rfl, hgap₁, -⟩ := gap?_eq_some_iff.mp h₁
    obtain ⟨rfl, htype, -⟩ := identifier?_eq_some_iff.mp h₂
    obtain ⟨rfl, hgap₂, -⟩ := gap?_eq_some_iff.mp h₃
    obtain ⟨rfl, hname, -⟩ := identifier?_eq_some_iff.mp h₄
    obtain ⟨rfl, hdigits⟩ := sizeGroup?_eq_some_iff.mp h₅
    refine ⟨hconst.mp hwords, ⟨gap₁, type, gap₂, name, digits⟩,
      ⟨hgap₁, htype, hgap₂, hname, hdigits⟩, rest, ?_, ?_⟩
    · simp only [DeclarationParts.text, DeclarationParts.lead_eq, List.append_assoc,
        List.cons_append, List.nil_append]
    · obtain rfl := Option.some.inj hm
      simp [DeclarationParts.found, DeclarationParts.declaration, DeclarationParts.text,
        DeclarationParts.lead_eq, show "static".length = 6 from rfl]
      omega
  · rintro ⟨hwords, p, ⟨hgap₁, htype, hgap₂, hname, hdigits⟩, rest, rfl, rfl⟩
    have hguard : guard (!mentionsConst (p.text ++ rest)) = some () :=
      (Option.guard_eq_some' ()).mpr (hconst.mpr hwords)
    have hsize : ∀ c ∈ ('[' :: p.digits ++ ']' :: rest).head?, ¬ isWordChar c := by
      simp only [List.cons_append, List.head?_cons, Option.mem_some_iff, forall_eq']
      decide
    have hstatic : "static".toList.isPrefixOf? (p.text ++ rest) =
        some (p.gap₁ ++ (p.type ++ (p.gap₂ ++ (p.name ++ ('[' :: p.digits ++ ']' :: rest))))) := by
      refine List.isPrefixOf?_eq_some_iff_append_eq.mpr ?_
      simp only [DeclarationParts.text, DeclarationParts.lead_eq, List.append_assoc,
        List.cons_append, List.nil_append]
    simp only [match?, Option.bind_eq_bind, hguard, hstatic, Option.bind_some,
      gap?_eq_some_iff.mpr ⟨rfl, hgap₁, htype.not_isGap⟩,
      identifier?_eq_some_iff.mpr ⟨rfl, htype, hgap₂.not_isWordChar⟩,
      gap?_eq_some_iff.mpr ⟨rfl, hgap₂, hname.not_isGap⟩,
      identifier?_eq_some_iff.mpr ⟨rfl, hname, hsize⟩,
      sizeGroup?_eq_some_iff.mpr ⟨rfl, hdigits⟩]
    simp [DeclarationParts.found, DeclarationParts.declaration, DeclarationParts.text,
      DeclarationParts.lead_eq, show "static".length = 6 from rfl]
    omega

end ArrayDeclaration

/-! ### Lines of bytes -/

lemma IsGap.isAscii {s : List Char} (h : IsGap s) : Utf8.IsAscii s := by
  intro c hc
  have := h.isGap c hc
  simp only [ConstPromotion.isGap, Bool.or_eq_true, beq_iff_eq] at this
  rcases this with rfl | rfl <;> decide

lemma IsIdentifier.isAscii {s : List Char} (h : IsIdentifier s) : Utf8.IsAscii s :=
  fun c hc => toNat_lt_of_isWordChar (h.isWordChar c hc)

namespace DeclarationParts.WellFormed

variable {p : DeclarationParts}

lemma isAscii_lead (h : p.WellFormed) : Utf8.IsAscii p.lead := by
  have hstatic : Utf8.IsAscii "static".toList := by simp [Utf8.IsAscii]
  exact Utf8.isAscii_append.mpr ⟨hstatic, h.gap₁.isAscii⟩

lemma isAscii_text (h : p.WellFormed) : Utf8.IsAscii p.text := by
  have hdigits : Utf8.IsAscii p.digits := fun c hc => toNat_lt_of_isWordChar (by
    simp [isWordChar, Char.isAlphanum, h.digits c hc])
  have hopen : Utf8.IsAscii ('[' :: p.digits) := List.forall_mem_cons.mpr ⟨by decide, hdigits⟩
  have hclose : Utf8.IsAscii [']'] := by simp [Utf8.IsAscii]
  rw [text]
  simp only [Utf8.isAscii_append]
  exact ⟨⟨⟨⟨⟨h.isAscii_lead, h.type.isAscii⟩, h.gap₂.isAscii⟩, h.name.isAscii⟩, hopen⟩, hclose⟩

end DeclarationParts.WellFormed

/-- A run of bracket groups at the start of a byte string, as long as there is one. -/
structure IsLongestByteRun (run : List Char) (bytes : Bytes) : Prop where
  isPrefix : Utf8.encode run <+: bytes
  isGroups : IsGroups run
  longest : ∀ other, Utf8.encode other <+: bytes → IsGroups other → other.length ≤ run.length

/-- Reading bytes as text keeps the longest run of bracket groups. -/
lemma IsLongestRun.of_reads {run text : List Char} (h : IsLongestRun run text) {bytes : Bytes}
    (hreads : Utf8.Reads bytes text) : IsLongestByteRun run bytes := by
  obtain ⟨⟨after, rfl⟩, hgroups, hlongest⟩ := h
  obtain ⟨rest, rfl, -⟩ := hreads.of_ascii_append hgroups.isAscii
  refine ⟨List.prefix_append _ _, hgroups, fun other hother hother' => ?_⟩
  obtain ⟨rest', hrest'⟩ := hother
  obtain ⟨after', hafter', -⟩ := (hrest' ▸ hreads).of_encode_append hother'.isAscii
  exact hlongest other ⟨after', hafter'.symm⟩ hother'

/-- All longest runs have one length. -/
lemma IsLongestByteRun.length_eq {run run' : List Char} {bytes : Bytes}
    (h : IsLongestByteRun run bytes) (h' : IsLongestByteRun run' bytes) :
    run.length = run'.length :=
  Nat.le_antisymm (h'.longest run h.isPrefix h.isGroups) (h.longest run' h'.isPrefix h'.isGroups)

/-- There is a longest run of bracket groups at the start of every byte string. -/
lemma exists_isLongestByteRun (bytes : Bytes) : ∃ run, IsLongestByteRun run bytes :=
  let ⟨run, hrun, _⟩ := dimensionsLength_eq (Utf8.decodeLossy bytes)
  ⟨run, hrun.of_reads (Utf8.reads_decodeLossy bytes)⟩

namespace ArrayDeclaration

/-- A line of bytes is recognised exactly when it follows the grammar. -/
theorem matchBytes?_eq_some_iff {line : Bytes} {m : DeclarationMatch} :
    matchBytes? line = some m ↔
      bytesOf "const" ∉ byteWords line ∧ ∃ p : DeclarationParts, p.WellFormed ∧
        ∃ rest, line = Utf8.encode p.text ++ rest ∧
          ∃ run, IsLongestByteRun run rest ∧ m = p.found run.length := by
  have hreads := Utf8.reads_decodeLossy line
  have hconst : "const".toList ∉ words (Utf8.decodeLossy line) ↔
      bytesOf "const" ∉ byteWords line := by
    rw [← mentionsConst_decodeLossy, mentionsConst, List.contains_iff_mem]
  rw [matchBytes?, match?_eq_some_iff, hconst]
  refine and_congr_right fun _ => exists_congr fun p => and_congr_right fun hp => ?_
  constructor
  · rintro ⟨later, htext, rfl⟩
    obtain ⟨rest, rfl, hrest⟩ := (htext ▸ hreads).of_ascii_append hp.isAscii_text
    obtain ⟨run, hrun, hlength⟩ := dimensionsLength_eq later
    exact ⟨rest, rfl, run, hrun.of_reads hrest, by rw [hlength]⟩
  · rintro ⟨rest, rfl, run, hrun, rfl⟩
    obtain ⟨later, htext, hrest⟩ := hreads.of_encode_append hp.isAscii_text
    obtain ⟨run', hrun', hlength⟩ := dimensionsLength_eq later
    exact ⟨later, htext, by rw [hlength, hrun.length_eq (hrun'.of_reads hrest)]⟩

/-- A match lies within its line and covers ASCII only. -/
lemma matchBytes?_bounds {line : Bytes} {m : DeclarationMatch} (h : matchBytes? line = some m) :
    0 < m.typeStart ∧ m.typeStart < m.declaratorEnd ∧ m.declaratorEnd ≤ line.length ∧
      ∀ b ∈ line.take m.declaratorEnd, b < 0x80 := by
  obtain ⟨-, p, hp, rest, rfl, run, hrun, rfl⟩ := matchBytes?_eq_some_iff.mp h
  obtain ⟨after, rfl⟩ := hrun.isPrefix
  have hlength := Utf8.length_encode hp.isAscii_text
  have hrunLength := Utf8.length_encode hrun.isGroups.isAscii
  have hend : (p.found run.length).declaratorEnd =
      (Utf8.encode p.text ++ Utf8.encode run).length := by
    rw [List.length_append, hlength, hrunLength]
    rfl
  refine ⟨?_, ?_, ?_, ?_⟩
  · simp [DeclarationParts.found, DeclarationParts.lead_eq]
  · simp [DeclarationParts.found, DeclarationParts.text]
    omega
  · rw [hend]
    simp
  · rw [hend, ← List.append_assoc, List.take_left, ← Utf8.encode_append]
    exact fun b => Utf8.lt_of_mem_encode
      (Utf8.isAscii_append.mpr ⟨hp.isAscii_text, hrun.isGroups.isAscii⟩)

/-- A line that starts with the parts of a declaration and does not mention `const` is recognised by
these parts. -/
lemma matchBytes?_of_isPrefix {line : Bytes} (hconst : bytesOf "const" ∉ byteWords line)
    {p : DeclarationParts} (hp : p.WellFormed) (hline : Utf8.encode p.text <+: line) :
    ∃ run, IsLongestByteRun run (line.drop (Utf8.encode p.text).length) ∧
      matchBytes? line = some (p.found run.length) := by
  obtain ⟨rest, rfl⟩ := hline
  obtain ⟨run, hrun⟩ := exists_isLongestByteRun rest
  refine ⟨run, by rwa [List.drop_left], ?_⟩
  exact matchBytes?_eq_some_iff.mpr ⟨hconst, p, hp, rest, rfl, run, hrun, rfl⟩

/-- The grammar of lines of any bytes, malformed text included: which ones are recognised, what is
captured and where it lies in the bytes of the line. A line that is text is recognised as such. -/
theorem matchBytes?_grammar (line : Bytes) :
    ((matchBytes? line).isSome ↔
      bytesOf "const" ∉ byteWords line ∧
        ∃ p : DeclarationParts, p.WellFormed ∧ Utf8.encode p.text <+: line) ∧
    (∀ m, matchBytes? line = some m →
      (∀ p : DeclarationParts, p.WellFormed → Utf8.encode p.text <+: line →
        m.declaration = p.declaration ∧
        m.typeStart = (Utf8.encode p.lead).length ∧
        Utf8.encode p.type <+: line.drop m.typeStart ∧
        ∃ run, IsLongestByteRun run (line.drop (Utf8.encode p.text).length) ∧
          m.declaratorEnd = (Utf8.encode p.text).length + (Utf8.encode run).length) ∧
      0 < m.typeStart ∧ m.typeStart < m.declaratorEnd ∧ m.declaratorEnd ≤ line.length ∧
      ∀ b ∈ line.take m.declaratorEnd, b < 0x80) ∧
    ∀ text, line = Utf8.encode text → matchBytes? line = match? text := by
  refine ⟨?_, fun m hm => ⟨fun p hp hline => ?_, matchBytes?_bounds hm⟩, fun text htext => ?_⟩
  · rw [Option.isSome_iff_exists]
    constructor
    · rintro ⟨m, hm⟩
      obtain ⟨hconst, p, hp, rest, rfl, -⟩ := matchBytes?_eq_some_iff.mp hm
      exact ⟨hconst, p, hp, List.prefix_append _ _⟩
    · rintro ⟨hconst, p, hp, hline⟩
      obtain ⟨run, -, hm⟩ := matchBytes?_of_isPrefix hconst hp hline
      exact ⟨_, hm⟩
  · have hconst := (matchBytes?_eq_some_iff.mp hm).1
    obtain ⟨run, hrun, hfound⟩ := matchBytes?_of_isPrefix hconst hp hline
    obtain rfl : m = p.found run.length := Option.some.inj (hm.symm.trans hfound)
    -- all of a declaration is ASCII, so its characters are its bytes
    have hascii := hp.isAscii_text
    have hlead := hp.isAscii_lead
    refine ⟨rfl, (Utf8.length_encode hlead).symm, ?_, run, hrun, ?_⟩
    · obtain ⟨rest, rfl⟩ := hline
      rw [DeclarationParts.found, ← Utf8.length_encode hlead, DeclarationParts.text]
      simp only [Utf8.encode_append, List.append_assoc, List.drop_left]
      exact List.prefix_append _ _
    · rw [Utf8.length_encode hascii, Utf8.length_encode hrun.isGroups.isAscii]
      rfl
  · rw [htext, matchBytes?, Utf8.decodeLossy_encode]

/-- Two bracket groups are covered, and a byte that is no text may follow them. -/
theorem matchBytes?_grammar_two_groups :
    let line := bytesOf "static int a[4][2]; // caf" ++ [0xE9]
    let p : DeclarationParts := ⟨[' '], "int".toList, [' '], ['a'], ['4']⟩
    matchBytes? line = some ⟨p.declaration, 7, 18⟩ ∧ p.WellFormed ∧ Utf8.encode p.text <+: line ∧
      ∃ run, IsLongestByteRun run (line.drop (Utf8.encode p.text).length) ∧
        18 = (Utf8.encode p.text).length + (Utf8.encode run).length := by
  intro line p
  have hm : matchBytes? line = some ⟨p.declaration, 7, 18⟩ := by decide +kernel
  have hp : p.WellFormed :=
    ⟨⟨by decide, List.all_eq_true.mp (by decide)⟩,
      ⟨⟨'i', ['n', 't'], rfl, rfl⟩, List.all_eq_true.mp (by decide)⟩,
      ⟨by decide, List.all_eq_true.mp (by decide)⟩,
      ⟨⟨'a', [], rfl, rfl⟩, List.all_eq_true.mp (by decide)⟩, List.all_eq_true.mp (by decide)⟩
  have hline : Utf8.encode p.text <+: line := by decide +kernel
  exact ⟨hm, hp, hline, (((matchBytes?_grammar line).2.1 _ hm).1 p hp hline).2.2.2⟩

end ArrayDeclaration

end ConstPromotion
