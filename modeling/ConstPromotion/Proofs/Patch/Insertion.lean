import ConstPromotion.Proofs.Patch.Lines

/-!
# Promotion only inserts

A promoted content is the old one with pieces inserted into the lines that hold a declaration, and
nowhere else. `lineEdits` says which pieces these are, line by line, without regard to how
promotion is computed; `patchBytes_inserts` says that promotion does just that and reports just
the lines it touched.
-/

namespace ConstPromotion

/-! ### Edits -/

/-- A piece of a promoted content: it was there before, or it was inserted. -/
inductive Edit where
  | keep (bytes : Bytes)
  | insert (bytes : Bytes)

/-- What a piece was before promotion. -/
def Edit.before : Edit → Bytes
  | .keep bytes => bytes
  | .insert _ => []

/-- What a piece is after promotion. -/
def Edit.after : Edit → Bytes
  | .keep bytes => bytes
  | .insert bytes => bytes

/-- The bytes of the attribute. -/
def tagBytes (o : PatchOptions) : Bytes := bytesOf (annotationTag o.sectionName)

/-- Whether the attribute goes into a line: it is asked for, and the line does not hold it yet. -/
def annotates (o : PatchOptions) (body : Bytes) : Bool :=
  o.annotate && decide (¬ tagBytes o <:+: body)

/-- The pieces of a promoted line. -/
def lineEdits (o : PatchOptions) (l : ContentLine) : List Edit :=
  match ArrayDeclaration.matchBytes? l.body with
  | none => [.keep l.raw]
  | some m =>
    [.keep (l.body.take m.typeStart), .insert (bytesOf "const "),
      .keep ((l.body.take m.declaratorEnd).drop m.typeStart)]
    ++ (if annotates o l.body then [.insert (bytesOf " " ++ tagBytes o)] else [])
    ++ [.keep (l.body.drop m.declaratorEnd), .keep l.ending]

/-- What is reported of the line with a number. -/
def lineDeclaration? (o : PatchOptions) (number : Nat) (l : ContentLine) :
    Option PatchedDeclaration :=
  (ArrayDeclaration.matchBytes? l.body).map fun m => ⟨number, m.declaration, annotates o l.body⟩

/-- What is reported of lines, the first of which has the given number. -/
def lineDeclarations (o : PatchOptions) (number : Nat) (lines : List ContentLine) :
    List PatchedDeclaration :=
  (lines.zipIdx number).filterMap fun l => lineDeclaration? o l.2 l.1

@[simp] lemma lineDeclarations_nil (o : PatchOptions) (number : Nat) :
    lineDeclarations o number [] = [] := rfl

@[simp] lemma lineDeclarations_cons (o : PatchOptions) (number : Nat) (l : ContentLine)
    (lines : List ContentLine) :
    lineDeclarations o number (l :: lines) =
      (lineDeclaration? o number l).toList ++ lineDeclarations o (number + 1) lines := by
  rw [lineDeclarations, List.zipIdx_cons]
  cases h : lineDeclaration? o number l <;> simp [h, lineDeclarations]

/-! ### One line -/

lemma containsPiece_iff {piece bytes : Bytes} : containsPiece piece bytes ↔ piece <:+: bytes := by
  induction bytes with
  | nil => simp [containsPiece, List.isEmpty_iff]
  | cons b bytes ih =>
    rw [containsPiece, Bool.or_eq_true, ih, List.isPrefixOf_iff_prefix, List.infix_cons_iff]

lemma splitEnding_append (raw : Bytes) : (splitEnding raw).1 ++ (splitEnding raw).2 = raw := by
  rw [splitEnding]
  split
  next body h => exact List.append_eq_of_isSuffixOf?_eq_some h
  next =>
    split
    next body h => exact List.append_eq_of_isSuffixOf?_eq_some h
    next => simp

/-- A declaration cuts its line into what stands before its type, what stands from there to the end
of its declarator, and the rest. -/
lemma parts_append {body : Bytes} {m : DeclarationMatch}
    (h : ArrayDeclaration.matchBytes? body = some m) :
    body.take m.typeStart
      ++ ((body.take m.declaratorEnd).drop m.typeStart ++ body.drop m.declaratorEnd) = body := by
  obtain ⟨-, hlt, -, -⟩ := ArrayDeclaration.matchBytes?_bounds h
  have hstart : body.take m.typeStart = (body.take m.declaratorEnd).take m.typeStart := by
    rw [List.take_take, Nat.min_eq_left hlt.le]
  rw [hstart, ← List.append_assoc, List.take_append_drop, List.take_append_drop]

lemma flatMap_before_lineEdits (o : PatchOptions) (l : ContentLine) :
    (lineEdits o l).flatMap Edit.before = l.raw := by
  rw [lineEdits]
  split
  next => simp [Edit.before]
  next m hm =>
    have htag : (if annotates o l.body then [Edit.insert (bytesOf " " ++ tagBytes o)]
        else []).flatMap Edit.before = [] := by
      split_ifs <;> simp [Edit.before]
    have hparts := parts_append hm
    simp only [List.flatMap_append, htag, List.flatMap_cons, List.flatMap_nil, Edit.before,
      List.append_nil, List.nil_append]
    rw [← List.append_assoc, List.append_assoc (l.body.take m.typeStart), hparts, ContentLine.raw]

/-- Whether the attribute goes into a line is what promotion looks for. -/
lemma annotates_eq (o : PatchOptions) (body : Bytes) :
    annotates o body = (o.annotate && !containsPiece (bytesOf (annotationTag o.sectionName)) body)
    := by
  simp only [annotates, tagBytes, ← containsPiece_iff]
  simp

/-- A line is promoted by its edits. -/
lemma patchRawLine_eq (o : PatchOptions) (number : Nat) (raw : Bytes) :
    patchRawLine o number raw =
      ⟨(lineEdits o (.ofRaw raw)).flatMap Edit.after,
        (lineDeclaration? o number (.ofRaw raw)).toList⟩ := by
  have hraw := splitEnding_append raw
  rw [patchRawLine, lineEdits, lineDeclaration?, ContentLine.ofRaw]
  simp only [patchLine?]
  cases hm : ArrayDeclaration.matchBytes? (splitEnding raw).1 with
  | none => simp [Edit.after, ContentLine.raw, hraw]
  | some m =>
    simp only [Option.bind_eq_bind, Option.bind_some, Option.pure_def, Option.map_some,
      Option.toList_some]
    rw [← annotates_eq, show bytesOf (annotationTag o.sectionName) = tagBytes o from rfl]
    cases annotates o (splitEnding raw).1 <;> simp [Edit.after]

/-! ### Whole contents -/

lemma patchLinesFrom_eq (o : PatchOptions) (number : Nat) (raws : List Bytes) :
    patchLinesFrom o number raws =
      ⟨((raws.map ContentLine.ofRaw).flatMap (lineEdits o)).flatMap Edit.after,
        lineDeclarations o number (raws.map ContentLine.ofRaw)⟩ := by
  induction raws generalizing number with
  | nil => rfl
  | cons raw raws ih =>
    rw [patchLinesFrom, patchRawLine_eq, ih]
    simp only [List.map_cons, List.flatMap_cons, List.flatMap_append, lineDeclarations_cons]

/-- Promotion of a content, by the edits of its lines. -/
lemma patchBytes_eq (o : PatchOptions) (content : Bytes) :
    patchBytes o content =
      ⟨((cutLines content).flatMap (lineEdits o)).flatMap Edit.after,
        lineDeclarations o 1 (cutLines content)⟩ :=
  patchLinesFrom_eq o 1 (splitLines content)

lemma flatMap_raw_cutLines (content : Bytes) :
    (cutLines content).flatMap ContentLine.raw = content := by
  have h := isCut_iff.mpr (rfl : cutLines content = _)
  generalize cutLines content = lines at h
  induction h with
  | nil => rfl
  | last => simp [ContentLine.raw]
  | cons _ _ ih => rw [List.flatMap_cons, ih]

lemma flatMap_before_edits (o : PatchOptions) (content : Bytes) :
    ((cutLines content).flatMap (lineEdits o)).flatMap Edit.before = content := by
  rw [List.flatMap_assoc]
  simp only [flatMap_before_lineEdits, flatMap_raw_cutLines]

lemma pairwise_line_lineDeclarations (o : PatchOptions) (number : Nat) (lines : List ContentLine) :
    ((lineDeclarations o number lines).map PatchedDeclaration.line).Pairwise (· < ·) := by
  have hidx : (lines.zipIdx number).Pairwise fun a b => a.2 < b.2 := by
    rw [← List.pairwise_map, List.zipIdx_map_snd]
    exact List.pairwise_lt_range'
  have hline {l : ContentLine} {n : Nat} {d : PatchedDeclaration}
      (h : lineDeclaration? o n l = some d) : d.line = n := by
    obtain ⟨m, -, rfl⟩ := Option.map_eq_some_iff.mp h
    rfl
  rw [List.pairwise_map]
  refine List.Pairwise.filterMap _ ?_ hidx
  rintro ⟨l, n⟩ ⟨l', n'⟩ hlt d hd d' hd'
  rwa [hline hd, hline hd']

/-- How much longer a line gets: by `const` and a space where it is reported, and by the attribute
and a space where it is reported as annotated. -/
lemma length_after_lineEdits (o : PatchOptions) (number : Nat) (l : ContentLine) :
    ((lineEdits o l).flatMap Edit.after).length =
      ((lineEdits o l).flatMap Edit.before).length
        + 6 * (lineDeclaration? o number l).toList.length
        + (1 + (tagBytes o).length)
          * (lineDeclaration? o number l).toList.countP PatchedDeclaration.annotated := by
  have hconst : (bytesOf "const ").length = 6 := by decide
  have hspace : (bytesOf " ").length = 1 := by decide
  rw [lineEdits, lineDeclaration?]
  cases ArrayDeclaration.matchBytes? l.body with
  | none => simp [Edit.before, Edit.after]
  | some m =>
    cases annotates o l.body <;>
      simp [Edit.before, Edit.after, hconst, hspace] <;> omega

lemma length_after_edits (o : PatchOptions) (number : Nat) (lines : List ContentLine) :
    ((lines.flatMap (lineEdits o)).flatMap Edit.after).length =
      ((lines.flatMap (lineEdits o)).flatMap Edit.before).length
        + 6 * (lineDeclarations o number lines).length
        + (1 + (tagBytes o).length)
          * (lineDeclarations o number lines).countP PatchedDeclaration.annotated := by
  induction lines generalizing number with
  | nil => rfl
  | cons l lines ih =>
    have hl := length_after_lineEdits o number l
    have hlines := ih (number + 1)
    simp only [List.flatMap_cons, List.flatMap_append, lineDeclarations_cons, List.length_append,
      List.countP_append, Nat.mul_add]
    omega

/-- Promotion inserts pieces into the lines that hold a declaration, and does nothing else. The
lines are the only cut of the content. Each line that holds a declaration is reported with its
number and with what it declares, in order. Without the inserted pieces the content is the old one,
and they are as long as the report says. -/
theorem patchBytes_inserts (o : PatchOptions) (content : Bytes) :
    let lines := cutLines content
    let edits := lines.flatMap (lineEdits o)
    let patched := patchBytes o content
    (∀ cut, IsCut content cut ↔ cut = lines) ∧
    patched.content = edits.flatMap Edit.after ∧
    content = edits.flatMap Edit.before ∧
    patched.declarations = lineDeclarations o 1 lines ∧
    (patched.declarations.map PatchedDeclaration.line).Pairwise (· < ·) ∧
    patched.content.length = content.length + 6 * patched.declarations.length
      + (1 + (tagBytes o).length) * patched.declarations.countP PatchedDeclaration.annotated := by
  intro lines edits patched
  have hbefore : edits.flatMap Edit.before = content := flatMap_before_edits o content
  have hlength := length_after_edits o 1 lines
  rw [show (lines.flatMap (lineEdits o)).flatMap Edit.before = content from hbefore] at hlength
  rw [show patched = _ from patchBytes_eq o content]
  exact ⟨fun _ => isCut_iff, rfl, hbefore.symm, rfl, pairwise_line_lineDeclarations o 1 lines,
    hlength⟩

end ConstPromotion
