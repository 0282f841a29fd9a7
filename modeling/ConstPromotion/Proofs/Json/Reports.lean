import ConstPromotion.Patch.Report
import ConstPromotion.Pipeline.State
import ConstPromotion.Verification.Result
import ConstPromotion.Proofs.Document
import ConstPromotion.Proofs.Json.Text
import ConstPromotion.Proofs.Text.Decimal

/-!
# Reports survive being written

A report is read back from its JSON form and from the text of it, in both layouts, and so are the
state of a pipeline and the result of a verification. What may be written differently in a document
is settled by reading and writing it: the result means the same, and it does not change any more
(`reports_survive`).

Reading and writing are shown to fit each other for the parts of a report first (`IsJsonForm`), and
lists follow from their items.
-/

namespace ConstPromotion

/-! ### Writing and reading -/

namespace Json

variable {α : Type} {toJson : α → Json} {ofJson? : Json → Option α} {Fits : α → Prop}

/-- Reads a value from JSON text. -/
def decode? (ofJson? : Json → Option α) (text : String) : Option α :=
  (parse? text.toList).bind ofJson?

/-- Reads a value from JSON text and writes it in a layout. -/
def reencode? (toJson : α → Json) (ofJson? : Json → Option α) (layout : Json → String)
    (text : String) : Option String :=
  (decode? ofJson? text).map fun x => layout (toJson x)

/-- A value is read back from its JSON form and from the text of it. -/
def Survives (toJson : α → Json) (ofJson? : Json → Option α) (x : α) : Prop :=
  ofJson? (toJson x) = some x ∧
    ∀ layout ∈ [compact, pretty], decode? ofJson? (layout (toJson x)) = some x

/-- What is read is written in a form that reads as the same and is written as itself. -/
def HasNormalForms (toJson : α → Json) (ofJson? : Json → Option α) : Prop :=
  ∀ layout ∈ [compact, pretty], ∀ text form, reencode? toJson ofJson? layout text = some form →
    decode? ofJson? form = decode? ofJson? text ∧
      reencode? toJson ofJson? layout form = some form

/-- Reading undoes writing for the values that fit, and gives only such values. -/
structure IsJsonForm (toJson : α → Json) (ofJson? : Json → Option α) (Fits : α → Prop) : Prop where
  isPlain : ∀ x, (toJson x).IsPlain
  ofJson?_toJson : ∀ x, Fits x → ofJson? (toJson x) = some x
  fits : ∀ v x, ofJson? v = some x → Fits x

namespace IsJsonForm

lemma survives (h : IsJsonForm toJson ofJson? Fits) {x : α} (hx : Fits x) :
    Survives toJson ofJson? x := by
  refine ⟨h.ofJson?_toJson x hx, fun layout hlayout => ?_⟩
  simp only [List.mem_cons, List.not_mem_nil, or_false] at hlayout
  rcases hlayout with rfl | rfl
  · rw [decode?, (h.isPlain x).parse?_compact, Option.bind_some, h.ofJson?_toJson x hx]
  · rw [decode?, (h.isPlain x).parse?_pretty, Option.bind_some, h.ofJson?_toJson x hx]

/-- What was read fits, so it survives. -/
lemma hasNormalForms (h : IsJsonForm toJson ofJson? Fits) : HasNormalForms toJson ofJson? := by
  intro layout hlayout text form hform
  obtain ⟨x, hx, rfl⟩ := Option.map_eq_some_iff.mp hform
  obtain ⟨v, -, hv⟩ := Option.bind_eq_some_iff.mp hx
  have hread := (h.survives (h.fits v x hv)).2 layout hlayout
  exact ⟨hread.trans hx.symm, by rw [reencode?, hread, Option.map_some]⟩

/-- Values that are written one after the other. -/
lemma list (h : IsJsonForm toJson ofJson? Fits) :
    IsJsonForm (fun xs => .array (xs.map toJson)) (list? ofJson?) fun xs => ∀ x ∈ xs, Fits x where
  isPlain xs := .array <| by
    intro v hv
    obtain ⟨x, -, rfl⟩ := List.mem_map.mp hv
    exact h.isPlain x
  ofJson?_toJson xs hxs := by
    rw [list?, mapM_eq_some_iff, List.forall₂_map_left_iff, List.forall₂_same]
    exact fun x hx => h.ofJson?_toJson x (hxs x hx)
  fits v xs hxs := by
    cases v with
    | array items =>
      have hitems := mapM_eq_some_iff.mp hxs
      clear hxs
      induction hitems with
      | nil => simp
      | cons hitem _ ih => exact List.forall_mem_cons.mpr ⟨h.fits _ _ hitem, ih⟩
    | _ => cases hxs

end IsJsonForm

/-! ### Single values -/

/-- Numbers below a bound. -/
lemma isJsonForm_nat (bound : Nat) : IsJsonForm nat (nat? bound) (· < bound) where
  isPlain := .nat
  ofJson?_toJson n hn := by
    have hdigits : (toString n).toList = Decimal.render n := String.toList_ofList
    rw [nat, nat?, hdigits]
    exact Decimal.parse?_eq_some_iff.mpr ⟨⟨0, rfl⟩, hn⟩
  fits v n h := by
    cases v with
    | number literal => exact (Decimal.parse?_eq_some_iff.mp h).2
    | _ => cases h

lemma isPlain_textOrNull (s : Option String) : (textOrNull s).IsPlain := by
  cases s with
  | none => exact .null
  | some s => exact .text s

/-- A field that was read was given. -/
lemma exists_of_required {g : Given Json} {x : α} (h : g.required ofJson? = some x) :
    ∃ v, ofJson? v = some x := by
  cases g with
  | value v => exact ⟨v, h⟩
  | _ => cases h

end Json

open Json

/-! ### Parts of a report -/

lemma ArrayDeclaration.isJsonForm : IsJsonForm toJson ofJson? fun _ => True where
  isPlain d := .record <| by simp [IsPlain.text, isPlain_textOrNull]
  ofJson?_toJson d _ := by
    rw [toJson, ofJson?, fieldsOf?_record (by simp)]
    obtain ⟨type, name, size⟩ := d
    cases size <;> rfl
  fits _ _ _ := trivial

/-- The number of the line is a machine word. -/
def PatchedDeclaration.Fits (d : PatchedDeclaration) : Prop := d.line < Decimal.word64

lemma PatchedDeclaration.isJsonForm : IsJsonForm toJson ofJson? Fits where
  isPlain d := .record <| by
    simp [IsPlain.nat, IsPlain.bool, ArrayDeclaration.isJsonForm.isPlain d.declaration]
  ofJson?_toJson d hd := by
    have hline := (isJsonForm_nat Decimal.word64).ofJson?_toJson d.line hd
    have hdeclaration := ArrayDeclaration.isJsonForm.ofJson?_toJson d.declaration trivial
    rw [toJson, ofJson?, fieldsOf?_record (by simp)]
    simp [hline, hdeclaration, bool?]
  fits v d hd := by
    simp only [ofJson?, Option.bind_eq_bind, Option.bind_eq_some_iff, Option.pure_def,
      Option.some.injEq] at hd
    obtain ⟨given, -, line, hline, -, -, -, -, rfl⟩ := hd
    obtain ⟨v, hv⟩ := exists_of_required hline
    exact (isJsonForm_nat Decimal.word64).fits v line hv

lemma Path.isJsonForm : IsJsonForm toJson ofJson? fun _ => True where
  isPlain p := .text p.toString
  ofJson?_toJson p _ := by
    rw [toJson, ofJson?, Json.text, text?, Option.map_some, ofString, Path.toString,
      String.toList_ofList]
  fits _ _ _ := trivial

lemma BackupOutcome.isJsonForm : IsJsonForm toJson ofJson? fun _ => True where
  isPlain b := .record <| by simp [IsPlain.bool, Path.isJsonForm.isPlain b.path]
  ofJson?_toJson b _ := by
    have hpath := Path.isJsonForm.ofJson?_toJson b.path trivial
    rw [toJson, ofJson?, fieldsOf?_record (by simp)]
    simp [hpath, bool?]
  fits _ _ _ := trivial

lemma PatchStatus.isJsonForm : IsJsonForm toJson ofJson? fun _ => True where
  isPlain
    | .patched => .text "patched"
    | .dryRun => .text "dry_run"
    | .unchanged => .text "unchanged"
    | .skipped .missing => .record <| by simp [IsPlain.text]
  ofJson?_toJson
    | .patched, _ => rfl
    | .dryRun, _ => rfl
    | .unchanged, _ => rfl
    | .skipped .missing, _ => rfl
  fits _ _ _ := trivial

/-- The numbers of the lines are machine words. -/
def FileOutcome.Fits (f : FileOutcome) : Prop := ∀ d ∈ f.declarations, d.Fits

/-- A backup is not mentioned unless there is one. -/
lemma FileOutcome.isJsonForm : IsJsonForm toJson ofJson? Fits where
  isPlain f := .record <| by
    have hpath := Path.isJsonForm.isPlain f.path
    have hstatus := PatchStatus.isJsonForm.isPlain f.status
    have hdeclarations := PatchedDeclaration.isJsonForm.list.isPlain f.declarations
    cases hbackup : f.backup with
    | none => simp [hpath, hstatus, hdeclarations]
    | some b => simp [hpath, hstatus, hdeclarations, BackupOutcome.isJsonForm.isPlain b]
  ofJson?_toJson f hf := by
    obtain ⟨path, status, declarations, backup⟩ := f
    have hpath := Path.isJsonForm.ofJson?_toJson path trivial
    have hstatus := PatchStatus.isJsonForm.ofJson?_toJson status trivial
    have hdeclarations := PatchedDeclaration.isJsonForm.list.ofJson?_toJson declarations hf
    cases backup with
    | none =>
      rw [toJson, ofJson?, fieldsOf?_record (by simp)]
      simp [hpath, hstatus, hdeclarations]
    | some b =>
      have hbackup : backupOfJson? b.toJson = some (some b) :=
        congrArg (Option.map some) (BackupOutcome.isJsonForm.ofJson?_toJson b trivial)
      rw [toJson, ofJson?, fieldsOf?_record (by simp)]
      simp [hpath, hstatus, hdeclarations, hbackup]
  fits v f hf := by
    simp only [ofJson?, Option.bind_eq_bind, Option.bind_eq_some_iff, Option.pure_def,
      Option.some.injEq] at hf
    obtain ⟨given, -, -, -, -, -, declarations, hdeclarations, -, -, rfl⟩ := hf
    obtain ⟨v, hv⟩ := exists_of_required hdeclarations
    exact PatchedDeclaration.isJsonForm.list.fits v declarations hv

/-- The numbers of the lines are machine words. -/
def PatchReport.Fits (r : PatchReport) : Prop := ∀ f ∈ r.files, f.Fits

lemma PatchReport.isJsonForm : IsJsonForm toJson ofJson? Fits where
  isPlain r := .record <| by simp [FileOutcome.isJsonForm.list.isPlain r.files]
  ofJson?_toJson r hr := by
    have hfiles := FileOutcome.isJsonForm.list.ofJson?_toJson r.files hr
    rw [toJson, ofJson?, fieldsOf?_record (by simp)]
    simp [hfiles]
  fits v r hr := by
    simp only [ofJson?, Option.bind_eq_bind, Option.bind_eq_some_iff, Option.pure_def,
      Option.some.injEq] at hr
    obtain ⟨given, -, files, hfiles, rfl⟩ := hr
    obtain ⟨v, hv⟩ := exists_of_required hfiles
    exact FileOutcome.isJsonForm.list.fits v files hv

/-! ### States and results -/

lemma PipelineState.isJsonForm : IsJsonForm toJson ofJson? fun _ => True where
  isPlain
    | .notStarted => .record <| by simp [IsPlain.text]
    | .patched => .record <| by simp [IsPlain.text]
    | .built => .record <| by simp [IsPlain.text]
    | .verified verdict => .record <| by simp [IsPlain.text]
  ofJson?_toJson
    | .notStarted, _ => rfl
    | .patched, _ => rfl
    | .built, _ => rfl
    | .verified .pass, _ => rfl
    | .verified .fail, _ => rfl
    | .verified .skippedWarning, _ => rfl
  fits _ _ _ := trivial

lemma Violation.isJsonForm : IsJsonForm toJson ofJson? fun _ => True where
  isPlain v := .record <| by simp [IsPlain.text]
  ofJson?_toJson _ _ := rfl
  fits _ _ _ := trivial

/-- The numbers are machine words. -/
structure VerificationResult.Fits (r : VerificationResult) : Prop where
  found : r.found < Decimal.word32
  sections : r.sections < Decimal.word64
  violations : r.violations < Decimal.word64

lemma VerificationResult.isJsonForm : IsJsonForm toJson ofJson? Fits where
  isPlain r := .record <| by
    simp [IsPlain.nat, Violation.isJsonForm.list.isPlain r.violating]
  ofJson?_toJson r hr := by
    have hfound := (isJsonForm_nat _).ofJson?_toJson r.found hr.found
    have hsections := (isJsonForm_nat _).ofJson?_toJson r.sections hr.sections
    have hviolations := (isJsonForm_nat _).ofJson?_toJson r.violations hr.violations
    have hviolating := Violation.isJsonForm.list.ofJson?_toJson r.violating fun _ _ => trivial
    rw [toJson, ofJson?, fieldsOf?_record (by simp)]
    simp [hfound, hsections, hviolations, hviolating]
  fits v r hr := by
    simp only [ofJson?, Option.bind_eq_bind, Option.bind_eq_some_iff, Option.pure_def,
      Option.some.injEq] at hr
    obtain ⟨given, -, found, hfound, sections, hsections, violations, hviolations, -, -, rfl⟩ := hr
    obtain ⟨_, hfound⟩ := exists_of_required hfound
    obtain ⟨_, hsections⟩ := exists_of_required hsections
    obtain ⟨_, hviolations⟩ := exists_of_required hviolations
    exact ⟨(isJsonForm_nat _).fits _ found hfound, (isJsonForm_nat _).fits _ sections hsections,
      (isJsonForm_nat _).fits _ violations hviolations⟩

/-- Reports on promotion, states of a pipeline and results of a verification survive being written,
and a document that is read as one of them is written in a normal form. -/
theorem reports_survive :
    (∀ r : PatchReport, r.Fits → Survives PatchReport.toJson PatchReport.ofJson? r) ∧
    (∀ s : PipelineState, Survives PipelineState.toJson PipelineState.ofJson? s) ∧
    (∀ v : VerificationResult, v.Fits →
      Survives VerificationResult.toJson VerificationResult.ofJson? v) ∧
    HasNormalForms PatchReport.toJson PatchReport.ofJson? ∧
    HasNormalForms PipelineState.toJson PipelineState.ofJson? ∧
    HasNormalForms VerificationResult.toJson VerificationResult.ofJson? :=
  ⟨fun _ hr => PatchReport.isJsonForm.survives hr,
    fun _ => PipelineState.isJsonForm.survives trivial,
    fun _ hv => VerificationResult.isJsonForm.survives hv,
    PatchReport.isJsonForm.hasNormalForms, PipelineState.isJsonForm.hasNormalForms,
    VerificationResult.isJsonForm.hasNormalForms⟩

/-- A dry run over one file with one declaration. -/
def PatchReport.dry : PatchReport where
  files :=
    [{ path := .ofString "a.c"
       status := .dryRun
       declarations :=
        [{ line := 3
           declaration := { elementType := "int", name := "t", size := none }
           annotated := true }]
       backup := none }]

/-- The report as it is written without space. -/
def PatchReport.dryText : String :=
  "\x7b\"files\":[\x7b\"path\":\"a.c\",\"status\":\"dry_run\",\"declarations\":[\x7b\"line\":3," ++
    "\"declaration\":\x7b\"element_type\":\"int\",\"name\":\"t\",\"size\":null\x7d," ++
    "\"annotated\":true\x7d]\x7d]\x7d"

/-- The report in other shapes: structures as arrays, a null for the backup that there is not, and a
field that no report has. -/
def PatchReport.dryRearranged : String :=
  "\x7b\"tool\": 1, \"files\": [[\"a.c\", \x7b\"dry_run\": null\x7d, " ++
    "[[3, [\"int\", \"t\", null], true]], null]]\x7d"

theorem reports_survive_rearranged :
    PatchReport.dry.Fits ∧ Survives PatchReport.toJson PatchReport.ofJson? .dry ∧
      decode? PatchReport.ofJson? PatchReport.dryRearranged = some .dry ∧
      reencode? PatchReport.toJson PatchReport.ofJson? compact PatchReport.dryRearranged =
        some PatchReport.dryText ∧
      decode? PatchReport.ofJson? PatchReport.dryText =
        decode? PatchReport.ofJson? PatchReport.dryRearranged ∧
      reencode? PatchReport.toJson PatchReport.ofJson? compact PatchReport.dryText =
        some PatchReport.dryText := by
  have hfits : PatchReport.dry.Fits := by
    simp [PatchReport.Fits, FileOutcome.Fits, PatchedDeclaration.Fits, PatchReport.dry,
      Decimal.word64, UInt64.size]
  have hread : decode? PatchReport.ofJson? PatchReport.dryRearranged = some .dry := by
    decide +kernel
  have hform : reencode? PatchReport.toJson PatchReport.ofJson? compact PatchReport.dryRearranged =
      some PatchReport.dryText := by
    decide +kernel
  obtain ⟨hreports, -, -, hforms, -⟩ := reports_survive
  exact ⟨hfits, hreports _ hfits, hread, hform, hforms compact (by simp) _ _ hform⟩

end ConstPromotion
