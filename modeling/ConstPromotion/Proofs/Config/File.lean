import ConstPromotion.Config.Load
import ConstPromotion.Proofs.Config.Overlay
import ConstPromotion.Proofs.Text.Decoding

/-!
# Configuration files

The configuration that is loaded from a file is the default one with exactly the fields replaced that
its document gives, provided that the suffix of backups and the annotated section are not empty; and
a usable configuration is loaded from what it is written as (`loadConfigFile_overlay`). Its JSON text
is such a document without further ado (`loadConfigFile_pretty`).
-/

namespace ConstPromotion

variable {ν : Type}

/-! ### Files -/

/-- A text is read as the value of a document: as JSON where the extension says so, else as YAML. -/
inductive IsDocument (p : Path) (text : List Char) : {ν : Type} → Reader ν → ν → Prop
  | json {v : Json} (h : p.extension? = some "json".toList) (hv : Json.parse? text = some v) :
    IsDocument p text Json.reader v
  | yaml {document : Yaml.Node} (h : p.extension? ≠ some "json".toList)
      (hv : Yaml.parse? text = .ok document) : IsDocument p text document.reader document

section Files

variable {fs : FileSystem} {p : Path} {text : String} {r : Reader ν} {v : ν} {c : Config}

lemma IsDocument.readsEntries {text : List Char} (h : IsDocument p text r v) : r.ReadsEntries := by
  cases h with
  | json => exact Json.reader_readsEntries
  | yaml => exact Yaml.Node.reader_readsEntries _

lemma Config.fault?_eq_none_iff :
    c.fault? = none ↔ c.backup.suffix ≠ "" ∧ c.annotationSection ≠ "" := by
  rw [fault?]
  split_ifs with hsuffix hsection
  · simp [hsuffix]
  · simp [hsection]
  · simp [hsuffix, hsection]

/-- A file whose document is read as a configuration is loaded unless that is unusable. -/
lemma loadConfigFile_of_read? (htext : fs.readText p = .ok text)
    (hdoc : IsDocument p text.toList r v) (hread : Config.read? r v = some c) :
    fs.loadConfigFile p =
      match c.fault? with
      | some fault => .error (.invalid p fault)
      | none => .ok c := by
  rw [FileSystem.loadConfigFile, htext]
  change Config.ofText p text.toList = _
  cases hdoc with
  | json h hv =>
    rw [Config.ofText, if_pos h, Config.ofJsonText, hv]
    simp only [hread]
    rfl
  | yaml h hv =>
    rw [Config.ofText, if_neg h, Config.ofYamlText, hv]
    simp only [hread]
    rfl

/-- The configuration that is loaded from a file is the default one with the fields replaced that the
document gives, if the suffix of backups and the annotated section are not empty, and nothing is
loaded otherwise. A usable configuration that has been written is loaded as it was. -/
theorem loadConfigFile_overlay (htext : fs.readText p = .ok text)
    (hdoc : IsDocument p text.toList r v) :
    (∀ g : ConfigOverlay, g.IsGiven r v →
      (fs.loadConfigFile p = .ok (g.onto {}) ↔
        (g.onto {}).backup.suffix ≠ "" ∧ (g.onto {}).annotationSection ≠ "") ∧
      ((∃ fault, fs.loadConfigFile p = .error (.invalid p fault)) ↔
        (g.onto {}).backup.suffix = "" ∨ (g.onto {}).annotationSection = "")) ∧
    (∀ c : Config, c.fault? = none → r.holds v c.toJson → fs.loadConfigFile p = .ok c) := by
  constructor
  · intro g hg
    have hload := loadConfigFile_of_read? htext hdoc (ConfigOverlay.read?_eq hdoc.readsEntries hg)
    have husable := Config.fault?_eq_none_iff (c := g.onto {})
    cases hfault : (g.onto {}).fault? with
    | none =>
      rw [hfault] at hload husable
      obtain ⟨hsuffix, hsection⟩ := husable.mp rfl
      simp [hload, hsuffix, hsection]
    | some fault =>
      rw [hfault] at hload husable
      have hempty : ¬((g.onto {}).backup.suffix ≠ "" ∧ (g.onto {}).annotationSection ≠ "") :=
        fun h => nomatch husable.mpr h
      refine ⟨⟨fun h => ?_, fun h => absurd h hempty⟩, fun _ => ?_, fun _ => ⟨fault, hload⟩⟩
      · rw [hload] at h
        cases h
      · tauto
  · intro c hfault hc
    -- what a configuration is written as gives each of its fields
    have hread := ConfigOverlay.read?_eq hdoc.readsEntries (Config.isGiven_of_holds hc)
    rw [Config.onto_overlay] at hread
    rw [loadConfigFile_of_read? htext hdoc hread, hfault]

/-! ### JSON files -/

lemma Json.reader_holds_texts (texts : List String) :
    Json.reader.holds (.texts texts) (.texts texts) := by
  have hitems : Json.reader.items? (.texts texts) = some (texts.map Json.text) := by
    change (texts.map Json.text).mapM some = _
    rw [mapM_eq_some_iff, List.forall₂_same]
    exact fun _ _ => rfl
  rw [Json.texts] at hitems ⊢
  rw [Reader.holds, hitems, Option.any_some, Reader.holdItems_iff, List.forall₂_same]
  intro v hv
  obtain ⟨s, -, rfl⟩ := List.mem_map.mp hv
  exact Reader.holds_text_iff.mpr ⟨rfl, rfl⟩

lemma Json.reader_holds_record {fields : List (String × Json)}
    (h : ∀ field ∈ fields, Json.reader.holds field.2 field.2) :
    Json.reader.holds (.record fields) (.record fields) := by
  refine Reader.holds_record_iff.mpr ⟨fields, Json.entries?_record fields, ?_⟩
  rw [List.forall₂_same]
  exact fun field hfield => ⟨rfl, h field hfield⟩

/-- The JSON form of a configuration is a tree of texts. -/
lemma Config.reader_holds_toJson (c : Config) : Json.reader.holds c.toJson c.toJson := by
  have htext (s : String) : Json.reader.holds (.text s) (.text s) :=
    Reader.holds_text_iff.mpr ⟨rfl, rfl⟩
  have hbackup : Json.reader.holds c.backup.toJson c.backup.toJson :=
    Json.reader_holds_record (by simp [htext])
  have htools : Json.reader.holds c.tools.toJson c.tools.toJson :=
    Json.reader_holds_record (by simp [htext])
  have hvars : Json.reader.holds c.buildVars.toJson c.buildVars.toJson := by
    refine Json.reader_holds_record fun field hfield => ?_
    obtain ⟨e, -, rfl⟩ := List.mem_map.mp hfield
    exact htext e.2
  exact Json.reader_holds_record
    (by simp [htext, hbackup, htools, hvars, Json.reader_holds_texts])

lemma Config.isPlain_toJson (c : Config) : c.toJson.IsPlain := by
  have htexts (texts : List String) : (Json.texts texts).IsPlain := .array <| by
    intro v hv
    obtain ⟨s, -, rfl⟩ := List.mem_map.mp hv
    exact .text s
  have hbackup : c.backup.toJson.IsPlain := .record <| by simp [Json.IsPlain.text]
  have htools : c.tools.toJson.IsPlain := .record <| by simp [Json.IsPlain.text]
  have hvars : c.buildVars.toJson.IsPlain := .record <| by
    intro field hfield
    obtain ⟨e, -, rfl⟩ := List.mem_map.mp hfield
    exact .text e.2
  exact .record <| by simp [Json.IsPlain.text, htexts, hbackup, htools, hvars]

/-- A usable configuration is loaded from its JSON text. -/
theorem loadConfigFile_pretty (hfault : c.fault? = none) (hp : p.extension? = some "json".toList)
    (htext : fs.readText p = .ok (Json.pretty c.toJson)) : fs.loadConfigFile p = .ok c := by
  have hdoc : IsDocument p (Json.pretty c.toJson).toList Json.reader c.toJson :=
    .json hp c.isPlain_toJson.parse?_pretty
  have hread := ConfigOverlay.read?_eq hdoc.readsEntries
    (Config.isGiven_of_holds c.reader_holds_toJson)
  rw [loadConfigFile_of_read? htext hdoc hread, Config.onto_overlay, hfault]

end Files

/-! ### A policy, and a short configuration -/

namespace Written

/-- A file system with one configuration file. -/
def saved (text : String) : FileSystem :=
  ⟨.ofList [(["c.yml".toList], .file (bytesOf text) false)], []⟩

/-- A document that gives one field of the backups, among fields that no configuration has. -/
def policyText : String := "note: x\nbackup:\n  since: 3\n  policy: versioned\n"

/-- The fields of the backups in the document. -/
def policyFields : List (String × Json) := [("since", .text "3"), ("policy", .text "versioned")]

/-- The tree of the document. -/
def policyTree : Json := .record [("note", .text "x"), ("backup", .record policyFields)]

/-- A configuration with short values. -/
def short : Config where
  sourceDir := "u"
  libraryDir := "l"
  allowList := []
  denyList := []
  scanExtensions := ["c"]
  backup := { suffix := "o", policy := .versioned }
  annotationSection := "r"
  tools := { cc := "c", ar := "a", make := "m", readelf := "e" }
  targetFlags := []
  buildVars := .ofList [("V", "0")]
  archiveName := "x"
  outputDir := "b"

lemma readText_saved (text : String) : (saved text).readText (.ofString "/c.yml") = .ok text := by
  have hread : (saved text).read (.ofString "/c.yml") = .ok (bytesOf text) := by rfl
  have hdecode : Utf8.decode? (bytesOf text) = some text.toList := Utf8.decode?_encode text.toList
  rw [FileSystem.readText, hread]
  simp [bind, Except.bind, pure, Except.pure, hdecode]

lemma exists_document (text : String) (tree : Json)
    (h : (Yaml.parse? text.toList).toOption.any fun document =>
      document.reader.holds document tree) :
    ∃ document, Yaml.parse? text.toList = .ok document ∧
      document.reader.holds document tree := by
  cases hparse : Yaml.parse? text.toList with
  | error e =>
    rw [hparse] at h
    cases h
  | ok document =>
    rw [hparse] at h
    exact ⟨document, rfl, h⟩

lemma isGiven_policyFields {r : Reader ν} (v : ν) (h : r.holds v (.record policyFields)) :
    BackupOverlay.IsGiven { policy := some .versioned } r v := by
  obtain ⟨entries, hentries, h⟩ := Reader.holds_record_iff.mp h
  refine ⟨entries, hentries, ?_, ?_⟩
  · exact Reader.says_none_of_forall₂ h (by decide)
  · change Says entries "policy" r.IsPolicy (some .versioned)
    exact Reader.says_of_forall₂ h (by decide) (by simp [policyFields, BackupPolicy.name])
      Reader.isPolicy_of_holds

lemma isGiven_policyTree {r : Reader ν} {v : ν} (h : r.holds v policyTree) :
    ConfigOverlay.IsGiven { backup := some { policy := some .versioned } } r v := by
  obtain ⟨entries, hentries, h⟩ := Reader.holds_record_iff.mp h
  exact ⟨entries, hentries, {
    sourceDir := Reader.says_none_of_forall₂ h (by simp)
    libraryDir := Reader.says_none_of_forall₂ h (by simp)
    allowList := Reader.says_none_of_forall₂ h (by simp)
    denyList := Reader.says_none_of_forall₂ h (by simp)
    scanExtensions := Reader.says_none_of_forall₂ h (by simp)
    backup := Reader.says_of_forall₂ h (by simp) (by simp) isGiven_policyFields
    annotationSection := Reader.says_none_of_forall₂ h (by simp)
    tools := Reader.says_none_of_forall₂ h (by simp)
    targetFlags := Reader.says_none_of_forall₂ h (by simp)
    buildVars := Reader.says_none_of_forall₂ h (by simp)
    archiveName := Reader.says_none_of_forall₂ h (by simp)
    outputDir := Reader.says_none_of_forall₂ h (by simp) }⟩

/-- The suffix stays the default one where the policy alone is given, and a configuration is loaded
from the document that is written of it. -/
theorem loadConfigFile_overlay_policy :
    (saved policyText).loadConfigFile (.ofString "/c.yml") =
        .ok { backup := { suffix := ".orig", policy := .versioned } } ∧
      (saved (Yaml.render short.toJson)).loadConfigFile (.ofString "/c.yml") = .ok short := by
  have hextension : (Path.ofString "/c.yml").extension? ≠ some "json".toList := by decide
  obtain ⟨policyDocument, hpolicy, hgiven⟩ :=
    exists_document policyText policyTree (by decide +kernel)
  obtain ⟨shortDocument, hshort, hholds⟩ :=
    exists_document (Yaml.render short.toJson) short.toJson (by decide +kernel)
  obtain ⟨hoverlay, -⟩ := loadConfigFile_overlay (readText_saved _) (.yaml hextension hpolicy)
  obtain ⟨-, hwritten⟩ := loadConfigFile_overlay (readText_saved _) (.yaml hextension hshort)
  exact ⟨(hoverlay _ (isGiven_policyTree hgiven)).1.mpr (by decide),
    hwritten short (by decide) hholds⟩

end Written

end ConstPromotion
