import ConstPromotion.Config.Document
import ConstPromotion.Proofs.Document
import ConstPromotion.Proofs.Json.Text
import ConstPromotion.Proofs.SortedMap

/-!
# Documents over the defaults

A document gives some of the fields of a configuration, in any order and among others that do not
matter. It is read as the default configuration with exactly the given fields replaced, where inside
`backup` and `toolchain` each field counts by itself (`ConfigOverlay.read?_eq`). What a configuration
is written as gives all of its fields (`Config.isGiven_of_holds`).

What a document says is told by a `Reader`; JSON and YAML differ in nothing else here.
-/

namespace ConstPromotion

variable {ν α β : Type}

/-! ### Fields -/

/-- What entries say about a field: nothing, or once a value that means something. -/
inductive Says (entries : List (String × ν)) (name : String) (Means : ν → α → Prop) :
    Option α → Prop
  | nothing (h : ∀ e ∈ entries, e.1 ≠ name) : Says entries name Means none
  | once {before after : List (String × ν)} {v : ν} {x : α}
      (hentries : entries = before ++ (name, v) :: after) (hbefore : ∀ e ∈ before, e.1 ≠ name)
      (hafter : ∀ e ∈ after, e.1 ≠ name) (hv : Means v x) : Says entries name Means (some x)

namespace Says

variable {entries : List (String × ν)} {name : String} {Means : ν → α → Prop} {x : Option α}

lemma filter_eq_nil {entries : List (String × ν)} (h : ∀ e ∈ entries, e.1 ≠ name) :
    entries.filter (·.1 = name) = [] := by
  rw [List.filter_eq_nil_iff]
  exact fun e he => by simpa using h e he

lemma length_filter_le_one (h : Says entries name Means x) :
    (entries.filter (·.1 = name)).length ≤ 1 := by
  cases h with
  | nothing h => simp [filter_eq_nil h]
  | once hentries hbefore hafter hv =>
    rw [hentries, List.filter_append, filter_eq_nil hbefore,
      List.filter_cons_of_pos (by simp), filter_eq_nil hafter]
    simp

lemma head {v : ν} {x : α} {after : List (String × ν)} (hv : Means v x)
    (hafter : ∀ e ∈ after, e.1 ≠ name) : Says ((name, v) :: after) name Means (some x) :=
  .once (List.nil_append _).symm (by simp) hafter hv

lemma cons_of_ne {e : String × ν} (h : Says entries name Means x) (hne : e.1 ≠ name) :
    Says (e :: entries) name Means x := by
  cases h with
  | nothing h => exact .nothing (List.forall_mem_cons.mpr ⟨hne, h⟩)
  | once hentries hbefore hafter hv =>
    exact .once (congrArg (e :: ·) hentries) (List.forall_mem_cons.mpr ⟨hne, hbefore⟩) hafter hv

/-- A field with a default is what the entries say, or the default. -/
lemma orDefault_map (h : Says entries name Means x) {read? : ν → Option β} {f : α → β}
    (hread : ∀ v x, Means v x → read? v = some (f x)) (default : β) :
    (Given.inEntries entries name).orDefault read? default = some ((x.map f).getD default) := by
  rw [Given.inEntries_eq]
  cases h with
  | nothing h => 
    rw [filter_eq_nil h]
    rfl
  | once hentries hbefore hafter hv =>
    rw [hentries, List.filter_append, filter_eq_nil hbefore,
      List.filter_cons_of_pos (by simp), filter_eq_nil hafter]
    exact hread _ _ hv

lemma orDefault (h : Says entries name Means x) {read? : ν → Option α}
    (hread : ∀ v x, Means v x → read? v = some x) (default : α) :
    (Given.inEntries entries name).orDefault read? default = some (x.getD default) := by
  have hmap := h.orDefault_map (f := id) hread default
  rwa [Option.map_id] at hmap

end Says

/-! ### Values -/

namespace Reader

variable {r : Reader ν}

/-- A value is a text. -/
def IsText (r : Reader ν) (v : ν) (s : String) : Prop := r.text? v = some s

/-- A value is a list of texts. -/
def IsTexts (r : Reader ν) (v : ν) (texts : List String) : Prop :=
  ∃ items, r.items? v = some items ∧ List.Forall₂ r.IsText items texts

/-- A value is a map of texts, where the last value of a name counts. -/
def IsVariables (r : Reader ν) (v : ν) (vars : Variables) : Prop :=
  ∃ entries pairs, r.entries? v = some entries ∧
    List.Forall₂ (fun e p => e.1 = p.1 ∧ r.IsText e.2 p.2) entries pairs ∧
    ∀ name, vars.get? name = valueOf? pairs.reverse name

/-- A value is the name of a policy. -/
def IsPolicy (r : Reader ν) (v : ν) (policy : BackupPolicy) : Prop :=
  r.name? v = some policy.name

lemma texts?_of_isTexts (v : ν) (texts : List String) (h : r.IsTexts v texts) :
    r.texts? v = some texts := by
  obtain ⟨items, hitems, htexts⟩ := h
  rw [texts?, hitems]
  exact mapM_eq_some_iff.mpr htexts

lemma readVariables?_of_isVariables (v : ν) (vars : Variables) (h : r.IsVariables v vars) :
    readVariables? r v = some vars := by
  obtain ⟨entries, pairs, hentries, hpairs, hvars⟩ := h
  have htexts : entries.mapM (fun e => (r.text? e.2).map (e.1, ·)) = some pairs := by
    rw [mapM_eq_some_iff]
    refine hpairs.imp fun e p hep => ?_
    rw [hep.1, show r.text? e.2 = some p.2 from hep.2]
    rfl
  have hmap : SortedMap.ofList pairs = vars := by
    apply SortedMap.ext_get?
    intro name
    rw [SortedMap.get?_ofList, hvars, valueOf?]
  rw [readVariables?, textEntries?, hentries]
  change Option.map _ (entries.mapM fun e => (r.text? e.2).map (e.1, ·)) = _
  rw [htexts, Option.map_some, hmap]

lemma policy?_of_isPolicy (v : ν) (policy : BackupPolicy) (h : r.IsPolicy v policy) :
    (r.name? v).bind BackupPolicy.ofName? = some policy := by
  rw [show r.name? v = some policy.name from h]
  cases policy <;> rfl

end Reader

/-! ### Overlays -/

/-- The fields that are given for the backups. -/
structure BackupOverlay where
  suffix : Option String := none
  policy : Option BackupPolicy := none

/-- The names of tools that are given. -/
structure ToolOverlay where
  cc : Option String := none
  ar : Option String := none
  make : Option String := none
  readelf : Option String := none

/-- The fields of a configuration that are given. -/
structure ConfigOverlay where
  sourceDir : Option String := none
  libraryDir : Option String := none
  allowList : Option (List String) := none
  denyList : Option (List String) := none
  scanExtensions : Option (List String) := none
  backup : Option BackupOverlay := none
  annotationSection : Option String := none
  tools : Option ToolOverlay := none
  targetFlags : Option (List String) := none
  buildVars : Option Variables := none
  archiveName : Option String := none
  outputDir : Option String := none

namespace BackupOverlay

/-- Replaces the given fields. -/
def onto (g : BackupOverlay) (b : BackupConfig) : BackupConfig where
  suffix := g.suffix.getD b.suffix
  policy := g.policy.getD b.policy

/-- A value gives exactly these fields. -/
def IsGiven (g : BackupOverlay) (r : Reader ν) (v : ν) : Prop :=
  ∃ entries, r.entries? v = some entries ∧
    Says entries "suffix" r.IsText g.suffix ∧
    Says entries "policy" r.IsPolicy g.policy

end BackupOverlay

namespace ToolOverlay

/-- Replaces the given fields. -/
def onto (g : ToolOverlay) (t : ToolNames) : ToolNames where
  cc := g.cc.getD t.cc
  ar := g.ar.getD t.ar
  make := g.make.getD t.make
  readelf := g.readelf.getD t.readelf

/-- A value gives exactly these fields. -/
def IsGiven (g : ToolOverlay) (r : Reader ν) (v : ν) : Prop :=
  ∃ entries, r.entries? v = some entries ∧
    Says entries "cc" r.IsText g.cc ∧
    Says entries "ar" r.IsText g.ar ∧
    Says entries "make" r.IsText g.make ∧
    Says entries "readelf" r.IsText g.readelf

end ToolOverlay

namespace ConfigOverlay

/-- Replaces the given fields; the fields of the backups and the tools count by themselves. -/
def onto (g : ConfigOverlay) (c : Config) : Config where
  sourceDir := g.sourceDir.getD c.sourceDir
  libraryDir := g.libraryDir.getD c.libraryDir
  allowList := g.allowList.getD c.allowList
  denyList := g.denyList.getD c.denyList
  scanExtensions := g.scanExtensions.getD c.scanExtensions
  backup := (g.backup.map (·.onto c.backup)).getD c.backup
  annotationSection := g.annotationSection.getD c.annotationSection
  tools := (g.tools.map (·.onto c.tools)).getD c.tools
  targetFlags := g.targetFlags.getD c.targetFlags
  buildVars := g.buildVars.getD c.buildVars
  archiveName := g.archiveName.getD c.archiveName
  outputDir := g.outputDir.getD c.outputDir

/-- Entries give exactly these fields. -/
structure IsGivenIn (g : ConfigOverlay) (r : Reader ν) (entries : List (String × ν)) : Prop where
  sourceDir : Says entries "upstream_dir" r.IsText g.sourceDir
  libraryDir : Says entries "library_dir" r.IsText g.libraryDir
  allowList : Says entries "allow_list" r.IsTexts g.allowList
  denyList : Says entries "deny_list" r.IsTexts g.denyList
  scanExtensions : Says entries "scan_extensions" r.IsTexts g.scanExtensions
  backup : Says entries "backup" (fun v g => BackupOverlay.IsGiven g r v) g.backup
  annotationSection : Says entries "annotation_section" r.IsText g.annotationSection
  tools : Says entries "toolchain" (fun v g => ToolOverlay.IsGiven g r v) g.tools
  targetFlags : Says entries "target_flags" r.IsTexts g.targetFlags
  buildVars : Says entries "build_vars" r.IsVariables g.buildVars
  archiveName : Says entries "archive_name" r.IsText g.archiveName
  outputDir : Says entries "output_dir" r.IsText g.outputDir

/-- A value gives exactly these fields. -/
def IsGiven (g : ConfigOverlay) (r : Reader ν) (v : ν) : Prop :=
  ∃ entries, r.entries? v = some entries ∧ g.IsGivenIn r entries

end ConfigOverlay

/-! ### Reading -/

section Reading

variable {r : Reader ν} {v : ν}

lemma BackupOverlay.read?_eq (hr : r.ReadsEntries) (v : ν) (g : BackupOverlay)
    (h : g.IsGiven r v) : BackupConfig.read? r v = some (g.onto {}) := by
  obtain ⟨entries, hentries, hsuffix, hpolicy⟩ := h
  have honce : MentionedOnce ["suffix", "policy"] entries := by
    simp [MentionedOnce, hsuffix.length_filter_le_one, hpolicy.length_filter_le_one]
  rw [BackupConfig.read?, hr hentries honce]
  simp only [Option.bind_eq_bind, Option.bind_some, hsuffix.orDefault (fun _ _ h => h),
    hpolicy.orDefault Reader.policy?_of_isPolicy, Option.pure_def, onto]

lemma ToolOverlay.read?_eq (hr : r.ReadsEntries) (v : ν) (g : ToolOverlay)
    (h : g.IsGiven r v) : ToolNames.read? r v = some (g.onto {}) := by
  obtain ⟨entries, hentries, hcc, har, hmake, hreadelf⟩ := h
  have honce : MentionedOnce ["cc", "ar", "make", "readelf"] entries := by
    simp [MentionedOnce, hcc.length_filter_le_one, har.length_filter_le_one,
      hmake.length_filter_le_one, hreadelf.length_filter_le_one]
  rw [ToolNames.read?, hr hentries honce]
  simp only [Option.bind_eq_bind, Option.bind_some, hcc.orDefault (fun _ _ h => h),
    har.orDefault (fun _ _ h => h), hmake.orDefault (fun _ _ h => h),
    hreadelf.orDefault (fun _ _ h => h), Option.pure_def, onto]

/-- A value that gives some fields is read as the defaults with these fields replaced. -/
theorem ConfigOverlay.read?_eq (hr : r.ReadsEntries) {g : ConfigOverlay} (h : g.IsGiven r v) :
    Config.read? r v = some (g.onto {}) := by
  obtain ⟨entries, hentries, h⟩ := h
  have honce : MentionedOnce Config.fieldNames entries := by
    simp [MentionedOnce, Config.fieldNames, h.sourceDir.length_filter_le_one,
      h.libraryDir.length_filter_le_one, h.allowList.length_filter_le_one,
      h.denyList.length_filter_le_one, h.scanExtensions.length_filter_le_one,
      h.backup.length_filter_le_one, h.annotationSection.length_filter_le_one,
      h.tools.length_filter_le_one, h.targetFlags.length_filter_le_one,
      h.buildVars.length_filter_le_one, h.archiveName.length_filter_le_one,
      h.outputDir.length_filter_le_one]
  have hbackup := h.backup.orDefault_map (BackupOverlay.read?_eq hr)
  have htools := h.tools.orDefault_map (ToolOverlay.read?_eq hr)
  rw [Config.read?, hr hentries honce, Option.bind_eq_bind, Option.bind_some]
  -- the defaults keep their name, since they would be copied into every field otherwise
  extract_lets default
  simp only [Option.bind_eq_bind, Option.bind_some, Option.pure_def, hbackup, htools,
    h.sourceDir.orDefault (fun _ _ h => h), h.libraryDir.orDefault (fun _ _ h => h),
    h.allowList.orDefault Reader.texts?_of_isTexts, h.denyList.orDefault Reader.texts?_of_isTexts,
    h.scanExtensions.orDefault Reader.texts?_of_isTexts,
    h.annotationSection.orDefault (fun _ _ h => h),
    h.targetFlags.orDefault Reader.texts?_of_isTexts,
    h.buildVars.orDefault Reader.readVariables?_of_isVariables,
    h.archiveName.orDefault (fun _ _ h => h), h.outputDir.orDefault (fun _ _ h => h)]
  rfl

end Reading

/-! ### Trees of texts -/

mutual

/-- Whether a value of a document is the tree of texts, lists and maps that a JSON value is. -/
def Reader.holds (r : Reader ν) (v : ν) : Json → Bool
  | .string (some s) => r.text? v = some s && r.name? v = some s
  | .array items => (r.items? v).any fun vs => r.holdItems vs items
  | .object fields => (r.entries? v).any fun entries => r.holdFields entries fields
  | _ => false

/-- Whether the items of a list are those of an array, in their order. -/
def Reader.holdItems (r : Reader ν) : List ν → List Json → Bool
  | [], [] => true
  | v :: vs, item :: items => r.holds v item && r.holdItems vs items
  | _, _ => false

/-- Whether the entries of a map are the fields of an object, in their order. -/
def Reader.holdFields (r : Reader ν) : List (String × ν) → List (Option String × Json) → Bool
  | [], [] => true
  | (key, v) :: entries, (name, value) :: fields =>
    name = some key && r.holds v value && r.holdFields entries fields
  | _, _ => false

end

namespace Reader

variable {r : Reader ν} {v : ν}

lemma holds_text_iff {s : String} :
    r.holds v (.text s) ↔ r.text? v = some s ∧ r.name? v = some s := by
  simp [Json.text, holds]

lemma isText_of_holds {s : String} (v : ν) (h : r.holds v (.text s)) : r.IsText v s :=
  (holds_text_iff.mp h).1

lemma isPolicy_of_holds {policy : BackupPolicy} (v : ν) (h : r.holds v (.text policy.name)) :
    r.IsPolicy v policy :=
  (holds_text_iff.mp h).2

lemma holdItems_iff {vs : List ν} {items : List Json} :
    r.holdItems vs items ↔ List.Forall₂ (fun v item => r.holds v item) vs items := by
  induction vs generalizing items with
  | nil => cases items <;> simp [holdItems]
  | cons v vs ih => cases items <;> simp [holdItems, ih]

lemma holdFields_iff {entries : List (String × ν)} {fields : List (String × Json)} :
    r.holdFields entries (fields.map fun field => (some field.1, field.2)) ↔
      List.Forall₂ (fun e field => field.1 = e.1 ∧ r.holds e.2 field.2) entries fields := by
  induction entries generalizing fields with
  | nil => cases fields <;> simp [holdFields]
  | cons e entries ih => cases fields <;> simp [holdFields, ih]

/-- A map that is written holds its entries in their order. -/
lemma holds_record_iff {fields : List (String × Json)} :
    r.holds v (.record fields) ↔ ∃ entries, r.entries? v = some entries ∧
      List.Forall₂ (fun e field => field.1 = e.1 ∧ r.holds e.2 field.2) entries fields := by
  rw [Json.record_eq, holds, Option.any_eq_true]
  simp only [holdFields_iff]

lemma isTexts_of_holds {texts : List String} (v : ν) (h : r.holds v (.texts texts)) :
    r.IsTexts v texts := by
  rw [Json.texts, holds, Option.any_eq_true] at h
  obtain ⟨items, hitems, h⟩ := h
  rw [holdItems_iff, List.forall₂_map_right_iff] at h
  exact ⟨items, hitems, h.imp fun _ _ => isText_of_holds _⟩

lemma isVariables_of_holds {vars : Variables} (v : ν) (h : r.holds v vars.toJson) :
    r.IsVariables v vars := by
  obtain ⟨entries, hentries, h⟩ := holds_record_iff.mp h
  rw [List.forall₂_map_right_iff] at h
  refine ⟨entries, vars.entries, hentries,
    h.imp fun _ _ hentry => ⟨hentry.1.symm, isText_of_holds _ hentry.2⟩, fun name => ?_⟩
  exact (SortedMap.find?_reverse_of_nodup vars.nodup_keys name).symm

lemma map_fst_eq {entries : List (String × ν)} {fields : List (String × Json)}
    (h : List.Forall₂ (fun e field => field.1 = e.1 ∧ r.holds e.2 field.2) entries fields) :
    entries.map (·.1) = fields.map (·.1) := by
  induction h with
  | nil => rfl
  | cons hentry _ ih => rw [List.map_cons, List.map_cons, ih, hentry.1]

/-- A map that is written says nothing about other fields. -/
lemma says_none_of_forall₂ {entries : List (String × ν)} {fields : List (String × Json)}
    (h : List.Forall₂ (fun e field => field.1 = e.1 ∧ r.holds e.2 field.2) entries fields)
    {name : String} (hname : name ∉ fields.map (·.1)) {Means : ν → α → Prop} :
    Says entries name Means none := by
  refine .nothing fun e he heq => hname ?_
  rw [← map_fst_eq h, ← heq]
  exact List.mem_map_of_mem he

/-- A map that is written says each of its fields once. -/
lemma says_of_forall₂ {entries : List (String × ν)} {fields : List (String × Json)}
    (h : List.Forall₂ (fun e field => field.1 = e.1 ∧ r.holds e.2 field.2) entries fields)
    (hnames : (fields.map (·.1)).Nodup) {name : String} {value : Json}
    (hmem : (name, value) ∈ fields) {Means : ν → α → Prop} {x : α}
    (hmeans : ∀ v, r.holds v value → Means v x) : Says entries name Means (some x) := by
  induction h with
  | nil => cases hmem
  | @cons e field entries fields hentry hentries ih =>
    rw [List.map_cons, List.nodup_cons] at hnames
    rcases List.mem_cons.mp hmem with rfl | hmem
    · obtain ⟨key, v⟩ := e
      obtain ⟨rfl, hv⟩ := hentry
      refine .head (hmeans v hv) fun e he heq => hnames.1 ?_
      rw [← map_fst_eq hentries, ← heq]
      exact List.mem_map_of_mem he
    · refine (ih hnames.2 hmem).cons_of_ne fun heq => hnames.1 ?_
      rw [hentry.1, heq]
      exact List.mem_map_of_mem hmem

end Reader

/-! ### Configurations as they are written -/

/-- All fields. -/
def BackupConfig.overlay (b : BackupConfig) : BackupOverlay where
  suffix := b.suffix
  policy := b.policy

/-- All names. -/
def ToolNames.overlay (t : ToolNames) : ToolOverlay where
  cc := t.cc
  ar := t.ar
  make := t.make
  readelf := t.readelf

/-- All fields. -/
def Config.overlay (c : Config) : ConfigOverlay where
  sourceDir := c.sourceDir
  libraryDir := c.libraryDir
  allowList := c.allowList
  denyList := c.denyList
  scanExtensions := c.scanExtensions
  backup := c.backup.overlay
  annotationSection := c.annotationSection
  tools := c.tools.overlay
  targetFlags := c.targetFlags
  buildVars := c.buildVars
  archiveName := c.archiveName
  outputDir := c.outputDir

/-- All fields together leave nothing of what was there before. -/
lemma Config.onto_overlay (c d : Config) : c.overlay.onto d = c := rfl

section Written

variable {r : Reader ν}

lemma BackupConfig.isGiven_of_holds {b : BackupConfig} (v : ν) (h : r.holds v b.toJson) :
    b.overlay.IsGiven r v := by
  obtain ⟨entries, hentries, h⟩ := Reader.holds_record_iff.mp h
  refine ⟨entries, hentries, ?_, ?_⟩
  · exact Reader.says_of_forall₂ h (by simp) (by simp) Reader.isText_of_holds
  · exact Reader.says_of_forall₂ h (by simp) (by simp) Reader.isPolicy_of_holds

lemma ToolNames.isGiven_of_holds {t : ToolNames} (v : ν) (h : r.holds v t.toJson) :
    t.overlay.IsGiven r v := by
  obtain ⟨entries, hentries, h⟩ := Reader.holds_record_iff.mp h
  have hsays {name s : String} (hmem : (name, Json.text s) ∈ [("cc", .text t.cc),
      ("ar", .text t.ar), ("make", .text t.make), ("readelf", .text t.readelf)]) :
      Says entries name r.IsText (some s) :=
    Reader.says_of_forall₂ h (by simp) hmem Reader.isText_of_holds
  exact ⟨entries, hentries, hsays (by simp), hsays (by simp), hsays (by simp), hsays (by simp)⟩

/-- What a configuration is written as gives all of its fields. -/
lemma Config.isGiven_of_holds {c : Config} {v : ν} (h : r.holds v c.toJson) :
    c.overlay.IsGiven r v := by
  obtain ⟨entries, hentries, h⟩ := Reader.holds_record_iff.mp h
  have hnames : fieldNames.Nodup := by decide
  exact ⟨entries, hentries, {
    sourceDir := Reader.says_of_forall₂ h hnames (by simp) Reader.isText_of_holds
    libraryDir := Reader.says_of_forall₂ h hnames (by simp) Reader.isText_of_holds
    allowList := Reader.says_of_forall₂ h hnames (by simp) Reader.isTexts_of_holds
    denyList := Reader.says_of_forall₂ h hnames (by simp) Reader.isTexts_of_holds
    scanExtensions := Reader.says_of_forall₂ h hnames (by simp) Reader.isTexts_of_holds
    backup := Reader.says_of_forall₂ h hnames (by simp) BackupConfig.isGiven_of_holds
    annotationSection := Reader.says_of_forall₂ h hnames (by simp) Reader.isText_of_holds
    tools := Reader.says_of_forall₂ h hnames (by simp) ToolNames.isGiven_of_holds
    targetFlags := Reader.says_of_forall₂ h hnames (by simp) Reader.isTexts_of_holds
    buildVars := Reader.says_of_forall₂ h hnames (by simp) Reader.isVariables_of_holds
    archiveName := Reader.says_of_forall₂ h hnames (by simp) Reader.isText_of_holds
    outputDir := Reader.says_of_forall₂ h hnames (by simp) Reader.isText_of_holds }⟩

end Written

end ConstPromotion
