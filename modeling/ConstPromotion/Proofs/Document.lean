import ConstPromotion.Json.Decode
import ConstPromotion.Yaml.Node
import Mathlib.Tactic

/-!
# Fields of documents

The fields of a structure are found among the entries of an object or a mapping, where the order of
the entries and fields with other names do not matter. JSON values and YAML nodes agree in this
(`Json.reader_readsEntries`, `Yaml.Node.reader_readsEntries`). Where a JSON value is taken without
its repeated fields, the last one of each name is kept (`Json.field?_withoutRepeats`).
-/

namespace ConstPromotion

variable {ν α : Type}

/-! ### Lists -/

/-- A list is read exactly if each of its items is. -/
lemma mapM_eq_some_iff {β : Type} {read? : α → Option β} {xs : List α} {ys : List β} :
    xs.mapM read? = some ys ↔ List.Forall₂ (fun x y => read? x = some y) xs ys := by
  induction xs generalizing ys with
  | nil => simp [eq_comm]
  | cons x xs ih =>
    rw [List.mapM_cons]
    cases hx : read? x with
    | none =>
      refine iff_of_false nofun fun h => ?_
      rcases h with _ | ⟨hy, -⟩
      cases hx.symm.trans hy
    | some y =>
      constructor
      · intro h
        simp only [Option.bind_eq_bind, Option.bind_some, Option.bind_eq_some_iff] at h
        obtain ⟨zs, hzs, hys⟩ := h
        cases hys
        exact .cons hx (ih.mp hzs)
      · rintro (_ | ⟨hy, hys⟩)
        obtain rfl : y = _ := Option.some.inj (hx.symm.trans hy)
        simp [ih.mpr hys]

/-! ### Entries -/

/-- The value that stands first for a name. -/
def valueOf? (entries : List (String × ν)) (name : String) : Option ν :=
  (entries.find? (·.1 = name)).map (·.2)

/-- None of the names stands twice in the entries. -/
def MentionedOnce (names : List String) (entries : List (String × ν)) : Prop :=
  ∀ name ∈ names, (entries.filter (·.1 = name)).length ≤ 1

lemma mentionedOnce_of_nodup {entries : List (String × ν)} (h : (entries.map (·.1)).Nodup)
    (names : List String) : MentionedOnce names entries := by
  intro name _
  have hcount := List.nodup_iff_count_le_one.mp h name
  rw [List.count_eq_countP, List.countP_map, List.countP_eq_length_filter] at hcount
  exact hcount

/-- What entries say about a field. -/
def Given.inEntries (entries : List (String × ν)) (name : String) : Given ν :=
  match valueOf? entries name with
  | some v => .value v
  | none => .unmentioned

namespace Given

@[simp] lemma inEntries_nil (name : String) :
    inEntries ([] : List (String × ν)) name = .unmentioned := rfl

@[simp] lemma inEntries_cons (e : String × ν) (entries : List (String × ν)) (name : String) :
    inEntries (e :: entries) name = if e.1 = name then .value e.2 else inEntries entries name := by
  rw [inEntries, inEntries, valueOf?, valueOf?]
  split_ifs with h
  · rw [List.find?_cons_of_pos (by simpa using h)]
    rfl
  · rw [List.find?_cons_of_neg (by simpa using h)]

@[simp] lemma required_value (read? : ν → Option α) (v : ν) :
    (value v).required read? = read? v := rfl

@[simp] lemma orDefault_value (read? : ν → Option α) (default : α) (v : ν) :
    (value v).orDefault read? default = read? v := rfl

@[simp] lemma orDefault_unmentioned (read? : ν → Option α) (default : α) :
    unmentioned.orDefault read? default = some default := rfl

end Given

/-! ### Readers -/

/-- The fields of a structure are found among its entries. -/
def Reader.ReadsEntries (r : Reader ν) : Prop :=
  ∀ ⦃names v entries⦄, r.entries? v = some entries → MentionedOnce names entries →
    r.fields? names v = some (Given.inEntries entries)

/-- The first of the entries with a name is found by looking for the name. -/
lemma Given.inEntries_eq (entries : List (String × ν)) (name : String) :
    inEntries entries name =
      match entries.filter (·.1 = name) with
      | (_, v) :: _ => .value v
      | [] => .unmentioned := by
  rw [inEntries, valueOf?, ← List.head?_filter]
  cases entries.filter (·.1 = name) <;> rfl

namespace Json

lemma entries?_record (entries : List (String × Json)) :
    (Json.record entries).entries? = some entries := by
  rw [record, entries?, mapM_eq_some_iff, List.forall₂_map_left_iff, List.forall₂_same]
  exact fun _ _ => rfl

/-- A value with entries is the object of its entries. -/
lemma eq_record_of_entries? {v : Json} {entries : List (String × Json)}
    (h : v.entries? = some entries) : v = .record entries := by
  cases v with
  | object fields =>
    rw [entries?, mapM_eq_some_iff] at h
    rw [record, object.injEq]
    induction h with
    | nil => rfl
    | @cons field entry fields entries hentry _ ih =>
      obtain ⟨_ | name, value⟩ := field
      · cases hentry
      · cases hentry
        rw [List.map_cons, ih]
  | _ => cases h

/-- A field of an object of entries is the entry with its name. -/
lemma field?_record (entries : List (String × Json)) (name : String) :
    (record entries).field? name = valueOf? entries name := by
  rw [record, field?, valueOf?, List.find?_map, Option.map_map]
  simp [Function.comp_def]

theorem reader_readsEntries : reader.ReadsEntries := by
  intro names v entries hentries hnames
  obtain rfl := eq_record_of_entries? hentries
  have hfilter (name : String) :
      ((entries.map fun e => (some e.1, e.2)).filter (·.1 = some name)) =
        (entries.filter (·.1 = name)).map fun e => (some e.1, e.2) := by
    rw [List.filter_map]
    congr 1
    exact List.filter_congr fun e _ => by simp
  change fieldsOf? names (.object (entries.map fun e => (some e.1, e.2))) = _
  rw [fieldsOf?, if_pos]
  · congr 1
    funext name
    rw [← record, field?_record, Given.inEntries]
    cases valueOf? entries name <;> rfl
  · refine ⟨by simp, ?_⟩
    rw [List.all_eq_true]
    intro name hname
    simp only [hfilter, List.length_map]
    exact decide_eq_true (hnames name hname)

/-- Of repeated fields, the last one counts. -/
theorem field?_withoutRepeats (fields : List (Option String × Json)) (name : String) :
    (object fields).withoutRepeats.field? name =
      (fields.reverse.find? (·.1 = some name)).map fun field => field.2.withoutRepeats := by
  rw [withoutRepeats, field?]
  induction fields with
  | nil => rfl
  | cons field fields ih =>
    obtain ⟨given, value⟩ := field
    rw [List.reverse_cons, List.find?_append, withoutRepeatsFields]
    by_cases hname : given = some name
    · subst hname
      split_ifs with hlater
      · -- a later field has the name, and this one is dropped
        have hfound : (fields.reverse.find? (·.1 = some name)).isSome := by
          rw [← Option.isSome_map, ← ih, Option.isSome_map, List.find?_isSome]
          exact List.any_eq_true.mp hlater
        rw [ih, Option.or_of_isSome hfound]
      · have hnone : (withoutRepeatsFields fields).find? (·.1 = some name) = none :=
          List.find?_eq_none.mpr fun later hmem heq =>
            hlater (List.any_eq_true.mpr ⟨later, hmem, heq⟩)
        rw [hnone, Option.map_none, eq_comm, Option.map_eq_none_iff] at ih
        simp [ih]
    · have hother : [(given, value)].find? (·.1 = some name) = none := by simp [hname]
      rw [hother, Option.or_none, ← ih]
      split_ifs
      · rfl
      · rw [List.find?_cons_of_neg (by simpa using hname)]

/-- The fields of an object with different names are read by their names. -/
lemma fieldsOf?_record {entries : List (String × Json)} (h : (entries.map (·.1)).Nodup)
    (names : List String) :
    fieldsOf? names (.record entries) = some (Given.inEntries entries) :=
  @reader_readsEntries names (.record entries) entries (entries?_record entries)
    (mentionedOnce_of_nodup h names)

end Json

namespace Yaml.Node

theorem reader_readsEntries (document : Node) : document.reader.ReadsEntries := by
  intro names v entries hentries hnames
  have hall : names.all fun name => decide ((entries.filter (·.1 = name)).length ≤ 1) := by
    rw [List.all_eq_true]
    exact fun name hname => decide_eq_true (hnames name hname)
  change document.entries? v = some entries at hentries
  change document.fields? names v = _
  simp only [fields?, hentries, Option.bind_eq_bind, Option.bind_some]
  rw [if_pos hall]
  congr 1
  funext name
  rw [Given.inEntries_eq]
  cases entries.filter (·.1 = name) <;> rfl

end Yaml.Node

end ConstPromotion
