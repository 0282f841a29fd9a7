import ConstPromotion.Path.Clean
import ConstPromotion.Proofs.Path.Pieces

/-!
# Paths in normal form

Cleaning gives components in normal form (`isClean_cleanComponents`), and these are spelled so that
they are read back (`components_clean`). Where a cleaned path does not start with `..`, it is the
same from every directory (`cleanComponents_append`). A key is what a cleaned path has below the
cleaned root, spelled with single slashes (`keyUnder_of_below`), or the whole of the cleaned path
(`keyUnder_of_outside`).
-/

namespace ConstPromotion.Path

variable {p q root : Path} {cs lead rest : List Component} {c : Component} {n : Name} {names : Location}
  {opening : Bool} {xs : List (List Char)}

/-! ### Normal form -/

/-- Components in normal form: the names of entries, at the root or after any number of steps up. -/
inductive IsClean : List Component → Prop
  | absolute (names : List Name) (hnames : ∀ n ∈ names, IsEntryName n) :
    IsClean (.root :: names.map .name)
  | relative (ups : Nat) (names : List Name) (hnames : ∀ n ∈ names, IsEntryName n) :
    IsClean (List.replicate ups .parent ++ names.map .name)

lemma cleanComponents_concat (cs : List Component) (c : Component) :
    cleanComponents (cs ++ [c]) = (cleanStep (cleanComponents cs).reverse c).reverse := by
  simp [cleanComponents]

lemma cleanStep_replicate (ups : Nat) :
    cleanStep (List.replicate ups .parent) .parent = List.replicate (ups + 1) .parent := by
  cases ups <;> rfl

/-- A step up takes back a name, stays at the root, or is kept. -/
lemma cleanStep_parent_cases (done : List Component) :
    (∃ n above, done = .name n :: above) ∨ (∃ above, done = .root :: above) ∨
      cleanStep done .parent = .parent :: done := by
  cases done with
  | nil => exact .inr (.inr rfl)
  | cons d above =>
    cases d with
    | name n => exact .inl ⟨n, above, rfl⟩
    | root => exact .inr (.inl ⟨above, rfl⟩)
    | current => exact .inr (.inr rfl)
    | parent => exact .inr (.inr rfl)

/-- At the root, a step up takes back the last name, if there is one. -/
lemma cleanStep_parent (here : Location) :
    cleanStep (.root :: here.map .name).reverse .parent =
      (.root :: here.dropLast.map .name).reverse := by
  rcases List.eq_nil_or_concat' here with rfl | ⟨above, n, rfl⟩
  · rfl
  · simp [cleanStep]

lemma cleanStep_name (here : Location) (n : Name) :
    cleanStep (.root :: here.map .name).reverse (.name n) =
      (.root :: (here ++ [n]).map .name).reverse := by
  simp [cleanStep]

/-- One more component, other than the root, keeps a path in normal form. -/
lemma IsClean.step (h : IsClean cs) (hroot : c ≠ .root) (hname : ∀ n, c = .name n → IsEntryName n) :
    IsClean (cleanStep cs.reverse c).reverse := by
  have hconcat {names : List Name} (hnames : ∀ n ∈ names, IsEntryName n) {n : Name}
      (hn : IsEntryName n) : ∀ m ∈ names ++ [n], IsEntryName m := by
    simpa [or_imp, forall_and] using ⟨hnames, hn⟩
  cases c with
  | root => exact absurd rfl hroot
  | current => simpa [cleanStep] using h
  | name n =>
    have hn := hname n rfl
    cases h with
    | absolute names hnames => simpa [cleanStep] using IsClean.absolute _ (hconcat hnames hn)
    | relative ups names hnames => simpa [cleanStep] using IsClean.relative ups _ (hconcat hnames hn)
  | parent =>
    cases h with
    | absolute names hnames =>
      cases names using List.reverseRecOn with
      | nil => exact .absolute [] (by simp)
      | append_singleton names n =>
        simpa [cleanStep] using IsClean.absolute names fun m hm => hnames m (by simp [hm])
    | relative ups names hnames =>
      cases names using List.reverseRecOn with
      | nil =>
        simpa [cleanStep_replicate] using IsClean.relative (ups + 1) [] (by simp)
      | append_singleton names n =>
        simpa [cleanStep] using IsClean.relative ups names fun m hm => hnames m (by simp [hm])

/-- Cleaning gives components in normal form. -/
theorem isClean_cleanComponents (p : Path) : IsClean (cleanComponents p.components) := by
  have hfrom (start : List Component) (hstart : IsClean (cleanComponents start)) (opening : Bool) :
      IsClean (cleanComponents (start ++ componentsFrom opening p.pieces)) := by
    have hmem : ∀ c ∈ componentsFrom opening p.pieces,
        c ≠ .root ∧ ∀ n, c = .name n → IsEntryName n := by
      refine fun c hc => ⟨fun hroot => root_notMem_componentsFrom (hroot ▸ hc), fun n hn => ?_⟩
      exact isEntryName_of_mem_componentsFrom (fun _ => slash_notMem_of_mem_pieces) (hn ▸ hc)
    generalize componentsFrom opening p.pieces = cs at hmem ⊢
    induction cs using List.reverseRecOn with
    | nil => rwa [List.append_nil]
    | append_singleton cs c ih =>
      obtain ⟨hcs, hc⟩ := List.forall_mem_append.mp hmem
      obtain ⟨hroot, hname⟩ := hc c (by simp)
      rw [← List.append_assoc, cleanComponents_concat]
      exact (ih hcs).step hroot hname
  rw [components_eq]
  split_ifs
  · exact hfrom [.root] (.absolute [] (by simp)) _
  · exact hfrom [] (.relative 0 [] (by simp)) _

/-! ### Spelling -/

/-- Components that are a step up or a name. -/
def IsStep (c : Component) : Prop := c = .parent ∨ ∃ n, c = .name n ∧ IsEntryName n

lemma IsClean.root_or_isStep (h : IsClean cs) (hc : c ∈ cs) : c = .root ∨ IsStep c := by
  cases h with
  | absolute names hnames =>
    rcases List.mem_cons.mp hc with hc | hc
    · exact .inl hc
    · obtain ⟨n, hn, rfl⟩ := List.mem_map.mp hc
      exact .inr (.inr ⟨n, rfl, hnames n hn⟩)
  | relative ups names hnames =>
    rcases List.mem_append.mp hc with hc | hc
    · exact .inr (.inl (List.eq_of_mem_replicate hc))
    · obtain ⟨n, hn, rfl⟩ := List.mem_map.mp hc
      exact .inr (.inr ⟨n, rfl, hnames n hn⟩)

/-- The root comes first or not at all. -/
lemma IsClean.root_notMem (h : IsClean (lead ++ rest)) (hlead : lead ≠ []) : .root ∉ rest := by
  obtain ⟨c, lead, rfl⟩ := List.exists_cons_of_ne_nil hlead
  have hlater : .root ∉ lead ++ rest := by
    generalize hcs : c :: lead ++ rest = cs at h
    cases h with
    | absolute names hnames =>
      have hrest : lead ++ rest = names.map .name := (List.cons.inj hcs).2
      simp [hrest]
    | relative ups names hnames =>
      refine fun hroot => absurd (List.mem_cons_of_mem c hroot) ?_
      rw [← List.cons_append, hcs]
      simp [List.mem_replicate]
  exact fun hroot => hlater (List.mem_append_right lead hroot)

lemma IsClean.isStep (h : IsClean (lead ++ rest)) (hlead : lead ≠ []) (hc : c ∈ rest) : IsStep c :=
  (h.root_or_isStep (List.mem_append_right lead hc)).resolve_left fun hroot =>
    h.root_notMem hlead (hroot ▸ hc)

/-- What begins and what ends a sequence in normal form is in normal form. -/
lemma IsClean.of_append (h : IsClean (lead ++ rest)) : IsClean lead ∧ IsClean rest := by
  have hnil : IsClean [] := .relative 0 [] (by simp)
  generalize hcs : lead ++ rest = cs at h
  cases h with
  | absolute names hnames =>
    rcases List.append_eq_cons_iff.mp hcs with ⟨rfl, rfl⟩ | ⟨lead, rfl, hrest⟩
    · exact ⟨hnil, .absolute names hnames⟩
    · obtain ⟨above, below, rfl, rfl, rfl⟩ := List.map_eq_append_iff.mp hrest
      obtain ⟨habove, hbelow⟩ := List.forall_mem_append.mp hnames
      exact ⟨.absolute above habove, .relative 0 below hbelow⟩
  | relative ups names hnames =>
    rcases List.append_eq_append_iff.mp hcs with ⟨more, hups, rfl⟩ | ⟨more, rfl, hrest⟩
    · obtain ⟨-, hlead, hmore⟩ := List.append_eq_replicate_iff.mp hups.symm
      rw [hlead, hmore]
      exact ⟨by simpa using IsClean.relative lead.length [] (by simp),
        .relative more.length names hnames⟩
    · obtain ⟨above, below, rfl, rfl, rfl⟩ := List.map_eq_append_iff.mp hrest
      obtain ⟨habove, hbelow⟩ := List.forall_mem_append.mp hnames
      exact ⟨.relative ups above habove, .relative 0 below hbelow⟩

lemma IsStep.spelling (h : IsStep c) :
    '/' ∉ ofComponents.spelling c ∧ ofComponents.spelling c ≠ [] ∧
      ofComponents.spelling c ≠ ['.'] := by
  rcases h with rfl | ⟨n, rfl, hn⟩
  · decide
  · exact ⟨hn.slash_notMem, hn.ne_nil, hn.ne_current⟩

lemma IsStep.component?_spelling (h : IsStep c) :
    component? opening (ofComponents.spelling c) = some c := by
  rcases h with rfl | ⟨n, rfl, hn⟩
  · rfl
  · exact component?_of_isEntryName hn

lemma componentsFrom_map_spelling (h : ∀ c ∈ cs, IsStep c) :
    componentsFrom opening (cs.map ofComponents.spelling) = cs := by
  induction cs generalizing opening with
  | nil => rfl
  | cons c cs ih =>
    obtain ⟨hc, hcs⟩ := List.forall_mem_cons.mp h
    rw [List.map_cons, componentsFrom, ih hcs, hc.component?_spelling]
    rfl

/-- Only the root by itself is not spelled with slashes between its components. -/
lemma ofComponents_eq (h : cs ≠ [.root]) :
    ofComponents cs = ⟨['/'].intercalate (cs.map ofComponents.spelling)⟩ := by
  cases cs with
  | nil => rfl
  | cons c rest =>
    cases c with
    | root =>
      have hne : rest.map ofComponents.spelling ≠ [] := by simpa using h
      rw [List.map_cons, List.intercalate_cons_of_ne_nil hne]
      rfl
    | current => rfl
    | parent => rfl
    | name n => rfl

lemma pieces_ofComponents (h : IsClean cs) (hne : cs ≠ []) (hroot : cs ≠ [.root]) :
    (ofComponents cs).pieces = cs.map ofComponents.spelling := by
  rw [ofComponents_eq hroot]
  refine pieces_intercalate (by simpa using hne) fun piece hpiece => ?_
  obtain ⟨c, hc, rfl⟩ := List.mem_map.mp hpiece
  rcases h.root_or_isStep hc with rfl | hstep
  · decide
  · exact hstep.spelling.1

/-- Components in normal form are read back from their spelling. -/
theorem components_ofComponents (h : IsClean cs) : (ofComponents cs).components = cs := by
  cases cs with
  | nil => rfl
  | cons c rest =>
    have hsplit : IsClean ([c] ++ rest) := h
    have hrest : ∀ d ∈ rest, IsStep d := fun d => hsplit.isStep (List.cons_ne_nil c [])
    by_cases hroot : c :: rest = [.root]
    · rw [hroot]
      rfl
    have hpieces := pieces_ofComponents h (by simp) hroot
    rw [components_eq, hpieces, List.map_cons, componentsFrom, componentsFrom_map_spelling hrest]
    rcases h.root_or_isStep List.mem_cons_self with rfl | hstep
    · have habsolute : (ofComponents (.root :: rest)).isAbsolute = true := rfl
      rw [habsolute]
      rfl
    · have hrelative := isAbsolute_eq_false hpieces hstep.spelling.2.1
      rw [hrelative, hstep.component?_spelling]
      rfl

lemma components_ofComponents_names (hnames : ∀ n ∈ names, IsEntryName n) :
    (ofComponents (names.map .name)).components = names.map .name :=
  components_ofComponents (.relative 0 names hnames)

lemma components_clean (p : Path) : p.clean.components = cleanComponents p.components :=
  components_ofComponents (isClean_cleanComponents p)

/-! ### Paths below a directory -/

/-- Only names are taken back. -/
lemma mem_cleanStep {done : List Component} (h : c ∈ done) (hc : ∀ n, c ≠ .name n)
    (d : Component) : c ∈ cleanStep done d := by
  cases d with
  | root => exact List.mem_cons_of_mem _ h
  | current => exact h
  | name n => exact List.mem_cons_of_mem _ h
  | parent =>
    rcases cleanStep_parent_cases done with ⟨n, above, rfl⟩ | ⟨above, rfl⟩ | hkept
    · exact (List.mem_cons.mp h).resolve_left (hc n)
    · exact h
    · rw [hkept]
      exact List.mem_cons_of_mem _ h

lemma mem_of_mem_cleanStep {done : List Component} {d : Component} (h : c ∈ cleanStep done d) :
    c = d ∨ c ∈ done := by
  cases d with
  | root => exact List.mem_cons.mp h
  | current => exact .inr h
  | name n => exact List.mem_cons.mp h
  | parent =>
    rcases cleanStep_parent_cases done with ⟨n, above, rfl⟩ | ⟨above, rfl⟩ | hkept
    · exact .inr (List.mem_cons_of_mem _ h)
    · exact .inr h
    · rw [hkept] at h
      exact List.mem_cons.mp h

lemma mem_of_mem_cleanComponents (h : c ∈ cleanComponents cs) : c ∈ cs := by
  induction cs using List.reverseRecOn with
  | nil => exact absurd h List.not_mem_nil
  | append_singleton cs d ih =>
    rw [cleanComponents_concat, List.mem_reverse] at h
    rcases mem_of_mem_cleanStep h with rfl | h
    · simp
    · exact List.mem_append_left _ (ih (List.mem_reverse.mp h))

lemma root_mem_cleanComponents : .root ∈ cleanComponents p.components ↔ p.isAbsolute = true := by
  refine ⟨fun h => root_mem_components.mp (mem_of_mem_cleanComponents h), fun h => ?_⟩
  have hkept (cs : List Component) : .root ∈ cleanComponents (.root :: cs) := by
    induction cs using List.reverseRecOn with
    | nil => exact List.mem_cons_self
    | append_singleton cs c ih =>
      rw [← List.cons_append, cleanComponents_concat, List.mem_reverse]
      exact mem_cleanStep (List.mem_reverse.mpr ih) (by simp) c
  rw [components_eq, h, if_pos rfl]
  exact hkept _

/-- Components that step up no further than they stepped down are cleaned in the same way after any
others. -/
theorem foldl_cleanStep_append (hups : .parent ∉ cs.foldl cleanStep []) (done : List Component) :
    cs.foldl cleanStep done = cs.foldl cleanStep [] ++ done := by
  induction cs using List.reverseRecOn with
  | nil => rfl
  | append_singleton cs c ih =>
    rw [List.foldl_concat] at hups ⊢
    rw [List.foldl_concat, ih fun h => hups (mem_cleanStep h (by simp) c)]
    cases c with
    | root => rfl
    | current => rfl
    | name n => rfl
    | parent =>
      generalize cs.foldl cleanStep [] = before at hups ⊢
      rcases cleanStep_parent_cases before with ⟨n, above, rfl⟩ | ⟨above, rfl⟩ | hkept
      · rfl
      · rfl
      · -- a step up that is kept would be left in the result
        rw [hkept] at hups
        exact absurd List.mem_cons_self hups

lemma cleanComponents_append (hups : .parent ∉ cleanComponents rest) (cs : List Component) :
    cleanComponents (cs ++ rest) = cleanComponents cs ++ cleanComponents rest := by
  rw [cleanComponents, List.mem_reverse] at hups
  rw [cleanComponents, cleanComponents, cleanComponents, List.foldl_append,
    foldl_cleanStep_append hups, List.reverse_append]

lemma foldl_cleanStep_componentsFrom (opening : Bool) (xs : List (List Char))
    (done : List Component) :
    (componentsFrom opening xs).foldl cleanStep done =
      (componentsFrom false xs).foldl cleanStep done := by
  cases xs with
  | nil => rfl
  | cons x xs =>
    rw [componentsFrom, componentsFrom, List.foldl_append, List.foldl_append]
    congr 1
    rw [component?, component?]
    split_ifs <;> rfl

/-- A `.` that a relative path starts with does not count. -/
lemma cleanComponents_components (hq : q.isAbsolute = false) :
    cleanComponents q.components = cleanComponents (componentsFrom false q.pieces) := by
  rw [components_eq, hq, if_neg Bool.false_ne_true, List.nil_append, cleanComponents,
    foldl_cleanStep_componentsFrom, cleanComponents]

/-- A relative path that does not lead up, cleaned below a directory, is the same as cleaned by
itself. -/
theorem cleanComponents_join (hq : q.isAbsolute = false) (hp : p.chars ≠ [])
    (hups : .parent ∉ cleanComponents q.components) :
    cleanComponents (p.join q).components =
      cleanComponents p.components ++ cleanComponents q.components := by
  rw [cleanComponents_components hq] at hups ⊢
  rw [components_join hq hp, cleanComponents_append hups]

/-- Components that do not hold the root can be cleaned first, whatever they are cleaned after. -/
lemma foldl_cleanStep_cleanComponents (hroot : .root ∉ cs) (done : List Component) :
    (cleanComponents cs).foldl cleanStep done = cs.foldl cleanStep done := by
  induction cs using List.reverseRecOn with
  | nil => rfl
  | append_singleton cs c ih =>
    simp only [List.mem_append, List.mem_singleton, not_or] at hroot
    have ih := ih hroot.1
    rw [cleanComponents_concat, List.foldl_concat, ← ih]
    cases c with
    | root => exact absurd rfl hroot.2
    | current => simp [cleanStep]
    | name n => simp [cleanStep]
    | parent =>
      obtain ⟨before, hbefore⟩ : ∃ before : List Component, cleanComponents cs = before.reverse :=
        ⟨_, rfl⟩
      have hrootBefore : .root ∉ before := by
        rw [← List.mem_reverse, ← hbefore]
        exact mt mem_of_mem_cleanComponents hroot.1
      rw [hbefore, List.reverse_reverse]
      rcases cleanStep_parent_cases before with ⟨n, above, rfl⟩ | ⟨above, rfl⟩ | hkept
      · rw [List.reverse_cons, List.foldl_concat]
        rfl
      · exact absurd List.mem_cons_self hrootBefore
      · rw [hkept, List.reverse_cons, List.foldl_concat]

lemma cleanComponents_append_cleanComponents (hroot : .root ∉ rest) (cs : List Component) :
    cleanComponents (cs ++ cleanComponents rest) = cleanComponents (cs ++ rest) := by
  rw [cleanComponents, List.foldl_append, foldl_cleanStep_cleanComponents hroot,
    ← List.foldl_append, ← cleanComponents]

lemma componentsFrom_pieces_ofComponents (h : IsClean cs) (hroot : .root ∉ cs) :
    componentsFrom false (ofComponents cs).pieces = cs := by
  rcases eq_or_ne cs [] with rfl | hne
  · rfl
  · have hstep : ∀ c ∈ cs, IsStep c := fun c hc =>
      (h.root_or_isStep hc).resolve_left fun heq => hroot (heq ▸ hc)
    rw [pieces_ofComponents h hne fun heq => hroot (by simp [heq]),
      componentsFrom_map_spelling hstep]

/-! ### Keys -/

lemma slashedLength_eq (hxs : xs ≠ []) : slashedLength xs = (['/'].intercalate xs).length + 1 := by
  have hconcat := length_intercalate_concat xs []
  rw [intercalate_append hxs (List.cons_ne_nil _ _)] at hconcat
  simpa using hconcat.symm

/-- What ends a path in normal form, other than the root by itself, is spelled by its last spans. -/
lemma drop_spans_ofComponents (h : IsClean (lead ++ rest)) (hlead : lead ≠ []) (hrest : rest ≠ []) :
    (ofComponents (lead ++ rest)).spans.drop lead.length =
      spansFrom false (slashedLength (lead.map ofComponents.spelling))
        (rest.map ofComponents.spelling) := by
  have hpieces := pieces_ofComponents h (by simp [hlead]) fun hroot => h.root_notMem hlead <| by
    rcases List.append_eq_singleton_iff.mp hroot with ⟨hnil, -⟩ | ⟨-, hnil⟩
    · exact absurd hnil hlead
    · exact absurd hnil hrest
  have hne : lead.map ofComponents.spelling ≠ [] := by simpa using hlead
  obtain ⟨before, hspans⟩ : ∃ before, (ofComponents (lead ++ rest)).spans = before ++
      spansFrom false (slashedLength (lead.map ofComponents.spelling))
        (rest.map ofComponents.spelling) := by
    rw [spans, ← pieces, hpieces, List.map_append, spansFrom_append hne, ← List.append_assoc,
      Nat.zero_add]
    exact ⟨_, rfl⟩
  have hcomponents := components_ofComponents h
  rw [components, hspans, List.map_append, map_component_spansFrom,
    componentsFrom_map_spelling fun c hc => h.isStep hlead hc, List.append_cancel_right_eq]
    at hcomponents
  rw [hspans]
  exact List.drop_left' (by simpa using congrArg List.length hcomponents)

/-- The spelling of components in normal form ends where the last one does. -/
lemma getLast?_spans_ofComponents (h : IsClean cs) (hne : cs ≠ []) :
    (ofComponents cs).spans.getLast?.map Span.stop = some (ofComponents cs).chars.length := by
  obtain ⟨init, c, rfl⟩ := (List.eq_nil_or_concat' cs).resolve_left hne
  by_cases hroot : init ++ [c] = [.root]
  · rw [hroot]
    rfl
  · have hpieces := pieces_ofComponents h hne hroot
    have hc : c ≠ .root := by
      rintro rfl
      have hinit : init ≠ [] := by
        rintro rfl
        exact hroot rfl
      exact h.root_notMem hinit (List.mem_singleton_self _)
    obtain ⟨-, hnil, hdot⟩ := ((h.root_or_isStep (by simp)).resolve_left hc).spelling
    rw [List.map_append, List.map_singleton] at hpieces
    obtain ⟨d, start, hlast⟩ : ∃ d start, (spansFrom (!(ofComponents (init ++ [c])).isAbsolute) 0
        (ofComponents (init ++ [c])).pieces).getLast? =
          some ⟨d, start, (['/'].intercalate (ofComponents (init ++ [c])).pieces).length⟩ := by
      rw [hpieces]
      exact getLast?_spansFrom_concat hnil (.inr hdot)
    rw [intercalate_pieces] at hlast
    rw [spans, List.getLast?_append, ← pieces, hlast]
    rfl

/-- What a path in normal form has below a directory that it is in. -/
theorem relativeTo?_ofComponents (h : IsClean (lead ++ rest)) :
    (ofComponents (lead ++ rest)).relativeTo? (ofComponents lead) = some (ofComponents rest) := by
  have hlead := components_ofComponents h.of_append.1
  have hprefix : (ofComponents lead).components.isPrefixOf? (ofComponents (lead ++ rest)).components
      = some rest := by
    rw [components_ofComponents h, hlead]
    exact List.isPrefixOf?_eq_some_iff_append_eq.mpr rfl
  rw [relativeTo?, hprefix, hlead]
  rcases eq_or_ne rest [] with rfl | hrest
  · rfl
  have hlast := getLast?_spans_ofComponents h (by simp [hrest])
  rcases eq_or_ne lead [] with rfl | hne
  · simp only [List.nil_append] at hlast ⊢
    simp [hrest, hlast]
  · obtain ⟨c, later, rfl⟩ := List.exists_cons_of_ne_nil hrest
    have hspans := drop_spans_ofComponents h hne hrest
    have hroot := h.root_notMem hne
    have hleadSpelling : lead.map ofComponents.spelling ≠ [] := by simpa using hne
    have hstart : ((ofComponents (lead ++ c :: later)).spans.drop lead.length).head?.map Span.start =
        some (slashedLength (lead.map ofComponents.spelling)) := by
      rw [hspans, List.map_cons, spansFrom, (h.isStep hne List.mem_cons_self).component?_spelling]
      rfl
    have hstop : ((ofComponents (lead ++ c :: later)).spans.drop lead.length).getLast?.map Span.stop =
        some (ofComponents (lead ++ c :: later)).chars.length := by
      rw [List.getLast?_drop, if_neg, hlast]
      intro hle
      rw [List.drop_eq_nil_of_le hle] at hstart
      cases hstart
    have hchars : (ofComponents (lead ++ c :: later)).chars.drop
        (slashedLength (lead.map ofComponents.spelling)) = (ofComponents (c :: later)).chars := by
      rw [ofComponents_eq (by simp [List.append_eq_singleton_iff, hne]),
        ofComponents_eq fun heq => hroot (by simp [heq]), List.map_append,
        intercalate_append hleadSpelling (by simp), List.append_cons,
        slashedLength_eq hleadSpelling]
      exact List.drop_left' (by simp)
    simp only [Option.bind_eq_bind, Option.bind_some, hstart, hstop, if_neg hne, if_neg hrest,
      Option.getD_some, List.take_length, hchars]
    rfl

/-- The components of an absolute path in normal form. -/
lemma exists_names_of_isAbsolute (hroot : root.isAbsolute = true) :
    ∃ l : Location, (∀ n ∈ l, IsEntryName n) ∧
      cleanComponents root.components = .root :: l.map .name := by
  have hmem := root_mem_cleanComponents.mpr hroot
  have hclean := isClean_cleanComponents root
  generalize cleanComponents root.components = cs at hmem hclean ⊢
  cases hclean with
  | absolute names hnames => exact ⟨names, hnames, rfl⟩
  | relative ups names hnames => simp [List.mem_replicate] at hmem

/-- The components of a relative path in normal form that does not lead up. -/
lemma exists_names_of_not_parent_mem (hq : q.isAbsolute = false)
    (hups : .parent ∉ cleanComponents q.components) :
    ∃ l : Location, (∀ n ∈ l, IsEntryName n) ∧ cleanComponents q.components = l.map .name := by
  have hmem : .root ∉ cleanComponents q.components := by simp [root_mem_cleanComponents, hq]
  have hclean := isClean_cleanComponents q
  generalize cleanComponents q.components = cs at hmem hups hclean ⊢
  cases hclean with
  | absolute names hnames => simp at hmem
  | relative ups names hnames =>
    obtain rfl : ups = 0 := by
      by_contra hne
      exact hups (List.mem_append_left _ (List.mem_replicate.mpr ⟨hne, rfl⟩))
    exact ⟨names, hnames, rfl⟩

/-- What is in normal form stays as it is. -/
lemma IsClean.cleanComponents_eq (h : IsClean cs) : cleanComponents cs = cs := by
  have hnames (start : List Component) (names : List Name)
      (hstart : cleanComponents start = start) :
      cleanComponents (start ++ names.map .name) = start ++ names.map .name := by
    induction names using List.reverseRecOn with
    | nil => simpa using hstart
    | append_singleton names n ih =>
      rw [List.map_append, ← List.append_assoc, List.map_singleton, cleanComponents_concat, ih]
      simp [cleanStep]
  cases h with
  | absolute names _ => exact hnames [.root] names rfl
  | relative ups names _ =>
    refine hnames _ names ?_
    induction ups with
    | zero => rfl
    | succ ups ih =>
      rw [List.replicate_succ', cleanComponents_concat, ih, List.reverse_replicate,
        cleanStep_replicate, List.reverse_replicate, List.replicate_succ']

/-- A path that does not lead out of the directory where it starts, if it is relative. -/
def StaysInside (p : Path) : Prop := p.isAbsolute = false → .parent ∉ p.clean.components

instance : DecidablePred StaysInside := fun _ => inferInstanceAs (Decidable (_ → _))

lemma join_of_isAbsolute (hp : p.isAbsolute = true) : root.join p = p := by
  rw [join, if_pos hp]

lemma chars_ne_nil_of_isAbsolute (hp : p.isAbsolute = true) : p.chars ≠ [] := by
  intro hnil
  simp [isAbsolute, hnil] at hp

lemma clean_eq_iff : p.clean = q.clean ↔ p.clean.components = q.clean.components := by
  refine ⟨fun h => by rw [h], fun h => ?_⟩
  rw [components_clean, components_clean] at h
  rw [clean, h, clean]

/-- From a directory, a cleaned path leads to where the path leads. -/
theorem clean_join_clean (hq : q.isAbsolute = false) (hp : p.chars ≠ []) :
    (p.join q.clean).clean = (p.join q).clean := by
  have hroot : .root ∉ cleanComponents q.components := by simp [root_mem_cleanComponents, hq]
  have hclean : q.clean.isAbsolute = false := by
    rwa [← Bool.not_eq_true, ← root_mem_components, components_clean]
  rw [clean_eq_iff, components_clean, components_clean, components_join hclean hp,
    components_join hq hp, clean,
    componentsFrom_pieces_ofComponents (isClean_cleanComponents q) hroot,
    cleanComponents_components hq,
    cleanComponents_append_cleanComponents root_notMem_componentsFrom]

lemma keyUnder_of_outside (h : ¬ root.clean.components <+: p.clean.components) :
    keyUnder root p = p.clean := by
  have hnone : root.clean.components.isPrefixOf? p.clean.components = none := by
    rw [Option.eq_none_iff_forall_ne_some]
    exact fun rest hrest => h ⟨rest, List.isPrefixOf?_eq_some_iff_append_eq.mp hrest⟩
  rw [keyUnder, relativeTo?, hnone]
  rfl

/-- Paths that are the same once they are cleaned have one key. -/
lemma keyUnder_congr (root : Path) (h : p.clean = q.clean) : keyUnder root p = keyUnder root q := by
  rw [keyUnder, keyUnder, h]

/-- What is relative does not begin with an absolute root. -/
lemma not_isPrefix_clean (hroot : root.isAbsolute = true) (hp : p.isAbsolute = false) :
    ¬ root.clean.components <+: p.clean.components := by
  rintro ⟨rest, hrest⟩
  have hmem : .root ∈ p.clean.components := by
    rw [← hrest, components_clean]
    exact List.mem_append_left _ (root_mem_cleanComponents.mpr hroot)
  rw [components_clean, root_mem_cleanComponents, hp] at hmem
  exact Bool.false_ne_true hmem

lemma staysInside_of_isAbsolute (hp : p.isAbsolute = true) : p.StaysInside := fun h => by
  simp [hp] at h

/-- The key of a path under the root spells what the path has below the root. -/
lemma keyUnder_of_below (h : p.clean.components = root.clean.components ++ rest) :
    keyUnder root p = ofComponents rest := by
  rw [components_clean, components_clean] at h
  have hclean : IsClean (cleanComponents root.components ++ rest) := h ▸ isClean_cleanComponents p
  rw [keyUnder, clean, clean, h, relativeTo?_ofComponents hclean]
  rfl

/-- A key holds what its path has below the root, or all of the path. -/
lemma components_keyUnder (hroot : root.isAbsolute = true) (hp : p.StaysInside) :
    (∃ l : Location, (∀ n ∈ l, IsEntryName n) ∧
        (root.join p).clean.components = root.clean.components ++ l.map .name ∧
        (keyUnder root p).components = l.map .name) ∨
      p.isAbsolute = true ∧ ¬ root.clean.components <+: p.clean.components ∧
        keyUnder root p = p.clean := by
  obtain ⟨above, habove, hrootClean⟩ := exists_names_of_isAbsolute hroot
  by_cases habsolute : p.isAbsolute = true
  · by_cases hprefix : root.clean.components <+: p.clean.components
    · obtain ⟨rest, hrest⟩ := hprefix
      obtain ⟨names, hnames, hclean⟩ := exists_names_of_isAbsolute habsolute
      rw [← components_clean, ← hrest, components_clean, hrootClean, List.cons_append,
        List.cons.injEq] at hclean
      obtain ⟨above', l, rfl, -, rfl⟩ := List.map_eq_append_iff.mp hclean.2.symm
      have hl := (List.forall_mem_append.mp hnames).2
      refine .inl ⟨l, hl, ?_, ?_⟩
      · rw [join_of_isAbsolute habsolute, hrest]
      · rw [keyUnder_of_below hrest.symm, components_ofComponents_names hl]
    · exact .inr ⟨habsolute, hprefix, keyUnder_of_outside hprefix⟩
  · rw [Bool.not_eq_true] at habsolute
    have hne := chars_ne_nil_of_isAbsolute hroot
    have hups := hp habsolute
    rw [components_clean] at hups
    obtain ⟨l, hl, hclean⟩ := exists_names_of_not_parent_mem habsolute hups
    refine .inl ⟨l, hl, ?_, ?_⟩
    · rw [components_clean, cleanComponents_join habsolute hne hups, components_clean, hclean]
    · rw [keyUnder_of_outside (not_isPrefix_clean hroot habsolute), components_clean, hclean]

/-- Two paths have the same key just if they are the same path from the root. -/
theorem same_keyUnder_iff (hroot : root.isAbsolute = true) (hp : p.StaysInside)
    (hq : q.StaysInside) :
    (keyUnder root p).same (keyUnder root q) ↔ (root.join p).clean = (root.join q).clean := by
  have hnames {q : Path} {l : Location} (hq : q.isAbsolute = true) :
      l.map .name ≠ q.clean.components := by
    intro h
    have hmem := root_mem_cleanComponents.mpr hq
    rw [← components_clean, ← h] at hmem
    simp at hmem
  rw [same, decide_eq_true_eq, clean_eq_iff]
  -- a key that is below the root and one that is not spell different paths
  rcases components_keyUnder hroot hp with ⟨l, -, hjoin, hkey⟩ | ⟨habsolute, hprefix, hkey⟩ <;>
    rcases components_keyUnder hroot hq with ⟨l', -, hjoin', hkey'⟩ | ⟨habsolute', hprefix', hkey'⟩
  · rw [hjoin, hjoin', hkey, hkey', List.append_cancel_left_eq]
  · rw [hkey, hkey', hjoin, join_of_isAbsolute habsolute']
    exact iff_of_false (hnames habsolute') fun h => hprefix' ⟨_, h⟩
  · rw [hkey, hkey', hjoin', join_of_isAbsolute habsolute]
    exact iff_of_false (hnames habsolute).symm fun h => hprefix ⟨_, h.symm⟩
  · rw [hkey, hkey', join_of_isAbsolute habsolute, join_of_isAbsolute habsolute']

/-- A key leads from the root to where its path leads. -/
theorem clean_join_keyUnder (hroot : root.isAbsolute = true) (p : Path) :
    (root.join (keyUnder root p)).clean = (root.join p).clean := by
  have hne := chars_ne_nil_of_isAbsolute hroot
  by_cases hp : p.StaysInside
  · rcases components_keyUnder hroot hp with ⟨l, hl, hjoin, hkey⟩ | ⟨habsolute, -, hkey⟩
    · have hrelative : (keyUnder root p).isAbsolute = false := by
        rw [← Bool.not_eq_true, ← root_mem_components, hkey]
        simp
      have hclean : cleanComponents (keyUnder root p).components = l.map .name := by
        rw [hkey]
        exact (IsClean.relative 0 l hl).cleanComponents_eq
      rw [clean_eq_iff, hjoin, components_clean,
        cleanComponents_join hrelative hne (by simp [hclean]), hclean, components_clean]
    · have habsolute' : p.clean.isAbsolute = true := by
        rwa [← root_mem_components, components_clean, root_mem_cleanComponents]
      rw [hkey, join_of_isAbsolute habsolute', join_of_isAbsolute habsolute, clean_eq_iff,
        components_clean, components_clean, (isClean_cleanComponents p).cleanComponents_eq]
  · -- what leads up out of the root is its own key
    have hrelative : p.isAbsolute = false := by
      by_contra habsolute
      exact hp (staysInside_of_isAbsolute (by simpa using habsolute))
    rw [keyUnder_of_outside (not_isPrefix_clean hroot hrelative), clean_join_clean hrelative hne]

end ConstPromotion.Path
