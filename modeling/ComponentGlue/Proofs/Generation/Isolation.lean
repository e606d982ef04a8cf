import ComponentGlue.Proofs.Generation.Members
import ComponentGlue.Proofs.Input
import ComponentGlue.Proofs.Validation.Accepted

set_option autoImplicit false
set_option relaxedAutoImplicit false

namespace ComponentGlue

def Element.concerns (name : String) (e : Element) : Bool :=
  e.qualifiedName == name || e.owner == name

def Declaration.concerns (name : String) (d : Declaration) : Bool := d.element.concerns name

theorem Declaration.concerns_iff {name : String} {d : Declaration} :
    d.concerns name = true ↔ d.qualifiedName = name ∨ d.element.owner = name := by
  rw [concerns, Element.concerns, Bool.or_eq_true, beq_iff_eq, beq_iff_eq]
  rfl

theorem Declaration.concerns_eq {name : String} {d e : Declaration} (hd : d.element.WellNamed)
    (he : e.element.WellNamed) (h : d.qualifiedName = e.qualifiedName) :
    d.concerns name = e.concerns name := by
  rw [Bool.eq_iff_iff, concerns_iff, concerns_iff, h, (hd.eq_of_qualifiedName_eq he h).1]

theorem StandardKind.element_of_mem_excludes {k : StandardKind} {s : Subject} {owner : Owner}
    (h : owner ∈ (k.requirement s).excludes) : owner.element = s.declaration.qualifiedName := by
  cases k
  case thread k =>
    rcases List.mem_cons.1 h with rfl | h
    · rfl
    · rw [List.mem_singleton.1 h]
  case transaction =>
    obtain ⟨k, -, rfl⟩ := List.mem_map.1 h
    rfl
  all_goals exact absurd h List.not_mem_nil

namespace ValidationContext

/-- Contexts of one project and one catalog that have the same declarations which concern an element, and
the same preference interfaces; no other type is generated under the name of the element. -/
structure SameFor (name : String) (c c' : ValidationContext) : Prop where
  project : c.project = c'.project
  catalog : c.catalog = c'.catalog
  named : ∀ marker, ∀ d ∈ c.extracted.declarations marker, d.element.WellNamed
  named' : ∀ marker, ∀ d ∈ c'.extracted.declarations marker, d.element.WellNamed
  grouped : c.extracted.Grouped
  grouped' : c'.extracted.Grouped
  concerning : ∀ marker, (c.extracted.declarations marker).filter (Declaration.concerns name) =
    (c'.extracted.declarations marker).filter (Declaration.concerns name)
  preferences : c.extracted.declarations .sharedPref = c'.extracted.declarations .sharedPref
  free : ∀ marker ∈ [Marker.sharedPref, .rest], c.extracted.isAnnotated name marker = false

namespace SameFor

variable {name : String} {c c' : ValidationContext} (h : c.SameFor name c')
  {k : StandardKind} {d : Declaration} {marker : Marker}
include h

theorem mem_extracted (hd : d ∈ c.extracted.declarations marker) (hconcerns : d.concerns name = true) :
    d ∈ c'.extracted.declarations marker := by
  have hmem : d ∈ (c.extracted.declarations marker).filter (Declaration.concerns name) :=
    List.mem_filter.2 ⟨hd, hconcerns⟩
  rw [h.concerning] at hmem
  exact List.mem_of_mem_filter hmem

theorem free' : ∀ marker ∈ [Marker.sharedPref, .rest], c'.extracted.isAnnotated name marker = false := by
  intro marker hmarker
  refine Bool.eq_false_iff.2 fun hannotated => ?_
  obtain ⟨e, he, hname⟩ := DeclarationModel.isAnnotated_iff.1 hannotated
  have hmem : e ∈ (c'.extracted.declarations marker).filter (Declaration.concerns name) :=
    List.mem_filter.2 ⟨he, Declaration.concerns_iff.2 (Or.inl hname)⟩
  rw [← h.concerning] at hmem
  have hsame : c.extracted.isAnnotated name marker = true :=
    DeclarationModel.isAnnotated_iff.2 ⟨e, List.mem_of_mem_filter hmem, hname⟩
  exact Bool.false_ne_true ((h.free marker hmarker).symm.trans hsame)

theorem symm : c'.SameFor name c where
  project := h.project.symm
  catalog := h.catalog.symm
  named := h.named'
  named' := h.named
  grouped := h.grouped'
  grouped' := h.grouped
  concerning marker := (h.concerning marker).symm
  preferences := h.preferences.symm
  free := h.free'

theorem isAnnotated_of_isAnnotated (hd : d.element.WellNamed) (hconcerns : d.concerns name = true)
    (hannotated : c.extracted.isAnnotated d.qualifiedName marker = true) :
    c'.extracted.isAnnotated d.qualifiedName marker = true := by
  obtain ⟨e, he, hname⟩ := DeclarationModel.isAnnotated_iff.1 hannotated
  have hsame : e.concerns name = d.concerns name :=
    Declaration.concerns_eq (h.named marker e he) hd hname
  exact DeclarationModel.isAnnotated_iff.2 ⟨e, h.mem_extracted he (hsame.trans hconcerns), hname⟩

theorem requirement_eq (hkind : k ≠ .restClient) (d : Declaration) :
    k.requirement ⟨c, d⟩ = k.requirement ⟨c', d⟩ := by
  have hcatalog := h.catalog
  have hproject := h.project
  have hpreferences := h.preferences
  obtain ⟨extracted, catalog, project⟩ := c
  obtain ⟨extracted', catalog', project'⟩ := c'
  dsimp only at hcatalog hproject hpreferences
  subst hcatalog hproject
  cases k
  case restClient => exact absurd rfl hkind
  case preferenceField =>
    have horigin : PreferenceField.helperOrigin? ⟨extracted, catalog, project⟩ =
        PreferenceField.helperOrigin? ⟨extracted', catalog, project⟩ := by
      funext type
      unfold PreferenceField.helperOrigin?
      rw [hpreferences]
    show PreferenceField.requirement _ = PreferenceField.requirement _
    unfold PreferenceField.requirement PreferenceField.origin?
    rw [horigin]
    rfl
  all_goals rfl

/-- A declaration is accepted as well where it is extracted, its owners are accepted, and no marker on its
element is excluded. -/
theorem accepts (haccepts : c.Accepts k d) (hkind : k ≠ .restClient)
    (hd : d ∈ c'.extracted.declarations k.marker)
    (howners : ∀ owner ∈ (k.requirement ⟨c, d⟩).needs,
      c'.accepted.isAnnotated owner.element owner.marker = true)
    (hexcluded : ∀ owner ∈ (k.requirement ⟨c, d⟩).excludes,
      c'.extracted.isAnnotated owner.element owner.marker = false) : c'.Accepts k d := by
  have hmet := haccepts.fits.met
  rw [h.requirement_eq hkind] at howners hexcluded hmet
  have hsetting : (⟨c, d⟩ : Subject).setting = (⟨c', d⟩ : Subject).setting :=
    congrArg₂ Setting.mk h.catalog h.project
  refine ⟨hd, ⟨?_, hmet.own, ?_, hexcluded, ?_⟩, howners⟩
  · rw [Rule.blocked, ← h.catalog]
    exact haccepts.fits.unblocked
  · intro owner howner
    obtain ⟨e, he, hname⟩ := DeclarationModel.isAnnotated_iff.1 (howners owner howner)
    exact DeclarationModel.isAnnotated_iff.2
      ⟨e, (c'.sublist_accepted h.grouped' owner.marker).subset he, hname⟩
  · intro key hkey
    obtain ⟨ref, href⟩ := hmet.resources key hkey
    exact ⟨ref, hsetting ▸ href⟩

theorem accepts_of_concerns (haccepts : c.Accepts k d) (hkind : k ≠ .restClient)
    (hconcerns : d.concerns name = true)
    (howners : ∀ owner ∈ (k.requirement ⟨c, d⟩).needs,
      c'.accepted.isAnnotated owner.element owner.marker = true) : c'.Accepts k d := by
  refine h.accepts haccepts hkind (h.mem_extracted haccepts.extracted hconcerns) howners ?_
  intro owner howner
  have hfree := haccepts.fits.met.excludes owner howner
  rw [StandardKind.element_of_mem_excludes howner] at hfree ⊢
  refine Bool.eq_false_iff.2 fun hannotated => Bool.false_ne_true (hfree.symm.trans ?_)
  exact h.symm.isAnnotated_of_isAnnotated (h.named _ d haccepts.extracted) hconcerns hannotated

theorem isAnnotated_component (hannotated : c.accepted.isAnnotated name .enhancedComponent = true) :
    c'.accepted.isAnnotated name .enhancedComponent = true := by
  obtain ⟨d, hd, hname⟩ := DeclarationModel.isAnnotated_iff.1 hannotated
  have haccepts : c.Accepts .component d := c.accepts_of_mem h.grouped hd
  have haccepts' := h.accepts_of_concerns haccepts (by simp) (Declaration.concerns_iff.2 (Or.inl hname))
    fun owner howner => absurd howner List.not_mem_nil
  exact DeclarationModel.isAnnotated_iff.2
    ⟨d, (mem_accepted_iff h.grouped' (k := .component)).2 haccepts', hname⟩

theorem isAnnotated_preference {interface : String}
    (hannotated : c.accepted.isAnnotated interface .sharedPref = true) :
    c'.accepted.isAnnotated interface .sharedPref = true := by
  obtain ⟨d, hd, hname⟩ := DeclarationModel.isAnnotated_iff.1 hannotated
  have haccepts : c.Accepts .preferenceHelper d := c.accepts_of_mem h.grouped hd
  have haccepts' := h.accepts haccepts (by simp) (h.preferences ▸ haccepts.extracted)
    (fun owner howner => absurd howner List.not_mem_nil)
    fun owner howner => absurd howner List.not_mem_nil
  exact DeclarationModel.isAnnotated_iff.2
    ⟨d, (mem_accepted_iff h.grouped' (k := .preferenceHelper)).2 haccepts', hname⟩

theorem isAnnotated_boundView (hd : d.element.WellNamed) (howner : d.element.owner = name)
    (hannotated : c.accepted.isAnnotated d.qualifiedName .bindsView = true) :
    c'.accepted.isAnnotated d.qualifiedName .bindsView = true := by
  obtain ⟨e, he, hname⟩ := DeclarationModel.isAnnotated_iff.1 hannotated
  have haccepts : c.Accepts .boundView e := c.accepts_of_mem h.grouped he
  have hsame : e.element.owner = name :=
    ((h.named _ e haccepts.extracted).eq_of_qualifiedName_eq hd hname).1.trans howner
  have howners : ∀ owner ∈ (StandardKind.boundView.requirement ⟨c, e⟩).needs,
      c'.accepted.isAnnotated owner.element owner.marker = true := by
    intro owner hneeded
    have hcomponent := haccepts.owners owner hneeded
    obtain rfl := List.mem_singleton.1 hneeded
    rw [Subject.component, hsame] at hcomponent ⊢
    exact h.isAnnotated_component hcomponent
  have haccepts' := h.accepts_of_concerns haccepts (by simp)
    (Declaration.concerns_iff.2 (Or.inr hsame)) howners
  exact DeclarationModel.isAnnotated_iff.2
    ⟨e, (mem_accepted_iff h.grouped' (k := .boundView)).2 haccepts', hname⟩

end SameFor

end ValidationContext

open DeclarationModel (givenFor mem_givenFor_iff filter_givenFor)
open StandardKind (schedule leaves slice update putsType putsType_iff putsType_of_type
  update_of_type update_of_contribution)

variable {name : String} {x : StandardKind × Declaration}

def touches (origin : String) (x : StandardKind × Declaration) : Bool :=
  putsOn origin x || contributesTo origin x

theorem touches_iff : touches name x = true ↔ (putsType x = true ∧ x.2.qualifiedName = name) ∨
    ∃ h, x.1.holder? x.2 = some h ∧ h.origin = name := by
  rw [touches, Bool.or_eq_true, putsOn_iff, contributesTo_iff]

theorem update_of_not_touches (s : Setting) (found : Option GeneratedType)
    (h : ¬ touches name x = true) : update s name found x = found := by
  rw [touches_iff, not_or] at h
  cases hleaves : leaves s x with
  | type t =>
    rw [update_of_type hleaves, if_neg fun hname => h.1 ⟨putsType_of_type hleaves, hname⟩]
  | contribution holder contribution =>
    have hholder := StandardKind.holder?_leaves s x
    rw [hleaves] at hholder
    rw [update_of_contribution hleaves, if_neg fun horigin => h.2 ⟨holder, hholder.symm, horigin⟩]

theorem slice_filter_touches (s : Setting) (xs : List (StandardKind × Declaration)) (name : String) :
    slice s (xs.filter (touches name)) name = slice s xs name := by
  rw [slice, slice, List.foldl_filter]
  congr 1
  funext found x
  split
  · rfl
  · next h => exact (update_of_not_touches s found h).symm

theorem concerns_of_touches (h : touches name x = true) : x.2.concerns name = true := by
  rw [Declaration.concerns_iff]
  rcases touches_iff.1 h with ⟨-, hname⟩ | ⟨holder, hholder, horigin⟩
  · exact Or.inl hname
  · obtain ⟨k, d⟩ := x
    cases k
    case component | preferenceHelper | restClient => cases hholder
    case optionsMenu =>
      cases hholder
      exact Or.inl horigin
    all_goals
      cases hholder
      exact Or.inr horigin

theorem origin_of_touches (h : touches name x = true) {holder : Holder}
    (hholder : x.1.holder? x.2 = some holder) : holder.origin = name := by
  rcases touches_iff.1 h with ⟨hputs, -⟩ | ⟨holder', hholder', horigin⟩
  · rw [putsType, hholder] at hputs
    cases hputs
  · obtain rfl := Option.some.inj (hholder.symm.trans hholder')
    exact horigin

theorem cases_of_mem_needs {k : StandardKind} {s : Subject} {owner : Owner}
    (h : owner ∈ (k.requirement s).needs) :
    (∃ holder, k.holder? s.declaration = some holder ∧ owner = holder.owner) ∨
      (k = .htmlText ∧ owner = ⟨s.declaration.qualifiedName, .bindsView⟩) ∨
      owner.marker = .sharedPref := by
  cases k
  case component | preferenceHelper | restClient => exact absurd h List.not_mem_nil
  case htmlText =>
    rcases List.mem_cons.1 h with rfl | h
    · exact Or.inl ⟨_, rfl, rfl⟩
    · exact Or.inr (Or.inl ⟨rfl, List.mem_singleton.1 h⟩)
  case preferenceField =>
    rcases List.mem_cons.1 h with rfl | h
    · exact Or.inl ⟨_, rfl, rfl⟩
    · obtain ⟨origin, -, rfl⟩ := List.mem_map.1 h
      exact Or.inr (Or.inr rfl)
  all_goals exact Or.inl ⟨_, rfl, List.mem_singleton.1 h⟩

section Accepted

variable {c c' : ValidationContext} (h : c.SameFor name c')
include h

theorem not_accepted_rest : ¬ c.accepted.isAnnotated name .rest = true := by
  intro hannotated
  obtain ⟨d, hd, hname⟩ := DeclarationModel.isAnnotated_iff.1 hannotated
  have hextracted : c.extracted.isAnnotated name .rest = true :=
    DeclarationModel.isAnnotated_iff.2 ⟨d, (c.sublist_accepted h.grouped .rest).subset hd, hname⟩
  exact Bool.false_ne_true ((h.free .rest (by simp)).symm.trans hextracted)

theorem mem_accepted_of_touches (htouches : touches name x = true)
    (hx : x.2 ∈ c.accepted.declarations x.1.marker) :
    x.2 ∈ c'.accepted.declarations x.1.marker := by
  obtain ⟨k, d⟩ := x
  have haccepts : c.Accepts k d := c.accepts_of_mem h.grouped hx
  have hkind : k ≠ .restClient := by
    rintro rfl
    rcases touches_iff.1 htouches with ⟨-, hname⟩ | ⟨holder, hholder, -⟩
    · exact not_accepted_rest h (DeclarationModel.isAnnotated_iff.2 ⟨d, hx, hname⟩)
    · cases hholder
  refine (c'.mem_accepted_iff h.grouped').2 (h.accepts_of_concerns haccepts hkind
    (concerns_of_touches htouches) fun owner howner => ?_)
  have hannotated := haccepts.owners owner howner
  rcases cases_of_mem_needs howner with ⟨holder, hholder, rfl⟩ | ⟨rfl, rfl⟩ | hpreference
  · obtain rfl := origin_of_touches htouches hholder
    cases holder with
    | component => exact h.isAnnotated_component hannotated
    | restClient => exact absurd hannotated (not_accepted_rest h)
  · have howned : d.element.owner = name := origin_of_touches htouches rfl
    exact h.isAnnotated_boundView (h.named _ d haccepts.extracted) howned hannotated
  · obtain ⟨interface, marker⟩ := owner
    obtain rfl : marker = .sharedPref := hpreference
    exact h.isAnnotated_preference hannotated

theorem filter_accepted_eq (k : StandardKind) :
    (c.accepted.declarations k.marker).filter (fun d => touches name (k, d)) =
      (c'.accepted.declarations k.marker).filter fun d => touches name (k, d) := by
  have hsublist : ∀ {e : ValidationContext}, e.extracted.Grouped →
      ((e.accepted.declarations k.marker).filter fun d => touches name (k, d)).Sublist
        ((e.extracted.declarations k.marker).filter (Declaration.concerns name)) := fun hgrouped =>
    ((ValidationContext.sublist_accepted hgrouped _).filter _).trans
      (List.monotone_filter_right _ fun d hd => concerns_of_touches hd)
  have hnodup : (c.extracted.declarations k.marker).Nodup := .of_map _ (h.grouped.distinct _)
  refine eq_of_sublist (hsublist h.grouped) (h.concerning _ ▸ hsublist h.grouped')
    (hnodup.filter _) fun d => ?_
  rw [List.mem_filter, List.mem_filter]
  exact and_congr_left fun htouches =>
    ⟨mem_accepted_of_touches h htouches, mem_accepted_of_touches h.symm htouches⟩

theorem filter_schedule_eq : (schedule c.accepted).filter (touches name) =
    (schedule c'.accepted).filter (touches name) := by
  rw [schedule, schedule, List.filter_flatMap, List.filter_flatMap]
  congr 1
  funext k
  rw [List.filter_map, List.filter_map]
  exact congrArg _ (filter_accepted_eq h k)

theorem slice_eq : slice c.setting (schedule c.accepted) name =
    slice c'.setting (schedule c'.accepted) name := by
  have hsetting : c.setting = c'.setting := congrArg₂ Setting.mk h.catalog h.project
  rw [← slice_filter_touches, filter_schedule_eq h, slice_filter_touches, hsetting]

end Accepted

namespace StandardRun

variable {run run' : StandardRun}

/-- The runs are given one project and the same tables, the same declarations of the element and of what
it owns, and the same preference interfaces. Names are as in declaration files, and no preference interface
or REST interface has the name of the element. -/
structure SameFor (name : String) (run run' : StandardRun) : Prop where
  project : run.project = run'.project
  projectTable : run.projectTable = run'.projectTable
  platformTable : run.platformTable = run'.platformTable
  named : ∀ marker, ∀ r ∈ givenFor run.batches marker, r.element.WellNamed
  named' : ∀ marker, ∀ r ∈ givenFor run'.batches marker, r.element.WellNamed
  concerning : ∀ marker,
    (givenFor run.batches marker).filter (fun r => r.element.concerns name) =
      (givenFor run'.batches marker).filter fun r => r.element.concerns name
  preferences : givenFor run.batches .sharedPref = givenFor run'.batches .sharedPref
  free : ∀ marker ∈ [Marker.sharedPref, .rest], ∀ r ∈ givenFor run.batches marker,
    r.element.qualifiedName ≠ name

theorem filter_extracted (hnamed : ∀ marker, ∀ r ∈ givenFor run.batches marker, r.element.WellNamed)
    (marker : Marker) :
    (run.context.extracted.declarations marker).filter (Declaration.concerns name) =
      DeclarationModel.appendNew []
        (((givenFor run.batches marker).filter fun r => r.element.concerns name).map
          (·.marked marker)) := by
  have hwell : ∀ d ∈ (givenFor run.batches marker).map (·.marked marker),
      d.element.WellNamed := by
    intro d hd
    obtain ⟨r, hr, rfl⟩ := List.mem_map.1 hd
    exact hnamed marker r hr
  rw [context, DeclarationModel.declarations_extract, DeclarationModel.filter_appendNew []
    _ fun d hd e he => Declaration.concerns_eq (hwell d hd) (hwell e he), List.filter_map]
  rfl

theorem SameFor.context (h : SameFor name run run') : run.context.SameFor name run'.context where
  project := h.project
  catalog := by
    rw [StandardRun.context, StandardRun.context, h.projectTable, h.platformTable]
  named marker d hd := by
    obtain ⟨r, hr, rfl⟩ := DeclarationModel.mem_declarations_extract_iff.1 hd
    exact h.named marker r (List.mem_of_find?_eq_some hr)
  named' marker d hd := by
    obtain ⟨r, hr, rfl⟩ := DeclarationModel.mem_declarations_extract_iff.1 hd
    exact h.named' marker r (List.mem_of_find?_eq_some hr)
  grouped := run.grouped
  grouped' := run'.grouped
  concerning marker := by
    rw [filter_extracted h.named, filter_extracted h.named', h.concerning]
  preferences := by
    rw [StandardRun.context, StandardRun.context, DeclarationModel.declarations_extract,
      DeclarationModel.declarations_extract, h.preferences]
  free marker hmarker := by
    refine Bool.eq_false_iff.2 fun hannotated => ?_
    obtain ⟨r, hr, hname⟩ := DeclarationModel.isAnnotated_extract_iff.1 hannotated
    exact h.free marker hmarker r hr hname

theorem get?_eq_slice (run : StandardRun) (origin : String) :
    run.model.get? (run.project.generatedName origin) =
      slice run.context.setting (schedule run.context.accepted) origin := by
  obtain ⟨a, hreaches, hmodel⟩ := run.exists_reaches
  rw [← hmodel]
  exact get?_of_reaches run.grouped (List.append_nil _).symm hreaches origin

/-- Components do not interfere: the type of an element is the same in both runs, or neither has one. -/
theorem generated_eq_of_sameFor (h : SameFor name run run') :
    run.model.get? (run.project.generatedName name) =
      run'.model.get? (run'.project.generatedName name) := by
  rw [get?_eq_slice, get?_eq_slice, slice_eq h.context]

private def homeBatches (others : Bool) : List (Marker × List RawDeclaration) :=
  let given (kind : ElementKind) (name owner : String) (type : Option String)
      (modifiers : List Modifier) : RawDeclaration :=
    ⟨⟨kind, name, owner, type, [], modifiers, [], [], []⟩, .empty⟩
  let further (r : RawDeclaration) := if others then [r] else []
  [(.enhancedComponent, further (given .classType "Login" "a" none []) ++
      [given .classType "Home" "a" none []] ++ further (given .classType "Old" "a" none [.final])),
    (.sharedPref, [given .interfaceType "Prefs" "a" none []]),
    (.rest, further ⟨⟨.interfaceType, "Api", "a", none, [], [], [], [], [⟨"all", [], none⟩]⟩, .empty⟩),
    (.pref, further (given .field "prefs" "a.Old" (some "Prefs_") []) ++
      [given .field "prefs" "a.Home" (some "Prefs_") []]),
    (ListenerKind.click.marker, further (given .method "login" "a.Login" none []) ++
      [given .method "title" "a.Home" none []])]

private def homeRun (others : Bool) : Except Interruption StandardRun :=
  ofHost (homeBatches others)
    (.ok [⟨"id", "title", 1⟩, ⟨"id", "login", 2⟩]) (.ok []) (.new "a")

private def typeNames (run : StandardRun) : List String × Bool :=
  (run.model.typeList.map GeneratedType.name,
    (run.model.get? (run.project.generatedName "a.Home")).isSome)

private theorem exists_homeRun {others : Bool} {names : List String}
    (h : (homeRun others).toOption.map typeNames = some (names, true)) :
    ∃ run t, homeRun others = .ok run ∧ run.model.typeList.map GeneratedType.name = names ∧
      run.model.get? (run.project.generatedName "a.Home") = some t := by
  obtain ⟨run, hrun, hparts⟩ := exists_ok_of_map_toOption h
  obtain ⟨hnames, hsome⟩ := Prod.mk.inj hparts
  obtain ⟨t, ht⟩ := Option.isSome_iff_exists.1 hsome
  exact ⟨run, t, hrun, hnames, ht⟩

private theorem wellNamed_homeBatches (others : Bool) (marker : Marker) :
    ∀ r ∈ givenFor (homeBatches others) marker, r.element.WellNamed := by
  have hall : ∀ b ∈ homeBatches others, ∀ r ∈ b.2,
      isIdentifier r.element.name = true ∧ DeclarationFile.ownerFits r.element = true := by
    cases others <;> decide +kernel
  intro r hr
  obtain ⟨b, hb, hr⟩ := mem_givenFor_iff.1 hr
  exact ⟨(hall b hb r hr.2).1, (hall b hb r hr.2).2⟩

theorem generated_eq_home : ∃ run run' t, homeRun false = .ok run ∧ homeRun true = .ok run' ∧
    run.SameFor "a.Home" run' ∧
    run.model.typeList.map GeneratedType.name = ["a.Home_", "a.Prefs_"] ∧
    run'.model.typeList.map GeneratedType.name = ["a.Login_", "a.Home_", "a.Prefs_"] ∧
    run.model.get? (run.project.generatedName "a.Home") = some t ∧
    run'.model.get? (run'.project.generatedName "a.Home") = some t := by
  obtain ⟨run, t, hrun, hnames, ht⟩ :
      ∃ run t, homeRun false = .ok run ∧
        run.model.typeList.map GeneratedType.name = ["a.Home_", "a.Prefs_"] ∧
        run.model.get? (run.project.generatedName "a.Home") = some t :=
    exists_homeRun (by decide +kernel)
  obtain ⟨run', -, hrun', hnames', -⟩ :
      ∃ run t, homeRun true = .ok run ∧
        run.model.typeList.map GeneratedType.name = ["a.Login_", "a.Home_", "a.Prefs_"] ∧
        run.model.get? (run.project.generatedName "a.Home") = some t :=
    exists_homeRun (by decide +kernel)
  obtain ⟨hbatches, hproject, hplatform, hsetting⟩ := given_of_ofHost hrun
  obtain ⟨hbatches', hproject', hplatform', hsetting'⟩ := given_of_ofHost hrun'
  have hsame : run.SameFor "a.Home" run' := by
    refine ⟨hsetting.trans hsetting'.symm, hproject.trans hproject'.symm,
      hplatform.trans hplatform'.symm, ?_, ?_, ?_, ?_, ?_⟩
    · exact hbatches ▸ wellNamed_homeBatches false
    · exact hbatches' ▸ wellNamed_homeBatches true
    · intro marker
      rw [hbatches, hbatches', filter_givenFor, filter_givenFor]
      rfl
    · rw [hbatches, hbatches']
      rfl
    · have hfree : ∀ marker ∈ [Marker.sharedPref, .rest], ∀ r ∈ givenFor (homeBatches false) marker,
          r.element.qualifiedName ≠ "a.Home" := by decide +kernel
      exact hbatches ▸ hfree
  exact ⟨run, run', t, hrun, hrun', hsame, hnames, hnames', ht, generated_eq_of_sameFor hsame ▸ ht⟩

end StandardRun

end ComponentGlue
