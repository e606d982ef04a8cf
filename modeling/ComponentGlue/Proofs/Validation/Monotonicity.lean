import ComponentGlue.Proofs.Validation.Accepted

set_option autoImplicit false
set_option relaxedAutoImplicit false

namespace ComponentGlue

def Catalog.Resolves (catalog : Option Catalog) (key : ResourceKey) : Prop :=
  ∃ c, catalog = some c ∧ ∃ ref, c.lookup key = .ok ref

namespace Catalog

theorem resolves_some_iff {c : Catalog} {key : ResourceKey} :
    Resolves (some c) key ↔ ∃ ref, c.lookup key = .ok ref := by
  simp [Resolves]

theorem resolves_of_resolves_project {project : CatalogLayer} {platform : Option CatalogLayer}
    {key : ResourceKey} (h : Resolves (some ⟨project, none⟩) key) :
    Resolves (some ⟨project, platform⟩) key := by
  rw [resolves_some_iff] at h ⊢
  obtain ⟨ref, href⟩ := h
  refine ⟨ref, ?_⟩
  simp only [lookup, layers, Option.toList_none, List.findSome?_cons, List.findSome?_nil]
    at href ⊢
  cases hfound : lookupIn? key project with
  | none => simp [hfound] at href
  | some found => simpa [hfound] using href

end Catalog

theorem Subject.resolves_iff {s : Subject} {key : ResourceKey} :
    s.Resolves key ↔ Catalog.Resolves s.context.catalog key := by
  unfold Resolves Catalog.Resolves setting Setting.resource
  cases s.context.catalog with
  | none => simp
  | some catalog =>
    cases hlookup : catalog.lookup key with
    | error e => simp [hlookup]
    | ok ref => simp [hlookup]

/-- A listener or menu item handler whose list of ids is empty. -/
def Declaration.NamesNoId (d : Declaration) : Prop :=
  ((∃ k : ListenerKind, d.marker = k.marker) ∨ d.marker = .optionsItem) ∧
    d.argStrings? "ids" = some []

namespace StandardKind

variable {k : StandardKind} {c : ValidationContext} {d : Declaration}

theorem requirement_withCatalog (k : StandardKind) (c : ValidationContext) (d : Declaration)
    (catalog : Option Catalog) :
    k.requirement ⟨{ c with catalog }, d⟩ = k.requirement ⟨c, d⟩ := by
  cases k <;> rfl

theorem namesNoId_iff (hmarker : d.marker = k.marker) :
    d.NamesNoId ↔ k.rule.requiresCatalog = true ∧ k.rule.resources d = [] := by
  have hkind : ∀ l : StandardKind, d.marker = l.marker → k = l := fun l h =>
    marker_injective (hmarker.symm.trans h)
  have hids : ∀ default : String, ((d.argStrings? "ids").getD [default]).map
      (ResourceKey.mk .id) = [] ↔ d.argStrings? "ids" = some [] := by
    intro default
    cases d.argStrings? "ids" <;> simp
  constructor
  · rintro ⟨⟨l, hl⟩ | hitem, hnone⟩
    · obtain rfl := hkind (.listener l) hl
      exact ⟨rfl, (hids _).2 hnone⟩
    · obtain rfl := hkind .optionsItem hitem
      exact ⟨rfl, (hids _).2 hnone⟩
  · rintro ⟨hrequires, hnone⟩
    cases k
    case listener l => exact ⟨Or.inl ⟨l, hmarker⟩, (hids _).1 hnone⟩
    case optionsItem => exact ⟨Or.inr hmarker, (hids _).1 hnone⟩
    case boundView | htmlText | optionsMenu | resourceField =>
      exact absurd hnone (List.cons_ne_nil _ _)
    all_goals cases hrequires

theorem Fits.withCatalog (h : k.Fits c d) {catalog : Option Catalog}
    (hmore : ∀ key, Catalog.Resolves c.catalog key → Catalog.Resolves catalog key)
    (hmarker : d.marker = k.marker) (hnames : ¬ (catalog = none ∧ d.NamesNoId)) :
    k.Fits { c with catalog } d := by
  have hresources : ∀ key ∈ k.rule.resources d, Catalog.Resolves catalog key :=
    fun key hkey => hmore key (Subject.resolves_iff.1 (h.met.resources key hkey))
  refine ⟨?_, ?_⟩
  · refine Bool.eq_false_iff.2 fun hblocked => hnames ?_
    obtain ⟨hrequires, habsent⟩ := (Bool.and_eq_true _ _).mp hblocked
    have hnone : catalog = none := Option.isNone_iff_eq_none.1 habsent
    refine ⟨hnone, (namesNoId_iff hmarker).2 ⟨hrequires, ?_⟩⟩
    refine List.eq_nil_iff_forall_not_mem.2 fun key hkey => ?_
    obtain ⟨found, hfound, -⟩ := hresources key hkey
    cases hnone.symm.trans hfound
  · rw [requirement_withCatalog]
    exact ⟨h.met.own, h.met.needs, h.met.excludes,
      fun key hkey => Subject.resolves_iff.2 (hresources key hkey)⟩

theorem not_namesNoId_of_mem_needs {s : Subject} {owner : Owner}
    (howner : owner ∈ (k.requirement s).needs) (hmarker : d.marker = owner.marker) :
    ¬ d.NamesNoId := by
  have hneeded := marker_of_mem_needs howner
  rw [← hmarker] at hneeded
  rintro ⟨⟨l, hl⟩ | hitem, -⟩
  · rw [hl] at hneeded
    exact absurd hneeded (by cases l <;> decide)
  · rw [hitem] at hneeded
    exact absurd hneeded (by decide)

end StandardKind

namespace ValidationContext

variable {c : ValidationContext}

/-- What is accepted still is with a catalog that knows more; only a handler that names no id is not
accepted when there is no catalog. -/
theorem mem_accepted_withCatalog_iff (hgrouped : c.extracted.Grouped) {catalog : Option Catalog}
    (hmore : ∀ key, Catalog.Resolves c.catalog key → Catalog.Resolves catalog key)
    {marker : Marker} {d : Declaration} (hd : d ∈ c.accepted.declarations marker) :
    d ∈ ({ c with catalog } : ValidationContext).accepted.declarations marker ↔
      ¬ (catalog = none ∧ d.NamesNoId) := by
  obtain ⟨k, rfl, haccepts⟩ := exists_kind_of_mem_accepted hgrouped hd
  have hmarker := hgrouped.marker_eq _ d haccepts.extracted
  constructor
  · rintro hd' ⟨rfl, hnames⟩
    have hfits := (accepts_of_mem (c := { c with catalog := none }) hgrouped hd').fits
    have hrequires := ((StandardKind.namesNoId_iff hmarker).1 hnames).1
    exact Bool.false_ne_true (hfits.unblocked.symm.trans
      ((Bool.and_eq_true _ _).mpr ⟨hrequires, rfl⟩))
  · intro hnames
    -- What is accepted, handlers without ids aside, supports itself with the other catalog.
    refine mem_accepted_of_supported (c := { c with catalog }) hgrouped
      (p := fun l e => e ∈ c.accepted.declarations l.marker ∧ ¬ (catalog = none ∧ e.NamesNoId))
      (fun l e he => (accepts_of_mem hgrouped he.1).extracted) ?_ ?_ ⟨hd, hnames⟩
    · intro l e he
      have hl := accepts_of_mem hgrouped he.1
      exact hl.fits.withCatalog hmore (hgrouped.marker_eq _ e hl.extracted) he.2
    · intro l e he owner howner
      rw [StandardKind.requirement_withCatalog] at howner
      obtain ⟨e', he', hname⟩ := DeclarationModel.isAnnotated_iff.1
        ((accepts_of_mem hgrouped he.1).owners owner howner)
      obtain ⟨l', hl'⟩ := StandardKind.handles_iff.1 (StandardKind.handles_of_mem_needs howner)
      have hmarker' : e'.marker = owner.marker := (grouped_accepted hgrouped).marker_eq _ e' he'
      exact ⟨l', e', ⟨hl' ▸ he', fun h =>
        StandardKind.not_namesNoId_of_mem_needs howner hmarker' h.2⟩, hl', hname⟩

end ValidationContext

/-- Acceptance is monotone in the catalog, but for handlers without ids when the catalog is absent. -/
theorem mem_accepted_of_resolves (batches : List (Marker × List RawDeclaration))
    (project : Project) (catalog catalog' : Option Catalog)
    (hmore : ∀ key, Catalog.Resolves catalog key → Catalog.Resolves catalog' key) :
    ∃ m m', (Validator.validate Registry.standard.validators
        ⟨.extract batches, catalog, project⟩).result = .ok m ∧
      (Validator.validate Registry.standard.validators
        ⟨.extract batches, catalog', project⟩).result = .ok m' ∧
      ∀ marker, ∀ d ∈ m.declarations marker,
        (d ∈ m'.declarations marker ↔ ¬ (catalog' = none ∧ d.NamesNoId)) := by
  have hgrouped := DeclarationModel.grouped_extract batches
  refine ⟨ValidationContext.accepted ⟨.extract batches, catalog, project⟩,
    ValidationContext.accepted ⟨.extract batches, catalog', project⟩,
    congrArg Reported.result (ValidationContext.validate_standard _),
    congrArg Reported.result (ValidationContext.validate_standard _), fun marker d hd => ?_⟩
  exact ValidationContext.mem_accepted_withCatalog_iff
    (c := ⟨.extract batches, catalog, project⟩) hgrouped hmore hd

private def boundNames (m : DeclarationModel) : List String × List String :=
  ((m.declarations .bindsView).map Declaration.qualifiedName,
    (m.declarations ListenerKind.click.marker).map Declaration.qualifiedName)

private def headingBatches : List (Marker × List RawDeclaration) :=
  [(.enhancedComponent,
      [⟨⟨.classType, "Main", "a", none, [], [], [], [], []⟩, .empty⟩]),
    (.bindsView,
      [⟨⟨.field, "title", "a.Main", some "android.view.View", [], [], [], [], []⟩, .empty⟩,
        ⟨⟨.field, "subtitle", "a.Main", some "android.view.View", [], [], [], [], []⟩, .empty⟩]),
    (ListenerKind.click.marker,
      [⟨⟨.method, "open", "a.Main", none, [], [], [], [], []⟩,
          .ofList [("ids", .list [.str "title"])]⟩,
        ⟨⟨.method, "more", "a.Main", none, [], [], [], [], []⟩,
          .ofList [("ids", .list [.str "subtitle"])]⟩])]

private def headingCatalog (platform : Option CatalogLayer) : Catalog :=
  ⟨⟨.project, .ofList [(⟨.id, "title"⟩, 1)]⟩, platform⟩

theorem mem_accepted_of_resolves_platform :
    let smaller : Catalog := headingCatalog none
    let larger : Catalog := headingCatalog (some ⟨.platform, .ofList [(⟨.id, "subtitle"⟩, 2)]⟩)
    (∀ key, Catalog.Resolves (some smaller) key → Catalog.Resolves (some larger) key) ∧
    ∃ m m', (Validator.validate Registry.standard.validators
        ⟨.extract headingBatches, some smaller, .new "a"⟩).result = .ok m ∧
      (Validator.validate Registry.standard.validators
        ⟨.extract headingBatches, some larger, .new "a"⟩).result = .ok m' ∧
      (∀ marker, ∀ d ∈ m.declarations marker, d ∈ m'.declarations marker) ∧
      boundNames m = (["a.Main#title"], ["a.Main#open"]) ∧
      boundNames m' = (["a.Main#title", "a.Main#subtitle"], ["a.Main#open", "a.Main#more"]) := by
  intro smaller larger
  have hmore : ∀ key, Catalog.Resolves (some smaller) key → Catalog.Resolves (some larger) key :=
    fun key => Catalog.resolves_of_resolves_project
  obtain ⟨m, m', hm, hm', hmono⟩ :=
    mem_accepted_of_resolves headingBatches (.new "a") _ _ hmore
  refine ⟨hmore, m, m', hm, hm', fun marker d hd => ?_, ?_, ?_⟩
  · exact (hmono marker d hd).2 fun h => Option.some_ne_none _ h.1
  · rw [ValidationContext.validate_standard] at hm
    rw [← Except.ok.inj hm]
    decide +kernel
  · rw [ValidationContext.validate_standard] at hm'
    rw [← Except.ok.inj hm']
    decide +kernel

private def idleBatches : List (Marker × List RawDeclaration) :=
  [(.enhancedComponent,
      [⟨⟨.classType, "Main", "a", none, [], [], [], [], []⟩, .empty⟩]),
    (.bindsView,
      [⟨⟨.field, "title", "a.Main", some "android.view.View", [], [], [], [], []⟩, .empty⟩]),
    (ListenerKind.click.marker,
      [⟨⟨.method, "go", "a.Main", none, [], [], [], [], []⟩, .ofList [("ids", .list [])]⟩])]

/-- With an empty catalog the handler is accepted, without a catalog it is not. -/
theorem not_mem_accepted_of_no_catalog :
    let empty : Option Catalog := some ⟨⟨.project, .empty⟩, none⟩
    (∀ key, Catalog.Resolves empty key → Catalog.Resolves none key) ∧
    ∃ m m', (Validator.validate Registry.standard.validators
        ⟨.extract idleBatches, empty, .new "a"⟩).result = .ok m ∧
      (Validator.validate Registry.standard.validators
        ⟨.extract idleBatches, none, .new "a"⟩).result = .ok m' ∧
      ∃ d ∈ m.declarations ListenerKind.click.marker,
        d ∉ m'.declarations ListenerKind.click.marker := by
  intro empty
  refine ⟨fun key hkey => ?_, _, _,
    congrArg Reported.result (ValidationContext.validate_standard _),
    congrArg Reported.result (ValidationContext.validate_standard _), ?_⟩
  · obtain ⟨ref, href⟩ := Catalog.resolves_some_iff.1 hkey
    cases href
  · have hwith : boundNames (ValidationContext.accepted
        ⟨.extract idleBatches, empty, .new "a"⟩) = ([], ["a.Main#go"]) := by decide +kernel
    have hwithout : boundNames (ValidationContext.accepted
        ⟨.extract idleBatches, none, .new "a"⟩) = ([], []) := by decide +kernel
    obtain ⟨d, ds, hcons, -, -⟩ := List.map_eq_cons_iff.1 (congrArg Prod.snd hwith)
    have hnone := List.map_eq_nil_iff.1 (congrArg Prod.snd hwithout)
    refine ⟨d, ?_, ?_⟩
    · exact hcons.symm ▸ List.mem_cons_self
    · exact hnone.symm ▸ List.not_mem_nil

end ComponentGlue
