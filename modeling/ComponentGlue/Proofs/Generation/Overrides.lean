import ComponentGlue.Proofs.Generation.Clashes

set_option autoImplicit false
set_option relaxedAutoImplicit false

namespace ComponentGlue

open StandardKind (step schedule leaves mem_schedule_iff)

def Marker.overriding : List Marker := ThreadKind.all.map ThreadKind.marker ++ [.transactional]

theorem StandardKind.exists_overrides_iff {marker : Marker} :
    (∃ k : StandardKind, k.overrides = true ∧ k.marker = marker) ↔ marker ∈ Marker.overriding := by
  constructor
  · rintro ⟨k, hk, rfl⟩
    cases k
    case thread k => cases k <;> decide
    case transaction => decide
    all_goals cases hk
  · intro h
    rcases List.mem_append.1 h with h | h
    · obtain ⟨k, -, rfl⟩ := List.mem_map.1 h
      exact ⟨.thread k, rfl, rfl⟩
    · exact ⟨.transaction, rfl, (List.mem_singleton.1 h).symm⟩

/-- The steps that override the method of this qualified name. -/
def DeclarationModel.overridesOf (m : DeclarationModel) (name : String) :
    List (StandardKind × Declaration) :=
  (schedule m).filter fun x => x.1.overrides && x.2.qualifiedName == name

theorem mem_overridesOf_iff {m : DeclarationModel} {name : String} {x : StandardKind × Declaration} :
    x ∈ m.overridesOf name ↔
      x.2 ∈ m.declarations x.1.marker ∧ x.1.overrides = true ∧ x.2.qualifiedName = name := by
  rw [DeclarationModel.overridesOf, List.mem_filter, mem_schedule_iff, Bool.and_eq_true, beq_iff_eq]

namespace ValidationContext

variable {c : ValidationContext} {name : String}

theorem isAnnotated_accepted_of_overriding (hgrouped : c.extracted.Grouped) {first second : Marker}
    (hfirst : first ∈ Marker.overriding) (hsecond : second ∈ Marker.overriding) (hne : first ≠ second)
    (hmarked : c.extracted.isAnnotated name second = true) :
    c.accepted.isAnnotated name first = false := by
  obtain ⟨k, hk, rfl⟩ := StandardKind.exists_overrides_iff.2 hfirst
  obtain ⟨l, hl, rfl⟩ := StandardKind.exists_overrides_iff.2 hsecond
  refine Bool.eq_false_iff.2 fun haccepted => ?_
  obtain ⟨d, hd, rfl⟩ := DeclarationModel.isAnnotated_iff.1 haccepted
  have hfree := isAnnotated_of_overrides (accepts_of_mem hgrouped hd) hk hl
    fun heq => hne (congrArg StandardKind.marker heq)
  exact Bool.false_ne_true (hfree.symm.trans hmarked)

theorem length_overridesOf (hgrouped : c.extracted.Grouped) :
    (c.accepted.overridesOf name).length ≤ 1 := by
  have hnodup : (c.accepted.overridesOf name).Nodup :=
    (nodup_schedule (grouped_accepted hgrouped)).filter _
  rcases List.eq_nil_or_concat (c.accepted.overridesOf name) with hnone | ⟨_, x, hlast⟩
  · simp [hnone]
  have hx : x ∈ c.accepted.overridesOf name := by simp [hlast]
  obtain ⟨hx, hoverx, hnamex⟩ := mem_overridesOf_iff.1 hx
  have hsame : ∀ y ∈ c.accepted.overridesOf name, y = x := by
    intro y hy
    obtain ⟨hy, hovery, hnamey⟩ := mem_overridesOf_iff.1 hy
    have hkind : y.1 = x.1 := by
      by_contra hne
      have hfree := isAnnotated_of_overrides (accepts_of_mem hgrouped hy) hovery hoverx hne
      have hmarked : c.extracted.isAnnotated y.2.qualifiedName x.1.marker = true :=
        DeclarationModel.isAnnotated_iff.2
          ⟨x.2, (accepts_of_mem hgrouped hx).extracted, hnamex.trans hnamey.symm⟩
      exact Bool.false_ne_true (hfree.symm.trans hmarked)
    rw [hkind] at hy
    exact Prod.ext hkind
      ((grouped_accepted hgrouped).eq_of_qualifiedName_eq hy hx (hnamey.trans hnamex.symm))
  rw [List.eq_replicate_of_mem hsame] at hnodup
  exact List.nodup_replicate.1 hnodup

end ValidationContext

theorem step_of_overrides {c : ValidationContext} {x : StandardKind × Declaration}
    (haccepts : c.Accepts x.1 x.2) (hover : x.1.overrides = true) {a : Assembly} {name : String}
    {t : GeneratedType} (hholds : (Holder.component x.2.element.owner).Holds a name t) :
    ∃ t' m, step c.setting x a = (.ok (), a.put name t') ∧ t'.methods = t.methods ++ [m] ∧
      m.signature = x.2.element.signature := by
  obtain ⟨k, d⟩ := x
  obtain ⟨contribution, hleaves, -, hchanges⟩ :=
    StandardKind.exists_contribution haccepts.fits (StandardKind.of_overrides hover d).2.2
  obtain ⟨fields, m, rfl, hsig⟩ : ∃ fields m, contribution = .method fields m ∧
      ∀ t, (m t).signature = d.element.signature := by
    cases k
    case thread | transaction =>
      cases hleaves
      exact ⟨_, _, rfl, fun _ => d.element.signature_overriding⟩
    all_goals cases hover
  refine ⟨_, m t, hchanges.changed hholds rfl, ?_, hsig t⟩
  rw [GeneratedType.addMethod, (Contribution.name_addFields t fields).2]

/-- When a name carries two of the markers that override, the standard rules accept none of its
declarations under them. So each method of the host is overridden in at most one step, which adds one
method to its component. -/
theorem overriding_exclusive (batches : List (Marker × List RawDeclaration))
    (catalog : Option Catalog) (project : Project) : ∃ accepted,
    (Validator.validate Registry.standard.validators
      ⟨.extract batches, catalog, project⟩).result = .ok accepted ∧
    (∀ name, ∀ first ∈ Marker.overriding, ∀ second ∈ Marker.overriding, first ≠ second →
      (DeclarationModel.extract batches).isAnnotated name first = true →
      (DeclarationModel.extract batches).isAnnotated name second = true →
      ∀ marker ∈ Marker.overriding, accepted.isAnnotated name marker = false) ∧
    (∀ name, (accepted.overridesOf name).length ≤ 1) ∧
    ∀ name, ∀ x ∈ accepted.overridesOf name, ∀ a type t,
      (Holder.component x.2.element.owner).Holds a type t →
      ∃ t' m, step ⟨catalog, project⟩ x a = (.ok (), a.put type t') ∧
        t'.methods = t.methods ++ [m] ∧ m.signature = x.2.element.signature := by
  let c : ValidationContext := ⟨.extract batches, catalog, project⟩
  have hgrouped : c.extracted.Grouped := DeclarationModel.grouped_extract batches
  refine ⟨c.accepted, congrArg Reported.result c.validate_standard, ?_, ?_, ?_⟩
  · intro name first hfirst second hsecond hne hmarked hmarked' marker hmarker
    by_cases hsame : marker = first
    · rw [hsame]
      exact ValidationContext.isAnnotated_accepted_of_overriding hgrouped hfirst hsecond hne hmarked'
    · exact ValidationContext.isAnnotated_accepted_of_overriding hgrouped hmarker hfirst hsame hmarked
  · exact fun name => ValidationContext.length_overridesOf hgrouped
  · intro name x hx a type t hholds
    obtain ⟨hmem, hover, -⟩ := mem_overridesOf_iff.1 hx
    exact step_of_overrides (ValidationContext.accepts_of_mem hgrouped hmem) hover hholds

private def overriddenBatches : List (Marker × List RawDeclaration) :=
  let method (name : String) (type : Option String) (params : List Param) : RawDeclaration :=
    ⟨⟨.method, name, "a.Main", type, params, [], [], [], []⟩, .empty⟩
  [(.transactional, [method "load" (some "int") [⟨"db", "SQLiteDatabase"⟩]]),
    (ThreadKind.ui.marker, [method "load" (some "int") [⟨"db", "SQLiteDatabase"⟩]]),
    (ThreadKind.background.marker, [method "save" none []]),
    (.enhancedComponent, [⟨⟨.classType, "Main", "a", none, [], [], [], [], []⟩, .empty⟩])]

theorem overriding_exclusive_load : ∃ accepted,
    (Validator.validate Registry.standard.validators
      ⟨.extract overriddenBatches, none, .new "a"⟩).result = .ok accepted ∧
    (∀ marker ∈ Marker.overriding, accepted.isAnnotated "a.Main#load" marker = false) ∧
    (accepted.overridesOf "a.Main#save").map (fun x => x.1.marker) =
      [ThreadKind.background.marker] := by
  obtain ⟨accepted, haccepted, hexclusive, -, -⟩ :=
    overriding_exclusive overriddenBatches none (.new "a")
  refine ⟨accepted, haccepted, ?_, ?_⟩
  · exact hexclusive "a.Main#load" .transactional (by decide) ThreadKind.ui.marker (by decide)
      (by decide) (by decide) (by decide)
  · have hparts : (Validator.validate Registry.standard.validators
        ⟨.extract overriddenBatches, none, .new "a"⟩).result.toOption.map (fun m =>
          (m.overridesOf "a.Main#save").map fun x => x.1.marker) =
        some [ThreadKind.background.marker] := by decide +kernel
    rw [haccepted] at hparts
    exact Option.some.inj hparts

end ComponentGlue
