import ComponentGlue.Proofs.Validation.Accepted

set_option autoImplicit false
set_option relaxedAutoImplicit false

namespace ComponentGlue

namespace DeclarationModel

/-- Models that differ in the order of their kinds only. -/
structure Reordered (m m' : DeclarationModel) : Prop where
  declarations : m.declarations = m'.declarations
  kinds : m.kinds.Perm m'.kinds

theorem Reordered.grouped {m m' : DeclarationModel} (h : m.Reordered m') (hgrouped : m.Grouped) :
    m'.Grouped :=
  ⟨h.declarations ▸ hgrouped.marker_eq, h.declarations ▸ hgrouped.distinct⟩

theorem mem_kinds_addBatch_iff {m : DeclarationModel} {kind kind' : Marker}
    {raw : List RawDeclaration} : kind' ∈ (m.addBatch kind raw).kinds ↔ kind' ∈ m.kinds ∨ kind' = kind := by
  rw [kinds, addBatch, Table.keys_insert]
  split
  · next hold => exact ⟨Or.inl, fun h => h.elim id fun heq => heq ▸ hold⟩
  · rw [List.mem_append, List.mem_singleton]
    rfl

theorem mem_kinds_extract_iff {batches : List (Marker × List RawDeclaration)} {kind : Marker} :
    kind ∈ (extract batches).kinds ↔ kind ∈ batches.map Prod.fst := by
  have hfold : ∀ m : DeclarationModel,
      kind ∈ (batches.foldl (fun m b => m.addBatch b.1 b.2) m).kinds ↔
        kind ∈ m.kinds ∨ kind ∈ batches.map Prod.fst := by
    induction batches with
    | nil => simp
    | cons b batches ih =>
      intro m
      rw [List.foldl_cons, ih, mem_kinds_addBatch_iff, List.map_cons, List.mem_cons, or_assoc]
  exact (hfold empty).trans (or_iff_right List.not_mem_nil)

/-- Batches of one kind are given alike in any order, when they are the same. -/
theorem givenFor_eq_of_perm {batches batches' : List (Marker × List RawDeclaration)}
    (h : batches.Perm batches') (hsame : ∀ b ∈ batches, ∀ b' ∈ batches, b.1 = b'.1 → b = b')
    (marker : Marker) : givenFor batches marker = givenFor batches' marker := by
  have hfilter : ∀ bs : List (Marker × List RawDeclaration),
      givenFor bs marker = (bs.filter fun b => b.1 = marker).flatMap Prod.snd := by
    intro bs
    induction bs with
    | nil => rfl
    | cons b bs ih =>
      rw [givenFor, List.flatMap_cons, ← givenFor, ih]
      by_cases hb : b.1 = marker <;> simp [hb]
  rw [hfilter, hfilter]
  congr 1
  have hperm := h.filter fun b => decide (b.1 = marker)
  cases hfirst : batches.filter fun b => decide (b.1 = marker) with
  | nil => rw [hfirst] at hperm; exact hperm.nil_eq
  | cons b rest =>
    -- All batches of the marker are the first one again.
    have hmem : ∀ b' ∈ batches.filter fun b => decide (b.1 = marker),
        b' ∈ batches ∧ b'.1 = marker := fun b' hb' =>
      ⟨(List.mem_filter.1 hb').1, of_decide_eq_true (List.mem_filter.1 hb').2⟩
    obtain ⟨hb, hbmarker⟩ := hmem b (hfirst ▸ List.mem_cons_self)
    have hall : batches.filter (fun b => decide (b.1 = marker)) =
        List.replicate (batches.filter fun b => decide (b.1 = marker)).length b :=
      List.eq_replicate_iff.2 ⟨rfl, fun b' hb' =>
        hsame b' (hmem b' hb').1 b hb ((hmem b' hb').2.trans hbmarker.symm)⟩
    rw [hall] at hperm
    rw [← hfirst, hall]
    exact (List.perm_replicate.1 hperm.symm).symm

theorem reordered_extract {batches batches' : List (Marker × List RawDeclaration)}
    (h : batches.Perm batches') (hsame : ∀ b ∈ batches, ∀ b' ∈ batches, b.1 = b'.1 → b = b') :
    (extract batches).Reordered (extract batches') where
  declarations := by
    funext marker
    rw [declarations_extract, declarations_extract, givenFor_eq_of_perm h hsame]
  kinds := by
    refine (List.perm_ext_iff_of_nodup (Table.nodup _) (Table.nodup _)).2 fun kind => ?_
    exact mem_kinds_extract_iff.trans
      ((h.map Prod.fst).mem_iff.trans mem_kinds_extract_iff.symm)

end DeclarationModel

namespace Candidate

variable {cs ds : List Candidate}

theorem missingOwner?_eq_of_perm (handled : Marker → Bool) {owners owners' : List Owner}
    (h : owners.Perm owners') (c : Candidate) :
    c.missingOwner? handled owners = c.missingOwner? handled owners' := by
  have hcontains : ∀ owner, owners.contains owner = owners'.contains owner := fun owner => by
    rw [Bool.eq_iff_iff, List.contains_iff_mem, List.contains_iff_mem, h.mem_iff]
  simp only [missingOwner?, hcontains]

theorem present_perm (h : cs.Perm ds) : (present cs).Perm (present ds) := h.map _

theorem prunePass_perm (handled : Marker → Bool) (h : cs.Perm ds) :
    (prunePass handled (present cs) cs).1.Perm (prunePass handled (present ds) ds).1 ∧
      (prunePass handled (present cs) cs).2.Perm (prunePass handled (present ds) ds).2 := by
  have hmissing := missingOwner?_eq_of_perm handled (present_perm h)
  simp only [prunePass_fst, prunePass_snd, dropped, hmissing]
  exact ⟨h.filter _, (h.filterMap _).map _⟩

theorem prune_perm (handled : Marker → Bool) (h : cs.Perm ds) :
    (prune handled cs).1.Perm (prune handled ds).1 ∧
      (prune handled cs).2.Perm (prune handled ds).2 := by
  -- The induction is on the passes over the first candidates; the passes over the second are as many.
  induction cs using prune.induct handled generalizing ds with
  | case1 cs hlt ih =>
    obtain ⟨hkept, hwarnings⟩ := prunePass_perm handled h
    have hlt' : (prunePass handled (present ds) ds).1.length < ds.length := by
      rwa [← hkept.length_eq, ← h.length_eq]
    obtain ⟨hrest, hrestWarnings⟩ := ih hkept
    rw [prune_of_lt hlt, prune_of_lt hlt']
    exact ⟨hrest, hwarnings.append hrestWarnings⟩
  | case2 cs hlt =>
    have hlt' : ¬ (prunePass handled (present ds) ds).1.length < ds.length := by
      rwa [← (prunePass_perm handled h).1.length_eq, ← h.length_eq]
    rw [prune_of_not_lt hlt, prune_of_not_lt hlt']
    exact ⟨h, List.Perm.refl _⟩

end Candidate

section Checks

variable {extracted extracted' : DeclarationModel}
  (h : extracted.declarations = extracted'.declarations)
include h

theorem DeclarationModel.isAnnotated_congr : extracted.isAnnotated = extracted'.isAnnotated := by
  funext qualified kind
  rw [isAnnotated, isAnnotated, h]

variable (catalog : Option Catalog) (project : Project) (d : Declaration)

theorem Subject.enclosedBy_congr (kind : Marker) :
    enclosedBy ⟨⟨extracted, catalog, project⟩, d⟩ kind =
      enclosedBy ⟨⟨extracted', catalog, project⟩, d⟩ kind := by
  simp only [enclosedBy, DeclarationModel.isAnnotated_congr h]
  rfl

theorem Subject.alsoMarked_congr (kind : Marker) :
    alsoMarked ⟨⟨extracted, catalog, project⟩, d⟩ kind =
      alsoMarked ⟨⟨extracted', catalog, project⟩, d⟩ kind := by
  simp only [alsoMarked, DeclarationModel.isAnnotated_congr h]
  rfl

theorem Subject.notCombinedWith_congr (other : Marker) :
    notCombinedWith ⟨⟨extracted, catalog, project⟩, d⟩ other =
      notCombinedWith ⟨⟨extracted', catalog, project⟩, d⟩ other := by
  simp only [notCombinedWith, DeclarationModel.isAnnotated_congr h]
  rfl

theorem Subject.componentMember_congr (kind : ElementKind) :
    componentMember ⟨⟨extracted, catalog, project⟩, d⟩ kind =
      componentMember ⟨⟨extracted', catalog, project⟩, d⟩ kind := by
  simp only [componentMember, enclosedBy_congr h]
  rfl

open Subject in
/-- A check sees the extracted declarations kind by kind. -/
theorem StandardKind.check_congr (k : StandardKind) :
    k.rule.check ⟨⟨extracted, catalog, project⟩, d⟩ =
      k.rule.check ⟨⟨extracted', catalog, project⟩, d⟩ := by
  cases k
  -- These two ask nothing of the model; the others ask for declarations, which are the same by `h`.
  case component | preferenceHelper => rfl
  case restClient =>
    simp only [rule, RestClient.rule, RestClient.check, RestClient.isRequest,
      DeclarationModel.isAnnotated_congr h]
    rfl
  case boundView =>
    simp only [rule, BoundView.rule, BoundView.check, componentMember_congr h]
    rfl
  case htmlText =>
    simp only [rule, HtmlText.rule, HtmlText.check, componentMember_congr h, alsoMarked_congr h]
    rfl
  case preferenceField =>
    simp only [rule, PreferenceField.rule, PreferenceField.check, componentMember_congr h,
      PreferenceField.helperOrigin?, h]
    rfl
  case optionsMenu =>
    simp only [rule, OptionsMenu.rule, OptionsMenu.check, alsoMarked_congr h]
    rfl
  case optionsItem =>
    simp only [rule, OptionsItem.rule, OptionsItem.check, componentMember_congr h]
    rfl
  case resourceField k =>
    simp only [rule, ResourceKind.rule, ResourceKind.check, componentMember_congr h]
    rfl
  case listener k =>
    simp only [rule, ListenerKind.rule, ListenerKind.check, componentMember_congr h]
    rfl
  case thread k =>
    simp only [rule, ThreadKind.rule, ThreadKind.check, componentMember_congr h,
      notCombinedWith_congr h]
    rfl
  case extra =>
    simp only [rule, Extra.rule, Extra.check, componentMember_congr h]
    rfl
  case systemService =>
    simp only [rule, SystemService.rule, SystemService.check, componentMember_congr h]
    rfl
  case lifecycle =>
    simp only [rule, LifecycleHook.rule, LifecycleHook.check, componentMember_congr h]
    rfl
  case transaction =>
    simp only [rule, Transaction.rule, Transaction.check, componentMember_congr h,
      notCombinedWith_congr h]
    rfl
  case applicationField =>
    simp only [rule, ApplicationField.rule, ApplicationField.check, componentMember_congr h]
    rfl
  case request http =>
    simp only [rule, HttpMethod.rule, HttpMethod.check, enclosedBy_congr h]
    rfl

end Checks

namespace ValidationContext

/-- Contexts that differ in the order of the extracted kinds only. -/
structure Reordered (c c' : ValidationContext) : Prop where
  extracted : c.extracted.Reordered c'.extracted
  catalog : c.catalog = c'.catalog
  project : c.project = c'.project

namespace Reordered

variable {c c' : ValidationContext} (h : c.Reordered c')
include h

theorem check_eq (k : StandardKind) (d : Declaration) :
    k.rule.check ⟨c, d⟩ = k.rule.check ⟨c', d⟩ := by
  obtain ⟨extracted, catalog, project⟩ := c
  obtain ⟨extracted', catalog', project'⟩ := c'
  obtain rfl : catalog = catalog' := h.catalog
  obtain rfl : project = project' := h.project
  exact k.check_congr h.extracted.declarations catalog project d

theorem blocked_eq (r : Rule) : r.blocked c = r.blocked c' := by
  rw [Rule.blocked, Rule.blocked, h.catalog]

theorem candidatesOf_eq (marker : Marker) : c.candidatesOf marker = c'.candidatesOf marker := by
  unfold candidatesOf
  split
  · rfl
  · simp only [Rule.candidates, Rule.accepts, Rule.owners, h.check_eq, h.blocked_eq,
      h.extracted.declarations]

theorem reportOf_eq (marker : Marker) : c.reportOf marker = c'.reportOf marker := by
  unfold reportOf
  split
  · rw [h.extracted.declarations]
  · simp only [Rule.report, h.check_eq, h.blocked_eq, h.extracted.declarations]

theorem candidates_perm : c.candidates.Perm c'.candidates := by
  rw [candidates, candidates, funext h.candidatesOf_eq]
  exact h.extracted.kinds.flatMap_right _

theorem pruned_perm : c.pruned.1.Perm c'.pruned.1 ∧ c.pruned.2.Perm c'.pruned.2 :=
  Candidate.prune_perm _ h.candidates_perm

theorem accepted_eq (hgrouped : c.extracted.Grouped) :
    c.accepted.declarations = c'.accepted.declarations := by
  funext marker
  have hsublist := c'.sublist_accepted (h.extracted.grouped hgrouped) marker
  rw [← h.extracted.declarations] at hsublist
  refine eq_of_sublist (c.sublist_accepted hgrouped marker) hsublist
    (List.Nodup.of_map _ (hgrouped.distinct marker)) fun d => ?_
  simp only [accepted, DeclarationModel.mem_declarations_ofList, (h.pruned_perm.1.map _).mem_iff]

theorem diagnostics_perm :
    (Validator.validate Registry.standard.validators c).diagnostics.Perm
      (Validator.validate Registry.standard.validators c').diagnostics := by
  rw [validate_standard, validate_standard, funext h.reportOf_eq]
  exact (h.extracted.kinds.flatMap_right _).append h.pruned_perm.2

end Reordered

end ValidationContext

theorem Processor.generate_congr {validated validated' : DeclarationModel}
    (h : validated.declarations = validated'.declarations) (ps : List Processor)
    (setting : Setting) : generate ps validated setting = generate ps validated' setting := by
  have hruns : runAll validated setting ps = runAll validated' setting ps := by
    induction ps with
    | nil => rfl
    | cons p ps ih => rw [runAll, runAll, h, ih]
  rw [generate, generate, hruns]

end ComponentGlue
