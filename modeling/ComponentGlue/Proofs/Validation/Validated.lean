import ComponentGlue.Proofs.Validation.Pruning
import ComponentGlue.Proofs.Validation.Walk

set_option autoImplicit false
set_option relaxedAutoImplicit false

namespace ComponentGlue

theorem DeclarationModel.Grouped.nodup_owners {m : DeclarationModel} (h : m.Grouped) :
    (m.all.map Declaration.asOwner).Nodup := by
  refine List.Nodup.of_map (fun o : Owner => (o.element, o.marker)) ?_
  rw [List.map_map]
  exact h.nodup_names

theorem DeclarationModel.Grouped.eq_of_asOwner_eq {m : DeclarationModel} (h : m.Grouped)
    {d e : Declaration} (hd : d ∈ m.all) (he : e ∈ m.all) (howner : d.asOwner = e.asOwner) : d = e :=
  List.inj_on_of_nodup_map h.nodup_owners hd he howner

theorem DeclarationModel.Grouped.mem_all_iff {m : DeclarationModel} (h : m.Grouped)
    {d : Declaration} : d ∈ m.all ↔ d ∈ m.declarations d.marker := by
  rw [← h.filter_all, List.mem_filter]
  simp

theorem Declaration.asOwner_eq_of_ref_eq {d e : Declaration} (h : d.ref = e.ref) :
    d.asOwner = e.asOwner :=
  congrArg₂ Owner.mk (congrArg DeclarationRef.element h) (congrArg DeclarationRef.marker h)

namespace Validator

variable {vs : List Validator} {c : ValidationContext}

theorem sublist_passing (vs : List Validator) (c : ValidationContext) (kind : Marker) :
    (passing vs c kind).Sublist (c.extracted.declarations kind) := by
  unfold passing
  split
  · exact List.filter_sublist
  · exact List.nil_sublist _

theorem mem_passing_iff {kind : Marker} {d : Declaration} :
    d ∈ passing vs c kind ↔ d ∈ c.extracted.declarations kind ∧ handles vs kind = true ∧
      ∀ v ∈ vs, v.kind = kind → v.accepts ⟨c, d⟩ = true := by
  unfold passing
  by_cases h : handles vs kind = true
  · simp [h, allAccept, mem_bound_iff]
  · simp [h]

def allPassing (vs : List Validator) (c : ValidationContext) : List Declaration :=
  c.extracted.kinds.flatMap (passing vs c)

theorem sublist_allPassing (vs : List Validator) (c : ValidationContext) :
    (allPassing vs c).Sublist c.extracted.all := by
  rw [DeclarationModel.all_eq_flatMap]
  exact List.Sublist.flatMap_right _ fun kind _ => sublist_passing vs c kind

def seen (vs : List Validator) (c : ValidationContext) (d : Declaration) : Candidate :=
  candidate c (bound vs d.marker) d

def accepted (vs : List Validator) (c : ValidationContext) : DeclarationModel :=
  .ofList ((pruned vs c).1.map Candidate.declaration)

theorem result_eq_accepted {m : DeclarationModel} (hm : (validate vs c).result = .ok m) :
    m = accepted vs c := by
  rw [validate_of_completes (exists_validate_iff.1 ⟨m, hm⟩)] at hm
  exact (Except.ok.inj hm).symm

theorem isAnnotated_accepted_iff {qualified : String} {marker : Marker} :
    (accepted vs c).isAnnotated qualified marker = true ↔
      (⟨qualified, marker⟩ : Owner) ∈ Candidate.present (pruned vs c).1 := by
  unfold accepted Candidate.present
  rw [DeclarationModel.isAnnotated_ofList_iff, List.mem_map]
  constructor
  · rintro ⟨d, hd, hmarker, hname⟩
    obtain ⟨x, hx, rfl⟩ := List.mem_map.1 hd
    exact ⟨x, hx, by rw [Declaration.asOwner, hmarker, hname]⟩
  · rintro ⟨x, hx, howner⟩
    refine ⟨x.declaration, List.mem_map_of_mem hx, ?_, ?_⟩
    · exact congrArg Owner.marker howner
    · exact congrArg Owner.element howner

theorem phase_of_mem_report {step : Step} {w : Diagnostic} (hw : w ∈ step.report c) :
    w.phase = validationPhase := by
  cases step with
  | ignore kind => exact List.mem_singleton.1 hw ▸ rfl
  | refuse d => exact List.mem_singleton.1 hw ▸ rfl
  | check v d => exact (Findings.of_mem_diagnostics hw).1

theorem phase_of_mem_validate {w : Diagnostic} (hw : w ∈ (validate vs c).diagnostics) :
    w.phase = validationPhase := by
  rw [validate_eq] at hw
  rcases Reported.mem_diagnostics_bind hw with hw | ⟨-, hw⟩
  · obtain ⟨step, -, hw⟩ := exists_mem_report_of_mem_walk hw
    exact phase_of_mem_report hw
  · obtain ⟨reasons, -, hwarnings, -⟩ :=
      Candidate.exists_reasons_prune (handles vs) (passed vs c)
    have hw' : w ∈ reasons.map fun r => r.1.dropWarning r.2 := hwarnings ▸ hw
    obtain ⟨r, -, rfl⟩ := List.mem_map.1 hw'
    rfl

section Grouped

variable (hgrouped : c.extracted.Grouped)
include hgrouped

theorem mem_allPassing_iff {d : Declaration} :
    d ∈ allPassing vs c ↔ d ∈ c.extracted.declarations d.marker ∧ handles vs d.marker = true ∧
      ∀ v ∈ vs, v.kind = d.marker → v.accepts ⟨c, d⟩ = true := by
  rw [← mem_passing_iff, allPassing, List.mem_flatMap]
  constructor
  · rintro ⟨kind, -, hd⟩
    have hmarker := hgrouped.marker_eq kind d ((sublist_passing vs c kind).subset hd)
    rwa [hmarker]
  · intro hd
    exact ⟨d.marker, DeclarationModel.mem_kinds_of_mem ((sublist_passing ..).subset hd), hd⟩

theorem passed_eq_map (vs : List Validator) : passed vs c = (allPassing vs c).map (seen vs c) := by
  rw [passed, allPassing, List.map_flatMap]
  refine List.flatMap_congr fun kind _ => List.map_congr_left fun d hd => ?_
  rw [seen, hgrouped.marker_eq kind d ((sublist_passing vs c kind).subset hd)]

theorem seen_mem_passed_iff {d : Declaration} :
    seen vs c d ∈ passed vs c ↔ d ∈ allPassing vs c := by
  rw [passed_eq_map hgrouped]
  exact List.mem_map_of_injective fun _ _ h => congrArg Candidate.declaration h

theorem mem_allPassing_of_kept {d : Declaration} (h : seen vs c d ∈ (pruned vs c).1) :
    d ∈ allPassing vs c :=
  (seen_mem_passed_iff hgrouped).1 ((Candidate.sublist_prune _ _).subset h)

theorem seen_eq_of_mem_pruned {x : Candidate} (hx : x ∈ (pruned vs c).1) :
    seen vs c x.declaration = x := by
  have hpassed := (Candidate.sublist_prune (handles vs) (passed vs c)).subset hx
  rw [passed_eq_map hgrouped] at hpassed
  obtain ⟨d, -, rfl⟩ := List.mem_map.1 hpassed
  rfl

theorem nodup_present_passed (vs : List Validator) : (Candidate.present (passed vs c)).Nodup := by
  rw [passed_eq_map hgrouped, Candidate.present, List.map_map]
  exact hgrouped.nodup_owners.sublist ((sublist_allPassing vs c).map Declaration.asOwner)

theorem mem_accepted_iff {kind : Marker} {d : Declaration} :
    d ∈ (accepted vs c).declarations kind ↔ seen vs c d ∈ (pruned vs c).1 ∧ d.marker = kind := by
  rw [accepted, DeclarationModel.mem_declarations_ofList, List.mem_map]
  refine and_congr_left fun _ => ⟨?_, fun hd => ⟨_, hd, rfl⟩⟩
  rintro ⟨x, hx, rfl⟩
  rwa [seen_eq_of_mem_pruned hgrouped hx]

theorem sublist_accepted (vs : List Validator) (kind : Marker) :
    ((accepted vs c).declarations kind).Sublist (c.extracted.declarations kind) := by
  have hpassing : ((pruned vs c).1.map Candidate.declaration).Sublist (allPassing vs c) := by
    have hpruned := (Candidate.sublist_prune (handles vs) (passed vs c)).map Candidate.declaration
    have hdeclarations : (passed vs c).map Candidate.declaration = allPassing vs c := by
      rw [passed_eq_map hgrouped, List.map_map]
      exact List.map_id _
    rwa [hdeclarations] at hpruned
  rw [accepted, DeclarationModel.declarations_ofList, ← hgrouped.filter_all]
  exact (hpassing.trans (sublist_allPassing vs c)).filter _

theorem grouped_accepted (vs : List Validator) : (accepted vs c).Grouped := by
  constructor
  · intro kind d hd
    exact hgrouped.marker_eq kind d ((sublist_accepted hgrouped vs kind).subset hd)
  · intro kind
    exact (hgrouped.distinct kind).sublist ((sublist_accepted hgrouped vs kind).map _)

/-- The declarations that pass the checks are those that are left and those that pruning warns about,
once about each one, with the owner that is missing. -/
theorem exists_drops (vs : List Validator) : ∃ drops : List (Declaration × Owner),
    (pruned vs c).2 = (drops.map fun r => (seen vs c r.1).dropWarning r.2) ∧
    (drops.map fun r => r.1.asOwner).Nodup ∧
    (∀ d, d ∈ drops.map Prod.fst ↔ d ∈ allPassing vs c ∧ seen vs c d ∉ (pruned vs c).1) ∧
    ∀ r ∈ drops, r.2 ∈ (seen vs c r.1).owners ∧ r.2 ∉ Candidate.present (pruned vs c).1 := by
  obtain ⟨reasons, hperm, hwarnings, hreasons⟩ :=
    Candidate.exists_reasons_prune (handles vs) (passed vs c)
  have hseen : ∀ r ∈ reasons, seen vs c r.1.declaration = r.1 := by
    intro r hr
    have hmem := hperm.subset (List.mem_append_right _ (List.mem_map_of_mem hr))
    rw [passed_eq_map hgrouped] at hmem
    obtain ⟨d, -, hd⟩ := List.mem_map.1 hmem
    rw [← hd]
    rfl
  -- What is kept and what is dropped are together a permutation of what passed, without repeats.
  have hnodup := nodup_present_passed hgrouped vs
  rw [Candidate.present, ← (hperm.map _).nodup_iff, List.map_append, List.map_map,
    List.nodup_append] at hnodup
  refine ⟨reasons.map fun r => (r.1.declaration, r.2), ?_, ?_, fun d => ⟨?_, ?_⟩, ?_⟩
  · rw [pruned, hwarnings, List.map_map]
    refine List.map_congr_left fun r hr => ?_
    rw [Function.comp_apply, hseen r hr]
  · rw [List.map_map]
    exact hnodup.2.1
  · intro hd
    rw [List.map_map] at hd
    obtain ⟨r, hr, rfl⟩ := List.mem_map.1 hd
    rw [Function.comp_apply, ← seen_mem_passed_iff hgrouped, hseen r hr]
    refine ⟨hperm.subset (List.mem_append_right _ (List.mem_map_of_mem hr)), fun hkept => ?_⟩
    exact hnodup.2.2 _ (List.mem_map_of_mem hkept) _ (List.mem_map_of_mem hr) rfl
  · rintro ⟨hpassing, hdropped⟩
    have hmem := hperm.symm.subset ((seen_mem_passed_iff hgrouped).2 hpassing)
    rcases List.mem_append.1 hmem with hkept | hmem
    · exact absurd hkept hdropped
    · obtain ⟨r, hr, hrd⟩ := List.mem_map.1 hmem
      rw [List.map_map]
      exact List.mem_map.2 ⟨r, hr, congrArg Candidate.declaration hrd⟩
  · intro drop hdrop
    obtain ⟨r, hr, rfl⟩ := List.mem_map.1 hdrop
    rw [hseen r hr]
    exact ⟨(hreasons r hr).1, (hreasons r hr).2.2⟩

theorem nodup_locations_pruned (vs : List Validator) :
    ((pruned vs c).2.map Diagnostic.location).Nodup := by
  obtain ⟨drops, hwarnings, hnodup, -, -⟩ := exists_drops hgrouped vs
  -- The owner that a declaration is can be read off a warning's location.
  refine List.Nodup.of_map (Option.map fun r : DeclarationRef => Owner.mk r.element r.marker) ?_
  rw [hwarnings, List.map_map, List.map_map]
  have hsome := hnodup.map fun _ _ => Option.some.inj
  rwa [List.map_map] at hsome

theorem exists_filter_pruned_snd {d : Declaration} (hpassing : d ∈ allPassing vs c)
    (hdropped : seen vs c d ∉ (pruned vs c).1) :
    ∃ owner ∈ (seen vs c d).owners, owner ∉ Candidate.present (pruned vs c).1 ∧
      ((pruned vs c).2.filter fun w => w.location = some d.ref) =
        [(seen vs c d).dropWarning owner] := by
  obtain ⟨drops, hwarnings, -, hdrops, howners⟩ := exists_drops hgrouped vs
  obtain ⟨r, hr, rfl⟩ := List.mem_map.1 ((hdrops d).2 ⟨hpassing, hdropped⟩)
  have hmem : (seen vs c r.1).dropWarning r.2 ∈ (pruned vs c).2 := by
    rw [hwarnings]
    exact List.mem_map_of_mem hr
  refine ⟨r.2, (howners r hr).1, (howners r hr).2, ?_⟩
  exact filter_eq_singleton (nodup_locations_pruned hgrouped vs) hmem (decide_eq_true rfl)
    fun w hw => of_decide_eq_true hw

theorem filter_pruned_snd_eq_nil {d : Declaration} (hd : d ∈ c.extracted.all)
    (h : ¬ (d ∈ allPassing vs c ∧ seen vs c d ∉ (pruned vs c).1)) :
    ((pruned vs c).2.filter fun w => w.location = some d.ref) = [] := by
  obtain ⟨drops, hwarnings, -, hdrops, -⟩ := exists_drops hgrouped vs
  rw [List.filter_eq_nil_iff, hwarnings]
  intro w hw hlocation
  obtain ⟨r, hr, rfl⟩ := List.mem_map.1 hw
  have hdropped := (hdrops r.1).1 (List.mem_map_of_mem hr)
  have hsame : r.1 = d := by
    refine hgrouped.eq_of_asOwner_eq ((sublist_allPassing vs c).subset hdropped.1) hd ?_
    exact Declaration.asOwner_eq_of_ref_eq (Option.some.inj (of_decide_eq_true hlocation))
  exact h (hsame ▸ hdropped)

end Grouped

end Validator

end ComponentGlue
