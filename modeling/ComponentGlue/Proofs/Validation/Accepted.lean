import ComponentGlue.Proofs.Rule.Kind
import ComponentGlue.Proofs.Table
import ComponentGlue.Proofs.Validation.Fate
import ComponentGlue.Proofs.Validation.Walk

set_option autoImplicit false
set_option relaxedAutoImplicit false

namespace ComponentGlue

namespace Rule

def blocked (r : Rule) (c : ValidationContext) : Bool := r.requiresCatalog && c.catalog.isNone

def accepts (r : Rule) (s : Subject) : Bool :=
  !r.blocked s.context && !(r.check s).findings.rejects

def owners (r : Rule) (s : Subject) : List Owner :=
  if r.blocked s.context then [] else (r.check s).findings.owners

def report (r : Rule) (s : Subject) : List Diagnostic :=
  if r.blocked s.context then
    [(Diagnostic.error validationPhase
      s!"cannot validate {s.declaration.marker}: resource catalog unavailable").about s.declaration]
  else (r.check s).findings.diagnostics s.declaration

def candidates (r : Rule) (c : ValidationContext) (ds : List Declaration) : List Candidate :=
  (ds.filter fun d => r.accepts ⟨c, d⟩).map fun d => ⟨d, r.owners ⟨c, d⟩⟩

theorem map_candidate_validator (r : Rule) (c : ValidationContext) (ds : List Declaration) :
    (ds.filter fun d => Validator.allAccept [r.validator] ⟨c, d⟩).map
      (Validator.candidate c [r.validator]) = r.candidates c ds := by
  have haccepts : ∀ d, Validator.allAccept [r.validator] ⟨c, d⟩ = r.accepts ⟨c, d⟩ :=
    fun d => Bool.and_true _
  have howners : ∀ d, Validator.candidate c [r.validator] d = ⟨d, r.owners ⟨c, d⟩⟩ :=
    fun d => congrArg (Candidate.mk d) (List.append_nil _)
  simp only [candidates, haccepts]
  exact List.map_congr_left fun d _ => howners d

theorem report_stepsAt_validator (r : Rule) (c : ValidationContext) (d : Declaration) :
    (Validator.stepsAt c [r.validator] d).flatMap (Validator.Step.report c) = r.report ⟨c, d⟩ := by
  have hblocked : r.validator.blocked c = r.blocked c := rfl
  unfold Validator.stepsAt Validator.turn report
  rw [List.map_cons, List.map_nil, List.flatMap_singleton, hblocked]
  cases r.blocked c with
  | true => rfl
  | false => rfl

end Rule

namespace StandardKind

def ofMarker? (marker : Marker) : Option StandardKind := all.find? fun k => k.marker = marker

theorem ofMarker?_marker (k : StandardKind) : ofMarker? k.marker = some k := by
  have hsome : (ofMarker? k.marker).isSome = true :=
    List.find?_isSome.2 ⟨k, mem_all k, by simp⟩
  obtain ⟨l, hl⟩ := Option.isSome_iff_exists.1 hsome
  have hmarker : l.marker = k.marker := by simpa using List.find?_some hl
  rw [hl, marker_injective hmarker]

theorem marker_of_ofMarker? {marker : Marker} {k : StandardKind}
    (h : ofMarker? marker = some k) : k.marker = marker := by
  simpa using List.find?_some h

theorem validators_eq : Registry.standard.validators = all.map fun k => k.rule.validator := by
  show standardRules.map Rule.validator = _
  rw [standardRules_eq, List.map_map]
  rfl

theorem handles_iff {marker : Marker} :
    Validator.handles Registry.standard.validators marker = true ↔
      ∃ k : StandardKind, k.marker = marker := by
  rw [Validator.handles, validators_eq, List.any_map, List.any_eq_true]
  constructor
  · rintro ⟨k, -, hk⟩
    exact ⟨k, of_decide_eq_true hk⟩
  · rintro ⟨k, hk⟩
    exact ⟨k, mem_all k, decide_eq_true hk⟩

theorem filter_validators (k : StandardKind) :
    (Registry.standard.validators.filter fun v => v.kind = k.marker) = [k.rule.validator] := by
  rw [validators_eq, List.filter_map]
  have honly : all.filter ((fun v : Validator => decide (v.kind = k.marker)) ∘
      fun k => k.rule.validator) = [k] :=
    filter_eq_singleton nodup_markers (mem_all k) (decide_eq_true rfl)
      fun l hl => of_decide_eq_true hl
  rw [honly]
  rfl

end StandardKind

namespace ValidationContext

open StandardKind (ofMarker?)

/-- The candidates of one marker. -/
def candidatesOf (c : ValidationContext) (marker : Marker) : List Candidate :=
  match ofMarker? marker with
  | none => []
  | some k => k.rule.candidates c (c.extracted.declarations marker)

/-- What checking the declarations of one marker reports. -/
def reportOf (c : ValidationContext) (marker : Marker) : List Diagnostic :=
  match ofMarker? marker with
  | none =>
    [Diagnostic.warning validationPhase <|
      let count := (c.extracted.declarations marker).length
      s!"{count} declaration(s) marked {marker} ignored: no validator is registered for this kind"]
  | some k => (c.extracted.declarations marker).flatMap fun d => k.rule.report ⟨c, d⟩

def candidates (c : ValidationContext) : List Candidate :=
  c.extracted.kinds.flatMap c.candidatesOf

def pruned (c : ValidationContext) : List Candidate × List Diagnostic :=
  Candidate.prune (Validator.handles Registry.standard.validators) c.candidates

def accepted (c : ValidationContext) : DeclarationModel :=
  .ofList (c.pruned.1.map Candidate.declaration)

theorem bound_standard (marker : Marker) :
    (ofMarker? marker = none ∧
      Validator.handles Registry.standard.validators marker = false) ∨
    ∃ k, ofMarker? marker = some k ∧
      Validator.handles Registry.standard.validators marker = true ∧
      Validator.bound Registry.standard.validators marker = [k.rule.validator] := by
  cases h : ofMarker? marker with
  | none =>
    refine Or.inl ⟨rfl, ?_⟩
    rw [← Bool.not_eq_true, StandardKind.handles_iff]
    rintro ⟨k, rfl⟩
    rw [StandardKind.ofMarker?_marker] at h
    exact absurd h (by simp)
  | some k =>
    obtain rfl := StandardKind.marker_of_ofMarker? h
    exact Or.inr ⟨k, rfl, StandardKind.handles_iff.2 ⟨k, rfl⟩, StandardKind.filter_validators k⟩

theorem passed_standard (c : ValidationContext) :
    Validator.passed Registry.standard.validators c = c.candidates := by
  refine List.flatMap_congr fun marker _ => ?_
  unfold Validator.passing candidatesOf
  rcases bound_standard marker with ⟨hnone, hhandles⟩ | ⟨k, hk, hhandles, hbound⟩
  · rw [hnone, hhandles]
    rfl
  · rw [hk, hhandles, hbound, if_pos rfl]
    exact k.rule.map_candidate_validator c _

theorem report_steps_standard (c : ValidationContext) :
    (Validator.steps Registry.standard.validators c).flatMap (Validator.Step.report c) =
      c.extracted.kinds.flatMap c.reportOf := by
  unfold Validator.steps
  rw [List.flatMap_assoc]
  refine List.flatMap_congr fun marker _ => ?_
  unfold Validator.stepsOfKind reportOf
  rcases bound_standard marker with ⟨hnone, hhandles⟩ | ⟨k, hk, hhandles, hbound⟩
  · rw [hnone, hhandles]
    rfl
  · rw [hk, hhandles, hbound, if_pos rfl, List.flatMap_assoc]
    exact List.flatMap_congr fun d _ => k.rule.report_stepsAt_validator c d

theorem completes_standard (c : ValidationContext) :
    ∀ step ∈ Validator.steps Registry.standard.validators c, step.interruption? c = none := by
  intro step hstep
  rcases Validator.mem_steps_iff.1 hstep with ⟨kind, -, -, rfl⟩ | ⟨v, hv, d, -, rfl⟩
  · rfl
  · rw [StandardKind.validators_eq] at hv
    obtain ⟨k, -, rfl⟩ := List.mem_map.1 hv
    rw [Validator.interruption?_turn]
    exact ite_self none

theorem validate_standard (c : ValidationContext) :
    Validator.validate Registry.standard.validators c =
      ⟨c.extracted.kinds.flatMap c.reportOf ++ c.pruned.2, .ok c.accepted⟩ := by
  rw [Validator.validate_of_completes c.completes_standard, report_steps_standard,
    Validator.pruned, passed_standard]
  rfl

end ValidationContext

namespace StandardKind

/-- The declaration can be checked for this kind and passes. -/
structure Fits (k : StandardKind) (c : ValidationContext) (d : Declaration) : Prop where
  unblocked : k.rule.blocked c = false
  met : (k.requirement ⟨c, d⟩).Met (k.rule.resources d) ⟨c, d⟩

theorem findings_of_fits {k : StandardKind} {c : ValidationContext} {d : Declaration}
    (h : k.Fits c d) : (k.rule.check ⟨c, d⟩).findings =
      (k.requirement ⟨c, d⟩).findings (k.rule.resources d) :=
  (k.demands ⟨c, d⟩).findings_eq h.met

theorem accepts_iff {k : StandardKind} {c : ValidationContext} {d : Declaration} :
    k.rule.accepts ⟨c, d⟩ = true ↔ k.Fits c d := by
  unfold Rule.accepts
  rw [Bool.and_eq_true, Bool.not_eq_true', Bool.not_eq_true', (k.demands ⟨c, d⟩).accepts_iff]
  exact ⟨fun h => ⟨h.1, h.2⟩, fun h => ⟨h.unblocked, h.met⟩⟩

theorem mem_owners_iff {k : StandardKind} {c : ValidationContext} {d : Declaration}
    (h : k.Fits c d) {owner : Owner} :
    owner ∈ k.rule.owners ⟨c, d⟩ ↔ owner ∈ (k.requirement ⟨c, d⟩).needs := by
  unfold Rule.owners
  rw [if_neg (by simp [h.unblocked]), findings_of_fits h, Requirement.mem_owners_findings]

theorem report_of_fits {k : StandardKind} {c : ValidationContext} {d : Declaration}
    (h : k.Fits c d) : k.rule.report ⟨c, d⟩ = (k.requirement ⟨c, d⟩).warnings.map fun message =>
      (Diagnostic.warning validationPhase message).about d := by
  unfold Rule.report
  rw [if_neg (by simp [h.unblocked]), findings_of_fits h, Requirement.diagnostics_findings]

theorem marker_of_mem_needs {k : StandardKind} {s : Subject} {owner : Owner}
    (h : owner ∈ (k.requirement s).needs) :
    owner.marker ∈ [Marker.enhancedComponent, .bindsView, .sharedPref, .rest] := by
  cases k
  case component | preferenceHelper | restClient => exact absurd h List.not_mem_nil
  case htmlText =>
    rcases List.mem_cons.1 h with rfl | h
    · exact List.mem_cons_self
    · obtain rfl := List.mem_singleton.1 h
      simp
  case preferenceField =>
    rcases List.mem_cons.1 h with rfl | h
    · exact List.mem_cons_self
    · obtain ⟨origin, -, rfl⟩ := List.mem_map.1 h
      simp
  case request =>
    obtain rfl := List.mem_singleton.1 h
    simp
  all_goals
    obtain rfl := List.mem_singleton.1 h
    exact List.mem_cons_self

theorem handles_of_mem_needs {k : StandardKind} {s : Subject} {owner : Owner}
    (h : owner ∈ (k.requirement s).needs) :
    Validator.handles Registry.standard.validators owner.marker = true := by
  have hmarker := marker_of_mem_needs h
  simp only [List.mem_cons, List.not_mem_nil, or_false] at hmarker
  rcases hmarker with hm | hm | hm | hm
  · exact handles_iff.2 ⟨.component, hm.symm⟩
  · exact handles_iff.2 ⟨.boundView, hm.symm⟩
  · exact handles_iff.2 ⟨.preferenceHelper, hm.symm⟩
  · exact handles_iff.2 ⟨.restClient, hm.symm⟩

end StandardKind

namespace ValidationContext

theorem mem_candidatesOf_iff {c : ValidationContext} {marker : Marker} {x : Candidate} :
    x ∈ c.candidatesOf marker ↔ ∃ k : StandardKind, k.marker = marker ∧
      x.declaration ∈ c.extracted.declarations marker ∧ k.Fits c x.declaration ∧
      x.owners = k.rule.owners ⟨c, x.declaration⟩ := by
  constructor
  · intro hx
    unfold candidatesOf at hx
    split at hx
    · exact absurd hx List.not_mem_nil
    · next k hk =>
      obtain ⟨d, hd, rfl⟩ := List.mem_map.1 hx
      obtain ⟨hmem, haccepts⟩ := List.mem_filter.1 hd
      exact ⟨k, StandardKind.marker_of_ofMarker? hk, hmem, StandardKind.accepts_iff.1 haccepts,
        rfl⟩
  · rintro ⟨k, rfl, hmem, hfits, howners⟩
    unfold candidatesOf
    rw [StandardKind.ofMarker?_marker]
    refine List.mem_map.2 ⟨x.declaration,
      List.mem_filter.2 ⟨hmem, StandardKind.accepts_iff.2 hfits⟩, ?_⟩
    rw [← howners]

theorem mem_candidates_iff {c : ValidationContext} {x : Candidate} :
    x ∈ c.candidates ↔ ∃ k : StandardKind,
      x.declaration ∈ c.extracted.declarations k.marker ∧ k.Fits c x.declaration ∧
      x.owners = k.rule.owners ⟨c, x.declaration⟩ := by
  unfold candidates
  rw [List.mem_flatMap]
  constructor
  · rintro ⟨marker, -, hx⟩
    obtain ⟨k, rfl, h⟩ := mem_candidatesOf_iff.1 hx
    exact ⟨k, h⟩
  · rintro ⟨k, hx, h⟩
    exact ⟨k.marker, DeclarationModel.mem_kinds_of_mem hx,
      mem_candidatesOf_iff.2 ⟨k, rfl, hx, h⟩⟩

variable {c : ValidationContext}

theorem pruned_eq (c : ValidationContext) :
    c.pruned = Validator.pruned Registry.standard.validators c := by
  rw [pruned, Validator.pruned, passed_standard]

theorem accepted_eq (c : ValidationContext) :
    c.accepted = Validator.accepted Registry.standard.validators c := by
  rw [accepted, pruned_eq, Validator.accepted]

theorem sublist_accepted (hgrouped : c.extracted.Grouped) (marker : Marker) :
    (c.accepted.declarations marker).Sublist (c.extracted.declarations marker) :=
  c.accepted_eq ▸ Validator.sublist_accepted hgrouped _ marker

theorem grouped_accepted (hgrouped : c.extracted.Grouped) : c.accepted.Grouped :=
  c.accepted_eq ▸ Validator.grouped_accepted hgrouped _

theorem isAnnotated_accepted_iff {qualified : String} {marker : Marker} :
    c.accepted.isAnnotated qualified marker = true ↔
      (⟨qualified, marker⟩ : Owner) ∈ Candidate.present c.pruned.1 := by
  rw [accepted_eq, pruned_eq, Validator.isAnnotated_accepted_iff]

/-- What is known of an accepted declaration. -/
structure Accepts (c : ValidationContext) (k : StandardKind) (d : Declaration) : Prop where
  extracted : d ∈ c.extracted.declarations k.marker
  fits : k.Fits c d
  owners : ∀ owner ∈ (k.requirement ⟨c, d⟩).needs,
    c.accepted.isAnnotated owner.element owner.marker = true

theorem exists_kind_of_mem_accepted (hgrouped : c.extracted.Grouped) {marker : Marker}
    {d : Declaration} (h : d ∈ c.accepted.declarations marker) :
    ∃ k : StandardKind, k.marker = marker ∧ c.Accepts k d := by
  unfold accepted at h
  obtain ⟨hd, hmarker⟩ := DeclarationModel.mem_declarations_ofList.1 h
  obtain ⟨x, hx, rfl⟩ := List.mem_map.1 hd
  obtain ⟨k, hmem, hfits, howners⟩ :=
    mem_candidates_iff.1 ((Candidate.sublist_prune _ _).subset hx)
  refine ⟨k, (hgrouped.marker_eq k.marker _ hmem).symm.trans hmarker, hmem, hfits, ?_⟩
  intro owner howner
  rw [isAnnotated_accepted_iff]
  refine Candidate.ownersPresent_prune _ _ x hx owner ?_ (StandardKind.handles_of_mem_needs howner)
  rw [howners]
  exact (StandardKind.mem_owners_iff hfits).2 howner

theorem mem_accepted_iff (hgrouped : c.extracted.Grouped) {k : StandardKind} {d : Declaration} :
    d ∈ c.accepted.declarations k.marker ↔ c.Accepts k d := by
  constructor
  · intro h
    obtain ⟨l, hl, haccepts⟩ := exists_kind_of_mem_accepted hgrouped h
    exact StandardKind.marker_injective hl ▸ haccepts
  · intro h
    let x : Candidate := ⟨d, k.rule.owners ⟨c, d⟩⟩
    have hleft : x ∈ c.pruned.1 := by
      refine Candidate.mem_prune_iff.2 ⟨mem_candidates_iff.2 ⟨k, h.extracted, h.fits, rfl⟩, ?_⟩
      intro owner howner _
      exact isAnnotated_accepted_iff.1
        (h.owners owner ((StandardKind.mem_owners_iff h.fits).1 howner))
    exact DeclarationModel.mem_declarations_ofList.2
      ⟨List.mem_map_of_mem hleft, hgrouped.marker_eq k.marker d h.extracted⟩

theorem accepts_of_mem (hgrouped : c.extracted.Grouped) {k : StandardKind} {d : Declaration}
    (h : d ∈ c.accepted.declarations k.marker) : c.Accepts k d :=
  (mem_accepted_iff hgrouped).1 h

/-- Extracted declarations that fit are accepted when all owners they need are among them. -/
theorem mem_accepted_of_supported (hgrouped : c.extracted.Grouped)
    {p : StandardKind → Declaration → Prop}
    (hextracted : ∀ k d, p k d → d ∈ c.extracted.declarations k.marker)
    (hfits : ∀ k d, p k d → k.Fits c d)
    (howners : ∀ k d, p k d → ∀ owner ∈ (k.requirement ⟨c, d⟩).needs,
      ∃ l e, p l e ∧ l.marker = owner.marker ∧ e.qualifiedName = owner.element)
    {k : StandardKind} {d : Declaration} (hd : p k d) : d ∈ c.accepted.declarations k.marker := by
  classical
  -- The candidates for the declarations in question are closed under owners, so pruning keeps them.
  let isOne : Candidate → Bool := fun x => decide (∃ k, p k x.declaration)
  have hcandidate : ∀ k d, p k d → (⟨d, k.rule.owners ⟨c, d⟩⟩ : Candidate) ∈
      c.candidates.filter isOne := fun k d h =>
    List.mem_filter.2 ⟨mem_candidates_iff.2 ⟨k, hextracted k d h, hfits k d h, rfl⟩,
      decide_eq_true ⟨k, h⟩⟩
  have hclosed : Candidate.OwnersPresent (Validator.handles Registry.standard.validators)
      (c.candidates.filter isOne) := by
    intro x hx owner howner _
    obtain ⟨hmem, hone⟩ := List.mem_filter.1 hx
    obtain ⟨k, hk⟩ : ∃ k, p k x.declaration := of_decide_eq_true hone
    obtain ⟨k', hextracted', hfits', hxowners⟩ := mem_candidates_iff.1 hmem
    have hsame : k' = k := StandardKind.marker_injective
      ((hgrouped.marker_eq _ _ hextracted').symm.trans
        (hgrouped.marker_eq _ _ (hextracted k _ hk)))
    subst hsame
    rw [hxowners, StandardKind.mem_owners_iff hfits'] at howner
    obtain ⟨l, e, he, hmarker, hname⟩ := howners k' _ hk owner howner
    refine List.mem_map.2 ⟨_, hcandidate l e he, ?_⟩
    exact congrArg₂ Owner.mk hname
      ((hgrouped.marker_eq l.marker e (hextracted l e he)).trans hmarker)
  have hleft := (Candidate.sublist_prune_of_ownersPresent List.filter_sublist hclosed).subset
    (hcandidate k d hd)
  exact DeclarationModel.mem_declarations_ofList.2
    ⟨List.mem_map_of_mem hleft, hgrouped.marker_eq k.marker d (hextracted k d hd)⟩

theorem mem_accepted_of_all_fit (hgrouped : c.extracted.Grouped)
    (hall : ∀ l : StandardKind, ∀ e ∈ c.extracted.declarations l.marker, l.Fits c e)
    {k : StandardKind} {d : Declaration} (hd : d ∈ c.extracted.declarations k.marker) :
    d ∈ c.accepted.declarations k.marker := by
  refine mem_accepted_of_supported hgrouped
    (p := fun l e => e ∈ c.extracted.declarations l.marker) (fun _ _ h => h) hall ?_ hd
  intro l e he owner howner
  obtain ⟨l', hl'⟩ := StandardKind.handles_iff.1 (StandardKind.handles_of_mem_needs howner)
  obtain ⟨e', he', hname⟩ :=
    DeclarationModel.isAnnotated_iff.1 ((hall l e he).met.needs owner howner)
  exact ⟨l', e', hl' ▸ he', hl', hname⟩

theorem fits_of_not_condemned (hgrouped : c.extracted.Grouped) {k : StandardKind}
    {d : Declaration} (hd : d ∈ c.extracted.declarations k.marker)
    (hclean : ¬ Condemned (Validator.validate Registry.standard.validators c).diagnostics d) :
    k.Fits c d := by
  have hmarker := hgrouped.marker_eq k.marker d hd
  rw [Validator.condemned_iff hgrouped c.completes_standard (hmarker ▸ hd)] at hclean
  by_contra hnot
  refine hclean ⟨k.rule.validator, ?_, hmarker.symm, ?_⟩
  · rw [StandardKind.validators_eq]
    exact List.mem_map_of_mem k.mem_all
  · exact Bool.eq_false_iff.2 fun haccepts => hnot (StandardKind.accepts_iff.1 haccepts)

theorem mem_accepted_of_no_error (hgrouped : c.extracted.Grouped)
    (hclean : ∀ w ∈ (Validator.validate Registry.standard.validators c).diagnostics,
      w.isError = false) {k : StandardKind} {d : Declaration}
    (hd : d ∈ c.extracted.declarations k.marker) : d ∈ c.accepted.declarations k.marker := by
  refine mem_accepted_of_all_fit hgrouped (fun l e he => ?_) hd
  refine fits_of_not_condemned hgrouped he ?_
  rintro ⟨w, hw, herror, -⟩
  cases (hclean w hw).symm.trans herror

end ValidationContext

end ComponentGlue
