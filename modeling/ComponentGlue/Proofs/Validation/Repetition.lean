import ComponentGlue.Proofs.Validation.Accepted

/-!
Validating once more what was accepted. Markers of rejected declarations count in the first validation
and are gone in the second one. Only REST interfaces rely on markers of their members, so only they
and their requests can be lost.
-/

set_option autoImplicit false
set_option relaxedAutoImplicit false

namespace ComponentGlue

namespace DeclarationModel

/-- A REST interface with a method that no request of the model is for. -/
def lacksRequest (m : DeclarationModel) (d : Declaration) : Bool :=
  d.marker = .rest && d.element.methods.any fun sig =>
    !RestClient.isRequest m (d.qualifiedName ++ "#" ++ sig.name)

/-- A request of a REST interface that lacks one. -/
def isStranded (m : DeclarationModel) (d : Declaration) : Bool :=
  HttpMethod.all.any (fun http => d.marker = http.marker) && (m.declarations .rest).any fun i =>
    m.lacksRequest i && i.qualifiedName == d.element.owner

end DeclarationModel

namespace ValidationContext

variable {c : ValidationContext}

def again (c : ValidationContext) : ValidationContext := { c with extracted := c.accepted }

theorem isAnnotated_of_accepted (hgrouped : c.extracted.Grouped) {qualified : String}
    {marker : Marker} (h : c.accepted.isAnnotated qualified marker = true) :
    c.extracted.isAnnotated qualified marker = true := by
  obtain ⟨d, hd, hname⟩ := DeclarationModel.isAnnotated_iff.1 h
  exact DeclarationModel.isAnnotated_iff.2
    ⟨d, (sublist_accepted hgrouped marker).subset hd, hname⟩

theorem isSome_origin?_again {d : Declaration} (h : c.Accepts .preferenceField d) :
    (PreferenceField.origin? ⟨c.again, d⟩).isSome = true := by
  obtain ⟨origin, horigin⟩ := Option.isSome_iff_exists.1 h.fits.met.own.2
  obtain ⟨type, htype, hhelper⟩ := Option.bind_eq_some_iff.1 horigin
  have howner : c.accepted.isAnnotated origin .sharedPref = true := by
    refine h.owners ⟨origin, .sharedPref⟩ (List.mem_cons_of_mem _ (List.mem_map.2 ⟨origin, ?_, rfl⟩))
    exact Option.mem_toList.2 horigin
  obtain ⟨e, he, hname⟩ := DeclarationModel.isAnnotated_iff.1 howner
  have hmatches : typeMatches type (c.project.generatedName origin) = true :=
    List.find?_some (p := fun o => typeMatches type (c.project.generatedName o)) hhelper
  have hfound : (PreferenceField.helperOrigin? c.again type).isSome = true :=
    List.find?_isSome.2 ⟨origin, List.mem_map.2 ⟨e, he, hname⟩, hmatches⟩
  have htype' : PreferenceField.origin? ⟨c.again, d⟩ =
      PreferenceField.helperOrigin? c.again type := by
    unfold PreferenceField.origin?
    rw [show (⟨c.again, d⟩ : Subject).declaration.element.type = some type from htype]
    rfl
  rw [htype']
  exact hfound

theorem fits_again (hgrouped : c.extracted.Grouped) {k : StandardKind} {d : Declaration}
    (h : c.Accepts k d) (hrest : k ≠ .restClient) : k.Fits c.again d := by
  refine ⟨h.fits.unblocked, ?_, ?_, ?_, h.fits.met.resources⟩
  · cases k
    case restClient => exact absurd rfl hrest
    case preferenceField => exact ⟨h.fits.met.own.1, isSome_origin?_again h⟩
    all_goals exact h.fits.met.own
  · cases k
    case preferenceField =>
      intro owner howner
      rcases List.mem_cons.1 howner with rfl | howner
      · exact h.owners _ List.mem_cons_self
      · obtain ⟨origin, horigin, rfl⟩ := List.mem_map.1 howner
        obtain ⟨type, -, hhelper⟩ := Option.bind_eq_some_iff.1 (Option.mem_toList.1 horigin)
        exact PreferenceField.isAnnotated_of_helperOrigin? hhelper
    all_goals exact h.owners
  · intro owner howner
    have hbefore : c.extracted.isAnnotated owner.element owner.marker = false := by
      cases k
      all_goals exact h.fits.met.excludes owner howner
    rw [← Bool.not_eq_true] at hbefore ⊢
    exact fun hagain => hbefore (isAnnotated_of_accepted hgrouped hagain)

theorem fits_again_restClient {d : Declaration} (h : c.Accepts .restClient d)
    (hmarker : d.marker = .rest) :
    StandardKind.restClient.Fits c.again d ↔ c.accepted.lacksRequest d = false := by
  have hlacks : c.accepted.lacksRequest d = false ↔ ∀ sig ∈ d.element.methods,
      RestClient.isRequest c.accepted (d.qualifiedName ++ "#" ++ sig.name) = true := by
    simp [DeclarationModel.lacksRequest, hmarker]
  rw [hlacks]
  constructor
  · exact fun hfits => hfits.met.own.2.2
  · intro hrequests
    exact ⟨h.fits.unblocked, ⟨h.fits.met.own.1, h.fits.met.own.2.1, hrequests⟩,
      fun owner howner => absurd howner List.not_mem_nil,
      fun owner howner => absurd howner List.not_mem_nil, h.fits.met.resources⟩

theorem fits_again_iff (hgrouped : c.extracted.Grouped) {k : StandardKind} {d : Declaration}
    (hd : d ∈ c.accepted.declarations k.marker) :
    k.Fits c.again d ↔ c.accepted.lacksRequest d = false := by
  have haccepts := accepts_of_mem hgrouped hd
  have hmarker := (grouped_accepted hgrouped).marker_eq k.marker d hd
  by_cases hrest : k = .restClient
  · subst hrest
    exact fits_again_restClient haccepts hmarker
  · have hnot : d.marker ≠ .rest := by
      rw [hmarker]
      exact fun heq => hrest (StandardKind.marker_injective heq)
    exact iff_of_true (fits_again hgrouped haccepts hrest) (by simp [DeclarationModel.lacksRequest, hnot])

theorem mem_candidates_again_iff (hgrouped : c.extracted.Grouped) {x : Candidate} :
    x ∈ c.again.candidates ↔ ∃ k : StandardKind,
      x.declaration ∈ c.accepted.declarations k.marker ∧
      c.accepted.lacksRequest x.declaration = false ∧
      x.owners = k.rule.owners ⟨c.again, x.declaration⟩ := by
  rw [mem_candidates_iff]
  constructor
  · rintro ⟨k, hd, hfits, howners⟩
    exact ⟨k, hd, (fits_again_iff hgrouped hd).1 hfits, howners⟩
  · rintro ⟨k, hd, hlacks, howners⟩
    exact ⟨k, hd, (fits_again_iff hgrouped hd).2 hlacks, howners⟩

theorem exists_http_of_mem_needs {k : StandardKind} {s : Subject} {owner : Owner}
    (h : owner ∈ (k.requirement s).needs) (hrest : owner.marker = .rest) :
    ∃ http, k = .request http ∧ owner = ⟨s.declaration.element.owner, .rest⟩ := by
  cases k
  case component | preferenceHelper | restClient => exact absurd h List.not_mem_nil
  case request http => exact ⟨http, rfl, List.mem_singleton.1 h⟩
  case htmlText =>
    rcases List.mem_cons.1 h with rfl | h
    · exact absurd hrest (by simp [Subject.component, Marker.rest, Marker.enhancedComponent])
    · obtain rfl := List.mem_singleton.1 h
      exact absurd hrest (by simp [Marker.rest, Marker.bindsView])
  case preferenceField =>
    rcases List.mem_cons.1 h with rfl | h
    · exact absurd hrest (by simp [Subject.component, Marker.rest, Marker.enhancedComponent])
    · obtain ⟨origin, -, rfl⟩ := List.mem_map.1 h
      exact absurd hrest (by simp [Marker.rest, Marker.sharedPref])
  all_goals
    obtain rfl := List.mem_singleton.1 h
    exact absurd hrest (by simp [Subject.component, Marker.rest, Marker.enhancedComponent])

theorem isStranded_iff {m : DeclarationModel} {d : Declaration} :
    m.isStranded d = true ↔ (∃ http : HttpMethod, d.marker = http.marker) ∧
      ∃ i ∈ m.declarations .rest, m.lacksRequest i = true ∧ i.qualifiedName = d.element.owner := by
  have hall : ∀ http : HttpMethod, http ∈ HttpMethod.all := by
    intro http
    cases http <;> simp [HttpMethod.all]
  simp [DeclarationModel.isStranded, hall]

theorem isStranded_eq_false {k : StandardKind} {d : Declaration} (hmarker : d.marker = k.marker)
    (hk : ∀ http, k ≠ .request http) (m : DeclarationModel) : m.isStranded d = false := by
  rw [← Bool.not_eq_true, isStranded_iff]
  rintro ⟨⟨http, hhttp⟩, -⟩
  exact hk http (StandardKind.marker_injective (hmarker.symm.trans hhttp))

theorem isStranded_eq_false_of_complete {m : DeclarationModel}
    (hcomplete : ∀ i ∈ m.declarations .rest, m.lacksRequest i = false) (d : Declaration) :
    m.isStranded d = false := by
  rw [← Bool.not_eq_true, isStranded_iff]
  rintro ⟨-, i, hi, hlacks, -⟩
  rw [hcomplete i hi] at hlacks
  cases hlacks

theorem lacksRequest_eq_false_of_complete {m : DeclarationModel} (hgrouped : m.Grouped)
    (hcomplete : ∀ i ∈ m.declarations .rest, m.lacksRequest i = false) {marker : Marker}
    {d : Declaration} (hd : d ∈ m.declarations marker) : m.lacksRequest d = false := by
  by_cases hrest : d.marker = .rest
  · rw [← hgrouped.marker_eq marker d hd, hrest] at hd
    exact hcomplete d hd
  · simp [DeclarationModel.lacksRequest, hrest]

theorem isStranded_eq_false_of_mem_needs (hgrouped : c.extracted.Grouped) {k : StandardKind}
    {s : Subject} {owner : Owner} (howner : owner ∈ (k.requirement s).needs) {e : Declaration}
    (he : e ∈ c.accepted.declarations owner.marker) : c.accepted.isStranded e = false := by
  obtain ⟨l, hl, -⟩ := exists_kind_of_mem_accepted hgrouped he
  have hmarker : e.marker = l.marker :=
    ((grouped_accepted hgrouped).marker_eq _ e he).trans hl.symm
  refine isStranded_eq_false hmarker ?_ c.accepted
  rintro http rfl
  have hneeded := StandardKind.marker_of_mem_needs howner
  rw [← hl] at hneeded
  cases http <;> exact absurd hneeded (by decide)

theorem lacksRequest_eq_false_of_mem_needs (hgrouped : c.extracted.Grouped) {k : StandardKind}
    {d : Declaration} (hd : d ∈ c.accepted.declarations k.marker)
    (hstranded : c.accepted.isStranded d = false) {owner : Owner}
    (howner : owner ∈ (k.requirement ⟨c.again, d⟩).needs) {e : Declaration}
    (he : e ∈ c.accepted.declarations owner.marker) (hname : e.qualifiedName = owner.element) :
    c.accepted.lacksRequest e = false := by
  have haccepted := grouped_accepted hgrouped
  rw [← Bool.not_eq_true]
  intro helacks
  have hrest : owner.marker = .rest := by
    rw [← haccepted.marker_eq _ e he]
    simp only [DeclarationModel.lacksRequest, Bool.and_eq_true, decide_eq_true_eq] at helacks
    exact helacks.1
  obtain ⟨http, rfl, rfl⟩ := exists_http_of_mem_needs howner hrest
  have hstrands : c.accepted.isStranded d = true :=
    isStranded_iff.2 ⟨⟨http, haccepted.marker_eq _ _ hd⟩, e, he, helacks, hname⟩
  rw [hstrands] at hstranded
  cases hstranded

theorem ownersPresent_again (hgrouped : c.extracted.Grouped) :
    Candidate.OwnersPresent (Validator.handles Registry.standard.validators)
      (c.again.candidates.filter fun x => !c.accepted.isStranded x.declaration) := by
  intro x hx owner howner _
  obtain ⟨hcandidate, hkept⟩ := List.mem_filter.1 hx
  have hstranded : c.accepted.isStranded x.declaration = false := by simpa using hkept
  obtain ⟨k, hd, hlacks, howners⟩ := (mem_candidates_again_iff hgrouped).1 hcandidate
  have hfits := (fits_again_iff hgrouped hd).2 hlacks
  rw [howners, StandardKind.mem_owners_iff hfits] at howner
  -- The owner was accepted before, and it is again a candidate that is not stranded.
  obtain ⟨e, he, hname⟩ := DeclarationModel.isAnnotated_iff.1 (hfits.met.needs owner howner)
  obtain ⟨l, hl, -⟩ := exists_kind_of_mem_accepted hgrouped he
  have hrequest := isStranded_eq_false_of_mem_needs hgrouped howner he
  have helacks := lacksRequest_eq_false_of_mem_needs hgrouped hd hstranded howner he hname
  refine List.mem_map.2 ⟨⟨e, l.rule.owners ⟨c.again, e⟩⟩, List.mem_filter.2 ⟨?_, ?_⟩, ?_⟩
  · exact (mem_candidates_again_iff hgrouped).2 ⟨l, hl ▸ he, helacks, rfl⟩
  · simpa using hrequest
  · rw [Declaration.asOwner, (grouped_accepted hgrouped).marker_eq _ e he, hname]

/-- A candidate of the second validation is left exactly when it is not stranded. -/
theorem mem_pruned_again_iff (hgrouped : c.extracted.Grouped) {x : Candidate} :
    x ∈ c.again.pruned.1 ↔
      x ∈ c.again.candidates ∧ c.accepted.isStranded x.declaration = false := by
  have haccepted := grouped_accepted hgrouped
  constructor
  · intro hx
    have hcandidate := (Candidate.sublist_prune _ _).subset hx
    refine ⟨hcandidate, ?_⟩
    rw [← Bool.not_eq_true, isStranded_iff]
    rintro ⟨⟨http, hhttp⟩, i, hi, hlacks, hname⟩
    obtain ⟨k, hd, hdlacks, howners⟩ := (mem_candidates_again_iff hgrouped).1 hcandidate
    have hk : k = .request http :=
      StandardKind.marker_injective ((haccepted.marker_eq _ _ hd).symm.trans hhttp)
    subst hk
    have hfits := (fits_again_iff hgrouped hd).2 hdlacks
    have howner : (⟨x.declaration.element.owner, .rest⟩ : Owner) ∈ x.owners := by
      rw [howners]
      exact (StandardKind.mem_owners_iff hfits).2 List.mem_cons_self
    -- The interface is an owner that is left, so it cannot be the one that lacks a request.
    have hpresent := Candidate.ownersPresent_prune _ _ x hx _ howner
      (StandardKind.handles_iff.2 ⟨.restClient, rfl⟩)
    obtain ⟨y, hy, hyowner⟩ := List.mem_map.1 hpresent
    obtain ⟨l, hyd, hylacks, -⟩ :=
      (mem_candidates_again_iff hgrouped).1 ((Candidate.sublist_prune _ _).subset hy)
    have hymarker : l.marker = .rest :=
      (haccepted.marker_eq _ _ hyd).symm.trans (congrArg Owner.marker hyowner)
    have hyi : y.declaration = i := by
      rw [hymarker] at hyd
      exact haccepted.eq_of_qualifiedName_eq hyd hi
        ((congrArg Owner.element hyowner).trans hname.symm)
    rw [hyi, hlacks] at hylacks
    exact absurd hylacks (by simp)
  · rintro ⟨hcandidate, hstranded⟩
    have hsub := Candidate.sublist_prune_of_ownersPresent List.filter_sublist
      (ownersPresent_again hgrouped)
    exact hsub.subset (List.mem_filter.2 ⟨hcandidate, by simp [hstranded]⟩)

theorem declarations_accepted_again (hgrouped : c.extracted.Grouped) (marker : Marker) :
    c.again.accepted.declarations marker = (c.accepted.declarations marker).filter fun d =>
      !(c.accepted.lacksRequest d || c.accepted.isStranded d) := by
  have haccepted := grouped_accepted hgrouped
  refine eq_filter_of_sublist (sublist_accepted (c := c.again) haccepted marker)
    (haccepted.distinct marker).of_map ?_
  intro d hd
  obtain ⟨k, rfl, -⟩ := exists_kind_of_mem_accepted hgrouped hd
  rw [Bool.not_eq_true', Bool.or_eq_false_iff]
  conv_lhs => unfold accepted
  rw [DeclarationModel.mem_declarations_ofList, List.mem_map]
  constructor
  · rintro ⟨⟨x, hx, rfl⟩, -⟩
    obtain ⟨hcandidate, hstranded⟩ := (mem_pruned_again_iff hgrouped).1 hx
    obtain ⟨l, -, hlacks, -⟩ := (mem_candidates_again_iff hgrouped).1 hcandidate
    exact ⟨hlacks, hstranded⟩
  · rintro ⟨hlacks, hstranded⟩
    refine ⟨⟨⟨d, k.rule.owners ⟨c.again, d⟩⟩, ?_, rfl⟩, haccepted.marker_eq _ d hd⟩
    exact (mem_pruned_again_iff hgrouped).2
      ⟨(mem_candidates_again_iff hgrouped).2 ⟨k, hd, hlacks, rfl⟩, hstranded⟩

end ValidationContext

theorem RestClient.onlyErrors_check (s : Subject) : (RestClient.check s).OnlyErrors := by
  refine (Checked.onlyErrors_require _ _).bind fun isInterface => ?_
  cases isInterface with
  | false => exact Checked.onlyErrors_pure ()
  | true =>
    refine (s.onlyErrors_optionalArg "root_url" _ _).bind fun _ => ?_
    exact Checked.onlyErrors_each fun sig =>
      (Checked.onlyErrors_require _ _).bind fun _ => Checked.onlyErrors_pure ()

theorem Rule.location_of_mem_report {r : Rule} {s : Subject} {w : Diagnostic}
    (h : w ∈ r.report s) : w.location = some s.declaration.ref := by
  unfold Rule.report at h
  split at h
  · rw [List.mem_singleton.1 h]
    rfl
  · exact (Findings.of_mem_diagnostics h).2

theorem StandardKind.exists_http_of_mem_warnings {k : StandardKind} {s : Subject}
    {message : String} (h : message ∈ (k.requirement s).warnings) :
    ∃ http url, k = .request http ∧ message ∈ http.urlWarnings url := by
  cases k
  case request http =>
    obtain ⟨url, -, hurl⟩ := List.mem_flatMap.1 h
    exact ⟨http, url, rfl, hurl⟩
  all_goals exact absurd h List.not_mem_nil

theorem HttpMethod.urlWarning_ne_dropWarning {http : HttpMethod} {url message : String}
    {d : Declaration} (hmessage : message ∈ http.urlWarnings url) (hmarker : d.marker = http.marker)
    (x : Candidate) (owner : Owner) :
    (Diagnostic.warning validationPhase message).about d ≠ x.dropWarning owner := by
  intro heq
  have hlocation : d.ref = x.declaration.ref := Option.some.inj (congrArg Diagnostic.location heq)
  have hsame : d.marker = x.declaration.marker := congrArg DeclarationRef.marker hlocation
  have htext := congrArg (String.toList ∘ Diagnostic.message) heq
  unfold HttpMethod.urlWarnings at hmessage
  split at hmessage
  · exact absurd hmessage List.not_mem_nil
  · obtain rfl := List.mem_singleton.1 hmessage
    simp [Diagnostic.about, Diagnostic.warning, Candidate.dropWarning, ← hsame, hmarker] at htext
    have hsecond := congrArg (fun l => l[1]?) htext
    exact absurd hsecond (by simp [toString])

namespace ValidationContext

theorem mem_reports {c : ValidationContext} {w : Diagnostic}
    (h : w ∈ c.extracted.kinds.flatMap c.reportOf) :
    (w.isError = false ∧ w.location = none) ∨
      ∃ k : StandardKind, ∃ d ∈ c.extracted.declarations k.marker, w ∈ k.rule.report ⟨c, d⟩ := by
  obtain ⟨marker, -, hw⟩ := List.mem_flatMap.1 h
  unfold reportOf at hw
  split at hw
  · rw [List.mem_singleton.1 hw]
    exact Or.inl ⟨rfl, rfl⟩
  · next k hk =>
    obtain ⟨d, hd, hw⟩ := List.mem_flatMap.1 hw
    exact Or.inr ⟨k, d, StandardKind.marker_of_ofMarker? hk ▸ hd, hw⟩

variable {c : ValidationContext}

/-- What the second round of checks reports: errors about interfaces that lack a request, and
warnings that are not those of pruning. -/
theorem reports_again (hgrouped : c.extracted.Grouped) {w : Diagnostic}
    (hw : w ∈ c.again.extracted.kinds.flatMap c.again.reportOf) :
    (∀ x owner, w ≠ Candidate.dropWarning x owner) ∧ (w.isError = true →
      ∃ d ∈ c.accepted.declarations .rest, c.accepted.lacksRequest d = true ∧
        w.location = some d.ref) := by
  have haccepted := grouped_accepted hgrouped
  rcases mem_reports hw with ⟨hnoerror, hlocation⟩ | ⟨k, d, hd, hreport⟩
  · refine ⟨?_, fun herror => absurd hnoerror (by simp [herror])⟩
    rintro x owner rfl
    cases hlocation
  · have hmarker := haccepted.marker_eq _ d hd
    by_cases hlacks : c.accepted.lacksRequest d = true
    · have hrest : d.marker = .rest := by
        simp only [DeclarationModel.lacksRequest, Bool.and_eq_true, decide_eq_true_eq] at hlacks
        exact hlacks.1
      obtain rfl : k = .restClient := StandardKind.marker_injective (hmarker.symm.trans hrest)
      refine ⟨?_, fun _ => ⟨d, hd, hlacks, Rule.location_of_mem_report hreport⟩⟩
      rintro x owner rfl
      obtain ⟨f, hf, hdiagnostic⟩ := List.mem_filterMap.1 hreport
      have herror := RestClient.onlyErrors_check ⟨c.again, d⟩ f hf
      cases f with
      | error message =>
        exact absurd (congrArg Diagnostic.severity (Option.some.inj hdiagnostic))
          (by simp [Diagnostic.about, Diagnostic.error, Candidate.dropWarning, Diagnostic.warning])
      | warning message => cases herror
      | needs owner => cases herror
      | lookedUp key => cases herror
    · have hfits := (fits_again_iff hgrouped hd).2 (Bool.not_eq_true _ ▸ hlacks)
      rw [StandardKind.report_of_fits hfits] at hreport
      obtain ⟨message, hmessage, rfl⟩ := List.mem_map.1 hreport
      obtain ⟨http, url, rfl, hurl⟩ := StandardKind.exists_http_of_mem_warnings hmessage
      exact ⟨fun x owner => HttpMethod.urlWarning_ne_dropWarning hurl hmarker x owner,
        fun herror => by cases herror⟩

theorem warnings_again (hgrouped : c.extracted.Grouped) {w : Diagnostic}
    (hw : w ∈ c.again.pruned.2) :
    w.isError = false ∧ ∃ http : HttpMethod, ∃ d ∈ c.accepted.declarations http.marker,
      c.accepted.isStranded d = true ∧ w.location = some d.ref := by
  obtain ⟨reasons, hperm, hwarnings, hreasons⟩ := Candidate.exists_reasons_prune
    (Validator.handles Registry.standard.validators) c.again.candidates
  have hw' : w ∈ reasons.map fun r => r.1.dropWarning r.2 := hwarnings ▸ hw
  obtain ⟨r, hr, rfl⟩ := List.mem_map.1 hw'
  obtain ⟨howner, hhandled, hmissing⟩ := hreasons r hr
  have hcandidate : r.1 ∈ c.again.candidates :=
    hperm.subset (List.mem_append_right _ (List.mem_map_of_mem hr))
  have hdropped : r.1 ∉ c.again.pruned.1 := fun hkept =>
    hmissing (Candidate.ownersPresent_prune _ _ r.1 hkept r.2 howner hhandled)
  have hstranded : c.accepted.isStranded r.1.declaration = true := by
    rw [mem_pruned_again_iff hgrouped, not_and, Bool.not_eq_false] at hdropped
    exact hdropped hcandidate
  obtain ⟨⟨http, hhttp⟩, -⟩ := isStranded_iff.1 hstranded
  obtain ⟨k, hd, -, -⟩ := (mem_candidates_again_iff hgrouped).1 hcandidate
  have hmarker := (grouped_accepted hgrouped).marker_eq _ _ hd
  exact ⟨rfl, http, r.1.declaration, hhttp ▸ hmarker ▸ hd, hstranded, rfl⟩

end ValidationContext

/-- What validating the accepted declarations `m` once more accepts and reports. -/
structure Revalidates (m : DeclarationModel) (again : Reported DeclarationModel) : Prop where
  /-- All is accepted but the REST interfaces that lack a request, and their requests. -/
  accepted : ∃ n, again.result = .ok n ∧ ∀ marker, n.declarations marker =
    (m.declarations marker).filter fun d => !(m.lacksRequest d || m.isStranded d)
  errors : ∀ w ∈ again.diagnostics, w.isError = true →
    ∃ d ∈ m.declarations .rest, m.lacksRequest d = true ∧ w.location = some d.ref
  skips : ∀ w ∈ again.diagnostics, ∀ x owner, w = Candidate.dropWarning x owner →
    ∃ http : HttpMethod, ∃ d ∈ m.declarations http.marker,
      m.isStranded d = true ∧ w.location = some d.ref
  /-- Without such an interface all is accepted, with no error and no declaration skipped. -/
  complete : (∀ d ∈ m.declarations .rest, m.lacksRequest d = false) →
    (∃ n, again.result = .ok n ∧ ∀ marker, n.declarations marker = m.declarations marker) ∧
    ∀ w ∈ again.diagnostics, w.isError = false ∧ ∀ x owner, w ≠ Candidate.dropWarning x owner

theorem ValidationContext.revalidates_again {c : ValidationContext}
    (hgrouped : c.extracted.Grouped) :
    Revalidates c.accepted (Validator.validate Registry.standard.validators c.again) := by
  rw [validate_standard]
  have haccepted := declarations_accepted_again hgrouped
  have hchecks := fun w hw => reports_again hgrouped (w := w) hw
  have hpruning := fun w hw => warnings_again hgrouped (w := w) hw
  refine ⟨⟨_, rfl, haccepted⟩, ?_, ?_, ?_⟩
  · intro w hw herror
    rcases List.mem_append.1 hw with hw | hw
    · exact (hchecks w hw).2 herror
    · exact absurd (hpruning w hw).1 (by simp [herror])
  · intro w hw x owner hskip
    rcases List.mem_append.1 hw with hw | hw
    · exact absurd hskip ((hchecks w hw).1 x owner)
    · exact (hpruning w hw).2
  · intro hcomplete
    have hstranded := isStranded_eq_false_of_complete hcomplete
    refine ⟨⟨_, rfl, fun marker => ?_⟩, fun w hw => ?_⟩
    · rw [haccepted, List.filter_eq_self]
      intro d hd
      simp [lacksRequest_eq_false_of_complete (grouped_accepted hgrouped) hcomplete hd, hstranded d]
    · rcases List.mem_append.1 hw with hw | hw
      · refine ⟨?_, (hchecks w hw).1⟩
        rw [← Bool.not_eq_true]
        intro herror
        obtain ⟨d, hd, hdlacks, -⟩ := (hchecks w hw).2 herror
        rw [hcomplete d hd] at hdlacks
        cases hdlacks
      · obtain ⟨-, -, d, -, hlost, -⟩ := hpruning w hw
        rw [hstranded d] at hlost
        cases hlost

/-- Validation is idempotent but for REST interfaces with a method whose requests were rejected. -/
theorem revalidates_accepted (batches : List (Marker × List RawDeclaration))
    (catalog : Option Catalog) (project : Project) (m : DeclarationModel)
    (h : (Validator.validate Registry.standard.validators
      ⟨.extract batches, catalog, project⟩).result = .ok m) :
    Revalidates m (Validator.validate Registry.standard.validators
      ⟨.extract m.batches, catalog, project⟩) := by
  have hgrouped := DeclarationModel.grouped_extract batches
  rw [ValidationContext.validate_standard] at h
  obtain rfl := Except.ok.inj h
  rw [DeclarationModel.extract_batches (ValidationContext.grouped_accepted hgrouped)]
  exact ValidationContext.revalidates_again hgrouped

private def restBatches : List (Marker × List RawDeclaration) :=
  let interface (name : String) (methods : List String) : RawDeclaration :=
    ⟨⟨.interfaceType, name, "a", none, [], [], [], [], methods.map fun m => ⟨m, [], none⟩⟩, .empty⟩
  let request (owner name : String) (args : List (String × Argument)) : RawDeclaration :=
    ⟨⟨.method, name, owner, none, [], [], [], [], []⟩, .ofList args⟩
  [(.rest, [interface "Notes" ["all", "first"], interface "Users" ["all"]]),
    (HttpMethod.get.marker, [request "a.Notes" "all" [], request "a.Notes" "first"
      [("url", .str "/first")], request "a.Users" "all" [("url", .str "/users")]])]

private def restContext (batches : List (Marker × List RawDeclaration)) : ValidationContext :=
  ⟨.extract batches, none, .new "a"⟩

private def names (m : DeclarationModel) : List (Marker × List String) :=
  m.kinds.map fun kind => (kind, (m.declarations kind).map Declaration.qualifiedName)

theorem revalidates_accepted_restBatches :
    ∃ m, (Validator.validate Registry.standard.validators (restContext restBatches)).result =
        .ok m ∧
      Revalidates m (Validator.validate Registry.standard.validators (restContext m.batches)) ∧
      names m = [(.rest, ["a.Notes", "a.Users"]),
        (HttpMethod.get.marker, ["a.Notes#first", "a.Users#all"])] :=
  have hresult : (Validator.validate Registry.standard.validators
      (restContext restBatches)).result = .ok (restContext restBatches).accepted :=
    congrArg Reported.result (ValidationContext.validate_standard (restContext restBatches))
  ⟨(restContext restBatches).accepted, hresult,
    revalidates_accepted restBatches none (.new "a") _ hresult, by decide +kernel⟩

/-- The first interface is accepted and then rejected, and its other request is skipped. -/
theorem loses_accepted_restBatches :
    ∃ m, (Validator.validate Registry.standard.validators (restContext restBatches)).result =
        .ok m ∧
      names m = [(.rest, ["a.Notes", "a.Users"]),
        (HttpMethod.get.marker, ["a.Notes#first", "a.Users#all"])] ∧
      (Validator.validate Registry.standard.validators (restContext m.batches)).result.map names =
        .ok [(.rest, ["a.Users"]), (HttpMethod.get.marker, ["a.Users#all"])] ∧
      (Validator.validate Registry.standard.validators (restContext m.batches)).diagnostics.map
          (fun w => (w.isError, w.message)) =
        [(true, "a.Notes#all must carry one of @get, @post, @put, @delete, @head, @options"),
          (false, "@get skipped: @rest a.Notes was rejected")] := by
  refine ⟨(restContext restBatches).accepted,
    congrArg Reported.result (ValidationContext.validate_standard _), by decide +kernel, ?_,
    by decide +kernel⟩
  rw [ValidationContext.validate_standard]
  exact congrArg Except.ok (by decide +kernel)

end ComponentGlue
