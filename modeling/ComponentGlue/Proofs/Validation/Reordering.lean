import ComponentGlue.Memory.Script
import ComponentGlue.Proofs.Validation.Validated

set_option autoImplicit false
set_option relaxedAutoImplicit false

namespace ComponentGlue

namespace Candidate

variable {handled : Marker → Bool}

def warning? (handled : Marker → Bool) (left : List Owner) (c : Candidate) : Option Diagnostic :=
  (c.missingOwner? handled left).map c.dropWarning

/-- The candidates that pruning drops, each with the owners that were left in its pass. -/
def drops (handled : Marker → Bool) (cs : List Candidate) : List (Candidate × List Owner) :=
  if (prunePass handled (present cs) cs).1.length < cs.length then
    ((cs.filter fun c => (c.missingOwner? handled (present cs)).isSome).map
      fun c => (c, present cs)) ++ drops handled (prunePass handled (present cs) cs).1
  else []
termination_by cs.length

theorem isSome_warning? {left : List Owner} {c : Candidate} :
    (c.warning? handled left).isSome = (c.missingOwner? handled left).isSome :=
  Option.isSome_map

theorem prunePass_snd_eq_filterMap (left : List Owner) (cs : List Candidate) :
    (prunePass handled left cs).2 = cs.filterMap (warning? handled left) := by
  rw [prunePass_snd, dropped, List.map_filterMap]
  refine List.filterMap_congr fun c _ => ?_
  rw [Option.map_map]
  rfl

theorem prune_snd (handled : Marker → Bool) (cs : List Candidate) :
    (prune handled cs).2 = (drops handled cs).filterMap fun r => r.1.warning? handled r.2 := by
  induction cs using prune.induct handled with
  | case1 cs hlt ih =>
    have hpass : cs.filterMap (warning? handled (present cs)) =
        ((cs.filter fun c => (c.missingOwner? handled (present cs)).isSome).map
          fun c => (c, present cs)).filterMap fun r => r.1.warning? handled r.2 := by
      rw [List.filterMap_map, List.filterMap_filter]
      refine List.filterMap_congr fun c _ => ?_
      by_cases h : (c.missingOwner? handled (present cs)).isSome = true
      · simp only [h, if_true, Function.comp_apply]
      · simp only [if_neg h]
        rwa [← isSome_warning?, Option.isSome_iff_ne_none, not_not] at h
    rw [prune_of_lt hlt, drops, if_pos hlt, List.filterMap_append, ← hpass, ← ih,
      prunePass_snd_eq_filterMap]
  | case2 cs hlt =>
    rw [prune_of_not_lt hlt, drops, if_neg hlt]
    rfl

theorem of_mem_drops {cs : List Candidate} {r : Candidate × List Owner}
    (h : r ∈ drops handled cs) : r.1 ∈ cs ∧ (r.1.missingOwner? handled r.2).isSome = true := by
  induction cs using prune.induct handled with
  | case1 cs hlt ih =>
    rw [drops, if_pos hlt] at h
    rcases List.mem_append.1 h with h | h
    · obtain ⟨c, hc, rfl⟩ := List.mem_map.1 h
      exact List.mem_filter.1 hc
    · obtain ⟨hmem, hmissing⟩ := ih h
      exact ⟨(sublist_prunePass handled (present cs) cs).subset hmem, hmissing⟩
  | case2 cs hlt =>
    rw [drops, if_neg hlt] at h
    exact absurd h List.not_mem_nil

section Map

variable {f g : Declaration → Candidate} {ds : List Declaration}

def stays (handled : Marker → Bool) (f : Declaration → Candidate) (ds : List Declaration)
    (d : Declaration) : Bool :=
  ((f d).missingOwner? handled (present (ds.map f))).isNone

theorem prunePass_map (handled : Marker → Bool) (f : Declaration → Candidate)
    (ds : List Declaration) : (prunePass handled (present (ds.map f)) (ds.map f)).1 =
      (ds.filter (stays handled f ds)).map f := by
  rw [prunePass_fst, List.filter_map]
  rfl

theorem drops_map_of_lt (hlt : (ds.filter (stays handled f ds)).length < ds.length) :
    drops handled (ds.map f) =
      ((ds.filter fun d => !stays handled f ds d).map fun d => (f d, present (ds.map f))) ++
        drops handled ((ds.filter (stays handled f ds)).map f) := by
  have hdropped : ∀ d, ((f d).missingOwner? handled (present (ds.map f))).isSome =
      !stays handled f ds d := fun d => (Option.not_isNone _).symm
  rw [drops, prunePass_map, List.length_map, List.length_map, if_pos hlt, List.filter_map,
    List.map_map]
  simp only [Function.comp_def, hdropped]

/-- Two ways to make candidates of declarations that need the same owners. -/
structure Alike (f g : Declaration → Candidate) : Prop where
  left : ∀ d, (f d).declaration = d
  right : ∀ d, (g d).declaration = d
  owners : ∀ d owner, owner ∈ (f d).owners ↔ owner ∈ (g d).owners

theorem Alike.present_eq (h : Alike f g) (ds : List Declaration) :
    present (ds.map f) = present (ds.map g) := by
  simp only [present, List.map_map]
  refine List.map_congr_left fun d _ => ?_
  simp only [Function.comp_apply, h.left, h.right]

theorem Alike.stays_eq (h : Alike f g) (handled : Marker → Bool) (ds : List Declaration) :
    stays handled f ds = stays handled g ds := by
  funext d
  rw [Bool.eq_iff_iff, stays, stays, h.present_eq, Option.isNone_iff_eq_none,
    Option.isNone_iff_eq_none, missingOwner?_eq_none_iff, missingOwner?_eq_none_iff]
  simp only [h.owners]

/-- Pruning keeps the same declarations of both, and drops the same in the same passes. -/
theorem Alike.exists_trace (h : Alike f g) (handled : Marker → Bool) (ds : List Declaration) :
    ∃ (kept : List Declaration) (trace : List (Declaration × List Owner)),
      (prune handled (ds.map f)).1 = kept.map f ∧ (prune handled (ds.map g)).1 = kept.map g ∧
      drops handled (ds.map f) = (trace.map fun t => (f t.1, t.2)) ∧
      drops handled (ds.map g) = trace.map fun t => (g t.1, t.2) := by
  -- The induction is on the passes over the first candidates; the second go along with it, since
  -- what a pass drops depends on which owners are needed and not on their order.
  generalize hcs : ds.map f = cs
  induction cs using prune.induct handled generalizing ds with
  | case1 cs hlt ih =>
    subst hcs
    have hshort : (ds.filter (stays handled f ds)).length < ds.length := by
      simpa only [prunePass_map, List.length_map] using hlt
    have hgshort : (ds.filter (stays handled g ds)).length < ds.length := h.stays_eq handled ds ▸ hshort
    obtain ⟨kept, trace, hf, hg, hfdrops, hgdrops⟩ :=
      ih (ds.filter (stays handled f ds)) (prunePass_map handled f ds).symm
    refine ⟨kept, ((ds.filter fun d => !stays handled f ds d).map
      fun d => (d, present (ds.map f))) ++ trace, ?_, ?_, ?_, ?_⟩
    · rw [prune_of_lt hlt]
      exact hf
    · rw [prune, prunePass_map, List.length_map, List.length_map, if_pos hgshort, ← h.stays_eq]
      exact hg
    · rw [drops_map_of_lt hshort, ← prunePass_map, hfdrops, List.map_append, List.map_map]
      rfl
    · rw [drops_map_of_lt hgshort, ← h.stays_eq, hgdrops, List.map_append, List.map_map,
        h.present_eq]
      rfl
  | case2 cs hlt =>
    subst hcs
    have hall : ¬ (ds.filter (stays handled f ds)).length < ds.length := by
      simpa only [prunePass_map, List.length_map] using hlt
    have hgall : ¬ (ds.filter (stays handled g ds)).length < ds.length := h.stays_eq handled ds ▸ hall
    have hglt : ¬ (prunePass handled (present (ds.map g)) (ds.map g)).1.length <
        (ds.map g).length := by
      simpa only [prunePass_map, List.length_map] using hgall
    refine ⟨ds, [], ?_, ?_, ?_, ?_⟩
    · rw [prune_of_not_lt hlt]
    · rw [prune_of_not_lt hglt]
    · rw [drops, if_neg hlt]
      rfl
    · rw [drops, if_neg hglt]
      rfl

end Map

end Candidate

namespace Validator

variable {vs ws : List Validator} {c : ValidationContext}

theorem handles_eq_of_perm (h : vs.Perm ws) : handles vs = handles ws := by
  funext kind
  exact h.any_eq

theorem bound_perm (h : vs.Perm ws) (kind : Marker) : (bound vs kind).Perm (bound ws kind) :=
  h.filter _

theorem stepsOfKind_perm (h : vs.Perm ws) (c : ValidationContext) (kind : Marker) :
    (stepsOfKind vs c kind).Perm (stepsOfKind ws c kind) := by
  unfold stepsOfKind
  rw [handles_eq_of_perm h]
  split
  · exact List.Perm.flatMap_left _ fun d _ => (bound_perm h kind).map _
  · exact List.Perm.refl _

theorem steps_perm (h : vs.Perm ws) (c : ValidationContext) : (steps vs c).Perm (steps ws c) :=
  List.Perm.flatMap_left _ fun kind _ => stepsOfKind_perm h c kind

theorem passing_eq_of_perm (h : vs.Perm ws) (c : ValidationContext) (kind : Marker) :
    passing vs c kind = passing ws c kind := by
  have hall : ∀ d, allAccept (bound vs kind) ⟨c, d⟩ = allAccept (bound ws kind) ⟨c, d⟩ :=
    fun d => (bound_perm h kind).all_eq
  simp only [passing, handles_eq_of_perm h, hall]

theorem allPassing_eq_of_perm (h : vs.Perm ws) (c : ValidationContext) :
    allPassing vs c = allPassing ws c :=
  List.flatMap_congr fun kind _ => passing_eq_of_perm h c kind

theorem alike_seen (h : vs.Perm ws) (c : ValidationContext) :
    Candidate.Alike (seen vs c) (seen ws c) where
  left _ := rfl
  right _ := rfl
  owners d _ := ((bound_perm h d.marker).flatMap_right _).mem_iff

theorem exists_trace_of_perm (h : vs.Perm ws) (hgrouped : c.extracted.Grouped) :
    ∃ (kept : List Declaration) (trace : List (Declaration × List Owner)),
      (pruned vs c).1 = kept.map (seen vs c) ∧ (pruned ws c).1 = kept.map (seen ws c) ∧
      Candidate.drops (handles vs) (passed vs c) = (trace.map fun t => (seen vs c t.1, t.2)) ∧
      Candidate.drops (handles ws) (passed ws c) = trace.map fun t => (seen ws c t.1, t.2) := by
  have htrace := (alike_seen h c).exists_trace (handles ws) (allPassing ws c)
  simpa only [pruned, passed_eq_map hgrouped, allPassing_eq_of_perm h, handles_eq_of_perm h]
    using htrace

theorem completes_of_perm (h : vs.Perm ws)
    (hvs : ∀ step ∈ steps vs c, step.interruption? c = none) :
    ∀ step ∈ steps ws c, step.interruption? c = none :=
  fun step hstep => hvs step ((steps_perm h c).mem_iff.2 hstep)

theorem result_of_perm (h : vs.Perm ws) (hgrouped : c.extracted.Grouped) {m : DeclarationModel}
    (hm : (validate vs c).result = .ok m) : (validate ws c).result = .ok m := by
  have hvs := exists_validate_iff.1 ⟨m, hm⟩
  obtain ⟨kept, trace, hkept, hkept', -, -⟩ := exists_trace_of_perm h hgrouped
  have haccepted : accepted vs c = accepted ws c := by
    rw [accepted, accepted, hkept, hkept', List.map_map, List.map_map]
    rfl
  rw [result_eq_accepted hm, haccepted, validate_of_completes (completes_of_perm h hvs)]
  rfl

/-- The accepted declarations do not depend on the order of the validators. -/
theorem sameAccepted_of_perm (h : vs.Perm ws) (batches : List (Marker × List RawDeclaration))
    (catalog : Option Catalog) (project : Project) :
    ((∃ m, (validate vs ⟨.extract batches, catalog, project⟩).result = .ok m) ↔
      ∃ n, (validate ws ⟨.extract batches, catalog, project⟩).result = .ok n) ∧
    ∀ m n, (validate vs ⟨.extract batches, catalog, project⟩).result = .ok m →
      (validate ws ⟨.extract batches, catalog, project⟩).result = .ok n →
      ∀ kind, m.declarations kind = n.declarations kind := by
  have hgrouped := DeclarationModel.grouped_extract batches
  refine ⟨⟨?_, ?_⟩, ?_⟩
  · rintro ⟨m, hm⟩
    exact ⟨m, result_of_perm h hgrouped hm⟩
  · rintro ⟨n, hn⟩
    exact ⟨n, result_of_perm h.symm hgrouped hn⟩
  · intro m n hm hn kind
    have heq := (result_of_perm h hgrouped hm).symm.trans hn
    rw [Except.ok.inj heq]

private def pinValidators (first second : Marker) : List Validator :=
  [⟨⟨"box"⟩, false, none, some "Bad", [], [], none, false⟩,
    ⟨⟨"lid"⟩, false, none, some "Bad", [], [], none, false⟩,
    ⟨⟨"pin"⟩, false, none, none, [first], [], none, false⟩,
    ⟨⟨"pin"⟩, false, none, none, [second], [], none, false⟩].map Script.validator

private def pinBatches : List (Marker × List RawDeclaration) :=
  let type (name : String) : RawDeclaration :=
    ⟨⟨.classType, name, "a", none, [], [], [], [], []⟩, .empty⟩
  let field (name owner : String) : RawDeclaration :=
    ⟨⟨.field, name, owner, some "int", [], [], [], [], []⟩, .empty⟩
  [(⟨"box"⟩, [type "BadMain", type "Home"]), (⟨"lid"⟩, [type "BadMain", type "Home"]),
    (⟨"pin"⟩, [field "left" "a.BadMain", field "right" "a.Home"])]

private def pinRun (first second : Marker) : Reported DeclarationModel :=
  validate (pinValidators first second) ⟨.extract pinBatches, none, .new "a"⟩

private theorem pinValidators_perm (first second : Marker) :
    (pinValidators first second).Perm (pinValidators second first) :=
  ((List.Perm.swap _ _ []).cons _).cons _

theorem sameAccepted_of_perm_pins :
    (pinValidators ⟨"box"⟩ ⟨"lid"⟩).Perm (pinValidators ⟨"lid"⟩ ⟨"box"⟩) ∧
    ∃ m n, (pinRun ⟨"box"⟩ ⟨"lid"⟩).result = .ok m ∧ (pinRun ⟨"lid"⟩ ⟨"box"⟩).result = .ok n ∧
      (∀ kind, m.declarations kind = n.declarations kind) ∧
      (m.declarations ⟨"pin"⟩).map Declaration.qualifiedName = ["a.Home#right"] := by
  have hperm := pinValidators_perm ⟨"box"⟩ ⟨"lid"⟩
  have hsame := sameAccepted_of_perm hperm pinBatches none (.new "a")
  obtain ⟨m, hm⟩ := Reported.exists_ok (x := pinRun ⟨"box"⟩ ⟨"lid"⟩) (by decide +kernel)
  obtain ⟨n, hn⟩ := hsame.1.1 ⟨m, hm⟩
  have hpins : (pinRun ⟨"box"⟩ ⟨"lid"⟩).result.toOption.map
      (fun m => (m.declarations ⟨"pin"⟩).map Declaration.qualifiedName) =
        some ["a.Home#right"] := by decide +kernel
  rw [hm] at hpins
  exact ⟨hperm, m, n, hm, hn, hsame.2 m n hm hn, Option.some.inj hpins⟩

def need (v : Validator) (c : ValidationContext) (d : Declaration) : Candidate :=
  ⟨d, v.owners ⟨c, d⟩⟩

theorem warning?_candidate (handled : Marker → Bool) (left : List Owner)
    (c : ValidationContext) (vs : List Validator) (d : Declaration) :
    (candidate c vs d).warning? handled left =
      vs.findSome? fun v => (v.need c d).warning? handled left := by
  unfold Candidate.warning? Candidate.missingOwner? candidate allOwners
  rw [List.find?_flatMap, List.map_findSome?]
  rfl

/-- All validators that miss an owner of a declaration when it is dropped would give the same
warning, so none of them has to be the first. -/
def Unambiguous (vs : List Validator) (c : ValidationContext) : Prop :=
  ∀ r ∈ Candidate.drops (handles vs) (passed vs c), ∀ v ∈ bound vs r.1.declaration.marker,
    ∀ w ∈ bound vs r.1.declaration.marker, ∀ a b : Diagnostic,
      (v.need c r.1.declaration).warning? (handles vs) r.2 = some a →
      (w.need c r.1.declaration).warning? (handles vs) r.2 = some b → a = b

/-- Two reports with the same diagnostics, but for the owners that the warnings about dropped
declarations name. -/
def SameButOwners (found found' : List Diagnostic) : Prop :=
  ∃ (checks checks' : List Diagnostic) (skips : List (Candidate × Owner × Owner)),
    found = checks ++ (skips.map fun r => r.1.dropWarning r.2.1) ∧
    found' = checks' ++ (skips.map fun r => r.1.dropWarning r.2.2) ∧
    checks.Perm checks' ∧ ∀ r ∈ skips, r.2.1 ∈ r.1.owners ∧ r.2.2 ∈ r.1.owners

theorem exists_skips {ι : Type} {first second : ι → Option Diagnostic} {trace : List ι}
    (h : ∀ t ∈ trace, ∃ r : Candidate × Owner × Owner, (r.2.1 ∈ r.1.owners ∧ r.2.2 ∈ r.1.owners) ∧
      first t = some (r.1.dropWarning r.2.1) ∧ second t = some (r.1.dropWarning r.2.2)) :
    ∃ skips : List (Candidate × Owner × Owner),
      trace.filterMap first = (skips.map fun r => r.1.dropWarning r.2.1) ∧
      trace.filterMap second = (skips.map fun r => r.1.dropWarning r.2.2) ∧
      ∀ r ∈ skips, r.2.1 ∈ r.1.owners ∧ r.2.2 ∈ r.1.owners := by
  induction trace with
  | nil => exact ⟨[], rfl, rfl, by simp⟩
  | cons t trace ih =>
    obtain ⟨r, howners, hfirst, hsecond⟩ := h t List.mem_cons_self
    obtain ⟨skips, hfirsts, hseconds, hskips⟩ := ih fun s hs => h s (List.mem_cons_of_mem t hs)
    refine ⟨r :: skips, ?_, ?_, ?_⟩
    · rw [List.filterMap_cons_some hfirst, hfirsts, List.map_cons]
    · rw [List.filterMap_cons_some hsecond, hseconds, List.map_cons]
    · intro r' hr'
      rcases List.mem_cons.1 hr' with rfl | hr'
      · exact howners
      · exact hskips r' hr'

theorem checks_perm (h : vs.Perm ws) (c : ValidationContext) :
    ((steps vs c).flatMap (Step.report c)).Perm ((steps ws c).flatMap (Step.report c)) :=
  (steps_perm h c).flatMap_right _

section Orders

variable (hgrouped : c.extracted.Grouped)
include hgrouped

theorem sameButOwners_of_perm (h : vs.Perm ws)
    (hvs : ∀ step ∈ steps vs c, step.interruption? c = none) :
    SameButOwners (validate vs c).diagnostics (validate ws c).diagnostics := by
  obtain ⟨kept, trace, -, -, hdrops, hdrops'⟩ := exists_trace_of_perm h hgrouped
  have hwarnings : ∀ t ∈ trace, ∃ r : Candidate × Owner × Owner,
      (r.2.1 ∈ r.1.owners ∧ r.2.2 ∈ r.1.owners) ∧
      (seen vs c t.1).warning? (handles vs) t.2 = some (r.1.dropWarning r.2.1) ∧
      (seen ws c t.1).warning? (handles ws) t.2 = some (r.1.dropWarning r.2.2) := by
    intro t ht
    have hmem := Candidate.of_mem_drops (hdrops ▸ List.mem_map_of_mem ht)
    have hmem' := Candidate.of_mem_drops (hdrops' ▸ List.mem_map_of_mem ht)
    obtain ⟨owner, howner⟩ := Option.isSome_iff_exists.1 hmem.2
    obtain ⟨owner', howner'⟩ := Option.isSome_iff_exists.1 hmem'.2
    refine ⟨(seen vs c t.1, owner, owner'), ⟨(Candidate.missingOwner?_eq_some howner).1, ?_⟩,
      congrArg (Option.map _) howner, congrArg (Option.map _) howner'⟩
    exact ((alike_seen h c).owners t.1 owner').2 (Candidate.missingOwner?_eq_some howner').1
  obtain ⟨skips, hskips, hskips', howners⟩ := exists_skips hwarnings
  refine ⟨_, _, skips, ?_, ?_, checks_perm h c, howners⟩
  · rw [validate_of_completes hvs, pruned, Candidate.prune_snd, hdrops, List.filterMap_map,
      ← hskips]
    rfl
  · rw [validate_of_completes (completes_of_perm h hvs), pruned, Candidate.prune_snd, hdrops',
      List.filterMap_map, ← hskips']
    rfl

theorem pruned_snd_of_unambiguous (h : vs.Perm ws) (hvs : Unambiguous vs c) :
    (pruned vs c).2 = (pruned ws c).2 := by
  obtain ⟨kept, trace, -, -, hdrops, hdrops'⟩ := exists_trace_of_perm h hgrouped
  rw [pruned, pruned, Candidate.prune_snd, Candidate.prune_snd, hdrops, hdrops',
    List.filterMap_map, List.filterMap_map]
  refine List.filterMap_congr fun t ht => ?_
  have hmem : (seen vs c t.1, t.2) ∈ Candidate.drops (handles vs) (passed vs c) :=
    hdrops ▸ List.mem_map_of_mem ht
  have hsome := (Candidate.of_mem_drops hmem).2
  have hsome' := (Candidate.of_mem_drops (hdrops' ▸ List.mem_map_of_mem ht)).2
  rw [← Candidate.isSome_warning?] at hsome hsome'
  obtain ⟨a, ha⟩ := Option.isSome_iff_exists.1 hsome
  obtain ⟨b, hb⟩ := Option.isSome_iff_exists.1 hsome'
  obtain ⟨v, hv, hva⟩ := List.exists_of_findSome?_eq_some (warning?_candidate .. ▸ ha)
  obtain ⟨w, hw, hwb⟩ := List.exists_of_findSome?_eq_some (warning?_candidate .. ▸ hb)
  have hw' : w ∈ bound vs t.1.marker := (bound_perm h t.1.marker).mem_iff.2 hw
  rw [← handles_eq_of_perm h] at hwb
  have hab := hvs _ hmem v hv w hw' a b hva hwb
  show (seen vs c t.1).warning? _ t.2 = (seen ws c t.1).warning? _ t.2
  rw [ha, hb, hab]

theorem mem_pruned_snd_of_front {v : Validator} {rest : List Validator}
    (h : vs.Perm (v :: rest)) {r : Candidate × List Owner} {a : Diagnostic}
    (hr : r ∈ Candidate.drops (handles vs) (passed vs c)) (hv : v.kind = r.1.declaration.marker)
    (ha : (v.need c r.1.declaration).warning? (handles vs) r.2 = some a) :
    a ∈ (pruned (v :: rest) c).2 := by
  obtain ⟨kept, trace, -, -, hdrops, hdrops'⟩ := exists_trace_of_perm h hgrouped
  rw [hdrops] at hr
  obtain ⟨t, ht, rfl⟩ := List.mem_map.1 hr
  have hbound : bound (v :: rest) t.1.marker = v :: bound rest t.1.marker :=
    List.filter_cons_of_pos (decide_eq_true hv)
  rw [pruned, Candidate.prune_snd, hdrops', List.filterMap_map]
  refine List.mem_filterMap.2 ⟨t, ht, ?_⟩
  show (seen (v :: rest) c t.1).warning? (handles (v :: rest)) t.2 = some a
  rw [seen, warning?_candidate, hbound, List.findSome?_cons, ← handles_eq_of_perm h]
  rw [show (v.need c t.1).warning? (handles vs) t.2 = some a from ha]

/-- If no order changes the content of the report, no validator has to be the first. -/
theorem unambiguous_of_perm (hvs : ∀ step ∈ steps vs c, step.interruption? c = none)
    (hall : ∀ ws, vs.Perm ws →
      (validate vs c).diagnostics.Perm (validate ws c).diagnostics) : Unambiguous vs c := by
  have hwarnings : ∀ ws, vs.Perm ws → (pruned vs c).2.Perm (pruned ws c).2 := by
    intro ws h
    have hreports := hall ws h
    rw [validate_of_completes hvs, validate_of_completes (completes_of_perm h hvs)] at hreports
    exact (List.perm_append_left_iff _).1
      (((checks_perm h c).symm.append_right _).trans hreports)
  have hfront : ∀ v ∈ vs, ∃ rest, vs.Perm (v :: rest) := by
    intro v hv
    obtain ⟨before, after, rfl⟩ := List.append_of_mem hv
    exact ⟨before ++ after, List.perm_middle⟩
  -- Each of the two validators is moved to the front in turn, and makes its own warning there.
  intro r hr v hv w hw a b ha hb
  obtain ⟨hv, hvkind⟩ := mem_bound_iff.1 hv
  obtain ⟨hw, hwkind⟩ := mem_bound_iff.1 hw
  obtain ⟨rest, hrest⟩ := hfront v hv
  obtain ⟨rest', hrest'⟩ := hfront w hw
  have hmem := mem_pruned_snd_of_front hgrouped hrest hr hvkind ha
  have hmem' := mem_pruned_snd_of_front hgrouped hrest' hr hwkind hb
  -- Both warnings are about the same declaration, and pruning gives one warning about it.
  have hlocation : a.location = b.location := by
    obtain ⟨owner, -, rfl⟩ := Option.map_eq_some_iff.1 ha
    obtain ⟨owner', -, rfl⟩ := Option.map_eq_some_iff.1 hb
    rfl
  refine List.inj_on_of_nodup_map (nodup_locations_pruned hgrouped vs) ?_ ?_ hlocation
  · exact (hwarnings _ hrest).mem_iff.2 hmem
  · exact (hwarnings _ hrest').mem_iff.2 hmem'

end Orders

/-- Another order of the validators changes at most the owner that the warning for a dropped
declaration names. No order changes the content of the report if and only if the validators leave no
choice of that owner. -/
theorem sameReports_iff_unambiguous {vs : List Validator}
    {batches : List (Marker × List RawDeclaration)} {catalog : Option Catalog} {project : Project}
    {m : DeclarationModel}
    (hm : (validate vs ⟨.extract batches, catalog, project⟩).result = .ok m) :
    (∀ ws, vs.Perm ws →
      SameButOwners (validate vs ⟨.extract batches, catalog, project⟩).diagnostics
        (validate ws ⟨.extract batches, catalog, project⟩).diagnostics) ∧
    ((∀ ws, vs.Perm ws → (validate vs ⟨.extract batches, catalog, project⟩).diagnostics.Perm
        (validate ws ⟨.extract batches, catalog, project⟩).diagnostics) ↔
      Unambiguous vs ⟨.extract batches, catalog, project⟩) := by
  have hgrouped := DeclarationModel.grouped_extract batches
  have hvs := exists_validate_iff.1 ⟨m, hm⟩
  refine ⟨fun ws h => sameButOwners_of_perm hgrouped h hvs,
    unambiguous_of_perm hgrouped hvs, fun hunambiguous ws h => ?_⟩
  rw [validate_of_completes hvs, validate_of_completes (completes_of_perm h hvs),
    pruned_snd_of_unambiguous hgrouped h hunambiguous]
  exact (checks_perm h _).append_right _

theorem sameReports_iff_unambiguous_pins :
    (∃ m, (pinRun ⟨"box"⟩ ⟨"lid"⟩).result = .ok m) ∧
    SameButOwners (pinRun ⟨"box"⟩ ⟨"lid"⟩).diagnostics (pinRun ⟨"lid"⟩ ⟨"box"⟩).diagnostics ∧
    ((∀ ws, (pinValidators ⟨"box"⟩ ⟨"lid"⟩).Perm ws → (pinRun ⟨"box"⟩ ⟨"lid"⟩).diagnostics.Perm
        (validate ws ⟨.extract pinBatches, none, .new "a"⟩).diagnostics) ↔
      Unambiguous (pinValidators ⟨"box"⟩ ⟨"lid"⟩) ⟨.extract pinBatches, none, .new "a"⟩) := by
  obtain ⟨m, hm⟩ := Reported.exists_ok (x := pinRun ⟨"box"⟩ ⟨"lid"⟩) (by decide +kernel)
  obtain ⟨hsame, hiff⟩ := sameReports_iff_unambiguous hm
  exact ⟨⟨m, hm⟩, hsame _ (pinValidators_perm _ _), hiff⟩

/-- Both types around the pin are rejected, and the order of its validators says which is named. -/
theorem reportsDiffer_of_perm_pins :
    (pinValidators ⟨"box"⟩ ⟨"lid"⟩).Perm (pinValidators ⟨"lid"⟩ ⟨"box"⟩) ∧
    (∃ m, (pinRun ⟨"box"⟩ ⟨"lid"⟩).result = .ok m) ∧
    (∃ n, (pinRun ⟨"lid"⟩ ⟨"box"⟩).result = .ok n) ∧
    (pinRun ⟨"box"⟩ ⟨"lid"⟩).diagnostics.map Diagnostic.message =
      ["rejected BadMain", "rejected BadMain", "@pin skipped: @box a.BadMain was rejected"] ∧
    (pinRun ⟨"lid"⟩ ⟨"box"⟩).diagnostics.map Diagnostic.message =
      ["rejected BadMain", "rejected BadMain", "@pin skipped: @lid a.BadMain was rejected"] ∧
    ¬ (pinRun ⟨"box"⟩ ⟨"lid"⟩).diagnostics.Perm (pinRun ⟨"lid"⟩ ⟨"box"⟩).diagnostics :=
  ⟨pinValidators_perm _ _, Reported.exists_ok (by decide +kernel),
    Reported.exists_ok (by decide +kernel), by decide +kernel, by decide +kernel,
    by decide +kernel⟩

end Validator

end ComponentGlue
