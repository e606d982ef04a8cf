import ComponentGlue.Memory.Script
import ComponentGlue.Proofs.Validation.Validated

set_option autoImplicit false
set_option relaxedAutoImplicit false

namespace ComponentGlue

def Condemned (found : List Diagnostic) (d : Declaration) : Prop :=
  ∃ w ∈ found, w.isError = true ∧ w.location = some d.ref

inductive Fate where
  | accepted
  /-- A validator of its kind turns it down. -/
  | rejected
  /-- Every validator of its kind accepts it, but an owner is missing. -/
  | skipped
  /-- Its kind has no validator. -/
  | ignored

namespace Validator

variable {vs : List Validator} {c : ValidationContext}

theorem location_of_mem_report_turn {d : Declaration} {v : Validator} {w : Diagnostic}
    (h : w ∈ (turn c d v).report c) : w.location = some d.ref := by
  unfold turn at h
  split at h
  · rw [List.mem_singleton.1 h]
    rfl
  · exact (Findings.of_mem_diagnostics h).2

theorem exists_isError_report_turn_iff {d : Declaration} {v : Validator} :
    (∃ w ∈ (turn c d v).report c, w.isError = true) ↔ v.accepts ⟨c, d⟩ = false := by
  unfold turn accepts
  cases hblocked : v.blocked c with
  | true => exact ⟨fun _ => rfl, fun _ => ⟨_, List.mem_singleton_self _, rfl⟩⟩
  | false =>
    refine Findings.exists_isError_iff.trans ?_
    simp

/-- What a fate leaves of a declaration in the model and in the report of a run. -/
def FateHolds (vs : List Validator) (c : ValidationContext) (m : DeclarationModel)
    (d : Declaration) : Fate → Prop
  | .accepted => (m.all.filter fun e => e.asOwner = d.asOwner) = [d] ∧
      ¬ Condemned (validate vs c).diagnostics d
  | .rejected => (∃ v ∈ vs, v.kind = d.marker ∧ v.accepts ⟨c, d⟩ = false) ∧
      Condemned (validate vs c).diagnostics d
  | .skipped => (∀ v ∈ vs, v.kind = d.marker → v.accepts ⟨c, d⟩ = true) ∧
      ¬ Condemned (validate vs c).diagnostics d ∧
      ∃ owner ∈ (seen vs c d).owners, m.isAnnotated owner.element owner.marker = false ∧
        ((pruned vs c).2.filter fun w => w.location = some d.ref) =
          [(seen vs c d).dropWarning owner]
  | .ignored => handles vs d.marker = false ∧
      ignoredWarning (c.extracted.declarations d.marker).length d.marker ∈
        (validate vs c).diagnostics

section Run

variable (hgrouped : c.extracted.Grouped)
  (hvs : ∀ step ∈ steps vs c, step.interruption? c = none)
include hgrouped

theorem isError_of_mem_pruned_snd {w : Diagnostic} (hw : w ∈ (pruned vs c).2) :
    w.isError = false := by
  obtain ⟨drops, hwarnings, -⟩ := exists_drops hgrouped vs
  rw [hwarnings] at hw
  obtain ⟨r, -, rfl⟩ := List.mem_map.1 hw
  rfl

include hvs

theorem condemned_iff {d : Declaration} (hd : d ∈ c.extracted.declarations d.marker) :
    Condemned (validate vs c).diagnostics d ↔
      ∃ v ∈ vs, v.kind = d.marker ∧ v.accepts ⟨c, d⟩ = false := by
  rw [validate_of_completes hvs]
  constructor
  · rintro ⟨w, hw, herror, hlocation⟩
    -- A step that records an error about the declaration is taken at the declaration itself, since
    -- no other declaration of its kind has its name.
    rcases List.mem_append.1 hw with hw | hw
    · obtain ⟨step, hstep, hw⟩ := List.mem_flatMap.1 hw
      rcases mem_steps_iff.1 hstep with ⟨kind, -, -, rfl⟩ | ⟨v, hv, e, he, rfl⟩
      · rw [List.mem_singleton.1 hw] at hlocation
        cases hlocation
      · have href : e.ref = d.ref :=
          Option.some.inj ((location_of_mem_report_turn hw).symm.trans hlocation)
        have hkind : v.kind = d.marker :=
          (hgrouped.marker_eq v.kind e he).symm.trans (congrArg DeclarationRef.marker href)
        obtain rfl : e = d := hgrouped.eq_of_qualifiedName_eq he (hkind ▸ hd)
          (congrArg DeclarationRef.element href)
        exact ⟨v, hv, hkind, exists_isError_report_turn_iff.1 ⟨w, hw, herror⟩⟩
    · cases (isError_of_mem_pruned_snd hgrouped hw).symm.trans herror
  · rintro ⟨v, hv, hkind, hrejects⟩
    obtain ⟨w, hw, herror⟩ := exists_isError_report_turn_iff.2 hrejects
    have hstep : turn c d v ∈ steps vs c := mem_steps_iff.2 (Or.inr ⟨v, hv, d, hkind ▸ hd, rfl⟩)
    exact ⟨w, List.mem_append_left _ (List.mem_flatMap.2 ⟨_, hstep, hw⟩), herror,
      location_of_mem_report_turn hw⟩

theorem not_condemned_of_mem_allPassing {d : Declaration} (h : d ∈ allPassing vs c) :
    ¬ Condemned (validate vs c).diagnostics d := by
  obtain ⟨hd, -, hall⟩ := (mem_allPassing_iff hgrouped).1 h
  rw [condemned_iff hgrouped hvs hd]
  rintro ⟨v, hv, hkind, hrejects⟩
  exact absurd (hall v hv hkind) (by simp [hrejects])

theorem holds_accepted_iff {d : Declaration} :
    FateHolds vs c (accepted vs c) d .accepted ↔ seen vs c d ∈ (pruned vs c).1 := by
  have haccepted := grouped_accepted hgrouped vs
  constructor
  · rintro ⟨honly, -⟩
    have hmem : d ∈ (accepted vs c).all :=
      (List.mem_filter.1 (honly ▸ List.mem_singleton_self d)).1
    exact ((mem_accepted_iff hgrouped).1 (haccepted.mem_all_iff.1 hmem)).1
  · intro hkept
    have hmem : d ∈ (accepted vs c).all :=
      haccepted.mem_all_iff.2 ((mem_accepted_iff hgrouped).2 ⟨hkept, rfl⟩)
    exact ⟨filter_eq_singleton haccepted.nodup_owners hmem (decide_eq_true rfl)
      fun e he => of_decide_eq_true he,
      not_condemned_of_mem_allPassing hgrouped hvs (mem_allPassing_of_kept hgrouped hkept)⟩

theorem holds_rejected_iff {d : Declaration} (hd : d ∈ c.extracted.declarations d.marker) :
    FateHolds vs c (accepted vs c) d .rejected ↔
      ∃ v ∈ vs, v.kind = d.marker ∧ v.accepts ⟨c, d⟩ = false :=
  ⟨And.left, fun h => ⟨h, (condemned_iff hgrouped hvs hd).2 h⟩⟩

theorem holds_skipped_iff {d : Declaration} (hd : d ∈ c.extracted.declarations d.marker) :
    FateHolds vs c (accepted vs c) d .skipped ↔
      d ∈ allPassing vs c ∧ seen vs c d ∉ (pruned vs c).1 := by
  constructor
  · rintro ⟨-, -, owner, -, -, hwarning⟩
    by_contra hnot
    rw [filter_pruned_snd_eq_nil hgrouped (hgrouped.mem_all_iff.2 hd) hnot] at hwarning
    cases hwarning
  · rintro ⟨hpassing, hdropped⟩
    obtain ⟨owner, howner, hmissing, hwarning⟩ :=
      exists_filter_pruned_snd hgrouped hpassing hdropped
    refine ⟨((mem_allPassing_iff hgrouped).1 hpassing).2.2,
      not_condemned_of_mem_allPassing hgrouped hvs hpassing, owner, howner, ?_, hwarning⟩
    rw [← Bool.not_eq_true, isAnnotated_accepted_iff]
    exact hmissing

omit hgrouped in
theorem holds_ignored_iff {d : Declaration} (hd : d ∈ c.extracted.declarations d.marker) :
    FateHolds vs c (accepted vs c) d .ignored ↔ handles vs d.marker = false := by
  refine ⟨And.left, fun h => ⟨h, ?_⟩⟩
  have hstep : Step.ignore d.marker ∈ steps vs c :=
    mem_steps_iff.2 (Or.inl ⟨d.marker, DeclarationModel.mem_kinds_of_mem hd, h, rfl⟩)
  rw [validate_of_completes hvs]
  exact List.mem_append_left _ (List.mem_flatMap.2 ⟨_, hstep, List.mem_singleton_self _⟩)

/-- The four fates leave no gap and do not overlap. -/
theorem existsUnique_fate {d : Declaration} (hd : d ∈ c.extracted.declarations d.marker) :
    ∃! fate, FateHolds vs c (accepted vs c) d fate := by
  have haccepted := holds_accepted_iff hgrouped hvs (d := d)
  have hrejected := holds_rejected_iff hgrouped hvs hd
  have hskipped := holds_skipped_iff hgrouped hvs hd
  have hignored := holds_ignored_iff hvs hd
  by_cases hpassing : d ∈ allPassing vs c
  · -- All validators of the kind accept it, and its owners decide.
    obtain ⟨-, hhandles, -⟩ := (mem_allPassing_iff hgrouped).1 hpassing
    have hfree := not_condemned_of_mem_allPassing hgrouped hvs hpassing
    have hheeded : ¬ FateHolds vs c (accepted vs c) d .ignored := by simp [hignored, hhandles]
    by_cases hkept : seen vs c d ∈ (pruned vs c).1
    · refine ⟨.accepted, haccepted.2 hkept, fun fate h => ?_⟩
      cases fate with
      | accepted => rfl
      | rejected => exact absurd h.2 hfree
      | skipped => exact absurd hkept (hskipped.1 h).2
      | ignored => exact absurd h hheeded
    · refine ⟨.skipped, hskipped.2 ⟨hpassing, hkept⟩, fun fate h => ?_⟩
      cases fate with
      | accepted => exact absurd (haccepted.1 h) hkept
      | rejected => exact absurd h.2 hfree
      | skipped => rfl
      | ignored => exact absurd h hheeded
  · -- It does not get as far as pruning.
    have hout : ¬ FateHolds vs c (accepted vs c) d .accepted :=
      fun h => hpassing (mem_allPassing_of_kept hgrouped (haccepted.1 h))
    have hnever : ¬ FateHolds vs c (accepted vs c) d .skipped :=
      fun h => hpassing (hskipped.1 h).1
    by_cases hhandles : handles vs d.marker = true
    · have hrejects : ∃ v ∈ vs, v.kind = d.marker ∧ v.accepts ⟨c, d⟩ = false := by
        by_contra hnone
        refine hpassing ((mem_allPassing_iff hgrouped).2 ⟨hd, hhandles, fun v hv hkind => ?_⟩)
        by_contra haccepts
        exact hnone ⟨v, hv, hkind, Bool.not_eq_true _ ▸ haccepts⟩
      refine ⟨.rejected, hrejected.2 hrejects, fun fate h => ?_⟩
      cases fate with
      | accepted => exact absurd h hout
      | rejected => rfl
      | skipped => exact absurd h hnever
      | ignored => exact absurd (hignored.1 h) (by simp [hhandles])
    · refine ⟨.ignored, hignored.2 (Bool.not_eq_true _ ▸ hhandles), fun fate h => ?_⟩
      cases fate with
      | accepted => exact absurd h hout
      | rejected =>
        obtain ⟨v, hv, hkind, -⟩ := hrejected.1 h
        exact absurd (hkind ▸ handles_of_mem hv) hhandles
      | skipped => exact absurd h hnever
      | ignored => rfl

end Run

/-- No declaration is lost without a word. In a run that ends with a model each extracted declaration
has exactly one fate, and the model holds, in the order of extraction, accepted ones only. -/
theorem existsUnique_fate_of_result {vs : List Validator}
    {batches : List (Marker × List RawDeclaration)} {catalog : Option Catalog} {project : Project} {m : DeclarationModel}
    (hm : (validate vs ⟨.extract batches, catalog, project⟩).result = .ok m) :
    (validate vs ⟨.extract batches, catalog, project⟩).diagnostics =
      ((steps vs ⟨.extract batches, catalog, project⟩).flatMap
        (Step.report ⟨.extract batches, catalog, project⟩)) ++
          (pruned vs ⟨.extract batches, catalog, project⟩).2 ∧
    (∀ kind, ∀ d ∈ (DeclarationModel.extract batches).declarations kind,
      ∃! fate, FateHolds vs ⟨.extract batches, catalog, project⟩ m d fate) ∧
    ∀ kind,
      (m.declarations kind).Sublist ((DeclarationModel.extract batches).declarations kind) ∧
      ∀ d ∈ m.declarations kind, FateHolds vs ⟨.extract batches, catalog, project⟩ m d .accepted := by
  have hgrouped := DeclarationModel.grouped_extract batches
  have hvs := exists_validate_iff.1 ⟨m, hm⟩
  rw [result_eq_accepted hm]
  refine ⟨congrArg Reported.diagnostics (validate_of_completes hvs), fun kind d hd => ?_,
    fun kind => ⟨sublist_accepted hgrouped vs kind, fun d hd => ?_⟩⟩
  · obtain rfl := hgrouped.marker_eq kind d hd
    exact existsUnique_fate hgrouped hvs hd
  · exact (holds_accepted_iff hgrouped hvs).2 ((mem_accepted_iff hgrouped).1 hd).1

private def lidValidators : List Validator :=
  [⟨⟨"box"⟩, false, none, some "Bad", [], [], none, false⟩,
    ⟨⟨"pin"⟩, false, none, none, [⟨"box"⟩], [], none, false⟩].map Script.validator

private def lidBatches : List (Marker × List RawDeclaration) :=
  let type (name : String) : RawDeclaration :=
    ⟨⟨.classType, name, "a", none, [], [], [], [], []⟩, .empty⟩
  let field (name owner : String) : RawDeclaration :=
    ⟨⟨.field, name, owner, some "int", [], [], [], [], []⟩, .empty⟩
  [(⟨"lid"⟩, [type "Cover"]), (⟨"box"⟩, [type "BadMain", type "Home"]),
    (⟨"pin"⟩, [field "left" "a.BadMain", field "right" "a.Home"])]

private def lidRun : Reported DeclarationModel :=
  validate lidValidators ⟨.extract lidBatches, none, .new "a"⟩

theorem existsUnique_fate_of_result_lids :
    ∃ m, lidRun.result = .ok m ∧
    (∀ kind, ∀ d ∈ (DeclarationModel.extract lidBatches).declarations kind,
      ∃! fate, FateHolds lidValidators ⟨.extract lidBatches, none, .new "a"⟩ m d fate) ∧
    m.all.map Declaration.qualifiedName = ["a.Home", "a.Home#right"] ∧
    lidRun.diagnostics.map Diagnostic.message =
      ["1 declaration(s) marked @lid ignored: no validator is registered for this kind",
        "rejected BadMain", "@pin skipped: @box a.BadMain was rejected"] := by
  obtain ⟨m, hm⟩ := Reported.exists_ok (x := lidRun) (by decide +kernel)
  have hnames : lidRun.result.toOption.map (fun m => m.all.map Declaration.qualifiedName) =
      some ["a.Home", "a.Home#right"] := by decide +kernel
  rw [hm] at hnames
  exact ⟨m, hm, (existsUnique_fate_of_result hm).2.1, Option.some.inj hnames, by decide +kernel⟩

end Validator

end ComponentGlue
