import Mathlib.Logic.Relation
import ComponentGlue.Proofs.Validation.Accepted
import ComponentGlue.Proofs.Validation.Reordering

set_option autoImplicit false
set_option relaxedAutoImplicit false

namespace ComponentGlue

open Relation (ReflTransGen)

namespace Candidate

variable {handled : Marker → Bool} {cs : List Candidate}

def DroppedFor (handled : Marker → Bool) (cs : List Candidate) (x : Candidate) (owner : Owner) :
    Prop :=
  ∃ left, (x, left) ∈ drops handled cs ∧ x.missingOwner? handled left = some owner

theorem droppedFor_iff_of_lt (hlt : (prunePass handled (present cs) cs).1.length < cs.length)
    {x : Candidate} {owner : Owner} :
    DroppedFor handled cs x owner ↔
      (x ∈ cs ∧ x.missingOwner? handled (present cs) = some owner) ∨
        DroppedFor handled (prunePass handled (present cs) cs).1 x owner := by
  unfold DroppedFor
  rw [drops, if_pos hlt]
  constructor
  · rintro ⟨left, hdrops, hmissing⟩
    rcases List.mem_append.1 hdrops with hdrops | hdrops
    · obtain ⟨y, hy, heq⟩ := List.mem_map.1 hdrops
      obtain ⟨rfl, rfl⟩ := Prod.mk.inj heq
      exact Or.inl ⟨(List.mem_filter.1 hy).1, hmissing⟩
    · exact Or.inr ⟨left, hdrops, hmissing⟩
  · rintro (⟨hx, hmissing⟩ | ⟨left, hdrops, hmissing⟩)
    · have hsome : (x.missingOwner? handled (present cs)).isSome = true := by simp [hmissing]
      refine ⟨present cs, List.mem_append_left _ ?_, hmissing⟩
      exact List.mem_map_of_mem (List.mem_filter.2 ⟨hx, hsome⟩)
    · exact ⟨left, List.mem_append_right _ hdrops, hmissing⟩

theorem not_droppedFor_of_not_lt
    (hlt : ¬ (prunePass handled (present cs) cs).1.length < cs.length) {x : Candidate}
    {owner : Owner} : ¬ DroppedFor handled cs x owner := by
  rintro ⟨left, hdrops, -⟩
  rw [drops, if_neg hlt] at hdrops
  cases hdrops

theorem DroppedFor.mem {x : Candidate} {owner : Owner} (h : DroppedFor handled cs x owner) :
    x ∈ cs := by
  obtain ⟨left, hdrops, -⟩ := h
  exact (of_mem_drops hdrops).1

theorem DroppedFor.unique {x : Candidate} {a b : Owner} (ha : DroppedFor handled cs x a)
    (hb : DroppedFor handled cs x b) : a = b := by
  induction cs using prune.induct handled with
  | case1 cs hlt ih =>
    -- What one pass drops does not reach the next.
    have hgone : ∀ {o o' : Owner}, x.missingOwner? handled (present cs) = some o →
        ¬ DroppedFor handled (prunePass handled (present cs) cs).1 x o' := by
      intro o o' hmissing hlater
      have hkept := hlater.mem
      rw [prunePass_fst, List.mem_filter, hmissing] at hkept
      cases hkept.2
    rcases (droppedFor_iff_of_lt hlt).1 ha with ⟨-, hanow⟩ | halater
    · rcases (droppedFor_iff_of_lt hlt).1 hb with ⟨-, hbnow⟩ | hblater
      · exact Option.some.inj (hanow.symm.trans hbnow)
      · exact absurd hblater (hgone hanow)
    · rcases (droppedFor_iff_of_lt hlt).1 hb with ⟨-, hbnow⟩ | hblater
      · exact absurd halater (hgone hbnow)
      · exact ih halater hblater
  | case2 cs hlt => exact absurd ha (not_droppedFor_of_not_lt hlt)

def DroppedAfter (handled : Marker → Bool) (cs : List Candidate) (x y : Candidate) : Prop :=
  DroppedFor handled cs x y.declaration.asOwner ∧ ∃ owner, DroppedFor handled cs y owner

/-- From a dropped candidate one dropped candidate leads to the next, up to one whose missing owner
was never there. -/
theorem DroppedFor.exists_absent {x : Candidate} {owner : Owner}
    (h : DroppedFor handled cs x owner) :
    ∃ y absent, ReflTransGen (DroppedAfter handled cs) x y ∧ DroppedFor handled cs y absent ∧
      absent ∉ present cs := by
  -- The induction is on the passes. An owner that a later pass misses was absent from the start, or
  -- the first pass has dropped it, for want of an owner that was.
  induction cs using prune.induct handled generalizing x owner with
  | case1 cs hlt ih =>
    rcases (droppedFor_iff_of_lt hlt).1 h with ⟨-, hmissing⟩ | hlater
    · exact ⟨x, owner, .refl, h, (missingOwner?_eq_some hmissing).2.2⟩
    · obtain ⟨y, absent, hchain, hy, habsent⟩ := ih hlater
      have hlift : ∀ {z : Candidate} {o : Owner},
          DroppedFor handled (prunePass handled (present cs) cs).1 z o →
          DroppedFor handled cs z o := fun hz => (droppedFor_iff_of_lt hlt).2 (Or.inr hz)
      have hchain' : ReflTransGen (DroppedAfter handled cs) x y :=
        ReflTransGen.mono (fun _ _ hstep => ⟨hlift hstep.1, hstep.2.imp fun _ => hlift⟩) _ _ hchain
      by_cases hbefore : absent ∈ present cs
      · obtain ⟨z, hz, rfl⟩ := List.mem_map.1 hbefore
        obtain ⟨last, hlast⟩ : ∃ last, z.missingOwner? handled (present cs) = some last := by
          rw [← Option.ne_none_iff_exists']
          intro hnone
          refine habsent (List.mem_map_of_mem ?_)
          rw [prunePass_fst]
          exact List.mem_filter.2 ⟨hz, Option.isNone_iff_eq_none.2 hnone⟩
        have hzdropped : DroppedFor handled cs z last :=
          (droppedFor_iff_of_lt hlt).2 (Or.inl ⟨hz, hlast⟩)
        exact ⟨z, last, hchain'.tail ⟨hlift hy, last, hzdropped⟩, hzdropped,
          (missingOwner?_eq_some hlast).2.2⟩
      · exact ⟨y, absent, hchain', hlift hy, hbefore⟩
  | case2 cs hlt => exact absurd h (not_droppedFor_of_not_lt hlt)

theorem mem_prune_snd_iff {w : Diagnostic} :
    w ∈ (prune handled cs).2 ↔
      ∃ x owner, DroppedFor handled cs x owner ∧ w = x.dropWarning owner := by
  rw [prune_snd, List.mem_filterMap]
  constructor
  · rintro ⟨⟨x, left⟩, hdrops, hw⟩
    obtain ⟨owner, howner, rfl⟩ := Option.map_eq_some_iff.1 hw
    exact ⟨x, owner, ⟨left, hdrops, howner⟩, rfl⟩
  · rintro ⟨x, owner, ⟨left, hdrops, hmissing⟩, rfl⟩
    exact ⟨(x, left), hdrops, congrArg (Option.map _) hmissing⟩

end Candidate

theorem Subject.isAnnotated_of_needs_guarded {s : Subject} {qualified message : String}
    {kind : Marker} {owner : Owner}
    (h : .needs owner ∈ (if s.context.extracted.isAnnotated qualified kind then do
        dependsOn qualified kind
        return true
      else Checked.require false message : Checked Bool).findings) :
    s.context.extracted.isAnnotated owner.element owner.marker = true := by
  split at h
  · next hmarked =>
    obtain rfl := Finding.needs.inj (List.mem_singleton.1 h)
    exact hmarked
  · cases List.mem_singleton.1 h

/-- What a check finds that records owners by calling `enclosedBy` and `alsoMarked`, and in no other
way. -/
inductive Findings.ByMarks (s : Subject) : Findings → Prop where
  | none : ByMarks s []
  | other {fs : Findings} {f : Finding} : ByMarks s fs → f.owner? = none → ByMarks s (fs ++ [f])
  | enclosedBy {fs : Findings} (kind : Marker) :
    ByMarks s fs → ByMarks s (fs ++ (s.enclosedBy kind).findings)
  | alsoMarked {fs : Findings} (kind : Marker) :
    ByMarks s fs → ByMarks s (fs ++ (s.alsoMarked kind).findings)

namespace Findings

variable {s : Subject} {fs gs : Findings}

theorem mem_owners_iff {owner : Owner} : owner ∈ fs.owners ↔ .needs owner ∈ fs := by
  rw [owners, mem_appendDistinct, List.mem_filterMap]
  constructor
  · rintro (h | ⟨f, hf, howner⟩)
    · cases h
    · cases f with
      | needs o => exact Option.some.inj howner ▸ hf
      | error message => cases howner
      | warning message => cases howner
      | lookedUp key => cases howner
  · exact fun h => Or.inr ⟨_, h, rfl⟩

theorem ByMarks.isAnnotated (h : fs.ByMarks s) {owner : Owner} (howner : owner ∈ fs.owners) :
    s.context.extracted.isAnnotated owner.element owner.marker = true := by
  rw [mem_owners_iff] at howner
  induction h with
  | none => cases howner
  | other hfs hf ih =>
    rcases List.mem_append.1 howner with howner | howner
    · exact ih howner
    · rw [← List.mem_singleton.1 howner] at hf
      cases hf
  | enclosedBy kind hfs ih =>
    rcases List.mem_append.1 howner with howner | howner
    · exact ih howner
    · exact Subject.isAnnotated_of_needs_guarded howner
  | alsoMarked kind hfs ih =>
    rcases List.mem_append.1 howner with howner | howner
    · exact ih howner
    · exact Subject.isAnnotated_of_needs_guarded howner

end Findings

namespace Script

theorem byMarks_each {s : Subject} {fs : Findings} (hfs : fs.ByMarks s) (kinds : List Marker)
    (call : Marker → Checked Bool)
    (hcall : ∀ kind {gs : Findings}, gs.ByMarks s →
      Findings.ByMarks s (gs ++ (call kind).findings)) :
    Findings.ByMarks s
      (fs ++ (Checked.each kinds fun kind => do let _ ← call kind : Checked Unit).findings) := by
  induction kinds generalizing fs with
  | nil => simpa [Checked.each] using hfs
  | cons kind kinds ih => simpa [Checked.each] using ih (hcall kind hfs)

theorem byMarks_marks (script : Script) {s : Subject} {fs : Findings} (hfs : fs.ByMarks s) :
    Findings.ByMarks s (fs ++ (do
      Checked.each script.enclosedBy fun kind => do let _ ← s.enclosedBy kind
      Checked.each script.alsoMarked fun kind => do
        let _ ← s.alsoMarked kind : Checked Unit).findings) := by
  have henclosed := byMarks_each hfs script.enclosedBy s.enclosedBy
    fun kind _ hgs => .enclosedBy kind hgs
  have halso := byMarks_each henclosed script.alsoMarked s.alsoMarked
    fun kind _ hgs => .alsoMarked kind hgs
  rwa [List.append_assoc] at halso

theorem byMarks_check (script : Script) (s : Subject) : (script.check s).findings.ByMarks s := by
  have hwarned : Findings.ByMarks s [.warning s!"warned {s.element.name}"] := .other .none rfl
  have hrejected {fs : Findings} (hfs : fs.ByMarks s) :
      Findings.ByMarks s (fs ++ [.error s!"rejected {s.element.name}"]) := .other hfs rfl
  unfold check
  dsimp only
  split
  · split
    · have h := script.byMarks_marks (hrejected hwarned)
      rwa [List.append_assoc] at h
    · exact script.byMarks_marks hwarned
  · split
    · exact script.byMarks_marks (hrejected .none)
    · exact script.byMarks_marks .none

end Script

namespace Validator

variable {vs : List Validator} {c : ValidationContext}

def OwnsByMarks (v : Validator) : Prop := ∀ s, (v.check s).findings.ByMarks s

theorem isAnnotated_of_mem_owners {v : Validator}
    (hv : v ∈ Registry.standard.validators ∨ v.OwnsByMarks) {d : Declaration}
    (haccepts : v.accepts ⟨c, d⟩ = true) {owner : Owner} (howner : owner ∈ v.owners ⟨c, d⟩) :
    c.extracted.isAnnotated owner.element owner.marker = true := by
  rcases hv with hv | hv
  · rw [StandardKind.validators_eq] at hv
    obtain ⟨k, -, rfl⟩ := List.mem_map.1 hv
    have hfits : k.Fits c d := StandardKind.accepts_iff.1 haccepts
    exact hfits.met.needs owner ((StandardKind.mem_owners_iff hfits).1 howner)
  · unfold owners at howner
    split at howner
    · cases howner
    · exact (hv ⟨c, d⟩).isAnnotated howner

theorem isAnnotated_of_mem_seen (hgrouped : c.extracted.Grouped)
    (hvs : ∀ v ∈ vs, v ∈ Registry.standard.validators ∨ v.OwnsByMarks) {d : Declaration}
    (hd : d ∈ allPassing vs c) {owner : Owner} (howner : owner ∈ (seen vs c d).owners) :
    c.extracted.isAnnotated owner.element owner.marker = true := by
  obtain ⟨v, hv, howner⟩ := List.mem_flatMap.1 howner
  obtain ⟨hmem, hkind⟩ := mem_bound_iff.1 hv
  exact isAnnotated_of_mem_owners (hvs v hmem)
    (((mem_allPassing_iff hgrouped).1 hd).2.2 v hmem hkind) howner

/-- The first declaration is skipped, and the warning about it names the second one, an extracted
owner of a handled kind that was recorded for it. -/
structure SkippedFor (vs : List Validator) (c : ValidationContext) (d e : Declaration) : Prop where
  extracted : e ∈ c.extracted.declarations e.marker
  handled : handles vs e.marker = true
  recorded : e.asOwner ∈ (seen vs c d).owners
  warned : (seen vs c d).dropWarning e.asOwner ∈ (pruned vs c).2

section Run

variable (hgrouped : c.extracted.Grouped)
  (hvs : ∀ v ∈ vs, v ∈ Registry.standard.validators ∨ v.OwnsByMarks)
include hgrouped

theorem exists_seen_of_droppedFor {x : Candidate} {owner : Owner}
    (h : Candidate.DroppedFor (handles vs) (passed vs c) x owner) :
    ∃ d ∈ allPassing vs c, seen vs c d = x := by
  obtain ⟨left, hdrops, -⟩ := h
  have hx := (Candidate.of_mem_drops hdrops).1
  rw [passed_eq_map hgrouped] at hx
  exact List.mem_map.1 hx

include hvs

theorem exists_skippedFor {d : Declaration} (hd : d ∈ allPassing vs c) {owner : Owner}
    (h : Candidate.DroppedFor (handles vs) (passed vs c) (seen vs c d) owner) :
    ∃ e, e.asOwner = owner ∧ SkippedFor vs c d e := by
  obtain ⟨left, hdrops, hmissing⟩ := h
  obtain ⟨hrecorded, hhandled, -⟩ := Candidate.missingOwner?_eq_some hmissing
  obtain ⟨e, he, hname⟩ := DeclarationModel.isAnnotated_iff.1
    (isAnnotated_of_mem_seen hgrouped hvs hd hrecorded)
  have hmarker : e.marker = owner.marker := hgrouped.marker_eq _ e he
  obtain rfl : e.asOwner = owner := congrArg₂ Owner.mk hname hmarker
  exact ⟨e, rfl, he, hhandled, hrecorded,
    Candidate.mem_prune_snd_iff.2 ⟨_, _, ⟨left, hdrops, hmissing⟩, rfl⟩⟩

theorem skippedFor_of_droppedAfter {d : Declaration} (hd : d ∈ allPassing vs c) {y : Candidate}
    (h : ReflTransGen (Candidate.DroppedAfter (handles vs) (passed vs c)) (seen vs c d) y) :
    ∃ e ∈ allPassing vs c, seen vs c e = y ∧ ReflTransGen (SkippedFor vs c) d e := by
  induction h with
  | refl => exact ⟨d, hd, rfl, .refl⟩
  | tail _ hstep ih =>
    obtain ⟨e, he, rfl, hchain⟩ := ih
    obtain ⟨hdropped, last, hlast⟩ := hstep
    obtain ⟨f, hf, rfl⟩ := exists_seen_of_droppedFor hgrouped hlast
    obtain ⟨g, hg, hskipped⟩ := exists_skippedFor hgrouped hvs he hdropped
    -- The owner that is named and the candidate that is dropped are one declaration.
    obtain rfl : g = f := hgrouped.eq_of_asOwner_eq
      (hgrouped.mem_all_iff.2 hskipped.extracted) ((sublist_allPassing vs c).subset hf) hg
    exact ⟨g, hf, rfl, hchain.tail hskipped⟩

omit hvs in
theorem mem_allPassing_of_not_condemned
    (hends : ∀ step ∈ steps vs c, step.interruption? c = none) {d : Declaration}
    (hd : d ∈ c.extracted.declarations d.marker) (hhandled : handles vs d.marker = true)
    (hclean : ¬ Condemned (validate vs c).diagnostics d) : d ∈ allPassing vs c := by
  refine (mem_allPassing_iff hgrouped).2 ⟨hd, hhandled, fun v hv hkind => ?_⟩
  by_contra haccepts
  exact hclean ((condemned_iff hgrouped hends hd).2
    ⟨v, hv, hkind, Bool.not_eq_true _ ▸ haccepts⟩)

omit hvs in
theorem condemned_of_absent (hends : ∀ step ∈ steps vs c, step.interruption? c = none)
    {e : Declaration} (he : e ∈ c.extracted.declarations e.marker)
    (hhandled : handles vs e.marker = true)
    (habsent : e.asOwner ∉ Candidate.present (passed vs c)) :
    Condemned (validate vs c).diagnostics e := by
  by_contra hclean
  have hpassing := mem_allPassing_of_not_condemned hgrouped hends he hhandled hclean
  exact habsent (List.mem_map.2 ⟨seen vs c e, (seen_mem_passed_iff hgrouped).2 hpassing, rfl⟩)

/-- Each warning of pruning names an extracted owner, and from that owner warnings lead on to an
error. -/
theorem exists_condemned_of_mem_pruned (hends : ∀ step ∈ steps vs c, step.interruption? c = none)
    {w : Diagnostic} (hw : w ∈ (pruned vs c).2) :
    ∃ d ∈ c.extracted.declarations d.marker, ∃ e f,
      w = (seen vs c d).dropWarning e.asOwner ∧ SkippedFor vs c d e ∧
      ReflTransGen (SkippedFor vs c) e f ∧ f ∈ c.extracted.declarations f.marker ∧
      Condemned (validate vs c).diagnostics f := by
  obtain ⟨x, owner, hdropped, rfl⟩ := Candidate.mem_prune_snd_iff.1 hw
  obtain ⟨d, hd, rfl⟩ := exists_seen_of_droppedFor hgrouped hdropped
  obtain ⟨e, rfl, hskipped⟩ := exists_skippedFor hgrouped hvs hd hdropped
  refine ⟨d, ((mem_allPassing_iff hgrouped).1 hd).1, e, ?_⟩
  obtain ⟨y, absent, hchain, hlast, habsent⟩ := hdropped.exists_absent
  rcases hchain.cases_head with rfl | ⟨z, hstep, hrest⟩
  · -- The owner that is named is the one that was never there.
    obtain rfl : e.asOwner = absent := hdropped.unique hlast
    exact ⟨e, rfl, hskipped, .refl, hskipped.extracted,
      condemned_of_absent hgrouped hends hskipped.extracted hskipped.handled habsent⟩
  · -- The owner that is named was dropped itself, and the rest of the chain begins there.
    obtain ⟨hfor, last, hz⟩ := hstep
    obtain ⟨e', he', rfl⟩ := exists_seen_of_droppedFor hgrouped hz
    obtain rfl : e = e' := hgrouped.eq_of_asOwner_eq
      (hgrouped.mem_all_iff.2 hskipped.extracted) ((sublist_allPassing vs c).subset he')
      (hdropped.unique hfor)
    obtain ⟨f, hf, rfl, htoLast⟩ := skippedFor_of_droppedAfter hgrouped hvs he' hrest
    obtain ⟨g, rfl, hfor'⟩ := exists_skippedFor hgrouped hvs hf hlast
    exact ⟨g, rfl, hskipped, htoLast.tail hfor', hfor'.extracted,
      condemned_of_absent hgrouped hends hfor'.extracted hfor'.handled habsent⟩

omit hvs in
theorem mem_accepted_of_quiet (hquiet : (pruned vs c).2 = []) {d : Declaration}
    (hd : d ∈ allPassing vs c) : d ∈ (accepted vs c).declarations d.marker := by
  refine (mem_accepted_iff hgrouped).2 ⟨?_, rfl⟩
  by_contra hdropped
  obtain ⟨owner, -, -, hwarning⟩ := exists_filter_pruned_snd hgrouped hd hdropped
  rw [hquiet] at hwarning
  cases hwarning

end Run

/-- A declaration is skipped only where an error is behind it. Each warning of pruning is about an
extracted declaration and begins a chain of warnings, from owner to owner, that ends at a
declaration with an error. Without an error nothing is skipped, and what was extracted under a
handled kind is accepted. -/
theorem exists_condemned_of_skipped {vs : List Validator}
    (hvs : ∀ v ∈ vs, v ∈ Registry.standard.validators ∨ v.OwnsByMarks)
    {batches : List (Marker × List RawDeclaration)} {c : ValidationContext}
    (hc : c.extracted = .extract batches) {m : DeclarationModel}
    (hm : (validate vs c).result = .ok m) :
    (validate vs c).diagnostics = (steps vs c).flatMap (Step.report c) ++ (pruned vs c).2 ∧
    (∀ w ∈ (pruned vs c).2, ∃ d ∈ c.extracted.declarations d.marker, ∃ e f,
      w = (seen vs c d).dropWarning e.asOwner ∧ SkippedFor vs c d e ∧
      ReflTransGen (SkippedFor vs c) e f ∧ f ∈ c.extracted.declarations f.marker ∧
      Condemned (validate vs c).diagnostics f) ∧
    ((∀ w ∈ (validate vs c).diagnostics, w.isError = false) →
      (pruned vs c).2 = [] ∧ ∀ kind, handles vs kind = true →
        m.declarations kind = c.extracted.declarations kind) := by
  have hgrouped : c.extracted.Grouped := hc ▸ DeclarationModel.grouped_extract batches
  have hends := exists_validate_iff.1 ⟨m, hm⟩
  refine ⟨congrArg Reported.diagnostics (validate_of_completes hends),
    fun w hw => exists_condemned_of_mem_pruned hgrouped hvs hends hw, fun hclean => ?_⟩
  have hfree : ∀ d, ¬ Condemned (validate vs c).diagnostics d := by
    rintro d ⟨w, hw, herror, -⟩
    exact absurd herror (by simp [hclean w hw])
  -- A skipped declaration would lead to a condemned one, and there is no error.
  have hquiet : (pruned vs c).2 = [] := by
    refine List.eq_nil_iff_forall_not_mem.2 fun w hw => ?_
    obtain ⟨-, -, -, f, -, -, -, -, herror⟩ :=
      exists_condemned_of_mem_pruned hgrouped hvs hends hw
    exact hfree f herror
  refine ⟨hquiet, fun kind hhandled => ?_⟩
  rw [result_eq_accepted hm]
  refine eq_of_sublist (sublist_accepted hgrouped vs kind) (.refl _)
    ((hgrouped.distinct kind).of_map _) fun d =>
      ⟨fun hd => (sublist_accepted hgrouped vs kind).subset hd, fun hd => ?_⟩
  obtain rfl := hgrouped.marker_eq kind d hd
  exact mem_accepted_of_quiet hgrouped hquiet
    (mem_allPassing_of_not_condemned hgrouped hends hd hhandled (hfree d))

private def clipValidators : List Validator :=
  [Component.rule.validator,
    Script.validator ⟨⟨"pin"⟩, false, none, none, [.enhancedComponent], [], none, false⟩,
    Script.validator ⟨⟨"clip"⟩, false, none, none, [], [⟨"pin"⟩], none, false⟩]

private def clipBatches : List (Marker × List RawDeclaration) :=
  let type (name : String) (modifiers : List Modifier) : RawDeclaration :=
    ⟨⟨.classType, name, "a", none, [], modifiers, [], [], []⟩, .empty⟩
  let fields : List RawDeclaration := ["a.Main", "a.Home"].map fun owner =>
    ⟨⟨.field, "p", owner, some "int", [], [], [], [], []⟩, .empty⟩
  [(.enhancedComponent, [type "Main" [.final], type "Home" []]), (⟨"pin"⟩, fields),
    (⟨"clip"⟩, fields)]

private def clipContext : ValidationContext := ⟨.extract clipBatches, none, .new "a"⟩

theorem exists_condemned_of_skipped_clips :
    (∀ v ∈ clipValidators, v ∈ Registry.standard.validators ∨ v.OwnsByMarks) ∧
    (∃ m, (validate clipValidators clipContext).result = .ok m ∧
      m.all.map Declaration.qualifiedName = ["a.Home", "a.Home#p", "a.Home#p"]) ∧
    (pruned clipValidators clipContext).2.map Diagnostic.message =
      ["@pin skipped: @enhanced-component a.Main was rejected",
        "@clip skipped: @pin a.Main#p was rejected"] ∧
    ∀ w ∈ (pruned clipValidators clipContext).2,
      ∃ d ∈ clipContext.extracted.declarations d.marker, ∃ e f,
        w = (seen clipValidators clipContext d).dropWarning e.asOwner ∧
        SkippedFor clipValidators clipContext d e ∧
        ReflTransGen (SkippedFor clipValidators clipContext) e f ∧
        f ∈ clipContext.extracted.declarations f.marker ∧
        Condemned (validate clipValidators clipContext).diagnostics f := by
  have hvs : ∀ v ∈ clipValidators, v ∈ Registry.standard.validators ∨ v.OwnsByMarks := by
    intro v hv
    rcases List.mem_cons.1 hv with rfl | hv
    · rw [StandardKind.validators_eq]
      exact Or.inl (List.mem_map_of_mem (StandardKind.mem_all .component))
    · rcases List.mem_pair.1 hv with rfl | rfl
      · exact Or.inr (Script.byMarks_check _)
      · exact Or.inr (Script.byMarks_check _)
  obtain ⟨m, hm⟩ := Reported.exists_ok (x := validate clipValidators clipContext)
    (by decide +kernel)
  have hnames : (validate clipValidators clipContext).result.toOption.map
      (fun m => m.all.map Declaration.qualifiedName) =
        some ["a.Home", "a.Home#p", "a.Home#p"] := by decide +kernel
  rw [hm] at hnames
  exact ⟨hvs, ⟨m, hm, Option.some.inj hnames⟩, by decide +kernel,
    (exists_condemned_of_skipped hvs (c := clipContext) rfl hm).2.1⟩

end Validator

end ComponentGlue
