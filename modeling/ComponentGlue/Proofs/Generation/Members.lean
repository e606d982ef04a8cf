import ComponentGlue.Proofs.Generation.Correspondence

/-!
The members of a type: the declarations that contribute to it. All types are put before anything is
contributed, so the type of an origin is what was put last under its name, with the contributions of its
members made in processing order.
-/

set_option autoImplicit false
set_option relaxedAutoImplicit false

namespace ComponentGlue

open Assemble (Reaches)
open StandardKind (step schedule leaves putsType putsType_iff putsType_of_type
  putsType_of_contribution stage_le_of_mem_done)

variable {origin : String} {x y : StandardKind × Declaration}

def contributesTo (origin : String) (x : StandardKind × Declaration) : Bool :=
  (x.1.holder? x.2).any fun h => h.origin == origin

theorem contributesTo_iff : contributesTo origin x = true ↔
    ∃ h, x.1.holder? x.2 = some h ∧ h.origin = origin := by
  simp [contributesTo, Option.any_eq_true]

theorem contributesTo_of_leaves {s : Setting} {h : Holder} {contribution : Contribution}
    (hleaves : leaves s x = .contribution h contribution) :
    contributesTo origin x = true ↔ h.origin = origin := by
  have hholder := StandardKind.holder?_leaves s x
  rw [hleaves] at hholder
  simp [contributesTo, ← hholder, Output.holder?]

theorem types_lt_stage_of_contributesTo (h : contributesTo origin x = true) :
    .types < x.1.stage := by
  obtain ⟨holder, hholder, -⟩ := contributesTo_iff.1 h
  exact types_lt_stage_of_holder? hholder

theorem stage_le_types_of_putsType (h : putsType x = true) : x.1.stage ≤ .types := by
  have hkind := putsType_iff.1 h
  simp only [StandardKind.typeKinds, List.mem_cons, List.not_mem_nil, or_false] at hkind
  rcases hkind with hk | hk | hk <;> rw [hk] <;> decide

theorem not_contributesTo_of_putsType (h : putsType x = true) : ¬ contributesTo origin x = true := by
  intro hcontributes
  exact not_le_of_gt (types_lt_stage_of_contributesTo hcontributes)
    (stage_le_types_of_putsType h)

def DeclarationModel.members (m : DeclarationModel) (origin : String) :
    List (StandardKind × Declaration) :=
  (schedule m).filter (contributesTo origin)

theorem mem_members_iff {m : DeclarationModel} : x ∈ m.members origin ↔
    x.2 ∈ m.declarations x.1.marker ∧ ∃ h, x.1.holder? x.2 = some h ∧ h.origin = origin := by
  rw [DeclarationModel.members, List.mem_filter, StandardKind.mem_schedule_iff, contributesTo_iff]

theorem nodup_schedule {m : DeclarationModel} (hgrouped : m.Grouped) : (schedule m).Nodup := by
  have hkinds : StandardKind.all.Nodup := .of_map _ StandardKind.nodup_markers
  unfold schedule
  rw [List.nodup_flatMap]
  constructor
  · intro k _
    have hdistinct : (m.declarations k.marker).Nodup := .of_map _ (hgrouped.distinct k.marker)
    exact hdistinct.map fun _ _ h => congrArg Prod.snd h
  · refine hkinds.imp fun {k l} hne => List.disjoint_left.2 fun {z} hk hl => ?_
    obtain ⟨d, -, rfl⟩ := List.mem_map.1 hk
    obtain ⟨e, -, heq⟩ := List.mem_map.1 hl
    exact hne (congrArg Prod.fst heq).symm

theorem nodup_members {m : DeclarationModel} (hgrouped : m.Grouped) (origin : String) :
    (m.members origin).Nodup :=
  (nodup_schedule hgrouped).filter _

section LastPut

variable {m : DeclarationModel} {k : StandardKind} {d : Declaration}

theorem lastPut_append (l l' : List (StandardKind × Declaration)) (origin : String) :
    lastPut (l ++ l') origin = (lastPut l' origin).or (lastPut l origin) := by
  rw [lastPut, List.filter_append, List.getLast?_append]
  rfl

theorem lastPut_of_mem (hgrouped : m.Grouped) (hk : k ∈ StandardKind.typeKinds)
    (hd : d ∈ m.declarations k.marker) :
    lastPut ((m.declarations k.marker).map fun d => (k, d)) d.qualifiedName = some (k, d) := by
  have hdistinct : (((m.declarations k.marker).map fun d => (k, d)).map fun x =>
      x.2.qualifiedName).Nodup := by
    rw [List.map_map]
    exact hgrouped.distinct k.marker
  rw [lastPut, filter_eq_singleton hdistinct (List.mem_map_of_mem hd)
    (putsOn_iff.2 ⟨putsType_iff.2 hk, rfl⟩) fun y hy => (putsOn_iff.1 hy).2]
  rfl

theorem lastPut_of_not_isAnnotated (h : ¬ m.isAnnotated origin k.marker = true) :
    lastPut ((m.declarations k.marker).map fun d => (k, d)) origin = none := by
  rw [lastPut, List.getLast?_eq_none_iff, List.filter_eq_nil_iff]
  intro y hy hputs
  obtain ⟨d, hd, rfl⟩ := List.mem_map.1 hy
  exact h (DeclarationModel.isAnnotated_iff.2 ⟨d, hd, (putsOn_iff.1 hputs).2⟩)

theorem typeSteps_eq (m : DeclarationModel) : m.typeSteps =
    (m.declarations .enhancedComponent).map (fun d => (.component, d)) ++
      (m.declarations .sharedPref).map (fun d => (.preferenceHelper, d)) ++
      (m.declarations .rest).map fun d => (.restClient, d) := by
  simp [DeclarationModel.typeSteps, StandardKind.typeKinds]
  rfl

theorem lastPut_of_rest (hgrouped : m.Grouped) (hd : d ∈ m.declarations .rest) :
    lastPut m.typeSteps d.qualifiedName = some (.restClient, d) := by
  have hrest := lastPut_of_mem (k := .restClient) hgrouped (by simp [StandardKind.typeKinds]) hd
  rw [typeSteps_eq, lastPut_append]
  exact congrArg (Option.or · _) hrest

theorem lastPut_of_component (hgrouped : m.Grouped) (hd : d ∈ m.declarations .enhancedComponent)
    (hkept : ¬ m.Replaces d.qualifiedName) :
    lastPut m.typeSteps d.qualifiedName = some (.component, d) := by
  rw [DeclarationModel.Replaces, not_or] at hkept
  have hcomponent := lastPut_of_mem (k := .component) hgrouped
    (by simp [StandardKind.typeKinds]) hd
  have hhelper := lastPut_of_not_isAnnotated (k := .preferenceHelper) hkept.1
  have hclient := lastPut_of_not_isAnnotated (k := .restClient) hkept.2
  rw [typeSteps_eq, lastPut_append, lastPut_append]
  exact (congrArg₂ Option.or hclient (congrArg₂ Option.or hhelper hcomponent)).trans rfl

end LastPut

section Run

variable {c : ValidationContext} {done rest : List (StandardKind × Declaration)} {a : Assembly}

theorem filter_contributesTo_of_putsType (hschedule : schedule c.accepted = done ++ x :: rest)
    (hputs : putsType x = true) (origin : String) :
    (done ++ [x]).filter (contributesTo origin) = [] := by
  rw [List.filter_eq_nil_iff]
  intro y hy hcontributes
  rcases List.mem_append.1 hy with hy | hy
  · have hle := (stage_le_of_mem_done hschedule hy).trans (stage_le_types_of_putsType hputs)
    exact not_le_of_gt (types_lt_stage_of_contributesTo hcontributes) hle
  · rw [List.mem_singleton.1 hy] at hcontributes
    exact not_contributesTo_of_putsType hputs hcontributes

/-- What holds of the type that was put last and is kept by the contributions of the members, one after
the other, holds of the type that stands under the name of the origin. -/
theorem members_induct {x₀ : StandardKind × Declaration}
    {P : List (StandardKind × Declaration) → GeneratedType → Prop}
    (hgrouped : c.extracted.Grouped) (hschedule : schedule c.accepted = done ++ rest)
    (hreaches : Reaches (step c.setting) done a) (hlast : lastPut done origin = some x₀)
    (hstart : ∀ t, leaves c.setting x₀ = .type t → t.name = c.project.generatedName origin → P [] t)
    (hstep : ∀ {before y after h contribution t t'}, schedule c.accepted = before ++ y :: after →
      P (before.filter (contributesTo origin)) t → c.Accepts y.1 y.2 →
      leaves c.setting y = .contribution h contribution → h.origin = origin →
      contribution.apply t = .ok t' → P (before.filter (contributesTo origin) ++ [y]) t') :
    ∃ t, a.model.get? (c.project.generatedName origin) = some t ∧
      P (done.filter (contributesTo origin)) t := by
  have hnames : ∀ {o}, c.project.generatedName o = c.project.generatedName origin ↔ o = origin :=
    c.project.generatedName_injective.eq_iff
  refine model_induct (P := fun done m => lastPut done origin = some x₀ → ∃ t,
    m.get? (c.project.generatedName origin) = some t ∧ P (done.filter (contributesTo origin)) t)
    hgrouped hschedule hreaches nofun ?_ ?_ hlast
  · intro before y after m t hsplit hmodel hleaves _ hname hlast
    have hputs : putsType y = true := putsType_of_type hleaves
    rw [GenerationModel.get?_insert, hname]
    by_cases hsame : y.2.qualifiedName = origin
    · -- The type starts over, and no member has contributed to it yet.
      rw [lastPut_snoc, if_pos (putsOn_iff.2 ⟨hputs, hsame⟩)] at hlast
      obtain rfl := Option.some.inj hlast
      refine ⟨t, if_pos (congrArg _ hsame), ?_⟩
      rw [filter_contributesTo_of_putsType hsplit hputs]
      exact hstart t hleaves (hname.trans (congrArg _ hsame))
    · rw [lastPut_snoc, if_neg fun h => hsame (putsOn_iff.1 h).2] at hlast
      obtain ⟨u, hu, hP⟩ := hmodel hlast
      refine ⟨u, (if_neg fun heq => hsame (hnames.1 heq)).trans hu, ?_⟩
      rwa [List.filter_append, List.filter_cons_of_neg (not_contributesTo_of_putsType hputs),
        List.filter_nil, List.append_nil]
  · intro before y after m h contribution t t' hsplit hmodel hleaves _ hfound happly hlast
    have hputs : ¬ putsOn origin y = true := by
      rw [putsOn, putsType_of_contribution hleaves]
      exact Bool.false_ne_true
    rw [lastPut_snoc, if_neg hputs] at hlast
    obtain ⟨u, hu, hP⟩ := hmodel hlast
    rw [GenerationModel.get?_replace hfound, List.filter_append]
    by_cases hsame : h.origin = origin
    · obtain rfl : t = u := Option.some.inj (hfound.symm.trans (hsame ▸ hu))
      refine ⟨t', if_pos (congrArg _ hsame.symm), ?_⟩
      rw [List.filter_cons_of_pos ((contributesTo_of_leaves hleaves).2 hsame), List.filter_nil]
      exact hstep hsplit hP (accepts_of_schedule hgrouped hsplit) hleaves hsame happly
    · refine ⟨u, (if_neg fun heq => hsame (hnames.1 heq.symm)).trans hu, ?_⟩
      rwa [List.filter_cons_of_neg fun hcontributes =>
        hsame ((contributesTo_of_leaves hleaves).1 hcontributes), List.filter_nil, List.append_nil]

end Run

namespace StandardRun

variable (run : StandardRun)

theorem grouped_accepted : run.accepted.Grouped :=
  run.accepted_eq ▸ ValidationContext.grouped_accepted run.grouped

theorem generable : run.accepted.Generable := by
  obtain ⟨a, hreaches, -⟩ := run.exists_reaches
  exact run.accepted_eq ▸ (exists_reaches_iff run.grouped).1 ⟨a, hreaches⟩

theorem members_induct {x₀ : StandardKind × Declaration}
    {P : List (StandardKind × Declaration) → GeneratedType → Prop}
    (hlast : lastPut run.accepted.typeSteps origin = some x₀)
    (hstart : ∀ t, leaves run.context.setting x₀ = .type t →
      t.name = run.project.generatedName origin → P [] t)
    (hstep : ∀ {before y after h contribution t t'}, schedule run.accepted = before ++ y :: after →
      P (before.filter (contributesTo origin)) t → run.context.Accepts y.1 y.2 →
      leaves run.context.setting y = .contribution h contribution → h.origin = origin →
      contribution.apply t = .ok t' → P (before.filter (contributesTo origin) ++ [y]) t') :
    ∃ t, run.model.get? (run.project.generatedName origin) = some t ∧
      P (run.accepted.members origin) t := by
  obtain ⟨a, hreaches, hmodel⟩ := run.exists_reaches
  rw [← DeclarationModel.filter_schedule, lastPut_filter, run.accepted_eq] at hlast
  rw [run.accepted_eq] at hstep ⊢
  exact hmodel ▸ ComponentGlue.members_induct run.grouped (List.append_nil _).symm hreaches hlast
    hstart hstep

theorem accepts_of_mem {k : StandardKind} {d : Declaration}
    (hd : d ∈ run.accepted.declarations k.marker) : run.context.Accepts k d := by
  rw [run.accepted_eq] at hd
  exact ValidationContext.accepts_of_mem run.grouped hd

theorem accepts_of_mem_members (hx : x ∈ run.accepted.members origin) :
    run.context.Accepts x.1 x.2 :=
  run.accepts_of_mem (mem_members_iff.1 hx).1

end StandardRun

end ComponentGlue
