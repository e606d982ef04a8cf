import ComponentGlue.Proofs.Generation.Step

/-!
What the steps taken so far have built. Each type stands under the name of its declaration, a component
is found by its holder, and which contributions a type can take depends on two things: whether a type
of another kind took its place, and whether a method took the place of its reading method.
-/

set_option autoImplicit false
set_option relaxedAutoImplicit false

namespace ComponentGlue

open Assemble (Changes Reaches)
open StandardKind (step schedule leaves stage_le_of_mem_done mem_done)

variable {done rest : List (StandardKind × Declaration)} {x : StandardKind × Declaration}
  {origin : String}

def Replaced (done : List (StandardKind × Declaration)) (origin : String) : Prop :=
  ∃ x ∈ done, x.1.stage = .types ∧ x.2.qualifiedName = origin

def Hidden (done : List (StandardKind × Declaration)) (origin : String) : Prop :=
  ∃ x ∈ done, x.1.Hides x.2 ∧ x.2.element.owner = origin

/-- What the type of an origin is like after the steps. -/
structure Shaped (done : List (StandardKind × Declaration)) (origin : String) (t : GeneratedType) :
    Prop where
  foreign : Replaced done origin → t.Foreign
  blocks : ¬ Replaced done origin → t.HasBlocks
  hides : ¬ Replaced done origin → Hidden done origin → t.HidesExtras
  reads : ¬ Replaced done origin → ¬ Hidden done origin → (∀ x ∈ done, x.1.stage ≤ .extras) →
    t.ReadsExtras
  bare : ¬ Replaced done origin → ¬ Hidden done origin → (∀ x ∈ done, x.1.stage ≤ .threads) →
    t.method? Extra.injectExtras = none

/-- The assembly that the steps have built. -/
structure Built (project : Project) (done : List (StandardKind × Declaration)) (a : Assembly) :
    Prop where
  components : ∀ d, (.component, d) ∈ done →
    a.components.get? d.qualifiedName = some (project.generatedName d.qualifiedName)
  restClients : ∀ d, (.restClient, d) ∈ done →
    a.restClients.get? d.qualifiedName = some (project.generatedName d.qualifiedName)
  types : ∀ x ∈ done, x.1.holder? x.2 = none → ∃ t, Shaped done x.2.qualifiedName t ∧
    t.name = project.generatedName x.2.qualifiedName ∧
    a.model.get? (project.generatedName x.2.qualifiedName) = some t

def Holder.Ready (done : List (StandardKind × Declaration)) : Holder → Prop
  | .component origin => ∃ d, (.component, d) ∈ done ∧ d.qualifiedName = origin
  | .restClient interface => ∃ d, (.restClient, d) ∈ done ∧ d.qualifiedName = interface

theorem Project.generatedName_injective (p : Project) : Function.Injective p.generatedName := by
  intro s t h
  have hchars : s.toList ++ p.suffix.toList = t.toList ++ p.suffix.toList := by
    rw [← String.toList_append, ← String.toList_append]
    exact congrArg String.toList h
  exact String.toList_inj.1 (List.append_cancel_right hchars)

def Holder.owner : Holder → Owner
  | .component origin => ⟨origin, .enhancedComponent⟩
  | .restClient interface => ⟨interface, .rest⟩

theorem exists_holds {project : Project} {a : Assembly} (hbuilt : Built project done a)
    {h : Holder} (hready : h.Ready done) : ∃ t, Shaped done h.origin t ∧
      t.name = project.generatedName h.origin ∧ h.Holds a (project.generatedName h.origin) t := by
  cases h with
  | component origin =>
    obtain ⟨d, hd, rfl⟩ := hready
    obtain ⟨t, hshaped, hname, ht⟩ := hbuilt.types _ hd rfl
    exact ⟨t, hshaped, hname, hbuilt.components d hd, ht⟩
  | restClient interface =>
    obtain ⟨d, hd, rfl⟩ := hready
    obtain ⟨t, hshaped, hname, ht⟩ := hbuilt.types _ hd rfl
    exact ⟨t, hshaped, hname, hbuilt.restClients d hd, ht⟩

theorem replaced_snoc : Replaced (done ++ [x]) origin ↔
    Replaced done origin ∨ (x.1.stage = .types ∧ x.2.qualifiedName = origin) := by
  simp [Replaced, or_and_right, exists_or]

theorem hidden_snoc : Hidden (done ++ [x]) origin ↔
    Hidden done origin ∨ (x.1.Hides x.2 ∧ x.2.element.owner = origin) := by
  simp [Hidden, or_and_right, exists_or]

/-- A step on another origin leaves the type as it is. -/
theorem Shaped.snoc {t : GeneratedType} (h : Shaped done origin t)
    (hreplaced : ¬ (x.1.stage = .types ∧ x.2.qualifiedName = origin))
    (hhidden : ¬ (x.1.Hides x.2 ∧ x.2.element.owner = origin)) : Shaped (done ++ [x]) origin t := by
  have hr : Replaced (done ++ [x]) origin ↔ Replaced done origin := by
    rw [replaced_snoc]
    exact or_iff_left hreplaced
  have hh : Hidden (done ++ [x]) origin ↔ Hidden done origin := by
    rw [hidden_snoc]
    exact or_iff_left hhidden
  constructor
  · exact fun h' => h.foreign (hr.1 h')
  · exact fun h' => h.blocks (mt hr.2 h')
  · exact fun h₁ h₂ => h.hides (mt hr.2 h₁) (hh.1 h₂)
  · exact fun h₁ h₂ h₃ => h.reads (mt hr.2 h₁) (mt hh.2 h₂) fun y hy =>
      h₃ y (List.mem_append_left _ hy)
  · exact fun h₁ h₂ h₃ => h.bare (mt hr.2 h₁) (mt hh.2 h₂) fun y hy =>
      h₃ y (List.mem_append_left _ hy)

theorem stage_eq_of_hides {k : StandardKind} {d : Declaration} (h : k.Hides d) :
    k.stage = .threads := by
  obtain ⟨⟨l, rfl⟩, -⟩ := h
  rfl

/-- A type that has just been put is as its kind says. -/
theorem shaped_of_puts {t : GeneratedType} (hputs : x.1.Puts t) (hholder : x.1.holder? x.2 = none)
    (hstage : ∀ y ∈ done, y.1.stage ≤ x.1.stage) :
    Shaped (done ++ [x]) x.2.qualifiedName t := by
  obtain ⟨k, d⟩ := x
  have hlater : ∀ y ∈ done ++ [(k, d)], y.1.stage ≤ k.stage := by
    intro y hy
    rcases List.mem_append.1 hy with hy | hy
    · exact hstage y hy
    · exact List.mem_singleton.1 hy ▸ le_refl _
  -- Components come first, so nothing that replaces them or hides their extras is there yet.
  by_cases hk : k = .component
  · subst hk
    obtain ⟨hblocks, hnone⟩ := hputs.component rfl
    have hfirst : ¬ Replaced (done ++ [(.component, d)]) d.qualifiedName := by
      rintro ⟨y, hy, htypes, -⟩
      have hfirst := hlater y hy
      rw [htypes] at hfirst
      exact absurd hfirst (by decide)
    have hopen : ¬ Hidden (done ++ [(.component, d)]) d.qualifiedName := by
      rintro ⟨y, hy, hhides, -⟩
      have hfirst := hlater y hy
      rw [stage_eq_of_hides hhides] at hfirst
      exact absurd hfirst (by decide)
    refine ⟨fun h => absurd h hfirst, fun _ => hblocks, fun _ h => absurd h hopen, fun _ _ _ => ?_,
      fun _ _ _ => hnone⟩
    intro m hm
    rw [hnone] at hm
    cases hm
  · have htypes : k.stage = .types := by
      cases k
      case component => exact absurd rfl hk
      case preferenceHelper => rfl
      case restClient => rfl
      all_goals cases hholder
    have hlast : Replaced (done ++ [(k, d)]) d.qualifiedName :=
      ⟨(k, d), List.mem_append_right _ List.mem_cons_self, htypes, rfl⟩
    exact ⟨fun _ => hputs.foreign hk, fun h => absurd hlast h, fun h => absurd hlast h,
      fun h => absurd hlast h, fun h => absurd hlast h⟩

theorem types_lt_stage_of_holder? {k : StandardKind} {d : Declaration} {h : Holder}
    (hholder : k.holder? d = some h) : .types < k.stage := by
  cases k
  case component => cases hholder
  case preferenceHelper => cases hholder
  case restClient => cases hholder
  all_goals exact of_decide_eq_true rfl

theorem origin_of_hides {k : StandardKind} {d : Declaration} {h : Holder} (hhides : k.Hides d)
    (hholder : k.holder? d = some h) : d.element.owner = h.origin := by
  obtain ⟨⟨l, rfl⟩, -⟩ := hhides
  cases hholder
  rfl

theorem replaced_snoc_of_holder? {h : Holder} (hholder : x.1.holder? x.2 = some h) :
    Replaced (done ++ [x]) origin ↔ Replaced done origin := by
  rw [replaced_snoc]
  exact or_iff_left fun hput => (types_lt_stage_of_holder? hholder).ne' hput.1

section Contribution

variable {contribution : Contribution} {t t' : GeneratedType} {h : Holder}

theorem method?_injectExtras_of_gives (hgives : x.1.Gives x.2 contribution)
    (happly : contribution.apply t = .ok t') (hholder : x.1.holder? x.2 = some h)
    (hopen : ¬ Hidden (done ++ [x]) h.origin) (hearly : x.1.stage ≤ .extras)
    (hextra : x.1 ≠ .extra) :
    t'.method? Extra.injectExtras = t.method? Extra.injectExtras := by
  refine Contribution.method?_injectExtras_of_apply happly ?_ ?_
  · exact fun s hs => hextra (hgives.extra.1 ⟨s, hs⟩)
  · intro fields m hm hname
    rcases hgives.named fields m t hm hname with hhides | hlast
    · exact hopen (hidden_snoc.2 (Or.inr ⟨hhides, origin_of_hides hhides hholder⟩))
    · rw [hlast] at hearly
      exact absurd hearly (by decide)

theorem hidesExtras_of_gives (hshaped : Shaped done h.origin t)
    (hgives : x.1.Gives x.2 contribution) (happly : contribution.apply t = .ok t')
    (hhides : x.1.Hides x.2) (hstage : ∀ y ∈ done, y.1.stage ≤ x.1.stage)
    (hkept : ¬ Replaced done h.origin) (hopen : ¬ Hidden done h.origin) : t'.HidesExtras := by
  obtain ⟨fields, m, rfl, hname⟩ := hgives.hides hhides
  have hbare : t.method? Extra.injectExtras = none := by
    refine hshaped.bare hkept hopen fun y hy => ?_
    rw [← stage_eq_of_hides hhides]
    exact hstage y hy
  exact Contribution.hidesExtras_of_apply_method happly hbare (hname t)
    (hgives.plain fields m t rfl)

/-- A type that has taken a contribution is as before, apart from what the contribution was. -/
theorem shaped_of_gives (hshaped : Shaped done h.origin t)
    (hgives : x.1.Gives x.2 contribution) (happly : contribution.apply t = .ok t')
    (hholder : x.1.holder? x.2 = some h) (hstage : ∀ y ∈ done, y.1.stage ≤ x.1.stage) :
    Shaped (done ++ [x]) h.origin t' := by
  have hkept : ¬ Replaced (done ++ [x]) h.origin → ¬ Replaced done h.origin :=
    mt (replaced_snoc_of_holder? hholder).2
  have hopen : ¬ Hidden (done ++ [x]) h.origin → ¬ Hidden done h.origin :=
    mt fun hhidden => hidden_snoc.2 (Or.inl hhidden)
  have hx : ∀ {s}, (∀ y ∈ done ++ [x], y.1.stage ≤ s) → x.1.stage ≤ s :=
    fun hall => hall x (List.mem_append_right _ List.mem_cons_self)
  have hdone : ∀ {s}, (∀ y ∈ done ++ [x], y.1.stage ≤ s) → ∀ y ∈ done, y.1.stage ≤ s :=
    fun hall y hy => hall y (List.mem_append_left _ hy)
  -- One goal for each promise: a promise about `done ++ [x]` starts from the one about `done`.
  constructor
  case foreign =>
    intro hreplaced
    have hforeign := hshaped.foreign ((replaced_snoc_of_holder? hholder).1 hreplaced)
    exact Contribution.foreign_of_apply happly hforeign fun fields m => hgives.plain fields m t
  case blocks =>
    exact fun hown => (Contribution.kept_of_apply happly).2 (hshaped.blocks (hkept hown))
  case hides =>
    intro hown hhidden
    by_cases hbefore : Hidden done h.origin
    · exact Contribution.hidesExtras_of_apply happly (hshaped.hides (hkept hown) hbefore)
    · have hhides := ((hidden_snoc.1 hhidden).resolve_left hbefore).1
      exact hidesExtras_of_gives hshaped hgives happly hhides hstage (hkept hown) hbefore
  case reads =>
    intro hown hshown hearly
    by_cases hextra : x.1 = .extra
    · obtain ⟨s, rfl⟩ := hgives.extra.2 hextra
      exact Contribution.readsExtras_of_apply_extra happly
    · intro m hm
      rw [method?_injectExtras_of_gives hgives happly hholder hshown (hx hearly) hextra] at hm
      exact hshaped.reads (hkept hown) (hopen hshown) (hdone hearly) m hm
  case bare =>
    intro hown hshown hearly
    have hextra : x.1 ≠ .extra := by
      intro hextra
      have hthreads := hx hearly
      rw [hextra] at hthreads
      exact absurd hthreads (by decide)
    rw [method?_injectExtras_of_gives hgives happly hholder hshown ((hx hearly).trans (by decide))
      hextra]
    exact hshaped.bare (hkept hown) (hopen hshown) (hdone hearly)

end Contribution

theorem components_hold {k : StandardKind} {a : Assembly} {origin generated origin' name : String}
    (h : a.components.get? origin' = some name) (hsame : origin = origin' → generated = name) :
    (k.hold a origin generated).components.get? origin' = some name := by
  cases k
  case component =>
    refine (a.components.get?_insert origin origin' generated).trans ?_
    by_cases heq : origin = origin'
    · rw [if_pos heq, hsame heq]
    · rw [if_neg heq, h]
  all_goals exact h

theorem restClients_hold {k : StandardKind} {a : Assembly} {origin generated origin' name : String}
    (h : a.restClients.get? origin' = some name) (hsame : origin = origin' → generated = name) :
    (k.hold a origin generated).restClients.get? origin' = some name := by
  cases k
  case restClient =>
    refine (a.restClients.get?_insert origin origin' generated).trans ?_
    by_cases heq : origin = origin'
    · rw [if_pos heq, hsame heq]
    · rw [if_neg heq, h]
  all_goals exact h

theorem model_hold (k : StandardKind) (a : Assembly) (origin generated : String) :
    (k.hold a origin generated).model = a.model := by
  cases k <;> rfl

/-- Putting a type keeps what was built before. -/
theorem built_of_put {project : Project} {a : Assembly} {t : GeneratedType}
    (hbuilt : Built project done a) (hputs : x.1.Puts t) (hholder : x.1.holder? x.2 = none)
    (hname : t.name = project.generatedName x.2.qualifiedName)
    (hstage : ∀ y ∈ done, y.1.stage ≤ x.1.stage) :
    Built project (done ++ [x])
      (x.1.hold { a with model := a.model.insert t } x.2.qualifiedName t.name) := by
  have hgenerated : ∀ {o}, x.2.qualifiedName = o → t.name = project.generatedName o := by
    rintro o rfl
    exact hname
  constructor
  case components =>
    intro d hd
    rcases List.mem_append.1 hd with hd | hd
    · exact components_hold (hbuilt.components d hd) hgenerated
    · obtain rfl := List.mem_singleton.1 hd
      rw [← hname]
      exact a.components.get?_insert_self _ _
  case restClients =>
    intro d hd
    rcases List.mem_append.1 hd with hd | hd
    · exact restClients_hold (hbuilt.restClients d hd) hgenerated
    · obtain rfl := List.mem_singleton.1 hd
      rw [← hname]
      exact a.restClients.get?_insert_self _ _
  case types =>
    intro y hy hyholder
    rw [model_hold]
    -- Names of generated types are distinct, so the new type replaces only one of the same origin.
    by_cases hsame : x.2.qualifiedName = y.2.qualifiedName
    · refine ⟨t, hsame ▸ shaped_of_puts hputs hholder hstage, hgenerated hsame, ?_⟩
      rw [← hgenerated hsame]
      exact a.model.types.get?_insert_self _ _
    · have hdone : y ∈ done := by
        rcases List.mem_append.1 hy with hy | hy
        · exact hy
        · exact absurd (List.mem_singleton.1 hy ▸ rfl) hsame
      obtain ⟨u, hshaped, huname, hfound⟩ := hbuilt.types y hdone hyholder
      refine ⟨u, hshaped.snoc (fun h => hsame h.2) ?_, huname, ?_⟩
      · rintro ⟨⟨⟨l, hl⟩, -⟩, -⟩
        rw [hl] at hholder
        cases hholder
      · refine (a.model.types.get?_insert_of_ne t ?_).trans hfound
        rw [hname]
        exact fun h => hsame (project.generatedName_injective h)

/-- A contribution keeps what was built before. -/
theorem built_of_contribution {project : Project} {a : Assembly} {t t' : GeneratedType} {h : Holder}
    {contribution : Contribution} (hbuilt : Built project done a)
    (hholder : x.1.holder? x.2 = some h) (hshaped : Shaped done h.origin t)
    (hname : t.name = project.generatedName h.origin)
    (hfound : a.model.get? (project.generatedName h.origin) = some t)
    (hgives : x.1.Gives x.2 contribution) (happly : contribution.apply t = .ok t')
    (hstage : ∀ y ∈ done, y.1.stage ≤ x.1.stage) :
    Built project (done ++ [x]) (a.put (project.generatedName h.origin) t') := by
  have hdone : ∀ y ∈ done ++ [x], y.1.holder? y.2 = none → y ∈ done := by
    intro y hy hyholder
    rcases List.mem_append.1 hy with hy | hy
    · exact hy
    · rw [List.mem_singleton.1 hy, hholder] at hyholder
      cases hyholder
  constructor
  case components =>
    exact fun d hd => hbuilt.components d (hdone _ hd rfl)
  case restClients =>
    exact fun d hd => hbuilt.restClients d (hdone _ hd rfl)
  case types =>
    intro y hy hyholder
    have hput := Assembly.get?_put hfound t' (project.generatedName y.2.qualifiedName)
    by_cases hsame : y.2.qualifiedName = h.origin
    · refine ⟨t', hsame ▸ shaped_of_gives hshaped hgives happly hholder hstage, ?_, ?_⟩
      · rw [(Contribution.kept_of_apply happly).1, hname, hsame]
      · rw [hput, if_pos (congrArg _ hsame)]
    · obtain ⟨u, hu, huname, hufound⟩ := hbuilt.types y (hdone y hy hyholder) hyholder
      refine ⟨u, hu.snoc ?_ ?_, huname, ?_⟩
      · rintro ⟨htypes, -⟩
        exact (types_lt_stage_of_holder? hholder).ne' htypes
      · exact fun hhides => hsame (hhides.2.symm.trans (origin_of_hides hhides.1 hholder))
      · rw [hput, if_neg fun heq => hsame (project.generatedName_injective heq)]
        exact hufound

theorem owner_mem_needs {k : StandardKind} {s : Subject} {h : Holder}
    (hholder : k.holder? s.declaration = some h) : h.owner ∈ (k.requirement s).needs := by
  cases k
  case component => cases hholder
  case preferenceHelper => cases hholder
  case restClient => cases hholder
  all_goals
    cases hholder
    exact List.mem_cons_self

theorem ready_of_accepts {c : ValidationContext} (haccepts : c.Accepts x.1 x.2) {h : Holder}
    (hholder : x.1.holder? x.2 = some h) (hschedule : schedule c.accepted = done ++ x :: rest) :
    h.Ready done := by
  have howner : c.accepted.isAnnotated h.owner.element h.owner.marker = true :=
    haccepts.owners _ (owner_mem_needs hholder)
  obtain ⟨d, hd, hname⟩ := DeclarationModel.isAnnotated_iff.1 howner
  have hlater := types_lt_stage_of_holder? hholder
  cases h with
  | component origin =>
    have hmem : (StandardKind.component, d) ∈ schedule c.accepted :=
      StandardKind.mem_schedule_iff.2 hd
    exact ⟨d, mem_done hschedule hmem ((by decide : Stage.components < .types).trans hlater), hname⟩
  | restClient interface =>
    have hmem : (StandardKind.restClient, d) ∈ schedule c.accepted :=
      StandardKind.mem_schedule_iff.2 hd
    exact ⟨d, mem_done hschedule hmem hlater, hname⟩

theorem accepts_of_schedule {c : ValidationContext} (hgrouped : c.extracted.Grouped)
    (hschedule : schedule c.accepted = done ++ x :: rest) : c.Accepts x.1 x.2 := by
  have hx : x ∈ schedule c.accepted := hschedule ▸ List.mem_append_right _ List.mem_cons_self
  exact c.accepts_of_mem hgrouped (StandardKind.mem_schedule_iff.1 hx)

/-- A step that contributes to a held type does so to the one that has been built. -/
theorem exists_change {c : ValidationContext} {a : Assembly} (hbuilt : Built c.project done a)
    (haccepts : c.Accepts x.1 x.2) (hschedule : schedule c.accepted = done ++ x :: rest)
    {h : Holder} (hholder : x.1.holder? x.2 = some h) : ∃ t contribution,
      leaves c.setting x = .contribution h contribution ∧
      Shaped done h.origin t ∧ t.name = c.project.generatedName h.origin ∧
      h.Holds a (c.project.generatedName h.origin) t ∧ x.1.Gives x.2 contribution ∧
      Changes (step c.setting x) h fun t =>
        (contribution.apply t).mapError (.during (.processing x.2)) := by
  obtain ⟨t, hshaped, hname, hholds⟩ := exists_holds hbuilt
    (ready_of_accepts haccepts hholder hschedule)
  obtain ⟨contribution, hleaves, hgives, hchanges⟩ :=
    StandardKind.exists_contribution haccepts.fits hholder
  exact ⟨t, contribution, hleaves, hshaped, hname, hholds, hgives, hchanges⟩

/-- What a step does that is taken: it puts the type it leaves, or it puts a held type back with its
contribution made. -/
theorem step_cases {c : ValidationContext} {a b : Assembly} (hgrouped : c.extracted.Grouped)
    (hschedule : schedule c.accepted = done ++ x :: rest) (hbuilt : Built c.project done a)
    (hstep : step c.setting x a = (.ok (), b)) :
    (∃ t, leaves c.setting x = .type t ∧ x.1.Puts t ∧
      t.name = c.project.generatedName x.2.qualifiedName ∧
      b = x.1.hold { a with model := a.model.insert t } x.2.qualifiedName t.name) ∨
    ∃ h contribution t t', leaves c.setting x = .contribution h contribution ∧ h.Ready done ∧
      x.1.Gives x.2 contribution ∧ Shaped done h.origin t ∧
      t.name = c.project.generatedName h.origin ∧
      a.model.get? (c.project.generatedName h.origin) = some t ∧ contribution.apply t = .ok t' ∧
      b = a.put (c.project.generatedName h.origin) t' := by
  have haccepts := accepts_of_schedule hgrouped hschedule
  cases hholder : x.1.holder? x.2 with
  | none =>
    obtain ⟨t, hleaves, hputs, hname, hput⟩ := StandardKind.exists_type haccepts.fits hholder
    rw [hput a] at hstep
    exact Or.inl ⟨t, hleaves, hputs, hname, (congrArg Prod.snd hstep).symm⟩
  | some h =>
    obtain ⟨t, contribution, hleaves, hshaped, hname, hholds, hgives, hchanges⟩ :=
      exists_change hbuilt haccepts hschedule hholder
    cases happly : contribution.apply t with
    | error f =>
      have hrefused := hchanges.refused hholds (by rw [happly]; rfl)
      rw [hstep] at hrefused
      cases hrefused
    | ok t' =>
      have hchanged := hchanges.changed hholds (by rw [happly]; rfl)
      rw [hstep] at hchanged
      exact Or.inr ⟨h, contribution, t, t', hleaves, ready_of_accepts haccepts hholder hschedule,
        hgives, hshaped, hname, hholds.found, happly, congrArg Prod.snd hchanged⟩

/-- One step keeps the invariant. -/
theorem built_step {c : ValidationContext} {a b : Assembly} (hgrouped : c.extracted.Grouped)
    (hschedule : schedule c.accepted = done ++ x :: rest) (hbuilt : Built c.project done a)
    (hstep : step c.setting x a = (.ok (), b)) : Built c.project (done ++ [x]) b := by
  have hstage : ∀ y ∈ done, y.1.stage ≤ x.1.stage := fun y => stage_le_of_mem_done hschedule
  have hholder := StandardKind.holder?_leaves c.setting x
  rcases step_cases hgrouped hschedule hbuilt hstep with ⟨t, hleaves, hputs, hname, rfl⟩ |
    ⟨h, contribution, t, t', hleaves, -, hgives, hshaped, hname, hfound, happly, rfl⟩
  · rw [hleaves] at hholder
    exact built_of_put hbuilt hputs hholder.symm hname hstage
  · rw [hleaves] at hholder
    exact built_of_contribution hbuilt hholder.symm hshaped hname hfound hgives happly hstage

/-- Every run of the schedule, up to any point, builds what the invariant says. -/
theorem built_of_reaches {c : ValidationContext} {a : Assembly} (hgrouped : c.extracted.Grouped)
    (hschedule : schedule c.accepted = done ++ rest) (hreaches : Reaches (step c.setting) done a) :
    Built c.project done a := by
  refine hreaches.induct (P := Built c.project) ?_ ?_
  · exact ⟨fun _ h => absurd h List.not_mem_nil, fun _ h => absurd h List.not_mem_nil,
      fun _ h => absurd h List.not_mem_nil⟩
  · rintro before y after b b' rfl hbuilt hstep
    rw [List.append_assoc, List.cons_append] at hschedule
    exact built_step hgrouped hschedule hbuilt hstep

end ComponentGlue
