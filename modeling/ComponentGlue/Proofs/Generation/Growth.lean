import Mathlib.Logic.Relation
import ComponentGlue.Proofs.Generation.Invariant

set_option autoImplicit false
set_option relaxedAutoImplicit false

namespace ComponentGlue

section Slice

open Assemble (Reaches)
open StandardKind (step schedule leaves)

variable {c : ValidationContext} {done rest : List (StandardKind × Declaration)}
  {x : StandardKind × Declaration} {a b : Assembly}

/-- What holds of the empty model and is kept when a type is put and when a contribution is made holds
of what a run of the schedule has built. -/
theorem model_induct {P : List (StandardKind × Declaration) → GenerationModel → Prop}
    (hgrouped : c.extracted.Grouped) (hschedule : schedule c.accepted = done ++ rest)
    (hreaches : Reaches (step c.setting) done a) (hstart : P [] .empty)
    (hput : ∀ {before x after m t}, schedule c.accepted = before ++ x :: after → P before m →
      leaves c.setting x = .type t → x.1.Puts t →
      t.name = c.project.generatedName x.2.qualifiedName → P (before ++ [x]) (m.insert t))
    (hchange : ∀ {before x after m h contribution t t'},
      schedule c.accepted = before ++ x :: after → P before m →
      leaves c.setting x = .contribution h contribution → h.Ready before →
      m.get? (c.project.generatedName h.origin) = some t → contribution.apply t = .ok t' →
      P (before ++ [x]) (m.modify (c.project.generatedName h.origin) fun _ => t')) :
    P done a.model := by
  -- The step lemma speaks of a run, so that the steps so far are a run is kept along.
  have hboth : Reaches (step c.setting) done a ∧ P done a.model := by
    refine hreaches.induct (P := fun done a => Reaches (step c.setting) done a ∧ P done a.model)
      ⟨Assemble.reaches_nil.2 rfl, hstart⟩ ?_
    rintro before x after b b' rfl ⟨hbefore, hmodel⟩ hstep
    rw [List.append_assoc, List.cons_append] at hschedule
    refine ⟨Assemble.reaches_snoc.2 ⟨b, hbefore, hstep⟩, ?_⟩
    have hbuilt := built_of_reaches hgrouped hschedule hbefore
    rcases step_cases hgrouped hschedule hbuilt hstep with ⟨t, hleaves, hputs, hname, rfl⟩ |
      ⟨h, contribution, t, t', hleaves, hready, -, -, -, hfound, happly, rfl⟩
    · rw [model_hold]
      exact hput hschedule hmodel hleaves hputs hname
    · exact hchange hschedule hmodel hleaves hready hfound happly
  exact hboth.2

/-- What a step makes of the type that stands under the name of an origin. -/
def StandardKind.update (s : Setting) (origin : String) (found : Option GeneratedType)
    (x : StandardKind × Declaration) : Option GeneratedType :=
  match leaves s x with
  | .type t => if x.2.qualifiedName = origin then some t else found
  | .contribution h contribution =>
    if h.origin = origin then found.bind fun t => (contribution.apply t).toOption else found

theorem StandardKind.update_of_type {s : Setting} {t : GeneratedType} (h : leaves s x = .type t)
    (origin : String) (found : Option GeneratedType) :
    update s origin found x = if x.2.qualifiedName = origin then some t else found := by
  rw [update, h]

theorem StandardKind.update_of_contribution {s : Setting} {h : Holder} {contribution : Contribution}
    (hleaves : leaves s x = .contribution h contribution) (origin : String)
    (found : Option GeneratedType) : update s origin found x =
      if h.origin = origin then found.bind fun t => (contribution.apply t).toOption else found := by
  rw [update, hleaves]

def StandardKind.slice (s : Setting) (done : List (StandardKind × Declaration)) (origin : String) :
    Option GeneratedType :=
  done.foldl (update s origin) none

theorem StandardKind.slice_snoc (s : Setting) (done : List (StandardKind × Declaration))
    (x : StandardKind × Declaration) (origin : String) :
    slice s (done ++ [x]) origin = update s origin (slice s done origin) x :=
  List.foldl_append

open StandardKind (slice slice_snoc update_of_type update_of_contribution)

theorem get?_of_reaches (hgrouped : c.extracted.Grouped)
    (hschedule : schedule c.accepted = done ++ rest) (hreaches : Reaches (step c.setting) done a)
    (origin : String) :
    a.model.get? (c.project.generatedName origin) = slice c.setting done origin := by
  have hnames : ∀ o, c.project.generatedName o = c.project.generatedName origin ↔ o = origin :=
    fun o => c.project.generatedName_injective.eq_iff
  refine model_induct (P := fun done m =>
    m.get? (c.project.generatedName origin) = slice c.setting done origin)
    hgrouped hschedule hreaches rfl ?_ ?_
  · intro before x after m t _ hslice hleaves _ hname
    rw [slice_snoc, update_of_type hleaves, GenerationModel.get?_insert, hname, ← hslice]
    simp only [hnames]
  · intro before x after m h contribution t t' _ hslice hleaves _ hfound happly
    rw [slice_snoc, update_of_contribution hleaves, GenerationModel.get?_replace hfound, ← hslice]
    by_cases horigin : h.origin = origin
    · rw [if_pos (by rw [horigin]), if_pos horigin, ← horigin, hfound, Option.bind_some, happly]
      rfl
    · rw [if_neg fun heq => horigin ((hnames _).1 heq.symm), if_neg horigin]

end Slice

open Assemble (Reaches)
open Relation (ReflTransGen)
open StandardKind (step schedule leaves)

namespace StandardKind

def typeKinds : List StandardKind := [.component, .preferenceHelper, .restClient]

def putsType (x : StandardKind × Declaration) : Bool := (x.1.holder? x.2).isNone

theorem putsType_iff {x : StandardKind × Declaration} : putsType x = true ↔ x.1 ∈ typeKinds := by
  obtain ⟨k, d⟩ := x
  cases k <;> simp [putsType, holder?, typeKinds]

theorem putsType_of_type {s : Setting} {x : StandardKind × Declaration} {t : GeneratedType}
    (h : leaves s x = .type t) : putsType x = true := by
  rw [putsType, ← holder?_leaves s x, h]
  rfl

theorem putsType_of_contribution {s : Setting} {x : StandardKind × Declaration} {h : Holder}
    {contribution : Contribution} (hleaves : leaves s x = .contribution h contribution) :
    putsType x = false := by
  rw [putsType, ← holder?_leaves s x, hleaves]
  rfl

end StandardKind

open StandardKind (putsType putsType_iff putsType_of_type putsType_of_contribution)

def DeclarationModel.typeSteps (m : DeclarationModel) : List (StandardKind × Declaration) :=
  StandardKind.typeKinds.flatMap fun k => (m.declarations k.marker).map fun d => (k, d)

theorem DeclarationModel.filter_schedule (m : DeclarationModel) :
    (schedule m).filter putsType = m.typeSteps := by
  have hsplit : StandardKind.all = StandardKind.typeKinds ++ StandardKind.all.drop 3 := rfl
  -- No kind occurs twice, so the three kinds that come first do not come again.
  have hothers : ∀ k ∈ StandardKind.all.drop 3, k ∉ StandardKind.typeKinds := by
    have hnodup : StandardKind.all.Nodup := .of_map _ StandardKind.nodup_markers
    rw [hsplit] at hnodup
    exact fun k hk hmem => (List.nodup_append.1 hnodup).2.2 k hmem k hk rfl
  have hkind : ∀ {ks : List StandardKind} {x : StandardKind × Declaration},
      (x ∈ ks.flatMap fun k => (m.declarations k.marker).map fun d => (k, d)) → x.1 ∈ ks := by
    intro ks x hx
    obtain ⟨k, hk, hx⟩ := List.mem_flatMap.1 hx
    obtain ⟨d, -, rfl⟩ := List.mem_map.1 hx
    exact hk
  unfold schedule
  rw [hsplit, List.flatMap_append, List.filter_append,
    List.filter_eq_self.2 fun x hx => putsType_iff.2 (hkind hx), List.filter_eq_nil_iff.2
      fun x hx hputs => hothers x.1 (hkind hx) (putsType_iff.1 hputs), List.append_nil]
  rfl

theorem mem_typeSteps_iff {m : DeclarationModel} {x : StandardKind × Declaration} : x ∈ m.typeSteps ↔
    x.2 ∈ m.declarations x.1.marker ∧ x.1 ∈ StandardKind.typeKinds := by
  rw [← m.filter_schedule, List.mem_filter, StandardKind.mem_schedule_iff, putsType_iff]

section Run

variable {c : ValidationContext} {done rest : List (StandardKind × Declaration)} {a : Assembly}

theorem keys_of_reaches (hgrouped : c.extracted.Grouped)
    (hschedule : schedule c.accepted = done ++ rest) (hreaches : Reaches (step c.setting) done a) :
    a.model.types.keys = ((done.filter putsType).map fun x =>
      c.project.generatedName x.2.qualifiedName).eraseDups := by
  refine model_induct (P := fun done m => m.types.keys = ((done.filter putsType).map fun x =>
    c.project.generatedName x.2.qualifiedName).eraseDups) hgrouped hschedule hreaches rfl ?_ ?_
  · intro before x after m t _ hkeys hleaves _ hname
    have hinsert : (m.insert t).types.keys = _ := m.types.keys_insert t.name t
    rw [hinsert, hkeys, List.filter_append, List.filter_cons_of_pos (putsType_of_type hleaves),
      List.map_append, List.filter_nil, List.map_singleton, eraseDups_snoc, hname]
  · intro before x after m h contribution t t' _ hkeys hleaves _ _ _
    have hmodify : (m.modify (c.project.generatedName h.origin) fun _ => t').types.keys = _ :=
      m.types.keys_modify _ _
    have hputs : ¬ putsType x = true := by
      rw [putsType_of_contribution hleaves]
      exact Bool.false_ne_true
    rw [hmodify, hkeys, List.filter_append, List.filter_cons_of_neg hputs, List.filter_nil,
      List.append_nil]

def putsOn (origin : String) (x : StandardKind × Declaration) : Bool :=
  putsType x && x.2.qualifiedName == origin

theorem putsOn_iff {origin : String} {x : StandardKind × Declaration} :
    putsOn origin x = true ↔ putsType x = true ∧ x.2.qualifiedName = origin := by
  rw [putsOn, Bool.and_eq_true, beq_iff_eq]

/-- The last step that put a type for the origin. -/
def lastPut (done : List (StandardKind × Declaration)) (origin : String) :
    Option (StandardKind × Declaration) :=
  (done.filter (putsOn origin)).getLast?

theorem lastPut_snoc (done : List (StandardKind × Declaration)) (x : StandardKind × Declaration)
    (origin : String) : lastPut (done ++ [x]) origin =
      if putsOn origin x = true then some x else lastPut done origin := by
  unfold lastPut
  rw [List.filter_append]
  by_cases h : putsOn origin x = true
  · rw [if_pos h, List.filter_cons_of_pos h, List.filter_nil, List.getLast?_concat]
  · rw [if_neg h, List.filter_cons_of_neg h, List.filter_nil, List.append_nil]

theorem lastPut_filter (done : List (StandardKind × Declaration)) (origin : String) :
    lastPut (done.filter putsType) origin = lastPut done origin := by
  unfold lastPut
  rw [List.filter_filter]
  refine congrArg List.getLast? (List.filter_congr fun x _ => ?_)
  unfold putsOn
  cases putsType x <;> simp

theorem mem_of_lastPut {x : StandardKind × Declaration} {origin : String}
    (h : lastPut done origin = some x) : x ∈ done ∧ x.2.qualifiedName = origin := by
  obtain ⟨hx, hputs⟩ := List.mem_filter.1 (List.mem_of_getLast? h)
  exact ⟨hx, (putsOn_iff.1 hputs).2⟩

theorem exists_lastPut {x : StandardKind × Declaration} (hx : x ∈ done) (hputs : putsType x = true) :
    ∃ y, lastPut done x.2.qualifiedName = some y := by
  have hmem : x ∈ done.filter (putsOn x.2.qualifiedName) :=
    List.mem_filter.2 ⟨hx, putsOn_iff.2 ⟨hputs, rfl⟩⟩
  exact ⟨_, List.getLast?_eq_some_getLast (List.ne_nil_of_mem hmem)⟩

theorem lastPut_of_nodup {m : DeclarationModel} {x : StandardKind × Declaration}
    (distinct : (m.typeSteps.map fun x => x.2.qualifiedName).Nodup) (hx : x ∈ m.typeSteps) :
    lastPut m.typeSteps x.2.qualifiedName = some x := by
  have hputs : putsType x = true := (List.mem_filter.1 (m.filter_schedule ▸ hx)).2
  rw [lastPut, filter_eq_singleton distinct hx (putsOn_iff.2 ⟨hputs, rfl⟩) fun y hy =>
    (putsOn_iff.1 hy).2]
  rfl

def Grows (c : ValidationContext) (origin : String) (t t' : GeneratedType) : Prop :=
  ∃ x h contribution, leaves c.setting x = .contribution h contribution ∧ h.origin = origin ∧
    h.Ready (schedule c.accepted) ∧ contribution.apply t = .ok t'

theorem Holder.Ready.mono {h : Holder} {done done' : List (StandardKind × Declaration)}
    (hready : h.Ready done) (hsub : done ⊆ done') : h.Ready done' := by
  cases h with
  | component origin =>
    obtain ⟨d, hd, hname⟩ := hready
    exact ⟨d, hsub hd, hname⟩
  | restClient interface =>
    obtain ⟨d, hd, hname⟩ := hready
    exact ⟨d, hsub hd, hname⟩

/-- The type of an origin is what the last step on it has put, with the contributions made since. -/
theorem grown_of_reaches (hgrouped : c.extracted.Grouped)
    (hschedule : schedule c.accepted = done ++ rest) (hreaches : Reaches (step c.setting) done a) :
    ∀ origin x, lastPut done origin = some x → ∃ t₀ t, leaves c.setting x = .type t₀ ∧
      a.model.get? (c.project.generatedName origin) = some t ∧
      ReflTransGen (Grows c origin) t₀ t := by
  -- Induction over the steps, once for a new type and once for a contribution.
  refine model_induct (P := fun done m => ∀ origin x, lastPut done origin = some x →
    ∃ t₀ t, leaves c.setting x = .type t₀ ∧
      m.get? (c.project.generatedName origin) = some t ∧ ReflTransGen (Grows c origin) t₀ t)
    hgrouped hschedule hreaches (fun _ _ h => nomatch h) ?_ ?_
  · intro before y after m t _ hgrown hleaves _ hname origin x hlast
    rw [lastPut_snoc] at hlast
    rw [GenerationModel.get?_insert, hname]
    by_cases hsame : y.2.qualifiedName = origin
    · -- The new type starts over: whatever stood under the name before is gone.
      rw [if_pos (putsOn_iff.2 ⟨putsType_of_type hleaves, hsame⟩)] at hlast
      obtain rfl := Option.some.inj hlast
      exact ⟨t, t, hleaves, if_pos (congrArg _ hsame), .refl⟩
    · rw [if_neg fun h => hsame (putsOn_iff.1 h).2] at hlast
      rw [if_neg fun heq => hsame (c.project.generatedName_injective heq)]
      exact hgrown origin x hlast
  · intro before y after m h contribution t t' hsplit hgrown hleaves hready hfound happly origin x
      hlast
    have hputs : ¬ putsOn origin y = true := by
      rw [putsOn, putsType_of_contribution hleaves]
      exact Bool.false_ne_true
    rw [lastPut_snoc, if_neg hputs] at hlast
    obtain ⟨t₀, u, hput, hu, hgrows⟩ := hgrown origin x hlast
    rw [GenerationModel.get?_replace hfound]
    by_cases hsame : origin = h.origin
    · obtain rfl : t = u := Option.some.inj (hfound.symm.trans (hsame ▸ hu))
      refine ⟨t₀, t', hput, if_pos (congrArg _ hsame), hgrows.tail ?_⟩
      exact ⟨y, h, contribution, hleaves, hsame.symm,
        hready.mono (hsplit ▸ List.subset_append_left before _), happly⟩
    · rw [if_neg fun heq => hsame (c.project.generatedName_injective heq)]
      exact ⟨t₀, u, hput, hu, hgrows⟩

end Run

def GeneratedType.head (t : GeneratedType) : GeneratedType := { t with fields := [], methods := [] }

namespace Contribution

open GeneratedType

theorem head_addFields (t : GeneratedType) (fields : List Field) :
    (fields.foldl addField t).head = t.head := by
  induction fields generalizing t with
  | nil => rfl
  | cons f fields ih =>
    rw [List.foldl_cons, ih]
    unfold addField
    split <;> rfl

theorem head_ensureMethod (t : GeneratedType) (name : String) (m : Method) :
    (t.ensureMethod name m).head = t.head := by
  unfold ensureMethod
  split <;> rfl

theorem head_of_changeBlock {b : CreationBlock} {f : List Statement → List Statement}
    {t t' : GeneratedType} (h : changeBlock b f t = .ok t') : t'.head = t.head := by
  obtain ⟨m, body, -, -, rfl⟩ := mapBlock?_eq_some_iff.1 (changeBlock_eq_ok_iff.1 h)
  rfl

theorem head_of_addToReading {s : Statement} {t t' : GeneratedType}
    (h : addToReading s t = .ok t') : t'.head = t.head := by
  obtain ⟨m, body, -, -, rfl⟩ := addToReading_eq_ok_iff.1 h
  rfl

theorem head_of_apply {c : Contribution} {t t' : GeneratedType} (h : c.apply t = .ok t') :
    t'.head = t.head := by
  cases c with
  | block b f => exact head_of_changeBlock h
  | method fields m =>
    obtain rfl := Except.ok.inj h
    exact head_addFields t fields
  | dispatch element refs =>
    obtain rfl := Except.ok.inj h
    exact head_ensureMethod t _ _
  | extra s =>
    rcases extra_cases h with ⟨-, t₁, hadded, h⟩ | ⟨-, h⟩
    · have hinject : t₁.head = (t.addMethod Extra.injectMethod).head := head_of_changeBlock hadded
      exact (head_of_addToReading h).trans hinject
    · exact head_of_addToReading h

end Contribution

theorem head_of_grown {c : ValidationContext} {origin : String} {t t' : GeneratedType}
    (h : ReflTransGen (Grows c origin) t t') : t'.head = t.head := by
  induction h with
  | refl => rfl
  | tail _ hgrows ih =>
    obtain ⟨x, h, contribution, -, -, -, happly⟩ := hgrows
    exact (Contribution.head_of_apply happly).trans ih

end ComponentGlue
