import Mathlib.Data.List.Forall2
import Mathlib.Data.List.Nodup
import ComponentGlue.Proofs.Code.Scope
import ComponentGlue.Proofs.Generation.Creation
import ComponentGlue.Proofs.Input

set_option autoImplicit false
set_option relaxedAutoImplicit false

namespace ComponentGlue

open Creation (content statements)

namespace Statement

/-- The field to which the statement assigns a view that it looks up. -/
def boundField? : Statement → Option String
  | .assign (.field .this name) (.cast _ (.call none "findViewById" [.resource _])) => some name
  | _ => none

/-- The field on whose view the statement sets a text from HTML. -/
def htmlField? : Statement → Option String
  | .run (.call (some (.field .this name)) "setText"
      [.call (some (.ident "android.text.Html")) "fromHtml" _]) => some name
  | _ => none

end Statement

namespace StandardKind

def usesViews : StandardKind → Bool
  | .boundView | .htmlText => true
  | _ => false

theorem filter_usesViews : all.filter usesViews = [.boundView, .htmlText] := rfl

end StandardKind

namespace DeclarationModel

variable (m : DeclarationModel) (origin : String)

def ownedUnder (marker : Marker) : List Declaration :=
  (m.declarations marker).filter fun d => d.element.owner == origin

def viewLookups (s : Setting) : List Statement :=
  (m.ownedUnder origin .bindsView).flatMap fun d =>
    (s.refs (.boundView, d)).map (BoundView.bind d (.parse (d.element.type.getD "")))

def textUpdates (s : Setting) : List Statement :=
  (m.ownedUnder origin .fromHtml).flatMap fun d =>
    (s.refs (.htmlText, d)).map (HtmlText.setText d)

theorem content_bindViews (s : Setting) (generated : String) :
    content s generated (m.members origin) .bindViews =
      m.viewLookups origin s ++ m.textUpdates origin s := by
  -- A kind that uses no views gives nothing, and of the other two the lookups come first.
  have hothers : ∀ k : StandardKind, k.usesViews = false →
      (m.ownedUnder origin k.marker).flatMap (fun d => statements s .bindViews (k, d)) = [] := by
    intro k hk
    refine List.flatMap_eq_nil_iff.2 fun d _ => ?_
    cases k with
    | boundView | htmlText => cases hk
    | lifecycle hook => cases hook <;> rfl
    | _ => rfl
  rw [content_members]
  show (m.owned origin).flatMap (statements s .bindViews) = _
  rw [flatMap_owned]
  refine (Creation.flatMap_filter_of_eq_nil hothers).symm.trans ?_
  rw [StandardKind.filter_usesViews, List.flatMap_cons, List.flatMap_singleton]
  rfl

variable {m origin}

theorem mem_ownedUnder_iff {marker : Marker} {d : Declaration} : d ∈ m.ownedUnder origin marker ↔
    d ∈ m.declarations marker ∧ d.element.owner = origin := by
  rw [ownedUnder, List.mem_filter, beq_iff_eq]

theorem exists_bind_of_mem_viewLookups {s : Setting} {st : Statement}
    (h : st ∈ m.viewLookups origin s) : ∃ d type view, st = BoundView.bind d type view := by
  obtain ⟨d, -, hst⟩ := List.mem_flatMap.1 h
  obtain ⟨view, -, rfl⟩ := List.mem_map.1 hst
  exact ⟨d, _, view, rfl⟩

theorem exists_setText_of_mem_textUpdates {s : Setting} {st : Statement}
    (h : st ∈ m.textUpdates origin s) : ∃ d html, st = HtmlText.setText d html := by
  obtain ⟨d, -, hst⟩ := List.mem_flatMap.1 h
  obtain ⟨html, -, rfl⟩ := List.mem_map.1 hst
  exact ⟨d, html, rfl⟩

theorem htmlField?_of_mem_viewLookups {s : Setting} {st : Statement}
    (h : st ∈ m.viewLookups origin s) : st.htmlField? = none := by
  obtain ⟨d, type, view, rfl⟩ := exists_bind_of_mem_viewLookups h
  rfl

theorem boundField?_of_mem_textUpdates {s : Setting} {st : Statement}
    (h : st ∈ m.textUpdates origin s) : st.boundField? = none := by
  obtain ⟨d, html, rfl⟩ := exists_setText_of_mem_textUpdates h
  rfl

theorem filter_htmlField?_bindViews (s : Setting) :
    (m.viewLookups origin s ++ m.textUpdates origin s).filter (fun st => st.htmlField?.isSome) =
      m.textUpdates origin s := by
  have hlookups : (m.viewLookups origin s).filter (fun st => st.htmlField?.isSome) = [] :=
    List.filter_eq_nil_iff.2 fun st hst => by simp [htmlField?_of_mem_viewLookups hst]
  have hupdates : ∀ st ∈ m.textUpdates origin s, st.htmlField?.isSome = true := by
    intro st hst
    obtain ⟨d, html, rfl⟩ := exists_setText_of_mem_textUpdates hst
    rfl
  rw [List.filter_append, hlookups, List.filter_eq_self.2 hupdates, List.nil_append]

theorem nestedAll_bindViews (s : Setting) :
    Statement.nestedAll (m.viewLookups origin s ++ m.textUpdates origin s) =
      m.viewLookups origin s ++ m.textUpdates origin s := by
  refine Statement.nestedAll_eq_self fun st hst => ?_
  rcases List.mem_append.1 hst with hst | hst
  · obtain ⟨d, type, view, rfl⟩ := exists_bind_of_mem_viewLookups hst
    rfl
  · obtain ⟨d, html, rfl⟩ := exists_setText_of_mem_textUpdates hst
    rfl

theorem Grouped.nodup_memberNames (h : m.Grouped) {marker : Marker}
    (hmember : ∀ d ∈ m.ownedUnder origin marker, d.element.kind.isType = false) :
    ((m.ownedUnder origin marker).map fun d => d.element.name).Nodup := by
  have hqualified : (m.ownedUnder origin marker).map Declaration.qualifiedName =
      ((m.ownedUnder origin marker).map fun d => d.element.name).map fun name =>
        origin ++ "#" ++ name := by
    rw [List.map_map]
    refine List.map_congr_left fun d hd => ?_
    have howner := (mem_ownedUnder_iff.1 hd).2
    show d.element.qualifiedName = _
    rw [Element.qualifiedName_of_member (hmember d hd), howner]
    rfl
  have hdistinct : ((m.ownedUnder origin marker).map Declaration.qualifiedName).Nodup :=
    (h.distinct marker).sublist (List.filter_sublist.map _)
  rw [hqualified] at hdistinct
  exact List.Nodup.of_map _ hdistinct

end DeclarationModel

section Lists

variable {α β γ : Type} {R : α → β → Prop} {as : List α} {bs : List β}

theorem forall₂_flatMap {f : α → List β} (h : ∀ a ∈ as, ∃ b, f a = [b] ∧ R a b) :
    List.Forall₂ R as (as.flatMap f) := by
  induction as with
  | nil => exact .nil
  | cons a as ih =>
    obtain ⟨⟨b, hb, hR⟩, hrest⟩ := List.forall_mem_cons.1 h
    rw [List.flatMap_cons, hb]
    exact .cons hR (ih hrest)

theorem filterMap_eq_map_of_forall₂ {g : β → Option γ} {name : α → γ} (h : List.Forall₂ R as bs)
    (hname : ∀ a b, R a b → g b = some (name a)) : bs.filterMap g = as.map name := by
  induction h with
  | nil => rfl
  | cons hR _ ih => rw [List.filterMap_cons_some (hname _ _ hR), ih, List.map_cons]

end Lists

namespace StandardRun

variable (run : StandardRun) {origin : String}

theorem forall₂_flatMap_refs {k : StandardKind} {key : Declaration → ResourceKey}
    (hkey : ∀ d, k.rule.resources d = [key d]) (origin : String)
    (f : Declaration → ResourceRef → Statement) :
    List.Forall₂ (fun d st => ∃ ref, run.context.setting.resource (key d) = .ok ref ∧ st = f d ref)
      (run.accepted.ownedUnder origin k.marker)
      ((run.accepted.ownedUnder origin k.marker).flatMap fun d =>
        (run.context.setting.refs (k, d)).map (f d)) := by
  refine forall₂_flatMap fun d hd => ?_
  have hrefs := run.forall₂_refs (DeclarationModel.mem_ownedUnder_iff.1 hd).1
  rw [hkey, List.forall₂_cons_left_iff] at hrefs
  obtain ⟨ref, rest, href, hrest, hall⟩ := hrefs
  cases hrest
  refine ⟨f d ref, ?_, ref, href, rfl⟩
  rw [hall]
  rfl

theorem filterMap_boundField?_viewLookups (origin : String) :
    (run.accepted.viewLookups origin run.context.setting).filterMap Statement.boundField? =
      (run.accepted.ownedUnder origin .bindsView).map fun d => d.element.name := by
  refine filterMap_eq_map_of_forall₂ (run.forall₂_flatMap_refs (k := .boundView)
    (fun _ => rfl) origin _) ?_
  rintro d _ ⟨view, -, rfl⟩
  rfl

theorem filterMap_htmlField?_textUpdates (origin : String) :
    (run.accepted.textUpdates origin run.context.setting).filterMap Statement.htmlField? =
      (run.accepted.ownedUnder origin .fromHtml).map fun d => d.element.name := by
  refine filterMap_eq_map_of_forall₂ (run.forall₂_flatMap_refs (k := .htmlText)
    (fun _ => rfl) origin _) ?_
  rintro d _ ⟨html, -, rfl⟩
  rfl

theorem filterMap_htmlField?_bindViews (origin : String) :
    (run.accepted.viewLookups origin run.context.setting ++
      run.accepted.textUpdates origin run.context.setting).filterMap Statement.htmlField? =
      (run.accepted.ownedUnder origin .fromHtml).map fun d => d.element.name := by
  rw [List.filterMap_append, run.filterMap_htmlField?_textUpdates,
    List.filterMap_eq_nil_iff.2 fun _ => DeclarationModel.htmlField?_of_mem_viewLookups,
    List.nil_append]

theorem exists_boundField?_iff {front back : List Statement} {s : Statement} {f : String}
    (hcut : run.accepted.viewLookups origin run.context.setting ++
      run.accepted.textUpdates origin run.context.setting = front ++ s :: back)
    (hs : s.htmlField? = some f) (field : String) :
    (∃ s' ∈ front, s'.boundField? = some field) ↔
      ∃ b ∈ run.accepted.ownedUnder origin .bindsView, b.element.name = field := by
  -- The text is set after all lookups, and between them and it there are only other texts.
  have hlater : s ∉ run.accepted.viewLookups origin run.context.setting := by
    intro hmem
    rw [DeclarationModel.htmlField?_of_mem_viewLookups hmem] at hs
    cases hs
  obtain ⟨between, rfl, hrest⟩ := Text.exists_append_of_notMem hcut hlater
  have hnone : between.filterMap Statement.boundField? = [] := by
    refine List.filterMap_eq_nil_iff.2 fun s' hs' => ?_
    have hmem : s' ∈ run.accepted.textUpdates origin run.context.setting :=
      hrest ▸ List.mem_append_left _ hs'
    exact DeclarationModel.boundField?_of_mem_textUpdates hmem
  rw [← List.mem_filterMap, List.filterMap_append, hnone, List.append_nil,
    run.filterMap_boundField?_viewLookups, List.mem_map]

theorem isType_eq_false_of_fromHtml {e : Declaration}
    (he : e ∈ run.accepted.declarations .fromHtml) : e.element.kind.isType = false :=
  (run.accepts_of_mem (k := .htmlText) he).fits.met.own.1.isType_eq_false rfl

theorem exists_bound_of_fromHtml {e : Declaration} (he : e ∈ run.accepted.declarations .fromHtml) :
    ∃ b ∈ run.accepted.declarations .bindsView, b.element.kind.isType = false ∧
      b.qualifiedName = e.qualifiedName := by
  have hneeds : (⟨e.qualifiedName, .bindsView⟩ : Owner) ∈
      (StandardKind.htmlText.requirement ⟨run.context, e⟩).needs :=
    List.mem_cons_of_mem _ List.mem_cons_self
  have hmarked := (run.accepts_of_mem (k := .htmlText) he).owners _ hneeds
  rw [← run.accepted_eq] at hmarked
  obtain ⟨b, hb, hname⟩ := DeclarationModel.isAnnotated_iff.1 hmarked
  exact ⟨b, hb, (run.accepts_of_mem (k := .boundView) hb).fits.met.own.1.isType_eq_false rfl, hname⟩

theorem nodup_htmlFields (origin : String) :
    ((run.accepted.ownedUnder origin .fromHtml).map fun d => d.element.name).Nodup :=
  run.grouped_accepted.nodup_memberNames fun _ he =>
    run.isType_eq_false_of_fromHtml (DeclarationModel.mem_ownedUnder_iff.1 he).1

theorem exists_bound_of_owned {e : Declaration} (he : e ∈ run.accepted.ownedUnder origin .fromHtml)
    (horigin : '#' ∉ origin.toList) (hfield : '#' ∉ e.element.name.toList) :
    ∃ b ∈ run.accepted.ownedUnder origin .bindsView, b.element.name = e.element.name := by
  obtain ⟨he, howner⟩ := DeclarationModel.mem_ownedUnder_iff.1 he
  obtain ⟨b, hb, hmember, hname⟩ := run.exists_bound_of_fromHtml he
  obtain ⟨hsame, hfields⟩ := Element.eq_of_member_of_qualifiedName_eq
    (run.isType_eq_false_of_fromHtml he) hmember (howner ▸ horigin) hfield hname.symm
  exact ⟨b, DeclarationModel.mem_ownedUnder_iff.2 ⟨hb, hsame.symm.trans howner⟩, hfields.symm⟩

/-- The block that binds the views of a component, unless another type replaces it, sets the text of each
of its HTML fields by one statement. Before that statement the field is assigned its view if and only if
the component binds a field of this name, as it does where the two names have no number sign. -/
theorem exists_htmlTexts {d : Declaration}
    (hd : d ∈ run.accepted.declarations .enhancedComponent)
    (hkept : ¬ run.accepted.Replaces d.qualifiedName) : ∃ t block,
    run.model.get? (run.project.generatedName d.qualifiedName) = some t ∧
    t.block? onCreate CreationBlock.bindViews.label = some block ∧
    Statement.nestedAll block = block ∧
    List.Forall₂ (fun e s => ∃ html,
        run.context.setting.resource ⟨.string, e.argOrName "name"⟩ = .ok html ∧
        s = HtmlText.setText e html)
      (run.accepted.ownedUnder d.qualifiedName .fromHtml)
      (block.filter fun s => s.htmlField?.isSome) ∧
    (∀ e ∈ run.accepted.ownedUnder d.qualifiedName .fromHtml,
      (block.filterMap Statement.htmlField?).count e.element.name = 1) ∧
    ∀ front s back f, block = front ++ s :: back → s.htmlField? = some f →
      ((∃ s' ∈ front, s'.boundField? = some f) ↔
        ∃ b ∈ run.accepted.ownedUnder d.qualifiedName .bindsView, b.element.name = f) ∧
      ('#' ∉ d.qualifiedName.toList → '#' ∉ f.toList → ∃ s' ∈ front, s'.boundField? = some f) := by
  obtain ⟨t, layouts, hfound, -, -, hcreated⟩ := run.exists_created hd hkept
  have hblock := hcreated.block?_onCreate .bindViews
  rw [DeclarationModel.content_bindViews] at hblock
  have hfields := run.filterMap_htmlField?_bindViews d.qualifiedName
  refine ⟨t, _, hfound, hblock, DeclarationModel.nestedAll_bindViews _, ?_, ?_, ?_⟩
  · rw [DeclarationModel.filter_htmlField?_bindViews]
    exact run.forall₂_flatMap_refs (k := .htmlText) (fun _ => rfl) d.qualifiedName HtmlText.setText
  · intro e he
    rw [hfields]
    exact List.count_eq_one_of_mem (run.nodup_htmlFields d.qualifiedName) (List.mem_map_of_mem he)
  · intro front s back f hcut hs
    have hiff := run.exists_boundField?_iff hcut hs f
    refine ⟨hiff, fun horigin hfield => hiff.2 ?_⟩
    have hmem : f ∈ (run.accepted.ownedUnder d.qualifiedName .fromHtml).map fun e => e.element.name := by
      rw [← hfields, hcut]
      exact List.mem_filterMap.2 ⟨s, List.mem_append_right _ List.mem_cons_self, hs⟩
    obtain ⟨e, he, rfl⟩ := List.mem_map.1 hmem
    exact run.exists_bound_of_owned he horigin hfield

private def htmlField (name owner : String) : RawDeclaration :=
  ⟨⟨.field, name, owner, some "TextView", [], [], [], [], []⟩, .empty⟩

private def viewField (name owner id : String) : RawDeclaration :=
  ⟨⟨.field, name, owner, some "TextView", [], [], [], [], []⟩, .ofList [("id", .str id)]⟩

private def labelClass (name : String) : RawDeclaration :=
  ⟨⟨.classType, name, "a", none, [], [], [], [], []⟩, .empty⟩

private def labelBatches : List (Marker × List RawDeclaration) :=
  [(.fromHtml, [htmlField "title" "a.Main"]),
    (.bindsView, [viewField "note" "a.Main" "note", viewField "title" "a.Main" "title"]),
    (.enhancedComponent, [labelClass "Main"])]

private def strayBatches : List (Marker × List RawDeclaration) :=
  [(.fromHtml, [htmlField "title" "a.Main#x"]),
    (.bindsView, [viewField "x#title" "a.Main" "title"]),
    (.enhancedComponent, [labelClass "Main", labelClass "Main#x"])]

private def labelRun (batches : List (Marker × List RawDeclaration)) :
    Except Interruption StandardRun :=
  ofHost batches (.ok [⟨"id", "title", 1⟩, ⟨"id", "note", 2⟩, ⟨"string", "title", 3⟩]) (.ok [])
    (.new "a")

private def labelParts (origin : String) (run : StandardRun) :
    List String × Bool × Bool × List (List String) :=
  let block? := (run.model.get? (run.project.generatedName origin)).bind fun t =>
    t.block? onCreate CreationBlock.bindViews.label
  ((run.accepted.declarations .enhancedComponent).map Declaration.qualifiedName,
    run.accepted.isAnnotated origin .sharedPref, run.accepted.isAnnotated origin .rest,
    block?.elim [] fun block =>
      [block.filterMap Statement.boundField?, block.filterMap Statement.htmlField?])

private theorem exists_labelRun (batches : List (Marker × List RawDeclaration)) (origin : String)
    {components bound texts : List String} (hmem : origin ∈ components)
    (h : (labelRun batches).toOption.map (labelParts origin) =
      some (components, false, false, [bound, texts])) : ∃ run t block,
    labelRun batches = .ok run ∧
    (∃ d ∈ run.accepted.declarations .enhancedComponent, d.qualifiedName = origin) ∧
    ¬ run.accepted.Replaces origin ∧
    run.model.get? (run.project.generatedName origin) = some t ∧
    t.block? onCreate CreationBlock.bindViews.label = some block ∧
    block.filterMap Statement.boundField? = bound ∧
    block.filterMap Statement.htmlField? = texts := by
  obtain ⟨run, hrun, hparts⟩ := exists_ok_of_map_toOption h
  obtain ⟨hcomponents, hparts⟩ := Prod.mk.inj hparts
  obtain ⟨hpref, hparts⟩ := Prod.mk.inj hparts
  obtain ⟨hrest, hfields⟩ := Prod.mk.inj hparts
  rw [← hcomponents, List.mem_map] at hmem
  have hkept : ¬ run.accepted.Replaces origin := by
    rw [DeclarationModel.Replaces, hpref, hrest]
    decide
  rcases hfound : run.model.get? (run.project.generatedName origin) with - | t
  · rw [hfound] at hfields
    cases hfields
  rcases hblock : t.block? onCreate CreationBlock.bindViews.label with - | block
  · rw [hfound, Option.bind_some, hblock] at hfields
    cases hfields
  rw [hfound, Option.bind_some, hblock] at hfields
  obtain ⟨hbound, htexts⟩ := List.cons.inj hfields
  exact ⟨run, t, block, hrun, hmem, hkept, hfound, hblock, hbound, (List.cons.inj htexts).1⟩

private theorem exists_append_of_filterMap_eq_singleton {block : List Statement} {f : String}
    (h : block.filterMap Statement.htmlField? = [f]) :
    ∃ front s back, block = front ++ s :: back ∧ s.htmlField? = some f := by
  have hmem : f ∈ block.filterMap Statement.htmlField? := h ▸ List.mem_singleton_self f
  obtain ⟨s, hs, hfield⟩ := List.mem_filterMap.1 hmem
  obtain ⟨front, back, hcut⟩ := List.append_of_mem hs
  exact ⟨front, s, back, hcut, hfield⟩

theorem exists_htmlTexts_label : ∃ run t block front s back, labelRun labelBatches = .ok run ∧
    (∃ d ∈ run.accepted.declarations .enhancedComponent, d.qualifiedName = "a.Main") ∧
    ¬ run.accepted.Replaces "a.Main" ∧
    run.model.get? (run.project.generatedName "a.Main") = some t ∧
    t.block? onCreate CreationBlock.bindViews.label = some block ∧
    block = front ++ s :: back ∧ s.htmlField? = some "title" ∧
    ∃ s' ∈ front, s'.boundField? = some "title" := by
  obtain ⟨run, t, block, hrun, ⟨d, hd, hmain⟩, hkept, hfound, hblock, -, htexts⟩ :=
    exists_labelRun labelBatches "a.Main" (List.mem_singleton_self "a.Main")
      (by decide +kernel : (labelRun labelBatches).toOption.map (labelParts "a.Main") =
        some (["a.Main"], false, false, [["note", "title"], ["title"]]))
  obtain ⟨front, s, back, hcut, hs⟩ := exists_append_of_filterMap_eq_singleton htexts
  obtain ⟨t', block', hfound', hblock', -, -, -, hbinds⟩ := run.exists_htmlTexts hd (hmain ▸ hkept)
  rw [hmain] at hfound' hbinds
  obtain rfl := Option.some.inj (hfound.symm.trans hfound')
  obtain rfl := Option.some.inj (hblock.symm.trans hblock')
  exact ⟨run, t, block, front, s, back, hrun, ⟨d, hd, hmain⟩, hkept, hfound, hblock, hcut, hs,
    (hbinds front s back "title" hcut hs).2 (by decide) (by decide)⟩

/-- The text of a field is set although no view has been assigned to it. -/
theorem not_bound_htmlText_stray : ∃ run t block front s back, labelRun strayBatches = .ok run ∧
    (∃ d ∈ run.accepted.declarations .enhancedComponent, d.qualifiedName = "a.Main#x") ∧
    ¬ run.accepted.Replaces "a.Main#x" ∧
    run.model.get? (run.project.generatedName "a.Main#x") = some t ∧
    t.block? onCreate CreationBlock.bindViews.label = some block ∧
    block = front ++ s :: back ∧ s.htmlField? = some "title" ∧
    ¬ ∃ s' ∈ front, s'.boundField? = some "title" := by
  obtain ⟨run, t, block, hrun, hcomponent, hkept, hfound, hblock, hbound, htexts⟩ :=
    exists_labelRun strayBatches "a.Main#x" (by decide : "a.Main#x" ∈ ["a.Main", "a.Main#x"])
      (by decide +kernel : (labelRun strayBatches).toOption.map (labelParts "a.Main#x") =
        some (["a.Main", "a.Main#x"], false, false, [[], ["title"]]))
  obtain ⟨front, s, back, hcut, hs⟩ := exists_append_of_filterMap_eq_singleton htexts
  refine ⟨run, t, block, front, s, back, hrun, hcomponent, hkept, hfound, hblock, hcut, hs, ?_⟩
  rintro ⟨s', hs', hfield⟩
  have hnone := List.filterMap_eq_nil_iff.1 hbound s' (hcut ▸ List.mem_append_left _ hs')
  rw [hfield] at hnone
  cases hnone

end StandardRun

end ComponentGlue
