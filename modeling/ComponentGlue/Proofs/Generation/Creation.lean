import ComponentGlue.Proofs.Generation.BlockContent

set_option autoImplicit false
set_option relaxedAutoImplicit false

namespace ComponentGlue

open StandardKind (leaves schedule)
open Creation (content reads statements listeners)
open GeneratedType (Unguarded)

namespace Contribution

variable {t t' : GeneratedType} {layouts : List ResourceRef}
  {filled : CreationBlock → List Statement} {others : List Method}

theorem methods_mapMethod {m : Method} {name : String} (f : Method → Method)
    (hmethods : t.methods = m :: others) (hname : m.name ≠ name) :
    (t.mapMethod name f).methods = m :: GeneratedType.updateMethod name f others := by
  simp [GeneratedType.mapMethod, hmethods, GeneratedType.updateMethod, hname]

theorem methods_of_changeBlock {b : CreationBlock} {f : List Statement → List Statement}
    (hmethods : t.methods = Component.filledMethod layouts filled :: others)
    (h : changeBlock b f t = .ok t') : t'.methods =
      Component.filledMethod layouts (Function.update filled b (f (filled b))) :: others := by
  have hfound : t.method? onCreate = some (Component.filledMethod layouts filled) := by
    rw [GeneratedType.method?, hmethods]
    rfl
  unfold changeBlock GeneratedType.mapBlock? at h
  rw [hfound, Option.bind_some, Component.mapBlock?_filledMethod] at h
  obtain rfl := Except.ok.inj h
  show GeneratedType.updateMethod onCreate _ t.methods = _
  rw [hmethods]
  rfl

theorem methods_of_addToReading {s : Statement}
    (hmethods : t.methods = Component.filledMethod layouts filled :: others)
    (h : addToReading s t = .ok t') :
    ∃ others', t'.methods = Component.filledMethod layouts filled :: others' := by
  obtain ⟨m, body, -, -, rfl⟩ := addToReading_eq_ok_iff.1 h
  exact ⟨_, methods_mapMethod _ hmethods onCreate_ne_injectExtras⟩

theorem method?_of_addToReading_self {s : Statement} {branches : List Statement}
    (hfound : t.method? Extra.injectExtras = some (Extra.readingMethod branches))
    (h : addToReading s t = .ok t') :
    t'.method? Extra.injectExtras = some (Extra.readingMethod (branches ++ [s])) := by
  have hbody : Extra.addToGuard? s (Extra.readingMethod branches).body =
      some (Extra.readingMethod (branches ++ [s])).body := rfl
  unfold addToReading at h
  rw [hfound, Option.bind_some, hbody] at h
  obtain rfl := Except.ok.inj h
  refine (t.method?_mapMethod Extra.injectExtras (by exact fun _ hm => hm) _).trans ?_
  rw [if_pos rfl, hfound]
  rfl

end Contribution

/-- A component's type after some of its declarations: `onCreate` comes first and holds what they give to
its blocks, and the extras among them are read. -/
structure Created (s : Setting) (generated : String) (layouts : List ResourceRef)
    (xs : List (StandardKind × Declaration)) (t : GeneratedType) : Prop where
  name : t.name = generated
  creation : ∃ others,
    t.methods = Component.filledMethod layouts (content s generated xs) :: others
  /-- Without extras nothing can be added to a method of the name of the reading method. -/
  unread : xs.flatMap reads = [] →
    ∀ m, t.method? Extra.injectExtras = some m → Unguarded m.body
  read : xs.flatMap reads ≠ [] →
    t.method? Extra.injectExtras = some (Extra.readingMethod (xs.flatMap reads))

namespace Created

variable {s : Setting} {generated origin : String} {layouts : List ResourceRef}
  {xs : List (StandardKind × Declaration)} {x : StandardKind × Declaration} {t t' : GeneratedType}

theorem subclass : Created s generated layouts [] (Component.subclass generated origin layouts) where
  name := rfl
  creation := ⟨[], rfl⟩
  unread := fun _ m hm => by cases hm
  read := fun h => absurd rfl h

theorem block?_onCreate (h : Created s generated layouts xs t) (b : CreationBlock) :
    t.block? onCreate b.label = some (content s generated xs b) := by
  obtain ⟨others, hmethods⟩ := h.creation
  have hfirst : t.method? onCreate =
      some (Component.filledMethod layouts (content s generated xs)) := by
    rw [GeneratedType.method?, hmethods]
    rfl
  rw [GeneratedType.block?, hfirst]
  exact Component.block?_filledMethod layouts _ b

theorem of_method?_eq (h : Created s generated layouts xs t) (hname : t'.name = t.name)
    (hcreation : ∃ others,
      t'.methods = Component.filledMethod layouts (content s generated (xs ++ [x])) :: others)
    (hreads : reads x = [])
    (hsame : t'.method? Extra.injectExtras = t.method? Extra.injectExtras) :
    Created s generated layouts (xs ++ [x]) t' := by
  have hnone : (xs ++ [x]).flatMap reads = xs.flatMap reads := by simp [hreads]
  exact ⟨hname.trans h.name, hcreation, hnone ▸ hsame ▸ h.unread, hnone ▸ hsame ▸ h.read⟩

theorem block (h : Created s generated layouts xs t) {b : CreationBlock}
    {f : GeneratedType → List Statement → List Statement}
    (happly : (Contribution.block b f).apply t = .ok t') (hreads : reads x = [])
    (hcontent : content s generated (xs ++ [x]) = Function.update (content s generated xs) b
      (f t (content s generated xs b))) : Created s generated layouts (xs ++ [x]) t' := by
  obtain ⟨others, hmethods⟩ := h.creation
  have hchanged := Contribution.blockChanged_of_changeBlock happly
  refine h.of_method?_eq hchanged.name ⟨others, ?_⟩ hreads
    (hchanged.others _ Contribution.onCreate_ne_injectExtras.symm)
  rw [hcontent]
  exact Contribution.methods_of_changeBlock hmethods happly

theorem append (h : Created s generated layouts xs t) {b : CreationBlock} {added : List Statement}
    (happly : (Contribution.block b fun _ => (· ++ added)).apply t = .ok t')
    (hreads : reads x = []) (hlisteners : listeners s generated x = [])
    (hadded : ∀ b', statements s b' x = if b' = b then added else []) :
    Created s generated layouts (xs ++ [x]) t' :=
  h.block happly hreads (Creation.content_snoc_append hreads hlisteners hadded)

/-- A method of the declaration's own comes behind all others, and nothing can be added to it. -/
theorem method (h : Created s generated layouts xs t) {fields : List Field}
    {m : GeneratedType → Method} (happly : (Contribution.method fields m).apply t = .ok t')
    (hplain : (m t).Plain) (hreads : reads x = []) (hlisteners : listeners s generated x = [])
    (hnone : ∀ b, statements s b x = []) : Created s generated layouts (xs ++ [x]) t' := by
  obtain rfl := Except.ok.inj happly
  obtain ⟨others, hmethods⟩ := h.creation
  have hsame : (xs ++ [x]).flatMap reads = xs.flatMap reads := by simp [hreads]
  have hfields := Contribution.method?_addFields t fields Extra.injectExtras
  refine ⟨(Contribution.name_addFields t fields).1.trans h.name, ⟨others ++ [m t], ?_⟩, ?_, ?_⟩
  · rw [Creation.content_snoc_nil hreads hlisteners hnone]
    show (fields.foldl GeneratedType.addField t).methods ++ [m t] = _
    rw [(Contribution.name_addFields t fields).2, hmethods]
    rfl
  · rw [hsame]
    intro hunread m' hm'
    rw [GeneratedType.method?_addMethod, hfields] at hm'
    rcases hfound : t.method? Extra.injectExtras with - | m''
    · rw [hfound, Option.none_or] at hm'
      split at hm'
      · next hname =>
        obtain rfl := Option.some.inj hm'
        exact hplain.unguarded hname
      · cases hm'
    · rw [hfound, Option.some_or] at hm'
      obtain rfl := Option.some.inj hm'
      exact h.unread hunread m'' hfound
  · rw [hsame]
    intro hread
    exact GeneratedType.method?_addMethod_of_some (hfields.trans (h.read hread)) (m t)

theorem dispatch (h : Created s generated layouts xs t) {element : Element} {refs : List ResourceRef}
    (happly : (Contribution.dispatch element refs).apply t = .ok t') (hreads : reads x = [])
    (hlisteners : listeners s generated x = []) (hnone : ∀ b, statements s b x = []) :
    Created s generated layouts (xs ++ [x]) t' := by
  have hname := (Contribution.kept_of_apply happly).1
  obtain rfl := Except.ok.inj happly
  obtain ⟨others, hmethods⟩ := h.creation
  refine h.of_method?_eq hname ?_ hreads (Contribution.method?_dispatch t element refs (by decide))
  rw [Creation.content_snoc_nil hreads hlisteners hnone]
  have hensured : ∃ others', (t.ensureMethod OptionsItem.onOptionsItemSelected
      OptionsItem.dispatchMethod).methods =
        Component.filledMethod layouts (content s generated xs) :: others' := by
    unfold GeneratedType.ensureMethod
    split
    · exact ⟨others, hmethods⟩
    · exact ⟨_, GeneratedType.methods_addMethod_of_eq_cons hmethods OptionsItem.dispatchMethod⟩
  obtain ⟨others', hothers'⟩ := hensured
  exact ⟨_, Contribution.methods_mapMethod _ hothers'
    (by decide : onCreate ≠ OptionsItem.onOptionsItemSelected)⟩

theorem extra (h : Created s generated layouts xs t) {d : Declaration}
    (happly : (Contribution.extra (Extra.readExtra d (d.argOrName "key")
      (.parse (d.element.type.getD "")))).apply t = .ok t') :
    Created s generated layouts (xs ++ [(.extra, d)]) t' := by
  obtain ⟨others, hmethods⟩ := h.creation
  have hname := (Contribution.kept_of_apply happly).1.trans h.name
  have hread : (xs ++ [(StandardKind.extra, d)]).flatMap reads = xs.flatMap reads ++
      [Extra.readExtra d (d.argOrName "key") (.parse (d.element.type.getD ""))] := by
    simp [reads]
  have hne : (xs ++ [(StandardKind.extra, d)]).flatMap reads ≠ [] := by simp [hread]
  have hcontent : content s generated (xs ++ [(.extra, d)]) = if (xs.flatMap reads).isEmpty then
      Function.update (content s generated xs) .inject
        (content s generated xs .inject ++ [Extra.callReading])
      else content s generated xs := Creation.content_snoc_extra d
  -- The first extra adds the reading method and its call; a later one only adds to the method.
  by_cases hfirst : xs.flatMap reads = []
  · rw [hfirst, List.isEmpty_nil, if_pos rfl] at hcontent
    rcases Contribution.extra_cases happly with ⟨hfound, t₁, hadded, happly⟩ | ⟨hsome, happly⟩
    swap
    · -- Nothing can be added to a method that hides the reading of extras.
      obtain ⟨m, hfound⟩ := Option.isSome_iff_exists.1 hsome
      rw [Contribution.addToReading_of_hidesExtras
        ⟨m, hfound, h.unread hfirst m hfound⟩] at happly
      cases happly
    have hmethods₁ := Contribution.methods_of_changeBlock
      (GeneratedType.methods_addMethod_of_eq_cons hmethods Extra.injectMethod) hadded
    obtain ⟨others', hothers'⟩ := Contribution.methods_of_addToReading hmethods₁ happly
    have hfound₁ : t₁.method? Extra.injectExtras = some (Extra.readingMethod []) := by
      rw [(Contribution.blockChanged_of_changeBlock hadded).others _
        Contribution.onCreate_ne_injectExtras.symm, GeneratedType.method?_addMethod, hfound,
        Option.none_or]
      rfl
    refine ⟨hname, ⟨others', hcontent ▸ hothers'⟩, fun hnone => absurd hnone hne, fun _ => ?_⟩
    rw [hread, hfirst]
    exact Contribution.method?_of_addToReading_self hfound₁ happly
  · rw [if_neg (by simpa using hfirst)] at hcontent
    have hfound := h.read hfirst
    rcases Contribution.extra_cases happly with ⟨hnone, -⟩ | ⟨-, happly⟩
    · rw [hfound] at hnone
      cases hnone
    obtain ⟨others', hothers'⟩ := Contribution.methods_of_addToReading hmethods happly
    refine ⟨hname, ⟨others', hcontent ▸ hothers'⟩, fun hnone => absurd hnone hne, fun _ => ?_⟩
    rw [hread]
    exact Contribution.method?_of_addToReading_self hfound happly

theorem snoc (h : Created s generated layouts xs t) {holder : Holder} {contribution : Contribution}
    (hleaves : leaves s x = .contribution holder contribution)
    (happly : contribution.apply t = .ok t') : Created s generated layouts (xs ++ [x]) t' := by
  have hgives := StandardKind.gives_output hleaves
  obtain ⟨k, d⟩ := x
  cases k with
  | component | preferenceHelper | restClient => cases hleaves
  | boundView | htmlText | preferenceField | resourceField _ | systemService | lifecycle _
  | applicationField =>
    cases hleaves
    exact h.append happly rfl rfl fun _ => rfl
  | listener k =>
    cases hleaves
    refine h.block happly rfl ?_
    rw [h.name]
    exact Creation.content_snoc_listener k d
  | optionsItem =>
    cases hleaves
    exact h.dispatch happly rfl rfl fun _ => rfl
  | extra =>
    cases hleaves
    exact h.extra happly
  | optionsMenu | thread _ | transaction | request _ =>
    cases hleaves
    exact h.method happly (hgives.plain _ _ t rfl) rfl rfl fun _ => rfl

end Created

namespace DeclarationModel

variable {m : DeclarationModel} {origin : String}

def owned (m : DeclarationModel) (origin : String) : List (StandardKind × Declaration) :=
  (schedule m).filter fun x => x.2.element.owner == origin

theorem filter_members (m : DeclarationModel) (origin : String) :
    (m.members origin).filter Creation.fills = (m.owned origin).filter Creation.fills := by
  rw [members, owned, List.filter_filter, List.filter_filter]
  refine List.filter_congr fun x _ => ?_
  cases hfills : Creation.fills x with
  | false => rfl
  | true =>
    have hholder : x.1.holder? x.2 = some (.component x.2.element.owner) :=
      holder?_of_needsBlocks hfills x.2
    rw [contributesTo, hholder]
    rfl

theorem flatMap_owned {α : Type} (m : DeclarationModel) (origin : String)
    (f : StandardKind × Declaration → List α) : (m.owned origin).flatMap f =
      StandardKind.all.flatMap fun k => ((m.declarations k.marker).filter fun d =>
        d.element.owner == origin).flatMap fun d => f (k, d) := by
  rw [owned, schedule, List.filter_flatMap, List.flatMap_assoc]
  refine List.flatMap_congr fun k _ => ?_
  rw [List.filter_map, List.flatMap_map]
  rfl

theorem flatMap_owned_of_kind {α : Type} (m : DeclarationModel) (origin : String) (k : StandardKind)
    {f : StandardKind × Declaration → List α} (h : ∀ x, x.1 ≠ k → f x = []) :
    (m.owned origin).flatMap f = ((m.declarations k.marker).filter fun d =>
      d.element.owner == origin).flatMap fun d => f (k, d) := by
  have hothers : ∀ ks : List StandardKind, k ∉ ks → (ks.flatMap fun l =>
      ((m.declarations l.marker).filter fun d => d.element.owner == origin).flatMap fun d =>
        f (l, d)) = [] := by
    intro ks hks
    rw [List.flatMap_eq_nil_iff]
    intro l hl
    rw [List.flatMap_eq_nil_iff]
    intro d hd
    exact h (l, d) fun heq => hks (heq ▸ hl)
  obtain ⟨front, back, hall⟩ := List.append_of_mem (StandardKind.mem_all k)
  have hkinds : StandardKind.all.Nodup := .of_map _ StandardKind.nodup_markers
  rw [hall, List.nodup_middle, List.nodup_cons, List.mem_append, not_or] at hkinds
  rw [flatMap_owned, hall, List.flatMap_append, List.flatMap_cons, hothers front hkinds.1.1,
    hothers back hkinds.1.2, List.nil_append, List.append_nil]

theorem content_members (m : DeclarationModel) (s : Setting) (generated origin : String) :
    content s generated (m.members origin) = content s generated (m.owned origin) := by
  rw [← Creation.content_filter, filter_members, Creation.content_filter]

end DeclarationModel

theorem Setting.forall₂_of_resources {s : Setting} {keys : List ResourceKey}
    {refs : List ResourceRef} (h : s.resources keys = .ok refs) :
    List.Forall₂ (fun key ref => s.resource key = .ok ref) keys refs := by
  induction keys generalizing refs with
  | nil =>
    obtain rfl := Except.ok.inj h
    exact .nil
  | cons key keys ih =>
    rw [Setting.resources] at h
    split at h
    · cases h
    · next ref href =>
      rcases hrest : s.resources keys with f | rest
      · rw [hrest] at h
        cases h
      · rw [hrest] at h
        obtain rfl := Except.ok.inj h
        exact .cons href (ih hrest)

theorem Component.length_resources {d : Declaration} (hreads : d.Reads "layout" Argument.str?) :
    (resources d).length = (d.arg? "layout").toList.length := by
  rw [resources, List.length_map, Declaration.argStr?]
  cases hlayout : d.arg? "layout" with
  | none => rfl
  | some value =>
    obtain ⟨layout, hvalue⟩ := Option.isSome_iff_exists.1 (hreads value hlayout)
    rw [Option.bind_some, hvalue]
    rfl

namespace StandardRun

variable (run : StandardRun)

theorem forall₂_refs {k : StandardKind} {d : Declaration}
    (hd : d ∈ run.accepted.declarations k.marker) :
    List.Forall₂ (fun key ref => run.context.setting.resource key = .ok ref) (k.rule.resources d)
      (run.context.setting.refs (k, d)) := by
  obtain ⟨refs, hrefs, -⟩ := StandardKind.exists_process_eq (run.accepts_of_mem hd).fits
  have hfound : run.context.setting.refs (k, d) = refs := by
    rw [Setting.refs, hrefs]
    rfl
  rw [hfound]
  exact Setting.forall₂_of_resources hrefs

theorem exists_created {d : Declaration} (hd : d ∈ run.accepted.declarations .enhancedComponent)
    (hkept : ¬ run.accepted.Replaces d.qualifiedName) : ∃ t layouts,
    run.model.get? (run.project.generatedName d.qualifiedName) = some t ∧
    run.context.setting.resources (Component.resources d) = .ok layouts ∧
    layouts.length = (d.arg? "layout").toList.length ∧
    Created run.context.setting (run.project.generatedName d.qualifiedName) layouts
      (run.accepted.members d.qualifiedName) t := by
  have haccepts : run.context.Accepts .component d := run.accepts_of_mem hd
  obtain ⟨layouts, hlayouts, hleaves, -⟩ := StandardKind.exists_process_eq haccepts.fits
  obtain ⟨t, hfound, hcreated⟩ := run.members_induct
    (P := Created run.context.setting (run.project.generatedName d.qualifiedName) layouts)
    (lastPut_of_component run.grouped_accepted hd hkept)
    (fun t ht _ => by
      obtain rfl := Output.type.inj (hleaves.symm.trans ht)
      exact Created.subclass)
    (fun _ hP _ hleaves _ happly => hP.snoc hleaves happly)
  have hreads : d.Reads "layout" Argument.str? := haccepts.fits.met.own.2.2.2.2.2
  have hlength : layouts.length = (Component.resources d).length :=
    (Setting.forall₂_of_resources hlayouts).length_eq.symm
  exact ⟨t, layouts, hfound, hlayouts, hlength.trans (Component.length_resources hreads), hcreated⟩

end StandardRun

end ComponentGlue
