import ComponentGlue.Proofs.Rule.Emission
import ComponentGlue.Proofs.Validation.Accepted

set_option autoImplicit false
set_option relaxedAutoImplicit false

namespace ComponentGlue

section Output

open Assemble (Changes)

def ValidationContext.setting (c : ValidationContext) : Setting := ⟨c.catalog, c.project⟩

theorem Setting.exists_resources {s : Setting} {keys : List ResourceKey}
    (h : ∀ key ∈ keys, ∃ ref, s.resource key = .ok ref) : ∃ refs, s.resources keys = .ok refs := by
  induction keys with
  | nil => exact ⟨[], rfl⟩
  | cons key keys ih =>
    obtain ⟨ref, href⟩ := h key List.mem_cons_self
    obtain ⟨refs, hrefs⟩ := ih fun key' hkey' => h key' (List.mem_cons_of_mem key hkey')
    refine ⟨ref :: refs, ?_⟩
    rw [Setting.resources, href, hrefs]
    rfl

/-- A type of the declaration's own, or a contribution to a held type. -/
inductive Output where
  | type (t : GeneratedType)
  | contribution (h : Holder) (c : Contribution)

namespace Output

/-- Where the output goes; none when it is a type of its own. -/
def holder? : Output → Option Holder
  | .type _ => none
  | .contribution h _ => some h

theorem eq_type_of_holder? {o : Output} (h : o.holder? = none) : ∃ t, o = .type t := by
  cases o with
  | type t => exact ⟨t, rfl⟩
  | contribution h' c => cases h

theorem eq_contribution_of_holder? {o : Output} {h : Holder} (hholder : o.holder? = some h) :
    ∃ c, o = .contribution h c := by
  cases o with
  | type t => cases hholder
  | contribution h' c =>
    obtain rfl := Option.some.inj hholder
    exact ⟨c, rfl⟩

end Output

namespace StandardKind

/-- Where the contribution of a declaration goes; none when it puts a type of its own. -/
def holder? (k : StandardKind) (d : Declaration) : Option Holder :=
  match k with
  | .component | .preferenceHelper | .restClient => none
  | .optionsMenu => some (.component d.qualifiedName)
  | .request _ => some (.restClient d.element.owner)
  | .boundView | .htmlText | .preferenceField | .optionsItem | .resourceField _ | .listener _
  | .thread _ | .extra | .systemService | .lifecycle _ | .transaction | .applicationField =>
    some (.component d.element.owner)

/-- What a declaration of the kind leaves, once its resources are resolved. -/
def output (k : StandardKind) (project : Project) (d : Declaration) (refs : List ResourceRef) :
    Output :=
  let name := project.generatedName d.qualifiedName
  let type := d.element.type.getD ""
  let onOwner := Output.contribution (.component d.element.owner)
  match k with
  | .component => .type (Component.subclass name d.qualifiedName refs)
  | .preferenceHelper => .type (PreferenceHelper.helper name d.qualifiedName
      ((PreferenceHelper.accessors d.element.methods).toOption.getD []))
  | .restClient =>
    .type (RestClient.client name d.qualifiedName ((d.argStr? "root_url").getD ""))
  | .boundView =>
    onOwner (.block .bindViews fun _ => (· ++ refs.map (BoundView.bind d (.parse type))))
  | .htmlText => onOwner (.block .bindViews fun _ => (· ++ refs.map (HtmlText.setText d)))
  | .preferenceField =>
    onOwner (.block .inject fun _ => (· ++ [d.assignField (.new (.parse type) [.this])]))
  | .optionsMenu =>
    .contribution (.component d.qualifiedName) (.method [] fun _ => OptionsMenu.inflateMethod refs)
  | .optionsItem => onOwner (.dispatch d.element refs)
  | .resourceField k =>
    onOwner (.block .inject fun _ => (· ++ refs.map fun ref => d.assignField (k.value d ref)))
  | .listener k => onOwner (.block .bindListeners fun t =>
      k.registerAll (k.callbacks d.element t.name) refs)
  | .thread k => onOwner (.method k.fields (k.override d))
  | .extra => onOwner (.extra (Extra.readExtra d (d.argOrName "key") (.parse type)))
  | .systemService => onOwner (.block .inject fun _ => (· ++ [d.assignField (SystemService.value
      ((project.services.qualified? type).getD type)
      ((project.services.constantFor? type).getD ""))]))
  | .lifecycle hook =>
    onOwner (.block hook.block fun _ => (· ++ [.run (.callHere d.element.name [])]))
  | .transaction => onOwner (.method [] fun _ =>
      Transaction.override d.element (.ident ((d.element.params.head?.map Param.name).getD "")))
  | .applicationField => onOwner (.block .inject fun _ => (· ++
      [d.assignField (.cast (.named (project.application.getD "")) (.callHere "getApplication" []))]))
  | .request http => .contribution (.restClient d.element.owner) (.method [] fun _ =>
      http.requestMethod d.element ((d.argStr? "url").getD ""))

theorem holder?_output (k : StandardKind) (project : Project) (d : Declaration)
    (refs : List ResourceRef) : (k.output project d refs).holder? = k.holder? d := by
  cases k <;> rfl

/-- Register the holder of a type of the kind, where it has one. -/
def hold (k : StandardKind) (a : Assembly) (origin generated : String) : Assembly :=
  match k with
  | .component => a.registerComponent origin generated
  | .restClient => a.registerRestClient origin generated
  | _ => a

variable {c : ValidationContext} {k : StandardKind} {d : Declaration} {refs : List ResourceRef}

section Fits

theorem exists_type_of_fits (hfits : k.Fits c d)
    (hfield : k = .boundView ∨ k = .preferenceField ∨ k = .extra) :
    ∃ type, d.element.type = some type := by
  have hown := hfits.met.own
  rcases hfield with rfl | rfl | rfl
  · obtain ⟨type, htype, -⟩ := hown.2.2.1
    exact ⟨type, htype⟩
  · obtain ⟨origin, horigin⟩ := Option.isSome_iff_exists.1 hown.2
    obtain ⟨type, htype, -⟩ := Option.bind_eq_some_iff.1 horigin
    exact ⟨type, htype⟩
  · obtain ⟨type, htype, -⟩ := hown.2.1
    exact ⟨type, htype⟩

theorem exists_constant_of_fits (hfits : systemService.Fits c d) :
    ∃ constant, c.project.services.constantFor? (d.element.type.getD "") = some constant := by
  obtain ⟨type, htype, hknown⟩ := hfits.met.own.2
  rw [htype]
  exact Option.isSome_iff_exists.1 hknown

theorem exists_database_of_fits (hfits : transaction.Fits c d) :
    ∃ db, d.element.params.head? = some db := by
  obtain ⟨type, htype, -⟩ := hfits.met.own.2.2.2
  have hhead : (d.element.params.map Param.type).head? = some type := htype
  rw [List.head?_map] at hhead
  obtain ⟨db, hdb, -⟩ := Option.map_eq_some_iff.1 hhead
  exact ⟨db, hdb⟩

end Fits

/-- The rule of a declaration that fits makes the contribution. -/
theorem changes_emit (hfits : k.Fits c d) {h : Holder} {contribution : Contribution}
    (houtput : k.output c.project d refs = .contribution h contribution) :
    Changes (k.rule.emit c.project d refs) h contribution.apply := by
  cases k with
  | component | preferenceHelper | restClient => cases houtput
  | boundView =>
    obtain ⟨type, htype⟩ := exists_type_of_fits hfits (by simp)
    cases houtput
    rw [htype]
    exact BoundView.changes_emit c.project refs htype
  | htmlText =>
    cases houtput
    exact HtmlText.changes_emit c.project refs
  | preferenceField =>
    obtain ⟨type, htype⟩ := exists_type_of_fits hfits (by simp)
    cases houtput
    rw [htype]
    exact PreferenceField.changes_emit c.project refs htype
  | optionsMenu =>
    cases houtput
    exact OptionsMenu.changes_emit c.project refs
  | optionsItem =>
    cases houtput
    exact OptionsItem.changes_emit c.project refs
  | resourceField k | listener k | thread k | lifecycle k | request k =>
    cases houtput
    exact k.changes_emit c.project refs
  | extra =>
    obtain ⟨type, htype⟩ := exists_type_of_fits hfits (by simp)
    cases houtput
    rw [htype]
    exact Extra.changes_emit c.project refs htype
  | systemService =>
    obtain ⟨constant, hconstant⟩ := exists_constant_of_fits hfits
    cases houtput
    rw [hconstant]
    exact SystemService.changes_emit c.project refs hconstant
  | transaction =>
    obtain ⟨db, hdb⟩ := exists_database_of_fits hfits
    cases houtput
    rw [hdb]
    exact Transaction.changes_emit c.project refs hdb
  | applicationField =>
    obtain ⟨application, happlication, -⟩ := hfits.met.own.2
    cases houtput
    rw [happlication]
    exact ApplicationField.changes_emit c.project refs happlication

theorem emit_eq_of_type (hfits : k.Fits c d) {t : GeneratedType}
    (houtput : k.output c.project d refs = .type t) (a : Assembly) :
    k.rule.emit c.project d refs a =
      (.ok (), k.hold { a with model := a.model.insert t } d.qualifiedName t.name) := by
  cases k with
  | component =>
    cases houtput
    rfl
  | preferenceHelper =>
    obtain ⟨methods, hmethods, -⟩ := PreferenceHelper.exists_accessors hfits.met.own.2
    cases houtput
    show PreferenceHelper.emit c.project d refs a = _
    unfold PreferenceHelper.emit
    simp only [hmethods]
    rfl
  | restClient =>
    cases houtput
    rfl
  | _ => cases houtput

def leaves (s : Setting) (x : StandardKind × Declaration) : Output :=
  x.1.output s.project x.2 ((s.resources (x.1.rule.resources x.2)).toOption.getD [])

theorem holder?_leaves (s : Setting) (x : StandardKind × Declaration) :
    (leaves s x).holder? = x.1.holder? x.2 :=
  holder?_output _ _ _ _

theorem exists_process_eq (hfits : k.Fits c d) : ∃ refs,
    c.setting.resources (k.rule.resources d) = .ok refs ∧
    leaves c.setting (k, d) = k.output c.project d refs ∧
    k.rule.processor.process c.setting d = k.rule.emit c.project d refs := by
  obtain ⟨refs, hrefs⟩ : ∃ refs, c.setting.resources (k.rule.resources d) = .ok refs :=
    Setting.exists_resources hfits.met.resources
  refine ⟨refs, hrefs, ?_, ?_⟩
  · unfold leaves
    rw [hrefs]
    rfl
  · unfold Rule.processor
    simp only [hrefs]
    rfl

theorem changes_step (hfits : k.Fits c d) {h : Holder} {contribution : Contribution}
    (hleaves : leaves c.setting (k, d) = .contribution h contribution) :
    Changes (step c.setting (k, d)) h fun t =>
      (contribution.apply t).mapError (.during (.processing d)) := by
  obtain ⟨refs, -, houtput, hprocess⟩ := exists_process_eq hfits
  unfold step
  rw [hprocess]
  exact (changes_emit hfits (houtput.symm.trans hleaves)).during _

theorem step_eq_of_type (hfits : k.Fits c d) {t : GeneratedType}
    (hleaves : leaves c.setting (k, d) = .type t) (a : Assembly) : step c.setting (k, d) a =
      (.ok (), k.hold { a with model := a.model.insert t } d.qualifiedName t.name) := by
  obtain ⟨refs, -, houtput, hprocess⟩ := exists_process_eq hfits
  have hemit := emit_eq_of_type hfits (houtput.symm.trans hleaves) a
  have hstep : step c.setting (k, d) a =
      Assemble.during (.processing d) (k.rule.emit c.project d refs) a := by
    unfold step
    rw [hprocess]
  rw [hstep, Assemble.during, hemit]

end StandardKind

end Output

open Assemble (Changes)

namespace StandardKind

/-- The kind fills a block of the creation method. -/
def needsBlocks : StandardKind → Bool
  | .boundView | .htmlText | .preferenceField | .resourceField _ | .listener _ | .extra
  | .systemService | .lifecycle _ | .applicationField => true
  | .component | .preferenceHelper | .restClient | .optionsMenu | .optionsItem | .thread _
  | .transaction | .request _ => false

def Hides (k : StandardKind) (d : Declaration) : Prop :=
  (∃ l, k = .thread l) ∧ d.element.name = Extra.injectExtras

/-- What a contribution of the kind is like. -/
structure Gives (k : StandardKind) (d : Declaration) (c : Contribution) : Prop where
  blocks : c.needsBlocks = k.needsBlocks
  extra : (∃ s, c = .extra s) ↔ k = .extra
  plain : ∀ fields m t, c = .method fields m → (m t).Plain
  /-- Before the last stage a method of the name of the reading method comes only from a thread. -/
  named : ∀ fields m t, c = .method fields m → (m t).name = Extra.injectExtras →
    k.Hides d ∨ k.stage = .others
  hides : k.Hides d → ∃ fields m, c = .method fields m ∧ ∀ t, (m t).name = Extra.injectExtras

theorem gives_block {k : StandardKind} {d : Declaration} (hblocks : k.needsBlocks = true)
    (hextra : k ≠ .extra) (hthread : ¬ ∃ l, k = .thread l) (b : CreationBlock)
    (f : GeneratedType → List Statement → List Statement) : k.Gives d (.block b f) where
  blocks := hblocks.symm
  extra := ⟨fun ⟨_, hs⟩ => (nomatch hs), fun h => absurd h hextra⟩
  plain := nofun
  named := nofun
  hides := fun h => absurd h.1 hthread

theorem gives_method {k : StandardKind} {d : Declaration} (hblocks : k.needsBlocks = false)
    (hextra : k ≠ .extra) (hthread : ¬ ∃ l, k = .thread l) {m : Method} (hplain : m.Plain)
    (hnamed : m.name = Extra.injectExtras → k.stage = .others) : k.Gives d (.method [] fun _ => m) where
  blocks := hblocks.symm
  extra := ⟨fun ⟨_, hs⟩ => (nomatch hs), fun h => absurd h hextra⟩
  plain := by
    rintro fields' m' t heq
    cases heq
    exact hplain
  named := by
    rintro fields' m' t heq hname
    cases heq
    exact Or.inr (hnamed hname)
  hides := fun h => absurd h.1 hthread

variable {c : ValidationContext} {k : StandardKind} {d : Declaration}

theorem plain_inflateMethod (menus : List ResourceRef) : (OptionsMenu.inflateMethod menus).Plain := by
  refine ⟨?_, fun h => absurd h (by decide : OptionsMenu.onCreateOptionsMenu ≠ Extra.injectExtras)⟩
  intro s hs
  rcases List.mem_append.1 hs with hs | hs
  · obtain ⟨menu, -, rfl⟩ := List.mem_map.1 hs
    rfl
  · exact List.mem_singleton.1 hs ▸ rfl

theorem plain_override (k : ThreadKind) (d : Declaration) (t : GeneratedType) :
    (k.override d t).Plain := by
  refine ⟨?_, fun _ => ⟨[], _, rfl, nofun⟩⟩
  intro s hs
  exact List.mem_singleton.1 hs ▸ rfl

theorem gives_override (k : ThreadKind) (d : Declaration) :
    StandardKind.Gives (.thread k) d (.method k.fields (k.override d)) where
  blocks := rfl
  extra := ⟨fun ⟨_, hs⟩ => (nomatch hs), nofun⟩
  plain := by
    rintro fields' m' t heq
    cases heq
    exact plain_override k d t
  named := by
    rintro fields' m' t heq hname
    cases heq
    exact Or.inl ⟨⟨k, rfl⟩, hname⟩
  hides := fun h => ⟨k.fields, k.override d, rfl, fun _ => h.2⟩

theorem plain_transaction (element : Element) (db : Expr) :
    (Transaction.override element db).Plain := by
  refine ⟨?_, fun _ => ⟨[_], _, rfl, nofun⟩⟩
  simp [Transaction.override, Statement.isLabelled]

theorem plain_requestMethod (http : HttpMethod) (element : Element) (url : String) :
    (http.requestMethod element url).Plain := by
  have hbind : ∀ names, ∀ s ∈ HttpMethod.bindVariables names, s.isLabelled = false := by
    intro names s hs
    cases names with
    | nil => exact absurd hs List.not_mem_nil
    | cons name names =>
      rcases List.mem_cons.1 hs with rfl | hs
      · rfl
      · obtain ⟨name', -, rfl⟩ := List.mem_map.1 hs
        rfl
  constructor
  · intro s hs
    rcases List.mem_append.1 hs with hs | hs
    · exact hbind _ s hs
    · obtain rfl := List.mem_singleton.1 hs
      split <;> rfl
  · intro _
    refine ⟨_, _, rfl, ?_⟩
    split <;> exact nofun

/-- What a contribution is like is read off its kind. -/
theorem gives_output {project : Project} {refs : List ResourceRef} {h : Holder}
    {contribution : Contribution} (houtput : k.output project d refs = .contribution h contribution) :
    k.Gives d contribution := by
  cases k with
  | component => cases houtput
  | preferenceHelper => cases houtput
  | restClient => cases houtput
  | boundView | htmlText | preferenceField | resourceField _ | listener _ | systemService
  | lifecycle _ | applicationField =>
    cases houtput
    exact gives_block rfl (by nofun) (by nofun) _ _
  | optionsMenu =>
    cases houtput
    refine gives_method rfl (by nofun) (by nofun) (plain_inflateMethod refs) fun hname => ?_
    exact absurd hname (by decide : OptionsMenu.onCreateOptionsMenu ≠ Extra.injectExtras)
  | optionsItem =>
    cases houtput
    exact ⟨rfl, ⟨fun ⟨_, hs⟩ => (nomatch hs), nofun⟩, nofun, nofun, fun h => absurd h.1 (by nofun)⟩
  | thread k =>
    cases houtput
    exact gives_override k d
  | extra =>
    cases houtput
    exact ⟨rfl, ⟨fun _ => rfl, fun _ => ⟨_, rfl⟩⟩, nofun, nofun, fun h => absurd h.1 (by nofun)⟩
  | transaction =>
    cases houtput
    exact gives_method rfl (by nofun) (by nofun) (plain_transaction d.element _) fun _ => rfl
  | request http =>
    cases houtput
    exact gives_method rfl (by nofun) (by nofun) (plain_requestMethod http d.element _) fun _ => rfl

theorem exists_contribution (hfits : k.Fits c d) {h : Holder} (hholder : k.holder? d = some h) :
    ∃ contribution, leaves c.setting (k, d) = .contribution h contribution ∧
      k.Gives d contribution ∧ Changes (step c.setting (k, d)) h fun t =>
        (contribution.apply t).mapError (.during (.processing d)) := by
  obtain ⟨contribution, hleaves⟩ := Output.eq_contribution_of_holder?
    ((holder?_leaves c.setting (k, d)).trans hholder)
  exact ⟨contribution, hleaves, gives_output hleaves, changes_step hfits hleaves⟩

/-- The type that a declaration of the kind puts into the model. -/
structure Puts (k : StandardKind) (t : GeneratedType) : Prop where
  component : k = .component → t.HasBlocks ∧ t.method? Extra.injectExtras = none
  foreign : k ≠ .component → t.Foreign

theorem puts_output (hfits : k.Fits c d) {refs : List ResourceRef} {t : GeneratedType}
    (houtput : k.output c.project d refs = .type t) :
    k.Puts t ∧ t.name = c.project.generatedName d.qualifiedName := by
  cases k with
  | component =>
    cases houtput
    exact ⟨⟨fun _ => ⟨Component.hasBlocks_subclass _ _ _, rfl⟩, fun h => absurd rfl h⟩, rfl⟩
  | preferenceHelper =>
    obtain ⟨methods, hmethods, hplain⟩ := PreferenceHelper.exists_accessors hfits.met.own.2
    cases houtput
    rw [hmethods]
    exact ⟨⟨nofun, fun _ => hplain⟩, rfl⟩
  | restClient =>
    cases houtput
    exact ⟨⟨nofun, fun _ _ hm => absurd hm List.not_mem_nil⟩, rfl⟩
  | _ => cases houtput

theorem exists_type (hfits : k.Fits c d) (hholder : k.holder? d = none) : ∃ t,
    leaves c.setting (k, d) = .type t ∧ k.Puts t ∧
    t.name = c.project.generatedName d.qualifiedName ∧ ∀ a, step c.setting (k, d) a =
      (.ok (), k.hold { a with model := a.model.insert t } d.qualifiedName t.name) := by
  obtain ⟨t, hleaves⟩ := Output.eq_type_of_holder? ((holder?_leaves c.setting (k, d)).trans hholder)
  obtain ⟨hputs, hname⟩ := puts_output hfits hleaves
  exact ⟨t, hleaves, hputs, hname, step_eq_of_type hfits hleaves⟩

end StandardKind

end ComponentGlue
