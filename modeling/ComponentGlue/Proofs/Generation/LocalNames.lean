import ComponentGlue.Proofs.Generation.Clashes
import ComponentGlue.Proofs.Generation.MethodScope

/-!
The names of locals in generated types. No method declares a local twice, but nothing keeps the locals of
requests and transactions apart from the parameters that their host methods have.
-/

set_option autoImplicit false
set_option relaxedAutoImplicit false

namespace ComponentGlue

open StandardKind (leaves)

variable {Q : List String → List String → Prop}

/-- The locals of the method that a declaration of the kind adds. -/
def StandardKind.locals (k : StandardKind) (d : Declaration) : List String :=
  match k with
  | .transaction => Transaction.locals d.element
  | .request _ => HttpMethod.locals (urlPlaceholders ((d.argStr? "url").getD ""))
  | .component | .preferenceHelper | .restClient | .boundView | .htmlText | .preferenceField
  | .optionsMenu | .optionsItem | .resourceField _ | .listener _ | .thread _ | .extra
  | .systemService | .lifecycle _ | .applicationField => []

def StandardKind.InScope (Q : List String → List String → Prop) (x : StandardKind × Declaration) :
    Prop :=
  Q (x.1.locals x.2) (x.2.element.params.map Param.name)

theorem StandardKind.inScope_of_needsBlocks (hnil : ∀ params, Q [] params)
    {x : StandardKind × Declaration} (h : x.1.needsBlocks = true) : InScope Q x := by
  obtain ⟨k, d⟩ := x
  cases k with
  | transaction | request _ => cases h
  | _ => exact hnil _

namespace Contribution

variable {s : Setting} {x : StandardKind × Declaration} {h : Holder} {contribution : Contribution}
  {t t' : GeneratedType} {front others : List Method}

theorem allScopes_of_leaves (hnil : ∀ params, Q [] params) {fields : List Field}
    {m : GeneratedType → Method} (hleaves : leaves s x = .contribution h (.method fields m))
    (t : GeneratedType) : (m t).AllScopes Q ↔ StandardKind.InScope Q x := by
  obtain ⟨k, d⟩ := x
  cases k with
  | optionsMenu =>
    cases hleaves
    exact iff_of_true (OptionsMenu.allScopes_inflateMethod hnil _) (hnil _)
  | thread k =>
    cases hleaves
    exact iff_of_true (k.allScopes_override hnil d t) (hnil _)
  | transaction =>
    cases hleaves
    exact Transaction.allScopes_override d.element _
  | request http =>
    cases hleaves
    exact http.allScopes_requestMethod d.element _
  | _ => cases hleaves

theorem simple_of_leaves {st : Statement} (hleaves : leaves s x = .contribution h (.extra st)) :
    st.Simple := by
  obtain ⟨k, d⟩ := x
  cases k with
  | extra =>
    cases hleaves
    exact ⟨rfl, rfl⟩
  | _ => cases hleaves

/-- A contribution that needs no block leaves the methods in front as they are, and what it adds to the
others is in scope. -/
theorem scopes_of_not_needsBlocks (hnil : ∀ params, Q [] params) (hmethods : t.methods = front ++ others)
    (hfront : ∀ m ∈ front, m.name ≠ OptionsItem.onOptionsItemSelected)
    (hneeds : contribution.needsBlocks = false) (hleaves : leaves s x = .contribution h contribution)
    (happly : contribution.apply t = .ok t') : ∃ others', t'.methods = front ++ others' ∧
      ((∀ m ∈ others', m.AllScopes Q) ↔
        (∀ m ∈ others, m.AllScopes Q) ∧ StandardKind.InScope Q x) := by
  cases contribution with
  | block b f => cases hneeds
  | extra st => cases hneeds
  | method fields m =>
    obtain rfl := Except.ok.inj happly
    refine ⟨others ++ [m t], ?_, ?_⟩
    · rw [← List.append_assoc, ← hmethods, ← (name_addFields t fields).2]
      rfl
    · rw [List.forall_mem_append, List.forall_mem_singleton, allScopes_of_leaves hnil hleaves t]
  | dispatch element refs =>
    obtain rfl := Except.ok.inj happly
    have hscope : StandardKind.InScope Q x := by
      obtain ⟨k, d⟩ := x
      cases k with
      | optionsItem => exact hnil _
      | _ => cases hleaves
    -- The dispatcher may have to be added first; it has no locals, so nothing depends on it.
    have hensured : ∃ others', (t.ensureMethod OptionsItem.onOptionsItemSelected
        OptionsItem.dispatchMethod).methods = front ++ others' ∧
          ((∀ m ∈ others', m.AllScopes Q) ↔ ∀ m ∈ others, m.AllScopes Q) := by
      unfold GeneratedType.ensureMethod
      split
      · exact ⟨others, hmethods, Iff.rfl⟩
      · refine ⟨others ++ [OptionsItem.dispatchMethod], ?_, ?_⟩
        · rw [GeneratedType.addMethod, hmethods, List.append_assoc]
        · have hdispatch : OptionsItem.dispatchMethod.AllScopes Q :=
            Method.allScopes_of_simple hnil (List.forall_mem_singleton.2 ⟨rfl, rfl⟩)
          rw [List.forall_mem_append, List.forall_mem_singleton]
          exact and_iff_left hdispatch
    obtain ⟨others', hothers', hiff⟩ := hensured
    refine ⟨_, (congrArg _ hothers').trans (GeneratedType.updateMethod_append hfront others'), ?_⟩
    rw [GeneratedType.forall_updateMethod_iff fun m _ =>
      (OptionsItem.sameScopes_addBranches element refs m.body).allScopes_iff, hiff]
    exact (and_iff_left hscope).symm

theorem scopes_of_addToReading {head : Method} {st : Statement} (hst : st.Simple)
    (hmethods : t.methods = head :: others) (hhead : head.name ≠ Extra.injectExtras)
    (happly : addToReading st t = .ok t') : ∃ others', t'.methods = head :: others' ∧
      ((∀ m ∈ others', m.AllScopes Q) ↔ ∀ m ∈ others, m.AllScopes Q) := by
  obtain ⟨m, body, hm, hadded, rfl⟩ := addToReading_eq_ok_iff.1 happly
  refine ⟨_, methods_mapMethod _ hmethods hhead, ?_⟩
  refine GeneratedType.forall_updateMethod_iff fun m' hm' => ?_
  obtain rfl : m = m' := by
    rw [GeneratedType.method?, hmethods, List.find?_cons_of_neg (by simpa using hhead)] at hm
    exact Option.some.inj (hm.symm.trans hm')
  exact (Extra.sameScopes_addToGuard? hst hadded).allScopes_iff

end Contribution

def ScopesAgree (Q : List String → List String → Prop) (xs : List (StandardKind × Declaration))
    (ms : List Method) : Prop :=
  (∀ m ∈ ms, m.AllScopes Q) ↔ ∀ x ∈ xs, StandardKind.InScope Q x

theorem ScopesAgree.snoc {xs : List (StandardKind × Declaration)} {x : StandardKind × Declaration}
    {ms ms' : List Method} (h : ScopesAgree Q xs ms)
    (hnew : (∀ m ∈ ms', m.AllScopes Q) ↔ (∀ m ∈ ms, m.AllScopes Q) ∧ StandardKind.InScope Q x) :
    ScopesAgree Q (xs ++ [x]) ms' := by
  rw [ScopesAgree, List.forall_mem_append, List.forall_mem_singleton, hnew]
  exact and_congr_left fun _ => h

namespace Created

variable {s : Setting} {generated : String} {layouts : List ResourceRef}
  {xs : List (StandardKind × Declaration)} {x : StandardKind × Declaration} {t t' : GeneratedType}
  {h : Holder} {contribution : Contribution}

/-- What one more declaration does to the methods behind `onCreate`. -/
theorem scopesAgree_snoc (hnil : ∀ params, Q [] params) (hextras : Q [Extra.extras] [])
    (hcreated : Created s generated layouts xs t) (hagree : ScopesAgree Q xs t.methods.tail)
    (hleaves : leaves s x = .contribution h contribution) (happly : contribution.apply t = .ok t') :
    ScopesAgree Q (xs ++ [x]) t'.methods.tail := by
  obtain ⟨others, hmethods⟩ := hcreated.creation
  rw [hmethods, List.tail_cons] at hagree
  have hgives := StandardKind.gives_output hleaves
  -- Only a contribution to a block of `onCreate` touches the method at the head.
  cases hneeds : contribution.needsBlocks with
  | false =>
    have hsplit : t.methods =
        [Component.filledMethod layouts (Creation.content s generated xs)] ++ others := hmethods
    obtain ⟨others', hothers', hiff⟩ := Contribution.scopes_of_not_needsBlocks hnil hsplit
      (List.forall_mem_singleton.2 (by decide : onCreate ≠ OptionsItem.onOptionsItemSelected))
      hneeds hleaves happly
    rw [hothers']
    exact hagree.snoc hiff
  | true =>
    have hscope : StandardKind.InScope Q x :=
      StandardKind.inScope_of_needsBlocks hnil (hgives.blocks.symm.trans hneeds)
    cases contribution with
    | method fields m => cases hneeds
    | dispatch element refs => cases hneeds
    | block b f =>
      rw [Contribution.methods_of_changeBlock hmethods happly]
      exact hagree.snoc (and_iff_left hscope).symm
    | extra st =>
      have hst : st.Simple := Contribution.simple_of_leaves hleaves
      rcases Contribution.extra_cases happly with ⟨-, t₁, hadded, happly⟩ | ⟨-, happly⟩
      · have hmethods₁ := Contribution.methods_of_changeBlock
          (GeneratedType.methods_addMethod_of_eq_cons hmethods Extra.injectMethod) hadded
        obtain ⟨others', hothers', hiff⟩ := Contribution.scopes_of_addToReading hst hmethods₁
          Contribution.onCreate_ne_injectExtras happly
        have hinject : Extra.injectMethod.AllScopes Q :=
          (Method.allScopes_iff_of_inner_eq_nil rfl).2 hextras
        rw [hothers']
        refine hagree.snoc (hiff.trans ?_)
        rw [List.forall_mem_append, List.forall_mem_singleton]
        exact and_congr_right fun _ => iff_of_true hinject hscope
      · obtain ⟨others', hothers', hiff⟩ := Contribution.scopes_of_addToReading hst hmethods
          Contribution.onCreate_ne_injectExtras happly
        rw [hothers']
        exact hagree.snoc (hiff.trans (and_iff_left hscope).symm)

end Created

theorem allScopes_of_type (hnil : ∀ params, Q [] params) {c : ValidationContext}
    {x : StandardKind × Declaration} {t : GeneratedType} (haccepts : c.Accepts x.1 x.2)
    (hleaves : leaves c.setting x = .type t) (hkind : x.1 ≠ .component) :
    ∀ m ∈ t.methods, m.AllScopes Q := by
  have hbuilt := builtFor_of_leaves haccepts hleaves
  obtain ⟨k, d⟩ := x
  cases k with
  | component => exact absurd rfl hkind
  | preferenceHelper =>
    intro m hm
    obtain ⟨i, hi, rfl⟩ := List.getElem_of_mem hm
    have haccessors := (hbuilt.helper rfl).2
    exact PreferenceHelper.allScopes_accessor hnil (haccessors.get (haccessors.length_eq ▸ hi) hi)
  | restClient =>
    obtain rfl := Output.type.inj hleaves
    exact fun _ hm => absurd hm List.not_mem_nil
  | _ => cases hleaves

theorem GeneratedType.Foreign.scopesAgree_snoc (hnil : ∀ params, Q [] params) {s : Setting}
    {xs : List (StandardKind × Declaration)} {x : StandardKind × Declaration} {t t' : GeneratedType}
    {h : Holder} {contribution : Contribution} (hforeign : t.Foreign)
    (hagree : ScopesAgree Q xs t.methods) (hleaves : leaves s x = .contribution h contribution)
    (happly : contribution.apply t = .ok t') :
    t'.Foreign ∧ ScopesAgree Q (xs ++ [x]) t'.methods := by
  have hgives := StandardKind.gives_output hleaves
  refine ⟨Contribution.foreign_of_apply happly hforeign fun fields m => hgives.plain fields m t, ?_⟩
  cases hneeds : contribution.needsBlocks with
  | true =>
    obtain ⟨f, hf⟩ := Contribution.exists_error_of_foreign hforeign hneeds
    rw [hf] at happly
    cases happly
  | false =>
    obtain ⟨others', hothers', hiff⟩ := Contribution.scopes_of_not_needsBlocks hnil
      (List.nil_append t.methods).symm (fun _ hm => absurd hm List.not_mem_nil) hneeds hleaves happly
    rw [hothers', List.nil_append]
    exact hagree.snoc hiff

namespace StandardRun

variable (run : StandardRun) {origin : String}

/-- What is asked of scopes holds throughout the type of an origin exactly when it holds of what the members
add. It has to hold without locals, where extras are read, and in `onCreate`. -/
theorem exists_scopesAgree (hnil : ∀ params, Q [] params) (hextras : Q [Extra.extras] [])
    (hviews : ∀ n, Q ((List.range' 0 n).map Creation.localName) ["savedInstanceState"])
    {x₀ : StandardKind × Declaration} (hlast : lastPut run.accepted.typeSteps origin = some x₀) :
    ∃ t, run.model.get? (run.project.generatedName origin) = some t ∧
      ScopesAgree Q (run.accepted.members origin) t.methods := by
  have hnone : ∀ {ms : List Method}, (∀ m ∈ ms, m.AllScopes Q) → ScopesAgree Q [] ms := fun hms =>
    iff_of_true hms fun _ hx => absurd hx List.not_mem_nil
  obtain ⟨k, d⟩ := x₀
  obtain ⟨hmem, rfl⟩ := mem_of_lastPut hlast
  by_cases hkind : k = .component
  · obtain rfl := hkind
    -- All of `onCreate` is known from its blocks, so the induction is about the methods behind it.
    obtain ⟨t, hfound, ⟨layouts, hcreated⟩, hagree⟩ := run.members_induct
      (P := fun xs t => (∃ layouts, Created run.context.setting
        (run.project.generatedName d.qualifiedName) layouts xs t) ∧ ScopesAgree Q xs t.methods.tail)
      hlast
      (fun t hleaves _ => by
        obtain rfl := Output.type.inj hleaves
        exact ⟨⟨_, Created.subclass⟩, hnone fun _ hm => absurd hm List.not_mem_nil⟩)
      (fun _ hP _ hleaves _ happly => by
        obtain ⟨⟨layouts, hcreated⟩, hagree⟩ := hP
        exact ⟨⟨layouts, hcreated.snoc hleaves happly⟩,
          hcreated.scopesAgree_snoc hnil hextras hagree hleaves happly⟩)
    refine ⟨t, hfound, ?_⟩
    obtain ⟨others, hmethods⟩ := hcreated.creation
    rw [hmethods, List.tail_cons] at hagree
    rw [hmethods, ScopesAgree, List.forall_mem_cons]
    exact (and_iff_right (Component.allScopes_filledMethod hnil hviews)).trans hagree
  · -- No other type has blocks to fill, and so no extras are read in it.
    have haccepts := run.accepts hmem
    obtain ⟨t, hfound, -, hagree⟩ := run.members_induct
      (P := fun xs t => t.Foreign ∧ ScopesAgree Q xs t.methods) hlast
      (fun t hleaves _ => ⟨(StandardKind.puts_output haccepts.fits hleaves).1.foreign hkind,
        hnone (allScopes_of_type hnil haccepts hleaves hkind)⟩)
      (fun _ hP _ hleaves _ happly => hP.1.scopesAgree_snoc hnil hP.2 hleaves happly)
    exact ⟨t, hfound, hagree⟩

theorem scopesAgree_of_mem (hnil : ∀ params, Q [] params) (hextras : Q [Extra.extras] [])
    (hviews : ∀ n, Q ((List.range' 0 n).map Creation.localName) ["savedInstanceState"])
    {t : GeneratedType} (ht : t ∈ run.model.typeList) :
    ScopesAgree Q (run.accepted.members t.origin) t.methods := by
  obtain ⟨hfound, x, hlast⟩ := run.exists_lastPut_of_mem ht
  obtain ⟨u, hu, hagree⟩ := run.exists_scopesAgree hnil hextras hviews hlast
  obtain rfl : t = u := Option.some.inj (hfound.symm.trans hu)
  exact hagree

end StandardRun

theorem StandardKind.length_locals (k : StandardKind) (d : Declaration) :
    (k.locals d).length ≤ 1 := by
  have hone : ∀ (none : Bool) (name : String), (if none then [] else [name]).length ≤ 1 := by
    intro none name
    cases none with
    | false => exact Nat.le_refl 1
    | true => exact Nat.zero_le 1
  cases k with
  | transaction => exact hone _ Transaction.result
  | request http => exact hone _ HttpMethod.urlVariables
  | _ => exact Nat.zero_le 1

theorem Creation.localName_ne (i : Nat) : localName i ≠ "savedInstanceState" := by
  intro h
  have hfront : localName i = "view" ++ Nat.repr (2 * i) := rfl
  have hfirst : ("view" ++ Nat.repr (2 * i)).toList.head? = some 's' := by
    rw [← hfront, h]
    decide
  rw [String.toList_append, show "view".toList = ['v', 'i', 'e', 'w'] by decide] at hfirst
  cases hfirst

theorem Transaction.mem_locals_iff {element : Element} {name : String} :
    name ∈ Transaction.locals element ↔
      element.returnType.isVoid = false ∧ name = Transaction.result := by
  unfold Transaction.locals
  cases element.returnType.isVoid <;> simp

theorem StandardKind.mem_locals_request_iff {http : HttpMethod} {d : Declaration} {name : String} :
    name ∈ (StandardKind.request http).locals d ↔ ∃ url, d.argStr? "url" = some url ∧
      urlPlaceholders url ≠ [] ∧ name = HttpMethod.urlVariables := by
  cases hurl : d.argStr? "url" with
  | none =>
    rw [StandardKind.locals, hurl]
    exact iff_of_false List.not_mem_nil (by simp)
  | some url => cases hnames : urlPlaceholders url <;> simp [locals, HttpMethod.locals, hurl, hnames]

namespace DeclarationModel

/-- No method of the origin has a parameter of the name of a local that is generated for it. -/
structure SparesLocals (m : DeclarationModel) (origin : String) : Prop where
  requests : ∀ http : HttpMethod, ∀ d ∈ m.declarations http.marker, d.element.owner = origin →
    ∀ url, d.argStr? "url" = some url → urlPlaceholders url ≠ [] →
      ∀ p ∈ d.element.params, p.name ≠ HttpMethod.urlVariables
  transactions : ∀ d ∈ m.declarations .transactional, d.element.owner = origin →
    d.element.returnType.isVoid = false → ∀ p ∈ d.element.params, p.name ≠ Transaction.result

/-- The locals of what the members add are no parameters of theirs. -/
theorem forall_members_iff_sparesLocals (m : DeclarationModel) (origin : String) :
    (∀ x ∈ m.members origin, ∀ name ∈ x.1.locals x.2, name ∉ x.2.element.params.map Param.name) ↔
      m.SparesLocals origin := by
  constructor
  · intro hmembers
    constructor
    · rintro http d hd howner url hurl hnames p hp hname
      refine hmembers (.request http, d) (mem_members_iff.2 ⟨hd, _, rfl, howner⟩)
        HttpMethod.urlVariables ?_ (List.mem_map.2 ⟨p, hp, hname⟩)
      exact StandardKind.mem_locals_request_iff.2 ⟨url, hurl, hnames, rfl⟩
    · rintro d hd howner hvoid p hp hname
      refine hmembers (.transaction, d) (mem_members_iff.2 ⟨hd, _, rfl, howner⟩)
        Transaction.result ?_ (List.mem_map.2 ⟨p, hp, hname⟩)
      exact Transaction.mem_locals_iff.2 ⟨hvoid, rfl⟩
  · rintro hspares ⟨k, d⟩ hx name hname hparam
    obtain ⟨hd, h, hholder, horigin⟩ := mem_members_iff.1 hx
    obtain ⟨p, hp, hpname⟩ := List.mem_map.1 hparam
    -- No other kind has locals of its own.
    cases k with
    | request http =>
      cases hholder
      obtain ⟨url, hurl, hnames, hvariable⟩ := StandardKind.mem_locals_request_iff.1 hname
      exact hspares.requests http d hd horigin url hurl hnames p hp (hpname.trans hvariable)
    | transaction =>
      cases hholder
      obtain ⟨hvoid, hresult⟩ := Transaction.mem_locals_iff.1 hname
      exact hspares.transactions d hd horigin hvoid p hp (hpname.trans hresult)
    | _ => cases hname

end DeclarationModel

namespace StandardRun

variable (run : StandardRun)

/-- No method of a generated type, and no method of an anonymous class in it, declares a local twice. Their
locals are apart from their parameters exactly when no request with placeholders has a parameter of the
name of the map, and no transaction with a result one of the name of the result. -/
theorem nodup_locals_of_mem {t : GeneratedType} (ht : t ∈ run.model.typeList) :
    (∀ m ∈ t.methods, ∀ m' ∈ m :: m.inner, m'.locals.Nodup) ∧
    ((∀ m ∈ t.methods, ∀ m' ∈ m :: m.inner, ∀ name ∈ m'.locals,
        name ∉ m'.params.map Parameter.name) ↔ run.accepted.SparesLocals t.origin) := by
  constructor
  · refine (run.scopesAgree_of_mem (Q := fun locals _ => locals.Nodup) (fun _ => List.nodup_nil)
      (List.nodup_singleton _) (fun n => ?_) ht).2 fun x _ => ?_
    · exact List.Nodup.map Creation.localName_injective (List.nodup_range' _)
    · have hlength := x.1.length_locals x.2
      show (x.1.locals x.2).Nodup
      rcases hlocals : x.1.locals x.2 with - | ⟨name, - | ⟨name', rest⟩⟩
      · exact List.nodup_nil
      · exact List.nodup_singleton name
      · rw [hlocals] at hlength
        simp at hlength
  · rw [← DeclarationModel.forall_members_iff_sparesLocals]
    refine run.scopesAgree_of_mem (Q := fun locals params => ∀ name ∈ locals, name ∉ params)
      (fun _ _ h => absurd h List.not_mem_nil) (fun _ _ => List.not_mem_nil) (fun n name hname => ?_) ht
    obtain ⟨i, -, rfl⟩ := List.mem_map.1 hname
    exact fun h => Creation.localName_ne i (List.mem_singleton.1 h)

private def bodyBatches (body : String) : List (Marker × List RawDeclaration) :=
  let params : List Param := [⟨"id", "int"⟩, ⟨body, "java.util.Map"⟩]
  [(.rest, [⟨⟨.interfaceType, "Api", "a", none, [], [], [], [], [⟨"save", params, none⟩]⟩, .empty⟩]),
    (HttpMethod.post.marker, [⟨⟨.method, "save", "a.Api", none, params, [], [], [], []⟩,
      .ofList [("url", .str "/items/\x7bid\x7d")]⟩])]

private def editorBatches : List (Marker × List RawDeclaration) :=
  let member (kind : ElementKind) (name : String) (type : Option String) (params : List Param)
      (args : List (String × Argument)) : RawDeclaration :=
    ⟨⟨kind, name, "a.Main", type, params, [], [], [], []⟩, .ofList args⟩
  [(ListenerKind.click.marker,
      [member .method "go" none [] [("ids", .list [.str "title", .str "note"])]]),
    (.extra, [member .field "count" (some "int") [] []]),
    (.transactional, [member .method "load" (some "int") [⟨"db", "SQLiteDatabase"⟩] []]),
    (ThreadKind.ui.marker, [member .method "show" none [⟨"view0", "int"⟩] []]),
    (.enhancedComponent, [⟨⟨.classType, "Main", "a", none, [], [], [], [], []⟩, .empty⟩])]

private def localsRun (batches : List (Marker × List RawDeclaration)) :
    Except Interruption StandardRun :=
  ofHost batches (.ok [⟨"id", "title", 1⟩, ⟨"id", "note", 2⟩]) (.ok []) (.new "a")

private def scopeNames (run : StandardRun) : List (String × List String × List String) :=
  run.model.typeList.flatMap fun t => t.methods.flatMap fun m => (m :: m.inner).map fun m' =>
    (m'.name, m'.params.map Parameter.name, m'.locals)

/-- The map of url variables hides a body of its name. -/
theorem not_fresh_locals_urlVariables : ∃ run,
    localsRun (bodyBatches HttpMethod.urlVariables) = .ok run ∧
    ∃ t ∈ run.model.typeList, ∃ m ∈ t.methods, ∃ m' ∈ m :: m.inner, ∃ name ∈ m'.locals,
      name ∈ m'.params.map Parameter.name := by
  have hparts : (localsRun (bodyBatches HttpMethod.urlVariables)).toOption.map scopeNames =
      some [("save", ["id", HttpMethod.urlVariables], [HttpMethod.urlVariables])] := by
    decide +kernel
  obtain ⟨run, hrun, hnames⟩ := exists_ok_of_map_toOption hparts
  refine ⟨run, hrun, ?_⟩
  have hsave : ("save", ["id", HttpMethod.urlVariables], [HttpMethod.urlVariables]) ∈
      scopeNames run := by simp [hnames]
  obtain ⟨t, ht, hsave⟩ := List.mem_flatMap.1 hsave
  obtain ⟨m, hm, hsave⟩ := List.mem_flatMap.1 hsave
  obtain ⟨m', hm', hscope⟩ := List.mem_map.1 hsave
  obtain ⟨-, hscope⟩ := Prod.mk.inj hscope
  obtain ⟨hparams, hlocals⟩ := Prod.mk.inj hscope
  refine ⟨t, ht, m, hm, m', hm', HttpMethod.urlVariables, ?_, ?_⟩
  · simp [hlocals]
  · simp [hparams]

private def editorScopes : List (String × List String × List String) :=
  [("onCreate", ["savedInstanceState"], ["view0", "view2"]), ("onClick", ["view"], []),
    ("onClick", ["view"], []), ("show", ["view0"], []), ("run", [], []),
    ("injectExtras", [], [Extra.extras]), ("load", ["db"], [Transaction.result]),
    ("save", ["id", "note"], [HttpMethod.urlVariables])]

theorem nodup_locals_of_mem_editor : ∃ run,
    localsRun (bodyBatches "note" ++ editorBatches) = .ok run ∧ scopeNames run = editorScopes ∧
    ∀ t ∈ run.model.typeList, run.accepted.SparesLocals t.origin ∧
      ∀ m ∈ t.methods, ∀ m' ∈ m :: m.inner, m'.locals.Nodup := by
  have hparts : (localsRun (bodyBatches "note" ++ editorBatches)).toOption.map scopeNames =
      some editorScopes := by
    decide +kernel
  obtain ⟨run, hrun, hnames⟩ := exists_ok_of_map_toOption hparts
  refine ⟨run, hrun, hnames, fun t ht => ?_⟩
  obtain ⟨hnodup, hfresh⟩ := run.nodup_locals_of_mem ht
  refine ⟨hfresh.1 fun m hm m' hm' => ?_, hnodup⟩
  have hmem : (m'.name, m'.params.map Parameter.name, m'.locals) ∈ scopeNames run :=
    List.mem_flatMap.2 ⟨t, ht, List.mem_flatMap.2 ⟨m, hm, List.mem_map.2 ⟨m', hm', rfl⟩⟩⟩
  have hall : ∀ scope ∈ scopeNames run, ∀ name ∈ scope.2.2, name ∉ scope.2.1 := by
    rw [hnames]
    decide
  exact hall _ hmem

end StandardRun

end ComponentGlue
