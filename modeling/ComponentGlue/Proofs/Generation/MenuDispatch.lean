import ComponentGlue.Proofs.Code.Execution
import ComponentGlue.Proofs.Generation.Clashes
import ComponentGlue.Proofs.Generation.Creation

set_option autoImplicit false
set_option relaxedAutoImplicit false

namespace ComponentGlue

open StandardKind (leaves schedule)

/-- The statement returns what the superclass answers to a selected item. -/
def Statement.asksSuper : Statement → Bool
  | .ret (some (.call (some .super) method [.ident "item"])) =>
    method == OptionsItem.onOptionsItemSelected
  | _ => false

def Method.isDispatcher (m : Method) : Bool :=
  m.name == OptionsItem.onOptionsItemSelected && m.body.getLast?.any Statement.asksSuper

theorem Method.name_of_isDispatcher {m : Method} (h : m.isDispatcher = true) :
    m.name = OptionsItem.onOptionsItemSelected :=
  beq_iff_eq.1 (Bool.and_eq_true_iff.1 h).1

theorem Method.isDispatcher_of_name_ne {m : Method}
    (h : m.name ≠ OptionsItem.onOptionsItemSelected) : m.isDispatcher = false :=
  Bool.eq_false_iff.2 fun hdispatcher => h (name_of_isDispatcher hdispatcher)

theorem Method.isDispatcher_of_last {m : Method} {last : Statement}
    (hbody : m.body.getLast? = some last) (hlast : last.asksSuper = false) :
    m.isDispatcher = false := by
  simp [isDispatcher, hbody, hlast]

namespace OptionsItem

def dispatcher (branches : List Statement) : Method :=
  { dispatchMethod with body := branches ++ dispatchMethod.body }

theorem isDispatcher_dispatcher (branches : List Statement) :
    (dispatcher branches).isDispatcher = true := by
  have hlast : (dispatcher branches).body.getLast? =
      some (.ret (some (.callOn .super onOptionsItemSelected [.ident "item"]))) :=
    List.getLast?_concat
  rw [Method.isDispatcher, hlast]
  exact Bool.and_eq_true_iff.2 ⟨beq_iff_eq.2 rfl, beq_iff_eq.2 rfl⟩

theorem addBranches_dispatcher (element : Element) (refs : List ResourceRef)
    (branches : List Statement) : addBranches element refs (dispatcher branches).body =
      (dispatcher (branches ++ refs.map (dispatchBranch element))).body := by
  have hinsert : ∀ (bs : List Statement) (s : Statement),
      insertBeforeLast (dispatcher bs).body s = (dispatcher (bs ++ [s])).body := by
    intro bs s
    have hsplit : ∀ last : Statement, insertBeforeLast (bs ++ [last]) s = bs ++ [s] ++ [last] := by
      intro last
      simp [insertBeforeLast]
    exact hsplit _
  have hfold : ∀ (new bs : List Statement), new.foldl insertBeforeLast (dispatcher bs).body =
      (dispatcher (bs ++ new)).body := by
    intro new
    induction new with
    | nil => exact fun bs => by rw [List.append_nil]; rfl
    | cons s new ih =>
      intro bs
      rw [List.foldl_cons, hinsert, ih, List.append_assoc, List.singleton_append]
  exact hfold _ branches

theorem mapMethod_dispatcher {t : GeneratedType} {branches : List Statement}
    (hfound : t.method? onOptionsItemSelected = some (dispatcher branches))
    (honly : t.methods.filter Method.isDispatcher = [dispatcher branches]) (element : Element)
    (refs : List ResourceRef) :
    let t' := t.mapMethod onOptionsItemSelected fun m =>
      { m with body := addBranches element refs m.body }
    t'.method? onOptionsItemSelected =
        some (dispatcher (branches ++ refs.map (dispatchBranch element))) ∧
      t'.methods.filter Method.isDispatcher =
        [dispatcher (branches ++ refs.map (dispatchBranch element))] := by
  have hchanged : ({ dispatcher branches with
      body := addBranches element refs (dispatcher branches).body } : Method) =
        dispatcher (branches ++ refs.map (dispatchBranch element)) := by
    rw [addBranches_dispatcher]
    rfl
  rw [← hchanged]
  constructor
  · rw [GeneratedType.method?_mapMethod t _ (by exact fun _ hm => hm), if_pos rfl, hfound]
    rfl
  · refine GeneratedType.filter_updateMethod_of_found hfound honly
      (fun _ => Method.name_of_isDispatcher) ?_
    rw [hchanged]
    exact isDispatcher_dispatcher _

end OptionsItem

namespace Contribution

variable {c : Contribution} {t t' : GeneratedType}

/-- The dispatchers of a type stay as they are, and the first method of their name stays the first. -/
structure Spares (t t' : GeneratedType) : Prop where
  dispatchers : t'.methods.filter Method.isDispatcher = t.methods.filter Method.isDispatcher
  found : ∀ m, t.method? OptionsItem.onOptionsItemSelected = some m →
    t'.method? OptionsItem.onOptionsItemSelected = some m

theorem Spares.trans {t'' : GeneratedType} (h : Spares t t') (h' : Spares t' t'') : Spares t t'' where
  dispatchers := h'.dispatchers.trans h.dispatchers
  found m hm := h'.found m (h.found m hm)

theorem spares_addMethod (t : GeneratedType) {m : Method} (h : m.isDispatcher = false) :
    Spares t (t.addMethod m) where
  dispatchers := by
    rw [GeneratedType.addMethod, List.filter_append, List.filter_cons_of_neg (by simp [h]),
      List.filter_nil, List.append_nil]
  found _ hm := GeneratedType.method?_addMethod_of_some hm m

theorem spares_mapMethod {name : String} (hname : name ≠ OptionsItem.onOptionsItemSelected)
    {f : Method → Method} (hf : ∀ m, m.name = name → (f m).name = name) :
    Spares t (t.mapMethod name f) where
  dispatchers := by
    refine GeneratedType.filter_updateMethod fun m hm => ?_
    have hfound : m.name = name := GeneratedType.name_of_method? (t := t) hm
    exact ⟨Method.isDispatcher_of_name_ne (hfound ▸ hname),
      Method.isDispatcher_of_name_ne (hf m hfound ▸ hname)⟩
  found m hm := by
    rw [GeneratedType.method?_mapMethod t name hf, if_neg hname.symm]
    exact hm

theorem spares_changeBlock {b : CreationBlock} {f : List Statement → List Statement}
    (h : changeBlock b f t = .ok t') : Spares t t' := by
  obtain ⟨m, body, hm, -, rfl⟩ :=
    GeneratedType.mapBlock?_eq_some_iff.1 (changeBlock_eq_ok_iff.1 h)
  have hname : m.name = onCreate := GeneratedType.name_of_method? hm
  exact spares_mapMethod (by decide) fun _ _ => hname

theorem spares_addToReading {s : Statement} (h : addToReading s t = .ok t') : Spares t t' := by
  obtain ⟨m, body, -, -, rfl⟩ := addToReading_eq_ok_iff.1 h
  exact spares_mapMethod (by decide) fun _ hm => hm

theorem spares_of_apply (h : c.apply t = .ok t') (hdispatch : ∀ element refs, c ≠ .dispatch element refs)
    (hmethod : ∀ fields m, c = .method fields m → (m t).isDispatcher = false) : Spares t t' := by
  cases c with
  | block b f => exact spares_changeBlock h
  | method fields m =>
    obtain rfl := Except.ok.inj h
    have hfields : Spares t (fields.foldl GeneratedType.addField t) :=
      ⟨congrArg _ (name_addFields t fields).2, fun _ hm => (method?_addFields t fields _).trans hm⟩
    exact hfields.trans (spares_addMethod _ (hmethod fields m rfl))
  | dispatch element refs => exact absurd rfl (hdispatch element refs)
  | extra s =>
    rcases extra_cases h with ⟨-, t₁, hadded, h⟩ | ⟨-, h⟩
    · have hmethod : Extra.injectMethod.isDispatcher = false :=
        Method.isDispatcher_of_name_ne (by decide)
      exact ((spares_addMethod t hmethod).trans (spares_changeBlock hadded)).trans
        (spares_addToReading h)
    · exact spares_addToReading h

end Contribution

namespace StandardKind

def item? : StandardKind × Declaration → Option Declaration
  | (.optionsItem, d) => some d
  | _ => none

variable {k : StandardKind} {d : Declaration} {project : Project} {refs : List ResourceRef}
  {h : Holder} {contribution : Contribution}

theorem not_dispatch_of_output (hitem : item? (k, d) = none)
    (houtput : k.output project d refs = .contribution h contribution) (element : Element)
    (refs' : List ResourceRef) : contribution ≠ .dispatch element refs' := by
  rintro rfl
  cases k with
  | optionsItem => cases hitem
  | _ => cases houtput

theorem isDispatcher_of_output (houtput : k.output project d refs = .contribution h contribution)
    {fields : List Field} {m : GeneratedType → Method} (hmethod : contribution = .method fields m)
    (t : GeneratedType) : (m t).isDispatcher = false := by
  subst hmethod
  cases k with
  | optionsMenu =>
    cases houtput
    exact Method.isDispatcher_of_name_ne
      (by decide : OptionsMenu.onCreateOptionsMenu ≠ OptionsItem.onOptionsItemSelected)
  | thread k =>
    cases houtput
    exact Method.isDispatcher_of_last rfl rfl
  | transaction =>
    cases houtput
    exact Method.isDispatcher_of_last rfl rfl
  | request http =>
    cases houtput
    refine Method.isDispatcher_of_last List.getLast?_concat ?_
    split <;> rfl
  | _ => cases houtput

theorem method?_of_output_of_le (hle : k.stage ≤ .items) (hitem : item? (k, d) = none)
    (houtput : k.output project d refs = .contribution h contribution) {t t' : GeneratedType}
    (happly : contribution.apply t = .ok t') : t'.method? OptionsItem.onOptionsItemSelected =
      t.method? OptionsItem.onOptionsItemSelected := by
  cases k with
  | component | preferenceHelper | restClient => cases houtput
  | boundView | htmlText | preferenceField =>
    cases houtput
    exact (Contribution.blockChanged_of_changeBlock happly).others _ (by decide)
  | optionsMenu =>
    cases houtput
    obtain rfl := Except.ok.inj happly
    rw [GeneratedType.method?_addMethod, Contribution.method?_addFields]
    exact Option.or_none
  | optionsItem => cases hitem
  | resourceField | listener | thread => exact absurd hle (by decide : ¬ Stage.threads ≤ .items)
  | extra => exact absurd hle (by decide : ¬ Stage.extras ≤ .items)
  | systemService | lifecycle | transaction | applicationField | request =>
    exact absurd hle (by decide : ¬ Stage.others ≤ .items)

end StandardKind

open StandardKind (item?)

def OptionsItem.branches (s : Setting) (d : Declaration) : List Statement :=
  (s.refs (.optionsItem, d)).map (dispatchBranch d.element)

/-- A component's type after some of its declarations: the items among them share one dispatcher, with
their branches in order, and without items there is none. -/
structure Dispatches (s : Setting) (xs : List (StandardKind × Declaration)) (t : GeneratedType) :
    Prop where
  none : xs.filterMap item? = [] → t.methods.filter Method.isDispatcher = []
  found : xs.filterMap item? ≠ [] → t.method? OptionsItem.onOptionsItemSelected =
    some (OptionsItem.dispatcher ((xs.filterMap item?).flatMap (OptionsItem.branches s)))
  only : xs.filterMap item? ≠ [] → t.methods.filter Method.isDispatcher =
    [OptionsItem.dispatcher ((xs.filterMap item?).flatMap (OptionsItem.branches s))]
  /-- Nothing that comes before the first item has taken the name of the dispatcher. -/
  early : xs.filterMap item? = [] →
    (∀ x ∈ xs, x.1.stage ≤ .items) →
    t.method? OptionsItem.onOptionsItemSelected = .none

namespace Dispatches

variable {s : Setting} {xs : List (StandardKind × Declaration)} {x : StandardKind × Declaration}
  {t t' : GeneratedType} {h : Holder} {contribution : Contribution}

theorem subclass (generated origin : String) (layouts : List ResourceRef) :
    Dispatches s [] (Component.subclass generated origin layouts) where
  none _ := rfl
  found hne := absurd rfl hne
  only hne := absurd rfl hne
  early _ _ := rfl

theorem snoc_of_not_item (hdispatches : Dispatches s xs t) (hitem : item? x = .none)
    (hleaves : leaves s x = .contribution h contribution) (happly : contribution.apply t = .ok t') :
    Dispatches s (xs ++ [x]) t' := by
  have hitems : (xs ++ [x]).filterMap item? = xs.filterMap item? := by
    rw [List.filterMap_append, List.filterMap_cons_none hitem, List.filterMap_nil, List.append_nil]
  have hspares : Contribution.Spares t t' := Contribution.spares_of_apply happly
    (StandardKind.not_dispatch_of_output hitem hleaves)
    fun fields m hm => StandardKind.isDispatcher_of_output hleaves hm t
  constructor
  · rw [hitems, hspares.dispatchers]
    exact hdispatches.none
  · rw [hitems]
    exact fun hne => hspares.found _ (hdispatches.found hne)
  · rw [hitems, hspares.dispatchers]
    exact hdispatches.only
  · rw [hitems]
    intro hnone hearly
    have hx := hearly x (List.mem_append_right _ (List.mem_singleton_self x))
    rw [StandardKind.method?_of_output_of_le hx hitem hleaves happly]
    exact hdispatches.early hnone fun y hy => hearly y (List.mem_append_left _ hy)

/-- After the dispatcher is ensured, it holds the branches of the items so far and is the only one. -/
theorem ensured (hdispatches : Dispatches s xs t) (hearly : ∀ y ∈ xs, y.1.stage ≤ .items) :
    (t.ensureMethod OptionsItem.onOptionsItemSelected OptionsItem.dispatchMethod).method?
        OptionsItem.onOptionsItemSelected =
      some (OptionsItem.dispatcher ((xs.filterMap item?).flatMap (OptionsItem.branches s))) ∧
    (t.ensureMethod OptionsItem.onOptionsItemSelected OptionsItem.dispatchMethod).methods.filter
        Method.isDispatcher =
      [OptionsItem.dispatcher ((xs.filterMap item?).flatMap (OptionsItem.branches s))] := by
  unfold GeneratedType.ensureMethod
  by_cases hfirst : xs.filterMap item? = []
  · have hnone := hdispatches.early hfirst hearly
    have hnoDispatcher := hdispatches.none hfirst
    rw [if_neg (by simp [hnone]), hfirst]
    constructor
    · rw [GeneratedType.method?_addMethod, hnone, Option.none_or]
      rfl
    · rw [GeneratedType.addMethod, List.filter_append, hnoDispatcher]
      exact List.filter_cons_of_pos (OptionsItem.isDispatcher_dispatcher [])
  · have hsome := hdispatches.found hfirst
    rw [if_pos (by simp [hsome])]
    exact ⟨hsome, hdispatches.only hfirst⟩

/-- An item adds its branches to the dispatcher, which the first item creates. -/
theorem snoc_item {d : Declaration} (hdispatches : Dispatches s xs t)
    (hearly : ∀ y ∈ xs, y.1.stage ≤ .items)
    (hleaves : leaves s (.optionsItem, d) = .contribution h contribution)
    (happly : contribution.apply t = .ok t') : Dispatches s (xs ++ [(StandardKind.optionsItem, d)]) t' := by
  have hitems : (xs ++ [(StandardKind.optionsItem, d)]).filterMap item? = xs.filterMap item? ++ [d] := by
    rw [List.filterMap_append]
    rfl
  have hne : (xs ++ [(StandardKind.optionsItem, d)]).filterMap item? ≠ [] := by simp [hitems]
  have hbranches : ((xs ++ [(StandardKind.optionsItem, d)]).filterMap item?).flatMap (OptionsItem.branches s) =
      (xs.filterMap item?).flatMap (OptionsItem.branches s) ++ OptionsItem.branches s d := by
    rw [hitems, List.flatMap_append, List.flatMap_singleton]
  obtain ⟨hfound, honly⟩ := hdispatches.ensured hearly
  cases hleaves
  obtain rfl := Except.ok.inj happly
  obtain ⟨hfound', honly'⟩ := OptionsItem.mapMethod_dispatcher hfound honly d.element
    (s.refs (.optionsItem, d))
  constructor
  · exact fun hnone => absurd hnone hne
  · exact fun _ => hbranches ▸ hfound'
  · exact fun _ => hbranches ▸ honly'
  · exact fun hnone => absurd hnone hne

end Dispatches

namespace DeclarationModel

def itemsOf (m : DeclarationModel) (origin : String) : List Declaration :=
  (m.declarations .optionsItem).filter fun d => d.element.owner == origin

theorem filterMap_item?_members (m : DeclarationModel) (origin : String) :
    (m.members origin).filterMap item? = m.itemsOf origin := by
  have howned : (m.members origin).filterMap item? = (m.owned origin).filterMap item? := by
    rw [members, owned, List.filterMap_filter, List.filterMap_filter]
    refine List.filterMap_congr fun x _ => ?_
    obtain ⟨k, d⟩ := x
    cases k with
    | optionsItem => rfl
    | _ => exact (ite_self _).trans (ite_self _).symm
  have hothers : ∀ x : StandardKind × Declaration, x.1 ≠ .optionsItem → (item? x).toList = [] := by
    rintro ⟨k, d⟩ hne
    cases k with
    | optionsItem => exact absurd rfl hne
    | _ => rfl
  rw [howned, List.filterMap_eq_flatMap_toList,
    flatMap_owned_of_kind m origin .optionsItem hothers]
  exact List.flatMap_singleton' _

end DeclarationModel

def Surroundings.TellsId {α σ : Type} (w : Surroundings α σ) (item : Value α) (id : Int) : Prop :=
  ∀ s, w.call (.value item) "getItemId" [] s = (.int id, s)

namespace OptionsItem

section Exec

variable {α σ : Type} [DecidableEq α] (w : Surroundings α σ) (item : Value α)

/-- Call the handler by its name on the enclosing object: its result, or true when it has none. A handler
that is itself called `onOptionsItemSelected` is overridden there, so that the call reaches the generated
method. -/
def handled (element : Element) (s : σ) : Option (Value α) × σ :=
  let answer := w.call .here element.name (if element.params.isEmpty then [] else [item]) s
  (some (if element.returnsVoid then .bool true else answer.1), answer.2)

/-- Ask the superclass. -/
def asked (s : σ) : Option (Value α) × σ :=
  let answer := w.call .super onOptionsItemSelected [item] s
  (some answer.1, answer.2)

variable {w item} {id : Int} {locals : Locals α}

theorem exec_handle (hitem : locals "item" = item) (element : Element) (s : σ) :
    Statement.execAll w (handle element) locals s =
      (.returns (handled w item element s).1, (handled w item element s).2) := by
  unfold handle handled
  cases hparams : element.params.isEmpty <;> cases hvoid : element.returnsVoid <;>
    simp [Expr.callHere, Expr.bool, Statement.execAll, Statement.exec, Expr.eval, Expr.evalTarget,
      Expr.evalAll, Literal.value, hitem]

theorem exec_dispatchBranch (hid : w.TellsId item id) (hitem : locals "item" = item)
    (element : Element) (ref : ResourceRef) (s : σ) :
    (dispatchBranch element ref).exec w locals s =
      if ref.id = id then
        (.returns (handled w item element s).1, (handled w item element s).2)
      else (.continues locals, s) := by
  have hcondition : (Expr.equals (.callOn (.ident "item") "getItemId" []) (.resource ref)).eval w
      locals s = (.bool (ref.id = id), s) := by
    simp [Expr.callOn, Expr.eval, Expr.evalTarget, Expr.evalAll, hitem, hid s, eq_comm]
  rw [dispatchBranch, Statement.exec, hcondition]
  by_cases h : ref.id = id
  · rw [if_pos h, if_pos (by simp [h]), exec_handle hitem]
    rfl
  · rw [if_neg h, if_neg (by simp [h])]

theorem execAll_dispatcher (hid : w.TellsId item id) (hitem : locals "item" = item)
    (bs : List (Element × ResourceRef)) (s : σ) :
    Statement.execAll w (dispatcher (bs.map fun b => dispatchBranch b.1 b.2)).body locals s =
      let answer := ((bs.find? fun b => b.2.id == id).elim (asked w item s) fun b =>
        handled w item b.1 s)
      (.returns answer.1, answer.2) := by
  induction bs with
  | nil =>
    have hsuper : (Statement.ret (some (.callOn .super onOptionsItemSelected [.ident "item"]))).exec w
        locals s = (.returns (asked w item s).1, (asked w item s).2) := by
      simp [asked, Expr.callOn, Statement.exec, Expr.eval, Expr.evalTarget, Expr.evalAll, hitem]
    exact Statement.execAll_of_returns hsuper
  | cons b bs ih =>
    have hbranch := exec_dispatchBranch hid hitem b.1 b.2 s
    by_cases h : b.2.id = id
    · rw [if_pos h] at hbranch
      rw [List.find?_cons_of_pos (by simp [h])]
      exact Statement.execAll_of_returns hbranch
    · rw [if_neg h] at hbranch
      rw [List.find?_cons_of_neg (by simp [h]), ← ih]
      exact Statement.execAll_of_continues hbranch

end Exec

def answers (s : Setting) (id : Int) (d : Declaration) : Bool :=
  (resources d).any fun key => (s.resource key).toOption.any fun ref => ref.id == id

theorem any_refs {s : Setting} {d : Declaration} (id : Int)
    (h : ∃ refs, s.resources (resources d) = .ok refs) :
    ((s.refs (.optionsItem, d)).any fun ref => ref.id == id) = answers s id d := by
  obtain ⟨refs, hrefs⟩ := h
  have hfound : s.refs (.optionsItem, d) = refs := by
    show (s.resources (resources d)).toOption.getD [] = refs
    rw [hrefs]
    rfl
  have hpairs := Setting.forall₂_of_resources hrefs
  rw [hfound, answers]
  clear hfound hrefs
  generalize resources d = keys at hpairs
  induction hpairs with
  | nil => rfl
  | cons hkey _ ih =>
    rw [List.any_cons, List.any_cons, hkey, ih]
    rfl

/-- The element of the first branch for an id is that of the first item with it. -/
theorem find?_branches {s : Setting} {ds : List Declaration} (id : Int)
    (h : ∀ d ∈ ds, ∃ refs, s.resources (resources d) = .ok refs) :
    ((ds.flatMap fun d => (s.refs (.optionsItem, d)).map fun ref => (d.element, ref)).find?
      fun b => b.2.id == id).map Prod.fst = (ds.find? (answers s id)).map Declaration.element := by
  induction ds with
  | nil => rfl
  | cons d ds ih =>
    have hrest := ih fun e he => h e (List.mem_cons_of_mem _ he)
    have hany := any_refs id (h d List.mem_cons_self)
    rw [List.flatMap_cons, List.find?_append, List.find?_map]
    cases hanswers : answers s id d with
    | true =>
      rw [hanswers, ← List.isSome_find?] at hany
      obtain ⟨ref, href⟩ := Option.isSome_iff_exists.1 hany
      rw [List.find?_cons_of_pos hanswers]
      show (Option.or (Option.map _ ((s.refs (.optionsItem, d)).find? fun ref => ref.id == id)) _).map
        Prod.fst = _
      rw [href]
      rfl
    | false =>
      have hnone : (s.refs (.optionsItem, d)).find? (fun ref => ref.id == id) = none := by
        rw [List.find?_eq_none]
        exact fun ref href => List.any_eq_false.1 (hany.trans hanswers) ref href
      rw [List.find?_cons_of_neg (by simp [hanswers]), ← hrest]
      show (Option.or (Option.map _ ((s.refs (.optionsItem, d)).find? fun ref => ref.id == id)) _).map
        Prod.fst = _
      rw [hnone]
      rfl

theorem flatMap_branches (s : Setting) (ds : List Declaration) : ds.flatMap (branches s) =
    (ds.flatMap fun d => (s.refs (.optionsItem, d)).map fun ref => (d.element, ref)).map
      fun b => dispatchBranch b.1 b.2 := by
  rw [List.map_flatMap]
  refine List.flatMap_congr fun d _ => ?_
  rw [List.map_map]
  rfl

theorem exec_dispatcher {α σ : Type} [DecidableEq α] {w : Surroundings α σ} {item : Value α} {id : Int}
    (hid : w.TellsId item id) {s : Setting} {ds : List Declaration}
    (h : ∀ d ∈ ds, ∃ refs, s.resources (resources d) = .ok refs) (state : σ) :
    (dispatcher (ds.flatMap (branches s))).exec w [item] state =
      (ds.find? (answers s id)).elim (asked w item state) fun d =>
        handled w item d.element state := by
  have hfirst := find?_branches id h
  rw [flatMap_branches, Method.exec, execAll_dispatcher hid (by rfl)]
  generalize List.find? _ (List.flatMap _ _) = branch at hfirst ⊢
  generalize List.find? _ ds = first at hfirst ⊢
  cases branch with
  | none =>
    cases first with
    | none => rfl
    | some d => cases hfirst
  | some b =>
    cases first with
    | none => cases hfirst
    | some d =>
      have hsame : b.1 = d.element := Option.some.inj hfirst
      simp only [Option.elim_some, hsame]
      rfl

theorem exists_branch_of_mem {s : Setting} {ds : List Declaration} {b : Statement}
    (hb : b ∈ ds.flatMap (branches s)) : ∃ condition body, b = .branch condition body := by
  obtain ⟨d, -, hb⟩ := List.mem_flatMap.1 hb
  obtain ⟨ref, -, rfl⟩ := List.mem_map.1 hb
  exact ⟨_, _, rfl⟩

end OptionsItem

theorem Dispatches.exists_isDispatcher_iff {s : Setting} {xs : List (StandardKind × Declaration)}
    {t : GeneratedType} (h : Dispatches s xs t) :
    (∃ m ∈ t.methods, m.isDispatcher = true) ↔ xs.filterMap item? ≠ [] := by
  constructor
  · rintro ⟨m, hm, hdispatcher⟩ hnone
    have hmem : m ∈ t.methods.filter Method.isDispatcher := List.mem_filter.2 ⟨hm, hdispatcher⟩
    rw [h.none hnone] at hmem
    cases hmem
  · intro hne
    have honly := h.only hne
    exact ⟨_, List.mem_filter.1 (honly ▸ List.mem_singleton_self _)⟩

namespace StandardRun

variable (run : StandardRun)

theorem exists_dispatches {d : Declaration}
    (hd : d ∈ run.accepted.declarations .enhancedComponent)
    (hkept : ¬ run.accepted.Replaces d.qualifiedName) : ∃ t,
    run.model.get? (run.project.generatedName d.qualifiedName) = some t ∧
    Dispatches run.context.setting (run.accepted.members d.qualifiedName) t := by
  refine run.members_induct (lastPut_of_component run.grouped_accepted hd hkept) ?_ ?_
  · intro t hleaves _
    obtain rfl := Output.type.inj hleaves
    exact Dispatches.subclass _ _ _
  · intro before y after h contribution t t' hsplit hdispatches _ hleaves _ happly
    cases hitem : item? y with
    | none => exact hdispatches.snoc_of_not_item hitem hleaves happly
    | some e =>
      obtain ⟨k, d⟩ := y
      cases k with
      | optionsItem =>
        refine hdispatches.snoc_item (fun x hx => ?_) hleaves happly
        exact StandardKind.stage_le_of_mem_done hsplit (List.mem_filter.1 hx).1
      | _ => cases hitem

theorem exists_resources_of_mem_itemsOf {origin : String} {d : Declaration}
    (hd : d ∈ run.accepted.itemsOf origin) :
    ∃ refs, run.context.setting.resources (OptionsItem.resources d) = .ok refs := by
  have hmem := (List.mem_filter.1 hd).1
  rw [run.accepted_eq] at hmem
  obtain ⟨refs, hrefs, -⟩ := StandardKind.exists_process_eq
    (ValidationContext.accepts_of_mem (k := .optionsItem) run.grouped hmem).fits
  exact ⟨refs, hrefs⟩

/-- The type of a component, unless another type replaces it, has a dispatcher of menu items exactly when
the component has accepted items. There is one, and it is the first method of its name. It consists of
branches and then asks the superclass; for a selected id it calls the handler of the first item that has an
id resolving to it, and asks the superclass if there is none. -/
theorem exists_dispatch {d : Declaration}
    (hd : d ∈ run.accepted.declarations .enhancedComponent)
    (hkept : ¬ run.accepted.Replaces d.qualifiedName) : ∃ t,
    run.model.get? (run.project.generatedName d.qualifiedName) = some t ∧
    ((∃ m ∈ t.methods, m.isDispatcher = true) ↔ run.accepted.itemsOf d.qualifiedName ≠ []) ∧
    (run.accepted.itemsOf d.qualifiedName ≠ [] → ∃ branches,
      t.methods.filter Method.isDispatcher = [OptionsItem.dispatcher branches] ∧
      t.method? OptionsItem.onOptionsItemSelected = some (OptionsItem.dispatcher branches) ∧
      (∀ b ∈ branches, ∃ condition body, b = .branch condition body) ∧
      ∀ (α σ : Type) [DecidableEq α] (w : Surroundings α σ) (item : Value α) (id : Int),
        w.TellsId item id → ∀ s, (OptionsItem.dispatcher branches).exec w [item] s =
          ((run.accepted.itemsOf d.qualifiedName).find?
            (OptionsItem.answers run.context.setting id)).elim (OptionsItem.asked w item s)
            fun e => OptionsItem.handled w item e.element s) ∧
    ∀ marker, (run.accepted.declarations marker).Sublist
      (run.context.extracted.declarations marker) := by
  obtain ⟨t, hfound, hdispatches⟩ := run.exists_dispatches hd hkept
  have hitems := run.accepted.filterMap_item?_members d.qualifiedName
  refine ⟨t, hfound, ?_, fun hne => ⟨_, hdispatches.only (hitems.symm ▸ hne),
    hdispatches.found (hitems.symm ▸ hne), fun b => OptionsItem.exists_branch_of_mem, ?_⟩, ?_⟩
  · rw [hdispatches.exists_isDispatcher_iff, hitems]
  · intro α σ _ w item id hid s
    rw [hitems]
    exact OptionsItem.exec_dispatcher hid (fun e => run.exists_resources_of_mem_itemsOf) s
  · intro marker
    rw [run.accepted_eq]
    exact ValidationContext.sublist_accepted run.grouped marker

private def saveHandler : Element := ⟨.method, "save", "a.Main", none, [], [], [], [], []⟩

private def shareHandler : Element :=
  ⟨.method, "share", "a.Main", some "boolean", [⟨"item", "MenuItem"⟩], [], [], [], []⟩

private def menuBatches : List (Marker × List RawDeclaration) :=
  [(.optionsItem,
      [⟨saveHandler, .ofList [("ids", .list [.str "share", .str "save", .str "save"])]⟩,
        ⟨shareHandler, .ofList [("ids", .list [.str "share", .str "send"])]⟩]),
    (.enhancedComponent, [⟨⟨.classType, "Main", "a", none, [], [], [], [], []⟩, .empty⟩])]

private def menuRun : Except Interruption StandardRun :=
  ofHost menuBatches (.ok [⟨"id", "save", 1⟩, ⟨"id", "share", 2⟩, ⟨"id", "send", 3⟩]) (.ok []) (.new "a")

private def menuParts (run : StandardRun) : List String × Bool × Bool × List (Option Element) :=
  ((run.accepted.declarations .enhancedComponent).map fun d => d.qualifiedName,
    run.accepted.isAnnotated "a.Main" .sharedPref, run.accepted.isAnnotated "a.Main" .rest,
    [1, 2, 3, 4].map fun id => ((run.accepted.itemsOf "a.Main").find?
      (OptionsItem.answers run.context.setting id)).map Declaration.element)

private def recorded (id : Int) : Surroundings Empty (List (String × Nat)) where
  call _ method values s :=
    if method = "getItemId" then (.int id, s) else (.str method, s ++ [(method, values.length)])
  object _ _ s := (.null, s)
  store _ _ _ s := s

theorem exists_dispatch_share : ∃ run t branches, menuRun = .ok run ∧
    run.model.get? (run.project.generatedName "a.Main") = some t ∧
    t.methods.filter Method.isDispatcher = [OptionsItem.dispatcher branches] ∧
    [1, 2, 3, 4].map (fun id =>
        (OptionsItem.dispatcher branches).exec (recorded id) [.null] []) =
      [(some (.bool true), [("save", 0)]), (some (.bool true), [("save", 0)]),
        (some (.str "share"), [("share", 1)]),
        (some (.str OptionsItem.onOptionsItemSelected), [(OptionsItem.onOptionsItemSelected, 1)])] := by
  have hparts : menuRun.toOption.map menuParts =
      some (["a.Main"], false, false, [some saveHandler, some saveHandler, some shareHandler, none]) := by
    decide +kernel
  obtain ⟨run, hrun, hparts⟩ := exists_ok_of_map_toOption hparts
  obtain ⟨hcomponents, hparts⟩ := Prod.mk.inj hparts
  obtain ⟨hpref, hparts⟩ := Prod.mk.inj hparts
  obtain ⟨hrest, hfirst⟩ := Prod.mk.inj hparts
  obtain ⟨d, hd, hmain⟩ := List.map_eq_singleton_iff.1 hcomponents
  have hmem : d ∈ run.accepted.declarations .enhancedComponent := hd ▸ List.mem_singleton_self d
  have hkept : ¬ run.accepted.Replaces d.qualifiedName := by
    rw [hmain, DeclarationModel.Replaces, hpref, hrest]
    decide
  obtain ⟨t, hfound, -, hdispatch, -⟩ := run.exists_dispatch hmem hkept
  rw [hmain] at hfound hdispatch
  obtain ⟨branches, honly, -, -, hexec⟩ := hdispatch fun hnone => by
    rw [hnone] at hfirst
    cases hfirst
  have hcalled : ∀ id, (OptionsItem.dispatcher branches).exec (recorded id) [.null] [] =
      (((run.accepted.itemsOf "a.Main").find?
        (OptionsItem.answers run.context.setting id)).map Declaration.element).elim
          (OptionsItem.asked (recorded id) .null [])
          fun e => OptionsItem.handled (recorded id) .null e [] := by
    intro id
    have hid : (recorded id).TellsId .null id := fun s => by simp [recorded]
    rw [hexec _ _ (recorded id) .null id hid [], Option.elim_map]
    rfl
  refine ⟨run, t, branches, hrun, hfound, honly, ?_⟩
  simp only [List.map_cons, List.map_nil, List.cons.injEq, and_true] at hfirst
  obtain ⟨hone, htwo, hthree, hfour⟩ := hfirst
  simp only [List.map_cons, List.map_nil, hcalled, hone, htwo, hthree, hfour]
  rfl

end StandardRun

end ComponentGlue
