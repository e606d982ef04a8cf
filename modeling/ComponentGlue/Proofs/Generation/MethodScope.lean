import ComponentGlue.Proofs.Code.Scope
import ComponentGlue.Proofs.Generation.ListenerBlock
import ComponentGlue.Proofs.Rule.RequestCall

set_option autoImplicit false
set_option relaxedAutoImplicit false

namespace ComponentGlue

variable {Q : List String → List String → Prop}

namespace Element

theorem names_overriding (e : Element) :
    e.overriding.params.map Parameter.name = e.params.map Param.name :=
  List.map_map

theorem inner_of_mem_forwardArgs {e : Element} {arg : Expr} (h : arg ∈ e.forwardArgs) :
    arg.inner = [] := by
  obtain ⟨p, -, rfl⟩ := List.mem_map.1 h
  rfl

end Element

namespace ThreadKind

theorem inner_dispatch (k : ThreadKind) (delay : Option Int) (work : Expr) :
    (k.dispatch delay work).inner = work.inner := by
  have hcall : ∀ (target : Expr) (method : String) (more : List Expr), target.inner = [] →
      more.flatMap Expr.inner = [] →
      (Expr.callOn target method (work :: more)).inner = work.inner := by
    intro target method more htarget hmore
    rw [Expr.inner_callOn, htarget, List.nil_append, List.flatMap_cons, hmore, List.append_nil]
  cases k with
  | background => exact hcall _ _ [] rfl rfl
  | ui =>
    cases delay with
    | none => exact hcall _ _ [] rfl rfl
    | some ms =>
      by_cases hms : 0 < ms
      · exact (congrArg Expr.inner (if_pos hms)).trans (hcall _ _ [.int ms] rfl rfl)
      · exact (congrArg Expr.inner (if_neg hms)).trans (hcall _ _ [] rfl rfl)

theorem allScopes_override (hnil : ∀ params, Q [] params) (k : ThreadKind) (d : Declaration)
    (t : GeneratedType) : (k.override d t).AllScopes Q := by
  refine Method.allScopes_of_locals_eq_nil hnil (List.forall_mem_cons.2 ⟨rfl, ?_⟩)
  have hcall : (Expr.callOn (outerRef t.name "super") d.element.name d.element.forwardArgs).inner =
      [] := Expr.inner_callOn_eq_nil rfl fun _ => Element.inner_of_mem_forwardArgs
  have hrun : (k.override d t).inner = (runnable d.element t.name).inner := by
    rw [Method.inner_eq_flatMap]
    exact (List.flatMap_singleton _ _).trans (k.inner_dispatch _ _)
  intro m' hm'
  rw [hrun, runnable, Method.inner_anonymous, List.flatMap_singleton,
    Method.inner_of_simple (List.forall_mem_singleton.2 (Statement.simple_run hcall)),
    List.append_nil] at hm'
  rw [List.mem_singleton.1 hm']
  rfl

end ThreadKind

namespace Transaction

def locals (element : Element) : List String := if element.returnType.isVoid then [] else [result]

theorem allScopes_override (element : Element) (name : String) :
    (override element (.ident name)).AllScopes Q ↔
      Q (locals element) (element.params.map Param.name) := by
  have hcall : (Expr.callOn .super element.name element.forwardArgs).inner = [] :=
    Expr.inner_callOn_eq_nil rfl fun _ => Element.inner_of_mem_forwardArgs
  have hwork : (work element (.ident name)).flatMap Statement.inner = [] := by
    have hmore : ∀ more : List Statement, more.flatMap Statement.inner = [] →
        (Expr.callOn .super element.name element.forwardArgs).inner ++
          more.flatMap Statement.inner = [] := by
      intro more h
      rw [hcall, h, List.append_nil]
    unfold work
    split
    · exact hmore [_] rfl
    · exact hmore [_, _] rfl
  have hinner : (override element (.ident name)).inner = [] := by
    rw [Method.inner_eq_flatMap]
    show [] ++ ((Statement.tryFinally _ _).inner ++ []) = []
    rw [Statement.inner_tryFinally, hwork]
    rfl
  have hlocals : (override element (.ident name)).locals = locals element := by
    unfold override work locals
    split <;> rfl
  rw [Method.allScopes_iff_of_inner_eq_nil hinner, hlocals, ← element.names_overriding]
  rfl

end Transaction

namespace HttpMethod

def locals (names : List String) : List String := if names.isEmpty then [] else [urlVariables]

theorem inner_requestCall (http : HttpMethod) (element : Element) (url : String) :
    (http.requestCall element url).inner = [] := by
  refine Expr.inner_callOn_eq_nil rfl fun arg harg => ?_
  rcases List.mem_append.1 harg with harg | harg
  · rcases mem_request harg with rfl | rfl | rfl
    · rfl
    · rcases bodyArg_cases element (urlPlaceholders url) with hbody | ⟨p, -, hbody⟩ <;> rw [hbody] <;> rfl
    · rfl
  · unfold mapArg at harg
    split at harg
    · cases harg
    · rw [List.mem_singleton.1 harg]
      rfl

theorem flatMap_bindVariables (names : List String) :
    (bindVariables names).flatMap Statement.locals = locals names ∧
      (bindVariables names).flatMap Statement.inner = [] := by
  cases names with
  | nil => exact ⟨rfl, rfl⟩
  | cons first rest =>
    have hput : ∀ s ∈ (first :: rest).map putVariable, s.Simple := by
      intro s hs
      obtain ⟨name, -, rfl⟩ := List.mem_map.1 hs
      exact ⟨rfl, rfl⟩
    rw [bindVariables_cons, List.flatMap_cons, List.flatMap_cons,
      List.flatMap_eq_nil_iff.2 fun s hs => (hput s hs).locals,
      List.flatMap_eq_nil_iff.2 fun s hs => (hput s hs).inner]
    exact ⟨rfl, rfl⟩

theorem allScopes_requestMethod (http : HttpMethod) (element : Element) (url : String) :
    (http.requestMethod element url).AllScopes Q ↔
      Q (locals (urlPlaceholders url)) (element.params.map Param.name) := by
  obtain ⟨last, hbody, hlast⟩ := http.exists_body_requestMethod element url
  have hsimple : last.Simple := by
    rcases hlast with rfl | rfl
    · exact Statement.simple_run (http.inner_requestCall element url)
    · exact Statement.simple_ret (http.inner_requestCall element url)
  obtain ⟨hbound, hnone⟩ := flatMap_bindVariables (urlPlaceholders url)
  have hlocals : (http.requestMethod element url).locals = locals (urlPlaceholders url) := by
    rw [Method.locals_eq_flatMap, hbody, List.flatMap_append, hbound, List.flatMap_singleton,
      hsimple.locals, List.append_nil]
  have hinner : (http.requestMethod element url).inner = [] := by
    rw [Method.inner_eq_flatMap, hbody, List.flatMap_append, hnone, List.flatMap_singleton,
      hsimple.inner, List.append_nil]
  rw [Method.allScopes_iff_of_inner_eq_nil hinner, hlocals, ← element.names_overriding]
  rfl

end HttpMethod

theorem OptionsMenu.allScopes_inflateMethod (hnil : ∀ params, Q [] params) (menus : List ResourceRef) :
    (inflateMethod menus).AllScopes Q := by
  refine Method.allScopes_of_simple hnil fun s hs => ?_
  rcases List.mem_append.1 hs with hs | hs
  · obtain ⟨menu, -, rfl⟩ := List.mem_map.1 hs
    exact ⟨rfl, rfl⟩
  · rw [List.mem_singleton.1 hs]
    exact ⟨rfl, rfl⟩

namespace OptionsItem

theorem simple_dispatchBranch (element : Element) (ref : ResourceRef) :
    (dispatchBranch element ref).Simple := by
  have hhandle : (handle element).flatMap Statement.locals = [] ∧
      (handle element).flatMap Statement.inner = [] := by
    unfold handle
    cases element.params.isEmpty <;> cases element.returnsVoid <;> exact ⟨rfl, rfl⟩
  constructor
  · exact (Statement.locals_branch _ _).trans hhandle.1
  · exact (Statement.inner_branch _ _).trans hhandle.2

theorem sameScopes_insertBeforeLast {s : Statement} (h : s.Simple) (body : List Statement) :
    Method.SameScopes body (insertBeforeLast body s) := by
  rcases List.eq_nil_or_concat body with rfl | ⟨front, last, rfl⟩
  · exact Method.sameScopes_insert h [] []
  · have hsplit : insertBeforeLast (front ++ [last]) s = front ++ s :: [last] := by
      simp [insertBeforeLast]
    rw [List.concat_eq_append, hsplit]
    exact Method.sameScopes_insert h front [last]

theorem sameScopes_addBranches (element : Element) (refs : List ResourceRef)
    (body : List Statement) : Method.SameScopes body (addBranches element refs body) := by
  unfold addBranches
  induction refs generalizing body with
  | nil => exact ⟨rfl, rfl⟩
  | cons ref refs ih =>
    have hinsert := sameScopes_insertBeforeLast (simple_dispatchBranch element ref) body
    exact ⟨(ih _).1.trans hinsert.1, (ih _).2.trans hinsert.2⟩

end OptionsItem

theorem Extra.sameScopes_addToGuard? {s : Statement} (h : s.Simple) {body body' : List Statement}
    (hadded : addToGuard? s body = some body') : Method.SameScopes body body' := by
  obtain ⟨front, condition, guarded, rfl, rfl⟩ := exists_of_addToGuard? hadded
  have hinside : Method.SameScopes guarded (guarded ++ [s]) := by
    have hlast := Method.sameScopes_insert h guarded []
    rwa [List.append_nil] at hlast
  simp only [Method.SameScopes, List.flatMap_append, List.flatMap_singleton,
    Statement.locals_branch, Statement.inner_branch] at hinside ⊢
  rw [hinside.1, hinside.2]
  exact ⟨rfl, rfl⟩

theorem PreferenceHelper.allScopes_accessor (hnil : ∀ params, Q [] params) {m : MethodSig}
    {method : Method} (h : accessor m = .ok method) : method.AllScopes Q := by
  have hdefault : ∀ {type getter : String} {value : Expr}, getter? type = some (getter, value) →
      value.inner = [] := by
    intro type getter value hgetter
    unfold getter? at hgetter
    split_ifs at hgetter
    all_goals
      obtain ⟨-, rfl⟩ := Prod.mk.inj (Option.some.inj hgetter)
      rfl
  unfold accessor at h
  dsimp only at h
  split at h
  · cases h
  · next getter value hgetter =>
    obtain rfl := Except.ok.inj h
    refine Method.allScopes_of_simple hnil (List.forall_mem_singleton.2 (Statement.simple_ret ?_))
    refine Expr.inner_callOn_eq_nil rfl (List.forall_mem_cons.2 ⟨rfl, ?_⟩)
    exact List.forall_mem_singleton.2 (hdefault hgetter)

namespace ListenerKind

theorem inner_callHandler_eq_nil (element : Element) (generated : String) {args : List Expr}
    (h : ∀ arg ∈ args, arg.inner = []) : (callHandler element generated args).inner = [] :=
  Expr.inner_callOn_eq_nil rfl h

theorem inner_itemArg (type : String) : (itemArg type).inner = [] := by
  unfold itemArg
  split <;> rfl

theorem inner_handlerArg (k : ListenerKind) (type : String) : (k.handlerArg type).inner = [] := by
  cases k with
  | itemClick | itemLongClick => exact inner_itemArg type
  | click | longClick | touch | itemSelected =>
    show (if typeMatches type "android.view.View" = true then Expr.ident "view"
      else .ident "event").inner = []
    split <;> rfl

/-- The statements of a callback are simple. -/
theorem simple_of_mem_callbacks {k : ListenerKind} {element : Element} {generated : String}
    {m : Method} (hm : m ∈ k.callbacks element generated) : ∀ s ∈ m.body, s.Simple := by
  have hplain : ∀ s ∈ (k.plainCallback element generated).body, s.Simple := by
    have hcall : (callHandler element generated (element.paramTypes.map k.handlerArg)).inner = [] := by
      refine inner_callHandler_eq_nil element generated fun arg harg => ?_
      obtain ⟨type, -, rfl⟩ := List.mem_map.1 harg
      exact k.inner_handlerArg type
    unfold plainCallback
    dsimp only
    split
    · exact List.forall_mem_singleton.2 (Statement.simple_run hcall)
    · split
      · exact List.forall_mem_cons.2 ⟨Statement.simple_run hcall,
          List.forall_mem_singleton.2 ⟨rfl, rfl⟩⟩
      · exact List.forall_mem_singleton.2 (Statement.simple_ret hcall)
  -- Both callbacks of a selection pass a flag and then what is left of the arguments.
  have hselection : ∀ (selected : Bool) (types : List String) {f : String → Expr},
      (∀ type, (f type).inner = []) →
      (Statement.run (callHandler element generated (.bool selected :: types.map f))).Simple := by
    intro selected types f hf
    refine Statement.simple_run (inner_callHandler_eq_nil element generated ?_)
    refine List.forall_mem_cons.2 ⟨rfl, fun arg harg => ?_⟩
    obtain ⟨type, -, rfl⟩ := List.mem_map.1 harg
    exact hf type
  cases k with
  | itemSelected =>
    simp only [callbacks, selectionCallbacks, List.mem_cons, List.not_mem_nil, or_false] at hm
    rcases hm with rfl | rfl
    · exact List.forall_mem_singleton.2 (hselection true _ inner_itemArg)
    · refine List.forall_mem_singleton.2 (hselection false _ fun type => ?_)
      split <;> rfl
  | click | longClick | touch | itemClick | itemLongClick =>
    rw [List.mem_singleton.1 hm]
    exact hplain

end ListenerKind

namespace Creation

theorem inner_registration (l : ListenerKind × List Method × ResourceRef) (i : Nat) :
    (registration (l, i)).flatMap Statement.inner = l.2.1 ++ l.2.1.flatMap Method.inner := by
  obtain ⟨k, callbacks, ref⟩ := l
  have hfound : ∀ name, (Statement.declare k.targetType name
      (if k.onAdapterView then .cast k.targetType (.callHere "findViewById" [.resource ref])
        else .callHere "findViewById" [.resource ref])).inner = [] := by
    intro name
    cases k.onAdapterView <;> rfl
  have hset : ∀ name, (Statement.branch (.notNull (.ident name)) [.run (.callOn (.ident name) k.setter
      [.anonymous (.named k.interface) callbacks])]).inner =
        callbacks ++ callbacks.flatMap Method.inner := by
    intro name
    rw [Statement.inner_branch, List.flatMap_singleton, ← Method.inner_anonymous (.named k.interface)]
    exact (Expr.inner_callOn _ k.setter _).trans (List.flatMap_singleton _ _)
  show [_, _].flatMap Statement.inner = _
  rw [List.flatMap_cons, List.flatMap_singleton, hfound, hset]
  rfl

theorem locals_of_mem_inner_registrations {s : Setting} {generated : String}
    {xs : List (StandardKind × Declaration)} {m : Method}
    (hm : m ∈ (registrations s generated xs).flatMap Statement.inner) : m.locals = [] := by
  rw [registrations, List.flatMap_assoc] at hm
  obtain ⟨⟨l, i⟩, hl, hm⟩ := List.mem_flatMap.1 hm
  rw [inner_registration] at hm
  obtain ⟨⟨k, d⟩, -, hlx⟩ := List.mem_flatMap.1 (List.fst_mem_of_mem_zipIdx hl)
  cases k with
  | listener k =>
    obtain ⟨ref, -, rfl⟩ := List.mem_map.1 hlx
    rcases List.mem_append.1 hm with hm | hm
    · exact Method.locals_of_simple (ListenerKind.simple_of_mem_callbacks hm)
    · obtain ⟨callback, hcallback, hm⟩ := List.mem_flatMap.1 hm
      rw [Method.inner_of_simple (ListenerKind.simple_of_mem_callbacks hcallback)] at hm
      cases hm
  | _ => cases hlx

theorem simple_of_mem_statements {s : Setting} {b : CreationBlock} {x : StandardKind × Declaration}
    {st : Statement} (h : st ∈ statements s b x) : st.Simple := by
  obtain ⟨k, d⟩ := x
  have hinto : ∀ {target : CreationBlock} {added : List Statement},
      st ∈ (if b = target then added else []) → st ∈ added := by
    intro target added hst
    split at hst
    · exact hst
    · cases hst
  cases k with
  | boundView | htmlText =>
    obtain ⟨ref, -, rfl⟩ := List.mem_map.1 (hinto h)
    exact ⟨rfl, rfl⟩
  | resourceField k =>
    obtain ⟨ref, -, rfl⟩ := List.mem_map.1 (hinto h)
    cases k <;> exact ⟨rfl, rfl⟩
  | preferenceField | systemService | lifecycle _ | applicationField =>
    rw [List.mem_singleton.1 (hinto h)]
    exact ⟨rfl, rfl⟩
  | _ => cases h

theorem simple_of_mem_injections {s : Setting} {xs : List (StandardKind × Declaration)}
    {st : Statement} (h : st ∈ injections s xs) : st.Simple := by
  induction xs with
  | nil => cases h
  | cons x xs ih =>
    by_cases hreads : reads x = []
    · rw [injections_cons_of_reads_eq_nil hreads] at h
      rcases List.mem_append.1 h with h | h
      · exact simple_of_mem_statements h
      · exact ih h
    · rw [injections_cons_of_reads_ne_nil hreads] at h
      rcases List.mem_cons.1 h with rfl | h
      · exact ⟨rfl, rfl⟩
      · obtain ⟨y, -, h⟩ := List.mem_flatMap.1 h
        exact simple_of_mem_statements h

theorem simple_of_mem_content {s : Setting} {generated : String}
    {xs : List (StandardKind × Declaration)} {b : CreationBlock} (hb : b ≠ .bindListeners) :
    ∀ st ∈ content s generated xs b, st.Simple := by
  intro st h
  cases b with
  | inject => exact simple_of_mem_injections h
  | bindListeners => exact absurd rfl hb
  | beforeCreate | bindViews | afterViews =>
    obtain ⟨x, -, h⟩ := List.mem_flatMap.1 h
    exact simple_of_mem_statements h

end Creation

namespace Component

theorem flatMap_filledMethod {α : Type} {f : Statement → List α} (layouts : List ResourceRef)
    (filled : CreationBlock → List Statement)
    (hlabelled : ∀ label body, f (.labelled label body) = body.flatMap f)
    (hsimple : ∀ s : Statement, s.Simple → f s = []) :
    (filledMethod layouts filled).body.flatMap f =
      CreationBlock.all.flatMap fun b => (filled b).flatMap f := by
  have hsuper : f (.run (.callOn .super onCreate [.ident "savedInstanceState"])) = [] :=
    hsimple _ ⟨rfl, rfl⟩
  have hlayouts : (layouts.map fun layout =>
      Statement.run (.callHere "setContentView" [.resource layout])).flatMap f = [] := by
    refine List.flatMap_eq_nil_iff.2 fun s hs => ?_
    obtain ⟨layout, -, rfl⟩ := List.mem_map.1 hs
    exact hsimple _ ⟨rfl, rfl⟩
  simp only [filledMethod, CreationBlock.all, List.flatMap_append, List.flatMap_cons,
    List.flatMap_nil, hlabelled, hsuper, hlayouts, List.append_nil, List.append_assoc,
    List.nil_append]

variable {s : Setting} {generated : String} {layouts : List ResourceRef}
  {xs : List (StandardKind × Declaration)}

theorem allScopes_filledMethod (hnil : ∀ params, Q [] params)
    (hviews : ∀ n, Q ((List.range' 0 n).map Creation.localName) ["savedInstanceState"]) :
    (filledMethod layouts (Creation.content s generated xs)).AllScopes Q := by
  have honly : ∀ {α : Type} {f : Statement → List α}, (∀ st : Statement, st.Simple → f st = []) →
      (CreationBlock.all.flatMap fun b => (Creation.content s generated xs b).flatMap f) =
        (Creation.registrations s generated xs).flatMap f := by
    intro α f hsimple
    have hnone : ∀ b, b ≠ CreationBlock.bindListeners →
        (Creation.content s generated xs b).flatMap f = [] := fun b hb =>
      List.flatMap_eq_nil_iff.2 fun st hst => hsimple st (Creation.simple_of_mem_content hb st hst)
    simp only [CreationBlock.all, List.flatMap_cons, List.flatMap_nil, List.append_nil,
      hnone .beforeCreate (by decide), hnone .inject (by decide), hnone .bindViews (by decide),
      hnone .afterViews (by decide), List.nil_append]
    rfl
  have hlocals : (filledMethod layouts (Creation.content s generated xs)).locals =
      (List.range' 0 (xs.flatMap (Creation.listeners s generated)).length).map
        Creation.localName := by
    rw [Method.locals_eq_flatMap, flatMap_filledMethod layouts _ Statement.locals_labelled
      fun _ h => h.locals, honly fun _ h => h.locals, ← Statement.filterMap_local?_nestedAll]
    exact Creation.filterMap_local?_registrations _ 0
  refine List.forall_mem_cons.2 ⟨hlocals ▸ hviews _, fun m hm => ?_⟩
  rw [Method.inner_eq_flatMap, flatMap_filledMethod layouts _ Statement.inner_labelled
    fun _ h => h.inner, honly fun _ h => h.inner] at hm
  exact Creation.locals_of_mem_inner_registrations hm ▸ hnil _

end Component

end ComponentGlue
