import Mathlib.Data.List.Forall2
import ComponentGlue.Proofs.Code.Scope
import ComponentGlue.Proofs.Code.TypeRef
import ComponentGlue.Proofs.Rule.Kind

set_option autoImplicit false
set_option relaxedAutoImplicit false

namespace ComponentGlue

namespace ListenerKind

def adapterItem : Expr :=
  .callOn (.callOn (.ident "parent") "getAdapter" []) "getItem" [.ident "position"]

def onNothingSelected : String := "onNothingSelected"

/-- What a callback passes for a handler's parameter of this type in this slot. -/
inductive Passes (callback : Method) : HandlerSlot → String → Expr → Prop where
  /-- The callback's own parameter of the class. -/
  | own {qualified type : String} {p : Parameter} (hp : p ∈ callback.params)
      (htype : p.type = .named qualified) :
      Passes callback (.type qualified) type (.ident p.name)
  /-- Whether something is selected. -/
  | flag (type : String) (selected : Bool) :
      Passes callback (.type "boolean") type (.bool selected)
  | position {p : Parameter} (hp : p ∈ callback.params) (htype : p.type = .primitive .int) :
      Passes callback .item "int" (.ident p.name)
  | noPosition (i : Int) : Passes callback .item "int" (.int i)
  | item {type : String} (hne : type ≠ "int") (hparams : callback.params = itemParams) :
      Passes callback .item type (.cast (.parse type) adapterItem)
  | noItem {type : String} (hne : type ≠ "int") (hname : callback.name = onNothingSelected) :
      Passes callback .item type .null

namespace Passes

variable {callback : Method} {slot : HandlerSlot} {type : String} {arg : Expr}

theorem identifiers_subset (h : Passes callback slot type arg) :
    ∀ name ∈ arg.identifiers, name ∈ callback.params.map Parameter.name := by
  cases h with
  | own hp htype =>
    intro name hname
    obtain rfl := List.mem_singleton.1 hname
    exact List.mem_map_of_mem hp
  | position hp htype =>
    intro name hname
    obtain rfl := List.mem_singleton.1 hname
    exact List.mem_map_of_mem hp
  | item hne hparams =>
    intro name hname
    rw [hparams]
    have hitem : "parent" = name ∨ "position" = name := by
      simpa [Expr.identifiers, adapterItem, Expr.callOn, Expr.parts, Expr.partsOption,
        Expr.partsAll, Expr.ident?] using hname
    rcases hitem with rfl | rfl <;> decide
  | flag | noPosition | noItem => exact fun name hname => absurd hname List.not_mem_nil

theorem callsNothing (h : Passes callback slot type arg) (generated method : String) :
    arg.CallsNothing generated method := by
  unfold Expr.CallsNothing
  cases h with
  | item hne hparams =>
    simp [adapterItem, Expr.callOn, Expr.parts, Expr.partsOption, Expr.partsAll, Expr.outerArgs?]
  | own | position | flag | noPosition | noItem =>
    simp [Expr.parts, Expr.outerArgs?, Expr.bool, Expr.int]

theorem of_mem {filled : List (HandlerSlot × String)} {args : List Expr}
    (h : List.Forall₂ (fun x arg => Passes callback x.1 x.2 arg) filled args) (harg : arg ∈ args) :
    ∃ slot type, Passes callback slot type arg := by
  obtain ⟨i, hi, rfl⟩ := List.getElem_of_mem harg
  exact ⟨_, _, h.get (h.length_eq ▸ hi) hi⟩

end Passes

theorem exists_filled_of_shapeFits {shape : List HandlerSlot} {types : List String}
    (h : shapeFits shape types = true) : ∃ filled : List (HandlerSlot × String),
      filled.map Prod.fst = shape ∧ filled.map Prod.snd = types ∧
      ∀ x ∈ filled, x.1.fits x.2 = true := by
  induction shape generalizing types with
  | nil =>
    cases types with
    | nil => exact ⟨[], rfl, rfl, fun _ hx => absurd hx List.not_mem_nil⟩
    | cons type types => cases h
  | cons slot slots ih =>
    cases types with
    | nil => cases h
    | cons type types =>
      rw [shapeFits, Bool.and_eq_true] at h
      obtain ⟨filled, hslots, htypes, hfits⟩ := ih h.2
      refine ⟨(slot, type) :: filled, ?_, ?_, List.forall_mem_cons.2 ⟨h.1, hfits⟩⟩
      · rw [List.map_cons, hslots]
      · rw [List.map_cons, htypes]

section Arguments

variable {k : ListenerKind} {callback : Method} {slot : HandlerSlot} {type : String}

theorem typeMatches_int_iff : typeMatches type "int" = true ↔ type = "int" := by
  simp [typeMatches, show simpleName "int" = "int" by decide]

theorem passes_itemArg (hparams : callback.params = itemParams) :
    Passes callback .item type (itemArg type) := by
  unfold itemArg
  split
  · next hint =>
    obtain rfl := typeMatches_int_iff.1 hint
    have hposition : Parameter.plain "position" (.primitive .int) ∈ callback.params := by
      rw [hparams]
      simp [itemParams]
    exact .position hposition rfl
  · next hint => exact .item (fun h => hint (typeMatches_int_iff.2 h)) hparams

theorem passes_absent (hname : callback.name = onNothingSelected) :
    Passes callback .item type (if typeMatches type "int" then .int (-1) else .null) := by
  split
  · next hint =>
    obtain rfl := typeMatches_int_iff.1 hint
    exact .noPosition (-1)
  · next hint => exact .noItem (fun h => hint (typeMatches_int_iff.2 h)) hname

theorem eq_of_mem_optional {shape : List HandlerSlot} {only : HandlerSlot}
    (hshape : shape ∈ [[], [only]]) (hslot : slot ∈ shape) : slot = only := by
  simp only [List.mem_cons, List.not_mem_nil, or_false] at hshape
  rcases hshape with rfl | rfl
  · cases hslot
  · exact List.mem_singleton.1 hslot

/-- A callback without selection passes what the slot asks for. -/
theorem passes_handlerArg (hk : k ≠ .itemSelected) (hparams : callback.params = k.callbackParams)
    {shape : List HandlerSlot} (hshape : shape ∈ k.handlerShapes) (hslot : slot ∈ shape)
    (hfits : slot.fits type = true) : Passes callback slot type (k.handlerArg type) := by
  have hview : typeMatches type "android.view.View" = true →
      Parameter.plain "view" view ∈ callback.params →
      Passes callback (.type "android.view.View") type
        (if typeMatches type "android.view.View" then .ident "view" else .ident "event") := by
    intro hmatches hmem
    rw [if_pos hmatches]
    exact .own hmem rfl
  cases k with
  | itemSelected => exact absurd rfl hk
  | itemClick | itemLongClick =>
    obtain rfl : slot = .item := eq_of_mem_optional hshape hslot
    exact passes_itemArg hparams
  | click | longClick =>
    obtain rfl : slot = .type "android.view.View" := eq_of_mem_optional hshape hslot
    refine hview hfits ?_
    rw [hparams]
    exact List.mem_singleton_self _
  | touch =>
    have hslots : slot = .type "android.view.MotionEvent" ∨ slot = .type "android.view.View" := by
      simp only [handlerShapes, List.mem_cons, List.not_mem_nil, or_false] at hshape
      rcases hshape with rfl | rfl
      · exact Or.inl (List.mem_singleton.1 hslot)
      · simpa using hslot
    rcases hslots with rfl | rfl
    · -- The type of an event is not the type of a view.
      have hother : typeMatches type "android.view.View" = false := by
        have hevent : type = "android.view.MotionEvent" ∨
            type = simpleName "android.view.MotionEvent" := by
          simpa [HandlerSlot.fits, typeMatches] using hfits
        rcases hevent with rfl | rfl <;> decide
      have hmem : Parameter.plain "event" (.named "android.view.MotionEvent") ∈
          callback.params := by
        rw [hparams]
        simp [callbackParams]
      have hpassed : handlerArg .touch type = .ident "event" := by
        simp [handlerArg, hother]
      rw [hpassed]
      exact .own hmem rfl
    · refine hview hfits ?_
      rw [hparams]
      exact List.mem_cons_self

theorem forall₂_passes_selection {filled : List (HandlerSlot × String)}
    (hshape : filled.map Prod.fst ∈ handlerShapes .itemSelected) (selected : Bool)
    {item : String → Expr} (hitem : ∀ type, Passes callback .item type (item type)) :
    List.Forall₂ (fun x arg => Passes callback x.1 x.2 arg) filled
      (.bool selected :: (((filled.map Prod.snd).drop 1).take 1).map item) := by
  simp only [handlerShapes, List.mem_cons, List.not_mem_nil, or_false] at hshape
  rcases hshape with hshape | hshape
  · obtain ⟨⟨_, type⟩, rfl, rfl⟩ := List.map_eq_singleton_iff.1 hshape
    exact .cons (.flag type selected) .nil
  · obtain ⟨⟨_, type⟩, rest, rfl, rfl, hrest⟩ := List.map_eq_cons_iff.1 hshape
    obtain ⟨⟨_, itemType⟩, rfl, rfl⟩ := List.map_eq_singleton_iff.1 hrest
    exact .cons (.flag type selected) (.cons (hitem itemType) .nil)

end Arguments

/-- The callback calls the handler with these arguments, and answers for it where it has to. -/
structure Delegates (k : ListenerKind) (element : Element) (generated : String) (callback : Method)
    (args : List Expr) : Prop where
  returns : callback.returns = if k.returnsBoolean then .boolean else .void
  body : callback.body =
    if !k.returnsBoolean then [.run (callHandler element generated args)]
    else if element.returnsVoid then
      [.run (callHandler element generated args), .ret (some (.bool true))]
    else [.ret (some (callHandler element generated args))]

theorem callbacks_eq_singleton {k : ListenerKind} (hk : k ≠ .itemSelected) (element : Element)
    (generated : String) : k.callbacks element generated = [k.plainCallback element generated] := by
  cases k with
  | itemSelected => exact absurd rfl hk
  | click | longClick | touch | itemClick | itemLongClick => rfl

theorem exists_args_of_mem_callbacks {k : ListenerKind} {element : Element} {generated : String}
    {filled : List (HandlerSlot × String)} (hshape : filled.map Prod.fst ∈ k.handlerShapes)
    (htypes : filled.map Prod.snd = element.paramTypes) (hfits : ∀ x ∈ filled, x.1.fits x.2 = true)
    {callback : Method} (h : callback ∈ k.callbacks element generated) :
    ∃ args, k.Delegates element generated callback args ∧
      List.Forall₂ (fun x arg => Passes callback x.1 x.2 arg) filled args := by
  -- A selection has two callbacks with arguments of their own, every other kind has one.
  by_cases hk : k = .itemSelected
  · subst hk
    have hcallbacks : callback ∈ selectionCallbacks .itemSelected element generated := h
    simp only [selectionCallbacks, List.mem_cons, List.not_mem_nil, or_false] at hcallbacks
    rw [← htypes] at hcallbacks
    rcases hcallbacks with rfl | rfl
    · exact ⟨_, ⟨rfl, rfl⟩, forall₂_passes_selection hshape true fun _ => passes_itemArg rfl⟩
    · exact ⟨_, ⟨rfl, rfl⟩, forall₂_passes_selection hshape false fun _ => passes_absent rfl⟩
  · rw [callbacks_eq_singleton hk, List.mem_singleton] at h
    subst h
    refine ⟨element.paramTypes.map k.handlerArg, ⟨rfl, rfl⟩, ?_⟩
    rw [← htypes, List.map_map, List.forall₂_map_right_iff, List.forall₂_same]
    intro x hx
    exact passes_handlerArg hk rfl hshape (List.mem_map_of_mem hx) (hfits x hx)

namespace Delegates

variable {k : ListenerKind} {element : Element} {generated : String} {callback : Method}
  {args : List Expr}

theorem outerCalls_eq (h : k.Delegates element generated callback args)
    (hargs : ∀ arg ∈ args, arg.CallsNothing generated element.name) :
    callback.outerCalls generated element.name = [args] := by
  have hcall := Expr.filterMap_outerArgs?_callOn hargs
  have hfront : ∀ more : List Expr, more.filterMap (Expr.outerArgs? generated element.name) = [] →
      ((callHandler element generated args :: (callHandler element generated args).parts) ++
        more).filterMap (Expr.outerArgs? generated element.name) = [args] := by
    intro more hmore
    rw [List.filterMap_append, hmore, List.append_nil]
    exact hcall
  rw [Method.outerCalls, Method.parts_eq, h.body]
  split
  · exact hfront [] rfl
  · split
    · exact hfront [.bool true] rfl
    · exact hfront [] rfl

theorem answers_of_returnsBoolean (h : k.Delegates element generated callback args)
    (hboolean : k.returnsBoolean = true) :
    callback.returns = .boolean ∧ ∃ answer, callback.body.getLast? = some (.ret (some answer)) ∧
      callback.answers = [some answer] ∧ answer =
        if element.returnsVoid then .bool true else callHandler element generated args := by
  rw [h.returns, Method.answers, h.body, hboolean]
  refine ⟨rfl, ?_⟩
  cases element.returnsVoid with
  | true => exact ⟨_, rfl, rfl, rfl⟩
  | false => exact ⟨_, rfl, rfl, rfl⟩

theorem answers_of_returnsVoid (h : k.Delegates element generated callback args)
    (hvoid : k.returnsBoolean = false) : callback.returns = .void ∧ callback.answers = [] := by
  rw [h.returns, Method.answers, h.body, hvoid]
  exact ⟨rfl, rfl⟩

end Delegates

section Accepted

variable {k : ListenerKind} {s : Subject}

theorem exists_filled_of_accepts (haccepts : (k.check s).findings.rejects = false)
    (generated : String) : ∃ filled : List (HandlerSlot × String),
      filled.map Prod.fst ∈ k.handlerShapes ∧
      shapeFits (filled.map Prod.fst) s.declaration.element.paramTypes = true ∧
      filled.map Prod.snd = s.declaration.element.paramTypes ∧
      ∀ callback ∈ k.callbacks s.declaration.element generated, ∃ args,
        k.Delegates s.declaration.element generated callback args ∧
        callback.outerCalls generated s.declaration.element.name = [args] ∧
        List.Forall₂ (fun x arg => Passes callback x.1 x.2 arg) filled args := by
  obtain ⟨-, ⟨shape, hshape, hshapeFits⟩, -⟩ := ((k.demands s).accepts_iff.1 haccepts).own
  obtain ⟨filled, rfl, htypes, hfits⟩ := exists_filled_of_shapeFits hshapeFits
  refine ⟨filled, hshape, hshapeFits, htypes, fun callback hcallback => ?_⟩
  obtain ⟨args, hdelegates, hpasses⟩ :=
    exists_args_of_mem_callbacks hshape htypes hfits hcallback
  refine ⟨args, hdelegates, hdelegates.outerCalls_eq fun arg harg => ?_, hpasses⟩
  obtain ⟨slot, type, hpassed⟩ := Passes.of_mem hpasses harg
  exact hpassed.callsNothing _ _

/-- Every callback of an accepted handler calls it once, with one argument for each parameter, and uses in
the arguments only parameters of its own. It answers exactly when the kind asks for a truth value: with the
handler's answer, or with true for a handler without one. -/
theorem delegates_of_accepts (haccepts : (k.check s).findings.rejects = false) (generated : String) :
    (k.callbacks s.declaration.element generated).map Method.name =
      k.callback :: (if k = .itemSelected then [onNothingSelected] else []) ∧
    ∀ callback ∈ k.callbacks s.declaration.element generated, ∃ args,
      callback.outerCalls generated s.declaration.element.name = [args] ∧
      args.length = s.declaration.element.params.length ∧
      (∀ arg ∈ args, ∀ name ∈ arg.identifiers, name ∈ callback.params.map Parameter.name) ∧
      (k.returnsBoolean = true → callback.returns = .boolean ∧ ∃ answer,
        callback.body.getLast? = some (.ret (some answer)) ∧ callback.answers = [some answer] ∧
        answer = if s.declaration.element.returnsVoid then .bool true
          else callHandler s.declaration.element generated args) ∧
      (k.returnsBoolean = false → callback.returns = .void ∧ callback.answers = []) := by
  obtain ⟨filled, -, -, htypes, hcallbacks⟩ := exists_filled_of_accepts haccepts generated
  constructor
  · cases k <;> rfl
  · intro callback hcallback
    obtain ⟨args, hdelegates, hcalls, hpasses⟩ := hcallbacks callback hcallback
    refine ⟨args, hcalls, ?_, ?_, hdelegates.answers_of_returnsBoolean,
      hdelegates.answers_of_returnsVoid⟩
    · rw [← hpasses.length_eq, ← List.length_map Prod.snd, htypes, Element.paramTypes,
        List.length_map]
    · intro arg harg
      obtain ⟨slot, type, hpassed⟩ := Passes.of_mem hpasses harg
      exact hpassed.identifiers_subset

end Accepted

private def screenContext : ValidationContext :=
  ⟨.extract [(.enhancedComponent, [⟨⟨.classType, "Main", "a", none, [], [], [], [], []⟩, .empty⟩])],
    (Catalog.resolve (.ok [⟨"id", "pad", 1⟩, ⟨"id", "sort", 2⟩]) (.ok [])).toOption, .new "a"⟩

private def padTouched : Declaration :=
  ⟨touch.marker, ⟨.method, "padTouched", "a.Main", some "boolean",
    [⟨"e", "MotionEvent"⟩, ⟨"v", "View"⟩], [], [], [], []⟩, .empty⟩

theorem delegates_of_accepts_pad :
    (touch.check ⟨screenContext, padTouched⟩).findings.rejects = false ∧
    ∃ callback ∈ touch.callbacks padTouched.element "a.Main_", ∃ first second answer,
      callback.outerCalls "a.Main_" "padTouched" = [[first, second]] ∧
      (∀ arg ∈ [first, second], ∀ name ∈ arg.identifiers,
        name ∈ callback.params.map Parameter.name) ∧
      callback.returns = .boolean ∧ callback.answers = [some answer] ∧
      answer = callHandler padTouched.element "a.Main_" [first, second] := by
  have haccepts : (touch.check ⟨screenContext, padTouched⟩).findings.rejects = false := by
    decide +kernel
  obtain ⟨args, hcalls, hlength, hscope, hanswers, -⟩ :=
    (delegates_of_accepts haccepts "a.Main_").2 _ (List.mem_singleton_self _)
  obtain ⟨first, second, rfl⟩ := List.length_eq_two.1 hlength
  obtain ⟨hreturns, answer, -, hanswer, hvalue⟩ := hanswers rfl
  exact ⟨haccepts, _, List.mem_singleton_self _, first, second, answer, hcalls, hscope, hreturns,
    hanswer, hvalue⟩

private def sorted (type : String) : Declaration :=
  ⟨itemSelected.marker, ⟨.method, "sortItemSelected", "a.Main", none,
    [⟨"selected", "boolean"⟩, ⟨"order", type⟩], [], [], [], []⟩, .empty⟩

def Suits (callback : Method) (slot : HandlerSlot) (type : String) (arg : Expr) : Prop :=
  Passes callback slot type arg ∧ (arg = .null → ∀ p, TypeRef.parse type ≠ .primitive p)

/-- The item is missing, but its type has no null. -/
def Unfilled (callback : Method) (slot : HandlerSlot) (type : String) : Prop :=
  callback.name = onNothingSelected ∧ slot = .item ∧ type ≠ "int" ∧
    ∃ p, TypeRef.parse type = .primitive p

theorem Passes.eq_null_iff {callback : Method} {slot : HandlerSlot} {type : String} {arg : Expr}
    (h : Passes callback slot type arg) (hparams : callback.name = onNothingSelected →
      callback.params ≠ itemParams) :
    arg = .null ↔ callback.name = onNothingSelected ∧ slot = .item ∧ type ≠ "int" := by
  cases h with
  | own | flag => simp [Expr.bool]
  | position | noPosition => simp [Expr.int]
  | item hne hitem => simpa using fun hname => absurd hitem (hparams hname)
  | noItem hne hname => simp [hne, hname]

theorem callback_ne_onNothingSelected (k : ListenerKind) : k.callback ≠ onNothingSelected := by
  cases k <;> decide

theorem params_ne_of_mem_callbacks {k : ListenerKind} {element : Element} {generated : String}
    {callback : Method} (h : callback ∈ k.callbacks element generated)
    (hname : callback.name = onNothingSelected) : callback.params ≠ itemParams := by
  by_cases hk : k = .itemSelected
  · subst hk
    have hcallbacks : callback ∈ selectionCallbacks .itemSelected element generated := h
    simp only [selectionCallbacks, List.mem_cons, List.not_mem_nil, or_false] at hcallbacks
    rcases hcallbacks with rfl | rfl
    · exact absurd hname (callback_ne_onNothingSelected .itemSelected)
    · exact fun hparams => absurd (congrArg List.length hparams) (by decide : ¬ 1 = 4)
  · rw [callbacks_eq_singleton hk, List.mem_singleton] at h
    subst h
    exact absurd hname (callback_ne_onNothingSelected k)

/-- Every argument is the callback's own view or event, the selection flag, the position, the item cast to
the parameter's type, or null where no item is selected. It suits the parameter's type, unless it is null
and the type is primitive. -/
theorem suits_iff_of_accepts {k : ListenerKind} {s : Subject}
    (haccepts : (k.check s).findings.rejects = false) (generated : String) :
    ∃ shape ∈ k.handlerShapes, shapeFits shape s.declaration.element.paramTypes = true ∧
    ∀ callback ∈ k.callbacks s.declaration.element generated, ∃ args,
      callback.outerCalls generated s.declaration.element.name = [args] ∧
      args.length = s.declaration.element.paramTypes.length ∧
      ∀ (i : Nat) (slot : HandlerSlot) (type : String) (arg : Expr), shape[i]? = some slot →
        s.declaration.element.paramTypes[i]? = some type → args[i]? = some arg →
        Passes callback slot type arg ∧
        (Suits callback slot type arg ↔ ¬ Unfilled callback slot type) := by
  obtain ⟨filled, hshape, hshapeFits, htypes, hcallbacks⟩ :=
    exists_filled_of_accepts haccepts generated
  refine ⟨_, hshape, hshapeFits, fun callback hcallback => ?_⟩
  obtain ⟨args, -, hcalls, hpasses⟩ := hcallbacks callback hcallback
  rw [← htypes]
  refine ⟨args, hcalls, ?_, ?_⟩
  · rw [List.length_map, hpasses.length_eq]
  · intro i slot type arg hslot htype harg
    have hfilled : ∃ x, filled[i]? = some x ∧ x.1 = slot ∧ x.2 = type := by
      rw [List.getElem?_map] at hslot htype
      obtain ⟨x, hx, rfl⟩ := Option.map_eq_some_iff.1 hslot
      rw [hx] at htype
      exact ⟨x, hx, rfl, Option.some.inj htype⟩
    obtain ⟨x, hx, rfl, rfl⟩ := hfilled
    obtain ⟨hi, rfl⟩ := List.getElem?_eq_some_iff.1 hx
    obtain ⟨hi', rfl⟩ := List.getElem?_eq_some_iff.1 harg
    have hpassed := hpasses.get hi hi'
    -- What is passed is null only where the callback has nothing of that kind.
    have hnull := hpassed.eq_null_iff (params_ne_of_mem_callbacks hcallback)
    refine ⟨hpassed, ?_, ?_⟩
    · rintro hsuits ⟨hname, hitem, hne, p, hp⟩
      exact hsuits.2 (hnull.2 ⟨hname, hitem, hne⟩) p hp
    · intro hunfilled
      refine ⟨hpassed, fun hargNull p hp => hunfilled ?_⟩
      obtain ⟨hname, hitem, hne⟩ := hnull.1 hargNull
      exact ⟨hname, hitem, hne, p, hp⟩

theorem suits_iff_of_accepts_sort :
    (itemSelected.check ⟨screenContext, sorted "String"⟩).findings.rejects = false ∧
    ∃ callback ∈ itemSelected.callbacks (sorted "String").element "a.Main_", ∃ flag item,
      callback.outerCalls "a.Main_" "sortItemSelected" = [[flag, item]] ∧
      Passes callback .item "String" item ∧
      (Suits callback .item "String" item ↔ ¬ Unfilled callback .item "String") := by
  have haccepts : (itemSelected.check ⟨screenContext, sorted "String"⟩).findings.rejects = false := by
    decide +kernel
  obtain ⟨shape, hshape, hfits, hcallbacks⟩ := suits_iff_of_accepts haccepts "a.Main_"
  obtain rfl : shape = [.type "boolean", .item] := by
    simp only [handlerShapes, List.mem_cons, List.not_mem_nil, or_false] at hshape
    rcases hshape with rfl | rfl
    · exact absurd hfits (by decide)
    · rfl
  obtain ⟨args, hcalls, hlength, hargs⟩ := hcallbacks _ List.mem_cons_self
  obtain ⟨flag, item, rfl⟩ := List.length_eq_two.1 hlength
  obtain ⟨hpassed, hsuits⟩ := hargs 1 .item "String" item rfl rfl rfl
  exact ⟨haccepts, _, List.mem_cons_self, flag, item, hcalls, hpassed, hsuits⟩

theorem not_suits_null_long (callback : Method) : ¬ Suits callback .item "long" .null :=
  fun h => h.2 rfl .long (TypeRef.ofChars_keyword .long)

/-- An accepted handler is called with null for its long. -/
theorem exists_not_suits_sort :
    (itemSelected.check ⟨screenContext, sorted "long"⟩).findings.rejects = false ∧
    (sorted "long").element.paramTypes = ["boolean", "long"] ∧
    ∃ callback ∈ itemSelected.callbacks (sorted "long").element "a.Main_",
      callback.outerCalls "a.Main_" "sortItemSelected" = [[.bool false, .null]] ∧
      ¬ Suits callback .item "long" .null :=
  ⟨by decide +kernel, rfl, _, List.mem_cons_of_mem _ List.mem_cons_self, rfl,
    not_suits_null_long _⟩

end ListenerKind

end ComponentGlue
