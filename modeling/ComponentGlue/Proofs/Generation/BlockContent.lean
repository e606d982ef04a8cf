import Mathlib.Logic.Function.Basic
import ComponentGlue.Proofs.Generation.Members

set_option autoImplicit false
set_option relaxedAutoImplicit false

namespace ComponentGlue

open StandardKind (leaves schedule)

def Setting.refs (s : Setting) (x : StandardKind × Declaration) : List ResourceRef :=
  (s.resources (x.1.rule.resources x.2)).toOption.getD []

def Extra.callReading : Statement := .run (.callHere Extra.injectExtras [])

/-- The reading method with these branches inside its guard. -/
def Extra.readingMethod (branches : List Statement) : Method :=
  { Extra.injectMethod with
    body :=
      [.declare (.named "android.os.Bundle") extras
          (.callOn (.callHere "getIntent" []) "getExtras" []),
        .branch (.notNull (.ident extras)) branches] }

/-- `onCreate` with filled blocks. -/
def Component.filledMethod (layouts : List ResourceRef) (content : CreationBlock → List Statement) :
    Method :=
  { creationMethod layouts with
    body :=
      [.labelled CreationBlock.beforeCreate.label (content .beforeCreate),
        .labelled CreationBlock.inject.label (content .inject),
        .run (.callOn .super onCreate [.ident "savedInstanceState"])] ++
      layouts.map (fun layout => .run (.callHere "setContentView" [.resource layout])) ++
      [.labelled CreationBlock.bindViews.label (content .bindViews),
        .labelled CreationBlock.bindListeners.label (content .bindListeners),
        .labelled CreationBlock.afterViews.label (content .afterViews)] }

theorem Component.isLabelled_of_mem_layouts {layouts : List ResourceRef} :
    ∀ s ∈ layouts.map fun layout => Statement.run (.callHere "setContentView" [.resource layout]),
      s.isLabelled = false := by
  intro s hs
  obtain ⟨layout, -, rfl⟩ := List.mem_map.1 hs
  rfl

theorem Component.mapBlock?_filledMethod (layouts : List ResourceRef)
    (content : CreationBlock → List Statement) (b : CreationBlock)
    (f : List Statement → List Statement) : (filledMethod layouts content).mapBlock? b.label f =
      some (filledMethod layouts (Function.update content b (f (content b)))) := by
  cases b <;>
    simp [Method.mapBlock?, filledMethod, Method.updateBlock?,
      Method.updateBlock?_append isLabelled_of_mem_layouts, CreationBlock.label]

theorem Component.block?_filledMethod (layouts : List ResourceRef)
    (content : CreationBlock → List Statement) (b : CreationBlock) :
    (filledMethod layouts content).block? b.label = some (content b) := by
  cases b <;>
    simp [Method.block?, filledMethod, Method.blockIn?, Method.blockIn?_append,
      Method.blockIn?_eq_none isLabelled_of_mem_layouts, CreationBlock.label]

namespace Creation

variable (s : Setting) (generated : String)

/-- The statements that a declaration appends to a block, whatever else the block holds. -/
def statements (b : CreationBlock) (x : StandardKind × Declaration) : List Statement :=
  let d := x.2
  let type := d.element.type.getD ""
  let into (target : CreationBlock) (added : List Statement) := if b = target then added else []
  match x.1 with
  | .boundView => into .bindViews ((s.refs x).map (BoundView.bind d (.parse type)))
  | .htmlText => into .bindViews ((s.refs x).map (HtmlText.setText d))
  | .preferenceField => into .inject [d.assignField (.new (.parse type) [.this])]
  | .resourceField k => into .inject ((s.refs x).map fun ref => d.assignField (k.value d ref))
  | .systemService => into .inject [d.assignField (SystemService.value
      ((s.project.services.qualified? type).getD type)
      ((s.project.services.constantFor? type).getD ""))]
  | .lifecycle hook => into hook.block [.run (.callHere d.element.name [])]
  | .applicationField => into .inject
      [d.assignField (.cast (.named (s.project.application.getD "")) (.callHere "getApplication" []))]
  | .component | .preferenceHelper | .restClient | .optionsMenu | .optionsItem | .listener _
  | .thread _ | .extra | .transaction | .request _ => []

/-- The branch that a declaration adds to the guard of the reading method. -/
def reads (x : StandardKind × Declaration) : List Statement :=
  match x.1 with
  | .extra =>
    [Extra.readExtra x.2 (x.2.argOrName "key") (.parse (x.2.element.type.getD ""))]
  | _ => []

/-- The listeners of a declaration, one for each of its views. -/
def listeners (x : StandardKind × Declaration) : List (ListenerKind × List Method × ResourceRef) :=
  match x.1 with
  | .listener k => (s.refs x).map fun ref => (k, k.callbacks x.2.element generated, ref)
  | _ => []

def registration (l : (ListenerKind × List Method × ResourceRef) × Nat) : List Statement :=
  l.1.1.register l.1.2.1 s!"view{2 * l.2}" l.1.2.2

def registrations (xs : List (StandardKind × Declaration)) : List Statement :=
  (xs.flatMap (listeners s generated)).zipIdx.flatMap registration

/-- The content of the block that injects fields. The reading of extras is called once, where the first
extra stands. -/
def injections : List (StandardKind × Declaration) → List Statement
  | [] => []
  | (.extra, _) :: xs => Extra.callReading :: xs.flatMap (statements s .inject)
  | x :: xs => statements s .inject x ++ injections xs

/-- The content of each block. -/
def content (xs : List (StandardKind × Declaration)) : CreationBlock → List Statement
  | .inject => injections s xs
  | .bindListeners => registrations s generated xs
  | b => xs.flatMap (statements s b)

variable {s generated} {xs : List (StandardKind × Declaration)} {x : StandardKind × Declaration}

theorem registrations_append (ys : List (StandardKind × Declaration)) :
    registrations s generated (xs ++ ys) = registrations s generated xs ++
      ((ys.flatMap (listeners s generated)).zipIdx (xs.flatMap (listeners s generated)).length).flatMap
        registration := by
  rw [registrations, List.flatMap_append, List.zipIdx_append, List.flatMap_append, Nat.zero_add]
  rfl

theorem length_flatMap_registration (ls : List (ListenerKind × List Method × ResourceRef)) (n : Nat) :
    ((ls.zipIdx n).flatMap registration).length = 2 * ls.length := by
  induction ls generalizing n with
  | nil => rfl
  | cons l ls ih =>
    rw [List.zipIdx_cons, List.flatMap_cons, List.length_append, ih, List.length_cons]
    show 2 + _ = _
    omega

theorem length_registrations (xs : List (StandardKind × Declaration)) :
    (registrations s generated xs).length = 2 * (xs.flatMap (listeners s generated)).length :=
  length_flatMap_registration _ 0

theorem registerAll_eq (k : ListenerKind) (callbacks : List Method) (refs : List ResourceRef)
    {block : List Statement} {n : Nat} (h : block.length = 2 * n) :
    k.registerAll callbacks refs block =
      block ++ ((refs.map fun ref => (k, callbacks, ref)).zipIdx n).flatMap registration := by
  induction refs generalizing block n with
  | nil => exact (List.append_nil block).symm
  | cons ref refs ih =>
    have hnext : (block ++ k.register callbacks s!"view{block.length}" ref).length = 2 * (n + 1) := by
      rw [List.length_append, h]
      show 2 * n + 2 = _
      omega
    rw [ListenerKind.registerAll, List.foldl_cons]
    refine (ih hnext).trans ?_
    rw [List.map_cons, List.zipIdx_cons, List.flatMap_cons, List.append_assoc, h]
    rfl

theorem injections_cons_of_reads_eq_nil (h : reads x = []) (xs : List (StandardKind × Declaration)) :
    injections s (x :: xs) = statements s .inject x ++ injections s xs := by
  obtain ⟨k, d⟩ := x
  cases k with
  | extra => cases h
  | _ => rfl

theorem injections_cons_of_reads_ne_nil (h : reads x ≠ []) (xs : List (StandardKind × Declaration)) :
    injections s (x :: xs) = Extra.callReading :: xs.flatMap (statements s .inject) := by
  obtain ⟨k, d⟩ := x
  cases k with
  | extra => rfl
  | _ => exact absurd rfl h

theorem injections_append_of_reads_eq_nil (h : xs.flatMap reads = [])
    (ys : List (StandardKind × Declaration)) :
    injections s (xs ++ ys) = xs.flatMap (statements s .inject) ++ injections s ys := by
  induction xs with
  | nil => rfl
  | cons x xs ih =>
    obtain ⟨hx, hxs⟩ := List.append_eq_nil_iff.1 (List.flatMap_cons ▸ h)
    rw [List.cons_append, injections_cons_of_reads_eq_nil hx, ih hxs, List.flatMap_cons,
      List.append_assoc]

theorem injections_append_of_reads_ne_nil (h : xs.flatMap reads ≠ [])
    (ys : List (StandardKind × Declaration)) :
    injections s (xs ++ ys) = injections s xs ++ ys.flatMap (statements s .inject) := by
  induction xs with
  | nil => exact absurd rfl h
  | cons x xs ih =>
    by_cases hx : reads x = []
    · have hxs : xs.flatMap reads ≠ [] := fun hxs => h (by rw [List.flatMap_cons, hx, hxs]; rfl)
      rw [List.cons_append, injections_cons_of_reads_eq_nil hx, ih hxs,
        injections_cons_of_reads_eq_nil hx, List.append_assoc]
    · rw [List.cons_append, injections_cons_of_reads_ne_nil hx, injections_cons_of_reads_ne_nil hx,
        List.flatMap_append]
      rfl

theorem injections_of_reads_eq_nil (h : xs.flatMap reads = []) :
    injections s xs = xs.flatMap (statements s .inject) := by
  have happend := injections_append_of_reads_eq_nil (s := s) h []
  rwa [List.append_nil, injections, List.append_nil] at happend

theorem injections_snoc (h : reads x = []) :
    injections s (xs ++ [x]) = injections s xs ++ statements s .inject x := by
  by_cases hreads : xs.flatMap reads = []
  · rw [injections_append_of_reads_eq_nil hreads, injections_cons_of_reads_eq_nil h,
      injections_of_reads_eq_nil hreads, injections, List.append_nil]
  · rw [injections_append_of_reads_ne_nil hreads, List.flatMap_singleton]

theorem content_snoc (hreads : reads x = []) (hlisteners : listeners s generated x = [])
    (b : CreationBlock) :
    content s generated (xs ++ [x]) b = content s generated xs b ++ statements s b x := by
  cases b with
  | inject => exact injections_snoc hreads
  | bindListeners =>
    have hnone : statements s .bindListeners x = [] := by
      obtain ⟨k, d⟩ := x
      cases k with
      | lifecycle hook => cases hook <;> rfl
      | _ => rfl
    refine (registrations_append [x]).trans ?_
    rw [List.flatMap_singleton, hlisteners, hnone]
    rfl
  | beforeCreate | bindViews | afterViews => simp [content]

theorem content_snoc_append {b : CreationBlock} {added : List Statement} (hreads : reads x = [])
    (hlisteners : listeners s generated x = [])
    (hadded : ∀ b', statements s b' x = if b' = b then added else []) :
    content s generated (xs ++ [x]) = Function.update (content s generated xs) b
      (content s generated xs b ++ added) := by
  funext b'
  rw [content_snoc hreads hlisteners, hadded]
  by_cases hb : b' = b
  · subst hb
    rw [if_pos rfl, Function.update_self]
  · rw [if_neg hb, Function.update_of_ne hb, List.append_nil]

theorem content_snoc_nil (hreads : reads x = []) (hlisteners : listeners s generated x = [])
    (hnone : ∀ b, statements s b x = []) :
    content s generated (xs ++ [x]) = content s generated xs := by
  funext b
  rw [content_snoc hreads hlisteners, hnone, List.append_nil]

/-- An extra adds the call of the reading method if it is the first one. -/
theorem content_snoc_extra (d : Declaration) : content s generated (xs ++ [(.extra, d)]) =
    if (xs.flatMap reads).isEmpty then Function.update (content s generated xs) .inject
      (content s generated xs .inject ++ [Extra.callReading])
    else content s generated xs := by
  have hothers : ∀ b, b ≠ CreationBlock.inject →
      content s generated (xs ++ [(.extra, d)]) b = content s generated xs b := by
    intro b hb
    cases b with
    | inject => exact absurd rfl hb
    | bindListeners =>
      refine (registrations_append [(.extra, d)]).trans ?_
      exact List.append_nil _
    | beforeCreate | bindViews | afterViews => simp [content, statements]
  -- The call of the reading method is added with the first extra, and to its block only.
  split
  · next hnone =>
    have hreads : xs.flatMap reads = [] := List.isEmpty_iff.1 hnone
    funext b
    by_cases hb : b = .inject
    · subst hb
      rw [Function.update_self]
      show injections s (xs ++ [(.extra, d)]) = injections s xs ++ [Extra.callReading]
      rw [injections_append_of_reads_eq_nil hreads, injections_of_reads_eq_nil hreads]
      rfl
    · rw [Function.update_of_ne hb, hothers b hb]
  · next hsome =>
    have hreads : xs.flatMap reads ≠ [] := fun h => hsome (List.isEmpty_iff.2 h)
    funext b
    by_cases hb : b = .inject
    · subst hb
      show injections s (xs ++ [(.extra, d)]) = injections s xs
      rw [injections_append_of_reads_ne_nil hreads]
      exact List.append_nil _
    · exact hothers b hb

theorem content_snoc_listener (k : ListenerKind) (d : Declaration) :
    content s generated (xs ++ [(.listener k, d)]) = Function.update (content s generated xs)
      .bindListeners (k.registerAll (k.callbacks d.element generated) (s.refs (.listener k, d))
        (content s generated xs .bindListeners)) := by
  funext b
  by_cases hb : b = .bindListeners
  · subst hb
    rw [Function.update_self]
    show registrations s generated (xs ++ [(.listener k, d)]) = _
    rw [registrations_append]
    refine Eq.trans ?_ (registerAll_eq k _ _ (length_registrations xs)).symm
    rw [List.flatMap_singleton]
    rfl
  · rw [Function.update_of_ne hb]
    cases b with
    | bindListeners => exact absurd rfl hb
    | inject => exact (injections_snoc rfl).trans (List.append_nil _)
    | beforeCreate | bindViews | afterViews => simp [content, statements]

section Filter

variable {α β : Type} {p : α → Bool} {f : α → List β} {l : List α}

theorem flatMap_filter_of_eq_nil (h : ∀ a, p a = false → f a = []) :
    (l.filter p).flatMap f = l.flatMap f := by
  induction l with
  | nil => rfl
  | cons a l ih =>
    by_cases ha : p a = true
    · rw [List.filter_cons_of_pos ha, List.flatMap_cons, List.flatMap_cons, ih]
    · rw [List.filter_cons_of_neg ha, ih, List.flatMap_cons, h a (Bool.eq_false_iff.2 ha),
        List.nil_append]

end Filter

def fills (x : StandardKind × Declaration) : Bool := x.1.needsBlocks

theorem statements_of_not_fills (h : fills x = false) (b : CreationBlock) : statements s b x = [] := by
  obtain ⟨k, d⟩ := x
  cases k
  case boundView | htmlText | preferenceField | resourceField | systemService | lifecycle |
    applicationField => cases h
  all_goals rfl

theorem reads_of_not_fills (h : fills x = false) : reads x = [] := by
  obtain ⟨k, d⟩ := x
  cases k
  case extra => cases h
  all_goals rfl

theorem listeners_of_not_fills (h : fills x = false) : listeners s generated x = [] := by
  obtain ⟨k, d⟩ := x
  cases k
  case listener => cases h
  all_goals rfl

theorem flatMap_statements_filter (b : CreationBlock) (xs : List (StandardKind × Declaration)) :
    (xs.filter fills).flatMap (statements s b) = xs.flatMap (statements s b) :=
  flatMap_filter_of_eq_nil fun _ h => statements_of_not_fills h b

theorem injections_filter (xs : List (StandardKind × Declaration)) :
    injections s (xs.filter fills) = injections s xs := by
  induction xs with
  | nil => rfl
  | cons x xs ih =>
    by_cases hfills : fills x = true
    · rw [List.filter_cons_of_pos hfills]
      by_cases hx : reads x = []
      · rw [injections_cons_of_reads_eq_nil hx, injections_cons_of_reads_eq_nil hx, ih]
      · rw [injections_cons_of_reads_ne_nil hx, injections_cons_of_reads_ne_nil hx,
          flatMap_statements_filter]
    · have hnot : fills x = false := Bool.eq_false_iff.2 hfills
      rw [List.filter_cons_of_neg hfills, ih,
        injections_cons_of_reads_eq_nil (reads_of_not_fills hnot), statements_of_not_fills hnot,
        List.nil_append]

theorem content_filter (xs : List (StandardKind × Declaration)) :
    content s generated (xs.filter fills) = content s generated xs := by
  funext b
  cases b with
  | inject => exact injections_filter xs
  | bindListeners =>
    show registrations s generated (xs.filter fills) = registrations s generated xs
    rw [registrations, flatMap_filter_of_eq_nil fun _ => listeners_of_not_fills, registrations]
  | beforeCreate | bindViews | afterViews => exact flatMap_statements_filter _ xs

end Creation

end ComponentGlue
