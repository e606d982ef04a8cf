import ComponentGlue.Proofs.Code.GeneratedType

set_option autoImplicit false
set_option relaxedAutoImplicit false

namespace ComponentGlue

mutual
/-- The resources that a statement refers to at any depth, from left to right with repeats. -/
def Statement.references : Statement → List ResourceRef
  | .run e => e.references
  | .assign target value => target.references ++ value.references
  | .declare _ _ value => value.references
  | .ret value => Expr.referencesOption value
  | .branch condition body => condition.references ++ Statement.referencesAll body
  | .tryFinally body cleanup => Statement.referencesAll body ++ Statement.referencesAll cleanup
  | .labelled _ body => Statement.referencesAll body

def Statement.referencesAll : List Statement → List ResourceRef
  | [] => []
  | s :: rest => s.references ++ Statement.referencesAll rest

def Expr.references : Expr → List ResourceRef
  | .this | .super | .null | .ident _ | .literal _ | .staticField _ _ | .classLiteral _ => []
  | .field target _ => target.references
  | .call target _ args => Expr.referencesOption target ++ Expr.referencesAll args
  | .new _ args => Expr.referencesAll args
  | .cast _ e => e.references
  | .concat parts => Expr.referencesAll parts
  | .notNull e => e.references
  | .equals left right => left.references ++ right.references
  | .resource ref => [ref]
  | .anonymous _ methods => Method.referencesAll methods

def Expr.referencesOption : Option Expr → List ResourceRef
  | none => []
  | some e => e.references

def Expr.referencesAll : List Expr → List ResourceRef
  | [] => []
  | e :: es => e.references ++ Expr.referencesAll es

def Method.references : Method → List ResourceRef
  | ⟨_, _, _, _, _, _, _, _, body⟩ => Statement.referencesAll body

def Method.referencesAll : List Method → List ResourceRef
  | [] => []
  | m :: ms => m.references ++ Method.referencesAll ms
end

attribute [simp] Statement.references Statement.referencesAll Expr.references Expr.referencesOption
  Expr.referencesAll Method.referencesAll

namespace Expr

@[simp] theorem references_str (s : String) : (str s).references = [] := rfl

@[simp] theorem references_int (i : Int) : (int i).references = [] := rfl

@[simp] theorem references_bool (b : Bool) : (bool b).references = [] := rfl

@[simp] theorem references_thisField (name : String) : (thisField name).references = [] := rfl

@[simp] theorem references_callHere (method : String) (args : List Expr) :
    (callHere method args).references = referencesAll args := rfl

@[simp] theorem references_callOn (target : Expr) (method : String) (args : List Expr) :
    (callOn target method args).references = target.references ++ referencesAll args := rfl

end Expr

def Field.references (f : Field) : List ResourceRef := Expr.referencesOption f.init

def Constructor.references (c : Constructor) : List ResourceRef := Statement.referencesAll c.body

def GeneratedType.references (t : GeneratedType) : List ResourceRef :=
  t.fields.flatMap Field.references ++ t.constructors.flatMap Constructor.references ++
    t.methods.flatMap Method.references

def GenerationModel.references (m : GenerationModel) : List ResourceRef :=
  m.typeList.flatMap GeneratedType.references

theorem Statement.referencesAll_eq_flatMap (body : List Statement) :
    Statement.referencesAll body = body.flatMap Statement.references := by
  induction body with
  | nil => rfl
  | cons s rest ih => rw [Statement.referencesAll, ih, List.flatMap_cons]

theorem Expr.referencesAll_eq_flatMap (es : List Expr) :
    Expr.referencesAll es = es.flatMap Expr.references := by
  induction es with
  | nil => rfl
  | cons e es ih => rw [Expr.referencesAll, ih, List.flatMap_cons]

@[simp] theorem Statement.referencesAll_append (body body' : List Statement) :
    Statement.referencesAll (body ++ body') =
      Statement.referencesAll body ++ Statement.referencesAll body' := by
  simp only [Statement.referencesAll_eq_flatMap, List.flatMap_append]

@[simp] theorem Expr.referencesAll_append (es es' : List Expr) :
    Expr.referencesAll (es ++ es') = Expr.referencesAll es ++ Expr.referencesAll es' := by
  simp only [Expr.referencesAll_eq_flatMap, List.flatMap_append]

theorem Expr.referencesAll_map_eq_nil {α : Type} {f : α → Expr} (h : ∀ x, (f x).references = [])
    (l : List α) : Expr.referencesAll (l.map f) = [] := by
  rw [Expr.referencesAll_eq_flatMap, List.flatMap_eq_nil_iff]
  intro e he
  obtain ⟨x, -, rfl⟩ := List.mem_map.1 he
  exact h x

theorem Method.referencesAll_eq_flatMap (ms : List Method) :
    Method.referencesAll ms = ms.flatMap Method.references := by
  induction ms with
  | nil => rfl
  | cons m ms ih => rw [Method.referencesAll, ih, List.flatMap_cons]

@[simp] theorem Method.references_eq (m : Method) : m.references = Statement.referencesAll m.body := by
  cases m
  rfl

variable {P : ResourceRef → Prop}

def Statement.Within (P : ResourceRef → Prop) (body : List Statement) : Prop :=
  ∀ r ∈ Statement.referencesAll body, P r

namespace Statement

theorem within_of_eq_nil {body : List Statement} (h : referencesAll body = []) : Within P body :=
  fun _ hr => absurd (h ▸ hr) List.not_mem_nil

theorem within_iff {body : List Statement} :
    Within P body ↔ ∀ s ∈ body, ∀ r ∈ s.references, P r := by
  unfold Within
  rw [referencesAll_eq_flatMap]
  constructor
  · exact fun h s hs r hr => h r (List.mem_flatMap.2 ⟨s, hs, hr⟩)
  · intro h r hr
    obtain ⟨s, hs, hr⟩ := List.mem_flatMap.1 hr
    exact h s hs r hr

theorem within_append {body body' : List Statement} :
    Within P (body ++ body') ↔ Within P body ∧ Within P body' := by
  simp only [within_iff, List.forall_mem_append]

theorem within_singleton {s : Statement} : Within P [s] ↔ ∀ r ∈ s.references, P r := by
  simp only [within_iff, List.forall_mem_singleton]

theorem within_labelled {label : String} {body : List Statement} :
    Within P [.labelled label body] ↔ Within P body :=
  within_singleton.trans Iff.rfl

theorem within_map {refs : List ResourceRef} (h : ∀ r ∈ refs, P r) {f : ResourceRef → Statement}
    (hf : ∀ ref, ∀ r ∈ (f ref).references, r = ref) : Within P (refs.map f) := by
  rw [within_iff]
  intro s hs r hr
  obtain ⟨ref, href, rfl⟩ := List.mem_map.1 hs
  exact hf ref r hr ▸ h ref href

end Statement

theorem Method.within_updateBlock? {label : String} {f : List Statement → List Statement}
    (hf : ∀ inner, Statement.Within P inner → Statement.Within P (f inner))
    {body body' : List Statement} (h : updateBlock? label f body = some body')
    (hbody : Statement.Within P body) : Statement.Within P body' := by
  induction body generalizing body' with
  | nil => cases h
  | cons s rest ih =>
    have hs : Statement.Within P [s] ∧ Statement.Within P rest :=
      Statement.within_append.1 (show Statement.Within P ([s] ++ rest) from hbody)
    have hskip : ∀ {rest'}, updateBlock? label f rest = some rest' →
        Statement.Within P (s :: rest') := fun hrest =>
      Statement.within_append.2 ⟨hs.1, ih hrest hs.2⟩
    cases s with
    | labelled l inner =>
      rw [updateBlock?] at h
      split at h
      · obtain rfl := Option.some.inj h
        have hinner : Statement.Within P (f inner) := hf inner (Statement.within_labelled.1 hs.1)
        exact Statement.within_append.2 ⟨Statement.within_labelled.2 hinner, hs.2⟩
      · obtain ⟨rest', hrest, rfl⟩ := Option.map_eq_some_iff.1 h
        exact hskip hrest
    | run _ | assign _ _ | declare _ _ _ | ret _ | branch _ _ | tryFinally _ _ =>
      obtain ⟨rest', hrest, rfl⟩ := Option.map_eq_some_iff.1 h
      exact hskip hrest

namespace GeneratedType

/-- All references of a type are of a kind. -/
structure Within (P : ResourceRef → Prop) (t : GeneratedType) : Prop where
  fields : ∀ f ∈ t.fields, ∀ r ∈ f.references, P r
  constructors : ∀ c ∈ t.constructors, Statement.Within P c.body
  methods : ∀ m ∈ t.methods, Statement.Within P m.body

theorem within_iff {t : GeneratedType} : t.Within P ↔ ∀ r ∈ t.references, P r := by
  unfold references
  constructor
  · intro h r hr
    rcases List.mem_append.1 hr with hr | hr
    · rcases List.mem_append.1 hr with hr | hr
      · obtain ⟨f, hf, hr⟩ := List.mem_flatMap.1 hr
        exact h.fields f hf r hr
      · obtain ⟨c, hc, hr⟩ := List.mem_flatMap.1 hr
        exact h.constructors c hc r hr
    · obtain ⟨m, hm, hr⟩ := List.mem_flatMap.1 hr
      exact h.methods m hm r (m.references_eq ▸ hr)
  · intro h
    constructor
    · exact fun f hf r hr => h r (List.mem_append_left _ (List.mem_append_left _
        (List.mem_flatMap.2 ⟨f, hf, hr⟩)))
    · exact fun c hc r hr => h r (List.mem_append_left _ (List.mem_append_right _
        (List.mem_flatMap.2 ⟨c, hc, hr⟩)))
    · exact fun m hm r hr => h r (List.mem_append_right _
        (List.mem_flatMap.2 ⟨m, hm, m.references_eq ▸ hr⟩))

variable {t t' : GeneratedType}

theorem within_addField (h : t.Within P) {f : Field} (hf : ∀ r ∈ f.references, P r) :
    (t.addField f).Within P := by
  unfold addField
  split
  · exact h
  · refine ⟨fun f' hf' => ?_, h.constructors, h.methods⟩
    rcases List.mem_append.1 hf' with hf' | hf'
    · exact h.fields f' hf'
    · rw [List.mem_singleton.1 hf']
      exact hf

theorem within_addFields (h : t.Within P) {fields : List Field}
    (hfields : ∀ f ∈ fields, ∀ r ∈ f.references, P r) :
    (fields.foldl addField t).Within P := by
  induction fields generalizing t with
  | nil => exact h
  | cons f fields ih =>
    rw [List.forall_mem_cons] at hfields
    exact ih (within_addField h hfields.1) hfields.2

theorem within_addMethod (h : t.Within P) {m : Method} (hm : Statement.Within P m.body) :
    (t.addMethod m).Within P := by
  refine ⟨h.fields, h.constructors, fun m' hm' => ?_⟩
  rcases List.mem_append.1 hm' with hm' | hm'
  · exact h.methods m' hm'
  · rw [List.mem_singleton.1 hm']
    exact hm

theorem within_mapMethod (h : t.Within P) {name : String} {f : Method → Method}
    (hf : ∀ m ∈ t.methods, m.name = name → Statement.Within P m.body →
      Statement.Within P (f m).body) : (t.mapMethod name f).Within P := by
  refine ⟨h.fields, h.constructors, fun m hm => ?_⟩
  rcases mem_updateMethod hm with hm | ⟨m', hm', hname, rfl⟩
  · exact h.methods m hm
  · exact hf m' hm' hname (h.methods m' hm')

theorem within_mapBlock? (h : t.Within P) {method label : String}
    {f : List Statement → List Statement}
    (hf : ∀ inner, Statement.Within P inner → Statement.Within P (f inner))
    (hchanged : t.mapBlock? method label f = some t') : t'.Within P := by
  obtain ⟨m, body, hm, hupdate, rfl⟩ := mapBlock?_eq_some_iff.1 hchanged
  refine within_mapMethod h fun _ _ _ _ => ?_
  exact Method.within_updateBlock? hf hupdate (h.methods m (List.mem_of_find?_eq_some hm))

end GeneratedType

end ComponentGlue
