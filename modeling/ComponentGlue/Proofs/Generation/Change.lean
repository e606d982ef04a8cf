import ComponentGlue.Proofs.Generation.Contribution
import ComponentGlue.Proofs.Generation.Schedule
import ComponentGlue.Proofs.Table

set_option autoImplicit false
set_option relaxedAutoImplicit false

namespace ComponentGlue

/-- How a later rule finds a type: by its component or by its REST interface. -/
inductive Holder where
  | component (origin : String)
  | restClient (interface : String)

namespace Holder

def origin : Holder → String
  | .component origin => origin
  | .restClient interface => interface

def name? (a : Assembly) : Holder → Option String
  | .component origin => a.components.get? origin
  | .restClient interface => a.restClients.get? interface

/-- The fault of a type that is not held. -/
def missing : Holder → Fault
  | .component origin => .noComponent origin
  | .restClient interface => .noRestClient interface

/-- The name that the holder has for its type, and the type. -/
structure Holds (h : Holder) (a : Assembly) (name : String) (t : GeneratedType) : Prop where
  held : h.name? a = some name
  found : a.model.get? name = some t

end Holder

def Assembly.put (a : Assembly) (name : String) (t : GeneratedType) : Assembly :=
  { a with model := a.model.modify name fun _ => t }

namespace GenerationModel

variable {m : GenerationModel} {name : String} {t : GeneratedType}

theorem get?_insert (m : GenerationModel) (t : GeneratedType) (name : String) :
    (m.insert t).get? name = if t.name = name then some t else m.get? name :=
  m.types.get?_insert t.name name t

theorem get?_replace (h : m.get? name = some t) (t' : GeneratedType) (name' : String) :
    (m.modify name fun _ => t').get? name' = if name' = name then some t' else m.get? name' := by
  refine (m.types.get?_modify name name' fun _ => t').trans ?_
  by_cases hname : name' = name
  · have hfound : m.types.get? name' = some t := hname ▸ h
    rw [if_pos hname, if_pos hname, hfound, Option.map_some]
  · rw [if_neg hname, if_neg hname]
    rfl

end GenerationModel

namespace Assembly

variable {a : Assembly} {name : String} {t : GeneratedType}

theorem get?_put (h : a.model.get? name = some t) (t' : GeneratedType) (name' : String) :
    (a.put name t').model.get? name' = if name' = name then some t' else a.model.get? name' :=
  GenerationModel.get?_replace h t' name'

theorem put_put (a : Assembly) (name : String) (t t' : GeneratedType) :
    (a.put name t).put name t' = a.put name t' := by
  have hmodify := a.model.types.modify_modify name (fun _ => t) fun _ => t'
  unfold put GenerationModel.modify
  rw [hmodify]

theorem put_self (h : a.model.get? name = some t) : a.put name t = a := by
  have hmodify : a.model.types.modify name (fun _ => t) = a.model.types :=
    Table.modify_eq_self h
  unfold put GenerationModel.modify
  rw [hmodify]

theorem modify_eq_put (h : a.model.get? name = some t) (f : GeneratedType → GeneratedType) :
    { a with model := a.model.modify name f } = a.put name (f t) := by
  have hmodify : a.model.types.modify name f = a.model.types.modify name fun _ => f t :=
    Table.modify_congr h rfl
  unfold put GenerationModel.modify
  rw [hmodify]

theorem holds_put {h : Holder} (hholds : h.Holds a name t) (t' : GeneratedType) :
    h.Holds (a.put name t') name t' := by
  constructor
  · cases h <;> exact hholds.held
  · rw [get?_put hholds.found, if_pos rfl]

end Assembly

namespace Assemble

/-- The computation changes the held type in this way and nothing else. -/
structure Changes (x : Assemble Unit) (h : Holder)
    (change : GeneratedType → Except Fault GeneratedType) : Prop where
  changed : ∀ {a name t t'}, h.Holds a name t → change t = .ok t' → x a = (.ok (), a.put name t')
  refused : ∀ {a name t f}, h.Holds a name t → change t = .error f →
    (x a).1 = .error (.fault f)

theorem exists_eq_of_fst_eq {x : Assemble Unit} {a : Assembly} {r : Except Interruption Unit}
    (h : (x a).1 = r) : ∃ b, x a = (r, b) :=
  ⟨(x a).2, Prod.ext h rfl⟩

theorem Changes.congr {x : Assemble Unit} {h : Holder}
    {f g : GeneratedType → Except Fault GeneratedType} (hx : Changes x h f) (hfg : ∀ t, f t = g t) :
    Changes x h g :=
  funext hfg ▸ hx

theorem Changes.bind {x y : Assemble Unit} {h : Holder}
    {f g : GeneratedType → Except Fault GeneratedType} (hx : Changes x h f) (hy : Changes y h g) :
    Changes (do x; y) h fun t => (f t).bind g := by
  constructor
  · intro a name t t' hholds hok
    cases hf : f t with
    | error e =>
      rw [hf] at hok
      cases hok
    | ok u =>
      rw [hf] at hok
      rw [bind_eq_of_ok (hx.changed hholds hf)]
      refine (hy.changed (Assembly.holds_put hholds u) hok).trans ?_
      rw [Assembly.put_put]
  · intro a name t e hholds herror
    cases hf : f t with
    | error e' =>
      rw [hf] at herror
      obtain rfl := Except.error.inj herror
      obtain ⟨b, hb⟩ := exists_eq_of_fst_eq (hx.refused hholds hf)
      rw [bind_eq_of_error hb]
    | ok u =>
      rw [hf] at herror
      rw [bind_eq_of_ok (hx.changed hholds hf)]
      exact hy.refused (Assembly.holds_put hholds u) herror

theorem changes_pure (h : Holder) : Changes (pure ()) h .ok := by
  constructor
  · intro a name t t' hholds hok
    obtain rfl := Except.ok.inj hok
    rw [Assembly.put_self hholds.found]
    rfl
  · intro a name t f _ herror
    cases herror

theorem changes_fault (h : Holder) (f : Fault) : Changes (fault f) h fun _ => .error f := by
  constructor
  · intro a name t t' _ hok
    cases hok
  · intro a name t f' _ herror
    obtain rfl := Except.error.inj herror
    rfl

theorem Changes.during {x : Assemble Unit} {h : Holder}
    {f : GeneratedType → Except Fault GeneratedType} (hx : Changes x h f) (activity : Activity) :
    Changes (Assemble.during activity x) h fun t => (f t).mapError (.during activity) := by
  constructor
  · intro a name t t' hholds hok
    cases hf : f t with
    | error e =>
      rw [hf] at hok
      cases hok
    | ok u =>
      rw [hf] at hok
      obtain rfl := Except.ok.inj hok
      unfold Assemble.during
      rw [hx.changed hholds hf]
  · intro a name t e hholds herror
    cases hf : f t with
    | error e' =>
      rw [hf] at herror
      obtain rfl := Except.error.inj herror
      obtain ⟨b, hb⟩ := exists_eq_of_fst_eq (hx.refused hholds hf)
      unfold Assemble.during
      rw [hb]
      rfl
    | ok u =>
      rw [hf] at herror
      cases herror

variable {origin : String}

theorem componentName_of_holds {a : Assembly} {name : String} {t : GeneratedType}
    (h : (Holder.component origin).Holds a name t) : componentName origin a = (.ok name, a) := by
  have hheld : a.components.get? origin = some name := h.held
  unfold componentName
  rw [hheld]
  rfl

theorem restClientName_of_holds {a : Assembly} {name : String} {t : GeneratedType}
    (h : (Holder.restClient origin).Holds a name t) : restClientName origin a = (.ok name, a) := by
  have hheld : a.restClients.get? origin = some name := h.held
  unfold restClientName
  rw [hheld]
  rfl

theorem generatedType_of_holds {h : Holder} {a : Assembly} {name : String} {t : GeneratedType}
    (hholds : h.Holds a name t) : generatedType name a = (.ok t, a) := by
  unfold generatedType
  rw [hholds.found]
  rfl

theorem componentType_of_holds {a : Assembly} {name : String} {t : GeneratedType}
    (h : (Holder.component origin).Holds a name t) : componentType origin a = (.ok t, a) :=
  (bind_eq_of_ok (componentName_of_holds h)).trans (generatedType_of_holds h)

theorem changes_componentType {x : GeneratedType → Assemble Unit}
    {f : GeneratedType → GeneratedType → Except Fault GeneratedType}
    (hx : ∀ t, Changes (x t) (.component origin) (f t)) :
    Changes (do let t ← componentType origin; x t) (.component origin) fun t => f t t := by
  constructor
  · intro a name t t' hholds hok
    rw [bind_eq_of_ok (componentType_of_holds hholds)]
    exact (hx t).changed hholds hok
  · intro a name t e hholds herror
    rw [bind_eq_of_ok (componentType_of_holds hholds)]
    exact (hx t).refused hholds herror

theorem changes_modifyComponent (f : GeneratedType → GeneratedType) :
    Changes (modifyComponent origin f) (.component origin) fun t => .ok (f t) := by
  constructor
  · intro a name t t' hholds hok
    obtain rfl := Except.ok.inj hok
    unfold modifyComponent
    rw [bind_eq_of_ok (componentName_of_holds hholds), bind_eq_of_ok (generatedType_of_holds hholds)]
    exact congrArg _ (Assembly.modify_eq_put hholds.found f)
  · intro a name t e _ herror
    cases herror

theorem changes_modifyRestClient (f : GeneratedType → GeneratedType) :
    Changes (modifyRestClient origin f) (.restClient origin) fun t => .ok (f t) := by
  constructor
  · intro a name t t' hholds hok
    obtain rfl := Except.ok.inj hok
    unfold modifyRestClient
    rw [bind_eq_of_ok (restClientName_of_holds hholds),
      bind_eq_of_ok (generatedType_of_holds hholds)]
    exact congrArg _ (Assembly.modify_eq_put hholds.found f)
  · intro a name t e _ herror
    cases herror

theorem changes_modifyCreation (b : CreationBlock) (f : List Statement → List Statement) :
    Changes (modifyCreation origin b f) (.component origin) (Contribution.changeBlock b f) := by
  have hread : ∀ {a name t}, (Holder.component origin).Holds a name t →
      modifyCreation origin b f a =
        (do
          let changed ← orFault (.noBlock t.name onCreate b.label) (t.mapBlock? onCreate b.label f)
          modifyType name fun _ => changed : Assemble Unit) a := by
    intro a name t hholds
    unfold modifyCreation
    rw [bind_eq_of_ok (componentName_of_holds hholds), bind_eq_of_ok (generatedType_of_holds hholds)]
  constructor
  · intro a name t t' hholds hok
    rw [hread hholds]
    unfold Contribution.changeBlock at hok
    cases hmap : t.mapBlock? onCreate b.label f with
    | none =>
      rw [hmap] at hok
      cases hok
    | some changed =>
      rw [hmap] at hok
      obtain rfl := Except.ok.inj hok
      rfl
  · intro a name t e hholds herror
    rw [hread hholds]
    unfold Contribution.changeBlock at herror
    cases hmap : t.mapBlock? onCreate b.label f with
    | none =>
      rw [hmap] at herror
      obtain rfl := Except.error.inj herror
      rfl
    | some changed =>
      rw [hmap] at herror
      cases herror

theorem changes_appendCreation (b : CreationBlock) (s : Statement) :
    Changes (appendCreation origin b s) (.component origin)
      (Contribution.changeBlock b (· ++ [s])) :=
  changes_modifyCreation b _

end Assemble

end ComponentGlue
