import ComponentGlue.Proofs.Generation.Members

set_option autoImplicit false
set_option relaxedAutoImplicit false

namespace ComponentGlue

open StandardKind (leaves)

/-- What tells the methods of a type apart: the name and the parameter types. -/
structure Signature where
  name : String
  types : List TypeRef

def Method.signature (m : Method) : Signature := ⟨m.name, m.params.map Parameter.type⟩

def Element.signature (e : Element) : Signature := ⟨e.name, e.params.map fun p => .parse p.type⟩

def MethodSig.signature (m : MethodSig) : Signature := ⟨m.name, m.params.map fun p => .parse p.type⟩

theorem Element.signature_overriding (e : Element) : e.overriding.signature = e.signature := by
  simp [Method.signature, Element.signature, overriding, Method.new]

namespace GeneratedType

def signatures (t : GeneratedType) : List Signature := t.methods.map Method.signature

@[simp] theorem signatures_addMethod (t : GeneratedType) (m : Method) :
    (t.addMethod m).signatures = t.signatures ++ [m.signature] := by
  simp [signatures, addMethod]

theorem isSome_method? (t : GeneratedType) (name : String) :
    (t.method? name).isSome = t.signatures.any fun s => s.name == name := by
  rw [method?, List.isSome_find?, signatures, List.any_map]
  rfl

theorem signatures_mapMethod {t : GeneratedType} {name : String} {f : Method → Method}
    (h : ∀ m, t.method? name = some m → (f m).signature = m.signature) :
    (t.mapMethod name f).signatures = t.signatures :=
  map_updateMethod h

end GeneratedType

namespace Contribution

theorem signatures_of_changeBlock {b : CreationBlock} {f : List Statement → List Statement}
    {t t' : GeneratedType} (h : changeBlock b f t = .ok t') : t'.signatures = t.signatures := by
  obtain ⟨m, body, hm, -, rfl⟩ :=
    GeneratedType.mapBlock?_eq_some_iff.1 (changeBlock_eq_ok_iff.1 h)
  refine GeneratedType.signatures_mapMethod fun m₁ hm₁ => ?_
  obtain rfl : m₁ = m := Option.some.inj (hm₁.symm.trans hm)
  rfl

theorem signatures_of_addToReading {s : Statement} {t t' : GeneratedType}
    (h : addToReading s t = .ok t') : t'.signatures = t.signatures := by
  obtain ⟨m, body, -, -, rfl⟩ := addToReading_eq_ok_iff.1 h
  exact GeneratedType.signatures_mapMethod fun _ _ => rfl

theorem signatures_dispatch (t : GeneratedType) (element : Element) (refs : List ResourceRef) :
    ((t.ensureMethod OptionsItem.onOptionsItemSelected OptionsItem.dispatchMethod).mapMethod
      OptionsItem.onOptionsItemSelected fun m =>
        { m with body := OptionsItem.addBranches element refs m.body }).signatures =
      if t.signatures.any fun s => s.name == OptionsItem.onOptionsItemSelected then t.signatures
      else t.signatures ++ [OptionsItem.dispatchMethod.signature] := by
  refine (GeneratedType.signatures_mapMethod (by exact fun _ _ => rfl)).trans ?_
  rw [← GeneratedType.isSome_method?, GeneratedType.ensureMethod]
  split
  · rfl
  · exact t.signatures_addMethod _

theorem signatures_of_apply_extra {s : Statement} {t t' : GeneratedType}
    (h : (extra s).apply t = .ok t') : t'.signatures =
      if t.signatures.any fun s => s.name == Extra.injectExtras then t.signatures
      else t.signatures ++ [Extra.injectMethod.signature] := by
  rw [← GeneratedType.isSome_method?]
  rcases extra_cases h with ⟨hnone, t₁, hadded, h⟩ | ⟨hsome, h⟩
  · rw [hnone, if_neg (by simp), signatures_of_addToReading h, signatures_of_changeBlock hadded,
      GeneratedType.signatures_addMethod]
  · rw [if_pos hsome]
    exact signatures_of_addToReading h

end Contribution

namespace StandardKind

def sharesMethod : StandardKind → Bool
  | .optionsItem | .extra => true
  | _ => false

/-- The signature of the method that a declaration of the kind adds, or adds to. -/
def signature? (k : StandardKind) (d : Declaration) : Option Signature :=
  match k with
  | .optionsMenu => some (OptionsMenu.inflateMethod []).signature
  | .optionsItem => some OptionsItem.dispatchMethod.signature
  | .extra => some Extra.injectMethod.signature
  | .thread _ | .transaction | .request _ => some d.element.signature
  | .component | .preferenceHelper | .restClient | .boundView | .htmlText | .preferenceField
  | .resourceField _ | .listener _ | .systemService | .lifecycle _ | .applicationField => none

end StandardKind

/-- The signatures of a type to which a declaration has contributed. -/
def addSignature (sigs : List Signature) (x : StandardKind × Declaration) : List Signature :=
  match x.1.signature? x.2 with
  | none => sigs
  | some s =>
    if x.1.sharesMethod && sigs.any fun s' => s'.name == s.name then sigs else sigs ++ [s]

theorem signatures_of_leaves {s : Setting} {x : StandardKind × Declaration} {h : Holder}
    {contribution : Contribution} {t t' : GeneratedType}
    (hleaves : leaves s x = .contribution h contribution) (happly : contribution.apply t = .ok t') :
    t'.signatures = addSignature t.signatures x := by
  obtain ⟨k, d⟩ := x
  have hmethod : ∀ {fields m}, Contribution.apply (.method fields m) t = .ok t' →
      t'.signatures = t.signatures ++ [(m t).signature] := by
    intro fields m hm
    obtain rfl := Except.ok.inj hm
    rw [GeneratedType.signatures_addMethod, GeneratedType.signatures,
      (Contribution.name_addFields t fields).2]
    rfl
  cases k with
  | component | preferenceHelper | restClient => cases hleaves
  | boundView | htmlText | preferenceField | resourceField _ | listener _ | systemService
  | lifecycle _ | applicationField =>
    cases hleaves
    exact Contribution.signatures_of_changeBlock happly
  | optionsMenu =>
    cases hleaves
    exact hmethod happly
  | optionsItem =>
    cases hleaves
    obtain rfl := Except.ok.inj happly
    exact Contribution.signatures_dispatch t d.element _
  | thread k =>
    cases hleaves
    rw [hmethod happly]
    exact congrArg (fun s => t.signatures ++ [s]) d.element.signature_overriding
  | extra =>
    cases hleaves
    exact Contribution.signatures_of_apply_extra happly
  | transaction =>
    cases hleaves
    rw [hmethod happly]
    exact congrArg (fun s => t.signatures ++ [s]) d.element.signature_overriding
  | request http =>
    cases hleaves
    rw [hmethod happly]
    exact congrArg (fun s => t.signatures ++ [s]) d.element.signature_overriding

/-- The signatures that the type of the declaration has when it is put. -/
def StandardKind.ownSignatures (k : StandardKind) (d : Declaration) : List Signature :=
  match k with
  | .component => [(Component.creationMethod []).signature]
  | .preferenceHelper => d.element.methods.map fun m => ⟨m.name, []⟩
  | _ => []

theorem signatures_of_type {c : ValidationContext} {x : StandardKind × Declaration}
    {t : GeneratedType} (haccepts : c.Accepts x.1 x.2) (hleaves : leaves c.setting x = .type t) :
    t.signatures = x.1.ownSignatures x.2 := by
  obtain ⟨k, d⟩ := x
  cases k with
  | component =>
    obtain rfl := Output.type.inj hleaves
    rfl
  | preferenceHelper =>
    have haccessor : ∀ sig method, PreferenceHelper.accessor sig = .ok method →
        (⟨sig.name, []⟩ : Signature) = method.signature := by
      intro sig method hmethod
      unfold PreferenceHelper.accessor at hmethod
      dsimp only at hmethod
      split at hmethod
      · cases hmethod
      · obtain rfl := Except.ok.inj hmethod
        rfl
    have hbuilt := ((builtFor_of_leaves haccepts hleaves).helper rfl).2
    have hsigs : List.Forall₂ (fun s s' => s = s')
        (d.element.methods.map fun m => (⟨m.name, []⟩ : Signature)) t.signatures := by
      rw [GeneratedType.signatures, List.forall₂_map_left_iff, List.forall₂_map_right_iff]
      exact hbuilt.imp haccessor
    rw [List.forall₂_eq_eq_eq] at hsigs
    exact hsigs.symm
  | restClient =>
    obtain rfl := Output.type.inj hleaves
    rfl
  | _ => cases hleaves

/-- The signatures of an origin's type when it is put: those of what was put last. -/
def DeclarationModel.ownSignatures (m : DeclarationModel) (origin : String) : List Signature :=
  match lastPut m.typeSteps origin with
  | some x => x.1.ownSignatures x.2
  | none => []

def DeclarationModel.signatures (m : DeclarationModel) (origin : String) : List Signature :=
  (m.members origin).foldl addSignature (m.ownSignatures origin)

namespace StandardRun

variable (run : StandardRun)

theorem exists_signatures {origin : String} {x₀ : StandardKind × Declaration}
    (hlast : lastPut run.accepted.typeSteps origin = some x₀) : ∃ t,
    run.model.get? (run.project.generatedName origin) = some t ∧
      t.signatures = run.accepted.signatures origin := by
  have hown : run.accepted.ownSignatures origin = x₀.1.ownSignatures x₀.2 := by
    rw [DeclarationModel.ownSignatures, hlast]
  unfold DeclarationModel.signatures
  rw [hown]
  refine run.members_induct (P := fun ms t => t.signatures =
    ms.foldl addSignature (x₀.1.ownSignatures x₀.2)) hlast ?_ ?_
  · intro t hleaves _
    exact signatures_of_type (run.accepts (mem_of_lastPut hlast).1) hleaves
  · intro before y after h contribution t t' _ hsigs _ hleaves _ happly
    rw [List.foldl_append, ← hsigs]
    exact signatures_of_leaves hleaves happly

theorem signatures_of_mem {t : GeneratedType} (ht : t ∈ run.model.typeList) :
    t.signatures = run.accepted.signatures t.origin := by
  obtain ⟨hfound, x, hlast⟩ := run.exists_lastPut_of_mem ht
  obtain ⟨u, hu, hsigs⟩ := run.exists_signatures hlast
  obtain rfl : t = u := Option.some.inj (hfound.symm.trans hu)
  exact hsigs

end StandardRun

end ComponentGlue
