import ComponentGlue.Proofs.Code.GeneratedType
import ComponentGlue.Rule.Standard

/-!
Contributions: what a declaration adds to a type that an earlier rule generated. A contribution to a
block needs the creation method with its blocks, and an extra needs in addition that a method of the
name of the reading method is one to which it can add.
-/

set_option autoImplicit false
set_option relaxedAutoImplicit false

namespace ComponentGlue

inductive Contribution where
  | block (b : CreationBlock) (f : GeneratedType → List Statement → List Statement)
  | method (fields : List Field) (m : GeneratedType → Method)
  | dispatch (element : Element) (refs : List ResourceRef)
  | extra (s : Statement)

namespace Contribution

/-- Change a block of the creation method. -/
def changeBlock (b : CreationBlock) (f : List Statement → List Statement) (t : GeneratedType) :
    Except Fault GeneratedType :=
  match t.mapBlock? onCreate b.label f with
  | none => .error (.noBlock t.name onCreate b.label)
  | some t' => .ok t'

def addToReading (s : Statement) (t : GeneratedType) : Except Fault GeneratedType :=
  match (t.method? Extra.injectExtras).bind fun m => Extra.addToGuard? s m.body with
  | none => .error (.lostExtrasGuard t.name Extra.injectExtras)
  | some body => .ok (t.mapMethod Extra.injectExtras fun m => { m with body })

/-- Make the contribution to a type. -/
def apply : Contribution → GeneratedType → Except Fault GeneratedType
  | .block b f, t => changeBlock b (f t) t
  | .method fields m, t => .ok ((fields.foldl GeneratedType.addField t).addMethod (m t))
  | .dispatch element refs, t =>
    .ok ((t.ensureMethod OptionsItem.onOptionsItemSelected OptionsItem.dispatchMethod).mapMethod
      OptionsItem.onOptionsItemSelected fun m =>
        { m with body := OptionsItem.addBranches element refs m.body })
  | .extra s, t =>
    if (t.method? Extra.injectExtras).isNone then
      (changeBlock .inject (· ++ [.run (.callHere Extra.injectExtras [])])
        (t.addMethod Extra.injectMethod)).bind (addToReading s)
    else addToReading s t

/-- The contribution is to a block of the creation method. -/
def needsBlocks : Contribution → Bool
  | .block _ _ | .extra _ => true
  | .method _ _ | .dispatch _ _ => false

end Contribution

namespace Extra

theorem addToGuard?_append_branch (s : Statement) (front : List Statement) (condition : Expr)
    (body : List Statement) : addToGuard? s (front ++ [.branch condition body]) =
      some (front ++ [.branch condition (body ++ [s])]) := by
  induction front with
  | nil => rfl
  | cons t rest ih =>
    have hrest : rest ++ [.branch condition body] ≠ [] := by simp
    obtain ⟨u, us, hus⟩ := List.exists_cons_of_ne_nil hrest
    rw [hus] at ih
    rw [List.cons_append, hus]
    cases t <;> simp [addToGuard?, ih]

theorem addToGuard?_append_of_ne (s : Statement) (front : List Statement) {last : Statement}
    (h : ∀ condition body, last ≠ .branch condition body) :
    addToGuard? s (front ++ [last]) = none := by
  induction front with
  | nil =>
    cases last with
    | branch condition body => exact absurd rfl (h condition body)
    | run _ | assign _ _ | declare _ _ _ | ret _ | tryFinally _ _ | labelled _ _ => rfl
  | cons t rest ih =>
    have hrest : rest ++ [last] ≠ [] := by simp
    obtain ⟨u, us, hus⟩ := List.exists_cons_of_ne_nil hrest
    rw [hus] at ih
    rw [List.cons_append, hus]
    cases t <;> simp [addToGuard?, ih]

theorem exists_of_addToGuard? {s : Statement} {body body' : List Statement}
    (h : addToGuard? s body = some body') : ∃ front condition inner,
      body = front ++ [.branch condition inner] ∧
      body' = front ++ [.branch condition (inner ++ [s])] := by
  rcases List.eq_nil_or_concat body with rfl | ⟨front, last, rfl⟩
  · cases h
  · by_cases hlast : ∃ condition inner, last = .branch condition inner
    · obtain ⟨condition, inner, rfl⟩ := hlast
      rw [List.concat_eq_append, addToGuard?_append_branch] at h
      exact ⟨front, condition, inner, List.concat_eq_append, (Option.some.inj h).symm⟩
    · have hne : ∀ condition inner, last ≠ .branch condition inner :=
        fun condition inner heq => hlast ⟨condition, inner, heq⟩
      rw [List.concat_eq_append, addToGuard?_append_of_ne s front hne] at h
      cases h

end Extra

namespace GeneratedType

def HasBlocks (t : GeneratedType) : Prop :=
  ∀ b : CreationBlock, (t.block? onCreate b.label).isSome = true

def Guarded (body : List Statement) : Prop :=
  ∃ front condition inner, body = front ++ [.branch condition inner]

def Unguarded (body : List Statement) : Prop :=
  ∃ front last, body = front ++ [last] ∧ ∀ condition inner, last ≠ .branch condition inner

def ReadsExtras (t : GeneratedType) : Prop :=
  ∀ m, t.method? Extra.injectExtras = some m → Guarded m.body

def HidesExtras (t : GeneratedType) : Prop :=
  ∃ m, t.method? Extra.injectExtras = some m ∧ Unguarded m.body

end GeneratedType

/-- A method without labelled blocks that could not take the place of the reading method. -/
structure Method.Plain (m : Method) : Prop where
  blocks : ∀ s ∈ m.body, s.isLabelled = false
  unguarded : m.name = Extra.injectExtras → GeneratedType.Unguarded m.body

def GeneratedType.Foreign (t : GeneratedType) : Prop := ∀ m ∈ t.methods, m.Plain

namespace Contribution

open GeneratedType

theorem changeBlock_eq_ok_iff {b : CreationBlock} {f : List Statement → List Statement}
    {t t' : GeneratedType} :
    changeBlock b f t = .ok t' ↔ t.mapBlock? onCreate b.label f = some t' := by
  unfold changeBlock
  cases t.mapBlock? onCreate b.label f <;> simp

theorem eq_noBlock_of_changeBlock {b : CreationBlock} {f : List Statement → List Statement}
    {t : GeneratedType} {e : Fault} (h : changeBlock b f t = .error e) :
    e = .noBlock t.name onCreate b.label := by
  unfold changeBlock at h
  split at h
  · exact (Except.error.inj h).symm
  · cases h

theorem changeBlock_of_hasBlocks {t : GeneratedType} (h : t.HasBlocks) (b : CreationBlock)
    (f : List Statement → List Statement) :
    ∃ t', changeBlock b f t = .ok t' ∧ BlockChanged t t' onCreate := by
  have hsome : (t.mapBlock? onCreate b.label f).isSome = true := by
    rw [isSome_mapBlock?]
    exact h b
  obtain ⟨t', ht'⟩ := Option.isSome_iff_exists.1 hsome
  exact ⟨t', changeBlock_eq_ok_iff.2 ht', blockChanged_of_mapBlock? ht'⟩

theorem blockChanged_of_changeBlock {b : CreationBlock} {f : List Statement → List Statement}
    {t t' : GeneratedType} (h : changeBlock b f t = .ok t') : BlockChanged t t' onCreate :=
  blockChanged_of_mapBlock? (changeBlock_eq_ok_iff.1 h)

theorem changeBlock_of_noBlocks {t : GeneratedType}
    (h : ∀ m ∈ t.methods, ∀ s ∈ m.body, s.isLabelled = false) (b : CreationBlock)
    (f : List Statement → List Statement) :
    changeBlock b f t = .error (.noBlock t.name onCreate b.label) := by
  have hnone : t.mapBlock? onCreate b.label f = none := by
    rw [← Option.not_isSome_iff_eq_none, isSome_mapBlock?, Option.not_isSome_iff_eq_none]
    unfold block?
    cases hm : t.method? onCreate with
    | none => rfl
    | some m => exact Method.blockIn?_eq_none (h m (List.mem_of_find?_eq_some hm)) b.label
  rw [changeBlock, hnone]

theorem addToReading_of_guarded {t : GeneratedType} {m : Method}
    (hm : t.method? Extra.injectExtras = some m) (hguarded : Guarded m.body) (s : Statement) :
    ∃ body, Guarded body ∧ addToReading s t =
      .ok (t.mapMethod Extra.injectExtras fun m => { m with body }) := by
  obtain ⟨front, condition, inner, hbody⟩ := hguarded
  refine ⟨front ++ [.branch condition (inner ++ [s])], ⟨front, condition, _, rfl⟩, ?_⟩
  rw [addToReading, hm, Option.bind_some, hbody, Extra.addToGuard?_append_branch]

theorem addToReading_of_hidesExtras {t : GeneratedType} (h : t.HidesExtras) (s : Statement) :
    addToReading s t = .error (.lostExtrasGuard t.name Extra.injectExtras) := by
  obtain ⟨m, hm, front, last, hbody, hlast⟩ := h
  rw [addToReading, hm, Option.bind_some, hbody, Extra.addToGuard?_append_of_ne s front hlast]

/-- An extra is added to the guard of the reading method, and that method alone is replaced. -/
theorem addToReading_eq_ok_iff {s : Statement} {t t' : GeneratedType} :
    addToReading s t = .ok t' ↔ ∃ m body, t.method? Extra.injectExtras = some m ∧
      Extra.addToGuard? s m.body = some body ∧
        t.mapMethod Extra.injectExtras (fun m => { m with body }) = t' := by
  unfold addToReading
  constructor
  · intro h
    split at h
    · cases h
    · next body hbody =>
      obtain ⟨m, hm, hadded⟩ := Option.bind_eq_some_iff.1 hbody
      exact ⟨m, body, hm, hadded, Except.ok.inj h⟩
  · rintro ⟨m, body, hm, hadded, rfl⟩
    rw [hm, Option.bind_some, hadded]

theorem eq_lostExtrasGuard_of_addToReading {s : Statement} {t : GeneratedType} {e : Fault}
    (h : addToReading s t = .error e) : e = .lostExtrasGuard t.name Extra.injectExtras := by
  unfold addToReading at h
  split at h
  · exact (Except.error.inj h).symm
  · cases h

theorem method?_of_addToReading {s : Statement} {t t' : GeneratedType}
    (h : addToReading s t = .ok t') {name : String} (hname : name ≠ Extra.injectExtras) :
    t'.name = t.name ∧ t'.method? name = t.method? name := by
  obtain ⟨m, body, -, -, rfl⟩ := addToReading_eq_ok_iff.1 h
  exact ⟨rfl, (method?_mapMethod t _ (by exact fun _ hm => hm) name).trans (if_neg hname)⟩

theorem onCreate_ne_injectExtras : onCreate ≠ Extra.injectExtras := by decide

theorem hasBlocks_of_method?_eq {t t' : GeneratedType} (h : t.HasBlocks)
    (heq : t'.method? onCreate = t.method? onCreate) : t'.HasBlocks := by
  intro b
  rw [block?, heq]
  exact h b

theorem exists_method?_of_hasBlocks {t : GeneratedType} (h : t.HasBlocks) :
    ∃ m, t.method? onCreate = some m := by
  have hblock := h .inject
  unfold block? at hblock
  cases hm : t.method? onCreate with
  | none =>
    rw [hm] at hblock
    cases hblock
  | some m => exact ⟨m, rfl⟩

theorem hasBlocks_addMethod {t : GeneratedType} (h : t.HasBlocks) (m : Method) :
    (t.addMethod m).HasBlocks := by
  obtain ⟨creation, hcreation⟩ := exists_method?_of_hasBlocks h
  refine hasBlocks_of_method?_eq h ?_
  rw [method?_addMethod_of_some hcreation, hcreation]

theorem name_addFields (t : GeneratedType) (fields : List Field) :
    (fields.foldl addField t).name = t.name ∧
      (fields.foldl addField t).methods = t.methods := by
  induction fields generalizing t with
  | nil => exact ⟨rfl, rfl⟩
  | cons f rest ih =>
    have hfield : (t.addField f).name = t.name ∧ (t.addField f).methods = t.methods := by
      unfold addField
      split <;> exact ⟨rfl, rfl⟩
    rw [List.foldl_cons]
    exact ⟨(ih _).1.trans hfield.1, (ih _).2.trans hfield.2⟩

theorem method?_addFields (t : GeneratedType) (fields : List Field) (name : String) :
    (fields.foldl addField t).method? name = t.method? name := by
  unfold method?
  rw [(name_addFields t fields).2]

theorem method?_dispatch (t : GeneratedType) (element : Element) (refs : List ResourceRef)
    {name : String} (hname : name ≠ OptionsItem.onOptionsItemSelected) :
    ((t.ensureMethod OptionsItem.onOptionsItemSelected OptionsItem.dispatchMethod).mapMethod
      OptionsItem.onOptionsItemSelected fun m =>
        { m with body := OptionsItem.addBranches element refs m.body }).method? name =
      t.method? name := by
  refine (method?_mapMethod _ _ (by exact fun _ hm => hm) name).trans ?_
  rw [if_neg hname]
  unfold ensureMethod
  split
  · rfl
  · rw [method?_addMethod, if_neg fun heq => hname heq.symm, Option.or_none]

theorem extra_cases {s : Statement} {t t' : GeneratedType} (h : (extra s).apply t = .ok t') :
    (t.method? Extra.injectExtras = none ∧ ∃ t₁,
      changeBlock .inject (· ++ [.run (.callHere Extra.injectExtras [])])
        (t.addMethod Extra.injectMethod) = .ok t₁ ∧ addToReading s t₁ = .ok t') ∨
    ((t.method? Extra.injectExtras).isSome = true ∧ addToReading s t = .ok t') := by
  rw [apply] at h
  rcases hfound : t.method? Extra.injectExtras with - | m
  · rw [hfound, if_pos Option.isNone_none] at h
    rcases hadded : changeBlock .inject _ (t.addMethod Extra.injectMethod) with f | t₁
    · rw [hadded] at h
      cases h
    · rw [hadded] at h
      exact Or.inl ⟨rfl, t₁, rfl, h⟩
  · rw [hfound, if_neg (by simp)] at h
    exact Or.inr ⟨rfl, h⟩

/-- What is left as it was when a contribution is made: the name of the type and, if it had one, a
creation method with its blocks. -/
theorem kept_of_apply {c : Contribution} {t t' : GeneratedType} (h : c.apply t = .ok t') :
    t'.name = t.name ∧ (t.HasBlocks → t'.HasBlocks) := by
  cases c with
  | block b f =>
    have hchanged := blockChanged_of_changeBlock h
    exact ⟨hchanged.name, fun hblocks b' => (hchanged.block b'.label).trans (hblocks b')⟩
  | method fields m =>
    obtain rfl := Except.ok.inj h
    refine ⟨(name_addFields t fields).1, fun hblocks => hasBlocks_addMethod ?_ _⟩
    exact hasBlocks_of_method?_eq hblocks (method?_addFields t fields onCreate)
  | dispatch element refs =>
    obtain rfl := Except.ok.inj h
    refine ⟨?_, fun hblocks => hasBlocks_of_method?_eq hblocks
      (method?_dispatch t element refs (by decide))⟩
    show (t.ensureMethod _ _).name = t.name
    unfold ensureMethod
    split <;> rfl
  | extra s =>
    rcases extra_cases h with ⟨-, t₁, hadded, h⟩ | ⟨-, h⟩
    · have hchanged := blockChanged_of_changeBlock hadded
      obtain ⟨hname, hmethod⟩ := method?_of_addToReading h onCreate_ne_injectExtras
      refine ⟨hname.trans hchanged.name, fun hblocks => hasBlocks_of_method?_eq ?_ hmethod⟩
      intro b
      exact (hchanged.block b.label).trans (hasBlocks_addMethod hblocks _ b)
    · obtain ⟨hname, hmethod⟩ := method?_of_addToReading h onCreate_ne_injectExtras
      exact ⟨hname, fun hblocks => hasBlocks_of_method?_eq hblocks hmethod⟩

theorem method?_injectExtras_of_apply {c : Contribution} {t t' : GeneratedType}
    (h : c.apply t = .ok t') (hextra : ∀ s, c ≠ .extra s)
    (hmethod : ∀ fields m, c = .method fields m → (m t).name ≠ Extra.injectExtras) :
    t'.method? Extra.injectExtras = t.method? Extra.injectExtras := by
  cases c with
  | block b f => exact (blockChanged_of_changeBlock h).others _ onCreate_ne_injectExtras.symm
  | method fields m =>
    obtain rfl := Except.ok.inj h
    rw [method?_addMethod, method?_addFields, if_neg (hmethod fields m rfl), Option.or_none]
  | dispatch element refs =>
    obtain rfl := Except.ok.inj h
    exact method?_dispatch t element refs (by decide)
  | extra s => exact absurd rfl (hextra s)

theorem hidesExtras_of_apply {c : Contribution} {t t' : GeneratedType} (h : c.apply t = .ok t')
    (hhides : t.HidesExtras) : t'.HidesExtras := by
  obtain ⟨m₀, hm₀, hbody⟩ := hhides
  refine ⟨m₀, ?_, hbody⟩
  cases c with
  | block b f =>
    exact ((blockChanged_of_changeBlock h).others _ onCreate_ne_injectExtras.symm).trans hm₀
  | method fields m =>
    obtain rfl := Except.ok.inj h
    exact method?_addMethod_of_some ((method?_addFields t fields _).trans hm₀) (m t)
  | dispatch element refs =>
    obtain rfl := Except.ok.inj h
    exact (method?_dispatch t element refs (by decide)).trans hm₀
  | extra s =>
    rw [apply, hm₀, if_neg (by simp), addToReading_of_hidesExtras ⟨m₀, hm₀, hbody⟩] at h
    cases h

theorem guarded_of_addToGuard? {s : Statement} {body body' : List Statement}
    (h : Extra.addToGuard? s body = some body') : Guarded body' := by
  obtain ⟨front, condition, inner, -, rfl⟩ := Extra.exists_of_addToGuard? h
  exact ⟨front, condition, _, rfl⟩

theorem readsExtras_of_addToReading {s : Statement} {t t' : GeneratedType}
    (h : addToReading s t = .ok t') : t'.ReadsExtras := by
  obtain ⟨m, body, hm, hadded, rfl⟩ := addToReading_eq_ok_iff.1 h
  intro m' hm'
  have hfound := (method?_mapMethod t Extra.injectExtras (f := fun m => { m with body })
    (fun _ hname => hname) Extra.injectExtras).symm.trans hm'
  rw [if_pos rfl, hm] at hfound
  obtain rfl := Option.some.inj hfound
  exact guarded_of_addToGuard? hadded

theorem readsExtras_of_apply_extra {s : Statement} {t t' : GeneratedType}
    (h : (extra s).apply t = .ok t') : t'.ReadsExtras := by
  rcases extra_cases h with ⟨-, t₁, -, h⟩ | ⟨-, h⟩
  · exact readsExtras_of_addToReading h
  · exact readsExtras_of_addToReading h

theorem exists_apply_extra {t : GeneratedType} (hblocks : t.HasBlocks) (hreads : t.ReadsExtras)
    (s : Statement) : ∃ t', (extra s).apply t = .ok t' := by
  rw [apply]
  cases hm : t.method? Extra.injectExtras with
  | some m =>
    obtain ⟨body, -, hadded⟩ := addToReading_of_guarded hm (hreads m hm) s
    exact ⟨_, (if_neg (by simp)).trans hadded⟩
  | none =>
    obtain ⟨t₁, hadded, hchanged⟩ := changeBlock_of_hasBlocks
      (hasBlocks_addMethod hblocks Extra.injectMethod) .inject
      (· ++ [.run (.callHere Extra.injectExtras [])])
    have hfound : t₁.method? Extra.injectExtras = some Extra.injectMethod := by
      rw [hchanged.others _ onCreate_ne_injectExtras.symm, method?_addMethod, hm, Option.none_or]
      exact if_pos rfl
    obtain ⟨body, -, hread⟩ := addToReading_of_guarded hfound ⟨[_], _, _, rfl⟩ s
    refine ⟨t₁.mapMethod Extra.injectExtras fun m => { m with body }, ?_⟩
    rw [if_pos (by simp), hadded]
    exact hread

theorem apply_extra_of_hidesExtras {t : GeneratedType} (h : t.HidesExtras) (s : Statement) :
    (extra s).apply t = .error (.lostExtrasGuard t.name Extra.injectExtras) := by
  obtain ⟨m, hm, hbody⟩ := h
  rw [apply, hm, if_neg (by simp)]
  exact addToReading_of_hidesExtras ⟨m, hm, hbody⟩ s

theorem exists_apply {c : Contribution} {t : GeneratedType} (hblocks : t.HasBlocks)
    (hextra : ∀ s, c ≠ .extra s) : ∃ t', c.apply t = .ok t' := by
  cases c with
  | block b f =>
    obtain ⟨t', ht', -⟩ := changeBlock_of_hasBlocks hblocks b (f t)
    exact ⟨t', ht'⟩
  | method fields m => exact ⟨_, rfl⟩
  | dispatch element refs => exact ⟨_, rfl⟩
  | extra s => exact absurd rfl (hextra s)

theorem exists_apply_of_not_needsBlocks {c : Contribution} (h : c.needsBlocks = false)
    (t : GeneratedType) : ∃ t', c.apply t = .ok t' := by
  cases c with
  | block b f => cases h
  | method fields m => exact ⟨_, rfl⟩
  | dispatch element refs => exact ⟨_, rfl⟩
  | extra s => cases h

/-- A contribution is refused for want of a block or of the guard of the reading method. -/
theorem fault_of_apply {c : Contribution} {t : GeneratedType} {f : Fault}
    (h : c.apply t = .error f) : f = .lostExtrasGuard t.name Extra.injectExtras ∨
      ∃ b : CreationBlock, f = .noBlock t.name onCreate b.label := by
  cases c with
  | block b g => exact Or.inr ⟨b, eq_noBlock_of_changeBlock h⟩
  | method fields m => cases h
  | dispatch element refs => cases h
  | extra s =>
    rw [apply] at h
    split at h
    · rcases hadded : changeBlock .inject _ (t.addMethod Extra.injectMethod) with g | t₁
      · rw [hadded] at h
        obtain rfl := Except.error.inj h
        exact Or.inr ⟨.inject, eq_noBlock_of_changeBlock (t := t.addMethod Extra.injectMethod) hadded⟩
      · rw [hadded] at h
        exact Or.inl ((blockChanged_of_changeBlock hadded).name ▸
          eq_lostExtrasGuard_of_addToReading h)
    · exact Or.inl (eq_lostExtrasGuard_of_addToReading h)

theorem foreign_addMethod {t : GeneratedType} (h : t.Foreign) {m : Method} (hm : m.Plain) :
    (t.addMethod m).Foreign := by
  intro m' hm'
  rcases List.mem_append.1 hm' with hm' | hm'
  · exact h m' hm'
  · exact List.mem_singleton.1 hm' ▸ hm

theorem exists_error_of_foreign {c : Contribution} {t : GeneratedType} (h : t.Foreign)
    (hneeds : c.needsBlocks = true) : ∃ f, c.apply t = .error f := by
  cases c with
  | block b f => exact ⟨_, changeBlock_of_noBlocks (fun m hm => (h m hm).blocks) b (f t)⟩
  | method fields m => cases hneeds
  | dispatch element refs => cases hneeds
  | extra s =>
    cases hm : t.method? Extra.injectExtras with
    | some m =>
      have hplain : m.Plain := h m (List.mem_of_find?_eq_some hm)
      exact ⟨_, apply_extra_of_hidesExtras ⟨m, hm, hplain.unguarded (name_of_method? hm)⟩ s⟩
    | none =>
      have hnone : ∀ m ∈ (t.addMethod Extra.injectMethod).methods, ∀ s ∈ m.body,
          s.isLabelled = false := by
        intro m hm
        rcases List.mem_append.1 hm with hm | hm
        · exact (h m hm).blocks
        · obtain rfl := List.mem_singleton.1 hm
          simp [Extra.injectMethod, Statement.isLabelled]
      refine ⟨.noBlock t.name onCreate CreationBlock.inject.label, ?_⟩
      rw [apply, hm, if_pos Option.isNone_none, changeBlock_of_noBlocks hnone]
      rfl

theorem mem_insertBeforeLast {body : List Statement} {s s' : Statement}
    (h : s' ∈ OptionsItem.insertBeforeLast body s) : s' = s ∨ s' ∈ body := by
  rcases List.mem_append.1 h with h | h
  · exact Or.inr (List.dropLast_subset _ h)
  · rcases List.mem_cons.1 h with h | h
    · exact Or.inl h
    · exact Or.inr (List.mem_of_getLast? (Option.mem_toList.1 h))

theorem plain_addBranches (element : Element) (refs : List ResourceRef) {m : Method}
    (hname : m.name ≠ Extra.injectExtras) (hm : m.Plain) :
    Method.Plain { m with body := OptionsItem.addBranches element refs m.body } := by
  have hfold : ∀ (refs : List ResourceRef) (body : List Statement),
      (∀ s ∈ body, s.isLabelled = false) →
      ∀ s ∈ OptionsItem.addBranches element refs body, s.isLabelled = false := by
    intro refs
    induction refs with
    | nil => exact fun _ hbody => hbody
    | cons ref refs ih =>
      intro body hbody
      refine ih _ fun s hs => ?_
      rcases mem_insertBeforeLast hs with rfl | hs
      · rfl
      · exact hbody s hs
  exact ⟨hfold refs m.body hm.blocks, fun h => absurd h hname⟩

/-- What else can be added to such a type leaves it one. -/
theorem foreign_of_apply {c : Contribution} {t t' : GeneratedType} (h : c.apply t = .ok t')
    (hforeign : t.Foreign) (hplain : ∀ fields m, c = .method fields m → (m t).Plain) :
    t'.Foreign := by
  -- A change of a block faults on a foreign type, so only two contributions are left.
  cases c with
  | block b f =>
    obtain ⟨g, hg⟩ := exists_error_of_foreign (c := .block b f) hforeign rfl
    rw [hg] at h
    cases h
  | method fields m =>
    obtain rfl := Except.ok.inj h
    refine foreign_addMethod ?_ (hplain fields m rfl)
    intro m' hm'
    rw [(name_addFields t fields).2] at hm'
    exact hforeign m' hm'
  | dispatch element refs =>
    obtain rfl := Except.ok.inj h
    have hensured : (t.ensureMethod OptionsItem.onOptionsItemSelected
        OptionsItem.dispatchMethod).Foreign := by
      unfold ensureMethod
      split
      · exact hforeign
      · refine foreign_addMethod hforeign ⟨?_, fun hname => absurd hname (by decide)⟩
        simp [OptionsItem.dispatchMethod, Statement.isLabelled]
    intro m hm
    rcases mem_updateMethod hm with hm | ⟨m', hm', hname, rfl⟩
    · exact hensured m hm
    · refine plain_addBranches element refs ?_ (hensured m' hm')
      rw [hname]
      decide
  | extra s =>
    obtain ⟨g, hg⟩ := exists_error_of_foreign (c := .extra s) hforeign rfl
    rw [hg] at h
    cases h

theorem hidesExtras_of_apply_method {fields : List Field} {m : GeneratedType → Method}
    {t t' : GeneratedType} (h : (method fields m).apply t = .ok t')
    (hnone : t.method? Extra.injectExtras = none) (hname : (m t).name = Extra.injectExtras)
    (hplain : (m t).Plain) : t'.HidesExtras := by
  obtain rfl := Except.ok.inj h
  refine ⟨m t, ?_, hplain.unguarded hname⟩
  rw [method?_addMethod, method?_addFields, hnone, Option.none_or, if_pos hname]

end Contribution

end ComponentGlue
