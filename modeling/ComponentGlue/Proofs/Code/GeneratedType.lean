import ComponentGlue.Code.GeneratedType

set_option autoImplicit false
set_option relaxedAutoImplicit false

namespace ComponentGlue

def Statement.isLabelled : Statement → Bool
  | .labelled _ _ => true
  | .run _ | .assign _ _ | .declare _ _ _ | .ret _ | .branch _ _ | .tryFinally _ _ => false

namespace Method

theorem isSome_updateBlock? (label : String) (f : List Statement → List Statement)
    (body : List Statement) :
    (updateBlock? label f body).isSome = (blockIn? label body).isSome := by
  induction body with
  | nil => rfl
  | cons s rest ih =>
    cases s with
    | labelled l inner =>
      by_cases h : l = label
      · simp [updateBlock?, blockIn?, h]
      · simpa [updateBlock?, blockIn?, h] using ih
    | run _ | assign _ _ | declare _ _ _ | ret _ | branch _ _ | tryFinally _ _ =>
      simpa [updateBlock?, blockIn?] using ih

theorem isSome_blockIn?_of_updateBlock? {label : String} {f : List Statement → List Statement}
    {body body' : List Statement} (h : updateBlock? label f body = some body') (label' : String) :
    (blockIn? label' body').isSome = (blockIn? label' body).isSome := by
  induction body generalizing body' with
  | nil => cases h
  | cons s rest ih =>
    cases s with
    | labelled l inner =>
      rw [updateBlock?] at h
      split at h
      · obtain rfl := Option.some.inj h
        by_cases hl : l = label' <;> simp [blockIn?, hl]
      · obtain ⟨rest', hrest, rfl⟩ := Option.map_eq_some_iff.1 h
        by_cases hl : l = label'
        · simp [blockIn?, hl]
        · simpa [blockIn?, hl] using ih hrest
    | run _ | assign _ _ | declare _ _ _ | ret _ | branch _ _ | tryFinally _ _ =>
      obtain ⟨rest', hrest, rfl⟩ := Option.map_eq_some_iff.1 h
      simpa [blockIn?] using ih hrest

theorem blockIn?_append (label : String) (front rest : List Statement) :
    blockIn? label (front ++ rest) = (blockIn? label front).or (blockIn? label rest) := by
  induction front with
  | nil => rfl
  | cons s front ih =>
    cases s with
    | labelled l inner =>
      by_cases h : l = label
      · simp [blockIn?, h]
      · simpa [blockIn?, h] using ih
    | run _ | assign _ _ | declare _ _ _ | ret _ | branch _ _ | tryFinally _ _ =>
      simpa [blockIn?] using ih

theorem blockIn?_eq_none {body : List Statement} (h : ∀ s ∈ body, s.isLabelled = false)
    (label : String) : blockIn? label body = none := by
  induction body with
  | nil => rfl
  | cons s rest ih =>
    have hrest := ih fun s hs => h s (List.mem_cons_of_mem _ hs)
    cases s with
    | labelled l inner => cases h _ List.mem_cons_self
    | run _ | assign _ _ | declare _ _ _ | ret _ | branch _ _ | tryFinally _ _ => exact hrest

theorem updateBlock?_append {front : List Statement} (h : ∀ s ∈ front, s.isLabelled = false)
    (label : String) (f : List Statement → List Statement) (rest : List Statement) :
    updateBlock? label f (front ++ rest) = (updateBlock? label f rest).map (front ++ ·) := by
  induction front with
  | nil => simp
  | cons s front ih =>
    have hrest := ih fun s hs => h s (List.mem_cons_of_mem _ hs)
    cases s with
    | labelled l inner => cases h _ List.mem_cons_self
    | run _ | assign _ _ | declare _ _ _ | ret _ | branch _ _ | tryFinally _ _ =>
      rw [List.cons_append, updateBlock?, hrest, Option.map_map]
      · rfl
      · nofun

end Method

namespace GeneratedType

theorem method?_addMethod (t : GeneratedType) (m : Method) (name : String) :
    (t.addMethod m).method? name =
      (t.method? name).or (if m.name = name then some m else none) := by
  unfold method? addMethod
  rw [List.find?_append]
  by_cases h : m.name = name
  · simp [h]
  · simp [h]

theorem method?_addMethod_of_some {t : GeneratedType} {m : Method} {name : String}
    (h : t.method? name = some m) (new : Method) : (t.addMethod new).method? name = some m := by
  rw [method?_addMethod, h, Option.some_or]

theorem methods_addMethod_of_eq_cons {t : GeneratedType} {head : Method} {others : List Method}
    (h : t.methods = head :: others) (m : Method) :
    (t.addMethod m).methods = head :: (others ++ [m]) := by
  rw [addMethod, h, List.cons_append]

private theorem find?_updateMethod {name : String} {f : Method → Method}
    (hf : ∀ m, m.name = name → (f m).name = name) (name' : String) (ms : List Method) :
    (updateMethod name f ms).find? (fun m => m.name == name') =
      if name' = name then (ms.find? fun m => m.name == name').map f
      else ms.find? fun m => m.name == name' := by
  induction ms with
  | nil => simp [updateMethod]
  | cons m rest ih =>
    rw [updateMethod]
    by_cases hm : m.name = name
    · rw [if_pos (beq_iff_eq.2 hm)]
      by_cases h : name' = name
      · have hfm : (f m).name = name' := (hf m hm).trans h.symm
        simp [h, hm, hfm]
      · have hfm : (f m).name ≠ name' := fun heq => h (heq.symm.trans (hf m hm))
        have hne : m.name ≠ name' := fun heq => h (heq.symm.trans hm)
        simp [h, hne, hfm]
    · rw [if_neg (by simpa using hm)]
      by_cases h : m.name = name'
      · have hne : name' ≠ name := fun heq => hm (h.trans heq)
        simp [h, hne]
      · rw [List.find?_cons_of_neg (by simpa using h), ih,
          List.find?_cons_of_neg (by simpa using h)]

theorem method?_mapMethod (t : GeneratedType) (name : String) {f : Method → Method}
    (hf : ∀ m, m.name = name → (f m).name = name) (name' : String) :
    (t.mapMethod name f).method? name' =
      if name' = name then (t.method? name').map f else t.method? name' :=
  find?_updateMethod hf name' t.methods

theorem name_of_method? {t : GeneratedType} {m : Method} {name : String}
    (h : t.method? name = some m) : m.name = name := by
  simpa using List.find?_some h

theorem mem_updateMethod {name : String} {f : Method → Method} {ms : List Method} {m : Method}
    (h : m ∈ updateMethod name f ms) : m ∈ ms ∨ ∃ m' ∈ ms, m'.name = name ∧ m = f m' := by
  induction ms with
  | nil => cases h
  | cons m' rest ih =>
    rw [updateMethod] at h
    split at h
    · next hname =>
      rcases List.mem_cons.1 h with rfl | h
      · exact Or.inr ⟨m', List.mem_cons_self, beq_iff_eq.1 hname, rfl⟩
      · exact Or.inl (List.mem_cons_of_mem m' h)
    · rcases List.mem_cons.1 h with rfl | h
      · exact Or.inl List.mem_cons_self
      · rcases ih h with h | ⟨m'', hm'', heq⟩
        · exact Or.inl (List.mem_cons_of_mem m' h)
        · exact Or.inr ⟨m'', List.mem_cons_of_mem m' hm'', heq⟩

theorem map_updateMethod {β : Type} {g : Method → β} {name : String} {f : Method → Method}
    {ms : List Method} (h : ∀ m, ms.find? (fun m => m.name == name) = some m → g (f m) = g m) :
    (updateMethod name f ms).map g = ms.map g := by
  induction ms with
  | nil => rfl
  | cons m rest ih =>
    rw [updateMethod]
    by_cases hm : (m.name == name) = true
    · rw [if_pos hm, List.map_cons, List.map_cons, h m (List.find?_cons_of_pos (by exact hm))]
    · have hfind := List.find?_cons_of_neg (p := fun m => m.name == name) (l := rest) hm
      have hrest := ih fun m' hm' => h m' (hfind.trans hm')
      rw [if_neg hm, List.map_cons, List.map_cons, hrest]

theorem forall_updateMethod_iff {p : Method → Prop} {name : String} {f : Method → Method}
    {ms : List Method}
    (h : ∀ m, ms.find? (fun m => m.name == name) = some m → (p (f m) ↔ p m)) :
    (∀ m ∈ updateMethod name f ms, p m) ↔ ∀ m ∈ ms, p m := by
  have hmap := map_updateMethod fun m hm => propext (h m hm)
  have hforall : ∀ l : List Method, (∀ q ∈ l.map p, q) ↔ ∀ m ∈ l, p m := fun _ => List.forall_mem_map
  rw [← hforall, hmap, hforall]

theorem updateMethod_append {name : String} {f : Method → Method} {front : List Method}
    (h : ∀ m ∈ front, m.name ≠ name) (rest : List Method) :
    updateMethod name f (front ++ rest) = front ++ updateMethod name f rest := by
  induction front with
  | nil => rfl
  | cons m front ih =>
    obtain ⟨hm, hfront⟩ := List.forall_mem_cons.1 h
    rw [List.cons_append, updateMethod, if_neg (by simpa using hm), ih hfront, List.cons_append]

theorem filter_updateMethod {p : Method → Bool} {name : String} {f : Method → Method}
    {ms : List Method} (h : ∀ m, ms.find? (fun m => m.name == name) = some m →
      p m = false ∧ p (f m) = false) : (updateMethod name f ms).filter p = ms.filter p := by
  induction ms with
  | nil => rfl
  | cons m rest ih =>
    rw [updateMethod]
    by_cases hm : (m.name == name) = true
    · obtain ⟨hbefore, hafter⟩ := h m (List.find?_cons_of_pos (by exact hm))
      rw [if_pos hm, List.filter_cons_of_neg (by simp [hafter]),
        List.filter_cons_of_neg (by simp [hbefore])]
    · have hfind := List.find?_cons_of_neg (p := fun m => m.name == name) (l := rest) hm
      have hrest := ih fun m' hm' => h m' (hfind.trans hm')
      rw [if_neg hm, List.filter_cons, List.filter_cons, hrest]

theorem filter_updateMethod_of_found {p : Method → Bool} {name : String} {f : Method → Method}
    {ms : List Method} {m : Method} (hfound : ms.find? (fun m => m.name == name) = some m)
    (honly : ms.filter p = [m]) (hname : ∀ m', p m' = true → m'.name = name)
    (hafter : p (f m) = true) : (updateMethod name f ms).filter p = [f m] := by
  have hpicked : p m = true := (List.mem_filter.1 (honly ▸ List.mem_singleton_self m)).2
  induction ms with
  | nil => cases hfound
  | cons first rest ih =>
    rw [updateMethod]
    by_cases hfirst : (first.name == name) = true
    · rw [List.find?_cons_of_pos (by exact hfirst)] at hfound
      obtain rfl := Option.some.inj hfound
      rw [List.filter_cons_of_pos hpicked] at honly
      rw [if_pos hfirst, List.filter_cons_of_pos hafter, (List.cons.inj honly).2]
    · have hnot : ¬ p first = true := fun h => hfirst (beq_iff_eq.2 (hname first h))
      rw [List.find?_cons_of_neg (by exact hfirst)] at hfound
      rw [List.filter_cons_of_neg hnot] at honly
      rw [if_neg hfirst, List.filter_cons_of_neg hnot, ih hfound honly]

theorem isSome_mapBlock? (t : GeneratedType) (method label : String)
    (f : List Statement → List Statement) :
    (t.mapBlock? method label f).isSome = (t.block? method label).isSome := by
  unfold mapBlock? block? Method.mapBlock? Method.block?
  cases t.method? method with
  | none => rfl
  | some m => simp [Method.isSome_updateBlock?]

/-- A changed block is in the first method of the name, and that method alone is replaced. -/
theorem mapBlock?_eq_some_iff {t t' : GeneratedType} {method label : String}
    {f : List Statement → List Statement} : t.mapBlock? method label f = some t' ↔
      ∃ m body, t.method? method = some m ∧ Method.updateBlock? label f m.body = some body ∧
        t.mapMethod method (fun _ => { m with body }) = t' := by
  constructor
  · intro h
    obtain ⟨m', hm', ht'⟩ := Option.map_eq_some_iff.1 h
    obtain ⟨m, hm, hbody⟩ := Option.bind_eq_some_iff.1 hm'
    obtain ⟨body, hupdate, rfl⟩ := Option.map_eq_some_iff.1 hbody
    exact ⟨m, body, hm, hupdate, ht'⟩
  · rintro ⟨m, body, hm, hupdate, rfl⟩
    rw [mapBlock?, hm, Option.bind_some, Method.mapBlock?, hupdate]
    rfl

/-- What changing a block of a method does to the type. -/
structure BlockChanged (t t' : GeneratedType) (method : String) : Prop where
  name : t'.name = t.name
  block : ∀ label, (t'.block? method label).isSome = (t.block? method label).isSome
  others : ∀ name, name ≠ method → t'.method? name = t.method? name

theorem blockChanged_of_mapBlock? {t t' : GeneratedType} {method label : String}
    {f : List Statement → List Statement} (h : t.mapBlock? method label f = some t') :
    BlockChanged t t' method := by
  obtain ⟨m, body, hm, hupdate, rfl⟩ := mapBlock?_eq_some_iff.1 h
  have hname : m.name = method := name_of_method? hm
  have hmethod := t.method?_mapMethod method (f := fun _ => { m with body }) fun _ _ => hname
  refine ⟨rfl, ?_, ?_⟩
  · intro label'
    unfold block?
    rw [hmethod, if_pos rfl, hm]
    exact Method.isSome_blockIn?_of_updateBlock? hupdate label'
  · intro name hne
    rw [hmethod, if_neg hne]

end GeneratedType

end ComponentGlue
