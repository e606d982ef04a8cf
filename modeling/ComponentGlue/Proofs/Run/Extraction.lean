import Mathlib.Data.List.Flatten
import Mathlib.Data.List.Nodup
import ComponentGlue.Host.Declaration
import ComponentGlue.Proofs.Table

set_option autoImplicit false
set_option relaxedAutoImplicit false

namespace ComponentGlue

namespace DeclarationModel

/-- The declarations under a kind carry that marker, and no two of them are of the same name. -/
structure Grouped (m : DeclarationModel) : Prop where
  marker_eq : ∀ kind, ∀ d ∈ m.declarations kind, d.marker = kind
  distinct : ∀ kind, ((m.declarations kind).map Declaration.qualifiedName).Nodup

theorem Grouped.eq_of_qualifiedName_eq {m : DeclarationModel} (h : m.Grouped) {kind : Marker}
    {d e : Declaration} (hd : d ∈ m.declarations kind) (he : e ∈ m.declarations kind)
    (hname : d.qualifiedName = e.qualifiedName) : d = e :=
  List.inj_on_of_nodup_map (h.distinct kind) hd he hname

theorem isAnnotated_iff {m : DeclarationModel} {qualified : String} {kind : Marker} :
    m.isAnnotated qualified kind = true ↔
      ∃ d ∈ m.declarations kind, d.qualifiedName = qualified := by
  simp [isAnnotated]

theorem declarations_eq_nil {m : DeclarationModel} {kind : Marker} (h : kind ∉ m.kinds) :
    m.declarations kind = [] := by
  rw [declarations, Table.get?_eq_none_iff.2 h]
  rfl

@[simp] theorem declarations_empty (kind : Marker) : empty.declarations kind = [] := rfl

theorem mem_kinds_of_mem {m : DeclarationModel} {kind : Marker} {d : Declaration}
    (h : d ∈ m.declarations kind) : kind ∈ m.kinds := by
  by_cases hkind : kind ∈ m.kinds
  · exact hkind
  · rw [declarations_eq_nil hkind] at h
    exact absurd h List.not_mem_nil

theorem all_eq_flatMap (m : DeclarationModel) : m.all = m.kinds.flatMap m.declarations := by
  rw [all, m.groups.values_eq_map_keys [], List.flatMap_def]
  rfl

theorem Grouped.filter_all {m : DeclarationModel} (h : m.Grouped) (kind : Marker) :
    (m.all.filter fun d => d.marker = kind) = m.declarations kind := by
  have hkinds : m.kinds.Nodup := m.groups.nodup
  rw [all_eq_flatMap, filter_flatMap_key h.marker_eq hkinds]
  split
  · rfl
  · next hkind => rw [declarations_eq_nil hkind]

theorem Grouped.nodup_names {m : DeclarationModel} (h : m.Grouped) :
    (m.all.map fun d => (d.qualifiedName, d.marker)).Nodup := by
  rw [all_eq_flatMap, List.map_flatMap, List.nodup_flatMap]
  constructor
  · intro kind _
    refine List.Nodup.of_map Prod.fst ?_
    rw [List.map_map]
    exact h.distinct kind
  · refine m.groups.nodup.imp fun {kind kind'} hne => ?_
    refine List.disjoint_left.2 fun {name} hname hname' => ?_
    obtain ⟨d, hd, rfl⟩ := List.mem_map.1 hname
    obtain ⟨d', hd', heq⟩ := List.mem_map.1 hname'
    have hmarker : d'.marker = d.marker := congrArg Prod.snd heq
    rw [h.marker_eq kind d hd, h.marker_eq kind' d' hd'] at hmarker
    exact hne hmarker.symm

theorem declarations_insert (m : DeclarationModel) (kind kind' : Marker) (ds : List Declaration) :
    declarations ⟨m.groups.insert kind ds⟩ kind' =
      if kind = kind' then ds else m.declarations kind' := by
  unfold declarations
  rw [Table.get?_insert]
  by_cases h : kind = kind'
  · rw [if_pos h, if_pos h, Option.getD_some]
  · rw [if_neg h, if_neg h]

theorem declarations_add (m : DeclarationModel) (d : Declaration) (kind : Marker) :
    (m.add d).declarations kind =
      if d.marker = kind then m.declarations d.marker ++ [d] else m.declarations kind :=
  m.declarations_insert d.marker kind _

theorem declarations_ofList (ds : List Declaration) (kind : Marker) :
    (ofList ds).declarations kind = ds.filter fun d => d.marker = kind := by
  have hfold : ∀ m : DeclarationModel, (ds.foldl add m).declarations kind =
      m.declarations kind ++ ds.filter fun d => d.marker = kind := by
    induction ds with
    | nil => intro m; simp
    | cons d ds ih =>
      intro m
      rw [List.foldl_cons, ih, declarations_add]
      by_cases h : d.marker = kind
      · simp [h]
      · simp [h]
  rw [ofList, hfold, declarations_empty, List.nil_append]

theorem mem_declarations_ofList {ds : List Declaration} {kind : Marker} {d : Declaration} :
    d ∈ (ofList ds).declarations kind ↔ d ∈ ds ∧ d.marker = kind := by
  rw [declarations_ofList, List.mem_filter]
  simp

theorem isAnnotated_ofList_iff {ds : List Declaration} {qualified : String} {kind : Marker} :
    (ofList ds).isAnnotated qualified kind = true ↔
      ∃ d ∈ ds, d.marker = kind ∧ d.qualifiedName = qualified := by
  simp only [isAnnotated_iff, mem_declarations_ofList, and_assoc]

theorem declarations_addBatch (m : DeclarationModel) (kind kind' : Marker)
    (raw : List RawDeclaration) :
    (m.addBatch kind raw).declarations kind' =
      if kind = kind' then appendNew (m.declarations kind) (raw.map (·.marked kind))
      else m.declarations kind' :=
  m.declarations_insert kind kind' _

theorem mem_of_mem_appendNew {found ds : List Declaration} {d : Declaration}
    (h : d ∈ appendNew found ds) : d ∈ found ∨ d ∈ ds := by
  induction ds generalizing found with
  | nil => exact Or.inl h
  | cons e ds ih =>
    rw [appendNew] at h
    split at h
    · exact (ih h).imp_right (List.mem_cons_of_mem e)
    · rcases ih h with hfound | hds
      · rcases List.mem_append.1 hfound with hfound | he
        · exact Or.inl hfound
        · exact Or.inr (List.mem_singleton.1 he ▸ List.mem_cons_self)
      · exact Or.inr (List.mem_cons_of_mem e hds)

theorem nodup_append_name {found : List Declaration} {d : Declaration}
    (distinct : (found.map Declaration.qualifiedName).Nodup)
    (hnew : ¬ (found.any fun e => e.qualifiedName == d.qualifiedName) = true) :
    ((found ++ [d]).map Declaration.qualifiedName).Nodup := by
  rw [List.map_append, List.nodup_append]
  refine ⟨distinct, by simp, ?_⟩
  intro name hname name' hname' heq
  obtain ⟨e, he, rfl⟩ := List.mem_map.1 hname
  rw [List.mem_singleton.1 hname'] at heq
  exact hnew (List.any_eq_true.2 ⟨e, he, beq_iff_eq.2 heq⟩)

theorem nodup_appendNew {found ds : List Declaration}
    (distinct : (found.map Declaration.qualifiedName).Nodup) :
    ((appendNew found ds).map Declaration.qualifiedName).Nodup := by
  induction ds generalizing found with
  | nil => exact distinct
  | cons d ds ih =>
    rw [appendNew]
    split
    · exact ih distinct
    · next hnew => exact ih (nodup_append_name distinct hnew)

theorem appendNew_eq_append {found ds : List Declaration}
    (distinct : ((found ++ ds).map Declaration.qualifiedName).Nodup) :
    appendNew found ds = found ++ ds := by
  induction ds generalizing found with
  | nil => simp [appendNew]
  | cons d ds ih =>
    have hnew : ¬ (found.any fun e => e.qualifiedName == d.qualifiedName) = true := by
      intro hany
      obtain ⟨e, he, hname⟩ := List.any_eq_true.1 hany
      rw [List.map_append, List.nodup_append] at distinct
      exact distinct.2.2 _ (List.mem_map_of_mem he) _ (List.mem_map_of_mem List.mem_cons_self)
        (beq_iff_eq.1 hname)
    rw [appendNew, if_neg hnew, ih (by simpa using distinct), List.append_assoc]
    rfl

theorem grouped_empty : Grouped empty := ⟨by simp, by simp⟩

theorem grouped_addBatch {m : DeclarationModel} (h : m.Grouped) (kind : Marker)
    (raw : List RawDeclaration) : (m.addBatch kind raw).Grouped := by
  constructor
  · intro kind' d hd
    rw [declarations_addBatch] at hd
    split at hd
    · next heq =>
      rcases mem_of_mem_appendNew hd with hd | hd
      · exact (h.marker_eq kind d hd).trans heq
      · obtain ⟨r, -, rfl⟩ := List.mem_map.1 hd
        exact heq
    · exact h.marker_eq kind' d hd
  · intro kind'
    rw [declarations_addBatch]
    split
    · exact nodup_appendNew (h.distinct kind)
    · exact h.distinct kind'

theorem grouped_extract (batches : List (Marker × List RawDeclaration)) :
    (extract batches).Grouped := by
  have hfold : ∀ m : DeclarationModel, m.Grouped →
      (batches.foldl (fun m b => m.addBatch b.1 b.2) m).Grouped := by
    induction batches with
    | nil => exact fun m h => h
    | cons b batches ih => exact fun m h => ih _ (grouped_addBatch h b.1 b.2)
  exact hfold empty grouped_empty

/-- What the host gives for a marker, batch after batch. -/
def givenFor (batches : List (Marker × List RawDeclaration)) (marker : Marker) :
    List RawDeclaration :=
  batches.flatMap fun b => if b.1 = marker then b.2 else []

theorem mem_givenFor_iff {batches : List (Marker × List RawDeclaration)} {marker : Marker}
    {r : RawDeclaration} :
    r ∈ givenFor batches marker ↔ ∃ b ∈ batches, b.1 = marker ∧ r ∈ b.2 := by
  simp only [givenFor, List.mem_flatMap, List.mem_ite_nil_right]

theorem givenFor_map (given : Marker → List RawDeclaration) {markers : List Marker}
    (distinct : markers.Nodup) (marker : Marker) :
    givenFor (markers.map fun k => (k, given k)) marker =
      if marker ∈ markers then given marker else [] := by
  rw [givenFor, List.flatMap_map]
  induction markers with
  | nil => rfl
  | cons k markers ih =>
    rw [List.nodup_cons] at distinct
    rw [List.flatMap_cons, ih distinct.2]
    by_cases hk : k = marker
    · subst hk
      simp [distinct.1]
    · simp [hk, Ne.symm hk]

theorem filter_givenFor (p : RawDeclaration → Bool) (batches : List (Marker × List RawDeclaration))
    (marker : Marker) : (givenFor batches marker).filter p =
      givenFor (batches.map fun b => (b.1, b.2.filter p)) marker := by
  rw [givenFor, givenFor, List.filter_flatMap, List.flatMap_map]
  congr 1
  funext b
  split
  · rfl
  · rfl

theorem appendNew_append (found ds es : List Declaration) :
    appendNew found (ds ++ es) = appendNew (appendNew found ds) es := by
  induction ds generalizing found with
  | nil => rfl
  | cons d ds ih =>
    rw [List.cons_append, appendNew, appendNew]
    split
    · exact ih found
    · exact ih (found ++ [d])

theorem declarations_extract (batches : List (Marker × List RawDeclaration)) (marker : Marker) :
    (extract batches).declarations marker =
      appendNew [] ((givenFor batches marker).map (·.marked marker)) := by
  have hfold : ∀ m : DeclarationModel,
      (batches.foldl (fun m b => m.addBatch b.1 b.2) m).declarations marker =
        appendNew (m.declarations marker) ((givenFor batches marker).map (·.marked marker)) := by
    induction batches with
    | nil => exact fun m => rfl
    | cons b batches ih =>
      intro m
      rw [List.foldl_cons, ih, declarations_addBatch, givenFor, givenFor, List.flatMap_cons,
        List.map_append, appendNew_append]
      by_cases h : b.1 = marker
      · rw [if_pos h, if_pos h, h]
      · rw [if_neg h, if_neg h]
        rfl
  exact hfold empty

theorem find?_appendNew (found ds : List Declaration) (name : String) :
    (appendNew found ds).find? (fun d => d.qualifiedName == name) =
      (found ++ ds).find? fun d => d.qualifiedName == name := by
  induction ds generalizing found with
  | nil => rw [appendNew, List.append_nil]
  | cons d ds ih =>
    rw [appendNew]
    split
    · next hold =>
      rw [ih, List.find?_append, List.find?_append]
      obtain ⟨e, he, hname⟩ := List.any_eq_true.1 hold
      by_cases hd : d.qualifiedName = name
      · have hsome : (found.find? fun d => d.qualifiedName == name).isSome = true :=
          List.find?_isSome.2 ⟨e, he, beq_iff_eq.2 ((beq_iff_eq.1 hname).trans hd)⟩
        obtain ⟨e', he'⟩ := Option.isSome_iff_exists.1 hsome
        rw [he', Option.some_or, Option.some_or]
      · rw [List.find?_cons_of_neg (by simpa using hd)]
    · rw [ih, List.append_assoc]
      rfl

theorem mem_appendNew_iff {ds : List Declaration} {d : Declaration} :
    d ∈ appendNew [] ds ↔ ds.find? (fun e => e.qualifiedName == d.qualifiedName) = some d := by
  have hdistinct : ((appendNew [] ds).map Declaration.qualifiedName).Nodup :=
    nodup_appendNew List.nodup_nil
  rw [← List.nil_append ds, ← find?_appendNew, List.nil_append]
  constructor
  · intro hd
    have hsome : ((appendNew [] ds).find? fun e => e.qualifiedName == d.qualifiedName).isSome =
        true := List.find?_isSome.2 ⟨d, hd, beq_iff_eq.2 rfl⟩
    obtain ⟨e, he⟩ := Option.isSome_iff_exists.1 hsome
    rw [he]
    exact congrArg some (List.inj_on_of_nodup_map hdistinct (List.mem_of_find?_eq_some he) hd
      (by simpa using List.find?_some he))
  · exact List.mem_of_find?_eq_some

theorem mem_declarations_extract_iff {batches : List (Marker × List RawDeclaration)}
    {marker : Marker} {d : Declaration} : d ∈ (extract batches).declarations marker ↔
      ∃ r, (givenFor batches marker).find? (fun r => r.element.qualifiedName == d.qualifiedName) =
        some r ∧ r.marked marker = d := by
  rw [declarations_extract, mem_appendNew_iff, List.find?_map, Option.map_eq_some_iff]
  exact Iff.rfl

theorem isAnnotated_extract_iff {batches : List (Marker × List RawDeclaration)} {name : String}
    {marker : Marker} : (extract batches).isAnnotated name marker = true ↔
      ∃ r ∈ givenFor batches marker, r.element.qualifiedName = name := by
  rw [isAnnotated_iff]
  constructor
  · rintro ⟨d, hd, rfl⟩
    obtain ⟨r, hr, rfl⟩ := mem_declarations_extract_iff.1 hd
    exact ⟨r, List.mem_of_find?_eq_some hr, rfl⟩
  · rintro ⟨r, hr, hname⟩
    have hsome : ((givenFor batches marker).find? fun r => r.element.qualifiedName == name).isSome =
        true := List.find?_isSome.2 ⟨r, hr, beq_iff_eq.2 hname⟩
    obtain ⟨r', hr'⟩ := Option.isSome_iff_exists.1 hsome
    have hname' : (r'.marked marker).qualifiedName = name := beq_iff_eq.1 (List.find?_some hr' :)
    exact ⟨r'.marked marker, mem_declarations_extract_iff.2 ⟨r', hname'.symm ▸ hr', rfl⟩, hname'⟩

/-- Filtering by something that declarations of one name share can be done before or after. -/
theorem filter_appendNew {p : Declaration → Bool} (found ds : List Declaration)
    (h : ∀ d ∈ found ++ ds, ∀ e ∈ found ++ ds, d.qualifiedName = e.qualifiedName → p d = p e) :
    (appendNew found ds).filter p = appendNew (found.filter p) (ds.filter p) := by
  -- The condition looks at the names only, so it treats a repeated declaration as its first one.
  induction ds generalizing found with
  | nil => rfl
  | cons d ds ih =>
    have hskip : ∀ a ∈ found ++ ds, a ∈ found ++ d :: ds := by
      intro a ha
      rcases List.mem_append.1 ha with ha | ha
      · exact List.mem_append_left _ ha
      · exact List.mem_append_right _ (List.mem_cons_of_mem d ha)
    have hd : d ∈ found ++ d :: ds := List.mem_append_right _ List.mem_cons_self
    rw [appendNew]
    split
    · next hold =>
      rw [ih found fun a ha b hb => h a (hskip a ha) b (hskip b hb)]
      by_cases hp : p d = true
      · obtain ⟨e, he, hname⟩ := List.any_eq_true.1 hold
        have hpe : p e = true :=
          (h e (List.mem_append_left _ he) d hd (beq_iff_eq.1 hname)).trans hp
        have hold' : (found.filter p).any (fun e => e.qualifiedName == d.qualifiedName) = true :=
          List.any_eq_true.2 ⟨e, List.mem_filter.2 ⟨he, hpe⟩, hname⟩
        rw [List.filter_cons_of_pos hp, appendNew, if_pos hold']
      · rw [List.filter_cons_of_neg hp]
    · next hnew =>
      rw [ih (found ++ [d]) (by simpa using h), List.filter_append]
      by_cases hp : p d = true
      · have hnew' : ¬ (found.filter p).any (fun e => e.qualifiedName == d.qualifiedName) = true := by
          intro hold'
          obtain ⟨e, he, hname⟩ := List.any_eq_true.1 hold'
          exact hnew (List.any_eq_true.2 ⟨e, (List.mem_filter.1 he).1, hname⟩)
        rw [List.filter_cons_of_pos hp, List.filter_cons_of_pos hp, List.filter_nil, appendNew,
          if_neg hnew']
      · rw [List.filter_cons_of_neg hp, List.filter_cons_of_neg hp, List.filter_nil,
          List.append_nil]

end DeclarationModel

def Declaration.raw (d : Declaration) : RawDeclaration := ⟨d.element, d.args⟩

namespace DeclarationModel

def batches (m : DeclarationModel) : List (Marker × List RawDeclaration) :=
  m.groups.entries.map fun g => (g.1, g.2.map Declaration.raw)

theorem map_marked_raw {kind : Marker} {ds : List Declaration}
    (h : ∀ d ∈ ds, d.marker = kind) : (ds.map Declaration.raw).map (·.marked kind) = ds := by
  rw [List.map_map]
  have hself : ∀ d ∈ ds, ((·.marked kind) ∘ Declaration.raw) d = id d := by
    intro d hd
    rw [← h d hd]
    rfl
  rw [List.map_congr_left hself, List.map_id]

theorem entries_addBatch {m : DeclarationModel} {kind : Marker} {ds : List Declaration}
    (hkind : kind ∉ m.groups.keys) (hmarker : ∀ d ∈ ds, d.marker = kind)
    (distinct : (ds.map Declaration.qualifiedName).Nodup) :
    (m.addBatch kind (ds.map Declaration.raw)).groups.entries =
      m.groups.entries ++ [(kind, ds)] := by
  have hds : appendNew (m.declarations kind) ((ds.map Declaration.raw).map (·.marked kind)) =
      ds := by
    rw [map_marked_raw hmarker, declarations_eq_nil hkind,
      appendNew_eq_append (by simpa using distinct), List.nil_append]
  unfold addBatch
  rw [hds]
  exact Table.entries_insert_of_notMem ds hkind

/-- Extracting exactly the declarations of a model gives the model again. -/
theorem extract_batches {m : DeclarationModel} (h : m.Grouped) : extract m.batches = m := by
  have hgroup : ∀ g ∈ m.groups.entries,
      (∀ d ∈ g.2, d.marker = g.1) ∧ (g.2.map Declaration.qualifiedName).Nodup := by
    intro g hg
    have hds : m.declarations g.1 = g.2 := by
      rw [declarations, Table.mem_entries_iff.1 hg, Option.getD_some]
    exact hds ▸ ⟨h.marker_eq g.1, h.distinct g.1⟩
  -- The groups that are still to come have kinds that the model does not have yet.
  have hfold : ∀ (gs : List (Marker × List Declaration)) (n : DeclarationModel),
      (∀ g ∈ gs, (∀ d ∈ g.2, d.marker = g.1) ∧ (g.2.map Declaration.qualifiedName).Nodup) →
      ((n.groups.entries ++ gs).map Prod.fst).Nodup →
      ((gs.map fun g => (g.1, g.2.map Declaration.raw)).foldl
        (fun m b => m.addBatch b.1 b.2) n).groups.entries = n.groups.entries ++ gs := by
    intro gs
    induction gs with
    | nil => intro n _ _; simp
    | cons g gs ih =>
      intro n hgs distinct
      have hnew : g.1 ∉ n.groups.keys := by
        intro hkey
        rw [List.map_append, List.nodup_append] at distinct
        exact distinct.2.2 _ hkey _ List.mem_cons_self rfl
      obtain ⟨hmarker, hnames⟩ := hgs g List.mem_cons_self
      have hentries := entries_addBatch hnew hmarker hnames
      rw [List.map_cons, List.foldl_cons, ih, hentries, List.append_assoc]
      · rfl
      · exact fun g' hg' => hgs g' (List.mem_cons_of_mem g hg')
      · rw [hentries, List.append_assoc]
        exact distinct
  have hentries := hfold m.groups.entries empty hgroup m.groups.nodup
  have hgroups : (extract m.batches).groups = m.groups := Table.ext_entries hentries
  cases m
  exact congrArg DeclarationModel.mk hgroups

end DeclarationModel

end ComponentGlue
