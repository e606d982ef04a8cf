import Mathlib.Data.Finset.Insert
import ComponentGlue.Proofs.Run.Extraction

set_option autoImplicit false
set_option relaxedAutoImplicit false

namespace ComponentGlue

def RawDeclaration.firstOfEachName (rs : List RawDeclaration) : List RawDeclaration :=
  rs.eraseDupsBy fun r s => r.element.qualifiedName == s.element.qualifiedName

open RawDeclaration (firstOfEachName)

theorem RawDeclaration.firstOfEachName_cons (r : RawDeclaration) (rs : List RawDeclaration) :
    firstOfEachName (r :: rs) = r :: firstOfEachName (rs.filter fun s =>
      s.element.qualifiedName ≠ r.element.qualifiedName) := by
  simp [firstOfEachName, List.eraseDupsBy_cons]

namespace DeclarationModel

variable {m m' : DeclarationModel} {kind : Marker}

theorem entries_groups (m : DeclarationModel) :
    m.groups.entries = m.kinds.map fun kind => (kind, m.declarations kind) :=
  m.groups.entries_eq_map_keys []

theorem ext_declarations (hkinds : m.kinds = m'.kinds)
    (h : ∀ kind, m.declarations kind = m'.declarations kind) : m = m' := by
  obtain ⟨groups⟩ := m
  obtain ⟨groups'⟩ := m'
  refine congrArg DeclarationModel.mk (Table.ext_entries ?_)
  rw [entries_groups ⟨groups⟩, entries_groups ⟨groups'⟩, hkinds]
  exact List.map_congr_left fun kind _ => by rw [h]

theorem appendNew_marked (found : List Declaration) (rs : List RawDeclaration) (kind : Marker) :
    appendNew found (rs.map (·.marked kind)) = found ++ (firstOfEachName (rs.filter fun r =>
      ¬ (found.any fun e => e.qualifiedName == r.element.qualifiedName) = true)).map
        (·.marked kind) := by
  induction rs generalizing found with
  | nil => simp [appendNew, firstOfEachName]
  | cons r rs ih =>
    have hname : (r.marked kind).qualifiedName = r.element.qualifiedName := rfl
    rw [List.map_cons, appendNew, hname]
    split
    · next hold =>
      rw [ih, List.filter_cons_of_neg (by simpa using hold)]
    · next hnew =>
      have hrest : (rs.filter fun s => ¬ ((found ++ [r.marked kind]).any fun e =>
          e.qualifiedName == s.element.qualifiedName) = true) =
          (rs.filter fun s => ¬ (found.any fun e =>
            e.qualifiedName == s.element.qualifiedName) = true).filter fun s =>
              s.element.qualifiedName ≠ r.element.qualifiedName := by
        rw [List.filter_filter]
        refine List.filter_congr fun s _ => ?_
        have hcomm : r.element.qualifiedName = s.element.qualifiedName ↔
            s.element.qualifiedName = r.element.qualifiedName := eq_comm
        rw [Bool.eq_iff_iff]
        simp [hname, hcomm, and_comm]
      rw [ih, hrest, List.filter_cons_of_pos (by simpa using hnew),
        RawDeclaration.firstOfEachName_cons]
      simp

theorem declarations_extract_eq (batches : List (Marker × List RawDeclaration)) (kind : Marker) :
    (extract batches).declarations kind =
      (firstOfEachName (givenFor batches kind)).map (·.marked kind) := by
  rw [declarations_extract, appendNew_marked]
  simp

theorem extract_snoc (batches : List (Marker × List RawDeclaration))
    (b : Marker × List RawDeclaration) :
    extract (batches ++ [b]) = (extract batches).addBatch b.1 b.2 := by
  simp [extract, List.foldl_append]

theorem kinds_extract (batches : List (Marker × List RawDeclaration)) :
    (extract batches).kinds = (batches.map Prod.fst).eraseDups := by
  induction batches using List.reverseRecOn with
  | nil => rfl
  | append_singleton batches b ih =>
    have hkinds : ((extract batches).addBatch b.1 b.2).kinds = _ :=
      (extract batches).groups.keys_insert b.1 _
    rw [extract_snoc, hkinds, List.map_append, List.map_singleton, eraseDups_snoc, ← ih]
    rfl

theorem extract_eq_extract_iff {batches batches' : List (Marker × List RawDeclaration)} :
    extract batches' = extract batches ↔
      (batches'.map Prod.fst).eraseDups = (batches.map Prod.fst).eraseDups ∧
      ∀ kind, firstOfEachName (givenFor batches' kind) = firstOfEachName (givenFor batches kind) := by
  have hinjective : ∀ kind, Function.Injective fun r : RawDeclaration => r.marked kind := by
    rintro kind ⟨element, args⟩ ⟨element', args'⟩ h
    cases h
    rfl
  rw [← kinds_extract, ← kinds_extract]
  constructor
  · intro h
    refine ⟨congrArg kinds h, fun kind => (hinjective kind).list_map ?_⟩
    have hsame := congrArg (fun m => m.declarations kind) h
    simpa only [declarations_extract_eq] using hsame
  · rintro ⟨hkinds, hfirst⟩
    refine ext_declarations hkinds fun kind => ?_
    rw [declarations_extract_eq, declarations_extract_eq, hfirst]

end DeclarationModel

open DeclarationModel (extract appendNew givenFor)

/-- One pass over the batches: the model so far, and the names that were seen under each marker. -/
structure Intake where
  model : DeclarationModel
  seen : Finset (String × Marker)

namespace Intake

def start : Intake := ⟨.empty, ∅⟩

def opened (s : Intake) (kind : Marker) : Intake :=
  ⟨⟨s.model.groups.insert kind (s.model.declarations kind)⟩, s.seen⟩

/-- Add a declaration unless its name was seen under this marker. -/
def take (kind : Marker) (s : Intake) (r : RawDeclaration) : Intake :=
  if (r.element.qualifiedName, kind) ∈ s.seen then s
  else ⟨s.model.add (r.marked kind), insert (r.element.qualifiedName, kind) s.seen⟩

def takeBatch (s : Intake) (b : Marker × List RawDeclaration) : Intake :=
  b.2.foldl (take b.1) (s.opened b.1)

def ofBatches (batches : List (Marker × List RawDeclaration)) : Intake :=
  batches.foldl takeBatch start

def Agrees (s : Intake) : Prop :=
  ∀ name kind, (name, kind) ∈ s.seen ↔ s.model.isAnnotated name kind = true

variable {s : Intake} {kind : Marker}

theorem agrees_start : start.Agrees := by
  intro name kind
  exact iff_of_false (Finset.notMem_empty _) Bool.false_ne_true

theorem declarations_opened (s : Intake) (kind kind' : Marker) :
    (s.opened kind).model.declarations kind' = s.model.declarations kind' := by
  refine (s.model.declarations_insert kind kind' _).trans ?_
  split
  · next h => rw [h]
  · rfl

theorem Agrees.opened (h : s.Agrees) (kind : Marker) : (s.opened kind).Agrees := by
  intro name kind'
  rw [DeclarationModel.isAnnotated, declarations_opened]
  exact h name kind'

theorem Agrees.take (h : s.Agrees) (kind : Marker) (r : RawDeclaration) :
    (take kind s r).Agrees := by
  unfold Intake.take
  split
  · exact h
  · intro name kind'
    have hmarker : (r.marked kind).marker = kind := rfl
    have hname : (r.marked kind).qualifiedName = r.element.qualifiedName := rfl
    rw [Finset.mem_insert, h, DeclarationModel.isAnnotated_iff, DeclarationModel.isAnnotated_iff,
      DeclarationModel.declarations_add, hmarker]
    by_cases hkind : kind = kind'
    · subst hkind
      simp [hname, or_and_right, exists_or, or_comm, eq_comm]
    · simp [hkind, Ne.symm hkind]

/-- While the set and the model agree, a kind that there is room for takes in a batch as a whole. -/
theorem Agrees.foldl_take (h : s.Agrees) (hopen : (s.opened kind).model = s.model)
    (rs : List RawDeclaration) :
    (rs.foldl (Intake.take kind) s).Agrees ∧
      (rs.foldl (Intake.take kind) s).model = s.model.addBatch kind rs := by
  -- The intake varies: each record is looked up among the names that are seen by then.
  induction rs generalizing s with
  | nil => exact ⟨h, hopen.symm⟩
  | cons r rs ih =>
    rw [List.foldl_cons]
    have hname : (r.marked kind).qualifiedName = r.element.qualifiedName := rfl
    by_cases hseen : (r.element.qualifiedName, kind) ∈ s.seen
    · have hold : (s.model.declarations kind).any (fun e =>
          e.qualifiedName == (r.marked kind).qualifiedName) = true := (h _ _).1 hseen
      have htake : Intake.take kind s r = s := if_pos hseen
      have hbatch : s.model.addBatch kind (r :: rs) = s.model.addBatch kind rs := by
        unfold DeclarationModel.addBatch
        rw [List.map_cons, appendNew, if_pos hold]
      rw [htake, hbatch]
      exact ih h hopen
    · have hnew : ¬ (s.model.declarations kind).any (fun e =>
          e.qualifiedName == (r.marked kind).qualifiedName) = true := fun hold =>
        hseen ((h _ _).2 hold)
      have htake : (Intake.take kind s r).model = s.model.add (r.marked kind) :=
        congrArg Intake.model (if_neg hseen)
      have hadded : (s.model.add (r.marked kind)).declarations kind =
          s.model.declarations kind ++ [r.marked kind] := by
        rw [DeclarationModel.declarations_add]
        exact if_pos rfl
      have hinsert : ∀ ds, (s.model.add (r.marked kind)).groups.insert kind ds =
          s.model.groups.insert kind ds := fun ds => s.model.groups.insert_insert kind _ ds
      have hopen' : ((Intake.take kind s r).opened kind).model = (Intake.take kind s r).model := by
        unfold Intake.opened
        rw [htake, hadded, hinsert]
        rfl
      have hbatch : (s.model.add (r.marked kind)).addBatch kind rs =
          s.model.addBatch kind (r :: rs) := by
        unfold DeclarationModel.addBatch
        rw [hadded, hinsert, List.map_cons, appendNew, if_neg hnew]
      rw [← hbatch, ← htake]
      exact ih (h.take kind r) hopen'

theorem Agrees.takeBatch (h : s.Agrees) (b : Marker × List RawDeclaration) :
    (s.takeBatch b).Agrees ∧ (s.takeBatch b).model = s.model.addBatch b.1 b.2 := by
  have hopen : ((s.opened b.1).opened b.1).model = (s.opened b.1).model := by
    refine congrArg DeclarationModel.mk ?_
    rw [declarations_opened]
    exact Table.insert_insert ..
  obtain ⟨hagrees, hmodel⟩ := (h.opened b.1).foldl_take hopen b.2
  refine ⟨hagrees, hmodel.trans ?_⟩
  unfold DeclarationModel.addBatch
  rw [declarations_opened]
  exact congrArg DeclarationModel.mk (Table.insert_insert ..)

theorem agrees_ofBatches (batches : List (Marker × List RawDeclaration)) :
    (ofBatches batches).Agrees ∧ (ofBatches batches).model = extract batches := by
  induction batches using List.reverseRecOn with
  | nil => exact ⟨agrees_start, rfl⟩
  | append_singleton batches b ih =>
    obtain ⟨hagrees, hmodel⟩ := ih
    have hsnoc : ofBatches (batches ++ [b]) = (ofBatches batches).takeBatch b := by
      simp [ofBatches, List.foldl_append]
    rw [hsnoc, DeclarationModel.extract_snoc, ← hmodel]
    exact hagrees.takeBatch b

end Intake

/-- Extraction groups the host's declarations by first occurrence. The kinds are the distinct markers in
order of first appearance, and under each kind stands the first declaration of each name that its batches
give, one batch after the other. What is annotated is what stands there, no name occurs twice under a
marker, and a single pass with one set of what was seen comes to the same. So batches may be split, merged,
interleaved and repeated as long as the order of first appearance and the first declarations of each name
stay. -/
theorem DeclarationModel.extract_groups (batches : List (Marker × List RawDeclaration)) :
    (extract batches).kinds = (batches.map Prod.fst).eraseDups ∧
    (∀ kind, (extract batches).declarations kind =
      (firstOfEachName (givenFor batches kind)).map (·.marked kind)) ∧
    (∀ name kind, (extract batches).isAnnotated name kind = true ↔
      ∃ d ∈ (extract batches).declarations kind, d.qualifiedName = name) ∧
    ((extract batches).all.map fun d => (d.qualifiedName, d.marker)).Nodup ∧
    ((Intake.ofBatches batches).model = extract batches ∧ ∀ name kind,
      (name, kind) ∈ (Intake.ofBatches batches).seen ↔
        (extract batches).isAnnotated name kind = true) ∧
    ∀ batches', extract batches' = extract batches ↔
      (batches'.map Prod.fst).eraseDups = (batches.map Prod.fst).eraseDups ∧
      ∀ kind, firstOfEachName (givenFor batches' kind) = firstOfEachName (givenFor batches kind) := by
  obtain ⟨hagrees, hmodel⟩ := Intake.agrees_ofBatches batches
  refine ⟨kinds_extract batches, declarations_extract_eq batches, fun _ _ => isAnnotated_iff,
    (grouped_extract batches).nodup_names, ⟨hmodel, ?_⟩, fun _ => extract_eq_extract_iff⟩
  rw [← hmodel]
  exact hagrees

end ComponentGlue
