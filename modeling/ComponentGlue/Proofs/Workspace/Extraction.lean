import Mathlib.Data.List.Find
import ComponentGlue.Pipeline
import ComponentGlue.Proofs.Input
import ComponentGlue.Proofs.Run.Extraction
import ComponentGlue.Workspace

set_option autoImplicit false
set_option relaxedAutoImplicit false

namespace ComponentGlue

open DeclarationModel (extract givenFor)

def Element.identity (e : Element) : ElementKind × String × String × List String :=
  (e.kind, e.owner, e.name, e.paramTypes)

theorem Element.qualifiedName_of_identity_eq {e e' : Element} (h : e.identity = e'.identity) :
    e.qualifiedName = e'.qualifiedName := by
  simp only [identity, Prod.mk.injEq] at h
  obtain ⟨hkind, howner, hname, -⟩ := h
  rw [qualifiedName, qualifiedName, hkind, howner, hname]

def DeclarationModel.Holds (m : DeclarationModel) (marker : Marker) (e : Element) : Prop :=
  ∃ d ∈ m.declarations marker, d.element.identity = e.identity

instance (m : DeclarationModel) (marker : Marker) (e : Element) : Decidable (m.Holds marker e) :=
  List.decidableBEx _ (m.declarations marker)

theorem Phase.readBatches_eq {m : Type → Type} [Monad m] [LawfulMonad m] {env : Environment m}
    {given : Marker → List RawDeclaration}
    (h : ∀ marker, env.declarations marker = pure (.ok (given marker))) (markers : List Marker) :
    readBatches env markers = pure (.ok (markers.map fun marker => (marker, given marker))) := by
  induction markers with
  | nil => rfl
  | cons marker markers ih => simp [readBatches, h, ih]

namespace DeclarationFile

variable {read : String → Option Document} {source : String} {file : DeclarationFile}
  {marker : Marker}

def batches (file : DeclarationFile) : List (Marker × List RawDeclaration) :=
  file.markers.map fun marker => (marker, file.declarationsFor marker)

theorem mem_markers_iff : marker ∈ file.markers ↔ ∃ d ∈ file.entries, d.marker = marker := by
  rw [markers, Table.mem_keys_foldl_insert]
  exact or_iff_right List.not_mem_nil

theorem nodup_markers (file : DeclarationFile) : file.markers.Nodup := Table.nodup _

theorem givenFor_batches (file : DeclarationFile) (marker : Marker) :
    givenFor file.batches marker = file.declarationsFor marker := by
  rw [batches, DeclarationModel.givenFor_map _ file.nodup_markers]
  split
  · rfl
  · next hmarker =>
    rw [declarationsFor, List.filter_eq_nil_iff.2, List.map_nil]
    intro d hd hmarked
    exact hmarker (mem_markers_iff.2 ⟨d, hd, of_decide_eq_true hmarked⟩)

theorem runExtract_environment {σ : Type} {m : Type → Type} [Monad m] [LawfulMonad m]
    (disk : Disk m) (w : Workspace) (file : DeclarationFile)
    (render : GenerationModel → StateT σ m (Except Interruption Nat)) (project : Project)
    (registry : Registry) (p : Progress) :
    Phase.runExtract (w.environment disk file render)
        ⟨.ofMarkers file.markers, project, registry⟩ p =
      pure (.ok (), { p with extracted := some (extract file.batches) }) := by
  have hanswer : ∀ marker, (w.environment disk file render).declarations marker =
      pure (.ok (file.declarationsFor marker)) := fun _ => rfl
  unfold Phase.runExtract
  rw [Phase.readBatches_eq hanswer, pure_bind]
  rfl

/-- A declaration stands in the model of an accepted file exactly when it is the same as the first one
of its marker that has its name parts. -/
theorem holds_iff (hparse : parseWith read source = .ok file) {r : RawDeclaration}
    (hr : r ∈ file.declarationsFor marker) :
    (extract file.batches).Holds marker r.element ↔
      ∃ s, (file.declarationsFor marker).find? (fun s =>
          s.element.nameParts = r.element.nameParts) = some s ∧
        s.element.identity = r.element.identity := by
  have hnamed := wellNamed_of_parse hparse marker
  have hfind : ∀ e : Element, e.qualifiedName = r.element.qualifiedName →
      (file.declarationsFor marker).find? (fun s => s.element.qualifiedName == e.qualifiedName) =
        (file.declarationsFor marker).find? fun s => s.element.nameParts = r.element.nameParts := by
    intro e he
    refine List.find?_congr fun s hs => ?_
    rw [he, Bool.eq_iff_iff, beq_iff_eq, decide_eq_true_iff]
    exact (hnamed s hs).qualifiedName_eq_iff (hnamed r hr)
  constructor
  · rintro ⟨d, hd, hsame⟩
    rw [DeclarationModel.mem_declarations_extract_iff, givenFor_batches] at hd
    obtain ⟨s, hs, rfl⟩ := hd
    have hname := Element.qualifiedName_of_identity_eq hsame
    exact ⟨s, (hfind _ hname).symm.trans hs, hsame⟩
  · rintro ⟨s, hs, hsame⟩
    have hname := Element.qualifiedName_of_identity_eq hsame
    refine ⟨s.marked marker, ?_, hsame⟩
    rw [DeclarationModel.mem_declarations_extract_iff, givenFor_batches]
    exact ⟨s, (hfind _ hname).trans hs, rfl⟩

/-- No two different declarations of the marker have the same name parts. -/
def Unconfused (file : DeclarationFile) (marker : Marker) : Prop :=
  ∀ r ∈ file.declarationsFor marker, ∀ s ∈ file.declarationsFor marker,
    r.element.nameParts = s.element.nameParts → r.element.identity = s.element.identity

instance (file : DeclarationFile) (marker : Marker) : Decidable (file.Unconfused marker) :=
  inferInstanceAs (Decidable (∀ r ∈ file.declarationsFor marker,
    ∀ s ∈ file.declarationsFor marker, _ → _))

theorem identity_eq_of_holds (hparse : parseWith read source = .ok file) {r s : RawDeclaration}
    (hr : r ∈ file.declarationsFor marker) (hs : s ∈ file.declarationsFor marker)
    (hr' : (extract file.batches).Holds marker r.element)
    (hs' : (extract file.batches).Holds marker s.element)
    (hparts : r.element.nameParts = s.element.nameParts) :
    r.element.identity = s.element.identity := by
  obtain ⟨first, hfirst, hsame⟩ := (holds_iff hparse hr).1 hr'
  obtain ⟨first', hfirst', hsame'⟩ := (holds_iff hparse hs).1 hs'
  rw [hparts, hfirst'] at hfirst
  obtain rfl := Option.some.inj hfirst
  exact hsame.symm.trans hsame'

theorem holds_of_unconfused (hparse : parseWith read source = .ok file) (h : file.Unconfused marker)
    {r : RawDeclaration} (hr : r ∈ file.declarationsFor marker) :
    (extract file.batches).Holds marker r.element := by
  have hsome : ((file.declarationsFor marker).find? fun s =>
      s.element.nameParts = r.element.nameParts).isSome = true :=
    List.find?_isSome.2 ⟨r, hr, decide_eq_true rfl⟩
  obtain ⟨s, hs⟩ := Option.isSome_iff_exists.1 hsome
  have hparts : s.element.nameParts = r.element.nameParts :=
    of_decide_eq_true (List.find?_some hs :)
  exact (holds_iff hparse hr).2 ⟨s, hs, h s (List.mem_of_find?_eq_some hs) r hr hparts⟩

/-- Of the declarations of an accepted file, the extraction phase leaves out those that are confused
with an earlier one of their marker: one with the same owner and name, a type like it or a member like
it, but of another kind or with other parameter types. So any two different declarations of a marker
are both extracted if and only if none are confused. -/
theorem extraction_of_parse (hparse : parse source = .ok file) :
    (∀ {σ : Type} {m : Type → Type} [Monad m] [LawfulMonad m] (disk : Disk m) (w : Workspace)
      (render : GenerationModel → StateT σ m (Except Interruption Nat)) (project : Project)
      (registry : Registry) (p : Progress),
      Phase.runExtract (w.environment disk file render)
          ⟨.ofMarkers file.markers, project, registry⟩ p =
        pure (.ok (), { p with extracted := some (extract file.batches) })) ∧
    ∀ marker,
      (∀ r ∈ file.declarationsFor marker, (extract file.batches).Holds marker r.element ↔
        ∃ s, (file.declarationsFor marker).find? (fun s =>
            s.element.nameParts = r.element.nameParts) = some s ∧
          s.element.identity = r.element.identity) ∧
      ((∀ r ∈ file.declarationsFor marker, ∀ s ∈ file.declarationsFor marker,
        r.element.identity ≠ s.element.identity →
          (extract file.batches).Holds marker r.element ∧
          (extract file.batches).Holds marker s.element) ↔
        file.Unconfused marker) := by
  refine ⟨fun disk w render => runExtract_environment disk w file render,
    fun marker => ⟨fun r hr => holds_iff hparse hr, ?_, ?_⟩⟩
  · intro hboth r hr s hs hparts
    by_contra hdiffer
    obtain ⟨hr', hs'⟩ := hboth r hr s hs hdiffer
    exact hdiffer (identity_eq_of_holds hparse hr hs hr' hs' hparts)
  · intro hunconfused r hr s hs _
    exact ⟨holds_of_unconfused hparse hunconfused hr, holds_of_unconfused hparse hunconfused hs⟩

private def sameNames : String :=
  "declaration=[\x7bmarker=\"pin\",kind=\"method\",owner=\"Ui\",name=\"go\"\x7d," ++
    "\x7bmarker=\"pin\",kind=\"method\",owner=\"Ui\",name=\"go\"," ++
    "params=[\x7bname=\"x\",type=\"int\"\x7d]\x7d," ++
    "\x7bmarker=\"pin\",kind=\"field\",owner=\"Ui\",name=\"go\"\x7d]"

/-- Of two overloads and a field of one name, only one is in the model. -/
theorem not_holds_overload : ∃ file, parse sameNames = .ok file ∧
    (file.declarationsFor ⟨"pin"⟩).length = 3 ∧
    (file.declarationsFor ⟨"pin"⟩).Pairwise
      (fun r s => r.element.identity ≠ s.element.identity) ∧
    ∃ r ∈ file.declarationsFor ⟨"pin"⟩, (extract file.batches).Holds ⟨"pin"⟩ r.element ∧
      ∀ s ∈ file.declarationsFor ⟨"pin"⟩, s.element.identity ≠ r.element.identity →
        ¬ (extract file.batches).Holds ⟨"pin"⟩ s.element := by
  have hdropped : (parse sameNames).toOption.any (fun file => decide
      ((file.declarationsFor ⟨"pin"⟩).length = 3 ∧
        (file.declarationsFor ⟨"pin"⟩).Pairwise
          (fun r s => r.element.identity ≠ s.element.identity) ∧
        ∃ r ∈ file.declarationsFor ⟨"pin"⟩, (extract file.batches).Holds ⟨"pin"⟩ r.element ∧
          ∀ s ∈ file.declarationsFor ⟨"pin"⟩, s.element.identity ≠ r.element.identity →
            ¬ (extract file.batches).Holds ⟨"pin"⟩ s.element)) = true := by decide +kernel
  cases hparse : parse sameNames with
  | error e =>
    rw [hparse] at hdropped
    cases hdropped
  | ok file =>
    rw [hparse] at hdropped
    exact ⟨file, rfl, of_decide_eq_true hdropped⟩

private def listedTwice : String :=
  "declaration=[\x7bmarker=\"pin\",kind=\"method\",owner=\"Ui\",name=\"go\"\x7d," ++
    "\x7bmarker=\"pin\",kind=\"method\",owner=\"Ui\",name=\"go\"\x7d," ++
    "\x7bmarker=\"pin\",kind=\"method\",owner=\"Ui\",name=\"stop\"\x7d]"

theorem extraction_of_parse_listedTwice : ∃ file, parse listedTwice = .ok file ∧
    (file.declarationsFor ⟨"pin"⟩).length = 3 ∧
    ((extract file.batches).declarations ⟨"pin"⟩).length = 2 ∧ file.Unconfused ⟨"pin"⟩ ∧
    ∀ r ∈ file.declarationsFor ⟨"pin"⟩, ∀ s ∈ file.declarationsFor ⟨"pin"⟩,
      r.element.identity ≠ s.element.identity →
        (extract file.batches).Holds ⟨"pin"⟩ r.element ∧
        (extract file.batches).Holds ⟨"pin"⟩ s.element := by
  have hkept : (parse listedTwice).toOption.any (fun file => decide
      ((file.declarationsFor ⟨"pin"⟩).length = 3 ∧
        ((extract file.batches).declarations ⟨"pin"⟩).length = 2 ∧
        file.Unconfused ⟨"pin"⟩)) = true := by decide +kernel
  cases hparse : parse listedTwice with
  | error e =>
    rw [hparse] at hkept
    cases hkept
  | ok file =>
    rw [hparse] at hkept
    obtain ⟨hlisted, hextracted, hunconfused⟩ := of_decide_eq_true hkept
    exact ⟨file, rfl, hlisted, hextracted, hunconfused,
      ((extraction_of_parse hparse).2 ⟨"pin"⟩).2.2 hunconfused⟩

end DeclarationFile

end ComponentGlue
