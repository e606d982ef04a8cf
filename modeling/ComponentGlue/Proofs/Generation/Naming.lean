import Mathlib.Data.List.TakeWhile
import ComponentGlue.Artifact
import ComponentGlue.Input
import ComponentGlue.Proofs.Disk.Tree
import ComponentGlue.Proofs.Generation.Correspondence
import ComponentGlue.Proofs.Input

set_option autoImplicit false
set_option relaxedAutoImplicit false

namespace ComponentGlue

section Suffix

variable {name owner suffix : String}

theorem isIdentifier_append (hname : isIdentifier name = true)
    (hsuffix : ∀ c ∈ suffix.toList, continuesIdentifier c = true) :
    isIdentifier (name ++ suffix) = true := by
  unfold isIdentifier at hname ⊢
  rw [String.toList_append]
  cases hchars : name.toList with
  | nil =>
    rw [hchars] at hname
    cases hname
  | cons c s =>
    rw [hchars, isIdentifierChars, Bool.and_eq_true] at hname
    rw [List.cons_append, isIdentifierChars, Bool.and_eq_true, List.all_append, Bool.and_eq_true]
    exact ⟨hname.1, hname.2, List.all_eq_true.2 hsuffix⟩

theorem isQualifiedName_of_isIdentifier (h : isIdentifier name = true) :
    isQualifiedName name = true := by
  rw [isQualifiedName, Text.splitAll_of_notMem (dot_notMem_of_isIdentifier h)]
  exact List.all_eq_true.2 fun piece hpiece => List.mem_singleton.1 hpiece ▸ h

theorem isQualifiedName_dotted (howner : isQualifiedName owner = true)
    (hname : isIdentifier name = true) : isQualifiedName (owner ++ "." ++ name) = true := by
  have hchars : (owner ++ "." ++ name).toList = owner.toList ++ '.' :: name.toList := by simp
  rw [isQualifiedName, hchars, Text.splitAll_append_cons, List.all_append, Bool.and_eq_true]
  exact ⟨howner, isQualifiedName_of_isIdentifier hname⟩

theorem simpleName_of_notMem (h : '.' ∉ name.toList) : simpleName name = name := by
  have hfree : ∀ c ∈ name.toList.reverse, decide (c ≠ '.') = true :=
    fun c hc => decide_eq_true fun hdot => h (hdot ▸ List.mem_reverse.1 hc)
  rw [simpleName, List.takeWhile_eq_self_iff.2 hfree, List.reverse_reverse, String.ofList_toList]

theorem slash_notMem_of_isQualifiedName (h : isQualifiedName name = true) : '/' ∉ name.toList := by
  intro hc
  obtain ⟨piece, hpiece, hmem⟩ := Text.exists_mem_splitAll hc (by decide : '/' ≠ '.')
  exact absurd (continuesIdentifier_of_mem (List.all_eq_true.1 h piece hpiece) hmem) (by decide)

theorem Element.WellNamed.suffixed {e : Element} (h : e.WellNamed) (htype : e.kind.isType = true)
    (hsuffix : ∀ c ∈ suffix.toList, continuesIdentifier c = true) :
    isQualifiedName (e.qualifiedName ++ suffix) = true ∧
      simpleName (e.qualifiedName ++ suffix) = simpleName e.qualifiedName ++ suffix := by
  have hname := isIdentifier_append h.name hsuffix
  have hdot := dot_notMem_of_isIdentifier h.name
  have hdot' := dot_notMem_of_isIdentifier hname
  rw [Element.qualifiedName, if_pos htype]
  split
  · exact ⟨isQualifiedName_of_isIdentifier hname,
      (simpleName_of_notMem hdot').trans (congrArg (· ++ suffix) (simpleName_of_notMem hdot).symm)⟩
  · next howner =>
    have hqualified := h.isQualifiedName_owner.resolve_left fun hdefault =>
      howner (String.isEmpty_iff.2 hdefault.2)
    rw [String.append_assoc, simpleName_dotted hdot, simpleName_dotted hdot']
    exact ⟨isQualifiedName_dotted hqualified hname, rfl⟩

end Suffix

theorem Manifest.suffix_of_parse {read : String → Option Document} {source : String} {m : Manifest}
    (h : parseWith read source = .ok m) : ∀ c ∈ m.suffix.toList, continuesIdentifier c = true := by
  have hcheck : m.check source = .ok () := (parseInput_eq_ok_iff.1 h).2
  have hsuffix : isIdentifier ("A" ++ m.suffix) = true := by
    have hbind : ∀ (x : Except InputError Unit) (f : Unit → Except InputError Unit),
        (x >>= f) = .ok () → f () = .ok () := by
      rintro (e | ⟨⟩) f hf
      · cases hf
      · exact hf
    have hlast := hbind _ _ (hbind _ _ (hbind _ _ hcheck))
    split at hlast
    · cases hlast
    split at hlast
    · assumption
    · cases hlast
  intro c hc
  refine continuesIdentifier_of_mem hsuffix ?_
  rw [String.toList_append]
  exact List.mem_append_right _ hc

theorem GeneratedType.entryName_artifact {t : GeneratedType} (h : isQualifiedName t.name = true) :
    FileTree.EntryName t.artifact.fileName := by
  have hchars : t.artifact.fileName.toList = t.name.toList ++ ['.', 'j', 's', 'o', 'n'] := by
    simp [artifact]
  have hother : ∀ s : String, s.toList.length < 5 → t.artifact.fileName ≠ s := by
    rintro s hlength heq
    have hlong := congrArg List.length hchars
    rw [heq, List.length_append] at hlong
    simp at hlong hlength
    omega
  refine ⟨hother "" (by decide), hother "." (by decide), hother ".." (by decide), ?_⟩
  rw [hchars, List.mem_append, not_or]
  exact ⟨slash_notMem_of_isQualifiedName h, by decide⟩

theorem StandardKind.isType_of_typeKinds {k : StandardKind} {c : ValidationContext}
    {d : Declaration} (hkind : k ∈ typeKinds) (hfits : k.Fits c d) :
    d.element.kind.isType = true := by
  have hkind' : d.element.kind = .classType ∨ d.element.kind = .interfaceType := by
    simp only [typeKinds, List.mem_cons, List.not_mem_nil, or_false] at hkind
    rcases hkind with rfl | rfl | rfl
    · exact Or.inl hfits.met.own.1
    · exact Or.inr hfits.met.own.1
    · exact Or.inr hfits.met.own.1
  rcases hkind' with h | h
  · rw [h]
    rfl
  · rw [h]
    rfl

/-- The names of a model's types: each one is a qualified name, that of the type's origin with the suffix,
and the types' files lie side by side in any output directory. -/
structure GenerationModel.Named (model : GenerationModel) (suffix : String) : Prop where
  qualified : ∀ t ∈ model.typeList, isQualifiedName t.name = true
  simple : ∀ t ∈ model.typeList, simpleName t.name = simpleName t.origin ++ suffix
  apart : ∀ t ∈ model.typeList, ∀ t' ∈ model.typeList, t.origin ≠ t'.origin → t.name ≠ t'.name
  /-- The file is an entry of the output directory itself. -/
  inside : ∀ t ∈ model.typeList, ∀ dir, FileTree.EntryName t.artifact.fileName ∧
    FileTree.placeOf (t.artifact.path dir) = FileTree.placeOf dir ++ [t.artifact.fileName] ∧
    FileTree.above (FileTree.placeOf (t.artifact.path dir)) = FileTree.placeOf dir
  /-- Different types have different files. -/
  files : ∀ dir, (model.artifacts.map fun a => FileTree.placeOf (a.path dir)).Nodup

namespace StandardRun

variable (run : StandardRun)

theorem exists_origin {t : GeneratedType} (ht : t ∈ run.model.typeList) :
    t.name = t.origin ++ run.project.suffix ∧
      ∃ x ∈ run.accepted.typeSteps, t.origin = x.2.qualifiedName := by
  obtain ⟨hfound, x, hlast⟩ := run.exists_lastPut_of_mem ht
  obtain ⟨hx, horigin⟩ := mem_of_lastPut hlast
  exact ⟨(run.exists_head hfound).1, x, hx, horigin.symm⟩

/-- The types of a run over well-named declarations are safely named. -/
theorem named_model (hsuffix : ∀ c ∈ run.project.suffix.toList, continuesIdentifier c = true)
    (hnamed : ∀ batch ∈ run.batches, ∀ r ∈ batch.2, r.element.WellNamed) :
    run.model.Named run.project.suffix := by
  have hsuffixed : ∀ t ∈ run.model.typeList, isQualifiedName t.name = true ∧
      simpleName t.name = simpleName t.origin ++ run.project.suffix := by
    intro t ht
    obtain ⟨hname, x, hx, horigin⟩ := run.exists_origin ht
    have haccepts := run.accepts hx
    obtain ⟨r, hr, hmarked⟩ := DeclarationModel.mem_declarations_extract_iff.1 haccepts.extracted
    obtain ⟨batch, hbatch, -, hmem⟩ :=
      DeclarationModel.mem_givenFor_iff.1 (List.mem_of_find?_eq_some hr)
    have hwell : x.2.element.WellNamed := hmarked ▸ hnamed batch hbatch r hmem
    have htype := StandardKind.isType_of_typeKinds (mem_typeSteps_iff.1 hx).2 haccepts.fits
    rw [hname, horigin]
    exact hwell.suffixed htype hsuffix
  have hentry : ∀ t ∈ run.model.typeList, FileTree.EntryName t.artifact.fileName :=
    fun t ht => t.entryName_artifact (hsuffixed t ht).1
  -- What is left is about the files: distinct names, one segment each, and so distinct places.
  refine ⟨fun t ht => (hsuffixed t ht).1, fun t ht => (hsuffixed t ht).2, ?_, ?_, ?_⟩
  · intro t ht t' ht' hne heq
    rw [(run.exists_origin ht).1, (run.exists_origin ht').1] at heq
    exact hne (run.project.generatedName_injective heq)
  · intro t ht dir
    have hplace := FileTree.placeOf_join (hentry t ht) dir
    refine ⟨hentry t ht, hplace, ?_⟩
    rw [Artifact.path, hplace]
    exact FileTree.above_append_entryName (hentry t ht) _
  · intro dir
    have hnames : (run.model.typeList.map GeneratedType.name).Nodup :=
      run.names_model ▸ run.model.types.nodup
    rw [GenerationModel.artifacts, List.map_map]
    refine (List.pairwise_map.1 hnames).imp_of_mem ?_ |> List.pairwise_map.2
    intro t t' ht ht' hne heq
    have hfiles : t.artifact.fileName = t'.artifact.fileName := by
      have hplaces : FileTree.placeOf (t.artifact.path dir) =
        FileTree.placeOf (t'.artifact.path dir) := heq
      rw [Artifact.path, Artifact.path, FileTree.placeOf_join (hentry t ht),
        FileTree.placeOf_join (hentry t' ht')] at hplaces
      exact List.singleton_inj.1 (List.append_cancel_left hplaces)
    exact hne (String.append_left_inj _ |>.1 hfiles)

end StandardRun

/-- Generated names are safe and unambiguous whenever processing ends, in a run over the declarations of a
file that is accepted for a project whose manifest is accepted. -/
theorem Pipeline.named_generation {σ : Type} {env : Environment (StateM σ)}
    {source source' : String} {m : Manifest} {file : DeclarationFile} {round : Round} {s : σ}
    {v : Visit} (hmanifest : Manifest.parse source = .ok m)
    (hfile : DeclarationFile.parse source' = .ok file)
    (hhost : ∀ marker s, (env.declarations marker s).1 = .ok (file.declarationsFor marker))
    (hv : v ∈ visited env round (.new .standard m.project) s) (hphase : v.phase = .process)
    (hended : v.ending = .ok ()) :
    ∃ model, v.after.generation = some model ∧ model.Named m.suffix := by
  obtain ⟨run, hproject, hbatches, -, -, -, -, -, hgeneration, -⟩ :=
    exists_standardRun (show (Pipeline.new .standard m.project).registry = .standard from rfl)
      hv hphase hended
  have hproject' : run.project = m.project := hproject
  have hsuffix : run.project.suffix = m.suffix := congrArg Project.suffix hproject'
  refine ⟨run.model, hgeneration, hsuffix ▸ run.named_model ?_ ?_⟩
  · rw [hsuffix]
    exact Manifest.suffix_of_parse hmanifest
  · intro batch hbatch r hr
    obtain ⟨t, hgiven⟩ := Phase.given_of_readBatches hbatches hbatch
    rw [hhost] at hgiven
    rw [← Except.ok.inj hgiven] at hr
    exact DeclarationFile.wellNamed_of_parse hfile batch.1 r hr

private def shopManifest : String :=
  "[project]\npackage = \"shop\"\n" ++
    "[sources]\ndeclarations = \"d.toml\"\nproject_symbols = \"s.toml\"\n"

private def shopDeclarations : String :=
  "[[declaration]]\nmarker = \"enhanced-component\"\nkind = \"class\"\nowner = \"shop\"\n" ++
    "name = \"Main\"\n" ++
    "[[declaration]]\nmarker = \"shared-pref\"\nkind = \"interface\"\nname = \"Prefs\"\n"

private def shopHost (file : DeclarationFile) : Environment (StateM Unit) where
  declarations marker := pure (.ok (file.declarationsFor marker))
  symbols _ := pure (.ok (.ok []))
  render model := pure (.ok model.artifactCount)
  report _ := pure ()
  now := pure 0

private def shopVisits (m : Manifest) (file : DeclarationFile) : List Visit :=
  Pipeline.visited (shopHost file) (.ofMarkers file.markers) (.new .standard m.project) ()

private def shopSummary (v : Visit) : Phase × Bool × List String :=
  (v.phase, v.ending.toBool,
    (v.after.generation.toList.flatMap GenerationModel.typeList).map GeneratedType.name)

theorem Pipeline.named_generation_shop : ∃ m file v model,
    Manifest.parse shopManifest = .ok m ∧ DeclarationFile.parse shopDeclarations = .ok file ∧
    v ∈ shopVisits m file ∧ v.phase = .process ∧ v.ending = .ok () ∧
    v.after.generation = some model ∧
    model.typeList.map GeneratedType.name = ["shop.Main_", "Prefs_"] ∧ model.Named m.suffix := by
  have hsummary : ((Manifest.parse shopManifest).toOption.bind fun m =>
      (DeclarationFile.parse shopDeclarations).toOption.bind fun file =>
        (shopVisits m file)[3]?.map shopSummary) =
      some (.process, true, ["shop.Main_", "Prefs_"]) := by decide +kernel
  obtain ⟨m, hm, hsummary⟩ := Option.bind_eq_some_iff.1 hsummary
  obtain ⟨file, hfile, hsummary⟩ := Option.bind_eq_some_iff.1 hsummary
  obtain ⟨v, hv, hsummary⟩ := Option.map_eq_some_iff.1 hsummary
  have hmanifest := eq_ok_of_toOption hm
  have hdeclarations := eq_ok_of_toOption hfile
  have hmem := List.mem_of_getElem? hv
  have hphase : (shopSummary v).1 = .process := congrArg Prod.fst hsummary
  have hbool : (shopSummary v).2.1 = true := congrArg (·.2.1) hsummary
  have htypes : (shopSummary v).2.2 = ["shop.Main_", "Prefs_"] := congrArg (·.2.2) hsummary
  have hended : v.ending = .ok () := by
    rcases hending : v.ending with e | ⟨⟩
    · rw [shopSummary, hending] at hbool
      cases hbool
    · rfl
  obtain ⟨model, hmodel, hnamed⟩ := named_generation hmanifest hdeclarations
    (fun _ _ => rfl) hmem hphase hended
  rw [shopSummary, hmodel, Option.toList_some, List.flatMap_singleton] at htypes
  exact ⟨m, file, v, model, hmanifest, hdeclarations, hmem, hphase, hended, hmodel, htypes, hnamed⟩

end ComponentGlue
