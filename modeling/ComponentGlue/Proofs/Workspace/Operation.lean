import ComponentGlue.Proofs.Artifact.Writing
import ComponentGlue.Proofs.Generation.Naming
import ComponentGlue.Proofs.Pipeline.Quiet
import ComponentGlue.Workspace

/-!
Checking, previewing and baking on a file tree. The three operations prepare one and the same run and differ
in what the renderer does with the model; baking again finds every artifact current.
-/

set_option autoImplicit false
set_option relaxedAutoImplicit false

namespace ComponentGlue

/-- The number of artifacts that a result tells of. -/
def BakeResult.artifactCount : BakeResult → Nat
  | .written _ names unchanged => names.length + unchanged
  | .preview artifacts => artifacts.length

def BakeReport.artifactCount (r : BakeReport) : Nat :=
  (r.result.map BakeResult.artifactCount).getD 0

section Reading

variable {α : Type} {parse : String → Except InputError α} {p : Path} {t t' : FileTree} {a : α}

theorem snd_readInput (p : Path) (parse : String → Except InputError α) (t : FileTree) :
    (readInput FileTree.disk p parse t).2 = t := by
  unfold readInput
  rw [stateM_bind_apply]
  cases (FileTree.disk.read p t).1 <;> rfl

theorem readInput_congr (h : t'.read p = t.read p) :
    (readInput FileTree.disk p parse t').1 = (readInput FileTree.disk p parse t).1 := by
  have hdisk : ∀ t : FileTree, FileTree.disk.read p t = (t.read p, t) := fun _ => rfl
  unfold readInput
  rw [stateM_bind_apply, stateM_bind_apply, hdisk, hdisk, h]
  cases t.read p <;> rfl

theorem exists_parse_of_readInput (h : (readInput FileTree.disk p parse t).1 = .ok a) :
    ∃ text, t.read p = .ok text ∧ parse text = .ok a := by
  have hdisk : FileTree.disk.read p t = (t.read p, t) := rfl
  unfold readInput at h
  rw [stateM_bind_apply, hdisk] at h
  cases hread : t.read p with
  | error cause =>
    rw [hread] at h
    cases h
  | ok text =>
    rw [hread] at h
    exact ⟨text, rfl, h⟩

end Reading

namespace Workspace

variable {w : Workspace} {file : DeclarationFile} {t t' : FileTree} {σ : Type}

def inputs (w : Workspace) : List Path :=
  [w.path, w.declarationsPath, w.projectSymbolsPath] ++ w.platformSymbolsPath.toList

theorem symbolsPath_mem_inputs {scope : ResourceScope} {p : Path}
    (h : w.symbolsPath scope = some p) : p ∈ w.inputs := by
  cases scope with
  | project =>
    obtain rfl := Option.some.inj h
    simp [inputs]
  | platform =>
    have hplatform : w.platformSymbolsPath = some p := h
    simp [inputs, hplatform]

theorem snd_readSymbols (w : Workspace) (scope : ResourceScope) (t : FileTree) :
    (readSymbols FileTree.disk w scope t).2 = t := by
  unfold readSymbols
  cases w.symbolsPath scope with
  | none => rfl
  | some path =>
    dsimp only
    rw [stateM_bind_apply, snd_readInput]
    cases (readInput FileTree.disk path SymbolEntry.parseAll t).1 <;> rfl

theorem readSymbols_congr {scope : ResourceScope}
    (h : ∀ p, w.symbolsPath scope = some p → t'.read p = t.read p) :
    (readSymbols FileTree.disk w scope t').1 = (readSymbols FileTree.disk w scope t).1 := by
  unfold readSymbols
  cases hpath : w.symbolsPath scope with
  | none => rfl
  | some path =>
    dsimp only
    rw [stateM_bind_apply, stateM_bind_apply, readInput_congr (h path hpath)]
    cases (readInput FileTree.disk path SymbolEntry.parseAll t).1 <;> rfl

def SameSymbols (w : Workspace) (t t' : FileTree) : Prop :=
  ∀ scope, (readSymbols FileTree.disk w scope t').1 = (readSymbols FileTree.disk w scope t).1

theorem parse_of_openAt {path : Path} (h : (openAt FileTree.disk path t).1 = .ok w) :
    w.path = path ∧ Manifest.parse w.content = .ok w.manifest := by
  obtain ⟨text, -, hparse⟩ := exists_parse_of_readInput h
  cases hmanifest : Manifest.parse text with
  | error e =>
    rw [hmanifest] at hparse
    cases hparse
  | ok m =>
    rw [hmanifest] at hparse
    obtain rfl := Except.ok.inj hparse
    exact ⟨rfl, hmanifest⟩

def hosted (w : Workspace) (file : DeclarationFile)
    (render : GenerationModel → StateT σ (StateM FileTree) (Except Interruption Nat)) :
    Environment (StateM (σ × FileTree)) :=
  (w.environment FileTree.disk file render).through (.joinStates σ FileTree)

section Hosted

variable {render : GenerationModel → StateT σ (StateM FileTree) (Except Interruption Nat)}
  {start : σ}

theorem runWith_eq : runWith FileTree.disk w file render start t =
    let ended := (Pipeline.new .standard w.manifest.project).run (hosted w file render)
      (.ofMarkers file.markers) (start, t)
    ((ended.1, ended.2.1), ended.2.2) := by
  dsimp only
  rw [hosted, ← EffectMap.map_run]
  rfl

/-- How a run over a workspace ends: with an outcome, with what the renderer keeps and with a tree. -/
structure RunsTo (w : Workspace) (file : DeclarationFile)
    (render : GenerationModel → StateT σ (StateM FileTree) (Except Interruption Nat)) (start : σ)
    (t : FileTree) (outcome : RunOutcome) (kept : σ) (t' : FileTree) : Prop where
  outcome : (runWith FileTree.disk w file render start t).1.1.1 = outcome
  kept : (runWith FileTree.disk w file render start t).1.2 = kept
  tree : (runWith FileTree.disk w file render start t).2 = t'

theorem runsTo_of_run {outcome : RunOutcome} {kept : σ}
    (h : ((Pipeline.new .standard w.manifest.project).run (hosted w file render)
      (.ofMarkers file.markers) (start, t)).1.1 = outcome)
    (hstate : ((Pipeline.new .standard w.manifest.project).run (hosted w file render)
      (.ofMarkers file.markers) (start, t)).2 = (kept, t')) :
    RunsTo w file render start t outcome kept t' := by
  refine ⟨?_, ?_, ?_⟩ <;> rw [runWith_eq]
  · exact h
  · exact congrArg Prod.fst hstate
  · exact congrArg Prod.snd hstate

theorem quiet_hosted : (hosted w file render).Quiet where
  declarations _ _ := rfl
  symbols scope s := Prod.ext rfl (snd_readSymbols w scope s.2)
  report _ _ := rfl
  now _ := rfl

theorem alikeAt_hosted {τ : Type} (h : w.SameSymbols t t') (file : DeclarationFile)
    (render : GenerationModel → StateT σ (StateM FileTree) (Except Interruption Nat)) (start : σ)
    (render' : GenerationModel → StateT τ (StateM FileTree) (Except Interruption Nat)) (start' : τ) :
    (hosted w file render).AlikeAt (start, t) (hosted w file render') (start', t') where
  declarations marker := ⟨.ok (file.declarationsFor marker), rfl, rfl⟩
  symbols scope :=
    ⟨.ok (readSymbols FileTree.disk w scope t).1,
      Prod.ext rfl (Prod.ext rfl (snd_readSymbols w scope t)),
      Prod.ext (congrArg Except.ok (h scope)) (Prod.ext rfl (snd_readSymbols w scope t'))⟩
  now := ⟨0, rfl, rfl⟩

end Hosted

/-- What a run over a workspace comes to before its renderer is asked. -/
inductive Prepared where
  | ended (outcome : RunOutcome)
  | ready (diagnostics : List Diagnostic) (model : GenerationModel)

/-- A run with this renderer goes on as it was prepared. -/
def Prepared.LeadsTo (prepared : Prepared) (w : Workspace) (file : DeclarationFile)
    (render : GenerationModel → StateT σ (StateM FileTree) (Except Interruption Nat)) (start : σ)
    (t : FileTree) : Prop :=
  match prepared with
  | .ended outcome => RunsTo w file render start t outcome start t
  | .ready diagnostics model => ∀ {n : Nat} {kept : σ} {t' : FileTree},
    render model start t = ((.ok n, kept), t') → RunsTo w file render start t
      ⟨.completed, diagnostics ++ [Pipeline.completionNote n], n⟩ kept t'

def Prepared.Sound (prepared : Prepared) (suffix : String) : Prop :=
  match prepared with
  | .ended outcome => outcome.status ≠ .completed ∧ outcome.artifacts = 0
  | .ready _ model => model.Named suffix

/-- The phases before rendering, in a run over a workspace. -/
def preparation (w : Workspace) (file : DeclarationFile)
    (render : GenerationModel → StateT σ (StateM FileTree) (Except Interruption Nat)) :
    StateM (σ × FileTree) Pipeline.PhasesEnd :=
  Pipeline.begin (hosted w file render) (.ofMarkers file.markers)
    (.new .standard w.manifest.project) Pipeline.preparing

section Preparation

variable {τ : Type}
  {render : GenerationModel → StateT σ (StateM FileTree) (Except Interruption Nat)} {start : σ}
  {p : Progress} {watch : Stopwatch}

theorem answersAlike_preparation (h : w.SameSymbols t t') (file : DeclarationFile)
    (render : GenerationModel → StateT σ (StateM FileTree) (Except Interruption Nat)) (start : σ)
    (render' : GenerationModel → StateT τ (StateM FileTree) (Except Interruption Nat)) (start' : τ) :
    AnswersAlike (start, t) (start', t') (preparation w file render)
      (preparation w file render') :=
  Pipeline.answersAlike_preparing (alikeAt_hosted h file render start render' start') _ _

theorem leadsTo_skipped (hidle : file.markers = []) (start : σ) (t : FileTree) :
    (Prepared.ended .skipped).LeadsTo w file render start t := by
  have hskip : ((Round.ofMarkers file.markers).isIdle ||
      (Pipeline.new .standard w.manifest.project).hasRun) = true := by
    simp [Round.isIdle, Round.ofMarkers, hidle]
  refine runsTo_of_run ?_ ?_ <;> rw [Pipeline.run_of_skipped hskip] <;> rfl

theorem working_of_markers (hmarkers : file.markers ≠ []) (project : Project) :
    ((Round.ofMarkers file.markers).isIdle || (Pipeline.new .standard project).hasRun) = false := by
  simp [Round.isIdle, Round.ofMarkers, Pipeline.new, hmarkers]

theorem leadsTo_of_interrupted (hmarkers : file.markers ≠ []) {phase : Phase} {e : Interruption}
    {anchor : Option DeclarationRef}
    (h : preparation w file render (start, t) = (⟨some (phase, e), p, watch⟩, (start, t)))
    (hanchor : (p.faultAnchor (hosted w file render) (.ofMarkers file.markers) (start, t)).1 =
      anchor) :
    (Prepared.ended ⟨.failed, p.diagnostics ++ [Pipeline.faultDiagnostic phase e anchor],
      p.artifacts⟩).LeadsTo w file render start t ∧ p.artifacts = 0 := by
  have hwork := working_of_markers hmarkers w.manifest.project
  obtain ⟨hrun, hstate⟩ := Pipeline.run_of_preparing_interrupted quiet_hosted hwork h
  rw [hanchor] at hrun
  refine ⟨runsTo_of_run hrun hstate, ?_⟩
  have hends : (Pipeline.observe (hosted w file render) (.ofMarkers file.markers)
      (.new .standard w.manifest.project) (start, t)).Completed ∨ _ := Pipeline.ends_of_working hwork
  rcases hends with hcompleted | ⟨last, e', hfailed⟩
  · cases (congrArg RunOutcome.status hrun).symm.trans hcompleted.status
  · exact (congrArg RunOutcome.artifacts hrun).symm.trans hfailed.artifacts

theorem leadsTo_of_prepared (hmarkers : file.markers ≠ []) {model : GenerationModel}
    (h : preparation w file render (start, t) = (⟨none, p, watch⟩, (start, t)))
    (hmodel : p.generation = some model) :
    (Prepared.ready p.diagnostics model).LeadsTo w file render start t := by
  intro n kept t' hrender
  have hwork := working_of_markers hmarkers w.manifest.project
  have hanswer : (hosted w file render).render model (start, t) = (.ok n, (kept, t')) :=
    congrArg (fun r : (Except Interruption Nat × σ) × FileTree => (r.1.1, (r.1.2, r.2))) hrender
  obtain ⟨hrun, hstate⟩ := Pipeline.run_of_preparing quiet_hosted hwork h hmodel
    (congrArg Prod.fst hanswer)
  exact runsTo_of_run hrun (hstate.trans (congrArg Prod.snd hanswer))

theorem exists_named_of_prepared (hmarkers : file.markers ≠ [])
    (hsuffix : ∀ c ∈ w.manifest.suffix.toList, continuesIdentifier c = true)
    (hnamed : ∀ marker, ∀ r ∈ file.declarationsFor marker, r.element.WellNamed)
    (h : preparation w file render (start, t) = (⟨none, p, watch⟩, (start, t))) :
    ∃ model, p.generation = some model ∧ model.Named w.manifest.suffix := by
  obtain ⟨run, hproject, hbatches, hgeneration⟩ := Pipeline.exists_standardRun_of_preparing
    (show (Pipeline.new .standard w.manifest.project).registry = .standard from rfl)
    (working_of_markers hmarkers w.manifest.project) h
  have hsame : run.project.suffix = w.manifest.suffix := congrArg Project.suffix hproject
  refine ⟨run.model, hgeneration, hsame ▸ run.named_model (hsame.symm ▸ hsuffix) ?_⟩
  intro batch hbatch r hr
  obtain ⟨s, hgiven⟩ := Phase.given_of_readBatches hbatches hbatch
  have hdeclared : file.declarationsFor batch.1 = batch.2 := Except.ok.inj hgiven
  exact hnamed batch.1 r (hdeclared.symm ▸ hr)

end Preparation

/-- A workspace prepares every run alike, whatever is rendered and however the tree is changed, as long as
its symbols stay. -/
theorem exists_prepared {read read' : String → Option Document} {source source' : String}
    (hmanifest : Manifest.parseWith read source = .ok w.manifest)
    (hfile : DeclarationFile.parseWith read' source' = .ok file) (t : FileTree) :
    ∃ prepared : Prepared, prepared.Sound w.manifest.suffix ∧ ∀ {t' : FileTree},
      w.SameSymbols t t' → ∀ {σ : Type} (render : GenerationModel → StateT σ (StateM FileTree)
        (Except Interruption Nat)) (start : σ), prepared.LeadsTo w file render start t' := by
  by_cases hmarkers : file.markers = []
  · exact ⟨.ended .skipped, ⟨by decide, rfl⟩, fun _ _ _ start => leadsTo_skipped hmarkers start _⟩
  -- The preparation is read off a run that only counts, and found again in every other one.
  obtain ⟨⟨interrupted, p, watch⟩, hcounted, -⟩ :=
    answersAlike_preparation (fun _ => rfl : w.SameSymbols t t) file countOnly () countOnly ()
  cases interrupted with
  | some interrupted =>
    obtain ⟨phase, e⟩ := interrupted
    let anchor := (p.faultAnchor (hosted w file countOnly) (.ofMarkers file.markers) ((), t)).1
    refine ⟨.ended ⟨.failed, p.diagnostics ++ [Pipeline.faultDiagnostic phase e anchor], p.artifacts⟩,
      ⟨nofun, (leadsTo_of_interrupted hmarkers hcounted rfl).2⟩, fun {t'} hsymbols _ render start => ?_⟩
    obtain ⟨ended, hended, hbegin⟩ := answersAlike_preparation hsymbols file countOnly () render start
    obtain rfl : _ = ended := congrArg Prod.fst (hcounted.symm.trans hended)
    obtain ⟨anchor', hanchor, hanchor'⟩ := p.answersAlike_faultAnchor
      (alikeAt_hosted hsymbols file countOnly () render start) (.ofMarkers file.markers)
    refine (leadsTo_of_interrupted hmarkers hbegin ?_).1
    exact (congrArg Prod.fst hanchor').trans (congrArg Prod.fst hanchor).symm
  | none =>
    obtain ⟨model, hmodel, hnamed⟩ := exists_named_of_prepared hmarkers
      (Manifest.suffix_of_parse hmanifest) (DeclarationFile.wellNamed_of_parse hfile) hcounted
    refine ⟨.ready p.diagnostics model, hnamed, fun {t'} hsymbols _ render start => ?_⟩
    obtain ⟨ended, hended, hbegin⟩ := answersAlike_preparation hsymbols file countOnly () render start
    obtain rfl : _ = ended := congrArg Prod.fst (hcounted.symm.trans hended)
    exact leadsTo_of_prepared hmarkers hbegin hmodel

/-- The reports of a check, a preview and a bake tell of the same run. -/
structure SameRun (checked : CheckReport) (previewed baked : BakeReport) : Prop where
  status : previewed.status = checked.status ∧ baked.status = checked.status
  diagnostics : previewed.summary = checked.summary ∧ baked.summary = checked.summary
  artifacts : previewed.artifactCount = checked.artifacts ∧
    baked.artifactCount = checked.artifacts
  success : previewed.isSuccess = checked.isValid ∧ baked.isSuccess = checked.isValid

/-- The outcome of a run over a workspace on a file tree. -/
def outcomeWith (w : Workspace) (file : DeclarationFile)
    (render : GenerationModel → StateT σ (StateM FileTree) (Except Interruption Nat)) (start : σ)
    (t : FileTree) : RunOutcome :=
  (runWith FileTree.disk w file render start t).1.1.1

section Operations

variable {output : Option Path} {dir : Path} {outcome : RunOutcome} {artifacts : List Artifact}
  {names : List String} {model : GenerationModel}

theorem check_eq_of_runsTo (h : RunsTo w file countOnly () t outcome () t') :
    check FileTree.disk w file t =
      (⟨w.path, outcome.status, .ofList outcome.diagnostics, outcome.artifacts⟩, t') := by
  obtain ⟨rfl, -, rfl⟩ := h
  rfl

theorem bake_eq_of_runsTo_keep (output : Option Path)
    (h : RunsTo w file keepArtifacts [] t outcome artifacts t') :
    ∃ pipeline, bake FileTree.disk w file ⟨output, true⟩ t =
      (w.bakeReport outcome pipeline (.preview artifacts), t') := by
  obtain ⟨rfl, rfl, rfl⟩ := h
  exact ⟨(runWith FileTree.disk w file keepArtifacts [] t).1.1.2, rfl⟩

theorem bake_eq_of_runsTo_write
    (h : RunsTo w file (writeArtifacts FileTree.disk (output.getD w.outputDir)) [] t outcome names t') :
    ∃ pipeline, bake FileTree.disk w file ⟨output, false⟩ t =
      (w.bakeReport outcome pipeline (.written (output.getD w.outputDir) names
        (outcome.artifacts - names.length)), t') := by
  obtain ⟨rfl, rfl, rfl⟩ := h
  exact ⟨(runWith FileTree.disk w file
    (writeArtifacts FileTree.disk (output.getD w.outputDir)) [] t).1.1.2, rfl⟩

theorem stateT_bind_apply {α β σ τ : Type} (x : StateT σ (StateM τ) α)
    (f : α → StateT σ (StateM τ) β) (s : σ) (t : τ) :
    (x >>= f) s t = f (x s t).1.1 (x s t).1.2 (x s t).2 := rfl

theorem writeArtifacts_eq (h : Artifact.writeAll FileTree.disk dir model.artifacts t =
    ((.ok (), names), t')) (start : List String) :
    writeArtifacts FileTree.disk dir model start t =
      ((.ok model.artifacts.length, names), t') := by
  have hlift : (liftM (Artifact.writeAll FileTree.disk dir model.artifacts) :
      StateT (List String) (StateM FileTree) (Except Fault Unit × List String)) start t =
        (((.ok (), names), start), t') :=
    congrArg (fun r : (Except Fault Unit × List String) × FileTree => ((r.1, start), r.2)) h
  rw [writeArtifacts, stateT_bind_apply, hlift]
  rfl

section Ready

variable {diagnostics : List Diagnostic}

def rendered (diagnostics : List Diagnostic) (model : GenerationModel) : RunOutcome :=
  ⟨.completed, diagnostics ++ [Pipeline.completionNote model.artifacts.length],
    model.artifacts.length⟩

theorem runsTo_countOnly (h : (Prepared.ready diagnostics model).LeadsTo w file countOnly () t) :
    RunsTo w file countOnly () t (rendered diagnostics model) () t := by
  refine h ?_
  rw [model.length_artifacts]
  rfl

theorem runsTo_keepArtifacts
    (h : (Prepared.ready diagnostics model).LeadsTo w file keepArtifacts [] t) :
    RunsTo w file keepArtifacts [] t (rendered diagnostics model) model.artifacts t :=
  h rfl

theorem runsTo_writeArtifacts
    (h : (Prepared.ready diagnostics model).LeadsTo w file (writeArtifacts FileTree.disk dir) [] t)
    (hall : Artifact.writeAll FileTree.disk dir model.artifacts t = ((.ok (), names), t')) :
    RunsTo w file (writeArtifacts FileTree.disk dir) [] t (rendered diagnostics model) names t' :=
  h (writeArtifacts_eq hall [])

end Ready

theorem result_bakeReport (w : Workspace) (outcome : RunOutcome) (pipeline : Pipeline)
    (result : BakeResult) : (w.bakeReport outcome pipeline result).result =
      if outcome.status = .completed then some result else none := rfl

theorem sameRun_of_outcome {pipeline pipeline' : Pipeline} {result result' : BakeResult}
    (hcount : outcome.status = .completed → result.artifactCount = outcome.artifacts ∧
      result'.artifactCount = outcome.artifacts)
    (hnone : outcome.status ≠ .completed → outcome.artifacts = 0) :
    SameRun ⟨w.path, outcome.status, .ofList outcome.diagnostics, outcome.artifacts⟩
      (w.bakeReport outcome pipeline result) (w.bakeReport outcome pipeline' result') := by
  refine ⟨⟨rfl, rfl⟩, ⟨rfl, rfl⟩, ?_, ⟨rfl, rfl⟩⟩
  by_cases hcompleted : outcome.status = .completed
  · simp only [BakeReport.artifactCount, result_bakeReport, if_pos hcompleted]
    exact hcount hcompleted
  · simp only [BakeReport.artifactCount, result_bakeReport, if_neg hcompleted, hnone hcompleted]
    exact ⟨rfl, rfl⟩

end Operations

/-- On a file tree, checking, previewing and baking come to the same end, and only baking writes. -/
structure Agrees (w : Workspace) (file : DeclarationFile) (output : Option Path) (t : FileTree) :
    Prop where
  outcomes : outcomeWith w file keepArtifacts [] t = outcomeWith w file countOnly () t ∧
    outcomeWith w file (writeArtifacts FileTree.disk (output.getD w.outputDir)) [] t =
      outcomeWith w file countOnly () t
  reports : SameRun (check FileTree.disk w file t).1 (bake FileTree.disk w file ⟨output, true⟩ t).1
    (bake FileTree.disk w file ⟨output, false⟩ t).1
  untouched : (check FileTree.disk w file t).2 = t ∧
    (bake FileTree.disk w file ⟨output, true⟩ t).2 = t

theorem agrees_of_runsTo {output : Option Path} {outcome : RunOutcome} {artifacts : List Artifact}
    {names : List String} (hcheck : RunsTo w file countOnly () t outcome () t)
    (hkeep : RunsTo w file keepArtifacts [] t outcome artifacts t)
    (hwrite : RunsTo w file (writeArtifacts FileTree.disk (output.getD w.outputDir)) [] t outcome
      names t')
    (hcount : outcome.status = .completed → artifacts.length = outcome.artifacts ∧
      names.length ≤ outcome.artifacts)
    (hnone : outcome.status ≠ .completed → outcome.artifacts = 0) : Agrees w file output t := by
  obtain ⟨p, hpreview⟩ := bake_eq_of_runsTo_keep output hkeep
  obtain ⟨p', hbake⟩ := bake_eq_of_runsTo_write hwrite
  refine ⟨⟨?_, ?_⟩, ?_, ?_⟩
  · exact hkeep.outcome.trans hcheck.outcome.symm
  · exact hwrite.outcome.trans hcheck.outcome.symm
  · rw [check_eq_of_runsTo hcheck, hpreview, hbake]
    refine sameRun_of_outcome (fun hcompleted => ?_) hnone
    obtain ⟨hshown, hwritten⟩ := hcount hcompleted
    exact ⟨hshown, Nat.add_sub_cancel' hwritten⟩
  · rw [check_eq_of_runsTo hcheck, hpreview]
    exact ⟨rfl, rfl⟩

/-- Every file that a preview shows is in the output directory on the tree. -/
def HoldsPreview (w : Workspace) (file : DeclarationFile) (output : Option Path)
    (t t' : FileTree) : Prop :=
  ∃ artifacts, (bake FileTree.disk w file ⟨output, true⟩ t).1.result = some (.preview artifacts) ∧
    ∀ a ∈ artifacts, t'.read ((output.getD w.outputDir).join ⟨a.fileName⟩) = .ok a.content

/-- A workspace on a file tree that has just been baked to another tree: baked once more, with the inputs
read again, it completes, finds every artifact current and leaves the tree. -/
def BakesToItself (w : Workspace) (file : DeclarationFile) (output : Option Path) (t : FileTree) :
    Prop :=
  openAt FileTree.disk w.path t = (.ok w, t) ∧ readDeclarations FileTree.disk w t = (.ok file, t) ∧
  (bake FileTree.disk w file ⟨output, false⟩ t).2 = t ∧
  (bake FileTree.disk w file ⟨output, false⟩ t).1.status = .completed ∧
  ∃ artifacts, (bake FileTree.disk w file ⟨output, true⟩ t).1.result = some (.preview artifacts) ∧
    (bake FileTree.disk w file ⟨output, false⟩ t).1.result =
      some (.written (output.getD w.outputDir) [] artifacts.length)

theorem bakesToItself_of_current {diagnostics : List Diagnostic} {model : GenerationModel}
    {output : Option Path} (hopen : (openAt FileTree.disk w.path t).1 = .ok w)
    (hfile : (readDeclarations FileTree.disk w t).1 = .ok file)
    (hkeep : (Prepared.ready diagnostics model).LeadsTo w file keepArtifacts [] t)
    (hwrite : (Prepared.ready diagnostics model).LeadsTo w file
      (writeArtifacts FileTree.disk (output.getD w.outputDir)) [] t)
    (hcurrent : ∀ a ∈ model.artifacts,
      t.read (a.path (output.getD w.outputDir)) = .ok a.content) :
    BakesToItself w file output t := by
  obtain ⟨p, hpreview⟩ := bake_eq_of_runsTo_keep output (runsTo_keepArtifacts hkeep)
  obtain ⟨p', hbake⟩ := bake_eq_of_runsTo_write
    (runsTo_writeArtifacts hwrite (Artifact.writeAll_of_current hcurrent))
  refine ⟨Prod.ext hopen (snd_readInput _ _ t), Prod.ext hfile (snd_readInput _ _ t), ?_, ?_,
    model.artifacts, ?_, ?_⟩
  · rw [hbake]
  · rw [hbake]
    rfl
  · rw [hpreview]
    rfl
  · rw [hbake]
    rfl

section Ready

variable {diagnostics : List Diagnostic} {model : GenerationModel} {output : Option Path}
  {names : List String}

theorem result_preview (output : Option Path)
    (hkeep : (Prepared.ready diagnostics model).LeadsTo w file keepArtifacts [] t) :
    (bake FileTree.disk w file ⟨output, true⟩ t).1.result = some (.preview model.artifacts) := by
  obtain ⟨p, hpreview⟩ := bake_eq_of_runsTo_keep output (runsTo_keepArtifacts hkeep)
  rw [hpreview]
  rfl

theorem snd_bake
    (hwrite : (Prepared.ready diagnostics model).LeadsTo w file
      (writeArtifacts FileTree.disk (output.getD w.outputDir)) [] t)
    (hall : Artifact.writeAll FileTree.disk (output.getD w.outputDir) model.artifacts t =
      ((.ok (), names), t')) : (bake FileTree.disk w file ⟨output, false⟩ t).2 = t' := by
  obtain ⟨p, hbake⟩ := bake_eq_of_runsTo_write (runsTo_writeArtifacts hwrite hall)
  rw [hbake]

theorem agrees_of_ready
    (hcheck : (Prepared.ready diagnostics model).LeadsTo w file countOnly () t)
    (hkeep : (Prepared.ready diagnostics model).LeadsTo w file keepArtifacts [] t)
    (hwrite : (Prepared.ready diagnostics model).LeadsTo w file
      (writeArtifacts FileTree.disk (output.getD w.outputDir)) [] t)
    (hall : Artifact.writeAll FileTree.disk (output.getD w.outputDir) model.artifacts t =
      ((.ok (), names), t')) : Agrees w file output t := by
  have hnames : names.length ≤ model.artifacts.length := by
    have hsublist := (Artifact.sublist_writeAll t (output.getD w.outputDir)
      model.artifacts).length_le
    rwa [hall, List.length_map] at hsublist
  exact agrees_of_runsTo (runsTo_countOnly hcheck) (runsTo_keepArtifacts hkeep)
    (runsTo_writeArtifacts hwrite hall) (fun _ => ⟨rfl, hnames⟩) fun h => absurd rfl h

end Ready

theorem read_again {path : Path} (hopen : (openAt FileTree.disk path t).1 = .ok w)
    (hfile : (readDeclarations FileTree.disk w t).1 = .ok file)
    (hinputs : ∀ p ∈ w.inputs, t'.read p = t.read p) :
    (openAt FileTree.disk w.path t').1 = .ok w ∧ (readDeclarations FileTree.disk w t').1 = .ok file ∧
      w.SameSymbols t t' := by
  refine ⟨?_, ?_, fun _ => readSymbols_congr fun p hp => hinputs p (symbolsPath_mem_inputs hp)⟩
  · refine (readInput_congr (hinputs w.path (by simp [inputs]))).trans ?_
    rwa [← (parse_of_openAt hopen).1] at hopen
  · exact (readInput_congr (hinputs w.declarationsPath (by simp [inputs]))).trans hfile

/-- Checking, previewing and baking agree, a completed bake has written what is previewed, and baking again
is idle, when the artifacts can be written and the bake leaves its inputs. -/
theorem operations_agree {path : Path} (hopen : (openAt FileTree.disk path t).1 = .ok w)
    (hfile : (readDeclarations FileTree.disk w t).1 = .ok file) (output : Option Path)
    (hwrites : ∀ artifacts,
      (bake FileTree.disk w file ⟨output, true⟩ t).1.result = some (.preview artifacts) →
        (Artifact.writeAll FileTree.disk (output.getD w.outputDir) artifacts t).1.1 = .ok ()) :
    Agrees w file output t ∧
    ((bake FileTree.disk w file ⟨output, false⟩ t).1.status = .completed →
      HoldsPreview w file output t (bake FileTree.disk w file ⟨output, false⟩ t).2 ∧
      ((∀ p ∈ w.inputs, (bake FileTree.disk w file ⟨output, false⟩ t).2.read p = t.read p) →
        BakesToItself w file output (bake FileTree.disk w file ⟨output, false⟩ t).2)) := by
  obtain ⟨source, -, hparse⟩ := exists_parse_of_readInput hfile
  obtain ⟨prepared, hsound, hleads⟩ := exists_prepared (parse_of_openAt hopen).2 hparse t
  have hsame : w.SameSymbols t t := fun _ => rfl
  have hcheck := hleads hsame countOnly ()
  have hkeep := hleads hsame keepArtifacts []
  have hwrite := hleads hsame (writeArtifacts FileTree.disk (output.getD w.outputDir)) []
  cases prepared with
  | ended outcome =>
    obtain ⟨hstatus, hnone⟩ := hsound
    obtain ⟨p, hbake⟩ := bake_eq_of_runsTo_write hwrite
    refine ⟨agrees_of_runsTo hcheck hkeep hwrite (fun h => absurd h hstatus) fun _ => hnone, ?_⟩
    intro hcompleted
    rw [hbake] at hcompleted
    exact absurd hcompleted hstatus
  | ready diagnostics model =>
    have hshown := result_preview output hkeep
    obtain ⟨names, t', hall⟩ : ∃ names t', Artifact.writeAll FileTree.disk (output.getD w.outputDir)
        model.artifacts t = ((.ok (), names), t') :=
      ⟨_, _, Prod.ext (Prod.ext (hwrites model.artifacts hshown) rfl) rfl⟩
    have hholds : ∀ a ∈ model.artifacts,
        t'.read ((output.getD w.outputDir).join ⟨a.fileName⟩) = .ok a.content := by
      have hread := Artifact.read_of_writeAll (congrArg (·.1.1) hall)
        (hsound.files (output.getD w.outputDir))
      rwa [hall] at hread
    rw [snd_bake hwrite hall]
    refine ⟨agrees_of_ready hcheck hkeep hwrite hall, fun _ => ⟨⟨_, hshown, hholds⟩, ?_⟩⟩
    intro hinputs
    obtain ⟨hopened, hdeclared, hsymbols⟩ := read_again hopen hfile hinputs
    exact bakesToItself_of_current hopened hdeclared (hleads hsymbols _ _) (hleads hsymbols _ _)
      hholds

private def stallManifest : String :=
  "[project]\npackage = \"stall\"\n" ++
    "[sources]\ndeclarations = \"d.toml\"\nproject_symbols = \"s.toml\"\n"

private def stallDeclarations : String :=
  "[[declaration]]\nmarker = \"shared-pref\"\nkind = \"interface\"\nname = \"Prefs\"\n"

private def stallTree : FileTree :=
  ((FileTree.empty.put ["tagsmith.toml"] (.file stallManifest)).put ["d.toml"]
    (.file stallDeclarations)).put ["s.toml"] (.file "")

private def stallFacts (w : Workspace) (file : DeclarationFile) :
    Option (Nat × Option Unit) × Bool × Bool :=
  let baked := bake FileTree.disk w file ⟨none, false⟩ stallTree
  (match (bake FileTree.disk w file ⟨none, true⟩ stallTree).1.result with
    | some (.preview as) =>
      some (as.length, (Artifact.writeAll FileTree.disk w.outputDir as stallTree).1.1.toOption)
    | _ => none,
    decide (baked.1.status = .completed), decide (∀ p ∈ w.inputs, baked.2.read p = stallTree.read p))

theorem operations_agree_stall : ∃ w file artifacts,
    (openAt FileTree.disk ⟨"tagsmith.toml"⟩ stallTree).1 = .ok w ∧
    (readDeclarations FileTree.disk w stallTree).1 = .ok file ∧
    (bake FileTree.disk w file ⟨none, true⟩ stallTree).1.result = some (.preview artifacts) ∧
    artifacts.length = 1 ∧
    Agrees w file none stallTree ∧
    HoldsPreview w file none stallTree (bake FileTree.disk w file ⟨none, false⟩ stallTree).2 ∧
    BakesToItself w file none (bake FileTree.disk w file ⟨none, false⟩ stallTree).2 := by
  have hfacts : ((openAt FileTree.disk ⟨"tagsmith.toml"⟩ stallTree).1.toOption.bind fun w =>
      (readDeclarations FileTree.disk w stallTree).1.toOption.map (stallFacts w)) =
    some (some (1, some ()), true, true) := by decide +kernel
  obtain ⟨w, hw, hfacts⟩ := Option.bind_eq_some_iff.1 hfacts
  obtain ⟨file, hfile, hfacts⟩ := Option.map_eq_some_iff.1 hfacts
  have hopen := eq_ok_of_toOption hw
  have hread := eq_ok_of_toOption hfile
  simp only [stallFacts, Prod.mk.injEq, decide_eq_true_eq] at hfacts
  obtain ⟨hshown, hcompleted, hinputs⟩ := hfacts
  split at hshown
  · next artifacts hresult =>
    obtain ⟨hcount, hwritten⟩ := Prod.mk.inj (Option.some.inj hshown)
    have hwrites : ∀ as, (bake FileTree.disk w file ⟨none, true⟩ stallTree).1.result =
        some (.preview as) →
          (Artifact.writeAll FileTree.disk w.outputDir as stallTree).1.1 = .ok () := by
      intro as has
      obtain rfl := BakeResult.preview.inj (Option.some.inj (hresult.symm.trans has))
      exact eq_ok_of_toOption hwritten
    obtain ⟨hagrees, hbaked⟩ := operations_agree hopen hread none hwrites
    exact ⟨w, file, artifacts, hopen, hread, hresult, hcount, hagrees, (hbaked hcompleted).1,
      (hbaked hcompleted).2 hinputs⟩
  · cases hshown

end Workspace

end ComponentGlue
