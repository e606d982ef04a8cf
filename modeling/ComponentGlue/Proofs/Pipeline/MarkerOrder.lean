import Mathlib.Data.List.Forall2
import ComponentGlue.Proofs.Generation.StandardRun
import ComponentGlue.Proofs.Validation.KindOrder

/-!
Rounds that announce the same markers in another order. Two runs over such rounds go through the phases side
by side: what the one has extracted, accepted and generated agrees with what the other has, but for the order
of kinds and of diagnostics.
-/

set_option autoImplicit false
set_option relaxedAutoImplicit false

namespace ComponentGlue

variable {σ : Type} {env : Environment (StateM σ)}

def Preserves {α : Type} (P : σ → Prop) (x : StateM σ α) : Prop := ∀ s, P s → P (x s).2

theorem preserves_pure {α : Type} (P : σ → Prop) (a : α) : Preserves P (pure a) := fun _ hs => hs

theorem Preserves.bind {α β : Type} {P : σ → Prop} {x : StateM σ α} {f : α → StateM σ β}
    (hx : Preserves P x) (hf : ∀ a, Preserves P (f a)) : Preserves P (x >>= f) :=
  fun s hs => hf _ _ (hx s hs)

/-- In the states at hand the host is one and the same: its answers are alike and asking for them keeps it,
whatever the clock does, and the renderer's counts of one model do not differ. -/
structure Environment.SteadyOn (env : Environment (StateM σ)) (P : σ → Prop) : Prop where
  declarations : ∀ marker s s', P s → P s' →
    (env.declarations marker s).1 = (env.declarations marker s').1
  symbols : ∀ scope s s', P s → P s' → (env.symbols scope s).1 = (env.symbols scope s').1
  rendered : ∀ model s s' n n', P s → P s' →
    (env.render model s).1 = .ok n → (env.render model s').1 = .ok n' → n = n'
  keeps_declarations : ∀ marker, Preserves P (env.declarations marker)
  keeps_symbols : ∀ scope, Preserves P (env.symbols scope)
  keeps_now : Preserves P env.now

theorem MemoryWorld.steadyOn_environment (host : MemoryHost) :
    environment.SteadyOn (fun w => w.host = host) where
  declarations marker w w' hw hw' :=
    congrArg (MemoryHost.lookup · marker) (hw.trans hw'.symm)
  symbols scope w w' hw hw' :=
    congrArg (fun h => Except.ok (MemoryHost.symbols h scope)) (hw.trans hw'.symm)
  rendered model w w' n n' _ _ hn hn' := by
    have hcount : ∀ renderer : MemoryRenderer, ∀ k, (renderer.render model).1 = .ok k →
        k = model.artifactCount := by
      intro renderer k hk
      cases renderer with
      | recording | discarding => exact (Except.ok.inj hk).symm
      | preview => exact (Except.ok.inj hk).symm.trans model.length_artifacts
      | failing => cases hk
    exact (hcount w.renderer n hn).trans (hcount w'.renderer n' hn').symm
  keeps_declarations _ _ hw := hw
  keeps_symbols _ _ hw := hw
  keeps_now _ hw := hw

/-- Progress in two runs over the same markers in different orders. -/
structure Progress.Matches (p p' : Progress) : Prop where
  extracted : Option.Rel (fun m m' => m.Grouped ∧ m.Reordered m') p.extracted p'.extracted
  catalog : p.catalog = p'.catalog
  validated : p.validated.map DeclarationModel.declarations =
    p'.validated.map DeclarationModel.declarations
  generation : p.generation = p'.generation
  diagnostics : p.diagnostics.Perm p'.diagnostics

theorem Progress.matches_start : start.Matches start :=
  ⟨.none, rfl, rfl, rfl, List.Perm.refl _⟩

namespace Phase

variable {p p' : Progress} {markers markers' : List Marker} {s s' : σ}

/-- Both phases have ended or both were interrupted, and their progress matches. -/
structure EndAlike (x y : Ending) : Prop where
  ended : x.1 = .ok () ↔ y.1 = .ok ()
  progress : x.2.Matches y.2

theorem endAlike_ok (h : p.Matches p') : EndAlike (.ok (), p) (.ok (), p') := ⟨Iff.rfl, h⟩

theorem endAlike_error (h : p.Matches p') (e e' : Interruption) :
    EndAlike (.error e, p) (.error e', p') := ⟨iff_of_false nofun nofun, h⟩

theorem matches_recordCatalog (h : p.Matches p') (project platform : SymbolSource) :
    (recordCatalog project platform p).Matches (recordCatalog project platform p') := by
  unfold recordCatalog
  split
  · split
    · exact { h with catalog := rfl, diagnostics := h.diagnostics.append_right _ }
    · exact { h with catalog := rfl }
  · exact { h with diagnostics := h.diagnostics.append_right _ }

theorem endAlike_runValidate {round round' : Round} (project : Project) (h : p.Matches p') :
    EndAlike (runValidate ⟨round, project, .standard⟩ p)
      (runValidate ⟨round', project, .standard⟩ p') := by
  have hextracted := h.extracted
  unfold runValidate
  rcases hfirst : p.extracted with - | m <;> rcases hsecond : p'.extracted with - | m'
  · exact endAlike_error h _ _
  · rw [hfirst, hsecond] at hextracted
    cases hextracted
  · rw [hfirst, hsecond] at hextracted
    cases hextracted
  · rw [hfirst, hsecond] at hextracted
    obtain ⟨hgrouped, hreordered⟩ : m.Grouped ∧ m.Reordered m' := by
      cases hextracted
      assumption
    have hcontexts : ValidationContext.Reordered ⟨m, p.catalog, project⟩ ⟨m', p'.catalog, project⟩ :=
      ⟨hreordered, h.catalog, rfl⟩
    have hreports := hcontexts.diagnostics_perm
    simp only [ValidationContext.validate_standard] at hreports ⊢
    exact endAlike_ok { h with
      extracted := .some ⟨hgrouped, hreordered⟩
      validated := congrArg some (hcontexts.accepted_eq hgrouped)
      diagnostics := h.diagnostics.append hreports }

theorem endAlike_runProcess {round round' : Round} (project : Project) (h : p.Matches p') :
    EndAlike (runProcess ⟨round, project, .standard⟩ p)
      (runProcess ⟨round', project, .standard⟩ p') := by
  have hvalidated := h.validated
  unfold runProcess
  rcases hfirst : p.validated with - | m <;> rcases hsecond : p'.validated with - | m' <;>
    rw [hfirst, hsecond] at hvalidated
  · exact endAlike_error h _ _
  · cases hvalidated
  · cases hvalidated
  · have hgenerate := Processor.generate_congr (Option.some.inj hvalidated)
      Registry.standard.processors ⟨p.catalog, project⟩
    dsimp only
    rw [← h.catalog, ← hgenerate]
    cases Processor.generate Registry.standard.processors m ⟨p.catalog, project⟩ with
    | error e => exact endAlike_error h e e
    | ok model =>
      exact endAlike_ok { h with
        catalog := rfl
        validated := hvalidated
        generation := rfl }

section Steady

variable {P : σ → Prop} (hsteady : env.SteadyOn P)
include hsteady

/-- A steady host gives for each marker what it would give in any other state. -/
theorem readBatches_eq_ok_iff (hs : P s) (hs' : P s')
    {batches : List (Marker × List RawDeclaration)} :
    (readBatches env markers s).1 = .ok batches ↔
      List.Forall₂ (fun marker b => b.1 = marker ∧ (env.declarations marker s').1 = .ok b.2)
        markers batches := by
  -- The state varies: each question leaves another one, in which the host answers the same.
  induction markers generalizing s batches with
  | nil =>
    rw [List.forall₂_nil_left_iff]
    exact ⟨fun h => (Except.ok.inj h).symm, fun h => congrArg Except.ok h.symm⟩
  | cons marker markers ih =>
    have hfirst := hsteady.declarations marker s s' hs hs'
    have hrests := @ih _ (hsteady.keeps_declarations marker s hs)
    rw [List.forall₂_cons_left_iff]
    rcases hgiven : (env.declarations marker s').1 with e | raw
    · rw [hgiven] at hfirst
      simp only [readBatches, stateM_bind_apply, hfirst]
      constructor
      · intro h
        cases h
      · rintro ⟨b, rest, ⟨-, hb⟩, -, -⟩
        cases hb
    · rw [hgiven] at hfirst
      rcases hrest : (readBatches env markers (env.declarations marker s).2).1 with e | rest
      · simp only [readBatches, stateM_bind_apply, hfirst, hrest]
        constructor
        · intro h
          cases h
        · rintro ⟨b, rest, -, htail, -⟩
          cases hrest.symm.trans (hrests.2 htail)
      · simp only [readBatches, stateM_bind_apply, hfirst, hrest]
        constructor
        · intro h
          obtain rfl := Except.ok.inj h
          exact ⟨_, _, ⟨rfl, rfl⟩, hrests.1 hrest, rfl⟩
        · rintro ⟨⟨marker', raw'⟩, rest', ⟨rfl, hraw⟩, htail, rfl⟩
          obtain rfl := Except.ok.inj hraw
          obtain rfl := Except.ok.inj (hrest.symm.trans (hrests.2 htail))
          rfl

theorem exists_readBatches_of_perm (h : markers.Perm markers') (hs : P s) (hs' : P s')
    {batches : List (Marker × List RawDeclaration)}
    (hbatches : (readBatches env markers s).1 = .ok batches) :
    ∃ batches', (readBatches env markers' s').1 = .ok batches' ∧
      (DeclarationModel.extract batches).Reordered (DeclarationModel.extract batches') := by
  have hgiven := (readBatches_eq_ok_iff hsteady hs hs).1 hbatches
  -- The answers move along with their markers; a marker asked for twice is answered alike.
  obtain ⟨batches', hgiven', hperm⟩ := List.perm_comp_forall₂ h.symm hgiven
  refine ⟨batches', (readBatches_eq_ok_iff hsteady hs' hs).2 hgiven', ?_⟩
  have hanswers : ∀ b ∈ batches, (env.declarations b.1 s).1 = .ok b.2 := by
    clear hbatches hgiven' hperm h
    induction hgiven with
    | nil => nofun
    | cons hb _ ih => exact List.forall_mem_cons.2 ⟨hb.1 ▸ hb.2, ih⟩
  refine DeclarationModel.reordered_extract hperm.symm fun b hb b' hb' hkey => ?_
  have hsame := hanswers b hb
  rw [hkey, hanswers b' hb'] at hsame
  exact Prod.ext hkey (Except.ok.inj hsame).symm

theorem preserves_readBatches (markers : List Marker) :
    Preserves P (readBatches env markers) := by
  induction markers with
  | nil => exact preserves_pure P _
  | cons marker markers ih =>
    refine (hsteady.keeps_declarations marker).bind fun raw => ?_
    cases raw with
    | error e => exact preserves_pure P _
    | ok raw =>
      refine ih.bind fun batches => ?_
      cases batches <;> exact preserves_pure P _

theorem preserves_run {phase : Phase} (hphase : phase ≠ .render) (setting : RunSetting)
    (p : Progress) : Preserves P (phase.run env setting p) := by
  cases phase with
  | extract =>
    refine (preserves_readBatches hsteady setting.round.markers).bind fun batches => ?_
    cases batches <;> exact preserves_pure P _
  | resolve =>
    refine (hsteady.keeps_symbols .project).bind fun project => ?_
    cases project with
    | error panic => exact preserves_pure P _
    | ok project =>
      refine (hsteady.keeps_symbols .platform).bind fun platform => ?_
      cases platform <;> exact preserves_pure P _
  | validate => exact preserves_pure P _
  | process => exact preserves_pure P _
  | render => exact absurd rfl hphase

theorem endAlike_runExtract {setting setting' : RunSetting}
    (hperm : setting.round.markers.Perm setting'.round.markers) (h : p.Matches p') (hs : P s)
    (hs' : P s') :
    EndAlike (runExtract env setting p s).1 (runExtract env setting' p' s').1 := by
  rcases hbatches : (readBatches env setting.round.markers s).1 with e | batches
  · rcases hbatches' : (readBatches env setting'.round.markers s').1 with e' | batches'
    · simp only [runExtract, stateM_bind_apply, hbatches, hbatches']
      exact endAlike_error h e e'
    · obtain ⟨batches, hread, -⟩ := exists_readBatches_of_perm hsteady hperm.symm hs' hs hbatches'
      cases hbatches.symm.trans hread
  · obtain ⟨batches', hbatches', hreordered⟩ :=
      exists_readBatches_of_perm hsteady hperm hs hs' hbatches
    simp only [runExtract, stateM_bind_apply, hbatches, hbatches']
    exact endAlike_ok { h with
      extracted := .some ⟨DeclarationModel.grouped_extract batches, hreordered⟩ }

theorem endAlike_runResolve (h : p.Matches p') (hs : P s) (hs' : P s') :
    EndAlike (runResolve env p s).1 (runResolve env p' s').1 := by
  have hproject := hsteady.symbols .project s s' hs hs'
  rcases hanswer : (env.symbols .project s').1 with panic | project
  · rw [hanswer] at hproject
    simp only [runResolve, stateM_bind_apply, hproject, hanswer]
    exact endAlike_error h _ _
  · rw [hanswer] at hproject
    have hplatform := hsteady.symbols .platform _ _ (hsteady.keeps_symbols .project s hs)
      (hsteady.keeps_symbols .project s' hs')
    rcases hanswer' : (env.symbols .platform (env.symbols .project s').2).1 with panic | platform
    · rw [hanswer'] at hplatform
      simp only [runResolve, stateM_bind_apply, hproject, hanswer, hplatform, hanswer']
      exact endAlike_error h _ _
    · rw [hanswer'] at hplatform
      simp only [runResolve, stateM_bind_apply, hproject, hanswer, hplatform, hanswer']
      exact endAlike_ok (matches_recordCatalog h project platform)

theorem endAlike_run {phase : Phase} (hphase : phase ≠ .render) {round round' : Round}
    (hperm : round.markers.Perm round'.markers) (project : Project) (h : p.Matches p') (hs : P s)
    (hs' : P s') :
    EndAlike (phase.run env ⟨round, project, .standard⟩ p s).1
      (phase.run env ⟨round', project, .standard⟩ p' s').1 := by
  cases phase with
  | extract => exact endAlike_runExtract hsteady hperm h hs hs'
  | resolve => exact endAlike_runResolve hsteady h hs hs'
  | validate => exact endAlike_runValidate project h
  | process => exact endAlike_runProcess project h
  | render => exact absurd rfl hphase

end Steady

end Phase

namespace Pipeline

/-- Before rendering, runs of phases are interrupted alike and their progress matches. -/
theorem matches_runPhases {P : σ → Prop} (hsteady : env.SteadyOn P) {round round' : Round}
    (hperm : round.markers.Perm round'.markers) (project : Project) {phases : List Phase}
    (hphases : .render ∉ phases) {p p' : Progress} (h : p.Matches p') (w w' : Stopwatch) {s s' : σ}
    (hs : P s) (hs' : P s') :
    ((runPhases env ⟨round, project, .standard⟩ phases p w s).1.interrupted = none ↔
      (runPhases env ⟨round', project, .standard⟩ phases p' w' s').1.interrupted = none) ∧
    (runPhases env ⟨round, project, .standard⟩ phases p w s).1.progress.Matches
      (runPhases env ⟨round', project, .standard⟩ phases p' w' s').1.progress := by
  -- The induction is on the phases. A phase interrupted in one run is interrupted in the other, so both
  -- runs go on to the next phase or both stop.
  induction phases generalizing p p' w w' s s' with
  | nil => exact ⟨Iff.rfl, h⟩
  | cons phase phases ih =>
    obtain ⟨hfirst, hrest⟩ := not_or.1 (List.mem_cons.not.1 hphases)
    have hnow := hsteady.keeps_now s hs
    have hnow' := hsteady.keeps_now s' hs'
    have halike := Phase.endAlike_run hsteady (Ne.symm hfirst) hperm project h hnow hnow'
    have hkept := Phase.preserves_run hsteady (Ne.symm hfirst) ⟨round, project, .standard⟩ p _ hnow
    have hkept' :=
      Phase.preserves_run hsteady (Ne.symm hfirst) ⟨round', project, .standard⟩ p' _ hnow'
    rcases hphase : phase.run env ⟨round, project, .standard⟩ p (env.now s).2 with
      ⟨⟨e | ⟨⟩, q⟩, t⟩ <;>
    rcases hphase' : phase.run env ⟨round', project, .standard⟩ p' (env.now s').2 with
      ⟨⟨e' | ⟨⟩, q'⟩, t'⟩ <;>
    rw [hphase] at halike hkept <;> rw [hphase'] at halike hkept'
    · rw [runPhases_cons_of_error hphase, runPhases_cons_of_error hphase']
      exact ⟨iff_of_false nofun nofun, halike.progress⟩
    · cases halike.ended.2 rfl
    · cases halike.ended.1 rfl
    · rw [runPhases_cons_of_ok hphase, runPhases_cons_of_ok hphase']
      exact ih hrest halike.progress _ _ (hsteady.keeps_now _ hkept) (hsteady.keeps_now _ hkept')

theorem preserves_runPhases {P : σ → Prop} (hsteady : env.SteadyOn P) (setting : RunSetting)
    {phases : List Phase} (hphases : .render ∉ phases) (p : Progress) (w : Stopwatch) :
    Preserves P (runPhases env setting phases p w) := by
  induction phases generalizing p w with
  | nil => exact preserves_pure P _
  | cons phase phases ih =>
    obtain ⟨hfirst, hrest⟩ := not_or.1 (List.mem_cons.not.1 hphases)
    refine hsteady.keeps_now.bind fun began => ?_
    refine (Phase.preserves_run hsteady (Ne.symm hfirst) setting p).bind fun ⟨ending, p⟩ => ?_
    refine hsteady.keeps_now.bind fun ended => ?_
    cases ending with
    | error e => exact preserves_pure P _
    | ok => exact ih hrest p _

section Rendering

variable {round : Round} {pipeline : Pipeline} {s : σ}

def prepared (env : Environment (StateM σ)) (round : Round) (pipeline : Pipeline) (s : σ) : σ :=
  (env.now (begin env round pipeline preparing s).2).2

/-- Rendering adds nothing to the progress but the number of artifacts, and that only when it ends. -/
theorem begin_all_cases (env : Environment (StateM σ)) (round : Round) (pipeline : Pipeline) (s : σ) :
    ((begin env round pipeline Phase.all s).1.interrupted ≠ none ∧
      (begin env round pipeline Phase.all s).1.progress =
        (begin env round pipeline preparing s).1.progress) ∨
    ((begin env round pipeline Phase.all s).1.interrupted = none ∧ ∃ model n,
      (begin env round pipeline preparing s).1.progress.generation = some model ∧
      (env.render model (prepared env round pipeline s)).1 = .ok n ∧
      (begin env round pipeline Phase.all s).1.progress =
        { (begin env round pipeline preparing s).1.progress with artifacts := n }) := by
  unfold prepared
  rcases hprepared : begin env round pipeline preparing s with ⟨⟨interrupted, p, w⟩, t⟩
  cases interrupted with
  | some interrupted =>
    rw [begin_all_of_interrupted hprepared]
    exact Or.inl ⟨nofun, rfl⟩
  | none =>
    rw [begin_all_of_prepared hprepared]
    rcases hgeneration : p.generation with - | model
    · have hrun : Phase.render.run env ⟨round, pipeline.project, pipeline.registry⟩ p (env.now t).2 =
          ((.error (.fault .notProcessed), p), (env.now t).2) := by
        show Phase.runRender env p _ = _
        rw [Phase.runRender_of_none env hgeneration]
        rfl
      rw [runPhases_cons_of_error hrun]
      exact Or.inl ⟨nofun, rfl⟩
    · have hrun : Phase.render.run env ⟨round, pipeline.project, pipeline.registry⟩ p (env.now t).2 =
          (Phase.rendered p (env.render model (env.now t).2).1, (env.render model (env.now t).2).2) := by
        show Phase.runRender env p _ = _
        rw [Phase.runRender_of_some env hgeneration]
        rfl
      rcases hanswer : (env.render model (env.now t).2).1 with e | n
      · rw [hanswer] at hrun
        rw [runPhases_cons_of_error hrun]
        exact Or.inl ⟨nofun, rfl⟩
      · rw [hanswer] at hrun
        rw [runPhases_cons_of_ok hrun]
        exact Or.inr ⟨rfl, model, n, rfl, hanswer, rfl⟩

theorem preserves_prepared {P : σ → Prop} (hsteady : env.SteadyOn P) (round : Round)
    (pipeline : Pipeline) (s : σ) (hs : P s) : P (prepared env round pipeline s) :=
  hsteady.keeps_now _ (preserves_runPhases hsteady _ (by decide) _ _ _ (hsteady.keeps_now s hs))

end Rendering

def left (env : Environment (StateM σ)) (round : Round) (pipeline : Pipeline) (s : σ) : Progress :=
  ((visited env round pipeline s).getLast?.map Visit.after).getD .start

def Processes (env : Environment (StateM σ)) (round : Round) (pipeline : Pipeline) (s : σ) : Prop :=
  ∃ v ∈ visited env round pipeline s, v.phase = .process ∧ v.ending = .ok ()

section Left

variable {round : Round} {pipeline : Pipeline} {s : σ}

theorem left_of_skipped (hskip : (round.isIdle || pipeline.hasRun) = true) :
    left env round pipeline s = .start := by
  rw [left, visited, if_pos hskip]
  rfl

theorem left_of_working (hwork : (round.isIdle || pipeline.hasRun) = false) :
    left env round pipeline s = (begin env round pipeline Phase.all s).1.progress := by
  rw [left, visited_of_working hwork]
  exact (progress_runPhases env _ Phase.all .start (Stopwatch.new.begin (env.now s).1)
    (env.now s).2).symm

theorem processes_iff : Processes env round pipeline s ↔
    (left env round pipeline s).generation.isSome = true := by
  by_cases hskip : (round.isIdle || pipeline.hasRun) = true
  · rw [left_of_skipped hskip, Processes, visited, if_pos hskip]
    simp [Progress.start]
  have hwork : (round.isIdle || pipeline.hasRun) = false := Bool.eq_false_iff.2 hskip
  have hmodel : ∀ v ∈ visited env round pipeline s, v.phase = .process → v.ending = .ok () →
      v.after.generation.isSome = true := by
    intro v hv hphase hended
    obtain ⟨phase, p, t, rfl⟩ := exists_visit_of_mem_visited hv
    obtain rfl : phase = .process := hphase
    have hrun : Phase.runProcess ⟨round, pipeline.project, pipeline.registry⟩ p =
        (.ok (), (Phase.visit env ⟨round, pipeline.project, pipeline.registry⟩ .process p t).after) :=
      Prod.ext hended rfl
    obtain ⟨-, model, -, -, hafter⟩ := Phase.exists_generated_of_runProcess hrun
    rw [hafter]
    rfl
  rcases hbegin : begin env round pipeline Phase.all s with ⟨ended, t⟩
  have htraced := traced_begin hwork hbegin
  rw [left_of_working hwork, hbegin]
  rcases htraced.generation with ⟨hnone, hunended⟩ | ⟨v, hv, hphase, hended, hafter⟩
  · refine iff_of_false ?_ ?_
    · rintro ⟨v, hv, hphase, hended⟩
      exact hunended v hv hphase hended
    · rw [hnone]
      exact Bool.false_ne_true
  · exact iff_of_true ⟨v, hv, hphase, hended⟩ (hafter ▸ hmodel v hv hphase hended)

end Left

/-- Two rounds on fresh pipelines come to the same: under each kind the same declarations are accepted in
the same order, processing ends in both or in neither and with the same model, and the diagnostics are the
same but for their order unless a run has failed. -/
structure SameResults (env : Environment (StateM σ)) (project : Project) (round round' : Round)
    (s s' : σ) : Prop where
  accepted : ∀ kind,
    (left env round (.new .standard project) s).validated.map (·.declarations kind) =
      (left env round' (.new .standard project) s').validated.map (·.declarations kind)
  processed : Processes env round (.new .standard project) s ↔
    Processes env round' (.new .standard project) s'
  generated : (left env round (.new .standard project) s).generation =
    (left env round' (.new .standard project) s').generation
  diagnostics : ((Pipeline.new .standard project).run env round s).1.1.status ≠ .failed →
    ((Pipeline.new .standard project).run env round' s').1.1.status ≠ .failed →
    ((Pipeline.new .standard project).run env round s).1.1.diagnostics.Perm
      ((Pipeline.new .standard project).run env round' s').1.1.diagnostics

theorem matches_begin {P : σ → Prop} (hsteady : env.SteadyOn P) {round round' : Round}
    (hperm : round.markers.Perm round'.markers) (project : Project) {s s' : σ} (hs : P s)
    (hs' : P s') :
    (begin env round (.new .standard project) Phase.all s).1.progress.Matches
      (begin env round' (.new .standard project) Phase.all s').1.progress := by
  have hprepared : (begin env round (.new .standard project) preparing s).1.progress.Matches
      (begin env round' (.new .standard project) preparing s').1.progress :=
    (matches_runPhases hsteady hperm project (show .render ∉ preparing by decide)
      Progress.matches_start (Stopwatch.new.begin (env.now s).1)
      (Stopwatch.new.begin (env.now s').1) (hsteady.keeps_now s hs) (hsteady.keeps_now s' hs')).2
  rcases begin_all_cases env round (.new .standard project) s with
    ⟨-, hkept⟩ | ⟨-, model, n, -, -, hkept⟩ <;>
  rcases begin_all_cases env round' (.new .standard project) s' with
    ⟨-, hkept'⟩ | ⟨-, model', n', -, -, hkept'⟩ <;>
  rw [hkept, hkept'] <;> exact { hprepared with }

theorem exists_rendered_of_run {round : Round} {pipeline : Pipeline} {s : σ}
    (hwork : (round.isIdle || pipeline.hasRun) = false)
    (hstatus : (pipeline.run env round s).1.1.status ≠ .failed) : ∃ model n,
      (begin env round pipeline Phase.all s).1.progress.generation = some model ∧
      (env.render model (prepared env round pipeline s)).1 = .ok n ∧
      (pipeline.run env round s).1.1.diagnostics =
        (begin env round pipeline Phase.all s).1.progress.diagnostics ++ [completionNote n] := by
  rcases hbegin : begin env round pipeline Phase.all s with ⟨⟨interrupted, p, w⟩, t⟩
  have hcases := begin_all_cases env round pipeline s
  rw [hbegin] at hcases
  rw [run_eq hwork hbegin] at hstatus ⊢
  rcases hcases with ⟨hinterrupted, -⟩ | ⟨hended, model, n, hmodel, hanswer, hp⟩
  · obtain ⟨x, hx⟩ := Option.ne_none_iff_exists'.1 hinterrupted
    obtain rfl : interrupted = some x := hx
    exact absurd rfl hstatus
  · obtain rfl : interrupted = none := hended
    obtain rfl : p = _ := hp
    exact ⟨model, n, hmodel, hanswer, rfl⟩

section Fresh

variable {round round' : Round} {project : Project} {s s' : σ}

theorem isIdle_or_hasRun_new (round : Round) (project : Project) :
    (round.isIdle || (Pipeline.new .standard project).hasRun) = round.isIdle := Bool.or_false _

theorem sameResults_of_idle (hidle : round.isIdle = true) (hidle' : round'.isIdle = true) :
    SameResults env project round round' s s' := by
  rw [← isIdle_or_hasRun_new _ project] at hidle hidle'
  refine ⟨fun kind => ?_, ?_, ?_, fun _ _ => ?_⟩
  · rw [left_of_skipped hidle, left_of_skipped hidle']
  · rw [processes_iff, processes_iff, left_of_skipped hidle, left_of_skipped hidle']
  · rw [left_of_skipped hidle, left_of_skipped hidle']
  · rw [run_of_skipped hidle, run_of_skipped hidle']
    exact List.Perm.refl _

theorem sameResults_of_working {P : σ → Prop} (hsteady : env.SteadyOn P)
    (hperm : round.markers.Perm round'.markers) (hs : P s) (hs' : P s')
    (hwork : round.isIdle = false) (hwork' : round'.isIdle = false) :
    SameResults env project round round' s s' := by
  rw [← isIdle_or_hasRun_new _ project] at hwork hwork'
  have hmatches := matches_begin hsteady hperm project hs hs'
  rw [← left_of_working hwork, ← left_of_working hwork'] at hmatches
  refine ⟨fun kind => ?_, ?_, hmatches.generation, fun hstatus hstatus' => ?_⟩
  · have hkind := congrArg (Option.map fun declarations => declarations kind) hmatches.validated
    rwa [Option.map_map, Option.map_map] at hkind
  · rw [processes_iff, processes_iff, hmatches.generation]
  · obtain ⟨model, n, hmodel, hanswer, hreported⟩ := exists_rendered_of_run hwork hstatus
    obtain ⟨model', n', hmodel', hanswer', hreported'⟩ := exists_rendered_of_run hwork' hstatus'
    rw [← left_of_working hwork] at hmodel hreported
    rw [← left_of_working hwork'] at hmodel' hreported'
    obtain rfl : model = model' :=
      Option.some.inj (hmodel.symm.trans (hmatches.generation.trans hmodel'))
    obtain rfl := hsteady.rendered model _ _ n n'
      (preserves_prepared hsteady round (.new .standard project) s hs)
      (preserves_prepared hsteady round' (.new .standard project) s' hs') hanswer hanswer'
    rw [hreported, hreported']
    exact hmatches.diagnostics.append_right _

end Fresh

/-- The order of the markers in a round does not matter. -/
theorem sameResults_of_perm {P : σ → Prop} (hsteady : env.SteadyOn P) (round : Round)
    {markers : List Marker} (hperm : round.markers.Perm markers) (project : Project) {s s' : σ}
    (hs : P s) (hs' : P s') : SameResults env project round { round with markers } s s' := by
  have hsame : ({ round with markers } : Round).isIdle = round.isIdle := by
    rw [Round.isIdle, Round.isIdle, hperm.isEmpty_eq]
  cases hidle : round.isIdle with
  | true => exact sameResults_of_idle hidle (hsame.trans hidle)
  | false => exact sameResults_of_working hsteady hperm hs hs' hidle (hsame.trans hidle)

private def panelHost : MemoryHost :=
  MemoryHost.empty.declareAll
    [⟨.bindsView, ⟨.field, "title", "a.Main", some "android.view.View", [], [], [], [], []⟩, .empty⟩,
      ⟨⟨"pin"⟩, ⟨.classType, "Main", "a", none, [], [], [], [], []⟩, .empty⟩,
      ⟨.enhancedComponent, ⟨.classType, "Main", "a", none, [], [], [], [], []⟩, .empty⟩,
      ⟨⟨"lid"⟩, ⟨.classType, "Main", "a", none, [], [], [], [], []⟩, .empty⟩]

private def panelWorld (renderer : MemoryRenderer) : MemoryWorld :=
  ⟨{ panelHost with projectSymbols := .ok [⟨"id", "title", 1⟩] }, renderer⟩

private def panelRun (markers : List Marker) (renderer : MemoryRenderer) : RunOutcome :=
  ((Pipeline.new .standard (.new "a")).run MemoryWorld.environment (.ofMarkers markers)
    (panelWorld renderer)).1.1

theorem sameResults_of_perm_panel :
    let markers : List Marker := [.bindsView, ⟨"pin"⟩, .enhancedComponent, ⟨"lid"⟩]
    MemoryWorld.environment.SteadyOn (fun w => w.host = (panelWorld .discarding).host) ∧
    markers.Perm markers.reverse ∧
    SameResults MemoryWorld.environment (.new "a") (.ofMarkers markers) (.ofMarkers markers.reverse)
      (panelWorld .discarding) (panelWorld (.preview [])) ∧
    (panelRun markers .discarding).status = .completed ∧
    (panelRun markers.reverse (.preview [])).status = .completed ∧
    (panelRun markers .discarding).diagnostics ≠
      (panelRun markers.reverse (.preview [])).diagnostics := by
  intro markers
  have hsteady := MemoryWorld.steadyOn_environment (panelWorld .discarding).host
  have hperm : (Round.ofMarkers markers).markers.Perm markers.reverse :=
    (List.reverse_perm markers).symm
  have hhost : (panelWorld (.preview [])).host = (panelWorld .discarding).host := rfl
  exact ⟨hsteady, hperm, sameResults_of_perm hsteady _ hperm (.new "a") rfl hhost,
    by decide +kernel, by decide +kernel, by decide +kernel⟩

end Pipeline

end ComponentGlue
