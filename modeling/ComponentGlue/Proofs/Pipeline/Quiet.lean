import ComponentGlue.Pipeline
import ComponentGlue.Proofs.Pipeline.Outcome

set_option autoImplicit false
set_option relaxedAutoImplicit false

namespace ComponentGlue

section Effects

/-- A map from the computations of one monad to those of another that respects sequences. -/
structure EffectMap (m n : Type → Type) [Monad m] [Monad n] where
  map : {α : Type} → m α → n α
  map_pure : ∀ {α : Type} (a : α), map (pure a) = pure a
  map_bind : ∀ {α β : Type} (x : m α) (f : α → m β), map (x >>= f) = map x >>= fun a => map (f a)

def EffectMap.joinStates (σ τ : Type) : EffectMap (StateT σ (StateM τ)) (StateM (σ × τ)) where
  map x := fun s => ((x s.1 s.2).1.1, ((x s.1 s.2).1.2, (x s.1 s.2).2))
  map_pure _ := rfl
  map_bind _ _ := rfl

variable {m n : Type → Type} [Monad m] [Monad n]

/-- The environment with the effects of another monad. -/
def Environment.through (φ : EffectMap m n) (env : Environment m) : Environment n where
  declarations marker := φ.map (env.declarations marker)
  symbols scope := φ.map (env.symbols scope)
  render model := φ.map (env.render model)
  report d := φ.map (env.report d)
  now := φ.map env.now

namespace EffectMap

variable (φ : EffectMap m n) (env : Environment m)

theorem map_readBatches (markers : List Marker) :
    φ.map (Phase.readBatches env markers) = Phase.readBatches (env.through φ) markers := by
  induction markers with
  | nil => exact φ.map_pure _
  | cons marker markers ih =>
    simp only [Phase.readBatches, φ.map_bind]
    refine congrArg _ (funext fun raw => ?_)
    cases raw with
    | error e => exact φ.map_pure _
    | ok raw =>
      simp only [φ.map_bind, ih]
      refine congrArg _ (funext fun batches => ?_)
      cases batches with
      | error e => exact φ.map_pure _
      | ok batches => exact φ.map_pure _

/-- Each phase is taken to the phase over the image. -/
theorem map_phase (phase : Phase) (setting : RunSetting) (p : Progress) :
    φ.map (phase.run env setting p) = phase.run (env.through φ) setting p := by
  -- Validation and processing ask nothing; the others follow the questions they ask.
  cases phase with
  | extract =>
    simp only [Phase.run, Phase.runExtract, φ.map_bind, map_readBatches]
    refine congrArg _ (funext fun batches => ?_)
    cases batches with
    | error e => exact φ.map_pure _
    | ok batches => exact φ.map_pure _
  | resolve =>
    simp only [Phase.run, Phase.runResolve, φ.map_bind]
    refine congrArg _ (funext fun project => ?_)
    cases project with
    | error panic => exact φ.map_pure _
    | ok project =>
      simp only [φ.map_bind]
      refine congrArg _ (funext fun platform => ?_)
      cases platform with
      | error panic => exact φ.map_pure _
      | ok platform => exact φ.map_pure _
  | validate => exact φ.map_pure _
  | process => exact φ.map_pure _
  | render =>
    simp only [Phase.run, Phase.runRender]
    cases p.generation with
    | none => exact φ.map_pure _
    | some model =>
      simp only [φ.map_bind]
      refine congrArg _ (funext fun answer => ?_)
      cases answer with
      | error e => exact φ.map_pure _
      | ok n => exact φ.map_pure _

theorem map_runPhases (setting : RunSetting) (phases : List Phase) (p : Progress)
    (w : Stopwatch) :
    φ.map (Pipeline.runPhases env setting phases p w) =
      Pipeline.runPhases (env.through φ) setting phases p w := by
  induction phases generalizing p w with
  | nil => exact φ.map_pure _
  | cons phase phases ih =>
    simp only [Pipeline.runPhases, φ.map_bind, map_phase]
    refine congrArg _ (funext fun begun => congrArg _ (funext fun ending => ?_))
    obtain ⟨ending, p⟩ := ending
    refine congrArg _ (funext fun ended => ?_)
    cases ending with
    | error e => exact φ.map_pure _
    | ok => exact ih _ _

theorem map_faultAnchor (round : Round) (p : Progress) :
    φ.map (p.faultAnchor env round) = p.faultAnchor (env.through φ) round := by
  unfold Progress.faultAnchor
  cases p.extracted.bind DeclarationModel.first? with
  | some d => exact φ.map_pure _
  | none =>
    cases round.markers with
    | nil => exact φ.map_pure _
    | cons marker markers =>
      simp only [φ.map_bind]
      refine congrArg _ (funext fun raw => ?_)
      cases raw with
      | error e => exact φ.map_pure _
      | ok raw => exact φ.map_pure _

theorem map_reportAll (ds : List Diagnostic) :
    φ.map (Pipeline.reportAll env ds) = Pipeline.reportAll (env.through φ) ds := by
  induction ds with
  | nil => exact φ.map_pure _
  | cons d ds ih =>
    simp only [Pipeline.reportAll, φ.map_bind, ih]
    rfl

theorem map_run (round : Round) (pipeline : Pipeline) :
    φ.map (pipeline.run env round) = pipeline.run (env.through φ) round := by
  unfold Pipeline.run
  split
  · exact φ.map_pure _
  · simp only [φ.map_bind, map_runPhases]
    refine congrArg _ (funext fun begun => congrArg _ (funext fun ended => ?_))
    cases ended.interrupted with
    | some interrupted =>
      simp only [φ.map_bind, φ.map_pure, map_faultAnchor, map_reportAll]
      rfl
    | none =>
      simp only [φ.map_bind, φ.map_pure, map_reportAll]
      rfl

end EffectMap

end Effects

variable {σ τ α β : Type}

def AnswersAlike (s : σ) (t : τ) (x : StateM σ α) (y : StateM τ α) : Prop :=
  ∃ a, x s = (a, s) ∧ y t = (a, t)

section AnswersAlike

variable {s : σ} {t : τ} {x : StateM σ α} {y : StateM τ α} {f : α → StateM σ β}
  {g : α → StateM τ β}

theorem answersAlike_pure (s : σ) (t : τ) (a : α) :
    AnswersAlike s t (pure a : StateM σ α) (pure a : StateM τ α) :=
  ⟨a, rfl, rfl⟩

theorem AnswersAlike.bind (hx : AnswersAlike s t x y) (hf : ∀ a, AnswersAlike s t (f a) (g a)) :
    AnswersAlike s t (x >>= f) (y >>= g) := by
  obtain ⟨a, ha, ha'⟩ := hx
  obtain ⟨b, hb, hb'⟩ := hf a
  refine ⟨b, ?_, ?_⟩
  · rw [stateM_bind_apply, ha, hb]
  · rw [stateM_bind_apply, ha', hb']

end AnswersAlike

namespace Environment

/-- Questions to the hosts and the clocks are answered alike. -/
structure AlikeAt (env : Environment (StateM σ)) (s : σ) (env' : Environment (StateM τ)) (t : τ) :
    Prop where
  declarations : ∀ marker, AnswersAlike s t (env.declarations marker) (env'.declarations marker)
  symbols : ∀ scope, AnswersAlike s t (env.symbols scope) (env'.symbols scope)
  now : AnswersAlike s t env.now env'.now

/-- Nothing but rendering changes the state. -/
structure Quiet (env : Environment (StateM σ)) : Prop where
  declarations : ∀ marker s, (env.declarations marker s).2 = s
  symbols : ∀ scope s, (env.symbols scope s).2 = s
  report : ∀ d s, (env.report d s).2 = s
  now : ∀ s, (env.now s).2 = s

theorem Quiet.alikeAt {env : Environment (StateM σ)} (h : env.Quiet) (s : σ) :
    env.AlikeAt s env s := by
  have hself : ∀ {α : Type} (x : StateM σ α), (x s).2 = s → AnswersAlike s s x x :=
    fun x hx => ⟨(x s).1, Prod.ext rfl hx, Prod.ext rfl hx⟩
  exact ⟨fun marker => hself _ (h.declarations marker s), fun scope => hself _ (h.symbols scope s),
    hself _ (h.now s)⟩

end Environment

variable {env : Environment (StateM σ)} {env' : Environment (StateM τ)} {s : σ} {t : τ}
  {setting : RunSetting}

namespace Phase

theorem answersAlike_readBatches (h : env.AlikeAt s env' t) (markers : List Marker) :
    AnswersAlike s t (readBatches env markers) (readBatches env' markers) := by
  induction markers with
  | nil => exact answersAlike_pure s t _
  | cons marker markers ih =>
    refine (h.declarations marker).bind fun raw => ?_
    cases raw with
    | error e => exact answersAlike_pure s t _
    | ok raw =>
      refine ih.bind fun batches => ?_
      cases batches with
      | error e => exact answersAlike_pure s t _
      | ok batches => exact answersAlike_pure s t _

theorem answersAlike_run {phase : Phase} (hphase : phase ≠ .render) (h : env.AlikeAt s env' t)
    (setting : RunSetting) (p : Progress) :
    AnswersAlike s t (phase.run env setting p) (phase.run env' setting p) := by
  cases phase with
  | extract =>
    refine (answersAlike_readBatches h setting.round.markers).bind fun batches => ?_
    cases batches with
    | error e => exact answersAlike_pure s t _
    | ok batches => exact answersAlike_pure s t _
  | resolve =>
    refine (h.symbols .project).bind fun project => ?_
    cases project with
    | error panic => exact answersAlike_pure s t _
    | ok project =>
      refine (h.symbols .platform).bind fun platform => ?_
      cases platform with
      | error panic => exact answersAlike_pure s t _
      | ok platform => exact answersAlike_pure s t _
  | validate => exact answersAlike_pure s t _
  | process => exact answersAlike_pure s t _
  | render => exact absurd rfl hphase

end Phase

theorem Progress.answersAlike_faultAnchor (h : env.AlikeAt s env' t) (round : Round)
    (p : Progress) : AnswersAlike s t (p.faultAnchor env round) (p.faultAnchor env' round) := by
  unfold faultAnchor
  split
  · exact answersAlike_pure s t _
  · split
    · exact answersAlike_pure s t _
    · refine (h.declarations _).bind fun raw => ?_
      cases raw with
      | error e => exact answersAlike_pure s t _
      | ok raw => exact answersAlike_pure s t _

namespace Pipeline

theorem answersAlike_runPhases (h : env.AlikeAt s env' t) (setting : RunSetting)
    {phases : List Phase} (hphases : .render ∉ phases) (p : Progress) (w : Stopwatch) :
    AnswersAlike s t (runPhases env setting phases p w) (runPhases env' setting phases p w) := by
  induction phases generalizing p w with
  | nil => exact answersAlike_pure s t _
  | cons phase phases ih =>
    obtain ⟨hfirst, hrest⟩ := not_or.1 (List.mem_cons.not.1 hphases)
    refine h.now.bind fun begun =>
      (Phase.answersAlike_run (Ne.symm hfirst) h setting p).bind fun ending =>
        h.now.bind fun ended => ?_
    obtain ⟨e | ⟨⟩, p'⟩ := ending
    · exact answersAlike_pure s t _
    · exact ih hrest p' _

theorem answersAlike_preparing (h : env.AlikeAt s env' t) (round : Round) (pipeline : Pipeline) :
    AnswersAlike s t (begin env round pipeline preparing) (begin env' round pipeline preparing) :=
  h.now.bind fun _ => answersAlike_runPhases h _ (by decide) _ _

section Quiet

variable {round : Round} {pipeline : Pipeline} {p : Progress} {w : Stopwatch}

theorem snd_reportAll (hquiet : env.Quiet) (ds : List Diagnostic) (s : σ) :
    (reportAll env ds s).2 = s := by
  induction ds with
  | nil => rfl
  | cons d ds ih => rw [reportAll, stateM_bind_apply, hquiet.report, ih]

theorem snd_faultAnchor (hquiet : env.Quiet) (round : Round) (p : Progress) (s : σ) :
    (p.faultAnchor env round s).2 = s := by
  obtain ⟨anchor, hanchor, -⟩ := p.answersAlike_faultAnchor (hquiet.alikeAt s) round
  rw [hanchor]

theorem snd_settle (hquiet : env.Quiet) (round : Round) (ended : PhasesEnd) (s : σ) :
    (settle env round ended s).2 = s := by
  unfold settle
  cases ended.interrupted with
  | none => rfl
  | some x => exact snd_faultAnchor hquiet round ended.progress s

theorem snd_run_of_begin (hquiet : env.Quiet) (hwork : (round.isIdle || pipeline.hasRun) = false)
    {ended : PhasesEnd} {s' : σ} (h : begin env round pipeline Phase.all s = (ended, s')) :
    (pipeline.run env round s).2 = s' := by
  rw [run_of_working hwork, stateM_bind_apply, h, stateM_bind_apply, snd_settle hquiet]
  unfold conclude
  rw [stateM_bind_apply, hquiet.now]
  exact snd_reportAll hquiet _ s'

theorem run_of_preparing_interrupted (hquiet : env.Quiet)
    (hwork : (round.isIdle || pipeline.hasRun) = false) {phase : Phase} {e : Interruption}
    (h : begin env round pipeline preparing s = (⟨some (phase, e), p, w⟩, s)) :
    (pipeline.run env round s).1.1 =
      ⟨.failed, p.diagnostics ++ [faultDiagnostic phase e (p.faultAnchor env round s).1],
        p.artifacts⟩ ∧
    (pipeline.run env round s).2 = s := by
  have hall := begin_all_of_interrupted h
  exact ⟨run_of_interrupted hwork hall, snd_run_of_begin hquiet hwork hall⟩

theorem run_of_preparing (hquiet : env.Quiet) (hwork : (round.isIdle || pipeline.hasRun) = false)
    (h : begin env round pipeline preparing s = (⟨none, p, w⟩, s)) {model : GenerationModel}
    (hmodel : p.generation = some model) {n : Nat} (hanswer : (env.render model s).1 = .ok n) :
    (pipeline.run env round s).1.1 = ⟨.completed, p.diagnostics ++ [completionNote n], n⟩ ∧
    (pipeline.run env round s).2 = (env.render model s).2 := by
  have hrender : Phase.render.run env ⟨round, pipeline.project, pipeline.registry⟩ p
      (env.now s).2 = ((.ok (), { p with artifacts := n }), (env.render model s).2) := by
    rw [hquiet.now]
    show Phase.runRender env p s = _
    rw [Phase.runRender_of_some env hmodel, stateM_bind_apply, hanswer]
    rfl
  have hall : begin env round pipeline Phase.all s = (⟨none, { p with artifacts := n },
      w.timed Phase.render.name (env.now s).1 (env.now (env.render model s).2).1⟩,
        (env.render model s).2) := by
    refine (begin_all_of_prepared h).trans ((runPhases_cons_of_ok hrender).trans ?_)
    rw [hquiet.now]
    rfl
  refine ⟨?_, snd_run_of_begin hquiet hwork hall⟩
  rw [run_eq hwork hall]
  rfl

end Quiet

end Pipeline

end ComponentGlue
