import ComponentGlue.Pipeline
import ComponentGlue.Proofs.Validation.Validated

set_option autoImplicit false
set_option relaxedAutoImplicit false

namespace ComponentGlue

section Phases

def Stopwatch.timed (w : Stopwatch) (name : String) (begun ended : Nat) : Stopwatch :=
  ((w.start name begun).stop name ended).2

variable {σ : Type} {env : Environment (StateM σ)} {setting : RunSetting}

theorem stateM_bind_apply {α β : Type} (x : StateM σ α) (f : α → StateM σ β) (s : σ) :
    (x >>= f) s = f (x s).1 (x s).2 := rfl

namespace Phase

def Adds (phases : List Phase) (p p' : Progress) : Prop :=
  ∃ added, p'.diagnostics = p.diagnostics ++ added ∧
    ∀ d ∈ added, ∃ phase ∈ phases, d.phase = phase.name

theorem adds_of_eq {phases : List Phase} {p p' : Progress} (h : p'.diagnostics = p.diagnostics) :
    Adds phases p p' :=
  ⟨[], by simp [h], by simp⟩

theorem Adds.mono {phases phases' : List Phase} {p p' : Progress} (h : Adds phases p p')
    (hsub : phases ⊆ phases') : Adds phases' p p' := by
  obtain ⟨added, heq, hadded⟩ := h
  refine ⟨added, heq, fun d hd => ?_⟩
  obtain ⟨phase, hphase, hname⟩ := hadded d hd
  exact ⟨phase, hsub hphase, hname⟩

theorem Adds.trans {phases : List Phase} {p p' p'' : Progress} (h : Adds phases p p')
    (h' : Adds phases p' p'') : Adds phases p p'' := by
  obtain ⟨added, heq, hadded⟩ := h
  obtain ⟨added', heq', hadded'⟩ := h'
  refine ⟨added ++ added', by rw [heq', heq, List.append_assoc], fun d hd => ?_⟩
  exact (List.mem_append.1 hd).elim (hadded d) (hadded' d)

theorem adds_recordCatalog (project platform : SymbolSource) (p : Progress) :
    Adds [.resolve] p (recordCatalog project platform p) := by
  unfold recordCatalog
  split
  · split
    · exact ⟨[_], rfl, by simp [Diagnostic.note]⟩
    · exact adds_of_eq rfl
  · exact ⟨[_], rfl, by simp [Diagnostic.warning]⟩

theorem adds_runValidate (setting : RunSetting) (p : Progress) :
    Adds [.validate] p (runValidate setting p).2 := by
  unfold runValidate
  split
  · exact adds_of_eq rfl
  · next extracted _ =>
    have hadds : ∀ q : Progress, q.diagnostics = p.diagnostics ++ (Validator.validate
        setting.registry.validators ⟨extracted, p.catalog, setting.project⟩).diagnostics →
        Adds [.validate] p q := fun q hq => ⟨_, hq, fun d hd =>
      ⟨.validate, List.mem_singleton_self _, Validator.phase_of_mem_validate hd⟩⟩
    dsimp only
    split
    · exact hadds _ rfl
    · exact hadds _ rfl

/-- A phase keeps the diagnostics that are there and adds its own. -/
theorem adds_run (phase : Phase) (env : Environment (StateM σ)) (setting : RunSetting)
    (p : Progress) (s : σ) : Adds [phase] p (phase.run env setting p s).1.2 := by
  cases phase with
  | extract =>
    rcases h : (readBatches env setting.round.markers s).1 with e | batches
    all_goals
      refine adds_of_eq ?_
      simp only [run, runExtract, stateM_bind_apply, h]
      rfl
  | resolve =>
    rcases hproject : (env.symbols .project s).1 with panic | project
    · refine adds_of_eq ?_
      simp only [run, runResolve, stateM_bind_apply, hproject]
      rfl
    · rcases hplatform : (env.symbols .platform (env.symbols .project s).2).1 with panic | platform
      · refine adds_of_eq ?_
        simp only [run, runResolve, stateM_bind_apply, hproject, hplatform]
        rfl
      · simp only [run, runResolve, stateM_bind_apply, hproject, hplatform]
        exact adds_recordCatalog project platform p
  | validate => exact adds_runValidate setting p
  | process =>
    refine adds_of_eq ?_
    show (runProcess setting p).2.diagnostics = _
    unfold runProcess
    split
    · rfl
    · split <;> rfl
  | render =>
    refine adds_of_eq ?_
    rcases hgeneration : p.generation with - | model
    · simp only [run, runRender, hgeneration]
      rfl
    · rcases hrender : (env.render model s).1 with e | artifacts
      all_goals
        simp only [run, runRender, hgeneration, stateM_bind_apply, hrender]
        rfl

end Phase

namespace Pipeline

section Phases

variable {phase : Phase} {phases : List Phase} {p p' : Progress} {w w' : Stopwatch} {s s' : σ}

theorem runPhases_cons_of_ok
    (h : phase.run env setting p (env.now s).2 = ((.ok (), p'), s')) :
    runPhases env setting (phase :: phases) p w s =
      runPhases env setting phases p' (w.timed phase.name (env.now s).1 (env.now s').1)
        (env.now s').2 := by
  simp only [runPhases, stateM_bind_apply, h]
  rfl

theorem runPhases_cons_of_error {e : Interruption}
    (h : phase.run env setting p (env.now s).2 = ((.error e, p'), s')) :
    runPhases env setting (phase :: phases) p w s =
      (⟨some (phase, e), p', w.timed phase.name (env.now s).1 (env.now s').1⟩,
        (env.now s').2) := by
  simp only [runPhases, stateM_bind_apply, h]
  rfl

theorem runPhases_append_of_ok {before after : List Phase}
    (h : runPhases env setting before p w s = (⟨none, p', w'⟩, s')) :
    runPhases env setting (before ++ after) p w s = runPhases env setting after p' w' s' := by
  induction before generalizing p w s with
  | nil =>
    cases h
    rfl
  | cons phase before ih =>
    rcases hphase : phase.run env setting p (env.now s).2 with ⟨⟨e | ⟨⟩, q⟩, t⟩
    · rw [runPhases_cons_of_error hphase] at h
      cases h
    · rw [runPhases_cons_of_ok hphase] at h
      rw [List.cons_append, runPhases_cons_of_ok hphase, ih h]

theorem runPhases_append_of_interrupted {before after : List Phase} {x : Phase × Interruption}
    (h : runPhases env setting before p w s = (⟨some x, p', w'⟩, s')) :
    runPhases env setting (before ++ after) p w s = (⟨some x, p', w'⟩, s') := by
  induction before generalizing p w s with
  | nil => cases h
  | cons phase before ih =>
    rcases hphase : phase.run env setting p (env.now s).2 with ⟨⟨e | ⟨⟩, q⟩, t⟩
    · rw [runPhases_cons_of_error hphase] at h
      rw [List.cons_append, runPhases_cons_of_error hphase, h]
    · rw [runPhases_cons_of_ok hphase] at h
      rw [List.cons_append, runPhases_cons_of_ok hphase, ih h]

theorem adds_runPhases (phases : List Phase) (p : Progress) (w : Stopwatch) (s : σ) :
    Phase.Adds phases p (runPhases env setting phases p w s).1.progress := by
  induction phases generalizing p w s with
  | nil => exact Phase.adds_of_eq rfl
  | cons phase phases ih =>
    have hfirst := (phase.adds_run env setting p (env.now s).2).mono
      (List.cons_subset_cons phase (List.nil_subset phases))
    rcases h : phase.run env setting p (env.now s).2 with ⟨⟨e | ⟨⟩, q⟩, t⟩
    · rw [runPhases_cons_of_error h]
      rwa [h] at hfirst
    · rw [runPhases_cons_of_ok h]
      rw [h] at hfirst
      exact hfirst.trans ((ih q _ _).mono (List.subset_cons_self phase phases))

end Phases

section Run

variable {round : Round} {pipeline : Pipeline} {s s' : σ}

/-- The first phases of a working run. -/
def begin (env : Environment (StateM σ)) (round : Round) (pipeline : Pipeline)
    (phases : List Phase) : StateM σ PhasesEnd := do
  runPhases env ⟨round, pipeline.project, pipeline.registry⟩ phases .start
    (Stopwatch.new.begin (← env.now))

def preparing : List Phase := [.extract, .resolve, .validate, .process]

theorem begin_all_of_interrupted {x : Phase × Interruption} {p : Progress} {w : Stopwatch}
    (h : begin env round pipeline preparing s = (⟨some x, p, w⟩, s')) :
    begin env round pipeline Phase.all s = (⟨some x, p, w⟩, s') := by
  have hall : begin env round pipeline (preparing ++ [.render]) s = (⟨some x, p, w⟩, s') :=
    runPhases_append_of_interrupted h
  exact hall

theorem begin_all_of_prepared {p : Progress} {w : Stopwatch}
    (h : begin env round pipeline preparing s = (⟨none, p, w⟩, s')) :
    begin env round pipeline Phase.all s =
      runPhases env ⟨round, pipeline.project, pipeline.registry⟩ [.render] p w s' := by
  have hall : begin env round pipeline (preparing ++ [.render]) s =
      runPhases env ⟨round, pipeline.project, pipeline.registry⟩ [.render] p w s' :=
    runPhases_append_of_ok h
  exact hall

theorem run_of_interrupted {phase : Phase} {e : Interruption} {p : Progress} {w : Stopwatch}
    (hwork : (round.isIdle || pipeline.hasRun) = false)
    (h : begin env round pipeline Phase.all s = (⟨some (phase, e), p, w⟩, s')) :
    (pipeline.run env round s).1.1 =
      ⟨.failed, p.diagnostics ++ [faultDiagnostic phase e (p.faultAnchor env round s').1],
        p.artifacts⟩ := by
  have hended : runPhases env ⟨round, pipeline.project, pipeline.registry⟩ Phase.all .start
      (Stopwatch.new.begin (env.now s).1) (env.now s).2 = (⟨some (phase, e), p, w⟩, s') := h
  rw [run, if_neg (Bool.not_eq_true _ ▸ hwork)]
  simp only [stateM_bind_apply, hended]
  rfl

end Run

end Pipeline

end Phases

/-- A call on the host, the renderer or the clock. -/
inductive Call where
  | declarations (marker : Marker)
  | symbols (scope : ResourceScope)
  | render (model : GenerationModel) (answer : Except Interruption Nat)
  | report (d : Diagnostic)
  | now

namespace Call

/-- The host is asked for something. -/
def isQuestion : Call → Bool
  | .declarations _ | .symbols _ => true
  | .render _ _ | .report _ | .now => false

/-- The model that is handed to the renderer, and the renderer's answer. -/
def rendering? : Call → Option (GenerationModel × Except Interruption Nat)
  | .render model answer => some (model, answer)
  | .declarations _ | .symbols _ | .report _ | .now => none

/-- The diagnostic that the host is told. -/
def report? : Call → Option Diagnostic
  | .report d => some d
  | .declarations _ | .symbols _ | .render _ _ | .now => none

theorem rendering?_of_isQuestion {call : Call} (h : call.isQuestion = true) :
    call.rendering? = none := by
  cases call with
  | render model answer => cases h
  | declarations _ | symbols _ | report _ | now => rfl

theorem report?_of_isQuestion {call : Call} (h : call.isQuestion = true) :
    call.report? = none := by
  cases call with
  | report d => cases h
  | declarations _ | symbols _ | render _ _ | now => rfl

end Call

variable {σ α β : Type}

def recordCall (call : α → Call) (x : StateM σ α) : StateM (σ × List Call) α := fun w =>
  ((x w.1).1, (x w.1).2, w.2 ++ [call (x w.1).1])

/-- The same surroundings, with every call kept in order. -/
def Environment.recording (env : Environment (StateM σ)) :
    Environment (StateM (σ × List Call)) where
  declarations marker := recordCall (fun _ => .declarations marker) (env.declarations marker)
  symbols scope := recordCall (fun _ => .symbols scope) (env.symbols scope)
  render model := recordCall (.render model) (env.render model)
  report d := recordCall (fun _ => .report d) (env.report d)
  now := recordCall (fun _ => .now) env.now

def callsOf (y : StateM (σ × List Call) α) (s : σ) : List Call := (y (s, [])).2.2

def Records (x : StateM σ α) (y : StateM (σ × List Call) α) : Prop :=
  ∀ s calls, y (s, calls) = ((x s).1, (x s).2, calls ++ callsOf y s)

section Records

variable {x : StateM σ α} {y : StateM (σ × List Call) α} {f : α → StateM σ β}
  {g : α → StateM (σ × List Call) β}

theorem records_pure (v : α) : Records (pure v : StateM σ α) (pure v) :=
  fun s calls => congrArg (fun cs => (v, s, cs)) (List.append_nil calls).symm

theorem records_recordCall (call : α → Call) (x : StateM σ α) : Records x (recordCall call x) :=
  fun _ _ => rfl

theorem Records.bind_apply (hx : Records x y) (hf : ∀ v, Records (f v) (g v)) (s : σ)
    (calls : List Call) : (y >>= g) (s, calls) = (((x >>= f) s).1, ((x >>= f) s).2,
      calls ++ (callsOf y s ++ callsOf (g (x s).1) (x s).2)) := by
  rw [stateM_bind_apply, stateM_bind_apply, hx s calls, hf (x s).1 (x s).2, List.append_assoc]

theorem callsOf_bind (hx : Records x y) (hf : ∀ v, Records (f v) (g v)) (s : σ) :
    callsOf (y >>= g) s = callsOf y s ++ callsOf (g (x s).1) (x s).2 :=
  congrArg (fun r => r.2.2) (hx.bind_apply hf s [])

theorem Records.bind (hx : Records x y) (hf : ∀ v, Records (f v) (g v)) :
    Records (x >>= f) (y >>= g) := by
  intro s calls
  rw [callsOf_bind hx hf, hx.bind_apply hf]

end Records

/-- The second computation records the first one, which only asks the host. -/
structure Asks (x : StateM σ α) (y : StateM (σ × List Call) α) : Prop where
  records : Records x y
  questions : ∀ s, ∀ call ∈ callsOf y s, call.isQuestion = true

section Asks

variable {x : StateM σ α} {y : StateM (σ × List Call) α} {f : α → StateM σ β}
  {g : α → StateM (σ × List Call) β}

theorem asks_pure (v : α) : Asks (pure v : StateM σ α) (pure v) :=
  ⟨records_pure v, fun _ _ h => absurd h List.not_mem_nil⟩

theorem asks_recordCall {call : α → Call} (h : ∀ v, (call v).isQuestion = true) (x : StateM σ α) :
    Asks x (recordCall call x) := by
  refine ⟨records_recordCall call x, fun s c hc => ?_⟩
  obtain rfl : c = call (x s).1 := List.mem_singleton.1 hc
  exact h _

theorem Asks.bind (hx : Asks x y) (hf : ∀ v, Asks (f v) (g v)) : Asks (x >>= f) (y >>= g) := by
  refine ⟨hx.records.bind fun v => (hf v).records, fun s call hcall => ?_⟩
  rw [callsOf_bind hx.records fun v => (hf v).records] at hcall
  rcases List.mem_append.1 hcall with hcall | hcall
  · exact hx.questions s call hcall
  · exact (hf _).questions _ call hcall

theorem asks_declarations (env : Environment (StateM σ)) (marker : Marker) :
    Asks (env.declarations marker) (env.recording.declarations marker) := by
  have hcall : Asks (env.declarations marker)
      (recordCall (fun _ => .declarations marker) (env.declarations marker)) :=
    asks_recordCall (fun _ => rfl) _
  exact hcall

theorem asks_symbols (env : Environment (StateM σ)) (scope : ResourceScope) :
    Asks (env.symbols scope) (env.recording.symbols scope) := by
  have hcall : Asks (env.symbols scope)
      (recordCall (fun _ => .symbols scope) (env.symbols scope)) :=
    asks_recordCall (fun _ => rfl) _
  exact hcall

end Asks

namespace Phase

variable {env : Environment (StateM σ)} {setting : RunSetting}

theorem asks_readBatches (env : Environment (StateM σ)) (markers : List Marker) :
    Asks (readBatches env markers) (readBatches env.recording markers) := by
  induction markers with
  | nil => exact asks_pure _
  | cons marker markers ih =>
    refine (asks_declarations env marker).bind fun raw => ?_
    cases raw with
    | error e => exact asks_pure _
    | ok raw =>
      refine ih.bind fun batches => ?_
      cases batches with
      | error e => exact asks_pure _
      | ok batches => exact asks_pure _

theorem asks_run {phase : Phase} (h : phase ≠ .render) (env : Environment (StateM σ))
    (setting : RunSetting) (p : Progress) :
    Asks (phase.run env setting p) (phase.run env.recording setting p) := by
  cases phase with
  | extract =>
    refine (asks_readBatches env setting.round.markers).bind fun batches => ?_
    cases batches with
    | error e => exact asks_pure _
    | ok batches => exact asks_pure _
  | resolve =>
    refine (asks_symbols env .project).bind fun project => ?_
    cases project with
    | error panic => exact asks_pure _
    | ok project =>
      refine (asks_symbols env .platform).bind fun platform => ?_
      cases platform with
      | error panic => exact asks_pure _
      | ok platform => exact asks_pure _
  | validate => exact asks_pure _
  | process => exact asks_pure _
  | render => exact absurd rfl h

theorem runRender_of_none (env : Environment (StateM σ)) {p : Progress}
    (h : p.generation = none) : runRender env p = pure (.error (.fault .notProcessed), p) := by
  unfold runRender
  rw [h]

def rendered (p : Progress) : Except Interruption Nat → Ending
  | .error e => (.error (e.during .rendering), p)
  | .ok artifacts => (.ok (), { p with artifacts })

theorem runRender_of_some (env : Environment (StateM σ)) {p : Progress} {model : GenerationModel}
    (h : p.generation = some model) :
    runRender env p = env.render model >>= fun answer => pure (rendered p answer) := by
  obtain ⟨_, _, _, generation, _, _⟩ := p
  obtain rfl : generation = some model := h
  refine congrArg (env.render model >>= ·) (funext fun answer => ?_)
  cases answer <;> rfl

theorem records_runRender (env : Environment (StateM σ)) (p : Progress) :
    Records (runRender env p) (runRender env.recording p) := by
  rcases hgeneration : p.generation with - | model
  · rw [runRender_of_none env hgeneration, runRender_of_none env.recording hgeneration]
    exact records_pure _
  · rw [runRender_of_some env hgeneration, runRender_of_some env.recording hgeneration]
    exact (records_recordCall (.render model) (env.render model)).bind fun _ => records_pure _

theorem callsOf_runRender (env : Environment (StateM σ)) (p : Progress) (s : σ) :
    callsOf (runRender env.recording p) s =
      p.generation.toList.map fun model => .render model (env.render model s).1 := by
  rcases hgeneration : p.generation with - | model
  · rw [runRender_of_none env.recording hgeneration]
    rfl
  · rw [runRender_of_some env.recording hgeneration]
    rfl

theorem records_run (phase : Phase) (env : Environment (StateM σ)) (setting : RunSetting)
    (p : Progress) : Records (phase.run env setting p) (phase.run env.recording setting p) := by
  by_cases h : phase = .render
  · subst h
    exact records_runRender env p
  · exact (asks_run h env setting p).records

end Phase

end ComponentGlue
