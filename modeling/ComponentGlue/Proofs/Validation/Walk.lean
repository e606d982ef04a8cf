import ComponentGlue.Proofs.Run.Extraction
import ComponentGlue.Validation

/-!
Validation as a walk. Kinds, declarations and validators are taken in an order that no verdict changes,
so a run is one flat list of steps, followed up to the first interruption, and a result that is a
function of the verdicts alone.
-/

set_option autoImplicit false
set_option relaxedAutoImplicit false

namespace ComponentGlue

namespace Reported

variable {α β : Type}

@[simp] theorem pure_eq (a : α) : (pure a : Reported α) = ⟨[], .ok a⟩ := rfl

@[simp] theorem ok_bind (diagnostics : List Diagnostic) (a : α) (f : α → Reported β) :
    ((⟨diagnostics, .ok a⟩ : Reported α) >>= f) =
      ⟨diagnostics ++ (f a).diagnostics, (f a).result⟩ := rfl

@[simp] theorem error_bind (diagnostics : List Diagnostic) (e : Interruption)
    (f : α → Reported β) :
    ((⟨diagnostics, .error e⟩ : Reported α) >>= f) = ⟨diagnostics, .error e⟩ := rfl

theorem mem_diagnostics_bind {x : Reported α} {f : α → Reported β} {w : Diagnostic}
    (h : w ∈ (x >>= f).diagnostics) : w ∈ x.diagnostics ∨ ∃ a, w ∈ (f a).diagnostics := by
  rcases x with ⟨diagnostics, e | a⟩
  · exact Or.inl h
  · exact (List.mem_append.1 h).imp_right fun h => ⟨a, h⟩

theorem exists_ok {x : Reported α} (h : x.result.toOption.isSome = true) :
    ∃ a, x.result = .ok a := by
  cases hx : x.result with
  | ok a => exact ⟨a, rfl⟩
  | error e =>
    rw [hx] at h
    cases h

instance : LawfulMonad Reported :=
  LawfulMonad.mk' Reported
    (by
      rintro α ⟨diagnostics, e | a⟩
      · rfl
      · exact congrArg (Reported.mk · (.ok a)) (List.append_nil diagnostics))
    (fun a f => by simp)
    (by
      rintro α β γ ⟨diagnostics, e | a⟩ f g
      · rfl
      · rcases hf : f a with ⟨found, e | b⟩ <;> simp [hf])

end Reported

namespace Findings

variable {fs : Findings} {d : Declaration} {w : Diagnostic}

theorem of_mem_diagnostics (h : w ∈ fs.diagnostics d) :
    w.phase = validationPhase ∧ w.location = some d.ref := by
  obtain ⟨f, -, hf⟩ := List.mem_filterMap.1 h
  cases f with
  | error message => exact Option.some.inj hf ▸ ⟨rfl, rfl⟩
  | warning message => exact Option.some.inj hf ▸ ⟨rfl, rfl⟩
  | needs owner => cases hf
  | lookedUp key => cases hf

theorem exists_isError_iff :
    (∃ w ∈ fs.diagnostics d, w.isError = true) ↔ fs.rejects = true := by
  rw [rejects, List.any_eq_true]
  constructor
  · rintro ⟨w, hw, herror⟩
    obtain ⟨f, hf, hfw⟩ := List.mem_filterMap.1 hw
    refine ⟨f, hf, ?_⟩
    cases f with
    | error message => rfl
    | warning message => cases Option.some.inj hfw ▸ herror
    | needs owner => cases hfw
    | lookedUp key => cases hfw
  · rintro ⟨f, hf, herror⟩
    cases f with
    | error message => exact ⟨_, List.mem_filterMap.2 ⟨_, hf, rfl⟩, rfl⟩
    | warning message => cases herror
    | needs owner => cases herror
    | lookedUp key => cases herror

end Findings

/-- What is kept of the diagnostics of an interrupted check: a panic takes them along. -/
def Interruption.kept : Interruption → List Diagnostic → List Diagnostic
  | .fault _, found => found
  | .panic _, _ => []

@[simp] theorem Interruption.kept_during (activity : Activity) (e : Interruption)
    (found : List Diagnostic) : (e.during activity).kept found = e.kept found := by
  cases e <;> rfl

theorem Interruption.mem_of_mem_kept {e : Interruption} {found : List Diagnostic} {w : Diagnostic}
    (h : w ∈ e.kept found) : w ∈ found := by
  cases e with
  | fault f => exact h
  | panic message => cases h

theorem Interruption.kept_eq_self_iff {e : Interruption} {found : List Diagnostic} :
    e.kept found = found ↔ (∃ f, e = .fault f) ∨ found = [] := by
  cases e with
  | fault f => exact ⟨fun _ => Or.inl ⟨f, rfl⟩, fun _ => rfl⟩
  | panic message => simp [kept, eq_comm]

namespace Validator

def blocked (v : Validator) (c : ValidationContext) : Bool :=
  v.requiresCatalog && c.catalog.isNone

def accepts (v : Validator) (s : Subject) : Bool :=
  !v.blocked s.context && !(v.check s).findings.rejects

def owners (v : Validator) (s : Subject) : List Owner :=
  if v.blocked s.context then [] else (v.check s).findings.owners

def refusal (d : Declaration) : Diagnostic :=
  (Diagnostic.error validationPhase
    s!"cannot validate {d.marker}: resource catalog unavailable").about d

def ignoredWarning (count : Nat) (kind : Marker) : Diagnostic :=
  .warning validationPhase
    s!"{count} declaration(s) marked {kind} ignored: no validator is registered for this kind"

/-- What a run does at one place. -/
inductive Step where
  | ignore (kind : Marker)
  | refuse (d : Declaration)
  | check (v : Validator) (d : Declaration)

namespace Step

def report (c : ValidationContext) : Step → List Diagnostic
  | .ignore kind => [ignoredWarning (c.extracted.declarations kind).length kind]
  | .refuse d => [refusal d]
  | .check v d => (v.check ⟨c, d⟩).findings.diagnostics d

def interruption? (c : ValidationContext) : Step → Option Interruption
  | .check v d => (v.check ⟨c, d⟩).interruption.map (Interruption.during (.validating d))
  | .ignore _ | .refuse _ => none

def run (c : ValidationContext) (step : Step) : Reported Unit :=
  match step.interruption? c with
  | none => ⟨step.report c, .ok ()⟩
  | some e => ⟨e.kept (step.report c), .error e⟩

theorem mem_report_of_mem_run {c : ValidationContext} {step : Step} {w : Diagnostic}
    (h : w ∈ (step.run c).diagnostics) : w ∈ step.report c := by
  unfold run at h
  split at h
  · exact h
  · exact Interruption.mem_of_mem_kept h

end Step

/-- Take the steps in turn, up to the first that is interrupted. -/
def walk (c : ValidationContext) : List Step → Reported Unit
  | [] => pure ()
  | step :: steps => do
    step.run c
    walk c steps

section Walk

variable {c : ValidationContext} {steps : List Step}

theorem walk_append (c : ValidationContext) (before after : List Step) :
    walk c (before ++ after) = walk c before >>= fun _ => walk c after := by
  induction before with
  | nil =>
    show walk c after = (pure () : Reported Unit) >>= fun _ => walk c after
    rw [pure_bind]
  | cons step before ih => simp only [List.cons_append, walk, ih, bind_assoc]

theorem walk_of_completes (h : ∀ step ∈ steps, step.interruption? c = none) :
    walk c steps = ⟨steps.flatMap (Step.report c), .ok ()⟩ := by
  induction steps with
  | nil => rfl
  | cons step steps ih =>
    have hstep : step.run c = ⟨step.report c, .ok ()⟩ := by
      rw [Step.run, h step List.mem_cons_self]
    rw [walk, hstep, Reported.ok_bind, ih fun s hs => h s (List.mem_cons_of_mem step hs)]
    rfl

theorem walk_of_interrupted {before after : List Step} {step : Step} {e : Interruption}
    (hbefore : ∀ s ∈ before, s.interruption? c = none) (hstep : step.interruption? c = some e) :
    walk c (before ++ step :: after) =
      ⟨before.flatMap (Step.report c) ++ e.kept (step.report c), .error e⟩ := by
  have hrun : step.run c = ⟨e.kept (step.report c), .error e⟩ := by rw [Step.run, hstep]
  rw [walk_append, walk_of_completes hbefore, Reported.ok_bind, walk, hrun, Reported.error_bind]

theorem exists_mem_report_of_mem_walk {w : Diagnostic} (h : w ∈ (walk c steps).diagnostics) :
    ∃ step ∈ steps, w ∈ step.report c := by
  induction steps with
  | nil => cases h
  | cons step steps ih =>
    rcases Reported.mem_diagnostics_bind h with h | ⟨-, h⟩
    · exact ⟨step, List.mem_cons_self, Step.mem_report_of_mem_run h⟩
    · obtain ⟨s, hs, hw⟩ := ih h
      exact ⟨s, List.mem_cons_of_mem step hs, hw⟩

theorem exists_first_interrupted {s : Step} {e : Interruption} (hs : s ∈ steps)
    (h : s.interruption? c = some e) :
    ∃ before step after e, steps = before ++ step :: after ∧
      (∀ s ∈ before, s.interruption? c = none) ∧ step.interruption? c = some e := by
  have hfind : (steps.find? fun s => (s.interruption? c).isSome).isSome = true :=
    List.find?_isSome.2 ⟨s, hs, by simp [h]⟩
  obtain ⟨step, hstep⟩ := Option.isSome_iff_exists.1 hfind
  obtain ⟨hsome, before, after, heq, hbefore⟩ := List.find?_eq_some_iff_append.1 hstep
  obtain ⟨e', he'⟩ := Option.isSome_iff_exists.1 hsome
  exact ⟨before, step, after, e', heq, fun s hs => by simpa using hbefore s hs, he'⟩

end Walk

def bound (vs : List Validator) (kind : Marker) : List Validator := vs.filter fun v => v.kind = kind

def turn (c : ValidationContext) (d : Declaration) (v : Validator) : Step :=
  if v.blocked c then .refuse d else .check v d

def stepsAt (c : ValidationContext) (vs : List Validator) (d : Declaration) : List Step :=
  vs.map (turn c d)

def allAccept (vs : List Validator) (s : Subject) : Bool := vs.all fun v => v.accepts s

def allOwners (vs : List Validator) (s : Subject) : List Owner := vs.flatMap fun v => v.owners s

def candidate (c : ValidationContext) (vs : List Validator) (d : Declaration) : Candidate :=
  ⟨d, allOwners vs ⟨c, d⟩⟩

def stepsOfKind (vs : List Validator) (c : ValidationContext) (kind : Marker) : List Step :=
  if handles vs kind then (c.extracted.declarations kind).flatMap (stepsAt c (bound vs kind))
  else [.ignore kind]

def passing (vs : List Validator) (c : ValidationContext) (kind : Marker) : List Declaration :=
  if handles vs kind then
    (c.extracted.declarations kind).filter fun d => allAccept (bound vs kind) ⟨c, d⟩
  else []

def steps (vs : List Validator) (c : ValidationContext) : List Step :=
  c.extracted.kinds.flatMap (stepsOfKind vs c)

/-- What passes the checks, before owners are looked at. -/
def passed (vs : List Validator) (c : ValidationContext) : List Candidate :=
  c.extracted.kinds.flatMap fun kind =>
    (passing vs c kind).map (candidate c (bound vs kind))

def pruned (vs : List Validator) (c : ValidationContext) : List Candidate × List Diagnostic :=
  Candidate.prune (handles vs) (passed vs c)

theorem mem_bound_iff {vs : List Validator} {kind : Marker} {v : Validator} :
    v ∈ bound vs kind ↔ v ∈ vs ∧ v.kind = kind := by
  simp [bound]

theorem handles_of_mem {vs : List Validator} {v : Validator} (h : v ∈ vs) :
    handles vs v.kind = true :=
  List.any_eq_true.2 ⟨v, h, decide_eq_true rfl⟩

/-- A run passes over the kinds without validators, and takes each other validator to each
declaration of its kind. -/
theorem mem_steps_iff {vs : List Validator} {c : ValidationContext} {step : Step} :
    step ∈ steps vs c ↔
      (∃ kind ∈ c.extracted.kinds, handles vs kind = false ∧ step = .ignore kind) ∨
      ∃ v ∈ vs, ∃ d ∈ c.extracted.declarations v.kind, step = turn c d v := by
  simp only [steps, List.mem_flatMap, stepsOfKind]
  constructor
  · rintro ⟨kind, hkind, hstep⟩
    split at hstep
    · obtain ⟨d, hd, hstep⟩ := List.mem_flatMap.1 hstep
      obtain ⟨v, hv, rfl⟩ := List.mem_map.1 hstep
      obtain ⟨hmem, rfl⟩ := mem_bound_iff.1 hv
      exact Or.inr ⟨v, hmem, d, hd, rfl⟩
    · next h => exact Or.inl ⟨kind, hkind, by simpa using h, List.mem_singleton.1 hstep⟩
  · rintro (⟨kind, hkind, h, rfl⟩ | ⟨v, hv, d, hd, rfl⟩)
    · exact ⟨kind, hkind, by simp [h]⟩
    · refine ⟨v.kind, DeclarationModel.mem_kinds_of_mem hd, ?_⟩
      rw [if_pos (handles_of_mem hv)]
      exact List.mem_flatMap.2 ⟨d, hd, List.mem_map_of_mem (mem_bound_iff.2 ⟨hv, rfl⟩)⟩

theorem interruption?_turn (c : ValidationContext) (d : Declaration) (v : Validator) :
    (turn c d v).interruption? c = if v.blocked c then none
      else (v.check ⟨c, d⟩).interruption.map (Interruption.during (.validating d)) := by
  unfold turn
  split <;> rfl

theorem judge_eq (v : Validator) (s : Subject) :
    v.judge s = do
      (turn s.context s.declaration v).run s.context
      return ⟨v.accepts s, v.owners s⟩ := by
  unfold judge accepts owners turn
  have hblocked : (v.requiresCatalog && s.context.catalog.isNone) = v.blocked s.context := rfl
  rw [hblocked]
  cases v.blocked s.context with
  | true => rfl
  | false =>
    -- The three ways a check can end are those of `Interruption.kept`.
    have hsubject : (⟨s.context, s.declaration⟩ : Subject) = s := rfl
    rcases hinterruption : (v.check s).interruption with - | (f | message) <;>
      simp [Step.run, Step.interruption?, Step.report, hsubject, hinterruption,
        Interruption.during, Interruption.kept]

theorem judgeAll_eq (c : ValidationContext) (d : Declaration) (vs : List Validator) :
    judgeAll ⟨c, d⟩ vs = do
      walk c (stepsAt c vs d)
      return ⟨allAccept vs ⟨c, d⟩, allOwners vs ⟨c, d⟩⟩ := by
  induction vs with
  | nil => rfl
  | cons v vs ih =>
    simp only [judgeAll, judge_eq, ih, stepsAt, List.map_cons, walk, bind_assoc, pure_bind,
      allAccept, allOwners, List.all_cons, List.flatMap_cons]

theorem candidates_eq (c : ValidationContext) (vs : List Validator) (ds : List Declaration) :
    candidates c vs ds = do
      walk c (ds.flatMap (stepsAt c vs))
      return (ds.filter fun d => allAccept vs ⟨c, d⟩).map (candidate c vs) := by
  induction ds with
  | nil => rfl
  | cons d ds ih =>
    simp only [candidates, judgeAll_eq, ih, List.flatMap_cons, walk_append, bind_assoc, pure_bind]
    by_cases h : allAccept vs ⟨c, d⟩ = true
    · simp only [h, if_true, List.filter_cons_of_pos, List.map_cons, candidate]
    · simp only [h, if_false, List.filter_cons_of_neg, Bool.false_eq_true, not_false_eq_true]

theorem candidatesOfKind_eq (vs : List Validator) (c : ValidationContext) (kind : Marker) :
    candidatesOfKind vs c kind = do
      walk c (stepsOfKind vs c kind)
      return (passing vs c kind).map (candidate c (bound vs kind)) := by
  unfold candidatesOfKind stepsOfKind passing
  by_cases h : handles vs kind = true
  · simp only [if_pos h]
    exact candidates_eq c (bound vs kind) _
  · simp only [if_neg h]
    rfl

theorem candidatesOfKinds_eq (vs : List Validator) (c : ValidationContext)
    (kinds : List Marker) :
    candidatesOfKinds vs c kinds = do
      walk c (kinds.flatMap (stepsOfKind vs c))
      return kinds.flatMap fun kind => (passing vs c kind).map (candidate c (bound vs kind)) := by
  induction kinds with
  | nil => rfl
  | cons kind kinds ih =>
    simp only [candidatesOfKinds, candidatesOfKind_eq, ih, List.flatMap_cons, walk_append,
      bind_assoc, pure_bind]

theorem validate_eq (vs : List Validator) (c : ValidationContext) :
    validate vs c = walk c (steps vs c) >>= fun _ =>
      ⟨(pruned vs c).2, .ok (.ofList ((pruned vs c).1.map Candidate.declaration))⟩ := by
  simp only [validate, candidatesOfKinds_eq, bind_assoc, pure_bind]
  rfl

theorem validate_of_completes {vs : List Validator} {c : ValidationContext}
    (h : ∀ step ∈ steps vs c, step.interruption? c = none) :
    validate vs c = ⟨(steps vs c).flatMap (Step.report c) ++ (pruned vs c).2,
      .ok (.ofList ((pruned vs c).1.map Candidate.declaration))⟩ := by
  rw [validate_eq, walk_of_completes h, Reported.ok_bind]

theorem validate_of_interrupted {vs : List Validator} {c : ValidationContext}
    {before after : List Step} {step : Step} {e : Interruption}
    (heq : steps vs c = before ++ step :: after)
    (hbefore : ∀ s ∈ before, s.interruption? c = none) (hstep : step.interruption? c = some e) :
    validate vs c =
      ⟨before.flatMap (Step.report c) ++ e.kept (step.report c), .error e⟩ := by
  rw [validate_eq, heq, walk_of_interrupted hbefore hstep, Reported.error_bind]

theorem exists_validate_iff {vs : List Validator} {c : ValidationContext} :
    (∃ m, (validate vs c).result = .ok m) ↔
      ∀ step ∈ steps vs c, step.interruption? c = none := by
  constructor
  · rintro ⟨m, hm⟩ s hs
    cases h : s.interruption? c with
    | none => rfl
    | some e =>
      obtain ⟨before, step, after, e', heq, hbefore, hstep⟩ := exists_first_interrupted hs h
      rw [validate_of_interrupted heq hbefore hstep] at hm
      cases hm
  · intro h
    exact ⟨_, congrArg Reported.result (validate_of_completes h)⟩

end Validator

end ComponentGlue
