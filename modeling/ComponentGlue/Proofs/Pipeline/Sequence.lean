import ComponentGlue.Proofs.Pipeline.Outcome

set_option autoImplicit false
set_option relaxedAutoImplicit false

namespace ComponentGlue

/-- A round with the surroundings in which it is offered. -/
structure Offer where
  State : Type
  env : Environment (StateM State)
  round : Round
  state : State

def Offer.IsFirstWork (before : List Offer) (o : Offer) : Prop :=
  (∀ b ∈ before, b.round.isIdle = true) ∧ o.round.isIdle = false

namespace Pipeline

def answer (pipeline : Pipeline) (o : Offer) : Observed := observe o.env o.round pipeline o.state

def afterAll (pipeline : Pipeline) (offers : List Offer) : Pipeline :=
  offers.foldl (fun p o => (p.answer o).pipeline) pipeline

/-- What happens in each round of a sequence. -/
def answers : Pipeline → List Offer → List Observed
  | _, [] => []
  | p, o :: offers => p.answer o :: answers (p.answer o).pipeline offers

/-- What an answer says about the round, the pipeline and the rounds before. -/
structure Answered (before : List Offer) (o : Offer) (p : Pipeline) (a : Observed) : Prop where
  works : a.outcome.status ≠ .skipped ↔ o.IsFirstWork before
  skipped : ¬ o.IsFirstWork before → a.outcome = .skipped ∧ a.visits = [] ∧ a.calls = [] ∧
    a.pipeline = { p with state := .done }
  state : a.pipeline.state = .done ∨ a.pipeline.state = .failed
  failed : a.pipeline.state = .failed ↔ o.IsFirstWork before ∧ a.outcome.status = .failed

variable {p : Pipeline} {o : Offer}

theorem answer_of_skipped (h : (o.round.isIdle || p.hasRun) = true) :
    p.answer o = ⟨.skipped, { p with state := .done }, [], []⟩ := by
  have hvisits : visited o.env o.round p o.state = [] := if_pos h
  rw [answer, observe, hvisits, run_of_skipped h, run_of_skipped h]
  rfl

theorem answer_of_working (h : (o.round.isIdle || p.hasRun) = false) :
    ((p.answer o).outcome.status = .completed ∧ (p.answer o).pipeline.state = .done) ∨
      ((p.answer o).outcome.status = .failed ∧ (p.answer o).pipeline.state = .failed) := by
  rcases ends_of_working h with hcompleted | ⟨last, e, hfailed⟩
  · exact Or.inl ⟨hcompleted.status, hcompleted.state⟩
  · exact Or.inr ⟨hfailed.status, hfailed.state⟩

theorem hasRun_answer (p : Pipeline) (o : Offer) :
    (p.answer o).pipeline.hasRun = (p.hasRun || !o.round.isIdle) := by
  cases h : o.round.isIdle || p.hasRun with
  | true =>
    rw [answer_of_skipped h]
    cases hrun : p.hasRun with
    | true => rfl
    | false =>
      rw [hrun, Bool.or_false] at h
      rw [h]
      rfl
  | false =>
    rcases hbegin : begin o.env o.round p Phase.all o.state with ⟨ended, t⟩
    have hafter : (p.answer o).pipeline.hasRun = true := congrArg (·.2.hasRun) (run_eq h hbegin)
    rw [hafter, (Bool.or_eq_false_iff.1 h).1, Bool.not_false, Bool.or_true]

theorem length_renderings_answer (p : Pipeline) (o : Offer) :
    (p.answer o).renderings.length ≤ if o.round.isIdle || p.hasRun then 0 else 1 := by
  cases h : o.round.isIdle || p.hasRun with
  | true =>
    rw [answer_of_skipped h]
    exact Nat.le_refl 0
  | false =>
    rcases ends_of_working h with hcompleted | ⟨last, e, hfailed⟩
    · obtain ⟨v, -, model, -, -, hrenderings⟩ := hcompleted.rendered
      rw [answer, hrenderings]
      exact Nat.le_refl 1
    · exact hfailed.rendered.1

theorem hasRun_afterAll (offers : List Offer) (p : Pipeline) :
    (p.afterAll offers).hasRun = (p.hasRun || offers.any fun o => !o.round.isIdle) := by
  induction offers generalizing p with
  | nil => exact (Bool.or_false _).symm
  | cons o offers ih =>
    have hstep : p.afterAll (o :: offers) = (p.answer o).pipeline.afterAll offers := rfl
    rw [hstep, ih, hasRun_answer, List.any_cons, Bool.or_assoc]

theorem length_renderings_answers (offers : List Offer) (p : Pipeline) :
    ((p.answers offers).flatMap Observed.renderings).length ≤ if p.hasRun then 0 else 1 := by
  induction offers generalizing p with
  | nil => exact Nat.zero_le _
  | cons o offers ih =>
    -- A first round with work in it may call the renderer, but then the pipeline has run for the rest.
    have hfirst := length_renderings_answer p o
    have hrest := ih (p.answer o).pipeline
    rw [hasRun_answer] at hrest
    rw [answers, List.flatMap_cons, List.length_append]
    cases hidle : o.round.isIdle <;> cases hrun : p.hasRun <;>
      simp only [hidle, hrun, Bool.or_true, Bool.or_false, Bool.not_true, Bool.not_false,
        Bool.false_eq_true, if_true, if_false] at hfirst hrest ⊢ <;>
      omega

theorem isFirstWork_iff (registry : Registry) (project : Project) (before : List Offer)
    (o : Offer) : o.IsFirstWork before ↔
      (o.round.isIdle || ((new registry project).afterAll before).hasRun) = false := by
  have hnew : (new registry project).hasRun = false := rfl
  rw [hasRun_afterAll, hnew, Bool.false_or, Bool.or_eq_false_iff, List.any_eq_false,
    Offer.IsFirstWork, and_comm]
  simp only [Bool.not_eq_true', Bool.not_eq_false]

theorem answered_answer (registry : Registry) (project : Project) (before : List Offer)
    (o : Offer) : Answered before o ((new registry project).afterAll before)
      (((new registry project).afterAll before).answer o) := by
  have hfirst := isFirstWork_iff registry project before o
  cases h : o.round.isIdle || ((new registry project).afterAll before).hasRun with
  | true =>
    have hnot : ¬ o.IsFirstWork before := by simp [hfirst, h]
    rw [answer_of_skipped h]
    refine ⟨⟨fun hstatus => absurd rfl hstatus, fun hworks => absurd hworks hnot⟩,
      fun _ => ⟨rfl, rfl, rfl, rfl⟩, Or.inl rfl, ⟨fun hstate => ?_, fun hworks => ?_⟩⟩
    · cases hstate
    · exact absurd hworks.1 hnot
  | false =>
    have hworks : o.IsFirstWork before := hfirst.2 h
    rcases answer_of_working h with ⟨hstatus, hstate⟩ | ⟨hstatus, hstate⟩
    · refine ⟨⟨fun _ => hworks, fun _ => ?_⟩, fun hnot => absurd hworks hnot, Or.inl hstate, ?_⟩
      · simp [hstatus]
      · simp [hstatus, hstate]
    · refine ⟨⟨fun _ => hworks, fun _ => ?_⟩, fun hnot => absurd hworks hnot, Or.inr hstate, ?_⟩
      · simp [hstatus]
      · simp [hstatus, hstate, hworks]

theorem state_afterAll (registry : Registry) (project : Project) (offers : List Offer) :
    ((new registry project).afterAll offers).state = .idle ∨
    ((new registry project).afterAll offers).state = .done ∨
    ((new registry project).afterAll offers).state = .failed := by
  rcases List.eq_nil_or_concat' offers with rfl | ⟨before, o, rfl⟩
  · exact Or.inl rfl
  · have hstep : (new registry project).afterAll (before ++ [o]) =
        (((new registry project).afterAll before).answer o).pipeline :=
      List.foldl_append
    rw [hstep]
    exact Or.inr (answered_answer registry project before o).state

/-- In every sequence of rounds the first one with work in it is the only one that is not skipped, and
the renderers are called once at most. -/
theorem works_at_most_once (registry : Registry) (project : Project) (before : List Offer)
    (o : Offer) :
    Answered before o ((new registry project).afterAll before)
      (((new registry project).afterAll before).answer o) ∧
    (((new registry project).answers (before ++ [o])).flatMap Observed.renderings).length ≤ 1 ∧
    (((new registry project).afterAll before).state = .idle ∨
      ((new registry project).afterAll before).state = .done ∨
      ((new registry project).afterAll before).state = .failed) :=
  ⟨answered_answer registry project before o,
    length_renderings_answers (before ++ [o]) (new registry project),
    state_afterAll registry project before⟩

end Pipeline

end ComponentGlue
