import Mathlib.Data.List.Induction
import Mathlib.Order.Nat
import ComponentGlue.Generation
import ComponentGlue.Proofs.Rule.Kind

/-!
Processing as a sequence of steps. Each step takes one declaration to the processor of its kind; a run
reaches an assembly after each step and ends at the first step that is cut short.
-/

set_option autoImplicit false
set_option relaxedAutoImplicit false

namespace ComponentGlue

/-- The stages of processing, in their order. Every type is put before anything is contributed to it, and
extras are read after methods have been put on threads. -/
inductive Stage where
  | components
  | types
  | views
  | menus
  | items
  | threads
  | extras
  | others
  deriving DecidableEq

theorem Stage.ctorIdx_injective : Function.Injective Stage.ctorIdx := by
  intro s t h
  cases s <;> cases t <;> first | rfl | cases h

instance : LinearOrder Stage := LinearOrder.lift' Stage.ctorIdx Stage.ctorIdx_injective

-- The comparisons are found at once, and not on some way through the order.
instance : LE Stage := ⟨fun s t => s.ctorIdx ≤ t.ctorIdx⟩

instance : LT Stage := ⟨fun s t => s.ctorIdx < t.ctorIdx⟩

namespace Assemble

variable {σ α β : Type}

theorem bind_apply (x : Assemble α) (f : α → Assemble β) (a : Assembly) :
    (x >>= f) a = match x a with
      | (.error e, b) => (.error e, b)
      | (.ok v, b) => f v b := rfl

theorem bind_eq_of_ok {x : Assemble α} {f : α → Assemble β} {a b : Assembly} {v : α}
    (h : x a = (.ok v, b)) : (x >>= f) a = f v b := by
  rw [bind_apply, h]

theorem bind_eq_of_error {x : Assemble α} {f : α → Assemble β} {a b : Assembly} {e : Interruption}
    (h : x a = (.error e, b)) : (x >>= f) a = (.error e, b) := by
  rw [bind_apply, h]

/-- Take the steps in turn. -/
def runEach (step : σ → Assemble Unit) : List σ → Assemble Unit
  | [] => pure ()
  | x :: xs => do
    step x
    runEach step xs

def Reaches (step : σ → Assemble Unit) (xs : List σ) (a : Assembly) : Prop :=
  runEach step xs .empty = (.ok (), a)

variable {step : σ → Assemble Unit}

theorem runEach_append (xs ys : List σ) (a : Assembly) :
    runEach step (xs ++ ys) a = (do runEach step xs; runEach step ys : Assemble Unit) a := by
  induction xs generalizing a with
  | nil => rfl
  | cons x xs ih =>
    rw [List.cons_append, runEach, runEach]
    rcases hx : step x a with ⟨e | v, b⟩
    · rw [bind_eq_of_error hx]
      rw [bind_eq_of_error (bind_eq_of_error hx)]
    · rw [bind_eq_of_ok hx, ih, bind_apply, bind_apply, bind_eq_of_ok hx]

theorem reaches_nil {a : Assembly} : Reaches step [] a ↔ a = .empty := by
  constructor
  · intro h
    exact (congrArg Prod.snd h).symm
  · rintro rfl
    rfl

theorem runEach_snoc_of_reaches {xs : List σ} {a : Assembly} (h : Reaches step xs a) (x : σ) :
    runEach step (xs ++ [x]) .empty = step x a := by
  rw [runEach_append, bind_eq_of_ok h, runEach, bind_apply]
  rcases step x a with ⟨e | v, b⟩
  · rfl
  · rfl

theorem reaches_snoc {xs : List σ} {x : σ} {b : Assembly} :
    Reaches step (xs ++ [x]) b ↔ ∃ a, Reaches step xs a ∧ step x a = (.ok (), b) := by
  constructor
  · intro h
    rcases hxs : runEach step xs .empty with ⟨e | v, a⟩
    · unfold Reaches at h
      rw [runEach_append, bind_eq_of_error hxs] at h
      cases h
    · exact ⟨a, hxs, (runEach_snoc_of_reaches hxs x).symm.trans h⟩
  · rintro ⟨a, ha, hstep⟩
    exact (runEach_snoc_of_reaches ha x).trans hstep

theorem Reaches.induct {P : List σ → Assembly → Prop} {xs : List σ} {a : Assembly}
    (h : Reaches step xs a) (hstart : P [] .empty)
    (hstep : ∀ done x rest b b', xs = done ++ x :: rest → P done b → step x b = (.ok (), b') →
      P (done ++ [x]) b') : P xs a := by
  -- The last step is taken off, since it is the one that comes after a run of the others.
  have hparts : ∀ done rest b, xs = done ++ rest → Reaches step done b → P done b := by
    intro done
    induction done using List.reverseRecOn with
    | nil =>
      intro rest b _ hb
      rw [reaches_nil.1 hb]
      exact hstart
    | append_singleton done x ih =>
      intro rest b hxs hb
      obtain ⟨b', hb', hx⟩ := reaches_snoc.1 hb
      rw [List.append_assoc] at hxs
      exact hstep done x rest b' b hxs (ih _ b' hxs hb') hx
  exact hparts xs [] a (List.append_nil xs).symm h

theorem reaches_or_error (xs : List σ) : (∃ a, Reaches step xs a) ∨
    ∃ done x rest a e, xs = done ++ x :: rest ∧ Reaches step done a ∧ (step x a).1 = .error e ∧
      (runEach step xs .empty).1 = .error e := by
  induction xs using List.reverseRecOn with
  | nil => exact Or.inl ⟨.empty, rfl⟩
  | append_singleton xs y ih =>
    rcases ih with ⟨a, ha⟩ | ⟨done, x, rest, a, e, rfl, ha, hx, hrun⟩
    · rcases hy : step y a with ⟨e | v, b⟩
      · refine Or.inr ⟨xs, y, [], a, e, rfl, ha, by rw [hy], ?_⟩
        rw [runEach_snoc_of_reaches ha, hy]
      · exact Or.inl ⟨b, reaches_snoc.2 ⟨a, ha, hy⟩⟩
    · refine Or.inr ⟨done, x, rest ++ [y], a, e, by simp, ha, hx, ?_⟩
      rcases hxs : runEach step (done ++ x :: rest) .empty with ⟨e' | v, b⟩
      · rw [runEach_append, bind_eq_of_error hxs]
        rw [hxs] at hrun
        exact hrun
      · rw [hxs] at hrun
        cases hrun

theorem Reaches.step_ok {done rest : List σ} {x : σ} {b : Assembly}
    (h : Reaches step (done ++ x :: rest) b) :
    ∃ a, Reaches step done a ∧ (step x a).1 = .ok () := by
  rcases hdone : runEach step done .empty with ⟨e | v, a⟩
  · unfold Reaches at h
    rw [runEach_append, bind_eq_of_error hdone] at h
    cases h
  · refine ⟨a, hdone, ?_⟩
    unfold Reaches at h
    rw [runEach_append, bind_eq_of_ok hdone, runEach] at h
    rcases hx : step x a with ⟨e | v, b'⟩
    · rw [bind_eq_of_error hx] at h
      cases h
    · rfl

end Assemble

namespace StandardKind

def step (setting : Setting) (x : StandardKind × Declaration) : Assemble Unit :=
  Assemble.during (.processing x.2) (x.1.rule.processor.process setting x.2)

def stepsOf (m : DeclarationModel) (order : List StandardKind) : List (StandardKind × Declaration) :=
  order.flatMap fun k => (m.declarations k.marker).map fun d => (k, d)

theorem stepsOf_cons (m : DeclarationModel) (k : StandardKind) (order : List StandardKind) :
    stepsOf m (k :: order) = ((m.declarations k.marker).map fun d => (k, d)) ++ stepsOf m order :=
  rfl

theorem stepsOf_append (m : DeclarationModel) (before after : List StandardKind) :
    stepsOf m (before ++ after) = stepsOf m before ++ stepsOf m after :=
  List.flatMap_append

def schedule (m : DeclarationModel) : List (StandardKind × Declaration) :=
  all.flatMap fun k => (m.declarations k.marker).map fun d => (k, d)

theorem mem_stepsOf_iff {m : DeclarationModel} {order : List StandardKind}
    {x : StandardKind × Declaration} :
    x ∈ stepsOf m order ↔ x.1 ∈ order ∧ x.2 ∈ m.declarations x.1.marker := by
  unfold stepsOf
  rw [List.mem_flatMap]
  constructor
  · rintro ⟨k, hk, hx⟩
    obtain ⟨d, hd, rfl⟩ := List.mem_map.1 hx
    exact ⟨hk, hd⟩
  · rintro ⟨hk, hd⟩
    exact ⟨x.1, hk, List.mem_map.2 ⟨x.2, hd, rfl⟩⟩

theorem mem_schedule_iff {m : DeclarationModel} {x : StandardKind × Declaration} :
    x ∈ schedule m ↔ x.2 ∈ m.declarations x.1.marker := by
  show x ∈ stepsOf m all ↔ _
  rw [mem_stepsOf_iff]
  exact and_iff_right (mem_all x.1)

theorem processAll_eq (setting : Setting) (k : StandardKind) (ds : List Declaration) :
    k.rule.processor.processAll setting ds =
      Assemble.runEach (step setting) (ds.map fun d => (k, d)) := by
  induction ds with
  | nil => rfl
  | cons d ds ih =>
    rw [Processor.processAll, List.map_cons, Assemble.runEach, ih]
    rfl

def processors (order : List StandardKind) : List Processor := order.map fun k => k.rule.processor

theorem processors_all : processors all = Registry.standard.processors := by
  show _ = standardRules.map Rule.processor
  rw [standardRules_eq, List.map_map]
  rfl

theorem runAll_processors_eq (m : DeclarationModel) (setting : Setting)
    (order : List StandardKind) (a : Assembly) :
    Processor.runAll m setting (processors order) a =
      Assemble.runEach (step setting) (stepsOf m order) a := by
  induction order generalizing a with
  | nil => rfl
  | cons k order ih =>
    show Processor.runAll m setting (k.rule.processor :: processors order) a = _
    rw [Processor.runAll, stepsOf_cons, Assemble.runEach_append, processAll_eq]
    rcases hk : Assemble.runEach (step setting)
      ((m.declarations k.marker).map fun d => (k, d)) a with ⟨e | v, b⟩
    · exact (Assemble.bind_eq_of_error hk).trans (Assemble.bind_eq_of_error hk).symm
    · refine (Assemble.bind_eq_of_ok hk).trans ?_
      rw [Assemble.bind_eq_of_ok hk]
      exact ih b

theorem runAll_eq (m : DeclarationModel) (setting : Setting) (a : Assembly) :
    Processor.runAll m setting Registry.standard.processors a =
      Assemble.runEach (step setting) (schedule m) a := by
  rw [← processors_all]
  exact runAll_processors_eq m setting all a

def stage : StandardKind → Stage
  | .component => .components
  | .preferenceHelper | .restClient => .types
  | .boundView | .htmlText | .preferenceField => .views
  | .optionsMenu => .menus
  | .optionsItem => .items
  | .resourceField _ | .listener _ | .thread _ => .threads
  | .extra => .extras
  | .systemService | .lifecycle _ | .transaction | .applicationField | .request _ => .others

theorem pairwise_stage : all.Pairwise fun k l => k.stage ≤ l.stage := by decide

theorem pairwise_schedule_of {R : StandardKind → StandardKind → Prop} (hall : all.Pairwise R)
    (hself : ∀ k, R k k) (m : DeclarationModel) :
    (schedule m).Pairwise fun x y => R x.1 y.1 := by
  unfold schedule
  rw [List.pairwise_flatMap]
  constructor
  · intro k _
    rw [List.pairwise_map]
    exact List.pairwise_of_forall fun _ _ => hself k
  · refine hall.imp ?_
    intro k l hkl x hx y hy
    obtain ⟨d, -, rfl⟩ := List.mem_map.1 hx
    obtain ⟨e, -, rfl⟩ := List.mem_map.1 hy
    exact hkl

theorem pairwise_schedule (m : DeclarationModel) :
    (schedule m).Pairwise fun x y => x.1.stage ≤ y.1.stage :=
  pairwise_schedule_of pairwise_stage (fun k => le_refl k.stage) m

section

variable {m : DeclarationModel} {done rest : List (StandardKind × Declaration)}
  {x y : StandardKind × Declaration}

theorem mem_done (h : schedule m = done ++ x :: rest) (hy : y ∈ schedule m)
    (hstage : y.1.stage < x.1.stage) : y ∈ done := by
  have hpairs := pairwise_schedule m
  rw [h] at hy hpairs
  rcases List.mem_append.1 hy with hy | hy
  · exact hy
  · have hlater := (List.pairwise_append.1 hpairs).2.1
    rcases List.mem_cons.1 hy with rfl | hy
    · exact absurd hstage (lt_irrefl _)
    · exact absurd ((List.pairwise_cons.1 hlater).1 y hy) (not_le_of_gt hstage)

theorem stage_le_of_mem_done (h : schedule m = done ++ x :: rest) (hy : y ∈ done) :
    y.1.stage ≤ x.1.stage := by
  have hpairs := pairwise_schedule m
  rw [h] at hpairs
  exact (List.pairwise_append.1 hpairs).2.2 y hy x List.mem_cons_self

theorem mem_schedule_of_mem_done (h : schedule m = done ++ x :: rest) (hy : y ∈ done) :
    y ∈ schedule m := by
  rw [h]
  exact List.mem_append_left _ hy

end

end StandardKind

end ComponentGlue
