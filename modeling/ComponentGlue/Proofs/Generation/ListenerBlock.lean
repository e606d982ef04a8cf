import Mathlib.Data.List.Forall2
import Mathlib.Data.List.Nodup
import ComponentGlue.Proofs.Code.Scope
import ComponentGlue.Proofs.Generation.Creation

set_option autoImplicit false
set_option relaxedAutoImplicit false

namespace ComponentGlue

open Creation (content listeners registration)

namespace StandardKind

def listener? : StandardKind → Option ListenerKind
  | .listener k => some k
  | _ => none

theorem filterMap_listener? : all.filterMap listener? = ListenerKind.all := rfl

end StandardKind

namespace DeclarationModel

variable (m : DeclarationModel) (origin : String)

/-- The listener methods of an element, by the order of their kinds and then of extraction. -/
def listening : List (ListenerKind × Declaration) :=
  ListenerKind.all.flatMap fun k =>
    ((m.declarations k.marker).filter fun d => d.element.owner == origin).map fun d => (k, d)

def views : List ((ListenerKind × Declaration) × ResourceKey) :=
  (m.listening origin).flatMap fun x => (x.1.resources x.2).map fun key => (x, key)

theorem map_snd_views : (m.views origin).map Prod.snd =
    (m.listening origin).flatMap fun x => x.1.resources x.2 := by
  rw [views, List.map_flatMap]
  refine List.flatMap_congr fun x _ => ?_
  rw [List.map_map]
  exact List.map_id _

variable {m origin}

theorem mem_listening_iff {x : ListenerKind × Declaration} : x ∈ m.listening origin ↔
    x.2 ∈ m.declarations x.1.marker ∧ x.2.element.owner = origin := by
  obtain ⟨k, d⟩ := x
  have hk : k ∈ ListenerKind.all := by cases k <;> decide
  simp [listening, hk]

theorem flatMap_listeners_owned (s : Setting) (generated : String) :
    (m.owned origin).flatMap (listeners s generated) =
      (m.listening origin).flatMap fun x => listeners s generated (.listener x.1, x.2) := by
  -- A kind that is no listener gives nothing, and the others come in the order of all listeners.
  have hkinds : ∀ k : StandardKind,
      (((m.declarations k.marker).filter fun d => d.element.owner == origin).flatMap fun d =>
        listeners s generated (k, d)) =
      k.listener?.toList.flatMap fun l => ((m.declarations l.marker).filter fun d =>
        d.element.owner == origin).flatMap fun d => listeners s generated (.listener l, d) := by
    intro k
    cases k with
    | listener l => exact (List.flatMap_singleton _ _).symm
    | _ => exact List.flatMap_eq_nil_iff.2 fun _ _ => rfl
  rw [flatMap_owned, List.flatMap_congr fun k _ => hkinds k, ← List.flatMap_assoc,
    ← List.filterMap_eq_flatMap_toList, StandardKind.filterMap_listener?, listening,
    List.flatMap_assoc]
  simp only [List.flatMap_map]

theorem content_bindListeners (s : Setting) (generated : String) :
    content s generated (m.members origin) .bindListeners =
      ((m.listening origin).flatMap fun x =>
        listeners s generated (.listener x.1, x.2)).zipIdx.flatMap registration := by
  rw [content_members, ← flatMap_listeners_owned]
  rfl

end DeclarationModel

theorem Creation.forall₂_listeners {s : Setting} (generated : String)
    {xs : List (ListenerKind × Declaration)}
    (h : ∀ x ∈ xs, ∃ refs, s.resources (x.1.resources x.2) = .ok refs) :
    List.Forall₂ (fun v l => s.resource v.2 = .ok l.2.2 ∧ l.1 = v.1.1 ∧
        l.2.1 = v.1.1.callbacks v.1.2.element generated)
      (xs.flatMap fun x => (x.1.resources x.2).map fun key => (x, key))
      (xs.flatMap fun x => listeners s generated (.listener x.1, x.2)) := by
  induction xs with
  | nil => exact .nil
  | cons x xs ih =>
    obtain ⟨refs, hrefs⟩ := h x List.mem_cons_self
    have hlisteners : listeners s generated (.listener x.1, x.2) =
        refs.map fun ref => (x.1, x.1.callbacks x.2.element generated, ref) := by
      have hfound : s.refs (.listener x.1, x.2) = refs := by
        show (s.resources (x.1.resources x.2)).toOption.getD [] = refs
        rw [hrefs]
        rfl
      rw [← hfound]
      rfl
    rw [List.flatMap_cons, List.flatMap_cons, hlisteners]
    refine List.rel_append ?_ (ih fun y hy => h y (List.mem_cons_of_mem _ hy))
    rw [List.forall₂_map_left_iff, List.forall₂_map_right_iff]
    exact (Setting.forall₂_of_resources hrefs).imp fun key ref hkey => ⟨hkey, rfl, rfl⟩

theorem DeclarationModel.exists_listener_of_view {m : DeclarationModel} {origin : String}
    {s : Setting} (generated : String)
    (h : ∀ x ∈ m.listening origin, ∃ refs, s.resources (x.1.resources x.2) = .ok refs) {i : Nat}
    {v : (ListenerKind × Declaration) × ResourceKey} (hv : (m.views origin)[i]? = some v) :
    ∃ ref, s.resource v.2 = .ok ref ∧
      ((m.listening origin).flatMap fun x => listeners s generated (.listener x.1, x.2))[i]? =
        some (v.1.1, v.1.1.callbacks v.1.2.element generated, ref) := by
  have hpairs := Creation.forall₂_listeners generated h
  obtain ⟨hi, rfl⟩ := List.getElem?_eq_some_iff.1 hv
  have hi' := hpairs.length_eq ▸ hi
  obtain ⟨hkey, hkind, hcallbacks⟩ := hpairs.get hi hi'
  exact ⟨_, hkey, List.getElem?_eq_some_iff.2 ⟨hi', Prod.ext hkind (Prod.ext hcallbacks rfl)⟩⟩

namespace Creation

theorem getElem?_registrations {ls : List (ListenerKind × List Method × ResourceRef)} {i : Nat}
    {l : ListenerKind × List Method × ResourceRef} (h : ls[i]? = some l) (n j : Nat) (hj : j < 2) :
    ((ls.zipIdx n).flatMap registration)[2 * i + j]? = (registration (l, n + i))[j]? := by
  -- The rest of the listeners is numbered from the next place on.
  induction ls generalizing i n with
  | nil => cases h
  | cons first ls ih =>
    rw [List.zipIdx_cons, List.flatMap_cons]
    have hlength : (registration (first, n)).length = 2 := rfl
    cases i with
    | zero =>
      obtain rfl := Option.some.inj h
      rw [List.getElem?_append_left (by omega), Nat.mul_zero, Nat.zero_add, Nat.add_zero]
    | succ i =>
      rw [List.getElem?_append_right (by omega), hlength,
        show 2 * (i + 1) + j - 2 = 2 * i + j by omega, ih h,
        show n + 1 + i = n + (i + 1) by omega]

def localName (i : Nat) : String := s!"view{2 * i}"

theorem localName_injective : Function.Injective localName := by
  intro i j h
  have hdigits : Nat.toDigits 10 (2 * i) = Nat.toDigits 10 (2 * j) := by
    simpa [localName, Nat.toList_repr] using congrArg String.toList h
  have hread : Nat.ofDigitChars 10 (Nat.toDigits 10 (2 * i)) 0 =
      Nat.ofDigitChars 10 (Nat.toDigits 10 (2 * j)) 0 := by rw [hdigits]
  rw [Nat.ofDigitChars_ten_toDigits, Nat.ofDigitChars_ten_toDigits] at hread
  omega

theorem filterMap_local?_registrations (ls : List (ListenerKind × List Method × ResourceRef)) (n : Nat) :
    (Statement.nestedAll ((ls.zipIdx n).flatMap registration)).filterMap Statement.local? =
      (List.range' n ls.length).map localName := by
  induction ls generalizing n with
  | nil => rfl
  | cons l ls ih =>
    rw [List.zipIdx_cons, List.flatMap_cons, Statement.nestedAll_append, List.filterMap_append, ih]
    rfl

end Creation

namespace StandardRun

variable (run : StandardRun)

/-- The block that registers the listeners of a component has two statements for each of its views, in
the order of the kinds, of extraction and of the ids: one declares a local for the view, the other sets
the listener on it if the view is there. No two locals have the same name. -/
theorem exists_registrations {d : Declaration}
    (hd : d ∈ run.accepted.declarations .enhancedComponent)
    (hkept : ¬ run.accepted.Replaces d.qualifiedName) : ∃ t block,
    run.model.get? (run.project.generatedName d.qualifiedName) = some t ∧
    t.block? onCreate CreationBlock.bindListeners.label = some block ∧
    block.length = 2 * (run.accepted.views d.qualifiedName).length ∧
    (run.accepted.views d.qualifiedName).map Prod.snd =
      ((run.accepted.listening d.qualifiedName).flatMap fun x => x.1.resources x.2) ∧
    (∀ i k e key, (run.accepted.views d.qualifiedName)[i]? = some ((k, e), key) → ∃ ref,
      run.context.setting.resource key = .ok ref ∧
      block[2 * i]? = some (.declare k.targetType s!"view{2 * i}"
        (if k.onAdapterView then .cast k.targetType (.callHere "findViewById" [.resource ref])
          else .callHere "findViewById" [.resource ref])) ∧
      block[2 * i + 1]? = some (.branch (.notNull (.ident s!"view{2 * i}"))
        [.run (.callOn (.ident s!"view{2 * i}") k.setter [.anonymous (.named k.interface)
          (k.callbacks e.element (run.project.generatedName d.qualifiedName))])])) ∧
    ((Statement.nestedAll block).filterMap Statement.local?).Nodup ∧
    ∀ marker, (run.accepted.declarations marker).Sublist
      (run.context.extracted.declarations marker) := by
  obtain ⟨t, layouts, hfound, -, -, hcreated⟩ := run.exists_created hd hkept
  generalize run.project.generatedName d.qualifiedName = generated at hfound hcreated ⊢
  have hrefs : ∀ x ∈ run.accepted.listening d.qualifiedName, ∃ refs,
      run.context.setting.resources (x.1.resources x.2) = .ok refs := by
    intro x hx
    have hmem := (DeclarationModel.mem_listening_iff.1 hx).1
    rw [run.accepted_eq] at hmem
    obtain ⟨refs, hrefs, -⟩ := StandardKind.exists_process_eq
      (ValidationContext.accepts_of_mem (k := .listener x.1) run.grouped hmem).fits
    exact ⟨refs, hrefs⟩
  have hblock := hcreated.block?_onCreate .bindListeners
  rw [DeclarationModel.content_bindListeners] at hblock
  refine ⟨t, _, hfound, hblock, ?_, DeclarationModel.map_snd_views _ _, ?_, ?_, ?_⟩
  · rw [Creation.length_flatMap_registration, ← (Creation.forall₂_listeners generated hrefs).length_eq]
    rfl
  · intro i k e key hi
    obtain ⟨ref, hkey, hl⟩ := DeclarationModel.exists_listener_of_view generated hrefs hi
    refine ⟨ref, hkey, ?_, ?_⟩
    · rw [← Nat.add_zero (2 * i), Creation.getElem?_registrations hl 0 0 (by decide), Nat.zero_add]
      rfl
    · rw [Creation.getElem?_registrations hl 0 1 (by decide), Nat.zero_add]
      rfl
  · rw [Creation.filterMap_local?_registrations]
    exact List.Nodup.map Creation.localName_injective (List.nodup_range' _)
  · intro marker
    rw [run.accepted_eq]
    exact ValidationContext.sublist_accepted run.grouped marker

private def padBatches : List (Marker × List RawDeclaration) :=
  let handler (name : String) (ids : List Argument) : RawDeclaration :=
    ⟨⟨.method, name, "a.Main", none, [], [], [], [], []⟩, .ofList [("ids", .list ids)]⟩
  [(ListenerKind.longClick.marker, [handler "hold" [.str "note"]]),
    (ListenerKind.click.marker, [handler "skip" [], handler "go" [.str "title", .str "note"]]),
    (.enhancedComponent, [⟨⟨.classType, "Main", "a", none, [], [], [], [], []⟩, .empty⟩])]

private def padRun : Except Interruption StandardRun :=
  ofHost padBatches (.ok [⟨"id", "title", 1⟩, ⟨"id", "note", 2⟩]) (.ok []) (.new "a")

private def padParts (run : StandardRun) :
    List String × Bool × Bool × List (String × String) :=
  ((run.accepted.declarations .enhancedComponent).map Declaration.qualifiedName,
    run.accepted.isAnnotated "a.Main" .sharedPref, run.accepted.isAnnotated "a.Main" .rest,
    (run.accepted.views "a.Main").map fun v => (v.1.1.setter, v.2.name))

theorem exists_registrations_pad : ∃ run t block, padRun = .ok run ∧
    (∃ d ∈ run.accepted.declarations .enhancedComponent, d.qualifiedName = "a.Main") ∧
    ¬ run.accepted.Replaces "a.Main" ∧
    (run.accepted.views "a.Main").map (fun v => (v.1.1.setter, v.2.name)) =
      [("setOnClickListener", "title"), ("setOnClickListener", "note"),
        ("setOnLongClickListener", "note")] ∧
    run.model.get? (run.project.generatedName "a.Main") = some t ∧
    t.block? onCreate CreationBlock.bindListeners.label = some block ∧ block.length = 6 ∧
    (∃ v value, (run.accepted.views "a.Main")[2]? = some v ∧
      block[4]? = some (.declare v.1.1.targetType "view4" value)) ∧
    ((Statement.nestedAll block).filterMap Statement.local?).Nodup := by
  have hparts : padRun.toOption.map padParts = some (["a.Main"], false, false,
      [("setOnClickListener", "title"), ("setOnClickListener", "note"),
        ("setOnLongClickListener", "note")]) := by
    decide +kernel
  obtain ⟨run, hrun, hparts⟩ := exists_ok_of_map_toOption hparts
  obtain ⟨hcomponents, hparts⟩ := Prod.mk.inj hparts
  obtain ⟨hpref, hparts⟩ := Prod.mk.inj hparts
  obtain ⟨hrest, hviews⟩ := Prod.mk.inj hparts
  obtain ⟨d, hd, hmain⟩ := List.map_eq_singleton_iff.1 hcomponents
  have hmem : d ∈ run.accepted.declarations .enhancedComponent := hd ▸ List.mem_singleton_self d
  have hkept : ¬ run.accepted.Replaces d.qualifiedName := by
    rw [hmain, DeclarationModel.Replaces, hpref, hrest]
    decide
  obtain ⟨t, block, hfound, hblock, hlength, -, hviewsAt, hnames, -⟩ :=
    run.exists_registrations hmem hkept
  rw [hmain] at hkept hfound hlength hviewsAt
  have hthree : (run.accepted.views "a.Main").length = 3 := by
    simpa using congrArg List.length hviews
  obtain ⟨v, hv⟩ : ∃ v, (run.accepted.views "a.Main")[2]? = some v :=
    ⟨_, List.getElem?_eq_getElem (by omega)⟩
  obtain ⟨ref, -, hdeclared, -⟩ := hviewsAt 2 v.1.1 v.1.2 v.2 hv
  refine ⟨run, t, block, hrun, ⟨d, hmem, hmain⟩, hkept, hviews, hfound, hblock, ?_,
    ⟨v, _, hv, hdeclared⟩, hnames⟩
  rw [hlength, hthree]

end StandardRun

end ComponentGlue
