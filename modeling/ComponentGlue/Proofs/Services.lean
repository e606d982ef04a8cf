import Mathlib.Data.List.Find
import Mathlib.Data.List.TakeWhile
import ComponentGlue.Proofs.Rule.Requirement
import ComponentGlue.Proofs.Table

set_option autoImplicit false
set_option relaxedAutoImplicit false

namespace ComponentGlue

theorem simpleName_simpleName (name : String) : simpleName (simpleName name) = simpleName name := by
  unfold simpleName
  rw [String.toList_ofList, List.reverse_reverse, List.takeWhile_idem]

namespace Services

variable {s : Services} {type : String}

def registered? (s : Services) (type : String) : Option (String × String) :=
  s.constants.entries.find? fun e => decide (e.1 = type)

def firstNamed? (s : Services) (type : String) : Option (String × String) :=
  s.constants.entries.find? fun e => simpleName e.1 == type

/-- The type and the constant that are found belong to one service. -/
def AgreesOn (s : Services) (type : String) : Prop :=
  ∀ qualified constant, s.qualified? type = some qualified → s.constantFor? type = some constant →
    s.constants.get? qualified = some constant

def Shadowed (s : Services) (type : String) : Prop :=
  ∃ own first, s.registered? type = some own ∧ s.firstNamed? type = some first ∧ first.2 ≠ own.2

theorem constantFor?_eq (s : Services) (type : String) :
    s.constantFor? type = ((s.registered? type).or (s.firstNamed? type)).map Prod.snd := by
  have hexact : s.constants.get? type = (s.registered? type).map Prod.snd := rfl
  rw [constantFor?, hexact]
  cases s.registered? type with
  | none => rfl
  | some own => rfl

theorem simpleName_of_firstNamed? {first : String × String} (h : s.firstNamed? type = some first) :
    simpleName type = type := by
  have hname := List.find?_some h
  rw [← beq_iff_eq.1 hname, simpleName_simpleName]

/-- A type with the simple name of a registered one has no other simple name, so the type that is found is
the first one of that simple name, even if the type itself is registered. -/
theorem qualified?_eq (s : Services) (type : String) :
    s.qualified? type = ((s.firstNamed? type).or (s.registered? type)).map Prod.fst := by
  have hentries : s.qualified? type = (s.constants.entries.find? fun e =>
      e.1 == type || simpleName e.1 == type).map Prod.fst := List.find?_map ..
  rw [hentries]
  congr 1
  cases hfirst : s.firstNamed? type with
  | none =>
    rw [Option.none_or]
    refine List.find?_congr fun e he => ?_
    have hother : (simpleName e.1 == type) = false :=
      Bool.eq_false_iff.2 (List.find?_eq_none.1 hfirst e he)
    rw [hother, Bool.or_false]
    rfl
  | some first =>
    rw [Option.some_or, ← hfirst]
    refine List.find?_congr fun e _ => ?_
    by_cases he : e.1 = type
    · simp [he, simpleName_of_firstNamed? hfirst]
    · simp [he]

theorem get?_of_find? {p : String × String → Bool} {e : String × String}
    (h : s.constants.entries.find? p = some e) : s.constants.get? e.1 = some e.2 :=
  Table.mem_entries_iff.1 (List.mem_of_find?_eq_some h)

theorem isSome_qualified? (s : Services) (type : String) :
    (s.qualified? type).isSome = (s.constantFor? type).isSome := by
  rw [qualified?_eq, constantFor?_eq, Option.isSome_map, Option.isSome_map, Option.isSome_or,
    Option.isSome_or, Bool.or_comm]

theorem agreesOn_iff (s : Services) (type : String) : s.AgreesOn type ↔ ¬ s.Shadowed type := by
  unfold AgreesOn Shadowed
  rw [qualified?_eq, constantFor?_eq]
  cases hexact : s.registered? type with
  | none =>
    cases hfirst : s.firstNamed? type with
    | none => simp
    | some first => simp [get?_of_find? hfirst]
  | some own =>
    cases hfirst : s.firstNamed? type with
    | none => simp [get?_of_find? hexact]
    | some first => simp [get?_of_find? hfirst]

theorem mem_keys_registerAll {entries : List (String × String)} {name : String}
    (h : name ∈ (s.registerAll entries).constants.keys) :
    name ∈ s.constants.keys ∨ ∃ e ∈ entries, e.1 = name := by
  induction entries generalizing s with
  | nil => exact Or.inl h
  | cons e entries ih =>
    rcases ih (s := s.register e.1 e.2) h with h | ⟨r, hr, rfl⟩
    · rw [Table.mem_keys_iff, register, Table.isSome_get?_insert, ← Table.mem_keys_iff] at h
      rcases h with h | rfl
      · exact Or.inl h
      · exact Or.inr ⟨e, List.mem_cons_self, rfl⟩
    · exact Or.inr ⟨r, List.mem_cons_of_mem e hr, rfl⟩

theorem simpleName_ne_of_mem_standard : ∀ name ∈ standard.constants.keys, simpleName name ≠ name := by
  have hentries : ∀ e ∈ standardEntries, simpleName e.1 ≠ e.1 := by decide +kernel
  intro name hname
  rcases mem_keys_registerAll hname with hname | ⟨e, he, rfl⟩
  · cases hname
  · exact hentries e he

theorem not_shadowed_of_packaged (h : ∀ name ∈ s.constants.keys, simpleName name ≠ name) :
    ¬ s.Shadowed type := by
  rintro ⟨own, first, hown, hfirst, -⟩
  have hname := List.find?_some hown
  have hkey : own.1 ∈ s.constants.keys := List.mem_map_of_mem (List.mem_of_find?_eq_some hown)
  refine h own.1 hkey ?_
  rw [of_decide_eq_true hname, simpleName_of_firstNamed? hfirst]

end Services

namespace SystemService

theorem exists_emit {c : ValidationContext} {d : Declaration}
    (haccepts : (check ⟨c, d⟩).findings.rejects = false) : ∃ type qualified constant,
      d.element.type = some type ∧ c.project.services.qualified? type = some qualified ∧
      c.project.services.constantFor? type = some constant ∧
      ∀ refs, emit c.project d refs = Assemble.appendCreation d.element.owner .inject
        (d.assignField (value qualified constant)) := by
  obtain ⟨type, htype, hknown⟩ : ∃ type, d.element.type = some type ∧
      (c.project.services.constantFor? type).isSome = true :=
    ((demands ⟨c, d⟩).accepts_iff.1 haccepts).own.2
  obtain ⟨constant, hconstant⟩ := Option.isSome_iff_exists.1 hknown
  obtain ⟨qualified, hqualified⟩ : ∃ qualified,
      c.project.services.qualified? type = some qualified := by
    rw [← Option.isSome_iff_exists, Services.isSome_qualified?]
    exact hknown
  refine ⟨type, qualified, constant, htype, hqualified, hconstant, fun refs => ?_⟩
  simp only [emit, htype, Option.getD_some, hconstant, hqualified]
  rfl

end SystemService

namespace Services

/-- Tables that registrations lead to, from the empty table or the standard one. A type is found exactly when
a constant is, and both are of one service unless the type is shadowed; no type is when all registered
types are in a package. An accepted field is assigned the two. -/
theorem lookups_agree_iff {base s : Services} {registrations : List (String × String)}
    (hbase : base = empty ∨ base = standard) (hs : base.registerAll registrations = s) :
    (∀ type, (s.qualified? type).isSome = (s.constantFor? type).isSome) ∧
    (∀ type, s.AgreesOn type ↔ ¬ s.Shadowed type) ∧
    ((∀ r ∈ registrations, simpleName r.1 ≠ r.1) → ∀ type, s.AgreesOn type) ∧
    ∀ (c : ValidationContext) (d : Declaration), c.project.services = s →
      (SystemService.check ⟨c, d⟩).findings.rejects = false → ∃ type qualified constant,
        d.element.type = some type ∧
        (∀ refs, SystemService.emit c.project d refs = Assemble.appendCreation d.element.owner
          .inject (d.assignField (SystemService.value qualified constant))) ∧
        (s.constants.get? qualified = some constant ↔ ¬ s.Shadowed type) := by
  refine ⟨s.isSome_qualified?, s.agreesOn_iff, ?_, ?_⟩
  · intro hpackaged type
    rw [agreesOn_iff]
    refine not_shadowed_of_packaged fun name hname => ?_
    rcases mem_keys_registerAll (hs ▸ hname) with hname | ⟨r, hr, rfl⟩
    · rcases hbase with rfl | rfl
      · cases hname
      · exact simpleName_ne_of_mem_standard name hname
    · exact hpackaged r hr
  · rintro c d rfl haccepts
    obtain ⟨type, qualified, constant, htype, hqualified, hconstant, hemit⟩ :=
      SystemService.exists_emit haccepts
    refine ⟨type, qualified, constant, htype, hemit, ?_⟩
    rw [← agreesOn_iff]
    constructor
    · intro hregistered qualified' constant' hqualified' hconstant'
      rw [hqualified] at hqualified'
      rw [hconstant] at hconstant'
      obtain rfl := Option.some.inj hqualified'
      obtain rfl := Option.some.inj hconstant'
      exact hregistered
    · exact fun hagrees => hagrees qualified constant hqualified hconstant

private def radios : List (String × String) :=
  [("com.vendor.Radio", "RADIO_SERVICE"), ("Radio", "TUNER_SERVICE")]

/-- The type is found in the package, and the constant is that of the other radio. -/
theorem not_agreesOn_radio : ¬ (empty.registerAll radios).AgreesOn "Radio" := by
  intro hagrees
  have hfound : (empty.registerAll radios).qualified? "Radio" = some "com.vendor.Radio" ∧
      (empty.registerAll radios).constantFor? "Radio" = some "TUNER_SERVICE" ∧
      (empty.registerAll radios).constants.get? "com.vendor.Radio" = some "RADIO_SERVICE" := by
    decide +kernel
  obtain ⟨hqualified, hconstant, hregistered⟩ := hfound
  exact absurd (hregistered.symm.trans (hagrees _ _ hqualified hconstant)) (by decide)

private def radioContext : ValidationContext :=
  ⟨.extract [(.enhancedComponent, [⟨⟨.classType, "Main", "a", none, [], [], [], [], []⟩, .empty⟩])],
    none, { Project.new "a" with services := empty.registerAll (radios.take 1) }⟩

private def radioField : Declaration :=
  ⟨.systemService, ⟨.field, "radio", "a.Main", some "Radio", [], [], [], [], []⟩, .empty⟩

theorem lookups_agree_iff_radio :
    (∀ r ∈ radios.take 1, simpleName r.1 ≠ r.1) ∧
    (SystemService.check ⟨radioContext, radioField⟩).findings.rejects = false ∧
    (∀ type, radioContext.project.services.AgreesOn type) ∧ ∃ type qualified constant,
      radioField.element.type = some type ∧
      (∀ refs, SystemService.emit radioContext.project radioField refs =
        Assemble.appendCreation radioField.element.owner .inject
          (radioField.assignField (SystemService.value qualified constant))) ∧
      radioContext.project.services.constants.get? qualified = some constant := by
  have hpackaged : ∀ r ∈ radios.take 1, simpleName r.1 ≠ r.1 := by decide +kernel
  have haccepts : (SystemService.check ⟨radioContext, radioField⟩).findings.rejects = false := by
    decide +kernel
  obtain ⟨-, hshadowed, hagrees, hgenerates⟩ := lookups_agree_iff (Or.inl rfl)
    (rfl : empty.registerAll (radios.take 1) = radioContext.project.services)
  obtain ⟨type, qualified, constant, htype, hemit, hregistered⟩ :=
    hgenerates radioContext radioField rfl haccepts
  exact ⟨hpackaged, haccepts, hagrees hpackaged, type, qualified, constant, htype, hemit,
    hregistered.2 ((hshadowed type).1 (hagrees hpackaged type))⟩

end Services

end ComponentGlue
