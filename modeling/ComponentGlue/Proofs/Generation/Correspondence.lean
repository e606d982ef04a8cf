import Mathlib.Data.List.Perm.Subperm
import ComponentGlue.Proofs.Generation.Growth
import ComponentGlue.Proofs.Generation.StandardRun

set_option autoImplicit false
set_option relaxedAutoImplicit false

namespace ComponentGlue

open Relation (ReflTransGen)
open StandardKind (schedule leaves putsType_iff)

/-- The type is named after the declaration and is what its kind generates for it. -/
structure GeneratedType.BuiltFor (t : GeneratedType) (project : Project)
    (x : StandardKind × Declaration) : Prop where
  name : t.name = project.generatedName x.2.qualifiedName
  origin : t.origin = x.2.qualifiedName
  component : x.1 = .component → t.extends? = some (.named x.2.qualifiedName) ∧ t.HasBlocks
  helper : x.1 = .preferenceHelper →
    t.constructors = [PreferenceHelper.constructor x.2.qualifiedName] ∧
      List.Forall₂ (fun sig method => PreferenceHelper.accessor sig = .ok method)
        x.2.element.methods t.methods
  client : x.1 = .restClient → t.fields = (RestClient.client t.name x.2.qualifiedName
    ((x.2.argStr? "root_url").getD "")).fields

section Distinct

variable {c : ValidationContext} {x : StandardKind × Declaration} {t t' : GeneratedType}

theorem builtFor_of_leaves (haccepts : c.Accepts x.1 x.2) (hleaves : leaves c.setting x = .type t) :
    t.BuiltFor c.project x := by
  obtain ⟨k, d⟩ := x
  cases k with
  | component =>
    obtain rfl := Output.type.inj hleaves
    exact ⟨rfl, rfl, fun _ => ⟨rfl, Component.hasBlocks_subclass _ _ _⟩, nofun, nofun⟩
  | preferenceHelper =>
    obtain ⟨methods, hmethods, -⟩ := PreferenceHelper.exists_accessors haccepts.fits.met.own.2
    obtain rfl := Output.type.inj hleaves
    refine ⟨rfl, rfl, nofun, fun _ => ⟨rfl, ?_⟩, nofun⟩
    have hforall := PreferenceHelper.forall₂_accessors hmethods
    rw [hmethods]
    exact hforall
  | restClient =>
    obtain rfl := Output.type.inj hleaves
    exact ⟨rfl, rfl, nofun, nofun, fun _ => rfl⟩
  | _ => cases hleaves

theorem holder_eq_of_ready (distinct : (c.accepted.typeSteps.map fun x => x.2.qualifiedName).Nodup)
    (hx : x ∈ c.accepted.typeSteps) {h : Holder} (hready : h.Ready (schedule c.accepted))
    (horigin : h.origin = x.2.qualifiedName) :
    (x.1 = .component ∧ h = .component x.2.qualifiedName) ∨
      (x.1 = .restClient ∧ h = .restClient x.2.qualifiedName) := by
  have hsame : ∀ y ∈ schedule c.accepted, y.1 ∈ StandardKind.typeKinds →
      y.2.qualifiedName = x.2.qualifiedName → y = x := fun y hy hkind hname =>
    List.inj_on_of_nodup_map distinct
      (mem_typeSteps_iff.2 ⟨StandardKind.mem_schedule_iff.1 hy, hkind⟩) hx hname
  cases h with
  | component origin =>
    obtain ⟨d, hd, hname⟩ := hready
    obtain rfl : origin = x.2.qualifiedName := horigin
    obtain rfl := hsame _ hd (by simp [StandardKind.typeKinds]) hname
    exact Or.inl ⟨rfl, rfl⟩
  | restClient interface =>
    obtain ⟨d, hd, hname⟩ := hready
    obtain rfl : interface = x.2.qualifiedName := horigin
    obtain rfl := hsame _ hd (by simp [StandardKind.typeKinds]) hname
    exact Or.inr ⟨rfl, rfl⟩

theorem eq_method_of_restClient {s : Setting} {interface : String} {contribution : Contribution}
    (hleaves : leaves s x = .contribution (.restClient interface) contribution) :
    ∃ m, contribution = .method [] m := by
  obtain ⟨k, d⟩ := x
  cases k with
  | request http =>
    cases hleaves
    exact ⟨_, rfl⟩
  | _ => cases hleaves

theorem builtFor_of_grows
    (distinct : (c.accepted.typeSteps.map fun x => x.2.qualifiedName).Nodup)
    (hx : x ∈ c.accepted.typeSteps) (hbuilt : t.BuiltFor c.project x)
    (hgrows : Grows c x.2.qualifiedName t t') : t'.BuiltFor c.project x := by
  obtain ⟨y, h, contribution, hleaves, horigin, hready, happly⟩ := hgrows
  have hhead := Contribution.head_of_apply happly
  have hname : t'.head.name = t.head.name := congrArg GeneratedType.name hhead
  have horigin' : t'.head.origin = t.head.origin := congrArg GeneratedType.origin hhead
  have hextends : t'.head.extends? = t.head.extends? := congrArg GeneratedType.extends? hhead
  -- Nothing is contributed to a helper, and only methods to a client.
  rcases holder_eq_of_ready distinct hx hready horigin with ⟨hkind, rfl⟩ | ⟨hkind, rfl⟩
  · refine ⟨hname.trans hbuilt.name, horigin'.trans hbuilt.origin, fun _ => ⟨?_, ?_⟩, ?_, ?_⟩
    · exact hextends.trans (hbuilt.component hkind).1
    · exact (Contribution.kept_of_apply happly).2 (hbuilt.component hkind).2
    · exact fun h => nomatch hkind.symm.trans h
    · exact fun h => nomatch hkind.symm.trans h
  · refine ⟨hname.trans hbuilt.name, horigin'.trans hbuilt.origin, ?_, ?_, fun _ => ?_⟩
    · exact fun h => nomatch hkind.symm.trans h
    · exact fun h => nomatch hkind.symm.trans h
    · obtain ⟨m, rfl⟩ := eq_method_of_restClient hleaves
      obtain rfl := Except.ok.inj happly
      exact hbuilt.client hkind

end Distinct

/-- The types are in one-to-one correspondence with the declarations that they are generated for. -/
structure StandardRun.Corresponds (run : StandardRun) : Prop where
  types : List.Forall₂ (fun x t => t.BuiltFor run.project x) run.accepted.typeSteps
    run.model.typeList
  count : run.model.artifactCount = run.accepted.typeSteps.length

theorem eraseDups_eq_self {α : Type} [DecidableEq α] {l : List α} (h : l.Nodup) :
    l.eraseDups = l := by
  induction l with
  | nil => rfl
  | cons a l ih =>
    rw [List.nodup_cons] at h
    rw [List.eraseDups_cons, List.filter_eq_self.2, ih h.2]
    intro b hb
    simpa using fun heq : b = a => h.1 (heq ▸ hb)

theorem nodup_of_length_le {α : Type} [DecidableEq α] {l l' : List α} (h : l'.Nodup)
    (hsub : l' ⊆ l) (hlength : l.length ≤ l'.length) : l.Nodup :=
  ((h.subperm hsub).perm_of_length_le hlength).nodup_iff.1 h

namespace StandardRun

variable (run : StandardRun)

theorem keys_model : run.model.types.keys = (run.accepted.typeSteps.map fun x =>
    run.project.generatedName x.2.qualifiedName).eraseDups := by
  obtain ⟨a, hreaches, hmodel⟩ := run.exists_reaches
  have hkeys := keys_of_reaches run.grouped (List.append_nil _).symm hreaches
  rw [DeclarationModel.filter_schedule, hmodel, ← run.accepted_eq] at hkeys
  exact hkeys

theorem accepts {x : StandardKind × Declaration} (hx : x ∈ run.accepted.typeSteps) :
    run.context.Accepts x.1 x.2 := by
  rw [mem_typeSteps_iff, run.accepted_eq] at hx
  exact run.context.accepts_of_mem run.grouped hx.1

theorem exists_grown {origin : String} {x : StandardKind × Declaration}
    (hlast : lastPut run.accepted.typeSteps origin = some x) : ∃ t₀ t,
      t₀.BuiltFor run.project x ∧ x.2.qualifiedName = origin ∧
      run.model.get? (run.project.generatedName origin) = some t ∧
      ReflTransGen (Grows run.context origin) t₀ t := by
  obtain ⟨hx, hname⟩ := mem_of_lastPut hlast
  obtain ⟨a, hreaches, hmodel⟩ := run.exists_reaches
  rw [← DeclarationModel.filter_schedule, lastPut_filter, run.accepted_eq] at hlast
  obtain ⟨t₀, t, hleaves, hfound, hgrown⟩ :=
    grown_of_reaches run.grouped (List.append_nil _).symm hreaches origin x hlast
  exact ⟨t₀, t, builtFor_of_leaves (run.accepts hx) hleaves, hname, hmodel ▸ hfound, hgrown⟩

theorem exists_head {name : String} {t : GeneratedType} (hfound : run.model.get? name = some t) :
    t.name = name ∧ ∃ x, ∃ t₀ : GeneratedType, lastPut run.accepted.typeSteps t.origin = some x ∧
      t₀.BuiltFor run.project x ∧ t.head = t₀.head := by
  have hkey : name ∈ run.model.types.keys :=
    Table.mem_keys_iff.2 (Option.isSome_iff_exists.2 ⟨t, hfound⟩)
  rw [run.keys_model, List.mem_eraseDups, List.mem_map] at hkey
  obtain ⟨y, hy, rfl⟩ := hkey
  obtain ⟨x, hlast⟩ := exists_lastPut hy (putsType_iff.2 (mem_typeSteps_iff.1 hy).2)
  obtain ⟨t₀, t', hbuilt, hname, hfound', hgrown⟩ := run.exists_grown hlast
  obtain rfl : t = t' := Option.some.inj (hfound.symm.trans hfound')
  have hhead := head_of_grown hgrown
  have ht : t.head.name = t₀.head.name := congrArg GeneratedType.name hhead
  have horigin : t.head.origin = t₀.head.origin := congrArg GeneratedType.origin hhead
  have hsame : t.origin = y.2.qualifiedName := horigin.trans (hbuilt.origin.trans hname)
  exact ⟨(ht.trans hbuilt.name).trans (congrArg _ hname), x, t₀, hsame ▸ hlast, hbuilt, hhead⟩

theorem exists_lastPut_of_mem {t : GeneratedType} (ht : t ∈ run.model.typeList) :
    run.model.get? (run.project.generatedName t.origin) = some t ∧
      ∃ x, lastPut run.accepted.typeSteps t.origin = some x := by
  obtain ⟨⟨name, t⟩, he, rfl⟩ := List.mem_map.1 ht
  have hfound : run.model.get? name = some t := Table.mem_entries_iff.1 he
  obtain ⟨hname, x, t₀, hlast, hbuilt, hhead⟩ := run.exists_head hfound
  refine ⟨?_, x, hlast⟩
  have hsame : t.head.name = t₀.head.name := congrArg GeneratedType.name hhead
  have horigin : x.2.qualifiedName = t.origin := (mem_of_lastPut hlast).2
  have hgenerated : run.project.generatedName t.origin = name := by
    rw [← horigin, ← hbuilt.name]
    exact hsame.symm.trans hname
  rw [hgenerated]
  exact hfound

theorem names_model : run.model.typeList.map GeneratedType.name = run.model.types.keys := by
  unfold GenerationModel.typeList Table.values Table.keys
  rw [List.map_map]
  refine List.map_congr_left fun e he => ?_
  exact (run.exists_head (Table.mem_entries_iff.1 he)).1

theorem corresponds_of_nodup
    (distinct : (run.accepted.typeSteps.map fun x => x.2.qualifiedName).Nodup) :
    run.Corresponds := by
  have hkeys : run.model.types.keys = run.accepted.typeSteps.map fun x =>
      run.project.generatedName x.2.qualifiedName := by
    rw [run.keys_model, eraseDups_eq_self]
    have hgenerated := distinct.map run.project.generatedName_injective
    rwa [List.map_map] at hgenerated
  have hbuilt : ∀ x ∈ run.accepted.typeSteps, ∃ t,
      run.model.types.get? (run.project.generatedName x.2.qualifiedName) = some t ∧
      t.BuiltFor run.project x := by
    intro x hx
    obtain ⟨t₀, t, hfirst, -, hfound, hgrown⟩ := run.exists_grown (lastPut_of_nodup distinct hx)
    refine ⟨t, hfound, ?_⟩
    rw [run.accepted_eq] at distinct hx
    clear hfound
    induction hgrown with
    | refl => exact hfirst
    | tail _ hgrows ih => exact builtFor_of_grows distinct hx ih hgrows
  refine ⟨Table.forall₂_values hkeys hbuilt, ?_⟩
  have hlength := congrArg List.length hkeys
  rwa [Table.keys, List.length_map, List.length_map] at hlength

theorem nodup_of_corresponds (h : run.Corresponds) :
    (run.accepted.typeSteps.map fun x => x.2.qualifiedName).Nodup := by
  have hsub : run.model.types.keys ⊆ run.accepted.typeSteps.map fun x =>
      run.project.generatedName x.2.qualifiedName := by
    intro name hname
    rw [run.keys_model] at hname
    exact List.mem_eraseDups.1 hname
  have hlength : (run.accepted.typeSteps.map fun x =>
      run.project.generatedName x.2.qualifiedName).length ≤ run.model.types.keys.length := by
    rw [List.length_map, Table.keys, List.length_map]
    exact Nat.le_of_eq h.count.symm
  have hgenerated := nodup_of_length_le run.model.types.nodup hsub hlength
  refine .of_map run.project.generatedName ?_
  rwa [List.map_map]

/-- The types of a model have the names of the declarations that types are generated for, each name
once, and each type is headed by what was built for the last declaration of its origin. They are in
one-to-one correspondence with these declarations exactly when the declarations have distinct names. -/
theorem corresponds_iff_nodup :
    run.model.typeList.map GeneratedType.name = (run.accepted.typeSteps.map fun x =>
      run.project.generatedName x.2.qualifiedName).eraseDups ∧
    (∀ t ∈ run.model.typeList, ∃ x, ∃ t₀ : GeneratedType,
      lastPut run.accepted.typeSteps t.origin = some x ∧ t₀.BuiltFor run.project x ∧
      t.head = t₀.head) ∧
    (run.Corresponds ↔ (run.accepted.typeSteps.map fun x => x.2.qualifiedName).Nodup) := by
  refine ⟨run.names_model.trans run.keys_model, fun t ht => ?_, run.nodup_of_corresponds,
    run.corresponds_of_nodup⟩
  obtain ⟨⟨name, t'⟩, he, rfl⟩ := List.mem_map.1 ht
  exact (run.exists_head (Table.mem_entries_iff.1 he)).2

end StandardRun

private def apiBatches : List (Marker × List RawDeclaration) :=
  [(.sharedPref, [⟨⟨.interfaceType, "Api", "a", none, [], [], [], [], []⟩, .empty⟩]),
    (.rest, [⟨⟨.interfaceType, "Api", "a", none, [], [], [], [], []⟩, .empty⟩])]

private def apiRun : Except Interruption StandardRun :=
  StandardRun.ofHost apiBatches (.ok []) (.ok []) (.new "a")

/-- The client of an interface takes the place of its preference helper. -/
theorem StandardRun.not_corresponds_api : ∃ run, apiRun = .ok run ∧
    run.accepted.typeSteps.map (fun x => (x.1.marker, x.2.qualifiedName)) =
      [(.sharedPref, "a.Api"), (.rest, "a.Api")] ∧
    run.model.typeList.map (fun t => (t.name, t.constructors.length)) = [("a.Api_", 0)] ∧
    ¬ run.Corresponds := by
  have hparts : apiRun.toOption.map (fun run =>
      (run.accepted.typeSteps.map (fun x => (x.1.marker, x.2.qualifiedName)),
        run.model.typeList.map (fun t => (t.name, t.constructors.length)))) =
      some ([(.sharedPref, "a.Api"), (.rest, "a.Api")], [("a.Api_", 0)]) := by
    decide +kernel
  obtain ⟨run, hrun, hparts⟩ := exists_ok_of_map_toOption hparts
  have hsteps : run.accepted.typeSteps.map (fun x => (x.1.marker, x.2.qualifiedName)) =
      [(.sharedPref, "a.Api"), (.rest, "a.Api")] := congrArg Prod.fst hparts
  have htypes : run.model.typeList.map (fun t => (t.name, t.constructors.length)) =
      [("a.Api_", 0)] := congrArg Prod.snd hparts
  refine ⟨run, hrun, hsteps, htypes, fun h => ?_⟩
  have htwo : run.accepted.typeSteps.length = 2 := by simpa using congrArg List.length hsteps
  have hone : run.model.typeList.length = 1 := by simpa using congrArg List.length htypes
  rw [← h.types.length_eq, htwo] at hone
  cases hone

private def notesBatches : List (Marker × List RawDeclaration) :=
  [(.enhancedComponent, [⟨⟨.classType, "Main", "a", none, [], [], [], [], []⟩, .empty⟩]),
    (.sharedPref, [⟨⟨.interfaceType, "Prefs", "a", none, [], [], [], [],
      [⟨"name", [], some "String"⟩]⟩, .empty⟩]),
    (.rest, [⟨⟨.interfaceType, "Api", "a", none, [], [], [], [], []⟩, .empty⟩]),
    (.pref, [⟨⟨.field, "prefs", "a.Main", some "a.Prefs_", [], [], [], [], []⟩, .empty⟩])]

private def notesRun : Except Interruption StandardRun :=
  StandardRun.ofHost notesBatches (.ok []) (.ok []) (.new "a")

theorem StandardRun.corresponds_notes : ∃ run, notesRun = .ok run ∧
    run.model.typeList.map GeneratedType.name = ["a.Main_", "a.Prefs_", "a.Api_"] ∧
    run.Corresponds := by
  have hparts : notesRun.toOption.map (fun run =>
      (run.accepted.typeSteps.map (fun x => x.2.qualifiedName),
        run.model.typeList.map GeneratedType.name)) =
      some (["a.Main", "a.Prefs", "a.Api"], ["a.Main_", "a.Prefs_", "a.Api_"]) := by
    decide +kernel
  obtain ⟨run, hrun, hparts⟩ := exists_ok_of_map_toOption hparts
  have hsteps : run.accepted.typeSteps.map (fun x => x.2.qualifiedName) =
      ["a.Main", "a.Prefs", "a.Api"] := congrArg Prod.fst hparts
  refine ⟨run, hrun, congrArg Prod.snd hparts, run.corresponds_iff_nodup.2.2.2 ?_⟩
  rw [hsteps]
  decide

end ComponentGlue
