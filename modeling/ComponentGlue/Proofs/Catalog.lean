import ComponentGlue.Catalog
import ComponentGlue.Proofs.Table

set_option autoImplicit false
set_option relaxedAutoImplicit false

namespace ComponentGlue

/-- The entry gives the symbol this number. -/
structure SymbolEntry.Declares (e : SymbolEntry) (key : ResourceKey) (id : Int) : Prop where
  type : ResourceType.ofText? e.typeName = some key.type
  name : e.name = key.name
  id : e.id = id

def SymbolSource.Declares (s : SymbolSource) (key : ResourceKey) (id : Int) : Prop :=
  ∃ entries, s = .ok entries ∧ ∃ e ∈ entries, e.Declares key id

namespace CatalogLayer

variable {symbols symbols' : Table ResourceKey Int} {key : ResourceKey} {id : Int}

theorem declares_iff {e : SymbolEntry} {type : ResourceType}
    (h : ResourceType.ofText? e.typeName = some type) :
    e.Declares key id ↔ ⟨type, e.name⟩ = key ∧ e.id = id := by
  constructor
  · rintro ⟨htype, hname, hid⟩
    obtain rfl := Option.some.inj (h.symm.trans htype)
    exact ⟨by rw [hname], hid⟩
  · rintro ⟨rfl, hid⟩
    exact ⟨h, rfl, hid⟩

/-- An entry that is taken adds its number and changes no other. -/
theorem get?_addEntry {e : SymbolEntry} (h : addEntry symbols e = .ok symbols') :
    symbols'.get? key = some id ↔ symbols.get? key = some id ∨ e.Declares key id := by
  unfold addEntry at h
  split at h
  · next htype =>
    obtain rfl := Except.ok.inj h
    refine (or_iff_left fun hdeclares => ?_).symm
    cases htype.symm.trans hdeclares.type
  · next type htype =>
    rw [declares_iff htype]
    split at h
    · cases h
    · split at h
      · cases h
      · split at h
        · next hnew =>
          obtain rfl := Except.ok.inj h
          rw [Table.get?_insert]
          by_cases hkey : ⟨type, e.name⟩ = key
          · -- The key was free, so the entry is the first to declare it.
            rw [if_pos hkey, ← hkey, hnew]
            simp
          · simp [hkey]
        · next found hfound =>
          split at h
          · next hsame =>
            obtain rfl := Except.ok.inj h
            refine (or_iff_left_of_imp ?_).symm
            rintro ⟨rfl, rfl⟩
            rw [hfound, hsame]
          · cases h

theorem get?_foldlM {entries : List SymbolEntry}
    (h : entries.foldlM addEntry symbols = .ok symbols') :
    symbols'.get? key = some id ↔ symbols.get? key = some id ∨ ∃ e ∈ entries, e.Declares key id := by
  induction entries generalizing symbols with
  | nil =>
    obtain rfl := Except.ok.inj h
    simp
  | cons e entries ih =>
    rw [List.foldlM_cons] at h
    cases hadded : addEntry symbols e with
    | error flaw =>
      rw [hadded] at h
      cases h
    | ok added =>
      rw [hadded] at h
      rw [ih h, get?_addEntry hadded, or_assoc]
      simp only [List.mem_cons, exists_eq_or_imp]

theorem get?_ofSource {scope : ResourceScope} {source : SymbolSource} {layer : CatalogLayer}
    (h : ofSource scope source = .ok layer) (key : ResourceKey) (id : Int) :
    layer.scope = scope ∧ (layer.get? key = some id ↔ source.Declares key id) := by
  unfold ofSource at h
  cases source with
  | error e => cases h
  | ok entries =>
    simp only [ofEntries] at h
    cases hfold : entries.foldlM addEntry .empty with
    | error flaw =>
      rw [hfold] at h
      cases h
    | ok symbols =>
      rw [hfold] at h
      obtain rfl := Except.ok.inj h
      have hget : symbols.get? key = some id ↔ ∃ e ∈ entries, e.Declares key id := by
        rw [get?_foldlM hfold]
        simp
      refine ⟨rfl, hget.trans ⟨fun hdeclares => ⟨entries, rfl, hdeclares⟩, ?_⟩⟩
      rintro ⟨_, heq, hdeclares⟩
      obtain rfl := Except.ok.inj heq
      exact hdeclares

end CatalogLayer

namespace Catalog

variable {scope : ResourceScope} {source : SymbolSource} {layer : CatalogLayer} {key : ResourceKey}
  {r : ResourceRef}

theorem declares_of_lookupIn? (hlayer : CatalogLayer.ofSource scope source = .ok layer)
    (h : lookupIn? key layer = some r) : r.scope = scope ∧ source.Declares r.key r.id := by
  obtain ⟨id, hid, rfl⟩ := Option.map_eq_some_iff.1 h
  obtain ⟨hscope, hdeclares⟩ := CatalogLayer.get?_ofSource hlayer key id
  exact ⟨hscope, hdeclares.1 hid⟩

theorem not_declares_of_lookupIn? (hlayer : CatalogLayer.ofSource scope source = .ok layer)
    (h : lookupIn? key layer = none) (id : Int) : ¬ source.Declares key id := by
  intro hdeclares
  have hid := (CatalogLayer.get?_ofSource hlayer key id).2.2 hdeclares
  rw [lookupIn?, hid] at h
  cases h

/-- The tables give the resource its scope and number: the project's, or the platform's for what the
project does not declare. -/
def Given (project platform : SymbolSource) (r : ResourceRef) : Prop :=
  (r.scope = .project ∧ project.Declares r.key r.id) ∨
    (r.scope = .platform ∧ (∀ id, ¬ project.Declares r.key id) ∧ platform.Declares r.key r.id)

/-- What a catalog answers is given by its tables. -/
theorem given_of_lookup {project platform : SymbolSource} {c : Catalog}
    (hresolve : resolve project platform = .ok c) (hlookup : c.lookup key = .ok r) :
    Given project platform r := by
  have hkey : r.key = key := key_of_lookup hlookup
  unfold resolve at hresolve
  cases hproject : CatalogLayer.ofSource .project project with
  | error e =>
    rw [hproject] at hresolve
    cases hresolve
  | ok layer =>
    rw [hproject] at hresolve
    obtain rfl := Except.ok.inj hresolve
    unfold lookup layers at hlookup
    rw [List.findSome?_cons] at hlookup
    -- The layer of the project answers first; the other is asked when it has no such symbol.
    cases hfirst : lookupIn? key layer with
    | some r' =>
      rw [hfirst] at hlookup
      obtain rfl := Except.ok.inj hlookup
      exact Or.inl (declares_of_lookupIn? hproject hfirst)
    | none =>
      rw [hfirst] at hlookup
      split at hlookup
      · next r' hsecond =>
        obtain rfl := Except.ok.inj hlookup
        obtain ⟨layer', hlayer', hfound⟩ := List.exists_of_findSome?_eq_some hsecond
        cases hplatform : CatalogLayer.ofSource .platform platform with
        | error e =>
          rw [hplatform] at hlayer'
          cases hlayer'
        | ok layer'' =>
          rw [hplatform] at hlayer'
          obtain rfl := List.mem_singleton.1 hlayer'
          obtain ⟨hscope, hdeclares⟩ := declares_of_lookupIn? hplatform hfound
          rw [← hkey] at hfirst
          exact Or.inr ⟨hscope, not_declares_of_lookupIn? hproject hfirst, hdeclares⟩
      · cases hlookup

end Catalog

variable {entries entries' : List SymbolEntry} {key : ResourceKey} {id id' : Int}

namespace SymbolEntry

def DeclaredIn (entries : List SymbolEntry) (key : ResourceKey) (id : Int) : Prop :=
  ∃ e ∈ entries, e.Declares key id

theorem not_declaredIn_nil : ¬ DeclaredIn [] key id := nofun

theorem declaredIn_cons {e : SymbolEntry} :
    DeclaredIn (e :: entries) key id ↔ e.Declares key id ∨ DeclaredIn entries key id := by
  simp only [DeclaredIn, List.mem_cons, exists_eq_or_imp]

/-- The entries of known types make a table. What stands under an unknown type has no part in this. -/
structure Consistent (entries : List SymbolEntry) : Prop where
  name_ne : ∀ {key : ResourceKey} {id : Int}, DeclaredIn entries key id → key.name ≠ ""
  id_nonneg : ∀ {key : ResourceKey} {id : Int}, DeclaredIn entries key id → 0 ≤ id
  id_unique : ∀ {key : ResourceKey} {id id' : Int}, DeclaredIn entries key id →
    DeclaredIn entries key id' → id = id'

/-- Entries in another order, with one of them repeated, or with one more of an unknown type; and so on
from there. -/
inductive Rearranged : List SymbolEntry → List SymbolEntry → Prop where
  | reorder {entries entries' : List SymbolEntry} : entries.Perm entries' →
    Rearranged entries entries'
  | again {entries : List SymbolEntry} {e : SymbolEntry} : e ∈ entries →
    Rearranged entries (e :: entries)
  | unknown {entries : List SymbolEntry} {e : SymbolEntry} :
    ResourceType.ofText? e.typeName = none → Rearranged entries (e :: entries)
  | trans {entries middle entries' : List SymbolEntry} : Rearranged entries middle →
    Rearranged middle entries' → Rearranged entries entries'

theorem Rearranged.declaredIn_iff (h : Rearranged entries entries') :
    DeclaredIn entries' key id ↔ DeclaredIn entries key id := by
  induction h with
  | reorder hperm => exact exists_congr fun e => and_congr_left fun _ => hperm.symm.mem_iff
  | again hmem =>
    rw [declaredIn_cons]
    exact or_iff_right_of_imp fun hdeclares => ⟨_, hmem, hdeclares⟩
  | unknown htype =>
    rw [declaredIn_cons]
    refine or_iff_right_of_imp fun hdeclares => ?_
    cases htype.symm.trans hdeclares.type
  | trans _ _ ihfirst ihsecond => exact ihsecond.trans ihfirst

theorem Consistent.of_declaredIn (h : Consistent entries)
    (hsub : ∀ {key : ResourceKey} {id : Int}, DeclaredIn entries' key id → DeclaredIn entries key id) :
    Consistent entries' where
  name_ne hd := h.name_ne (hsub hd)
  id_nonneg hd := h.id_nonneg (hsub hd)
  id_unique hd hd' := h.id_unique (hsub hd) (hsub hd')

theorem Rearranged.consistent_iff (h : Rearranged entries entries') :
    Consistent entries' ↔ Consistent entries :=
  ⟨fun hc => hc.of_declaredIn h.declaredIn_iff.2, fun hc => hc.of_declaredIn h.declaredIn_iff.1⟩

end SymbolEntry

open SymbolEntry (DeclaredIn Consistent declaredIn_cons)

namespace SymbolSource

def Usable (s : SymbolSource) : Prop := ∃ entries, s = .ok entries ∧ Consistent entries

/-- The same reading error, or rearranged entries. -/
inductive Rearranged : SymbolSource → SymbolSource → Prop where
  | error (e : SymbolSourceError) : Rearranged (.error e) (.error e)
  | entries {entries entries' : List SymbolEntry} : SymbolEntry.Rearranged entries entries' →
    Rearranged (.ok entries) (.ok entries')

variable {s s' : SymbolSource}

theorem usable_ok_iff : Usable (.ok entries) ↔ Consistent entries := by
  constructor
  · rintro ⟨_, heq, hconsistent⟩
    exact Except.ok.inj heq ▸ hconsistent
  · exact fun hconsistent => ⟨entries, rfl, hconsistent⟩

theorem declares_ok_iff : Declares (.ok entries) key id ↔ DeclaredIn entries key id := by
  constructor
  · rintro ⟨_, heq, hdeclared⟩
    exact Except.ok.inj heq ▸ hdeclared
  · exact fun hdeclared => ⟨entries, rfl, hdeclared⟩

theorem Rearranged.usable_iff (h : s.Rearranged s') : s'.Usable ↔ s.Usable := by
  cases h with
  | error e => exact Iff.rfl
  | entries h => rw [usable_ok_iff, usable_ok_iff, h.consistent_iff]

theorem Rearranged.declares_iff (h : s.Rearranged s') :
    s'.Declares key id ↔ s.Declares key id := by
  cases h with
  | error e => exact Iff.rfl
  | entries h => rw [declares_ok_iff, declares_ok_iff, h.declaredIn_iff]

end SymbolSource

theorem not_exists_ok {ε α : Type} {e : ε} : ¬ ∃ a : α, (.error e : Except ε α) = .ok a := by
  rintro ⟨a, h⟩
  cases h

namespace CatalogLayer

variable {symbols : Table ResourceKey Int}

/-- An entry is taken exactly when what it declares, if anything, has a name, a number that is not negative
and no other number yet. -/
theorem exists_addEntry_iff {e : SymbolEntry} : (∃ symbols', addEntry symbols e = .ok symbols') ↔
    ∀ key id, e.Declares key id → key.name ≠ "" ∧ 0 ≤ id ∧
      ∀ id', symbols.get? key = some id' → id' = id := by
  unfold addEntry
  cases htype : ResourceType.ofText? e.typeName with
  | none =>
    refine iff_of_true ⟨symbols, rfl⟩ fun key id hdeclares => ?_
    cases htype.symm.trans hdeclares.type
  | some type =>
    have hself : (∀ key id, e.Declares key id → key.name ≠ "" ∧ 0 ≤ id ∧
          ∀ id', symbols.get? key = some id' → id' = id) ↔
        e.name ≠ "" ∧ 0 ≤ e.id ∧ ∀ id', symbols.get? ⟨type, e.name⟩ = some id' → id' = e.id := by
      constructor
      · exact fun h => h ⟨type, e.name⟩ e.id ⟨htype, rfl, rfl⟩
      · rintro h key id hdeclares
        obtain ⟨rfl, rfl⟩ := (declares_iff htype).1 hdeclares
        exact h
    rw [hself]
    dsimp only
    by_cases hname : e.name = ""
    · simp [hname]
    by_cases hid : e.id < 0
    · simp [hname, hid, Int.not_le.2 hid]
    have hnonneg : 0 ≤ e.id := Int.not_lt.1 hid
    cases hfound : symbols.get? ⟨type, e.name⟩ with
    | none => simp [hname, hid, hnonneg]
    | some found =>
      by_cases hsame : found = e.id
      · simp [hname, hid, hnonneg, hsame]
      · simp [hname, hid, hsame]

/-- Whether all entries can be taken does not depend on their order: each declaration is sound by itself, and
agrees with the numbers that are there and with those of all other entries. -/
theorem exists_foldlM_cons_iff {e : SymbolEntry} :
    (∃ symbols', (e :: entries).foldlM addEntry symbols = .ok symbols') ↔
      ∃ added, addEntry symbols e = .ok added ∧
        ∃ symbols', entries.foldlM addEntry added = .ok symbols' := by
  rw [List.foldlM_cons]
  cases addEntry symbols e with
  | error flaw =>
    refine iff_of_false not_exists_ok ?_
    rintro ⟨added, hadded, -⟩
    cases hadded
  | ok added =>
    constructor
    · exact fun h => ⟨added, rfl, h⟩
    · rintro ⟨_, hadded, h⟩
      obtain rfl := Except.ok.inj hadded
      exact h

theorem exists_foldlM_iff : (∃ symbols', entries.foldlM addEntry symbols = .ok symbols') ↔
    ∀ key id, DeclaredIn entries key id → key.name ≠ "" ∧ 0 ≤ id ∧
      ∀ id', symbols.get? key = some id' ∨ DeclaredIn entries key id' → id' = id := by
  -- The symbols read so far vary: each entry is compared with those before it.
  induction entries generalizing symbols with
  | nil => exact iff_of_true ⟨symbols, rfl⟩ fun _ _ h => absurd h SymbolEntry.not_declaredIn_nil
  | cons e entries ih =>
    rw [exists_foldlM_cons_iff]
    constructor
    · rintro ⟨added, hadded, hrest⟩ key id hdeclared
      have hentry := exists_addEntry_iff.1 ⟨added, hadded⟩
      have hothers := ih.1 hrest
      have hget : ∀ n, added.get? key = some n ↔ symbols.get? key = some n ∨ e.Declares key n :=
        fun n => get?_addEntry hadded
      rcases declaredIn_cons.1 hdeclared with he | hin
      · obtain ⟨hname, hid, hold⟩ := hentry key id he
        refine ⟨hname, hid, fun id' h => ?_⟩
        rcases h with h | h
        · exact hold id' h
        rcases declaredIn_cons.1 h with he' | hin'
        · exact he'.id.symm.trans he.id
        · exact ((hothers key id' hin').2.2 id (Or.inl ((hget id).2 (Or.inr he)))).symm
      · obtain ⟨hname, hid, hall⟩ := hothers key id hin
        refine ⟨hname, hid, fun id' h => hall id' ?_⟩
        rw [hget, or_assoc, ← declaredIn_cons]
        exact h
    · intro h
      obtain ⟨added, hadded⟩ : ∃ added, addEntry symbols e = .ok added := by
        refine exists_addEntry_iff.2 fun key id he => ?_
        obtain ⟨hname, hid, hall⟩ := h key id (declaredIn_cons.2 (Or.inl he))
        exact ⟨hname, hid, fun id' hold => hall id' (Or.inl hold)⟩
      refine ⟨added, hadded, ih.2 fun key id hin => ?_⟩
      obtain ⟨hname, hid, hall⟩ := h key id (declaredIn_cons.2 (Or.inr hin))
      refine ⟨hname, hid, fun id' h' => hall id' ?_⟩
      rwa [get?_addEntry hadded, or_assoc, ← declaredIn_cons] at h'

theorem exists_ofSource_iff (scope : ResourceScope) {source : SymbolSource} :
    (∃ layer, ofSource scope source = .ok layer) ↔ source.Usable := by
  cases source with
  | error e =>
    refine iff_of_false not_exists_ok ?_
    rintro ⟨entries, hread, -⟩
    cases hread
  | ok entries =>
    have hbuilt : (∃ layer, ofSource scope (.ok entries) = .ok layer) ↔
        ∃ symbols, entries.foldlM addEntry .empty = .ok symbols := by
      simp only [ofSource, ofEntries]
      cases entries.foldlM addEntry .empty with
      | error flaw => exact iff_of_false not_exists_ok not_exists_ok
      | ok symbols => exact iff_of_true ⟨_, rfl⟩ ⟨_, rfl⟩
    rw [hbuilt, exists_foldlM_iff, SymbolSource.usable_ok_iff]
    constructor
    · intro h
      refine ⟨fun hd => (h _ _ hd).1, fun hd => (h _ _ hd).2.1, fun hd hd' => ?_⟩
      exact (h _ _ hd').2.2 _ (Or.inr hd)
    · intro h key id hd
      refine ⟨h.name_ne hd, h.id_nonneg hd, fun id' h' => ?_⟩
      rcases h' with hold | hd'
      · cases hold
      · exact h.id_unique hd' hd

end CatalogLayer

namespace Catalog

variable {project platform project' platform' : SymbolSource} {c c' : Catalog}

/-- The catalog answers from the project's table, then from the platform's if that is usable, and from
nothing else. -/
structure LayeredView (project platform : SymbolSource) (c : Catalog) : Prop where
  isSome_platform_iff : c.platform.isSome = true ↔ platform.Usable
  of_project : ∀ {key : ResourceKey} {id : Int}, project.Declares key id →
    c.lookup key = .ok ⟨.project, key.type, key.name, id⟩
  of_platform : ∀ {key : ResourceKey} {id : Int}, (∀ n, ¬ project.Declares key n) →
    platform.Usable → platform.Declares key id →
      c.lookup key = .ok ⟨.platform, key.type, key.name, id⟩
  not_found : ∀ {key : ResourceKey}, (∀ n, ¬ project.Declares key n) →
    (platform.Usable → ∀ n, ¬ platform.Declares key n) → c.lookup key = .error ⟨key⟩

theorem exists_resolve_iff : (∃ c, resolve project platform = .ok c) ↔ project.Usable := by
  rw [← CatalogLayer.exists_ofSource_iff .project, resolve]
  cases CatalogLayer.ofSource .project project with
  | error e => exact iff_of_false not_exists_ok not_exists_ok
  | ok layer => exact iff_of_true ⟨_, rfl⟩ ⟨_, rfl⟩

section Layer

variable {scope : ResourceScope} {source : SymbolSource} {layer : CatalogLayer}
  (hlayer : CatalogLayer.ofSource scope source = .ok layer)
include hlayer

theorem lookupIn?_of_declares (h : source.Declares key id) :
    lookupIn? key layer = some ⟨scope, key.type, key.name, id⟩ := by
  obtain ⟨rfl, hget⟩ := CatalogLayer.get?_ofSource hlayer key id
  rw [lookupIn?, hget.2 h, Option.map_some]

theorem lookupIn?_eq_none (h : ∀ n, ¬ source.Declares key n) : lookupIn? key layer = none := by
  rw [Option.eq_none_iff_forall_ne_some]
  intro r hr
  obtain ⟨id, hid, -⟩ := Option.map_eq_some_iff.1 hr
  exact h id ((CatalogLayer.get?_ofSource hlayer key id).2.1 hid)

end Layer

/-- A catalog that was built is the layered view of its tables. -/
theorem layeredView_of_resolve (h : resolve project platform = .ok c) :
    LayeredView project platform c := by
  unfold resolve at h
  cases hproject : CatalogLayer.ofSource .project project with
  | error e =>
    rw [hproject] at h
    cases h
  | ok layer =>
    rw [hproject] at h
    obtain rfl := Except.ok.inj h
    have hfirst : ∀ key r, lookupIn? key layer = some r →
        lookup ⟨layer, (CatalogLayer.ofSource .platform platform).toOption⟩ key = .ok r := by
      intro key r hr
      rw [lookup, layers, List.findSome?_cons, hr]
    refine ⟨?_, fun hd => hfirst _ _ (lookupIn?_of_declares hproject hd), ?_, ?_⟩
    · rw [← CatalogLayer.exists_ofSource_iff .platform]
      cases CatalogLayer.ofSource .platform platform with
      | error e =>
        refine iff_of_false ?_ not_exists_ok
        intro hsome
        cases hsome
      | ok layer' => exact iff_of_true rfl ⟨layer', rfl⟩
    · intro key id hnone husable hd
      obtain ⟨layer', hplatform⟩ := (CatalogLayer.exists_ofSource_iff .platform).2 husable
      rw [lookup, layers, List.findSome?_cons, lookupIn?_eq_none hproject hnone, hplatform]
      simp [Except.toOption, lookupIn?_of_declares hplatform hd]
    · intro key hnone hplatform
      rw [lookup, layers, List.findSome?_cons, lookupIn?_eq_none hproject hnone]
      cases hsecond : CatalogLayer.ofSource .platform platform with
      | error e => rfl
      | ok layer' =>
        have husable := (CatalogLayer.exists_ofSource_iff .platform).1 ⟨layer', hsecond⟩
        simp [Except.toOption, lookupIn?_eq_none hsecond (hplatform husable)]

theorem LayeredView.lookup_eq (h : LayeredView project platform c)
    (h' : LayeredView project' platform' c')
    (hproject : ∀ key id, project'.Declares key id ↔ project.Declares key id)
    (hplatform : ∀ key id, platform'.Declares key id ↔ platform.Declares key id)
    (husable : platform'.Usable ↔ platform.Usable) (key : ResourceKey) :
    c'.lookup key = c.lookup key := by
  by_cases hfirst : ∃ id, project.Declares key id
  · obtain ⟨id, hid⟩ := hfirst
    rw [h.of_project hid, h'.of_project ((hproject key id).2 hid)]
  · have hnone : ∀ n, ¬ project.Declares key n := not_exists.1 hfirst
    have hnone' : ∀ n, ¬ project'.Declares key n := fun n hn => hnone n ((hproject key n).1 hn)
    by_cases hsecond : platform.Usable ∧ ∃ id, platform.Declares key id
    · obtain ⟨hu, id, hid⟩ := hsecond
      rw [h.of_platform hnone hu hid,
        h'.of_platform hnone' (husable.2 hu) ((hplatform key id).2 hid)]
    · rw [h.not_found hnone fun hu n hn => hsecond ⟨hu, n, hn⟩,
        h'.not_found hnone' fun hu n hn => hsecond ⟨husable.1 hu, n, (hplatform key n).1 hn⟩]

/-- There is no catalog exactly when the project's table is unusable, every other one is the layered
view of its tables, and rearranged tables make no difference to either. -/
theorem resolve_layered (project platform : SymbolSource) :
    ((∃ e, resolve project platform = .error e) ↔ ¬ project.Usable) ∧
    (∀ c, resolve project platform = .ok c → LayeredView project platform c) ∧
    ∀ project' platform', project.Rearranged project' → platform.Rearranged platform' →
      ((∃ c, resolve project' platform' = .ok c) ↔ ∃ c, resolve project platform = .ok c) ∧
      ∀ c c', resolve project platform = .ok c → resolve project' platform' = .ok c' →
        c'.platform.isSome = c.platform.isSome ∧ ∀ key, c'.lookup key = c.lookup key := by
  refine ⟨?_, fun c => layeredView_of_resolve, fun project' platform' hproject hplatform =>
    ⟨?_, fun c c' hc hc' => ?_⟩⟩
  · have husable : (∃ c, resolve project platform = .ok c) ↔ project.Usable := exists_resolve_iff
    rw [← husable]
    cases resolve project platform with
    | error e => exact iff_of_true ⟨e, rfl⟩ not_exists_ok
    | ok c =>
      refine iff_of_false ?_ (not_not.2 ⟨c, rfl⟩)
      rintro ⟨e, he⟩
      cases he
  · rw [exists_resolve_iff, exists_resolve_iff, hproject.usable_iff]
  · have h := layeredView_of_resolve hc
    have h' := layeredView_of_resolve hc'
    constructor
    · rw [Bool.eq_iff_iff, h.isSome_platform_iff, h'.isSome_platform_iff, hplatform.usable_iff]
    · exact h.lookup_eq h' (fun _ _ => hproject.declares_iff) (fun _ _ => hplatform.declares_iff)
        hplatform.usable_iff

private def titles : List SymbolEntry := [⟨"id", "title", 1⟩, ⟨"string", "title", 2⟩]

private def shuffledTitles : List SymbolEntry :=
  [⟨"styleable", "", -1⟩, ⟨"id", "title", 1⟩, ⟨"string", "title", 2⟩, ⟨"id", "title", 1⟩]

private def platformSymbols : List SymbolEntry := [⟨"id", "title", 100⟩, ⟨"id", "list", 101⟩]

theorem resolve_layered_titles :
    SymbolSource.Rearranged (.ok titles) (.ok shuffledTitles) ∧
    ∃ c c', resolve (.ok titles) (.ok platformSymbols) = .ok c ∧
      resolve (.ok shuffledTitles) (.ok platformSymbols) = .ok c' ∧
      c'.lookup ⟨.id, "title"⟩ = .ok ⟨.project, .id, "title", 1⟩ ∧
      c'.lookup ⟨.id, "list"⟩ = .ok ⟨.platform, .id, "list", 101⟩ ∧
      c'.lookup ⟨.string, "list"⟩ = .error ⟨⟨.string, "list"⟩⟩ := by
  have hshuffled : SymbolSource.Rearranged (.ok titles) (.ok shuffledTitles) := by
    have hreordered : SymbolEntry.Rearranged titles titles.reverse :=
      .reorder (List.reverse_perm titles).symm
    have hrepeated : SymbolEntry.Rearranged titles.reverse (⟨"id", "title", 1⟩ :: titles.reverse) :=
      .again (by decide)
    exact .entries (hreordered.trans (hrepeated.trans (.unknown (by decide))))
  have hplatform : SymbolSource.Rearranged (.ok platformSymbols) (.ok platformSymbols) :=
    .entries (.reorder (.refl _))
  obtain ⟨-, hview, hrearranged⟩ := resolve_layered (.ok titles) (.ok platformSymbols)
  obtain ⟨c, hc⟩ : ∃ c, resolve (.ok titles) (.ok platformSymbols) = .ok c := ⟨_, rfl⟩
  obtain ⟨hsuccess, hsame⟩ := hrearranged _ _ hshuffled hplatform
  obtain ⟨c', hc'⟩ := hsuccess.2 ⟨c, hc⟩
  obtain ⟨-, hlookup⟩ := hsame c c' hc hc'
  have hlayered := hview c hc
  have husable : SymbolSource.Usable (.ok platformSymbols) := by
    obtain rfl := Except.ok.inj hc
    exact hlayered.isSome_platform_iff.1 rfl
  have hname : ∀ {type : ResourceType} {n : Int},
      ¬ SymbolSource.Declares (.ok titles) ⟨type, "list"⟩ n := by
    intro type n h
    obtain ⟨e, he, hdeclares⟩ := SymbolSource.declares_ok_iff.1 h
    have hall : ∀ e ∈ titles, e.name ≠ "list" := by decide
    exact hall e he hdeclares.name
  have hlist : SymbolSource.Declares (.ok platformSymbols) ⟨.id, "list"⟩ 101 :=
    SymbolSource.declares_ok_iff.2 ⟨⟨"id", "list", 101⟩, by decide, by decide, rfl, rfl⟩
  have hstring : ∀ n, ¬ SymbolSource.Declares (.ok platformSymbols) ⟨.string, "list"⟩ n := by
    intro n h
    obtain ⟨e, he, hdeclares⟩ := SymbolSource.declares_ok_iff.1 h
    have hall : ∀ e ∈ platformSymbols, ResourceType.ofText? e.typeName ≠ some .string := by decide
    exact hall e he hdeclares.type
  refine ⟨hshuffled, c, c', hc, hc', ?_, ?_, ?_⟩
  · rw [hlookup]
    exact hlayered.of_project
      (SymbolSource.declares_ok_iff.2 ⟨⟨"id", "title", 1⟩, by decide, by decide, rfl, rfl⟩)
  · rw [hlookup]
    exact hlayered.of_platform (fun _ => hname) husable hlist
  · rw [hlookup]
    exact hlayered.not_found (fun _ => hname) fun _ => hstring

end Catalog

end ComponentGlue
