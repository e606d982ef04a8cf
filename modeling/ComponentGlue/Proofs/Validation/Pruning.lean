import Mathlib.Data.List.Nodup
import Mathlib.Data.List.Perm.Basic
import ComponentGlue.Marker
import ComponentGlue.Proofs.Table
import ComponentGlue.Validation

set_option autoImplicit false
set_option relaxedAutoImplicit false

namespace ComponentGlue

namespace Candidate

def OwnersPresent (handled : Marker → Bool) (cs : List Candidate) : Prop :=
  ∀ c ∈ cs, ∀ owner ∈ c.owners, handled owner.marker = true → owner ∈ present cs

theorem missingOwner?_eq_none_iff {handled : Marker → Bool} {owners : List Owner}
    {c : Candidate} :
    c.missingOwner? handled owners = none ↔
      ∀ owner ∈ c.owners, handled owner.marker = true → owner ∈ owners := by
  simp [missingOwner?]

theorem missingOwner?_eq_some {handled : Marker → Bool} {owners : List Owner} {c : Candidate}
    {owner : Owner} (h : c.missingOwner? handled owners = some owner) :
    owner ∈ c.owners ∧ handled owner.marker = true ∧ owner ∉ owners := by
  have hmem := List.mem_of_find?_eq_some h
  have hmissing := List.find?_some h
  simp only [Bool.and_eq_true, Bool.not_eq_true', List.contains_eq_mem,
    decide_eq_false_iff_not] at hmissing
  exact ⟨hmem, hmissing.1, hmissing.2⟩

theorem prunePass_fst (handled : Marker → Bool) (owners : List Owner) (cs : List Candidate) :
    (prunePass handled owners cs).1 =
      cs.filter fun c => (c.missingOwner? handled owners).isNone := by
  induction cs with
  | nil => rfl
  | cons c rest ih =>
    cases h : c.missingOwner? handled owners with
    | none => simp [prunePass, h, ih]
    | some owner => simp [prunePass, h, ih]

def dropped (handled : Marker → Bool) (owners : List Owner) (cs : List Candidate) :
    List (Candidate × Owner) :=
  cs.filterMap fun c => (c.missingOwner? handled owners).map fun owner => (c, owner)

theorem prunePass_snd (handled : Marker → Bool) (owners : List Owner) (cs : List Candidate) :
    (prunePass handled owners cs).2 =
      (dropped handled owners cs).map fun d => d.1.dropWarning d.2 := by
  induction cs with
  | nil => rfl
  | cons c rest ih =>
    cases h : c.missingOwner? handled owners with
    | none => simpa [prunePass, dropped, h] using ih
    | some owner => simpa [prunePass, dropped, h] using ih

theorem of_mem_dropped {handled : Marker → Bool} {owners : List Owner} {cs : List Candidate}
    {d : Candidate × Owner} (h : d ∈ dropped handled owners cs) :
    d.2 ∈ d.1.owners ∧ handled d.2.marker = true ∧ d.2 ∉ owners := by
  obtain ⟨c, -, hc⟩ := List.mem_filterMap.1 h
  obtain ⟨owner, howner, rfl⟩ := Option.map_eq_some_iff.1 hc
  exact missingOwner?_eq_some howner

theorem perm_prunePass (handled : Marker → Bool) (owners : List Owner) (cs : List Candidate) :
    ((prunePass handled owners cs).1 ++ (dropped handled owners cs).map Prod.fst).Perm cs := by
  induction cs with
  | nil => simp [prunePass, dropped]
  | cons c rest ih =>
    rw [prunePass_fst] at ih ⊢
    cases h : c.missingOwner? handled owners with
    | none => simpa [dropped, h] using ih
    | some owner =>
      simp only [dropped, h, List.filter_cons, List.filterMap_cons, Option.isNone_some,
        Option.map_some, List.map_cons]
      exact List.perm_middle.trans (ih.cons c)

theorem sublist_prunePass (handled : Marker → Bool) (owners : List Owner)
    (cs : List Candidate) : (prunePass handled owners cs).1.Sublist cs := by
  rw [prunePass_fst]
  exact List.filter_sublist

theorem present_subset {cs ds : List Candidate} (h : cs.Sublist ds) :
    present cs ⊆ present ds :=
  (h.map _).subset

theorem sublist_prunePass_of_ownersPresent {handled : Marker → Bool} {s cs : List Candidate}
    (hsub : s.Sublist cs) (hs : OwnersPresent handled s) :
    s.Sublist (prunePass handled (present cs) cs).1 := by
  rw [prunePass_fst]
  have hkeep : ∀ c ∈ s, (c.missingOwner? handled (present cs)).isNone = true := by
    intro c hc
    rw [Option.isNone_iff_eq_none, missingOwner?_eq_none_iff]
    intro owner howner hhandled
    exact present_subset hsub (hs c hc owner howner hhandled)
  have hfilter : s.filter (fun c => (c.missingOwner? handled (present cs)).isNone) = s :=
    List.filter_eq_self.2 hkeep
  rw [← hfilter]
  exact hsub.filter _

theorem prunePass_stable {handled : Marker → Bool} {cs : List Candidate}
    (h : ¬ (prunePass handled (present cs) cs).1.length < cs.length) :
    prunePass handled (present cs) cs = (cs, []) ∧ OwnersPresent handled cs := by
  have hall : ∀ c ∈ cs, c.missingOwner? handled (present cs) = none := by
    rw [prunePass_fst] at h
    have hlen := List.length_filter_le
      (fun c : Candidate => (c.missingOwner? handled (present cs)).isNone) cs
    have heq := List.length_filter_eq_length_iff.1 (Nat.le_antisymm hlen (Nat.not_lt.1 h))
    intro c hc
    exact Option.isNone_iff_eq_none.1 (heq c hc)
  constructor
  · have hfst : (prunePass handled (present cs) cs).1 = cs := by
      rw [prunePass_fst]
      exact List.filter_eq_self.2 fun c hc => by rw [hall c hc]; rfl
    have hsnd : (prunePass handled (present cs) cs).2 = [] := by
      rw [prunePass_snd, List.map_eq_nil_iff, dropped, List.filterMap_eq_nil_iff]
      intro c hc
      rw [hall c hc]
      rfl
    exact Prod.ext hfst hsnd
  · intro c hc
    exact missingOwner?_eq_none_iff.1 (hall c hc)

theorem prune_of_lt {handled : Marker → Bool} {cs : List Candidate}
    (h : (prunePass handled (present cs) cs).1.length < cs.length) :
    prune handled cs = ((prune handled (prunePass handled (present cs) cs).1).1,
      (prunePass handled (present cs) cs).2 ++
        (prune handled (prunePass handled (present cs) cs).1).2) := by
  rw [prune, if_pos h]

theorem prune_of_not_lt {handled : Marker → Bool} {cs : List Candidate}
    (h : ¬ (prunePass handled (present cs) cs).1.length < cs.length) :
    prune handled cs = (cs, []) := by
  rw [prune, if_neg h, (prunePass_stable h).1]

theorem sublist_prune (handled : Marker → Bool) (cs : List Candidate) :
    (prune handled cs).1.Sublist cs := by
  induction cs using prune.induct handled with
  | case1 cs hlt ih =>
    rw [prune_of_lt hlt]
    exact ih.trans (sublist_prunePass handled (present cs) cs)
  | case2 cs hlt =>
    rw [prune_of_not_lt hlt]

theorem ownersPresent_prune (handled : Marker → Bool) (cs : List Candidate) :
    OwnersPresent handled (prune handled cs).1 := by
  induction cs using prune.induct handled with
  | case1 cs hlt ih =>
    rw [prune_of_lt hlt]
    exact ih
  | case2 cs hlt =>
    rw [prune_of_not_lt hlt]
    exact (prunePass_stable hlt).2

theorem sublist_prune_of_ownersPresent {handled : Marker → Bool} {s cs : List Candidate}
    (hsub : s.Sublist cs) (hs : OwnersPresent handled s) : s.Sublist (prune handled cs).1 := by
  induction cs using prune.induct handled with
  | case1 cs hlt ih =>
    rw [prune_of_lt hlt]
    exact ih (sublist_prunePass_of_ownersPresent hsub hs)
  | case2 cs hlt =>
    rw [prune_of_not_lt hlt]
    exact hsub

theorem mem_prune_iff {handled : Marker → Bool} {cs : List Candidate} {c : Candidate} :
    c ∈ (prune handled cs).1 ↔ c ∈ cs ∧
      ∀ owner ∈ c.owners, handled owner.marker = true → owner ∈ present (prune handled cs).1 := by
  constructor
  · intro hc
    exact ⟨(sublist_prune handled cs).subset hc, ownersPresent_prune handled cs c hc⟩
  · rintro ⟨hc, howners⟩
    classical
    -- What is left stays closed under owners when the candidate is added to it.
    let s := cs.filter fun d => d ∈ (prune handled cs).1 ∨ d = c
    have hpresent : present (prune handled cs).1 ⊆ present s := by
      intro owner howner
      obtain ⟨d, hd, rfl⟩ := List.mem_map.1 howner
      refine List.mem_map.2 ⟨d, List.mem_filter.2 ⟨(sublist_prune handled cs).subset hd, ?_⟩, rfl⟩
      exact decide_eq_true (Or.inl hd)
    have hclosed : OwnersPresent handled s := by
      intro d hd owner howner hhandled
      rcases of_decide_eq_true (List.mem_filter.1 hd).2 with hleft | rfl
      · exact hpresent (ownersPresent_prune handled cs d hleft owner howner hhandled)
      · exact hpresent (howners owner howner hhandled)
    refine (sublist_prune_of_ownersPresent List.filter_sublist hclosed).subset ?_
    exact List.mem_filter.2 ⟨hc, decide_eq_true (Or.inr rfl)⟩

/-- The warnings of pruning: each candidate is either left or has one warning, and the owner that
its warning names is missing in the end. -/
theorem exists_reasons_prune (handled : Marker → Bool) (cs : List Candidate) :
    ∃ reasons : List (Candidate × Owner),
      ((prune handled cs).1 ++ reasons.map Prod.fst).Perm cs ∧
      (prune handled cs).2 = (reasons.map fun r => r.1.dropWarning r.2) ∧
      ∀ r ∈ reasons, r.2 ∈ r.1.owners ∧ handled r.2.marker = true ∧
        r.2 ∉ present (prune handled cs).1 := by
  induction cs using prune.induct handled with
  | case1 cs hlt ih =>
    obtain ⟨reasons, hperm, hwarnings, hreasons⟩ := ih
    have hrest := sublist_prune handled (prunePass handled (present cs) cs).1
    rw [prune_of_lt hlt]
    refine ⟨dropped handled (present cs) cs ++ reasons, ?_, ?_, ?_⟩
    · have hpass := perm_prunePass handled (present cs) cs
      have hfirst := (hperm.append_right ((dropped handled (present cs) cs).map Prod.fst)).trans
        hpass
      rw [List.append_assoc] at hfirst
      rw [List.map_append]
      exact (List.perm_append_comm.append_left _).trans hfirst
    · rw [List.map_append, ← prunePass_snd, ← hwarnings]
    · intro r hr
      rcases List.mem_append.1 hr with hr | hr
      · -- What this pass misses stays missing, since later passes leave only part of its candidates.
        obtain ⟨howner, hhandled, hmissing⟩ := of_mem_dropped hr
        refine ⟨howner, hhandled, fun hpresent => hmissing ?_⟩
        exact present_subset (hrest.trans (sublist_prunePass handled (present cs) cs)) hpresent
      · exact hreasons r hr
  | case2 cs hlt =>
    rw [prune_of_not_lt hlt]
    exact ⟨[], by simp⟩

def anchors (c : Candidate) (w : Diagnostic) : Bool := w.location = some c.declaration.ref

theorem asOwner_eq_of_anchors {c d : Candidate} {owner : Owner}
    (h : c.anchors (d.dropWarning owner) = true) :
    d.declaration.asOwner = c.declaration.asOwner := by
  have hlocation : some d.declaration.ref = some c.declaration.ref := of_decide_eq_true h
  have href : d.declaration.ref = c.declaration.ref := Option.some.inj hlocation
  have hname := congrArg DeclarationRef.element href
  have hmarker := congrArg DeclarationRef.marker href
  exact congrArg₂ Owner.mk hname hmarker

theorem anchors_dropWarning (c : Candidate) (owner : Owner) :
    c.anchors (c.dropWarning owner) = true := by
  simp [anchors, dropWarning, Diagnostic.about]

/-- What is kept is the largest part of the candidates that is closed under owners. Each other
candidate has one warning, which names a missing owner, and no other warning is given. -/
structure LargestClosedPart (handled : Marker → Bool) (cs kept : List Candidate)
    (warnings : List Diagnostic) : Prop where
  sublist : kept.Sublist cs
  closed : OwnersPresent handled kept
  greatest : ∀ s : List Candidate, s.Sublist cs → OwnersPresent handled s → s.Sublist kept
  silent : ∀ c ∈ kept, warnings.filter c.anchors = []
  reported : ∀ c ∈ cs, c ∉ kept → ∃ owner ∈ c.owners, handled owner.marker = true ∧
    owner ∉ present kept ∧ warnings.filter c.anchors = [c.dropWarning owner]
  count : kept.length + warnings.length = cs.length

/-- Pruning candidates with distinct qualified names and markers leaves their largest closed part,
whatever the dependencies among them. -/
theorem largestClosedPart_prune (vs : List Validator) (cs : List Candidate)
    (distinct : (present cs).Nodup) :
    LargestClosedPart (Validator.handles vs) cs (prune (Validator.handles vs) cs).1
      (prune (Validator.handles vs) cs).2 := by
  obtain ⟨reasons, hperm, hwarnings, hreasons⟩ :=
    exists_reasons_prune (Validator.handles vs) cs
  -- Kept and dropped candidates together are all of them, so a warning is about one of them only.
  have hkeys : (present (prune (Validator.handles vs) cs).1 ++
      reasons.map fun r => r.1.declaration.asOwner).Nodup := by
    have hmap : (List.map (fun c => c.declaration.asOwner) cs).Nodup := distinct
    rwa [← (hperm.map _).nodup_iff, List.map_append, List.map_map] at hmap
  have hapart := (List.nodup_append.1 hkeys).2.2
  have hdistinct := (List.nodup_append.1 hkeys).2.1
  refine ⟨sublist_prune _ cs, ownersPresent_prune _ cs,
    fun s hsub hs => sublist_prune_of_ownersPresent hsub hs, ?_, ?_, ?_⟩
  · intro c hc
    rw [hwarnings, List.filter_eq_nil_iff]
    intro w hw hanchors
    obtain ⟨r, hr, rfl⟩ := List.mem_map.1 hw
    exact hapart _ (List.mem_map_of_mem hc) _ (List.mem_map_of_mem hr)
      (asOwner_eq_of_anchors hanchors).symm
  · intro c hc hdropped
    have hmem : c ∈ reasons.map Prod.fst := by
      rcases List.mem_append.1 (hperm.symm.subset hc) with hkept | hmem
      · exact absurd hkept hdropped
      · exact hmem
    obtain ⟨r, hr, rfl⟩ := List.mem_map.1 hmem
    obtain ⟨howner, hhandled, hmissing⟩ := hreasons r hr
    refine ⟨r.2, howner, hhandled, hmissing, ?_⟩
    have honly : reasons.filter (r.1.anchors ∘ fun r => r.1.dropWarning r.2) = [r] :=
      filter_eq_singleton hdistinct hr (anchors_dropWarning r.1 r.2)
        fun b hb => asOwner_eq_of_anchors hb
    rw [hwarnings, List.filter_map, honly]
    rfl
  · have hlength := hperm.length_eq
    rw [List.length_append, List.length_map] at hlength
    rw [hwarnings, List.length_map]
    exact hlength

private def orphans : List Candidate :=
  let member (name owner : String) (marker : Marker) (owners : List Owner) : Candidate :=
    ⟨⟨marker, ⟨.field, name, owner, none, [], [], [], [], []⟩, .empty⟩, owners⟩
  [member "title" "a.Main" .fromHtml [⟨"a.Main#title", .bindsView⟩],
    member "title" "a.Main" .bindsView [⟨"a.Main", .enhancedComponent⟩],
    ⟨⟨.enhancedComponent, ⟨.classType, "Home", "a", none, [], [], [], [], []⟩, .empty⟩, []⟩,
    member "size" "a.Home" .extra [⟨"a.Home", .enhancedComponent⟩, ⟨"a.Home", ⟨"audited"⟩⟩]]

private def watchers : List Validator :=
  [Marker.enhancedComponent, .bindsView].map fun kind => ⟨kind, "", false, fun _ => ⟨[], none⟩⟩

theorem largestClosedPart_prune_orphans :
    (present orphans).Nodup ∧
    LargestClosedPart (Validator.handles watchers) orphans
      (prune (Validator.handles watchers) orphans).1
      (prune (Validator.handles watchers) orphans).2 ∧
    present (prune (Validator.handles watchers) orphans).1 =
      [⟨"a.Home", .enhancedComponent⟩, ⟨"a.Home#size", .extra⟩] ∧
    (prune (Validator.handles watchers) orphans).2.map Diagnostic.message =
      ["@binds-view skipped: @enhanced-component a.Main was rejected",
        "@from-html skipped: @binds-view a.Main#title was rejected"] :=
  ⟨by decide, largestClosedPart_prune watchers orphans (by decide), by decide +kernel,
    by decide +kernel⟩

end Candidate

end ComponentGlue
