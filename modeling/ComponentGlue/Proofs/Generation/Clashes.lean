import ComponentGlue.Proofs.Generation.Signatures

/-!
Clashes among the methods of a generated type. Markers that override a method of a component exclude
each other, so two methods of the same signature come from a method of the host that looks like one that
is generated anyway, from a request beside another request or an override, or from a getter that is
declared twice.
-/

set_option autoImplicit false
set_option relaxedAutoImplicit false

namespace ComponentGlue

open StandardKind (schedule mem_schedule_iff)

section Fold

variable {sigs base : List Signature} {ms : List (StandardKind × Declaration)} {s : Signature}
  {x : StandardKind × Declaration}

theorem subset_addSignature : sigs ⊆ addSignature sigs x := by
  unfold addSignature
  split
  · exact List.Subset.refl _
  · split
    · exact List.Subset.refl _
    · exact List.subset_append_left _ _

theorem subset_foldl_addSignature : base ⊆ ms.foldl addSignature base := by
  induction ms generalizing base with
  | nil => exact List.Subset.refl _
  | cons x ms ih => exact List.Subset.trans subset_addSignature ih

theorem of_mem_addSignature (h : s ∈ addSignature sigs x) : s ∈ sigs ∨
    (x.1.signature? x.2 = some s ∧ (x.1.sharesMethod = true → ∀ s' ∈ sigs, s'.name ≠ s.name)) := by
  unfold addSignature at h
  split at h
  · exact Or.inl h
  · next s' hs' =>
    split at h
    · exact Or.inl h
    · next hnew =>
      rcases List.mem_append.1 h with h | h
      · exact Or.inl h
      · obtain rfl := List.mem_singleton.1 h
        refine Or.inr ⟨hs', fun hshares s' hs' hname => hnew ?_⟩
        rw [hshares, Bool.true_and, List.any_eq_true]
        exact ⟨s', hs', beq_iff_eq.2 hname⟩

theorem mem_addSignature (hsig : x.1.signature? x.2 = some s) (hshares : x.1.sharesMethod = false) :
    s ∈ addSignature sigs x := by
  simp [addSignature, hsig, hshares]

theorem exists_name_addSignature (hsig : x.1.signature? x.2 = some s) :
    ∃ s' ∈ addSignature sigs x, s'.name = s.name := by
  unfold addSignature
  rw [hsig]
  dsimp only
  split
  · next hfound =>
    obtain ⟨s', hs', hname⟩ := List.any_eq_true.1 (Bool.and_eq_true_iff.1 hfound).2
    exact ⟨s', hs', beq_iff_eq.1 hname⟩
  · exact ⟨s, List.mem_append_right _ (List.mem_singleton_self s), rfl⟩

theorem nodup_addSignature_iff : (addSignature sigs x).Nodup ↔ sigs.Nodup ∧
    (x.1.sharesMethod = false → ∀ s, x.1.signature? x.2 = some s → s ∉ sigs) := by
  cases hsig : x.1.signature? x.2 with
  | none => simp [addSignature, hsig]
  | some s =>
    cases hshares : x.1.sharesMethod with
    | false =>
      simp only [addSignature, hsig, hshares]
      grind
    | true =>
      by_cases hfound : (sigs.any fun s' => s'.name == s.name) = true
      · simp [addSignature, hsig, hshares, hfound]
      · have hnew : s ∉ sigs := fun hmem =>
          hfound (List.any_eq_true.2 ⟨s, hmem, beq_iff_eq.2 rfl⟩)
        simp only [addSignature, hsig, hshares]
        grind

theorem of_mem_foldl_addSignature (h : s ∈ ms.foldl addSignature base) : s ∈ base ∨
    ∃ x ∈ ms, x.1.signature? x.2 = some s ∧
      (x.1.sharesMethod = true → ∀ s' ∈ base, s'.name ≠ s.name) := by
  induction ms using List.reverseRecOn with
  | nil => exact Or.inl h
  | append_singleton ms x ih =>
    rw [List.foldl_append] at h
    rcases of_mem_addSignature h with h | ⟨hsig, hnew⟩
    · rcases ih h with h | ⟨y, hy, hsig⟩
      · exact Or.inl h
      · exact Or.inr ⟨y, List.mem_append_left _ hy, hsig⟩
    · refine Or.inr ⟨x, List.mem_append_right _ (List.mem_singleton_self x), hsig, ?_⟩
      exact fun hshares s' hs' => hnew hshares s' (subset_foldl_addSignature hs')

theorem mem_foldl_addSignature (hx : x ∈ ms) (hsig : x.1.signature? x.2 = some s)
    (hshares : x.1.sharesMethod = false) : s ∈ ms.foldl addSignature base := by
  obtain ⟨before, after, rfl⟩ := List.append_of_mem hx
  rw [List.foldl_append, List.foldl_cons]
  exact subset_foldl_addSignature (mem_addSignature hsig hshares)

theorem nodup_foldl_addSignature_iff : (ms.foldl addSignature base).Nodup ↔ base.Nodup ∧
    ∀ before x after s, ms = before ++ x :: after → x.1.sharesMethod = false →
      x.1.signature? x.2 = some s → s ∉ before.foldl addSignature base := by
  induction ms using List.reverseRecOn with
  | nil => simp
  | append_singleton ms x ih =>
    rw [List.foldl_append, List.foldl_cons, List.foldl_nil, nodup_addSignature_iff, ih]
    constructor
    · rintro ⟨⟨hbase, hbefore⟩, hlast⟩
      refine ⟨hbase, fun before y after s hsplit hshares hsig => ?_⟩
      rcases List.eq_nil_or_concat after with rfl | ⟨after, z, rfl⟩
      · obtain ⟨rfl, hxy⟩ := List.append_inj' hsplit rfl
        obtain rfl := List.singleton_inj.1 hxy
        exact hlast hshares s hsig
      · have hsplit' : ms ++ [x] = (before ++ y :: after) ++ [z] := by simpa using hsplit
        exact hbefore before y after s (List.append_inj' hsplit' rfl).1 hshares hsig
    · rintro ⟨hbase, hnew⟩
      refine ⟨⟨hbase, fun before y after s hsplit => ?_⟩, fun hshares s hsig => ?_⟩
      · exact hnew before y (after ++ [x]) s (by simp [hsplit])
      · exact hnew ms x [] s rfl hshares hsig

end Fold

namespace StandardKind

/-- The kind overrides a method of a component by one of the same signature. -/
def overrides : StandardKind → Bool
  | .thread _ | .transaction => true
  | _ => false

theorem items_lt_stage_of_overrides {k : StandardKind} (h : k.overrides = true) :
    .items < k.stage := by
  cases k
  case thread => exact (by decide : Stage.items < .threads)
  case transaction => exact (by decide : Stage.items < .others)
  all_goals cases h

theorem items_lt_stage_request (http : HttpMethod) : .items < (request http).stage :=
  (by decide : Stage.items < .others)

theorem cases_of_signature? {k : StandardKind} {d : Declaration} {s : Signature}
    (h : k.signature? d = some s) :
    (k = .optionsMenu ∧ s = (OptionsMenu.inflateMethod []).signature) ∨
    (k = .optionsItem ∧ s = OptionsItem.dispatchMethod.signature) ∨
    (k = .extra ∧ s = Extra.injectMethod.signature) ∨
    (k.overrides = true ∧ s = d.element.signature) ∨
    ∃ http, k = .request http ∧ s = d.element.signature := by
  cases k with
  | optionsMenu => exact Or.inl ⟨rfl, (Option.some.inj h).symm⟩
  | optionsItem => exact Or.inr (Or.inl ⟨rfl, (Option.some.inj h).symm⟩)
  | extra => exact Or.inr (Or.inr (Or.inl ⟨rfl, (Option.some.inj h).symm⟩))
  | thread _ | transaction =>
    exact Or.inr (Or.inr (Or.inr (Or.inl ⟨rfl, (Option.some.inj h).symm⟩)))
  | request http =>
    exact Or.inr (Or.inr (Or.inr (Or.inr ⟨http, rfl, (Option.some.inj h).symm⟩)))
  | _ => cases h

theorem cases_of_not_sharesMethod {k : StandardKind} {d : Declaration} {s : Signature}
    (h : k.signature? d = some s) (hshares : k.sharesMethod = false) :
    (k = .optionsMenu ∧ s = (OptionsMenu.inflateMethod []).signature) ∨
    (k.overrides = true ∧ s = d.element.signature) ∨
    ∃ http, k = .request http ∧ s = d.element.signature := by
  rcases cases_of_signature? h with hmenu | ⟨rfl, -⟩ | ⟨rfl, -⟩ | hover | hrequest
  · exact Or.inl hmenu
  · cases hshares
  · cases hshares
  · exact Or.inr (Or.inl hover)
  · exact Or.inr (Or.inr hrequest)

theorem of_overrides {k : StandardKind} (h : k.overrides = true) (d : Declaration) :
    k.signature? d = some d.element.signature ∧ k.sharesMethod = false ∧
      k.holder? d = some (.component d.element.owner) := by
  cases k
  case thread | transaction => exact ⟨rfl, rfl, rfl⟩
  all_goals cases h

theorem mem_excludes_of_overrides {k l : StandardKind} (hk : k.overrides = true)
    (hl : l.overrides = true) (hne : k ≠ l) (s : Subject) :
    (⟨s.declaration.qualifiedName, l.marker⟩ : Owner) ∈ (k.requirement s).excludes := by
  cases k
  case thread k =>
    cases l
    case thread l =>
      obtain rfl : l = k.opposite := by
        cases k
        case ui => cases l with
          | ui => exact absurd rfl hne
          | background => rfl
        case background => cases l with
          | ui => rfl
          | background => exact absurd rfl hne
      exact List.mem_cons_self
    case transaction => exact List.mem_cons_of_mem _ List.mem_cons_self
    all_goals cases hl
  case transaction =>
    cases l
    case thread l =>
      have hmem : l ∈ ThreadKind.all := by cases l <;> simp [ThreadKind.all]
      exact List.mem_map_of_mem hmem
    case transaction => exact absurd rfl hne
    all_goals cases hl
  all_goals cases hk

end StandardKind

theorem ValidationContext.isAnnotated_of_overrides {c : ValidationContext} {k l : StandardKind}
    {d : Declaration} (haccepts : c.Accepts k d) (hk : k.overrides = true) (hl : l.overrides = true)
    (hne : k ≠ l) : c.extracted.isAnnotated d.qualifiedName l.marker = false :=
  haccepts.fits.met.excludes _ (StandardKind.mem_excludes_of_overrides hk hl hne ⟨c, d⟩)

def Signature.first? (s : Signature) : Option String := s.types.head?.map TypeRef.text

theorem first?_of_transaction {c : ValidationContext} {d : Declaration}
    (h : c.Accepts .transaction d) : d.element.signature.first? = some Transaction.database ∨
      d.element.signature.first? = some "SQLiteDatabase" := by
  obtain ⟨-, -, -, type, htype, hmatches⟩ := h.fits.met.own
  have hfirst : d.element.signature.first? = some (TypeRef.parse type).text := by
    have hhead : (d.element.params.map Param.type).head? = some type := htype
    rw [List.head?_map, Option.map_eq_some_iff] at hhead
    obtain ⟨p, hp, rfl⟩ := hhead
    simp [Signature.first?, Element.signature, List.head?_map, hp]
  rw [hfirst]
  have hname : type = Transaction.database ∨ type = "SQLiteDatabase" := by
    simpa [typeMatches, show simpleName Transaction.database = "SQLiteDatabase" by decide]
      using hmatches
  rcases hname with rfl | rfl
  · exact Or.inl (congrArg some (by decide +kernel))
  · exact Or.inr (congrArg some (by decide +kernel))

theorem first?_of_mem_ownSignatures {m : DeclarationModel} {origin : String} {s : Signature}
    (h : s ∈ m.ownSignatures origin) : s.first? = none ∨ s.first? = some "android.os.Bundle" := by
  unfold DeclarationModel.ownSignatures at h
  split at h
  · next x _ =>
    obtain ⟨k, d⟩ := x
    cases k with
    | component =>
      rw [List.mem_singleton.1 h]
      exact Or.inr rfl
    | preferenceHelper =>
      obtain ⟨sig, -, rfl⟩ := List.mem_map.1 h
      exact Or.inl rfl
    | _ => cases h
  · cases h

namespace DeclarationModel

/-- A method of this signature is generated for the origin, whatever methods its host has: one that its
type has when it is put, the one that inflates its menu, or the one that dispatches its menu items. -/
def Generates (m : DeclarationModel) (origin : String) (s : Signature) : Prop :=
  s ∈ m.ownSignatures origin ∨
  (m.isAnnotated origin .optionsMenu = true ∧ s = (OptionsMenu.inflateMethod []).signature) ∨
  ((∃ d ∈ m.declarations .optionsItem, d.element.owner = origin) ∧
    s = OptionsItem.dispatchMethod.signature ∧ ∀ s' ∈ m.ownSignatures origin, s'.name ≠ s.name)

/-- No two declarations give the type of the origin a method of the same signature. -/
structure Unambiguous (m : DeclarationModel) (origin : String) : Prop where
  /-- No getter of a preference interface is declared twice. -/
  getters : (m.ownSignatures origin).Nodup
  /-- No method on a thread looks like a method that is generated anyway. -/
  threads : ∀ k : ThreadKind, ∀ d ∈ m.declarations k.marker, d.element.owner = origin →
    ¬ m.Generates origin d.element.signature
  /-- No request looks like a method that is generated anyway. -/
  requests : ∀ http : HttpMethod, ∀ d ∈ m.declarations http.marker, d.element.owner = origin →
    ¬ m.Generates origin d.element.signature
  /-- No request looks like a method of a component of the same name that is overridden. -/
  overrides : ∀ http : HttpMethod, ∀ d ∈ m.declarations http.marker, d.element.owner = origin →
    ∀ k : StandardKind, k.overrides = true → ∀ e ∈ m.declarations k.marker,
      e.element.owner = origin → d.element.signature ≠ e.element.signature
  /-- No method carries two request markers. -/
  repeated : ∀ http : HttpMethod, ∀ d ∈ m.declarations http.marker, d.element.owner = origin →
    ∀ http' : HttpMethod, ∀ d' ∈ m.declarations http'.marker, d'.element.owner = origin →
      d.element.signature = d'.element.signature → http = http'

end DeclarationModel

section Members

variable {m : DeclarationModel} {origin : String} {x y : StandardKind × Declaration}
  {before after : List (StandardKind × Declaration)} {s : Signature}

theorem stage_le_of_members (hsplit : m.members origin = before ++ x :: after) (hy : y ∈ before) :
    y.1.stage ≤ x.1.stage := by
  have hpairs : (m.members origin).Pairwise fun x y => x.1.stage ≤ y.1.stage :=
    (StandardKind.pairwise_schedule m).filter _
  rw [hsplit, List.pairwise_append] at hpairs
  exact hpairs.2.2 y hy x List.mem_cons_self

theorem owner_of_mem_members (hx : x ∈ m.members origin) (hoverrides : x.1.overrides = true) :
    x.2.element.owner = origin := by
  obtain ⟨-, h, hholder, horigin⟩ := mem_members_iff.1 hx
  rw [(StandardKind.of_overrides hoverrides x.2).2.2] at hholder
  cases hholder
  exact horigin

theorem owner_of_mem_members_request {http : HttpMethod} (hx : x ∈ m.members origin)
    (hkind : x.1 = .request http) : x.2.element.owner = origin := by
  obtain ⟨-, h, hholder, horigin⟩ := mem_members_iff.1 hx
  rw [hkind] at hholder
  cases hholder
  exact horigin

theorem qualifiedName_of_mem_members (hx : x ∈ m.members origin) (hkind : x.1 = .optionsMenu) :
    x.2.qualifiedName = origin := by
  obtain ⟨-, h, hholder, horigin⟩ := mem_members_iff.1 hx
  rw [hkind] at hholder
  cases hholder
  exact horigin

theorem of_mem_members_item (hx : x ∈ m.members origin) (hkind : x.1 = .optionsItem) :
    x.2 ∈ m.declarations .optionsItem ∧ x.2.element.owner = origin := by
  obtain ⟨hmem, h, hholder, horigin⟩ := mem_members_iff.1 hx
  rw [hkind] at hmem hholder
  cases hholder
  exact ⟨hmem, horigin⟩

theorem isAnnotated_of_mem_members (hx : x ∈ m.members origin) (hkind : x.1 = .optionsMenu) :
    m.isAnnotated origin .optionsMenu = true := by
  obtain ⟨hmem, h, hholder, horigin⟩ := mem_members_iff.1 hx
  rw [hkind] at hmem hholder
  cases hholder
  exact DeclarationModel.isAnnotated_iff.2 ⟨x.2, hmem, horigin⟩

theorem mem_members_of_overrides {k : StandardKind} {d : Declaration} (hk : k.overrides = true)
    (hd : d ∈ m.declarations k.marker) : (k, d) ∈ m.members d.element.owner :=
  mem_members_iff.2 ⟨hd, _, (StandardKind.of_overrides hk d).2.2, rfl⟩

theorem mem_members_of_request {http : HttpMethod} {d : Declaration}
    (hd : d ∈ m.declarations http.marker) : (.request http, d) ∈ m.members d.element.owner :=
  mem_members_iff.2 ⟨hd, _, rfl, rfl⟩

section Nodup

variable (hnodup : (m.signatures origin).Nodup)
include hnodup

theorem notMem_ownSignatures_of_nodup (hx : x ∈ m.members origin)
    (hsig : x.1.signature? x.2 = some s) (hshares : x.1.sharesMethod = false) :
    s ∉ m.ownSignatures origin := by
  obtain ⟨before, after, hsplit⟩ := List.append_of_mem hx
  intro hown
  exact (nodup_foldl_addSignature_iff.1 hnodup).2 before x after s hsplit hshares hsig
    (subset_foldl_addSignature hown)

theorem eq_of_nodup_signatures (hx : x ∈ m.members origin) (hy : y ∈ m.members origin)
    (hsigx : x.1.signature? x.2 = some s) (hsigy : y.1.signature? y.2 = some s)
    (hsharesx : x.1.sharesMethod = false) (hsharesy : y.1.sharesMethod = false) : x = y := by
  have hnew := (nodup_foldl_addSignature_iff.1 hnodup).2
  obtain ⟨before, after, hsplit⟩ := List.append_of_mem hx
  rw [hsplit, List.mem_append, List.mem_cons] at hy
  rcases hy with hy | rfl | hy
  · exact absurd (mem_foldl_addSignature hy hsigy hsharesy)
      (hnew before x after s hsplit hsharesx hsigx)
  · rfl
  · obtain ⟨front, back, rfl⟩ := List.append_of_mem hy
    have hsplit' : m.members origin = (before ++ x :: front) ++ y :: back := by simp [hsplit]
    have hmem : x ∈ before ++ x :: front := List.mem_append_right _ List.mem_cons_self
    exact absurd (mem_foldl_addSignature hmem hsigx hsharesx)
      (hnew _ y back s hsplit' hsharesy hsigy)

/-- The dispatch of menu items is there before a method of the host is overridden. -/
theorem ne_dispatch_of_nodup (hx : x ∈ m.members origin) (hsig : x.1.signature? x.2 = some s)
    (hshares : x.1.sharesMethod = false) (hlate : .items < x.1.stage)
    (hy : y ∈ m.members origin)
    (hitem : y.1 = .optionsItem) (hnew : ∀ s' ∈ m.ownSignatures origin, s'.name ≠ s.name) :
    s ≠ OptionsItem.dispatchMethod.signature := by
  rintro rfl
  obtain ⟨before, after, hsplit⟩ := List.append_of_mem hy
  have hsigy : y.1.signature? y.2 = some OptionsItem.dispatchMethod.signature := by
    rw [hitem]
    rfl
  -- After the first item there is a method of that name, and what comes before items has another one.
  have hdispatch : OptionsItem.dispatchMethod.signature ∈
      (before ++ [y]).foldl addSignature (m.ownSignatures origin) := by
    obtain ⟨s', hs', hname⟩ : ∃ s' ∈ addSignature (before.foldl addSignature
        (m.ownSignatures origin)) y, s'.name = OptionsItem.dispatchMethod.signature.name :=
      exists_name_addSignature hsigy
    have hs'' : s' ∈ (before ++ [y]).foldl addSignature (m.ownSignatures origin) := by
      rw [List.foldl_append]
      exact hs'
    rcases of_mem_foldl_addSignature hs'' with hown | ⟨z, hz, hsigz, -⟩
    · exact absurd hname (hnew s' hown)
    have hle : z.1.stage ≤ y.1.stage := by
      rcases List.mem_append.1 hz with hz | hz
      · exact stage_le_of_members hsplit hz
      · exact le_of_eq (by rw [List.mem_singleton.1 hz])
    rw [hitem] at hle
    rcases StandardKind.cases_of_signature? hsigz with ⟨-, rfl⟩ | ⟨-, rfl⟩ | ⟨-, rfl⟩ |
      ⟨hover, -⟩ | ⟨http, hz, -⟩
    · exact absurd hname (by decide)
    · exact hs''
    · exact absurd hname (by decide)
    · exact absurd hle (not_le_of_gt (StandardKind.items_lt_stage_of_overrides hover))
    · rw [hz] at hle
      exact absurd hle (not_le_of_gt (StandardKind.items_lt_stage_request http))
  have hmem := hx
  rw [hsplit, List.mem_append, List.mem_cons] at hmem
  rcases hmem with hmem | rfl | hmem
  · have hle := stage_le_of_members hsplit hmem
    rw [hitem] at hle
    exact absurd hle (not_le_of_gt hlate)
  · rw [hitem] at hshares
    cases hshares
  · obtain ⟨front, back, rfl⟩ := List.append_of_mem hmem
    have hsplit' : m.members origin = (before ++ [y] ++ front) ++ x :: back := by simp [hsplit]
    refine (nodup_foldl_addSignature_iff.1 hnodup).2 _ x back _ hsplit' hshares hsig ?_
    rw [List.foldl_append]
    exact subset_foldl_addSignature hdispatch

theorem not_generates_of_nodup (hx : x ∈ m.members origin) (hsig : x.1.signature? x.2 = some s)
    (hshares : x.1.sharesMethod = false) (hlate : .items < x.1.stage) :
    ¬ m.Generates origin s := by
  rintro (hown | ⟨hmenu, hs⟩ | ⟨⟨d, hd, howner⟩, hs, hnew⟩)
  · exact notMem_ownSignatures_of_nodup hnodup hx hsig hshares hown
  · obtain ⟨d, hd, hname⟩ := DeclarationModel.isAnnotated_iff.1 hmenu
    have hy : (StandardKind.optionsMenu, d) ∈ m.members origin :=
      mem_members_iff.2 ⟨hd, _, rfl, hname⟩
    obtain rfl := eq_of_nodup_signatures hnodup hx hy hsig (hs ▸ rfl) hshares rfl
    exact absurd hlate (by decide : ¬ Stage.items < .menus)
  · have hy : (StandardKind.optionsItem, d) ∈ m.members origin :=
      mem_members_iff.2 ⟨hd, _, rfl, howner⟩
    exact ne_dispatch_of_nodup hnodup hx hsig hshares hlate hy rfl hnew hs

theorem unambiguous_of_nodup : m.Unambiguous origin where
  getters := (nodup_foldl_addSignature_iff.1 hnodup).1
  threads k d hd howner := by
    have hx : (StandardKind.thread k, d) ∈ m.members origin :=
      howner ▸ mem_members_of_overrides rfl hd
    exact not_generates_of_nodup hnodup hx rfl rfl (StandardKind.items_lt_stage_of_overrides rfl)
  requests http d hd howner := by
    have hx : (StandardKind.request http, d) ∈ m.members origin :=
      howner ▸ mem_members_of_request hd
    exact not_generates_of_nodup hnodup hx rfl rfl
      (StandardKind.items_lt_stage_request http)
  overrides http d hd howner k hk e he howner' := by
    intro hsame
    have hx : (StandardKind.request http, d) ∈ m.members origin :=
      howner ▸ mem_members_of_request hd
    have hy : (k, e) ∈ m.members origin := howner' ▸ mem_members_of_overrides hk he
    obtain ⟨hsig, hshares, -⟩ := StandardKind.of_overrides hk e
    have heq := eq_of_nodup_signatures hnodup hx hy (congrArg some hsame) hsig rfl hshares
    obtain rfl : StandardKind.request http = k := congrArg Prod.fst heq
    cases hk
  repeated http d hd howner http' d' hd' howner' hsame := by
    have hx : (StandardKind.request http, d) ∈ m.members origin :=
      howner ▸ mem_members_of_request hd
    have hy : (StandardKind.request http', d') ∈ m.members origin :=
      howner' ▸ mem_members_of_request hd'
    have heq := eq_of_nodup_signatures hnodup hx hy (congrArg some hsame) rfl rfl rfl
    exact StandardKind.request.inj (congrArg Prod.fst heq)

end Nodup

end Members

namespace StandardRun

variable (run : StandardRun) {origin : String} {x y : StandardKind × Declaration} {s : Signature}

theorem eq_of_qualifiedName_eq (hx : x ∈ run.accepted.members origin)
    (hy : y ∈ run.accepted.members origin) (hkind : x.1 = y.1)
    (hname : x.2.qualifiedName = y.2.qualifiedName) : x = y := by
  have hx' := (mem_members_iff.1 hx).1
  rw [hkind] at hx'
  exact Prod.ext hkind
    (run.grouped_accepted.eq_of_qualifiedName_eq hx' (mem_members_iff.1 hy).1 hname)

theorem qualifiedName_of_request {http : HttpMethod} {d : Declaration}
    (hx : (.request http, d) ∈ run.accepted.members origin) :
    d.qualifiedName = origin ++ "#" ++ d.element.name := by
  have hmethod : d.element.kind = .method := (run.accepts_of_mem_members hx).fits.met.own.1
  rw [← owner_of_mem_members_request hx rfl]
  show d.element.qualifiedName = _
  rw [Element.qualifiedName, hmethod]
  rfl

theorem eq_of_overrides (hx : x ∈ run.accepted.members origin)
    (hy : y ∈ run.accepted.members origin) (hx' : x.1.overrides = true)
    (hy' : y.1.overrides = true) (hname : x.2.element.name = y.2.element.name) : x = y := by
  have hqualified : ∀ {z}, z ∈ run.accepted.members origin → z.1.overrides = true →
      z.2.qualifiedName = origin ++ "#" ++ z.2.element.name := by
    rintro ⟨k, d⟩ hz hz'
    have howner := owner_of_mem_members hz hz'
    have hown := (run.accepts_of_mem_members hz).fits.met.own
    have hmethod : d.element.kind = .method := by
      cases k
      case thread => exact hown.1.1
      case transaction => exact hown.1.1
      all_goals cases hz'
    rw [← howner]
    show d.element.qualifiedName = _
    rw [Element.qualifiedName, hmethod]
    rfl
  have hsame : x.2.qualifiedName = y.2.qualifiedName := by
    rw [hqualified hx hx', hqualified hy hy', hname]
  by_cases hkind : x.1 = y.1
  · exact run.eq_of_qualifiedName_eq hx hy hkind hsame
  · have hfree := ValidationContext.isAnnotated_of_overrides (run.accepts_of_mem_members hx) hx' hy'
      hkind
    have hmarked : run.context.extracted.isAnnotated x.2.qualifiedName y.1.marker = true :=
      DeclarationModel.isAnnotated_iff.2
        ⟨y.2, (run.accepts_of_mem_members hy).extracted, hsame.symm⟩
    exact absurd hmarked (Bool.eq_false_iff.1 hfree)

theorem of_mem_members_request {http : HttpMethod} (hx : x ∈ run.accepted.members origin)
    (hkind : x.1 = .request http) : run.accepted.ownSignatures origin = [] ∧
      ∀ y ∈ run.accepted.members origin, y.1 ≠ .extra := by
  have howner := owner_of_mem_members_request hx hkind
  have hneeded := (run.accepts_of_mem_members hx).owners ⟨origin, .rest⟩ (by
    rw [hkind, ← howner]
    exact List.mem_singleton_self _)
  rw [← run.accepted_eq] at hneeded
  obtain ⟨d, hd, rfl⟩ := DeclarationModel.isAnnotated_iff.1 hneeded
  constructor
  · rw [DeclarationModel.ownSignatures, lastPut_of_rest run.grouped_accepted hd]
    rfl
  · rintro ⟨k, e⟩ hy rfl
    obtain ⟨he, h, hholder, horigin⟩ := mem_members_iff.1 hy
    cases hholder
    refine (run.generable .extra e he).kept rfl (Or.inr ?_)
    rw [show e.element.owner = d.qualifiedName from horigin]
    exact hneeded

theorem signature_ne_injectMethod {before after : List (StandardKind × Declaration)}
    (hsplit : run.accepted.members origin = before ++ x :: after) (hover : x.1.overrides = true)
    (hy : y ∈ before) (hextra : y.1 = .extra) :
    x.2.element.signature ≠ Extra.injectMethod.signature := by
  intro hs
  have hx : x ∈ run.accepted.members origin := hsplit ▸ List.mem_append_right _ List.mem_cons_self
  have hle := stage_le_of_members hsplit hy
  rw [hextra] at hle
  obtain ⟨k, d⟩ := x
  cases k
  case thread => exact absurd hle (by decide : ¬ Stage.extras ≤ .threads)
  case transaction =>
    have hfirst := first?_of_transaction (run.accepts_of_mem_members hx)
    have hnone : d.element.signature.first? = none := congrArg _ hs
    exact absurd (hnone ▸ hfirst) (by decide)
  all_goals cases hover

section Unambiguous

variable (hclear : run.accepted.Unambiguous origin)
include hclear

theorem not_generates (hx : x ∈ run.accepted.members origin)
    (hkind : x.1.overrides = true ∨ ∃ http, x.1 = .request http) :
    ¬ run.accepted.Generates origin x.2.element.signature := by
  obtain ⟨k, d⟩ := x
  have hd := (mem_members_iff.1 hx).1
  rcases hkind with hover | ⟨http, rfl⟩
  · have howner := owner_of_mem_members hx hover
    cases k
    case thread k => exact hclear.threads k d hd howner
    case transaction =>
      -- What is generated anyway takes nothing first, or something else than a database.
      have hfirst := first?_of_transaction (run.accepts_of_mem_members hx)
      rintro (hown | ⟨-, hs⟩ | ⟨-, hs, -⟩)
      · rcases first?_of_mem_ownSignatures hown with h | h <;>
          exact absurd (h ▸ hfirst) (by decide)
      · have h : d.element.signature.first? = some "android.view.Menu" := congrArg _ hs
        exact absurd (h ▸ hfirst) (by decide)
      · have h : d.element.signature.first? = some OptionsItem.menuItem := congrArg _ hs
        exact absurd (h ▸ hfirst) (by decide)
    all_goals cases hover
  · exact hclear.requests http d hd (owner_of_mem_members_request hx rfl)

theorem signature_ne_menu (hx : x ∈ run.accepted.members origin)
    (hkind : x.1.overrides = true ∨ ∃ http, x.1 = .request http)
    (hy : y ∈ run.accepted.members origin) (hmenu : y.1 = .optionsMenu) :
    x.2.element.signature ≠ (OptionsMenu.inflateMethod []).signature := fun hs =>
  run.not_generates hclear hx hkind (Or.inr (Or.inl ⟨isAnnotated_of_mem_members hy hmenu, hs⟩))

theorem signature_ne_request (hx : x ∈ run.accepted.members origin) (hover : x.1.overrides = true)
    (hy : y ∈ run.accepted.members origin) {http : HttpMethod} (hrequest : y.1 = .request http) :
    x.2.element.signature ≠ y.2.element.signature := by
  obtain ⟨k, d⟩ := y
  obtain rfl : k = .request http := hrequest
  exact (hclear.overrides http d (mem_members_iff.1 hy).1 (owner_of_mem_members_request hy rfl)
    x.1 hover x.2 (mem_members_iff.1 hx).1 (owner_of_mem_members hx hover)).symm

/-- Members that add a method each, of the same signature, are the same. -/
theorem eq_of_signature?_eq (hx : x ∈ run.accepted.members origin)
    (hy : y ∈ run.accepted.members origin) (hsigx : x.1.signature? x.2 = some s)
    (hsigy : y.1.signature? y.2 = some s) (hsharesx : x.1.sharesMethod = false)
    (hsharesy : y.1.sharesMethod = false) : x = y := by
  rcases StandardKind.cases_of_not_sharesMethod hsigx hsharesx with ⟨hkx, hsx⟩ | ⟨hkx, hsx⟩ |
    ⟨http, hkx, hsx⟩
  · rcases StandardKind.cases_of_not_sharesMethod hsigy hsharesy with ⟨hky, hsy⟩ | ⟨hky, hsy⟩ |
      ⟨http, hky, hsy⟩
    · exact run.eq_of_qualifiedName_eq hx hy (hkx.trans hky.symm)
        ((qualifiedName_of_mem_members hx hkx).trans (qualifiedName_of_mem_members hy hky).symm)
    · exact absurd (hsy.symm.trans hsx) (run.signature_ne_menu hclear hy (Or.inl hky) hx hkx)
    · exact absurd (hsy.symm.trans hsx)
        (run.signature_ne_menu hclear hy (Or.inr ⟨http, hky⟩) hx hkx)
  · rcases StandardKind.cases_of_not_sharesMethod hsigy hsharesy with ⟨hky, hsy⟩ | ⟨hky, hsy⟩ |
      ⟨http, hky, hsy⟩
    · exact absurd (hsx.symm.trans hsy) (run.signature_ne_menu hclear hx (Or.inl hkx) hy hky)
    · exact run.eq_of_overrides hx hy hkx hky (congrArg Signature.name (hsx.symm.trans hsy))
    · exact absurd (hsx.symm.trans hsy) (run.signature_ne_request hclear hx hkx hy hky)
  · rcases StandardKind.cases_of_not_sharesMethod hsigy hsharesy with ⟨hky, hsy⟩ | ⟨hky, hsy⟩ |
      ⟨http', hky, hsy⟩
    · exact absurd (hsx.symm.trans hsy)
        (run.signature_ne_menu hclear hx (Or.inr ⟨http, hkx⟩) hy hky)
    · exact absurd (hsy.symm.trans hsx) (run.signature_ne_request hclear hy hky hx hkx)
    · obtain ⟨k, d⟩ := x
      obtain ⟨k', d'⟩ := y
      obtain rfl : k = .request http := hkx
      obtain rfl : k' = .request http' := hky
      have hsame : d.element.signature = d'.element.signature := hsx.symm.trans hsy
      obtain rfl := hclear.repeated http d (mem_members_iff.1 hx).1
        (owner_of_mem_members_request hx rfl) http' d' (mem_members_iff.1 hy).1
        (owner_of_mem_members_request hy rfl) hsame
      have hname : d.element.name = d'.element.name := congrArg Signature.name hsame
      refine run.eq_of_qualifiedName_eq hx hy rfl ?_
      rw [run.qualifiedName_of_request hx, run.qualifiedName_of_request hy, hname]

theorem nodup_of_unambiguous : (run.accepted.signatures origin).Nodup := by
  refine nodup_foldl_addSignature_iff.2 ⟨hclear.getters, ?_⟩
  intro before x after s hsplit hshares hsig hmem
  have hx : x ∈ run.accepted.members origin := hsplit ▸ List.mem_append_right _ List.mem_cons_self
  have hbefore : ∀ {y}, y ∈ before → y ∈ run.accepted.members origin := fun hy =>
    hsplit ▸ List.mem_append_left _ hy
  have hgenerates : (x.1.overrides = true ∧ s = x.2.element.signature) ∨
      (∃ http, x.1 = .request http ∧ s = x.2.element.signature) →
      ¬ run.accepted.Generates origin s := by
    rintro (⟨hkx, hsx⟩ | ⟨http, hkx, hsx⟩)
    · exact hsx ▸ run.not_generates hclear hx (Or.inl hkx)
    · exact hsx ▸ run.not_generates hclear hx (Or.inr ⟨http, hkx⟩)
  -- A method that is not shared is that of the menu, an override or a request.
  have hkinds := StandardKind.cases_of_not_sharesMethod hsig hshares
  rcases of_mem_foldl_addSignature hmem with hown | ⟨y, hy, hsigy, hnew⟩
  · rcases hkinds with ⟨-, hs⟩ | hkinds
    · have hfirst : s.first? = some "android.view.Menu" := congrArg _ hs
      rcases first?_of_mem_ownSignatures hown with h | h <;>
        exact absurd (h.symm.trans hfirst) (by decide)
    · exact hgenerates hkinds (Or.inl hown)
  cases hsharesy : y.1.sharesMethod with
  | false =>
    obtain rfl := run.eq_of_signature?_eq hclear hx (hbefore hy) hsig hsigy hshares hsharesy
    have hnodup := nodup_members run.grouped_accepted origin
    rw [hsplit, List.nodup_append] at hnodup
    exact hnodup.2.2 x hy x List.mem_cons_self rfl
  | true =>
    rcases StandardKind.cases_of_signature? hsigy with ⟨hky, -⟩ | ⟨hky, hs⟩ | ⟨hky, hs⟩ |
      ⟨hky, -⟩ | ⟨http, hky, -⟩
    · rw [hky] at hsharesy
      cases hsharesy
    · rcases hkinds with ⟨-, hs'⟩ | hkinds
      · exact absurd (congrArg Signature.name (hs.symm.trans hs')) (by decide)
      · refine hgenerates hkinds (Or.inr (Or.inr ⟨⟨y.2, ?_⟩, hs, hnew hsharesy⟩))
        exact of_mem_members_item (hbefore hy) hky
    · rcases hkinds with ⟨-, hs'⟩ | ⟨hkx, hsx⟩ | ⟨http, hkx, -⟩
      · exact absurd (congrArg Signature.name (hs.symm.trans hs')) (by decide)
      · exact run.signature_ne_injectMethod hsplit hkx hy hky (hsx.symm.trans hs)
      · exact (run.of_mem_members_request hx hkx).2 y (hbefore hy) hky
    · rw [(StandardKind.of_overrides hky y.2).2.1] at hsharesy
      cases hsharesy
    · rw [hky] at hsharesy
      cases hsharesy

end Unambiguous

/-- The methods of a generated type have different signatures exactly when the declarations on its origin
are unambiguous: markers that override a method of a component exclude each other, but request markers do
not, and nothing keeps a method of the host apart from those that are generated anyway. -/
theorem nodup_signatures_iff {t : GeneratedType} (ht : t ∈ run.model.typeList) :
    (t.methods.map Method.signature).Nodup ↔ run.accepted.Unambiguous t.origin := by
  have hsigs : t.methods.map Method.signature = run.accepted.signatures t.origin :=
    run.signatures_of_mem ht
  rw [hsigs]
  exact ⟨unambiguous_of_nodup, run.nodup_of_unambiguous⟩

end StandardRun

private def requestBatches (markers : List HttpMethod) : List (Marker × List RawDeclaration) :=
  [(.rest, [⟨⟨.interfaceType, "Api", "a", none, [], [], [], [], [⟨"all", [], none⟩]⟩, .empty⟩]),
    (.enhancedComponent, [⟨⟨.classType, "Main", "a", none, [], [], [], [], []⟩, .empty⟩]),
    (ThreadKind.ui.marker, [⟨⟨.method, "load", "a.Main", none, [], [], [], [], []⟩, .empty⟩])] ++
  markers.map fun http => (http.marker,
    [⟨⟨.method, "all", "a.Api", none, [], [], [], [], []⟩, .ofList [("url", .str "/all")]⟩])

private def requestRun (markers : List HttpMethod) : Except Interruption StandardRun :=
  StandardRun.ofHost (requestBatches markers) (.ok []) (.ok []) (.new "a")

private def methodNames (run : StandardRun) : List (String × List (String × Nat)) :=
  run.model.typeList.map fun t => (t.name, t.methods.map fun m => (m.name, m.params.length))

private theorem exists_requestRun (markers : List HttpMethod)
    (names : List (String × List (String × Nat)))
    (h : (requestRun markers).toOption.map methodNames = some names) :
    ∃ run, requestRun markers = .ok run ∧ methodNames run = names :=
  exists_ok_of_map_toOption h

/-- A method that is marked as two requests is generated twice. -/
theorem StandardRun.not_nodup_signatures_twice : ∃ run, requestRun [.get, .post] = .ok run ∧
    methodNames run = [("a.Main_", [("onCreate", 1), ("load", 0)]),
      ("a.Api_", [("all", 0), ("all", 0)])] ∧
    ∃ t ∈ run.model.typeList, ¬ (t.methods.map Method.signature).Nodup := by
  obtain ⟨run, hrun, hnames⟩ := exists_requestRun [.get, .post]
    [("a.Main_", [("onCreate", 1), ("load", 0)]), ("a.Api_", [("all", 0), ("all", 0)])]
    (by decide +kernel)
  refine ⟨run, hrun, hnames, ?_⟩
  have hclient : ("a.Api_", [("all", 0), ("all", 0)]) ∈ methodNames run := by simp [hnames]
  obtain ⟨t, ht, hparts⟩ := List.mem_map.1 hclient
  have hmethods : t.methods.map (fun m => (m.name, m.params.length)) = [("all", 0), ("all", 0)] :=
    congrArg Prod.snd hparts
  refine ⟨t, ht, fun hnodup => ?_⟩
  -- The number of parameters decides, since there are none.
  have hsame : ∀ m : Method, (m.name, m.params.length) = ("all", 0) → m.signature = ⟨"all", []⟩ := by
    intro m hm
    have hparams : m.params = [] := List.length_eq_zero_iff.1 (congrArg Prod.snd hm)
    have hname : m.name = "all" := congrArg Prod.fst hm
    simp [Method.signature, hparams, hname]
  obtain ⟨m, m', hlist⟩ : ∃ m m', t.methods = [m, m'] := by
    refine List.length_eq_two.1 ?_
    simpa using congrArg List.length hmethods
  rw [hlist] at hmethods hnodup
  have hfirst := hsame m (List.cons.inj hmethods).1
  have hsecond := hsame m' (List.cons.inj (List.cons.inj hmethods).2).1
  simp [hfirst, hsecond] at hnodup

theorem StandardRun.nodup_signatures_once : ∃ run, requestRun [.get] = .ok run ∧
    methodNames run = [("a.Main_", [("onCreate", 1), ("load", 0)]), ("a.Api_", [("all", 0)])] ∧
    ∀ t ∈ run.model.typeList, (t.methods.map Method.signature).Nodup ∧
      run.accepted.Unambiguous t.origin := by
  obtain ⟨run, hrun, hnames⟩ := exists_requestRun [.get]
    [("a.Main_", [("onCreate", 1), ("load", 0)]), ("a.Api_", [("all", 0)])] (by decide +kernel)
  refine ⟨run, hrun, hnames, fun t ht => ?_⟩
  have hparts : (t.name, t.methods.map fun m => (m.name, m.params.length)) ∈ methodNames run :=
    List.mem_map_of_mem ht
  have hdistinct : ∀ e ∈ methodNames run, (e.2.map Prod.fst).Nodup := by
    rw [hnames]
    decide
  have hnodup : (t.methods.map Method.signature).Nodup := by
    refine List.Nodup.of_map Signature.name ?_
    have hmethods := hdistinct _ hparts
    rw [List.map_map] at hmethods ⊢
    exact hmethods
  exact ⟨hnodup, (run.nodup_signatures_iff ht).1 hnodup⟩

end ComponentGlue
