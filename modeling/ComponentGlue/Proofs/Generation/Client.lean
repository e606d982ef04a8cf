import ComponentGlue.Proofs.Generation.Clashes

set_option autoImplicit false
set_option relaxedAutoImplicit false

namespace ComponentGlue

open DeclarationModel (givenFor extract)

/-- The type has exactly one method of the signature. -/
def GeneratedType.DeclaresOnce (t : GeneratedType) (s : Signature) : Prop :=
  ∃ before m after, t.methods = before ++ m :: after ∧ m.signature = s ∧
    ∀ other ∈ before ++ after, other.signature ≠ s

/-- The element is the method of the interface. -/
structure Element.Declares (e : Element) (interface : String) (m : MethodSig) : Prop where
  kind : e.kind = .method
  owner : e.owner = interface
  name : e.name = m.name
  params : e.params = m.params
  type : e.type = m.returns

/-- The method of the interface is declared under this request marker, and no method of its signature is
declared under another one. -/
structure MarkedOnlyAs (batches : List (Marker × List RawDeclaration)) (interface : String)
    (m : MethodSig) (http : HttpMethod) : Prop where
  declared : ∃ r ∈ givenFor batches http.marker, r.element.Declares interface m
  only : ∀ other : HttpMethod, ∀ r ∈ givenFor batches other.marker, r.element.owner = interface →
    r.element.signature = m.signature → other = http

/-- Under this request marker, the first declaration with the qualified name of the method has the
signature of the method. -/
def ComesFirst (batches : List (Marker × List RawDeclaration)) (interface : String)
    (m : MethodSig) (http : HttpMethod) : Prop :=
  ∃ r, (givenFor batches http.marker).find? (fun r =>
      r.element.qualifiedName == interface ++ "#" ++ m.name) = some r ∧
    r.element.owner = interface ∧ r.element.signature = m.signature

theorem existsUnique_comesFirst_iff {batches : List (Marker × List RawDeclaration)}
    {interface : String} {m : MethodSig} {http : HttpMethod}
    (h : MarkedOnlyAs batches interface m http) :
    (∃! http', ComesFirst batches interface m http') ↔ ComesFirst batches interface m http := by
  have honly : ∀ http', ComesFirst batches interface m http' → http' = http := by
    rintro http' ⟨r, hr, howner, hsig⟩
    exact h.only http' r (List.mem_of_find?_eq_some hr) howner hsig
  constructor
  · rintro ⟨http', hfirst, -⟩
    exact honly http' hfirst ▸ hfirst
  · intro hfirst
    exact ⟨http, hfirst, honly⟩

/-- A type whose methods have the signatures of different things has one method of a signature exactly
when one of these things has it. -/
theorem declaresOnce_iff {α : Type} {xs : List α} {f : α → Signature} {t : GeneratedType}
    {s : Signature} (hnodup : xs.Nodup) (hsigs : t.signatures = xs.map f) :
    t.DeclaresOnce s ↔ ∃! x, x ∈ xs ∧ f x = s := by
  -- Both ways the methods and the list are split at the same place.
  constructor
  · rintro ⟨before, m, after, hmethods, hm, hothers⟩
    rw [GeneratedType.signatures, hmethods, List.map_append, List.map_cons] at hsigs
    obtain ⟨front, back, rfl, hfront, hback⟩ := List.map_eq_append_iff.1 hsigs.symm
    obtain ⟨x, back, rfl, hx, hafter⟩ := List.map_eq_cons_iff.1 hback
    have hother : ∀ y ∈ front ++ back, f y ≠ s := by
      intro y hy hys
      have hmem : f y ∈ (before ++ after).map Method.signature := by
        rw [List.map_append, ← hfront, ← hafter, ← List.map_append]
        exact List.mem_map_of_mem hy
      obtain ⟨other, hin, heq⟩ := List.mem_map.1 hmem
      exact hothers other hin (heq.trans hys)
    refine ⟨x, ⟨List.mem_append_right _ List.mem_cons_self, hx.trans hm⟩, ?_⟩
    rintro y ⟨hy, hys⟩
    by_contra hne
    exact hother y (by simpa [hne] using hy) hys
  · rintro ⟨x, ⟨hx, rfl⟩, honly⟩
    obtain ⟨front, back, rfl⟩ := List.append_of_mem hx
    rw [GeneratedType.signatures, List.map_append, List.map_cons] at hsigs
    obtain ⟨before, rest, hmethods, hfront, hback⟩ := List.map_eq_append_iff.1 hsigs
    obtain ⟨m, after, rfl, hm, hafter⟩ := List.map_eq_cons_iff.1 hback
    refine ⟨before, m, after, hmethods, hm, fun other hother hsame => ?_⟩
    have hmem : f x ∈ (front ++ back).map f := by
      rw [List.map_append, ← hfront, ← hafter, ← List.map_append, ← hsame]
      exact List.mem_map_of_mem hother
    obtain ⟨y, hy, hys⟩ := List.mem_map.1 hmem
    have hyx : y = x := honly y ⟨by rw [List.mem_append, List.mem_cons]; grind, hys⟩
    exact (List.nodup_middle.1 hnodup |> List.nodup_cons.1).1 (hyx ▸ hy)

namespace StandardRun

variable (run : StandardRun) {interface : String} {d : Declaration}

theorem exists_request_of_mem_members {x : StandardKind × Declaration}
    (hfree : ¬ run.accepted.isAnnotated interface .enhancedComponent = true)
    (hx : x ∈ run.accepted.members interface) : ∃ http, x.1 = .request http := by
  obtain ⟨-, h, hholder, rfl⟩ := mem_members_iff.1 hx
  have hneeded := (run.accepts_of_mem_members hx).owners h.owner (owner_mem_needs hholder)
  rw [← run.accepted_eq] at hneeded
  obtain ⟨k, d⟩ := x
  cases k with
  | request http => exact ⟨http, rfl⟩
  | component | preferenceHelper | restClient => cases hholder
  | _ =>
    cases hholder
    exact absurd hneeded hfree

theorem signatures_of_client
    (hfree : ¬ run.accepted.isAnnotated interface .enhancedComponent = true)
    (hrest : run.accepted.isAnnotated interface .rest = true) :
    run.accepted.signatures interface =
      (run.accepted.members interface).map fun x => x.2.element.signature := by
  obtain ⟨d, hd, rfl⟩ := DeclarationModel.isAnnotated_iff.1 hrest
  have hown : run.accepted.ownSignatures d.qualifiedName = [] := by
    rw [DeclarationModel.ownSignatures, lastPut_of_rest run.grouped_accepted hd]
    rfl
  have hfold : ∀ (ms : List (StandardKind × Declaration)) (sigs : List Signature),
      (∀ x ∈ ms, ∃ http, x.1 = .request http) →
      ms.foldl addSignature sigs = sigs ++ ms.map fun x => x.2.element.signature := by
    intro ms
    induction ms with
    | nil => simp
    | cons x ms ih =>
      intro sigs hrequests
      obtain ⟨http, hx⟩ := hrequests x List.mem_cons_self
      have hadd : addSignature sigs x = sigs ++ [x.2.element.signature] := by
        rw [addSignature, hx]
        rfl
      rw [List.foldl_cons, hadd, ih _ fun y hy => hrequests y (List.mem_cons_of_mem x hy)]
      simp
  rw [DeclarationModel.signatures, hown, hfold _ _ fun x => run.exists_request_of_mem_members hfree]
  rfl

section AllAccepted

variable (hall : ∀ k : StandardKind, ∀ d ∈ run.context.extracted.declarations k.marker,
  d ∈ run.accepted.declarations k.marker)
include hall

theorem comesFirst_iff {m : MethodSig} {http : HttpMethod} :
    ComesFirst run.batches interface m http ↔
      ∃ d, (.request http, d) ∈ run.accepted.members interface ∧
        d.element.signature = m.signature := by
  constructor
  · rintro ⟨r, hr, rfl, hsig⟩
    have hname : r.element.qualifiedName = r.element.owner ++ "#" ++ m.name := by
      simpa using List.find?_some hr
    have hextracted : r.marked http.marker ∈
        run.context.extracted.declarations (StandardKind.request http).marker := by
      refine DeclarationModel.mem_declarations_extract_iff.2 ⟨r, ?_, rfl⟩
      exact (congrArg (fun name => (givenFor run.batches http.marker).find? fun r =>
        r.element.qualifiedName == name) hname).trans hr
    exact ⟨_, mem_members_of_request (hall (.request http) _ hextracted), hsig⟩
  · rintro ⟨d, hd, hsig⟩
    have hname : d.element.name = m.name := congrArg Signature.name hsig
    have hextracted : d ∈ (extract run.batches).declarations http.marker :=
      (run.accepts_of_mem_members hd).extracted
    obtain ⟨r, hr, hmarked⟩ := DeclarationModel.mem_declarations_extract_iff.1 hextracted
    rw [run.qualifiedName_of_request hd, hname] at hr
    have helement : r.element = d.element := congrArg Declaration.element hmarked
    exact ⟨r, hr, helement ▸ owner_of_mem_members_request hd rfl, helement ▸ hsig⟩

theorem existsUnique_member_iff (m : MethodSig)
    (hfree : ¬ run.accepted.isAnnotated interface .enhancedComponent = true) :
    (∃! x, x ∈ run.accepted.members interface ∧ x.2.element.signature = m.signature) ↔
      ∃! http, ComesFirst run.batches interface m http := by
  constructor
  · rintro ⟨⟨k, d⟩, ⟨hx, hsig⟩, honly⟩
    obtain ⟨http, rfl⟩ := run.exists_request_of_mem_members hfree hx
    refine ⟨http, (run.comesFirst_iff hall).2 ⟨d, hx, hsig⟩, fun http' hfirst => ?_⟩
    obtain ⟨d', hx', hsig'⟩ := (run.comesFirst_iff hall).1 hfirst
    exact StandardKind.request.inj (congrArg Prod.fst (honly _ ⟨hx', hsig'⟩))
  · rintro ⟨http, hfirst, honly⟩
    obtain ⟨d, hx, hsig⟩ := (run.comesFirst_iff hall).1 hfirst
    refine ⟨(.request http, d), ⟨hx, hsig⟩, ?_⟩
    rintro ⟨k, d'⟩ ⟨hx', hsig'⟩
    obtain ⟨http', rfl⟩ := run.exists_request_of_mem_members hfree hx'
    obtain rfl := honly http' ((run.comesFirst_iff hall).2 ⟨d', hx', hsig'⟩)
    refine run.eq_of_qualifiedName_eq hx' hx rfl ?_
    have hname : d'.element.name = d.element.name :=
      congrArg Signature.name (hsig'.trans hsig.symm)
    rw [run.qualifiedName_of_request hx', run.qualifiedName_of_request hx, hname]

theorem exists_client (hfree : ¬ run.accepted.isAnnotated interface .enhancedComponent = true)
    (hrest : run.accepted.isAnnotated interface .rest = true) : ∃ t,
    run.model.get? (run.project.generatedName interface) = some t ∧
      ∀ m : MethodSig, t.DeclaresOnce m.signature ↔
        ∃! http, ComesFirst run.batches interface m http := by
  obtain ⟨d, hd, rfl⟩ := DeclarationModel.isAnnotated_iff.1 hrest
  obtain ⟨t, hfound, hsigs⟩ := run.exists_signatures (lastPut_of_rest run.grouped_accepted hd)
  refine ⟨t, hfound, fun m => ?_⟩
  rw [run.signatures_of_client hfree hrest] at hsigs
  rw [declaresOnce_iff (nodup_members run.grouped_accepted _) hsigs,
    run.existsUnique_member_iff hall m hfree]

end AllAccepted

end StandardRun

namespace Pipeline

variable {σ : Type} {env : Environment (StateM σ)} {round : Round} {pipeline : Pipeline} {s : σ}

/-- In a completed run without an error, the client of an interface has exactly one method of a declared
signature if and only if there is exactly one request marker under which a declaration of this signature
comes first among those of its qualified name. A method that is marked as one request is therefore
missing exactly when an overload comes before it under that marker. -/
theorem declaresOnce_iff_comesFirst (hstandard : pipeline.registry = .standard)
    (hcompleted : (observe env round pipeline s).Completed)
    (hclean : ∀ w ∈ (observe env round pipeline s).outcome.diagnostics, w.isError = false) :
    ∃ run : StandardRun, run.project = pipeline.project ∧
      (Phase.readBatches env round.markers (env.now (env.now s).2).2).1 = .ok run.batches ∧
      (observe env round pipeline s).renderings =
        [(run.model, .ok (observe env round pipeline s).outcome.artifacts)] ∧
      ∀ r ∈ givenFor run.batches .rest,
        (∀ c ∈ givenFor run.batches .enhancedComponent,
          c.element.qualifiedName ≠ r.element.qualifiedName) →
        ∃ client, run.model.get? (run.project.generatedName r.element.qualifiedName) = some client ∧
          ∀ m ∈ r.element.methods,
            (client.DeclaresOnce m.signature ↔
              ∃! http, ComesFirst run.batches r.element.qualifiedName m http) ∧
            ∀ http, MarkedOnlyAs run.batches r.element.qualifiedName m http →
              (client.DeclaresOnce m.signature ↔
                ComesFirst run.batches r.element.qualifiedName m http) := by
  obtain ⟨v, hv, model, hphase, hmodel, hrendered⟩ := hcompleted.rendered
  obtain ⟨run, hproject, hbatches, -, -, -, -, -, hgenerated, hreported⟩ :=
    exists_standardRun hstandard hv hphase (hcompleted.ended v hv)
  obtain rfl : model = run.model := Option.some.inj (hmodel.symm.trans hgenerated)
  have hsilent : ∀ w ∈ (Validator.validate Registry.standard.validators run.context).diagnostics,
      w.isError = false :=
    fun w hw => hclean w (diagnostics_subset_outcome hv (hreported hw))
  have hall : ∀ k : StandardKind, ∀ d ∈ run.context.extracted.declarations k.marker,
      d ∈ run.accepted.declarations k.marker := by
    intro k d hd
    rw [run.accepted_eq]
    exact run.context.mem_accepted_of_no_error run.grouped hsilent hd
  refine ⟨run, hproject, hbatches, hrendered, fun r hr hcomponents => ?_⟩
  -- With nothing rejected, what is marked in the batches is what is accepted.
  have hmarked : ∀ k : StandardKind, ∀ name, run.accepted.isAnnotated name k.marker = true ↔
      ∃ r ∈ givenFor run.batches k.marker, r.element.qualifiedName = name := by
    intro k name
    rw [← DeclarationModel.isAnnotated_extract_iff, DeclarationModel.isAnnotated_iff,
      DeclarationModel.isAnnotated_iff]
    refine exists_congr fun d => and_congr_left fun _ => ⟨fun hd => ?_, hall k d⟩
    rw [run.accepted_eq] at hd
    exact (ValidationContext.accepts_of_mem run.grouped hd).extracted
  have hrest : run.accepted.isAnnotated r.element.qualifiedName .rest = true :=
    (hmarked .restClient _).2 ⟨r, hr, rfl⟩
  have hfree : ¬ run.accepted.isAnnotated r.element.qualifiedName .enhancedComponent = true := by
    intro hcomponent
    obtain ⟨c, hc, hname⟩ := (hmarked .component _).1 hcomponent
    exact hcomponents c hc hname
  obtain ⟨client, hfound, honce⟩ := run.exists_client hall hfree hrest
  refine ⟨client, hfound, fun m _ => ⟨honce m, fun http honly => ?_⟩⟩
  rw [honce m, existsUnique_comesFirst_iff honly]

private def allMethod : MethodSig := ⟨"all", [], none⟩

private def overload : MethodSig := ⟨"all", [⟨"id", "int"⟩], none⟩

private def request (http : HttpMethod) (m : MethodSig) (url : String) : Declaration :=
  ⟨http.marker, ⟨.method, m.name, "a.Api", m.returns, m.params, [], [], [], []⟩,
    .ofList [("url", .str url)]⟩

private def apiWorld (second : HttpMethod) : MemoryWorld :=
  ⟨MemoryHost.empty.declareAll
    [⟨.rest, ⟨.interfaceType, "Api", "a", none, [], [], [], [], [allMethod, overload]⟩, .empty⟩,
      request .get allMethod "/all", request second overload "/all/\x7bid\x7d"], .discarding⟩

private def overloadRun (second : HttpMethod) : Observed :=
  observe MemoryWorld.environment (apiWorld second).host.round (.new .standard (.new "a"))
    (apiWorld second)

private def overloadBatches (second : HttpMethod) : List (Marker × List RawDeclaration) :=
  (apiWorld second).host.declarations.entries

private def clientMethods (second : HttpMethod) : List (Option (List (String × Nat))) :=
  (overloadRun second).renderings.map fun r => (r.1.get? "a.Api_").map fun t =>
    t.methods.map fun m => (m.name, m.params.length)

private theorem completed_overloadRun {second : HttpMethod}
    (h : (overloadRun second).outcome.status = .completed)
    (hround : (apiWorld second).host.round.isIdle = false) : (overloadRun second).Completed := by
  refine (ends_of_working (by rw [hround]; rfl)).resolve_right ?_
  rintro ⟨last, e, hfailed⟩
  cases h.symm.trans hfailed.status

/-- Two overloads that are both marked as get requests leave one method on the client. -/
theorem not_declaresOnce_overload : (overloadRun .get).Completed ∧
    (∀ w ∈ (overloadRun .get).outcome.diagnostics, w.isError = false) ∧
    (∀ m ∈ [allMethod, overload], MarkedOnlyAs (overloadBatches .get) "a.Api" m .get) ∧
    ∃ model artifacts client, (overloadRun .get).renderings = [(model, artifacts)] ∧
      model.get? "a.Api_" = some client ∧ ¬ client.DeclaresOnce overload.signature := by
  have hmethods : clientMethods .get = [some [("all", 0)]] := by decide +kernel
  refine ⟨completed_overloadRun (by decide +kernel) (by decide +kernel), by decide +kernel, ?_, ?_⟩
  · have honly : ∀ other : HttpMethod, ∀ r ∈ givenFor (overloadBatches .get) other.marker,
        other = .get := by
      intro other r hr
      cases other with
      | get => rfl
      | post | put | delete | head | options => cases hr
    intro m hm
    rcases List.mem_pair.1 hm with rfl | rfl
    · exact ⟨⟨_, List.mem_cons_self, rfl, rfl, rfl, rfl, rfl⟩, fun other r hr _ _ => honly other r hr⟩
    · exact ⟨⟨_, List.mem_cons_of_mem _ List.mem_cons_self, rfl, rfl, rfl, rfl, rfl⟩,
        fun other r hr _ _ => honly other r hr⟩
  · obtain ⟨⟨model, artifacts⟩, hrendered, hclient⟩ := List.map_eq_singleton_iff.1 hmethods
    obtain ⟨client, hfound, hnames⟩ := Option.map_eq_some_iff.1 hclient
    refine ⟨model, artifacts, client, hrendered, hfound, ?_⟩
    rintro ⟨before, m, after, hsplit, hm, -⟩
    have hmem : (m.name, m.params.length) ∈ [("all", 0)] := by
      rw [← hnames, hsplit]
      exact List.mem_map_of_mem (List.mem_append_right _ List.mem_cons_self)
    have hlength : m.params.length = 1 := by
      simpa [Method.signature, MethodSig.signature, overload] using
        congrArg (fun s : Signature => s.types.length) hm
    simp [hlength] at hmem

/-- Under different markers both overloads are on the client. -/
theorem declaresOnce_overload : (overloadRun .post).Completed ∧
    (∀ w ∈ (overloadRun .post).outcome.diagnostics, w.isError = false) ∧
    ∃ model artifacts client, (overloadRun .post).renderings = [(model, artifacts)] ∧
      model.get? "a.Api_" = some client ∧ client.DeclaresOnce allMethod.signature ∧
      client.DeclaresOnce overload.signature := by
  have hcompleted : (overloadRun .post).Completed :=
    completed_overloadRun (by decide +kernel) (by decide +kernel)
  have hclean : ∀ w ∈ (overloadRun .post).outcome.diagnostics, w.isError = false := by decide +kernel
  obtain ⟨run, hproject, hbatches, hrendered, hclients⟩ :=
    declaresOnce_iff_comesFirst rfl hcompleted hclean
  have hsame : overloadBatches .post = run.batches := Except.ok.inj hbatches
  rw [← hsame] at hclients
  obtain ⟨client, hfound, honce⟩ := hclients _ List.mem_cons_self nofun
  have hdiffer : allMethod.signature ≠ overload.signature := fun h =>
    absurd (congrArg (fun s : Signature => s.types.length) h) (by decide)
  have hfirst : MarkedOnlyAs (overloadBatches .post) "a.Api" allMethod .get := by
    refine ⟨⟨_, List.mem_cons_self, rfl, rfl, rfl, rfl, rfl⟩, fun other r hr _ hsig => ?_⟩
    cases other with
    | get => rfl
    | post =>
      obtain rfl := List.mem_singleton.1 hr
      exact absurd hsig.symm hdiffer
    | put | delete | head | options => cases hr
  have hsecond : MarkedOnlyAs (overloadBatches .post) "a.Api" overload .post := by
    refine ⟨⟨_, List.mem_cons_self, rfl, rfl, rfl, rfl, rfl⟩, fun other r hr _ hsig => ?_⟩
    cases other with
    | post => rfl
    | get =>
      obtain rfl := List.mem_singleton.1 hr
      exact absurd hsig hdiffer
    | put | delete | head | options => cases hr
  have hname : run.project.generatedName "a.Api" = "a.Api_" := by
    rw [hproject]
    decide +kernel
  have hfound' : run.model.get? (run.project.generatedName "a.Api") = some client := hfound
  rw [hname] at hfound'
  refine ⟨hcompleted, hclean, run.model, _, client, hrendered, hfound', ?_, ?_⟩
  · exact ((honce _ List.mem_cons_self).2 .get hfirst).2 ⟨_, rfl, rfl, rfl⟩
  · exact ((honce _ (List.mem_cons_of_mem _ List.mem_cons_self)).2 .post hsecond).2
      ⟨_, rfl, rfl, rfl⟩

end Pipeline

end ComponentGlue
