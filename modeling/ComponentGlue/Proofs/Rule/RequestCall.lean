import ComponentGlue.Proofs.Code.Execution
import ComponentGlue.Proofs.Code.Scope
import ComponentGlue.Proofs.Marker.UrlTemplate
import ComponentGlue.Proofs.Rule.Emission
import ComponentGlue.Proofs.Rule.Kind

/-!
The requests of REST clients. A request method makes one call on the rest template, which sends every
parameter of the method once: as a url variable or as the body. Only a parameter that is called like the map
of url variables is not sent where there is such a map.
-/

set_option autoImplicit false
set_option relaxedAutoImplicit false

namespace ComponentGlue

open Assemble (Changes)

/-- What a call on the rest template sends. -/
structure Sending where
  url : Expr
  body : Option Expr
  /-- The arguments behind those that the call always has. -/
  trailing : List Expr

namespace Sending

/-- The arguments of a method of the rest template: the url, then the body and the class of the response
where the method has them, and the url variables at the end. -/
def ofArgs? (method : String) (args : List Expr) : Option Sending :=
  match method, args with
  | "getForObject", url :: _ :: trailing => some ⟨url, none, trailing⟩
  | "postForObject", url :: body :: _ :: trailing => some ⟨url, some body, trailing⟩
  | "put", url :: body :: trailing => some ⟨url, some body, trailing⟩
  | "delete", url :: trailing => some ⟨url, none, trailing⟩
  | "headForHeaders", url :: trailing => some ⟨url, none, trailing⟩
  | "optionsForAllow", url :: trailing => some ⟨url, none, trailing⟩
  | _, _ => none

end Sending

/-- What a call on the rest template sends, if it is one. -/
def Expr.sending? : Expr → Option Sending
  | .call (some (.field .this receiver)) method args =>
    if receiver = RestClient.restTemplate then Sending.ofArgs? method args else none
  | _ => none

/-- The key and the value that are put into the map of url variables. -/
def Statement.variable? : Statement → Option (Expr × Expr)
  | .run (.call (some (.ident map)) "put" [key, value]) =>
    if map = HttpMethod.urlVariables then some (key, value) else none
  | _ => none

/-- What a statement sends, if it is a call on the rest template. -/
def Statement.sending? : Statement → Option Sending
  | .run e | .ret (some e) => e.sending?
  | _ => none

namespace Method

def sendings (m : Method) : List Sending := m.parts.filterMap Expr.sending?

def urlVariables (m : Method) : List (Expr × Expr) :=
  (Statement.nestedAll m.body).filterMap Statement.variable?

def identifiers (m : Method) : List String := m.parts.filterMap Expr.ident?

/-- In every run, behind the statements `front` the expression has the value that the parameter was given. A
local of its name that was declared there hides the parameter. -/
def Reads (m : Method) (front : List Statement) (e : Expr) (p : Parameter) : Prop :=
  ∀ (α σ : Type) [DecidableEq α] (w : Surroundings α σ) (values : List (Value α)) (s : σ),
    ∃ locals s', Statement.execAll w front (m.bind values) s = (.continues locals, s') ∧
      ∀ s'', (e.eval w locals s'').1 = m.bind values p.name

/-- The value of the parameter is put into the map of url variables under the parameter's name. -/
def Puts (m : Method) (p : Parameter) : Prop :=
  ∃ front s back value, m.body = front ++ s :: back ∧ s.variable? = some (.str p.name, value) ∧
    m.Reads front value p

/-- The value of the parameter is sent as the body of a request. -/
def Sends (m : Method) (p : Parameter) : Prop :=
  ∃ front s back sent body, m.body = front ++ s :: back ∧ s.sending? = some sent ∧
    sent.body = some body ∧ m.Reads front body p

end Method

namespace HttpMethod

variable {names : List String}

def putVariable (name : String) : Statement :=
  .run (.callOn (.ident urlVariables) "put" [.str name, .ident name])

def openMap : Statement := .declare variableMap urlVariables (.new variableMap [])

theorem bindVariables_cons (name : String) (names : List String) :
    bindVariables (name :: names) = openMap :: (name :: names).map putVariable :=
  rfl

theorem nestedAll_bindVariables (names : List String) :
    Statement.nestedAll (bindVariables names) = bindVariables names := by
  refine Statement.nestedAll_eq_self ?_
  cases names with
  | nil => exact fun s hs => absurd hs List.not_mem_nil
  | cons name names =>
    rw [bindVariables_cons]
    refine List.forall_mem_cons.2 ⟨rfl, fun s hs => ?_⟩
    obtain ⟨name', -, rfl⟩ := List.mem_map.1 hs
    rfl

theorem filterMap_variable?_bindVariables (names : List String) :
    (bindVariables names).filterMap Statement.variable? =
      names.map fun name => (.str name, .ident name) := by
  cases names with
  | nil => rfl
  | cons name names =>
    rw [bindVariables_cons, List.filterMap_cons_none rfl, List.filterMap_map]
    exact (List.filterMap_congr fun name _ => rfl).trans (List.filterMap_eq_map ▸ rfl)

theorem mem_partsAll_bindVariables {e : Expr} (he : e ∈ Statement.partsAll (bindVariables names)) :
    e.sending? = none ∧ ∀ name, e.ident? = some name →
      name ∈ names ∨ (name = urlVariables ∧ names ≠ []) := by
  cases names with
  | nil => cases he
  | cons first rest =>
    rw [bindVariables_cons, Statement.partsAll, List.mem_append, Statement.partsAll_eq_flatMap,
      List.mem_flatMap] at he
    rcases he with he | ⟨s, hs, he⟩
    · obtain rfl := List.mem_singleton.1 he
      exact ⟨rfl, fun name' h => by cases h⟩
    · obtain ⟨name, hname, rfl⟩ := List.mem_map.1 hs
      have hparts : e ∈ [.callOn (.ident urlVariables) "put" [.str name, .ident name],
        .ident urlVariables, .str name, .ident name] := he
      simp only [List.mem_cons, List.not_mem_nil, or_false] at hparts
      rcases hparts with rfl | rfl | rfl | rfl
      · exact ⟨rfl, fun name' h => by cases h⟩
      · exact ⟨rfl, fun name' h => Or.inr ⟨(Option.some.inj h).symm, List.cons_ne_nil _ _⟩⟩
      · exact ⟨rfl, fun name' h => by cases h⟩
      · exact ⟨rfl, fun name' h => Or.inl (Option.some.inj h ▸ hname)⟩

def fullUrl (url : String) : Expr := .concat [.thisField RestClient.rootUrl, .str url]

def mapArg (names : List String) : List Expr := if names.isEmpty then [] else [.ident urlVariables]

def response (element : Element) : TypeRef :=
  if element.returnType.isVoid then .named "java.lang.Void" else element.returnType

def requestCall (http : HttpMethod) (element : Element) (url : String) : Expr :=
  let call := http.request (fullUrl url) (bodyArg element (urlPlaceholders url)) (response element)
  .callOn (.thisField RestClient.restTemplate) call.1 (call.2 ++ mapArg (urlPlaceholders url))

def sending (http : HttpMethod) (element : Element) (url : String) : Sending where
  url := fullUrl url
  body := if http.takesBody then some (bodyArg element (urlPlaceholders url)) else none
  trailing := mapArg (urlPlaceholders url)

theorem sending?_requestCall (http : HttpMethod) (element : Element) (url : String) :
    (http.requestCall element url).sending? = some (http.sending element url) := by
  cases http <;> rfl

theorem exists_body_requestMethod (http : HttpMethod) (element : Element) (url : String) :
    ∃ last, (http.requestMethod element url).body =
        bindVariables (urlPlaceholders url) ++ [last] ∧
      (last = .run (http.requestCall element url) ∨
        last = .ret (some (http.requestCall element url))) := by
  refine ⟨if element.returnType.isVoid then .run (http.requestCall element url)
    else .ret (some (http.requestCall element url)), rfl, ?_⟩
  split
  · exact Or.inl rfl
  · exact Or.inr rfl

theorem mem_request {http : HttpMethod} {url body arg : Expr} {response : TypeRef}
    (h : arg ∈ (http.request url body response).2) :
    arg = url ∨ arg = body ∨ arg = .classLiteral response := by
  cases http
  all_goals
    simp only [request, List.mem_cons, List.not_mem_nil, or_false] at h
    tauto

theorem bodyArg_cases (element : Element) (names : List String) : bodyArg element names = .null ∨
    ∃ p ∈ unboundParams element names, bodyArg element names = .ident p.name := by
  unfold bodyArg
  cases h : (unboundParams element names).head? with
  | none => exact Or.inl rfl
  | some p => exact Or.inr ⟨p, List.mem_of_head? h, rfl⟩

/-- What stands inside the call: no other call, and only the body and the map as identifiers. -/
theorem mem_parts_requestCall {http : HttpMethod} {element : Element} {url : String}
    {e : Expr} (he : e ∈ (http.requestCall element url).parts) :
    e.sending? = none ∧ ∀ name, e.ident? = some name → (∃ p ∈ element.params, p.name = name) ∨
      (name = urlVariables ∧ urlPlaceholders url ≠ []) := by
  rcases List.mem_append.1 he with he | he
  · have htarget : e ∈ [.thisField RestClient.restTemplate, .this] := he
    simp only [List.mem_cons, List.not_mem_nil, or_false] at htarget
    rcases htarget with rfl | rfl <;> exact ⟨rfl, nofun⟩
  rw [Expr.partsAll_eq_flatMap, List.mem_flatMap] at he
  obtain ⟨arg, harg, he⟩ := he
  rcases List.mem_append.1 harg with harg | harg
  · rcases mem_request harg with rfl | rfl | rfl
    · have hurl : e ∈ [fullUrl url, .thisField RestClient.rootUrl, .this, .str url] := he
      simp only [List.mem_cons, List.not_mem_nil, or_false] at hurl
      rcases hurl with rfl | rfl | rfl | rfl <;> exact ⟨rfl, nofun⟩
    · rcases bodyArg_cases element (urlPlaceholders url) with hbody | ⟨p, hp, hbody⟩
      · rw [hbody] at he
        obtain rfl := List.mem_singleton.1 he
        exact ⟨rfl, nofun⟩
      · rw [hbody] at he
        obtain rfl := List.mem_singleton.1 he
        exact ⟨rfl, fun name h => Or.inl ⟨p, (List.mem_filter.1 hp).1, Option.some.inj h⟩⟩
    · obtain rfl := List.mem_singleton.1 he
      exact ⟨rfl, nofun⟩
  · unfold mapArg at harg
    split at harg
    · cases harg
    · next hfilled =>
      obtain rfl := List.mem_singleton.1 harg
      obtain rfl := List.mem_singleton.1 he
      refine ⟨rfl, fun name h => Or.inr ⟨(Option.some.inj h).symm, fun hnone => hfilled ?_⟩⟩
      rw [hnone]
      rfl

section RequestMethod

variable (http : HttpMethod) (element : Element) (url : String)

theorem sendings_requestMethod :
    (http.requestMethod element url).sendings = [http.sending element url] := by
  obtain ⟨last, hbody, hlast⟩ := http.exists_body_requestMethod element url
  have hparts : Statement.partsAll [last] =
      http.requestCall element url :: (http.requestCall element url).parts := by
    rcases hlast with rfl | rfl <;> exact List.append_nil _
  have hbind : (Statement.partsAll (bindVariables (urlPlaceholders url))).filterMap Expr.sending? =
      [] := List.filterMap_eq_nil_iff.2 fun e he => (mem_partsAll_bindVariables he).1
  have hinside : (http.requestCall element url).parts.filterMap Expr.sending? = [] :=
    List.filterMap_eq_nil_iff.2 fun e he => (mem_parts_requestCall he).1
  rw [Method.sendings, Method.parts_eq, hbody, Statement.partsAll_append, List.filterMap_append,
    hbind, hparts, List.filterMap_cons_some (http.sending?_requestCall element url), hinside]
  rfl

theorem urlVariables_requestMethod : (http.requestMethod element url).urlVariables =
    (urlPlaceholders url).map fun name => (.str name, .ident name) := by
  obtain ⟨last, hbody, hlast⟩ := http.exists_body_requestMethod element url
  have hnone : (Statement.nestedAll [last]).filterMap Statement.variable? = [] := by
    rcases hlast with rfl | rfl <;> rfl
  rw [Method.urlVariables, hbody, Statement.nestedAll_append, nestedAll_bindVariables,
    List.filterMap_append, filterMap_variable?_bindVariables, hnone, List.append_nil]

theorem identifiers_requestMethod {name : String}
    (h : name ∈ (http.requestMethod element url).identifiers) :
    name ∈ urlPlaceholders url ∨ (∃ p ∈ element.params, p.name = name) ∨
      (name = urlVariables ∧ urlPlaceholders url ≠ []) := by
  obtain ⟨last, hbody, hlast⟩ := http.exists_body_requestMethod element url
  rw [Method.identifiers, Method.parts_eq, hbody, Statement.partsAll_append] at h
  obtain ⟨e, he, hname⟩ := List.mem_filterMap.1 h
  rcases List.mem_append.1 he with he | he
  · rcases (mem_partsAll_bindVariables he).2 name hname with hmem | hmap
    · exact Or.inl hmem
    · exact Or.inr (Or.inr hmap)
  · have hcall : e = http.requestCall element url ∨
        e ∈ (http.requestCall element url).parts := by
      rcases hlast with rfl | rfl
      · simpa [Statement.partsAll, Statement.parts] using he
      · simpa [Statement.partsAll, Statement.parts, Expr.partsOption] using he
    rcases hcall with rfl | he
    · cases hname
    · exact Or.inr ((mem_parts_requestCall he).2 name hname)

end RequestMethod

section Reading

variable {m : Method} {p : Parameter} {name : String}

theorem execAll_putVariables {α σ : Type} [DecidableEq α] (w : Surroundings α σ)
    (names : List String) (locals : Locals α) (s : σ) :
    ∃ s', Statement.execAll w (names.map putVariable) locals s = (.continues locals, s') := by
  induction names generalizing s with
  | nil => exact ⟨s, rfl⟩
  | cons name names ih =>
    have hput : (putVariable name).exec w locals s =
        (.continues locals, ((putVariable name).exec w locals s).2) := rfl
    rw [List.map_cons, Statement.execAll_of_continues hput]
    exact ih _

theorem execAll_openMap {α σ : Type} [DecidableEq α] (w : Surroundings α σ)
    (names : List String) (locals : Locals α) (s : σ) :
    ∃ s', Statement.execAll w (openMap :: names.map putVariable) locals s =
      (.continues (Function.update locals urlVariables
        (w.object (.new variableMap []) locals s).1), s') := by
  have hopen : openMap.exec w locals s = (.continues (Function.update locals urlVariables
      (w.object (.new variableMap []) locals s).1), (w.object (.new variableMap []) locals s).2) := rfl
  rw [Statement.execAll_of_continues hopen]
  exact execAll_putVariables w names _ _

private def blank : Surroundings Unit Unit where
  call _ _ _ s := (.null, s)
  object _ _ s := (.null, s)
  store _ _ _ s := s

private def telling (m : Method) (p : Parameter) : List (Value Unit) :=
  m.params.map fun q => if q.name = p.name then .bool true else .null

private theorem bind_telling (hp : p ∈ m.params) (name : String) :
    m.bind (telling m p) name = if name = p.name then .bool true else .null := by
  have hfind : ∀ ps : List Parameter, (∃ q ∈ ps, q.name = name) ∨ name ≠ p.name →
      ((ps.zip (ps.map fun q => if q.name = p.name then .bool true else .null)).find? fun x =>
        x.1.name == name).elim (.null : Value Unit) Prod.snd =
          if name = p.name then .bool true else .null := by
    intro ps
    induction ps with
    | nil =>
      rintro (⟨q, hq, -⟩ | hne)
      · cases hq
      · exact (if_neg hne).symm
    | cons q ps ih =>
      intro h
      by_cases hq : q.name = name
      · simp [hq]
      · have hrest : (∃ q ∈ ps, q.name = name) ∨ name ≠ p.name := by
          rcases h with ⟨r, hr, hname⟩ | hne
          · rcases List.mem_cons.1 hr with rfl | hr
            · exact absurd hname hq
            · exact Or.inl ⟨r, hr, hname⟩
          · exact Or.inr hne
        simpa [hq] using ih hrest
  refine hfind m.params ?_
  by_cases hname : name = p.name
  · exact Or.inl ⟨p, hp, hname.symm⟩
  · exact Or.inr hname

theorem reads_nil_iff (hp : p ∈ m.params) : m.Reads [] (.ident name) p ↔ name = p.name := by
  constructor
  · intro h
    obtain ⟨locals, s', hexec, hvalue⟩ := h Unit Unit blank (telling m p) ()
    obtain ⟨hlocals, -⟩ := Prod.mk.inj hexec
    obtain rfl := Outcome.continues.inj hlocals
    have heq : m.bind (telling m p) name = m.bind (telling m p) p.name := hvalue ()
    rw [bind_telling hp, bind_telling hp, if_pos rfl] at heq
    by_contra hne
    rw [if_neg hne] at heq
    cases heq
  · rintro rfl α σ _ w values s
    exact ⟨_, s, rfl, fun s'' => rfl⟩

theorem reads_openMap_iff (hp : p ∈ m.params) (names : List String) :
    m.Reads (openMap :: names.map putVariable) (.ident name) p ↔
      name = p.name ∧ name ≠ urlVariables := by
  constructor
  · intro h
    obtain ⟨locals, s', hexec, hvalue⟩ := h Unit Unit blank (telling m p) ()
    obtain ⟨s'', hrun⟩ := execAll_openMap blank names (m.bind (telling m p)) ()
    obtain ⟨hlocals, -⟩ := Prod.mk.inj (hexec.symm.trans hrun)
    obtain rfl := Outcome.continues.inj hlocals
    have heq : Function.update (m.bind (telling m p)) urlVariables .null name =
        m.bind (telling m p) p.name := hvalue ()
    rw [bind_telling hp p.name, if_pos rfl] at heq
    by_cases hmap : name = urlVariables
    · rw [hmap, Function.update_self] at heq
      cases heq
    · rw [Function.update_of_ne hmap, bind_telling hp] at heq
      refine ⟨?_, hmap⟩
      by_contra hne
      rw [if_neg hne] at heq
      cases heq
  · rintro ⟨rfl, hmap⟩ α σ _ w values s
    obtain ⟨s', hrun⟩ := execAll_openMap w names (m.bind values) s
    exact ⟨_, s', hrun, fun s'' => Function.update_of_ne hmap _ _⟩

theorem not_reads_null (hp : p ∈ m.params) (front : List Statement) : ¬ m.Reads front .null p := by
  intro h
  obtain ⟨locals, s', -, hvalue⟩ := h Unit Unit blank (telling m p) ()
  have heq : .null = m.bind (telling m p) p.name := hvalue ()
  rw [bind_telling hp, if_pos rfl] at heq
  cases heq

theorem reads_bindVariables_iff (hp : p ∈ m.params) (names : List String) :
    m.Reads (bindVariables names) (.ident name) p ↔
      name = p.name ∧ (names = [] ∨ name ≠ urlVariables) := by
  cases names with
  | nil =>
    rw [bindVariables, reads_nil_iff hp]
    simp
  | cons first rest =>
    rw [bindVariables_cons, reads_openMap_iff hp]
    simp

end Reading

section Consumes

variable {http : HttpMethod} {element : Element} {url : String} {p : Parameter}

/-- Where the body of a request method can be cut: at the declaration of the map, at a value that is put
into it, or at the call. -/
theorem cut_requestMethod {front back : List Statement} {s : Statement}
    (h : (http.requestMethod element url).body = front ++ s :: back) :
    (front = [] ∧ s = openMap) ∨
    (∃ (fore : List String) (name : String), name ∈ urlPlaceholders url ∧ front = openMap :: fore.map putVariable ∧
      s = putVariable name) ∨
    (front = bindVariables (urlPlaceholders url) ∧ s.variable? = none ∧
      s.sending? = some (http.sending element url)) := by
  obtain ⟨last, hbody, hlast⟩ := http.exists_body_requestMethod element url
  rw [hbody] at h
  rcases List.eq_nil_or_concat' back with rfl | ⟨back, b, rfl⟩
  · obtain ⟨hfront, hs⟩ := List.append_inj' h rfl
    obtain rfl := (List.cons.inj hs).1
    refine Or.inr (Or.inr ⟨hfront.symm, ?_⟩)
    have hsends := http.sending?_requestCall element url
    rcases hlast with rfl | rfl
    · exact ⟨rfl, hsends⟩
    · exact ⟨rfl, hsends⟩
  · rw [← List.cons_append, ← List.append_assoc] at h
    have hbind : bindVariables (urlPlaceholders url) = front ++ s :: back := (List.append_inj' h rfl).1
    cases hnames : urlPlaceholders url with
    | nil =>
      rw [hnames] at hbind
      simp [bindVariables] at hbind
    | cons first rest =>
      rw [hnames, bindVariables_cons] at hbind
      cases front with
      | nil =>
        obtain ⟨hopen, -⟩ := List.cons.inj hbind
        exact Or.inl ⟨rfl, hopen.symm⟩
      | cons t front =>
        obtain ⟨rfl, hputs⟩ := List.cons.inj hbind
        obtain ⟨fore, behind, hcut, rfl, hbehind⟩ := List.map_eq_append_iff.1 hputs
        obtain ⟨name, after, rfl, rfl, -⟩ := List.map_eq_cons_iff.1 hbehind
        refine Or.inr (Or.inl ⟨fore, name, ?_, rfl, rfl⟩)
        rw [hcut]
        exact List.mem_append_right fore List.mem_cons_self

theorem puts_iff (hp : p ∈ (http.requestMethod element url).params) :
    (http.requestMethod element url).Puts p ↔
      p.name ∈ urlPlaceholders url ∧ p.name ≠ urlVariables := by
  constructor
  · rintro ⟨front, s, back, value, hbody, hvariable, hreads⟩
    rcases cut_requestMethod hbody with ⟨-, rfl⟩ | ⟨fore, name, hname, rfl, rfl⟩ | ⟨-, hnone, -⟩
    · cases hvariable
    · obtain ⟨hkey, rfl⟩ := Prod.mk.inj (Option.some.inj hvariable)
      obtain rfl : name = p.name := Literal.str.inj (Expr.literal.inj hkey)
      exact ⟨hname, ((reads_openMap_iff hp fore).1 hreads).2⟩
    · rw [hnone] at hvariable
      cases hvariable
  · rintro ⟨hname, hmap⟩
    obtain ⟨fore, behind, hcut⟩ := List.append_of_mem hname
    obtain ⟨last, hbody, -⟩ := http.exists_body_requestMethod element url
    have hbind : bindVariables (urlPlaceholders url) =
        openMap :: (urlPlaceholders url).map putVariable := by
      rw [hcut]
      cases fore <;> rfl
    refine ⟨openMap :: fore.map putVariable, putVariable p.name, behind.map putVariable ++ [last],
      .ident p.name, ?_, rfl, (reads_openMap_iff hp fore).2 ⟨rfl, hmap⟩⟩
    rw [hbody, hbind, hcut]
    simp

/-- The body of the call is the parameter that no placeholder names. -/
theorem bodyArg_eq_iff (hbinds : http.Binds element url) {name : String}
    (hname : ∃ q ∈ element.params, q.name = name) :
    (http.sending element url).body = some (.ident name) ↔ name ∉ urlPlaceholders url := by
  obtain ⟨q, hq, rfl⟩ := hname
  have hunbound : q ∈ unboundParams element (urlPlaceholders url) ↔
      q.name ∉ urlPlaceholders url := by
    simp [unboundParams, hq]
  have hfew := hbinds.2
  rw [← hunbound, sending]
  cases htakes : http.takesBody with
  | false =>
    rw [htakes] at hfew
    have hnone : unboundParams element (urlPlaceholders url) = [] :=
      List.length_eq_zero_iff.1 (Nat.le_zero.1 hfew)
    simp [hnone]
  | true =>
    rw [htakes] at hfew
    simp only [if_true, Option.some.injEq, bodyArg]
    cases hparams : unboundParams element (urlPlaceholders url) with
    | nil => simp
    | cons first rest =>
      rw [hparams] at hfew
      obtain rfl : rest = [] := List.length_eq_zero_iff.1 (Nat.le_zero.1 (Nat.le_of_succ_le_succ hfew))
      have hfirst : first.name ∉ urlPlaceholders url := by
        have hmem : first ∈ unboundParams element (urlPlaceholders url) := by simp [hparams]
        simpa [unboundParams] using (List.mem_filter.1 hmem).2
      constructor
      · intro h
        have hname : first.name = q.name := Expr.ident.inj h
        rw [← hparams, hunbound, ← hname]
        exact hfirst
      · intro h
        rw [List.mem_singleton.1 h]
        rfl

theorem exists_param_of_mem (hp : p ∈ (http.requestMethod element url).params) :
    ∃ q ∈ element.params, q.name = p.name := by
  obtain ⟨q, hq, rfl⟩ := List.mem_map.1 hp
  exact ⟨q, hq, rfl⟩

/-- A parameter is sent as the body exactly when no placeholder names it and no map hides it. -/
theorem sends_iff (hbinds : http.Binds element url)
    (hp : p ∈ (http.requestMethod element url).params) :
    (http.requestMethod element url).Sends p ↔
      p.name ∉ urlPlaceholders url ∧ (urlPlaceholders url = [] ∨ p.name ≠ urlVariables) := by
  constructor
  · rintro ⟨front, s, back, sent, body, hcut, hsends, hbody, hreads⟩
    rcases cut_requestMethod hcut with ⟨-, rfl⟩ | ⟨fore, name, -, -, rfl⟩ | ⟨rfl, -, hrequest⟩
    · cases hsends
    · cases hsends
    · obtain rfl := Option.some.inj (hrequest.symm.trans hsends)
      have hbodyArg : body = bodyArg element (urlPlaceholders url) := by
        unfold sending at hbody
        dsimp only at hbody
        split at hbody
        · exact (Option.some.inj hbody).symm
        · cases hbody
      rcases bodyArg_cases element (urlPlaceholders url) with hnull | ⟨q, hq, hident⟩
      · rw [hbodyArg, hnull] at hreads
        exact absurd hreads (not_reads_null hp _)
      · rw [hbodyArg, hident, reads_bindVariables_iff hp] at hreads
        obtain ⟨hname, hvisible⟩ := hreads
        have hfree : q.name ∉ urlPlaceholders url := by
          simpa [unboundParams] using (List.mem_filter.1 hq).2
        exact hname ▸ ⟨hfree, hvisible⟩
  · rintro ⟨hfree, hvisible⟩
    obtain ⟨last, hbody, hlast⟩ := http.exists_body_requestMethod element url
    have hsends : last.sending? = some (http.sending element url) := by
      rcases hlast with rfl | rfl <;> exact http.sending?_requestCall element url
    exact ⟨_, last, [], _, .ident p.name, hbody, hsends,
      (bodyArg_eq_iff hbinds (exists_param_of_mem hp)).2 hfree,
      (reads_bindVariables_iff hp _).2 ⟨rfl, hvisible⟩⟩

/-- Every parameter is put or sent exactly when the map, if there is one, hides none. -/
theorem forall_puts_or_sends_iff (hbinds : http.Binds element url) :
    (∀ p ∈ (http.requestMethod element url).params,
      (http.requestMethod element url).Puts p ∨ (http.requestMethod element url).Sends p) ↔
      urlPlaceholders url = [] ∨
        ∀ p ∈ (http.requestMethod element url).params, p.name ≠ urlVariables := by
  constructor
  · intro hall
    refine or_iff_not_imp_left.2 fun hsome p hp hname => ?_
    rcases hall p hp with hputs | hsends
    · exact ((puts_iff hp).1 hputs).2 hname
    · rcases ((sends_iff hbinds hp).1 hsends).2 with hnone | hne
      · exact hsome hnone
      · exact hne hname
  · intro hvisible p hp
    by_cases hname : p.name ∈ urlPlaceholders url
    · refine Or.inl ((puts_iff hp).2 ⟨hname, ?_⟩)
      rcases hvisible with hnone | hne
      · rw [hnone] at hname
        cases hname
      · exact hne p hp
    · exact Or.inr ((sends_iff hbinds hp).2 ⟨hname, hvisible.imp_right fun hne => hne p hp⟩)

theorem Binds.length_filter_le (hbinds : http.Binds element url) :
    ((http.requestMethod element url).params.filter fun p =>
      p.name ∉ urlPlaceholders url).length ≤ if http = .post ∨ http = .put then 1 else 0 := by
  have hparams : (http.requestMethod element url).params =
      element.params.map fun p => ⟨p.name, .parse p.type, true⟩ := rfl
  have hlength : ((http.requestMethod element url).params.filter fun p =>
      p.name ∉ urlPlaceholders url).length = (unboundParams element (urlPlaceholders url)).length := by
    rw [hparams, List.filter_map, List.length_map, unboundParams]
    congr 2
    funext p
    simp
  rw [hlength]
  exact Nat.le_trans hbinds.2 (Nat.le_of_eq (by cases http <;> rfl))

end Consumes

/-- A request method whose declaration passes its check makes one call on the rest template. Each
placeholder of the url has its value put into the map of url variables, in order, and the map is passed
when there are placeholders. Every other parameter is the body, of which there is at most one, and nothing
else is used. What is put and sent is the value of the parameter, unless the map hides a parameter of its
name: exactly then some parameter is not sent at all. -/
theorem consumes_iff_of_accepts {http : HttpMethod} {s : Subject}
    (haccepts : (http.check s).findings.rejects = false) :
    ∃ (url : String) (names : List String) (m : Method) (sent : Sending),
    s.declaration.argStr? "url" = some url ∧ UrlTemplate url.toList (names.map String.toList) ∧
    (∀ setting, Changes (http.rule.processor.process setting s.declaration)
      (.restClient s.declaration.element.owner) fun t => .ok (t.addMethod m)) ∧
    m.params.map Parameter.name = s.declaration.element.params.map Param.name ∧
    m.urlVariables = names.map (fun name => (.str name, .ident name)) ∧
    (∀ name ∈ names, ∃ p ∈ m.params, p.name = name) ∧
    m.sendings = [sent] ∧
    sent.trailing = (if names = [] then [] else [.ident urlVariables]) ∧
    (∀ name ∈ m.identifiers,
      (∃ p ∈ m.params, p.name = name) ∨ (name = urlVariables ∧ names ≠ [])) ∧
    (m.params.filter fun p => p.name ∉ names).length ≤
      (if http = .post ∨ http = .put then 1 else 0) ∧
    (∀ p ∈ m.params, (m.Puts p ↔ p.name ∈ names ∧ p.name ≠ urlVariables) ∧
      (m.Sends p ↔ p.name ∉ names ∧ (names = [] ∨ p.name ≠ urlVariables))) ∧
    ((∀ p ∈ m.params, m.Puts p ∨ m.Sends p) ↔
      names = [] ∨ ∀ p ∈ m.params, p.name ≠ urlVariables) := by
  obtain ⟨-, -, -, url, hurl, -, hbinds⟩ := ((http.demands s).accepts_iff.1 haccepts).own
  have hparam : ∀ {name}, (∃ p ∈ s.declaration.element.params, p.name = name) →
      ∃ q ∈ (http.requestMethod s.declaration.element url).params, q.name = name := by
    rintro name ⟨p, hp, rfl⟩
    exact ⟨_, List.mem_map_of_mem hp, rfl⟩
  refine ⟨url, urlPlaceholders url, http.requestMethod s.declaration.element url,
    http.sending s.declaration.element url, hurl, urlTemplate_urlPlaceholders url, ?_, ?_,
    http.urlVariables_requestMethod _ url, fun name hname => hparam (hbinds.1 name hname),
    http.sendings_requestMethod _ url, ?_, ?_, hbinds.length_filter_le,
    fun p hp => ⟨puts_iff hp, sends_iff hbinds hp⟩, forall_puts_or_sends_iff hbinds⟩
  · intro setting
    have hemit := http.changes_emit (d := s.declaration) setting.project []
    rw [hurl] at hemit
    exact hemit
  · exact List.map_map
  · cases hnames : urlPlaceholders url <;> simp [sending, mapArg, hnames]
  · intro name hname
    rcases http.identifiers_requestMethod _ url hname with hmem | hmem | hmap
    · exact Or.inl (hparam (hbinds.1 name hmem))
    · exact Or.inl (hparam hmem)
    · exact Or.inr hmap

private def apiContext (d : Declaration) : ValidationContext :=
  ⟨.ofList [⟨.rest, ⟨.interfaceType, "Api", "a", none, [], [], [], [], []⟩, .empty⟩, d], none, .new "a"⟩

private def savedItem (body url : String) : Declaration :=
  ⟨HttpMethod.post.marker,
    ⟨.method, "save", "a.Api", none, [⟨"id", "int"⟩, ⟨body, "java.util.Map"⟩], [], [], [], []⟩,
    .ofList [("url", .str url)]⟩

theorem consumes_iff_of_accepts_save :
    let d := savedItem "item" "/items/{id}/{id}"
    (HttpMethod.post.check ⟨apiContext d, d⟩).findings.rejects = false ∧ ∃ m sent,
    (∀ setting, Changes (HttpMethod.post.rule.processor.process setting d) (.restClient "a.Api")
      fun t => .ok (t.addMethod m)) ∧
    m.urlVariables = [(.str "id", .ident "id"), (.str "id", .ident "id")] ∧
    m.sendings = [sent] ∧ sent.trailing = [.ident urlVariables] ∧
    m.params.map Parameter.name = ["id", "item"] ∧
    ∀ p ∈ m.params, (m.Puts p ↔ p.name = "id") ∧ (m.Sends p ↔ p.name = "item") := by
  intro d
  have haccepts : (HttpMethod.post.check ⟨apiContext d, d⟩).findings.rejects = false := by
    decide +kernel
  obtain ⟨url, names, m, sent, hurl, htemplate, hprocess, hparams, hvariables, -, hsendings,
    htrailing, -, -, hconsumes, -⟩ := consumes_iff_of_accepts haccepts
  obtain rfl : "/items/{id}/{id}" = url := Option.some.inj hurl
  have hnames : names = ["id", "id"] := by
    have hscan := htemplate.scanPlaceholders_eq.symm.trans
      (by decide : scanPlaceholders .outside "/items/{id}/{id}".toList =
        ["id", "id"].map String.toList)
    exact List.map_injective_iff.2 (fun _ _ => String.toList_injective) hscan
  subst hnames
  have hparams' : m.params.map Parameter.name = ["id", "item"] := hparams
  refine ⟨haccepts, m, sent, hprocess, hvariables, hsendings, htrailing, hparams', ?_⟩
  intro p hp
  have hname : p.name ∈ ["id", "item"] := hparams' ▸ List.mem_map_of_mem hp
  have hid : "id" ≠ urlVariables := by decide
  have hitem : "item" ≠ urlVariables := by decide
  obtain ⟨hputs, hsends⟩ := hconsumes p hp
  rw [hputs, hsends]
  rcases List.mem_cons.1 hname with hname | hname
  · simp [hname, hid]
  · rw [List.mem_singleton.1 hname]
    simp [hitem]

/-- A body that is called like the map of url variables is neither put into the map nor sent. -/
theorem not_consumes_urlVariables :
    let d := savedItem urlVariables "/items/{id}"
    (HttpMethod.post.check ⟨apiContext d, d⟩).findings.rejects = false ∧ ∃ m,
    (∀ setting, Changes (HttpMethod.post.rule.processor.process setting d) (.restClient "a.Api")
      fun t => .ok (t.addMethod m)) ∧
    ∃ p ∈ m.params, ¬ m.Puts p ∧ ¬ m.Sends p := by
  intro d
  have haccepts : (HttpMethod.post.check ⟨apiContext d, d⟩).findings.rejects = false := by
    decide +kernel
  have hnames : urlPlaceholders "/items/{id}" = ["id"] := by decide
  obtain ⟨-, -, -, url, hurl, -, hbinds⟩ :=
    ((HttpMethod.post.demands ⟨apiContext d, d⟩).accepts_iff.1 haccepts).own
  obtain rfl : "/items/{id}" = url := Option.some.inj hurl
  let p : Parameter := ⟨urlVariables, .parse "java.util.Map", true⟩
  have hp : p ∈ (HttpMethod.post.requestMethod d.element "/items/{id}").params :=
    List.mem_cons_of_mem _ List.mem_cons_self
  refine ⟨haccepts, HttpMethod.post.requestMethod d.element "/items/{id}", ?_, p, hp, ?_, ?_⟩
  · intro setting
    exact HttpMethod.post.changes_emit (d := d) setting.project []
  · intro hputs
    exact ((puts_iff hp).1 hputs).2 rfl
  · intro hsends
    rcases ((sends_iff hbinds hp).1 hsends).2 with hnone | hne
    · rw [hnames] at hnone
      cases hnone
    · exact hne rfl

end HttpMethod

end ComponentGlue
