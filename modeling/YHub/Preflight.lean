import YHub.CorsHeaders
import YHub.Dispatch

/-!
# Preflights (`cors.js:287-306`, `api.js:285-306`)

The route for preflights answers `204` with the headers of `writeCorsPreflight`. A browser sends the
request itself if these grant its origin, its method and its headers.

* `preflight_granted_iff`: what is granted is what the configuration declares, and such a request
  passes the origin gate. A declared header with a character that no list of names has, as in
  `X:Y`, makes each preflight fail.
-/

namespace YHub

section Write

-- `maxAgeText` is the text of a number
variable (t : CaseTable) (maxAgeText : JsNumber → String)

/-- The headers, and whether the origin is allowed. -/
def writeCorsPreflight (cors : Option ResolvedCors) (origin methods : String) :
    List (String × String) × Bool :=
  match cors with
  | none => ([], false)
  | some cors =>
    let vary := if cors.originAll then [] else [("Vary", "Origin")]
    match writeOrigin t cors origin [] with
    | none => (vary, false)
    | some headers =>
      (vary ++ headers ++ [("Access-Control-Allow-Methods", methods)] ++
        (cors.allowHeaders.map fun text => ("Access-Control-Allow-Headers", text)).toList ++
        [("Access-Control-Max-Age", maxAgeText cors.maxAge)], true)

/-- The handler of the route. -/
def preflight (cors : ResolvedCors) (allowedMethods origin : String) : UwsResponse :=
  (UwsResponse.empty.cork (.writeStatus "204 No Content" ::
    ((("Allow", allowedMethods) ::
      (writeCorsPreflight t maxAgeText (some cors) origin allowedMethods).1).map fun h =>
        .writeHeader h.1 h.2) ++ [.end_ none])).1

end Write

variable {t : CaseTable} (maxAgeText : JsNumber → String) {r : ResolvedCors}
  (allowedMethods : String) {origin : String}

/-! ## The headers of a preflight -/

theorem headers_preflight : (preflight t maxAgeText r allowedMethods origin).headers =
    ("Allow", allowedMethods) ::
      (writeCorsPreflight t maxAgeText (some r) origin allowedMethods).1 := by
  have hcork := UwsResponse.headers_call .empty (.cork :: .writeStatus "204 No Content" ::
    ((("Allow", allowedMethods) ::
      (writeCorsPreflight t maxAgeText (some r) origin allowedMethods).1).map fun h =>
        .writeHeader h.1 h.2) ++ [.end_ none])
  refine hcork.trans ?_
  rw [List.cons_append, List.filterMap_cons_none rfl, ApiState.filterMap_status]
  exact List.append_nil _

/-- The lines of a preflight that is granted. -/
theorem headers_preflight_of_allowed {allowed : String}
    (h : allowedOrigin t r origin = some allowed) :
    (preflight t maxAgeText r allowedMethods origin).headers =
      [allowedMethods].map ("Allow", ·) ++
        (if r.originAll then [] else ["Origin"]).map ("Vary", ·) ++
        [allowed].map ("Access-Control-Allow-Origin", ·) ++
        (if r.credentials then ["true"] else []).map ("Access-Control-Allow-Credentials", ·) ++
        [allowedMethods].map ("Access-Control-Allow-Methods", ·) ++
        r.allowHeaders.toList.map ("Access-Control-Allow-Headers", ·) ++
        [maxAgeText r.maxAge].map ("Access-Control-Max-Age", ·) := by
  rw [headers_preflight]
  unfold writeCorsPreflight writeOrigin
  cases hall : r.originAll <;> cases hcred : r.credentials <;> cases hheaders : r.allowHeaders <;>
    simp [h, hall, hcred, hheaders]

/-- What a browser reads of them. -/
theorem values_preflight {allowed : String} (h : allowedOrigin t r origin = some allowed) :
    (preflight t maxAgeText r allowedMethods origin).headers.values
        "access-control-allow-origin" = [allowed] ∧
      (preflight t maxAgeText r allowedMethods origin).headers.values
        "access-control-allow-credentials" = (if r.credentials then ["true"] else []) ∧
      (preflight t maxAgeText r allowedMethods origin).headers.values
        "access-control-allow-methods" = [allowedMethods] ∧
      (preflight t maxAgeText r allowedMethods origin).headers.values
        "access-control-allow-headers" = r.allowHeaders.toList := by
  rw [headers_preflight_of_allowed maxAgeText allowedMethods h]
  simp +decide only [Fetch.Headers.values_append, Fetch.Headers.values_map, if_true, if_false,
    List.append_nil, List.nil_append, and_self]

theorem values_preflight_of_none (h : allowedOrigin t r origin = none) :
    (preflight t maxAgeText r allowedMethods origin).headers.values
        "access-control-allow-origin" = [] ∧
      (preflight t maxAgeText r allowedMethods origin).headers.values
        "access-control-allow-credentials" = [] := by
  have hlines : (preflight t maxAgeText r allowedMethods origin).headers =
      [allowedMethods].map ("Allow", ·) ++
        (if r.originAll then [] else ["Origin"]).map ("Vary", ·) := by
    rw [headers_preflight]
    unfold writeCorsPreflight writeOrigin
    cases hall : r.originAll <;> simp [h, hall]
  rw [hlines]
  simp +decide only [Fetch.Headers.values_append, Fetch.Headers.values_map, if_false,
    List.append_nil, and_self]

/-! ## What a preflight grants -/

/-- The name of a header. -/
def IsHeaderName (name : String) : Prop := Fetch.IsToken name.toList

instance : DecidablePred IsHeaderName := fun _ => inferInstanceAs (Decidable (Fetch.IsToken _))

theorem toNat_lt_of_isTokenChar {c : Char} (h : Fetch.isTokenChar c = true) : c.toNat < 128 := by
  rcases Bool.or_eq_true _ _ ▸ h with halnum | hmark
  · exact CaseTable.toNat_lt_of_isAlphanum halnum
  · have hmarks : ("!#$%&'*+-.^_\x60|~".toList.all fun c => c.toNat < 128) = true := by decide
    exact of_decide_eq_true (List.all_eq_true.mp hmarks c (List.contains_iff_mem.mp hmark))

/-- A character that makes a list of headers none: not of a name, and not between names. -/
def BreaksList (c : Char) : Prop :=
  c ≠ ',' ∧ Fetch.isBlank c = false ∧ Fetch.isTokenChar c = false

theorem joinHeaders_toList (headers : List String) :
    (joinHeaders (some headers) []).toList =
      if ", ".intercalate headers = "" then [] else [", ".intercalate headers] := by
  unfold joinHeaders
  rw [Option.getD_some]
  dsimp only
  split_ifs <;> rfl

/-- The text of a list of headers is read back. -/
theorem tokens?_joinHeaders {headers : List String} (h : ∀ name ∈ headers, IsHeaderName name) :
    ((joinHeaders (some headers) []).toList.mapM Fetch.tokens?).map List.flatten =
      some (headers.map String.toList) := by
  have htokens := Fetch.tokens?_intercalate h
  rw [joinHeaders_toList]
  split_ifs with htext
  · rw [htext] at htokens
    exact htokens
  · simp [htokens]

theorem tokens?_joinHeaders_of_breaks {headers : List String} {name : String}
    (hname : name ∈ headers) {c : Char} (hc : c ∈ name.toList) (hbreaks : BreaksList c) :
    ((joinHeaders (some headers) []).toList.mapM Fetch.tokens?).map List.flatten = none := by
  have hmem : c ∈ (", ".intercalate headers).toList := by
    rw [String.toList_intercalate]
    exact Fetch.mem_intercalate_of_mem (List.mem_map_of_mem hname) hc
  rw [joinHeaders_toList, if_neg fun htext => by simp [htext] at hmem]
  simp [Fetch.tokens?_of_mem hmem hbreaks.1 hbreaks.2.1 hbreaks.2.2]

theorem isToken_upper (method : ApiMethod) : Fetch.IsToken method.upper.toList := by
  cases method <;> decide

/-- `Access-Control-Allow-Methods` is read back. -/
theorem tokens?_allowedMethods {α η : Type} (methods : List (ApiHandlerOptions α η)) :
    Fetch.tokens? (ApiHead.allowedMethods methods) =
      some ((methods.map (·.method.upper) ++ ["OPTIONS"]).map String.toList) := by
  refine Fetch.tokens?_intercalate fun name hname => ?_
  rcases List.mem_append.mp hname with hname | hname
  · obtain ⟨opts, -, rfl⟩ := List.mem_map.mp hname
    exact isToken_upper opts.method
  · rw [List.mem_singleton.mp hname]
    decide

section Endpoint

variable {allowedMethods : String} {schemaErr : CorsFields → String} {α η : Type}

theorem resolveCors_of_resolveHead {serverCors : Option CorsFields}
    {endpoint : ApiEndpointDef α η} {head : ApiHead}
    (h : resolveHead t schemaErr serverCors endpoint = .ok head) :
    resolveCors t schemaErr serverCors endpoint.cors = .ok head.cors := by
  obtain ⟨fields, -, h⟩ := Outcome.bind_eq_ok.mp h
  obtain ⟨cors, hcors, h⟩ := Outcome.bind_eq_ok.mp h
  obtain ⟨pathParams, -, h⟩ := Outcome.bind_eq_ok.mp h
  obtain rfl := Except.ok.inj h
  exact Outcome.mapError_eq_ok.mp hcors

/-- The route for preflights. -/
theorem preflight_of_mem_routes {apiPrefix : ApiSegment} {e : ResolvedEndpoint α η}
    {route : ApiRoute α η} (h : route ∈ e.routes apiPrefix)
    (hp : route.handler = .preflight r allowedMethods) :
    e.head.cors = some r ∧ allowedMethods = ApiHead.allowedMethods e.methods ∧
      route.method = "OPTIONS" ∧ route.pattern = e.head.pattern apiPrefix := by
  rcases List.mem_append.mp h with h | h
  · obtain ⟨opts, -, rfl⟩ := List.mem_map.mp h
    exact absurd hp (by simp)
  · cases hcors : e.head.cors with
    | none =>
      rw [hcors] at h
      exact absurd h List.not_mem_nil
    | some cors =>
      rw [hcors] at h
      obtain rfl := List.mem_singleton.mp h
      obtain ⟨rfl, rfl⟩ := RouteHandler.preflight.inj hp
      exact ⟨rfl, rfl, rfl, rfl⟩

/-- The headers of a request that a configuration lets a page send. -/
def AllowsHeader (declared : List String) (name : String) : Prop :=
  "*" ∈ declared ∨ ∃ header ∈ declared, Fetch.lower header = Fetch.lower name

/-- **A preflight that is answered.** -/
theorem preflightCheck_iff {serverCors : Option CorsFields} {endpointCors : EndpointCors}
    (hcors : resolveCors t schemaErr serverCors endpointCors = .ok (some r))
    (hnames : ∀ name ∈ declaredHeaders serverCors endpointCors, IsHeaderName name)
    (methods : List (ApiHandlerOptions α η)) (o : BrowserOrigin) (credentials : Bool)
    (method : String) (names : List String) :
    Fetch.preflightCheck (preflight t maxAgeText r (ApiHead.allowedMethods methods)
        (String.ofList o.text)).headers true (String.ofList o.text) credentials method names =
        true ↔
      Declares t serverCors endpointCors o ∧
        (credentials = true → mergedField serverCors endpointCors "credentials" = .bool true) ∧
        (method ∈ methods.map (·.method.upper) ++ ["OPTIONS"] ∨
          Fetch.isSafelistedMethod method = true) ∧
        ∀ name ∈ names, AllowsHeader (declaredHeaders serverCors endpointCors) name := by
  have hdeclared := corsDeclared_of_resolveCors hcors
  cases hallowed : allowedOrigin t r (String.ofList o.text) with
  | none =>
    have hnot : ¬ Declares t serverCors endpointCors o := by
      rw [← allowedOrigin_iff_declares hcors]
      simp [hallowed]
    rw [Fetch.preflightCheck_of_corsCheck (Fetch.corsCheck_of_nil
      (values_preflight_of_none maxAgeText _ hallowed).1)]
    exact ⟨fun h => absurd h Bool.false_ne_true, fun h => absurd h.1 hnot⟩
  | some allowed =>
    obtain ⟨hACAO, hACAC, hmethods, hheaders⟩ :=
      values_preflight maxAgeText (ApiHead.allowedMethods methods) hallowed
    have hcheck := corsCheck_iff_declares hcors (o := o)
      (hACAO.trans (by rw [Option.bind_some, hallowed]; rfl))
      (hACAC.trans (by simp [hallowed])) (fun _ => rfl) credentials
    have hnamed : Fetch.Headers.tokens? (preflight t maxAgeText r (ApiHead.allowedMethods methods)
        (String.ofList o.text)).headers "access-control-allow-methods" =
          some ((methods.map (·.method.upper) ++ ["OPTIONS"]).map String.toList) := by
      unfold Fetch.Headers.tokens?
      rw [hmethods]
      simp [tokens?_allowedMethods]
    have hlisted : Fetch.Headers.tokens? (preflight t maxAgeText r (ApiHead.allowedMethods methods)
        (String.ofList o.text)).headers "access-control-allow-headers" =
          some ((declaredHeaders serverCors endpointCors).map String.toList) := by
      unfold Fetch.Headers.tokens?
      rw [hheaders, hdeclared.allowHeaders]
      exact tokens?_joinHeaders hnames
    have hmem (text : String) (l : List String) : text.toList ∈ l.map String.toList ↔ text ∈ l :=
      List.mem_map_of_injective fun _ _ => String.toList_injective
    have hstarMethod : "*" ∉ methods.map (·.method.upper) ++ ["OPTIONS"] := by
      intro hstar
      rcases List.mem_append.mp hstar with hstar | hstar
      · obtain ⟨opts, -, hopts⟩ := List.mem_map.mp hstar
        cases hm : opts.method <;> rw [hm] at hopts <;> exact absurd hopts (by decide)
      · exact absurd hstar (by decide)
    have hstar : ['*'] = "*".toList := rfl
    rw [Fetch.preflightCheck_eq_true hnamed hlisted, hcheck, hstar, hmem, hmem, hmem, and_assoc]
    refine and_congr_right fun _ => and_congr_right fun hcred => ?_
    refine (and_iff_right rfl).trans (and_congr (by simp only [hstarMethod, and_false, or_false])
      (forall₂_congr fun name _ => ?_))
    -- a star has no cookies beside it, and covers `Authorization` because that is listed too
    have hanon : "*" ∈ declaredHeaders serverCors endpointCors → credentials = false := by
      intro hmemStar
      rw [Bool.eq_false_iff]
      exact fun htrue => (hdeclared.concrete (hcred htrue)).2 hmemStar
    have hlower : (∃ a ∈ (declaredHeaders serverCors endpointCors).map String.toList,
        a.map Char.toLower = Fetch.lower name) ↔
          ∃ header ∈ declaredHeaders serverCors endpointCors,
            Fetch.lower header = Fetch.lower name := by
      simp only [List.mem_map, exists_exists_and_eq_and]
      rfl
    rw [hlower]
    unfold AllowsHeader
    constructor
    · rintro (hlisted | ⟨-, hmemStar, -⟩)
      · exact .inr hlisted
      · exact .inl hmemStar
    · rintro (hmemStar | hlisted)
      · by_cases hauth : Fetch.lower name = "authorization".toList
        · obtain ⟨header, hheader, hauthorization⟩ := hdeclared.authorization hmemStar
          refine .inl ⟨header, hheader, ?_⟩
          rw [hauth, ← hauthorization]
          exact (CaseTable.lowerFrom_of_ascii fun c hc => toNat_lt_of_isTokenChar
            (List.all_eq_true.mp (hnames header hheader).2 c hc)).symm
        · exact .inr ⟨hanon hmemStar, hmemStar, hauth⟩
      · exact .inl hlisted

/-- **A preflight that every browser rejects.** -/
theorem preflightCheck_of_breaks {serverCors : Option CorsFields} {endpointCors : EndpointCors}
    (hcors : resolveCors t schemaErr serverCors endpointCors = .ok (some r)) {name : String}
    (hname : name ∈ declaredHeaders serverCors endpointCors) {c : Char} (hc : c ∈ name.toList)
    (hbreaks : BreaksList c) {credentials : Bool} {method : String} {names : List String} :
    Fetch.preflightCheck (preflight t maxAgeText r allowedMethods origin).headers true origin
      credentials method names = false := by
  cases hallowed : allowedOrigin t r origin with
  | none =>
    exact Fetch.preflightCheck_of_corsCheck (Fetch.corsCheck_of_nil
      (values_preflight_of_none maxAgeText _ hallowed).1)
  | some allowed =>
    refine Fetch.preflightCheck_of_none ?_
    unfold Fetch.Headers.tokens?
    rw [(values_preflight maxAgeText allowedMethods hallowed).2.2.2,
      (corsDeclared_of_resolveCors hcors).allowHeaders]
    exact tokens?_joinHeaders_of_breaks hname hc hbreaks

/-- **What a preflight grants**: an origin, a method and headers, if they are declared; a request of
such an origin then passes the gate of each method of the endpoint. -/
theorem preflight_granted_iff {specs : BuiltinSpecs α}
    {server : ApiConfig α (BuiltinHandler ⊕ η)}
    {routes : List (ApiRoute α (BuiltinHandler ⊕ η))}
    (h : registerApi t schemaErr specs server = .ok routes)
    {route : ApiRoute α (BuiltinHandler ⊕ η)} (hroute : route ∈ routes)
    (hp : route.handler = .preflight r allowedMethods) :
    ∃ endpoint ∈ server.endpoints specs, ∃ e apiPrefix,
      resolveEndpoint t schemaErr server endpoint = .ok e ∧ route.method = "OPTIONS" ∧
      route.pattern = e.head.pattern apiPrefix ∧ (∀ opts ∈ e.methods, opts.cors = some r) ∧
      ∀ o : BrowserOrigin,
        ((∀ name ∈ declaredHeaders server.cors endpoint.cors, IsHeaderName name) →
          ∀ credentials method names,
            Fetch.preflightCheck (preflight t maxAgeText r allowedMethods
                (String.ofList o.text)).headers true (String.ofList o.text) credentials method
                names = true ↔
              Declares t server.cors endpoint.cors o ∧
              (credentials = true →
                mergedField server.cors endpoint.cors "credentials" = .bool true) ∧
              (method ∈ e.methods.map (·.method.upper) ++ ["OPTIONS"] ∨
                Fetch.isSafelistedMethod method = true) ∧
              ∀ name ∈ names, AllowsHeader (declaredHeaders server.cors endpoint.cors) name) ∧
        ((∃ name ∈ declaredHeaders server.cors endpoint.cors, ∃ c ∈ name.toList, BreaksList c) →
          ∀ credentials method names,
            Fetch.preflightCheck (preflight t maxAgeText r allowedMethods
                (String.ofList o.text)).headers true (String.ofList o.text) credentials method
                names = false) ∧
        (Declares t server.cors endpoint.cors o → ∀ opts ∈ e.methods, ∀ host secFetchSite,
          originAllowed t opts.cors (String.ofList o.text) host secFetchSite = true) := by
  obtain ⟨apiPrefix, es, -, hes, -, rfl⟩ := registerApi_eq_ok.mp h
  obtain ⟨e, he, hr⟩ := List.mem_flatMap.mp hroute
  obtain ⟨endpoint, hendpoint, hok⟩ := (Outcome.mem_of_mapM_eq_ok hes).mp he
  obtain ⟨hhead, hmethods⟩ := resolveEndpoint_eq_ok.mp hok
  obtain ⟨hcors, rfl, hmethod, hpattern⟩ := preflight_of_mem_routes hr hp
  have hresolved := resolveCors_of_resolveHead hhead
  rw [hcors] at hresolved
  have hopts : ∀ opts ∈ e.methods, opts.cors = some r := by
    intro opts hopts
    obtain ⟨d, -, hcompile⟩ := (ApiHead.mem_of_resolveMethods hmethods).mp hopts
    exact (ApiHead.compile_eq_ok hcompile).cors.trans hcors
  refine ⟨endpoint, hendpoint, e, apiPrefix, hok, hmethod, hpattern, hopts, fun o => ⟨?_, ?_, ?_⟩⟩
  · intro hnames credentials method names
    exact preflightCheck_iff maxAgeText hresolved hnames e.methods o credentials method names
  · rintro ⟨name, hname, c, hc, hbreaks⟩ credentials method names
    exact preflightCheck_of_breaks maxAgeText hresolved hname hc hbreaks
  · intro hdeclares opts hmem host secFetchSite
    obtain ⟨r', hr', hallowed⟩ := (allowedOrigin_iff_declares hresolved o).mpr hdeclares
    rw [hopts opts hmem]
    exact originAllowed_text.mpr (.inl ⟨r', hr', hallowed⟩)

end Endpoint

/-- The comments, for pages of an allowlist. -/
def commentsCors : ApiConfig Unit (BuiltinHandler ⊕ String) :=
  { commentsConfig with cors := some previewCors }

/-- The handler, if it is one for preflights. -/
def RouteHandler.preflight? {α η : Type} : RouteHandler α η → Option (ResolvedCors × String)
  | api _ => none
  | preflight cors allowedMethods => some (cors, allowedMethods)

theorem commentsCors_preflight :
    ∃ routes route r allowedMethods, registerApi .ascii (fun _ => "") anySpecs commentsCors =
      .ok routes ∧ route ∈ routes ∧ route.handler = .preflight r allowedMethods := by
  have hsome : ((registerApi .ascii (fun _ => "") anySpecs commentsCors).toOption.any fun routes =>
      routes.any fun route => route.handler.preflight?.isSome) = true := by decide +kernel
  cases h : registerApi .ascii (fun _ => "") anySpecs commentsCors with
  | error e =>
    rw [h] at hsome
    exact absurd hsome Bool.false_ne_true
  | ok routes =>
    rw [h] at hsome
    obtain ⟨route, hroute, hhandler⟩ := List.any_eq_true.mp hsome
    cases hp : route.handler with
    | api opts =>
      rw [hp] at hhandler
      exact absurd hhandler Bool.false_ne_true
    | preflight r allowedMethods => exact ⟨routes, route, r, allowedMethods, rfl, hroute, hp⟩

/-- A page of the allowlist may authorize its requests. -/
theorem preflight_granted_comments : ∃ r allowedMethods,
    Fetch.preflightCheck (preflight .ascii (fun _ => "3600") r allowedMethods
        (String.ofList previewOrigin.text)).headers true (String.ofList previewOrigin.text) false
      "GET" ["authorization"] = true := by
  obtain ⟨routes, route, r, allowedMethods, hok, hroute, hp⟩ := commentsCors_preflight
  obtain ⟨endpoint, hendpoint, e, -, -, -, -, -, hgrants⟩ :=
    preflight_granted_iff (fun _ => "3600") hok hroute hp
  have hcors : endpoint.cors = .undefined := by
    have hall : ∀ endpoint ∈ commentsCors.endpoints anySpecs, endpoint.cors = .undefined := by
      simp [ApiConfig.endpoints, builtinApi, commentsCors, commentsConfig, commentsApi]
    exact hall endpoint hendpoint
  have hdeclared : declaredHeaders commentsCors.cors endpoint.cors =
      ["Content-Type", "Authorization"] := by
    rw [hcors]
    rfl
  have hnames : ∀ name ∈ ["Content-Type", "Authorization"], IsHeaderName name := by decide
  refine ⟨r, allowedMethods, ((hgrants previewOrigin).1 (hdeclared ▸ hnames) false "GET"
    ["authorization"]).mpr ⟨?_, by simp, .inr rfl, ?_⟩⟩
  · rw [hcors]
    exact declares_preview
  · rw [hdeclared]
    simp only [List.forall_mem_singleton]
    exact .inr ⟨"Authorization", by simp, by decide⟩

end YHub
