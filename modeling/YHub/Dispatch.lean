import YHub.Routes

/-!
# Which handler answers an url

The router of uws looks for a route of the method whose pattern the url is of. No two routes that
`registerApi` and the websocket register are of one request, so that it does not matter in which
order the router tries them, nor in which order the endpoints are configured.

* `one_route`: a request is of at most one route, which is the one of the endpoint that the url
  names; its parameters are what the url says.
* `registerApi_accepts`: a configuration is accepted if each endpoint is, and no two of them are in
  one place.
-/

namespace YHub

variable {α η : Type} {t : CaseTable} {schemaErr : CorsFields → String}

/-! ## Routes that are apart -/

/-- The method and the pattern. -/
def ApiRoute.key (r : ApiRoute α η) : String × String := (r.method, r.pattern)

/-- No request is of both. -/
def Apart (a b : String × String) : Prop :=
  a.1 = b.1 → ∀ url, (UrlTemplate.parse a.2).matchUrl url = none ∨
    (UrlTemplate.parse b.2).matchUrl url = none

section Heads

variable {apiPrefix : ApiSegment} {head head' : ApiHead}

theorem apart_of_place (h : PathParams head.path.toList head.pathParams)
    (h' : PathParams head'.path.toList head'.pathParams) (hne : head.place ≠ head'.place)
    (m m' : String) : Apart (m, head.pattern apiPrefix) (m', head'.pattern apiPrefix) := by
  intro _ url
  rw [Option.eq_none_iff_forall_ne_some, Option.eq_none_iff_forall_ne_some]
  by_contra hboth
  simp only [not_or, not_forall, not_not] at hboth
  obtain ⟨⟨values, hvalues⟩, values', hvalues'⟩ := hboth
  obtain ⟨hurl, hdepth, -⟩ := (ApiHead.matchUrl_pattern h).mp hvalues
  obtain ⟨hurl', hdepth', -⟩ := (ApiHead.matchUrl_pattern h').mp hvalues'
  have hparts := hurl.symm.trans hurl'
  simp only [List.cons_append, List.nil_append, List.cons.injEq, true_and] at hparts
  obtain ⟨hname, hversion, rfl⟩ := hparts
  refine hne ?_
  unfold ApiHead.place
  rw [hname, hversion, ← hdepth, ← hdepth']

theorem pathParams_wsHead : PathParams wsHead.path.toList wsHead.pathParams :=
  ⟨rfl, List.nodup_nil, by simp [wsHead]⟩

theorem pathParams_of_resolveHead {serverCors : Option CorsFields}
    {endpoint : ApiEndpointDef α η} (h : resolveHead t schemaErr serverCors endpoint = .ok head) :
    PathParams head.path.toList head.pathParams := by
  obtain ⟨fields, -, h⟩ := Outcome.bind_eq_ok.mp h
  obtain ⟨cors, -, h⟩ := Outcome.bind_eq_ok.mp h
  obtain ⟨pathParams, hpath, h⟩ := Outcome.bind_eq_ok.mp h
  obtain rfl := Except.ok.inj h
  exact resolvePath_eq_ok hpath

end Heads

section Endpoints

variable {server : ApiConfig α η} {apiPrefix : ApiSegment} {e e' : ResolvedEndpoint α η}

/-- The routes of an endpoint have its pattern. -/
theorem pattern_of_mem_routes {r : ApiRoute α η} (h : r ∈ e.routes apiPrefix) :
    r.pattern = e.head.pattern apiPrefix := by
  rcases List.mem_append.mp h with h | h
  · obtain ⟨opts, -, rfl⟩ := List.mem_map.mp h
    rfl
  · cases hcors : e.head.cors with
    | none =>
      rw [hcors] at h
      exact absurd h List.not_mem_nil
    | some cors =>
      rw [hcors] at h
      obtain rfl := List.mem_singleton.mp h
      rfl

/-- The routes of an endpoint have distinct methods. -/
theorem nodup_methods_routes {endpoint : ApiEndpointDef α η}
    (h : e.head.resolveMethods server.hasAuth endpoint = .ok e.methods) :
    ((e.routes apiPrefix).map ApiRoute.method).Nodup := by
  have hnodup := ApiHead.nodup_of_resolveMethods h
  have hoptions : "OPTIONS" ∉ e.methods.map (·.method.upper) := by
    rw [List.mem_map]
    rintro ⟨opts, -, hopts⟩
    cases hm : opts.method <;> rw [hm] at hopts <;> exact absurd hopts (by decide)
  unfold ResolvedEndpoint.routes ApiHead.routes
  rw [List.map_append, List.map_map]
  cases e.head.cors with
  | none =>
    rw [List.map_nil, List.append_nil]
    exact hnodup
  | some cors => exact hnodup.append (List.nodup_singleton _) (List.disjoint_singleton.mpr hoptions)

/-- The handlers of an endpoint, as its routes have them. -/
theorem mem_routes_iff {opts : ApiHandlerOptions α η} {r : ApiRoute α η} :
    (r ∈ e.routes apiPrefix ∧ r.handler = .api opts) ↔
      opts ∈ e.methods ∧ r = ⟨opts.method.upper, e.head.pattern apiPrefix, .api opts⟩ := by
  unfold ResolvedEndpoint.routes ApiHead.routes
  rw [List.mem_append, List.mem_map]
  constructor
  · rintro ⟨⟨opts', hopts', rfl⟩ | h, hhandler⟩
    · obtain rfl := RouteHandler.api.inj hhandler
      exact ⟨hopts', rfl⟩
    · cases hcors : e.head.cors with
      | none =>
        rw [hcors] at h
        exact absurd h List.not_mem_nil
      | some cors =>
        rw [hcors] at h
        obtain rfl := List.mem_singleton.mp h
        exact absurd hhandler (by simp)
  · rintro ⟨hopts, rfl⟩
    exact ⟨.inl ⟨opts, hopts, rfl⟩, rfl⟩

/-- **Endpoints in distinct places**, that of the websocket among them. -/
theorem pairwise_apart {endpoints : List (ApiEndpointDef α η)} {es : List (ResolvedEndpoint α η)}
    (hes : endpoints.mapM (resolveEndpoint t schemaErr server) = .ok es)
    (hplaces : (wsHead.place :: es.map ResolvedEndpoint.place).Nodup) :
    (("GET", wsPattern apiPrefix) ::
      (es.flatMap (ResolvedEndpoint.routes apiPrefix)).map ApiRoute.key).Pairwise Apart := by
  have hresolved : ∀ e ∈ es, PathParams e.head.path.toList e.head.pathParams ∧
      ((e.routes apiPrefix).map ApiRoute.method).Nodup := by
    intro e he
    obtain ⟨endpoint, -, hok⟩ := (Outcome.mem_of_mapM_eq_ok hes).mp he
    obtain ⟨hhead, hmethods⟩ := resolveEndpoint_eq_ok.mp hok
    exact ⟨pathParams_of_resolveHead hhead, nodup_methods_routes hmethods⟩
  rw [List.nodup_cons, List.Nodup, List.pairwise_map] at hplaces
  obtain ⟨hws, hplaces⟩ := hplaces
  rw [List.pairwise_cons, List.pairwise_map, List.pairwise_flatMap]
  refine ⟨fun key hkey => ?_, fun e he => ?_, ?_⟩
  · obtain ⟨r, hr, rfl⟩ := List.mem_map.mp hkey
    obtain ⟨e, he, hr⟩ := List.mem_flatMap.mp hr
    have hne : wsHead.place ≠ e.head.place := by
      intro heq
      exact hws (heq ▸ List.mem_map_of_mem he)
    unfold ApiRoute.key
    rw [← wsHead_pattern, pattern_of_mem_routes hr]
    exact apart_of_place pathParams_wsHead (hresolved e he).1 hne _ _
  · have hmethods := (hresolved e he).2
    rw [List.Nodup, List.pairwise_map] at hmethods
    exact hmethods.imp fun hne heq => absurd heq hne
  · refine hplaces.imp_of_mem fun {e e'} he he' hne r hr r' hr' => ?_
    unfold ApiRoute.key
    rw [pattern_of_mem_routes hr, pattern_of_mem_routes hr']
    exact apart_of_place (hresolved e he).1 (hresolved e' he').1 hne _ _

end Endpoints

/-! ## What a handler takes from the url -/

/-- **The values of an url, each in its place**: the org, the document, and the parameters of the
path. -/
theorem target_values {opts : ApiHandlerOptions α η} {head : ApiHead} {method : ApiMethod}
    (h : head.Tells method opts) {values : List String} (hlen : values.length = head.depth) :
    ((opts.target values).org.isSome = true ↔ opts.scope ≠ .global) ∧
      ((opts.target values).docid.isSome = true ↔ opts.scope = .doc) ∧
      ("__proto__" ∉ opts.pathParams.map Subtype.val →
        (opts.target values).params.map Prod.fst = opts.pathParams.map Subtype.val ∧
        (opts.target values).org.toList.map some ++ (opts.target values).docid.toList.map some ++
          (opts.target values).params.map Prod.snd = values.map some) := by
  have hdepth : values.length = opts.scope.paramOffset + opts.pathParams.length := by
    rw [hlen, h.scope, h.pathParams]
    rfl
  have hoffset : opts.paramOffset = opts.scope.paramOffset := by rw [h.paramOffset, h.scope]
  -- the values behind those of the scope
  have hparams : (opts.pathParams.mapIdx fun i param =>
      (param.1, values[opts.paramOffset + i]?)).map Prod.snd =
        (values.drop opts.scope.paramOffset).map some := by
    refine List.ext_getElem (by simp [hdepth]) fun i hi hi' => ?_
    simp only [List.length_map, List.length_mapIdx] at hi
    have hlt : opts.scope.paramOffset + i < values.length := by omega
    simp [hoffset, List.getElem?_eq_getElem hlt]
  have hscope : (opts.target values).org.toList ++ (opts.target values).docid.toList =
      values.take opts.scope.paramOffset ∧
      ((opts.target values).org.isSome = true ↔ opts.scope ≠ .global) ∧
      ((opts.target values).docid.isSome = true ↔ opts.scope = .doc) := by
    unfold ApiHandlerOptions.target
    cases hs : opts.scope with
    | global => simp [ApiScope.paramOffset]
    | org =>
      rw [hs] at hdepth
      obtain ⟨org, rest, rfl⟩ : ∃ org rest, values = org :: rest :=
        List.exists_cons_of_length_pos (by simp [hdepth, ApiScope.paramOffset])
      simp [ApiScope.paramOffset]
    | doc =>
      rw [hs] at hdepth
      obtain ⟨org, rest, rfl⟩ : ∃ org rest, values = org :: rest :=
        List.exists_cons_of_length_pos (by rw [hdepth]; simp [ApiScope.paramOffset])
      obtain ⟨docid, rest, rfl⟩ : ∃ docid rest', rest = docid :: rest' := by
        refine List.exists_cons_of_length_pos ?_
        simp only [List.length_cons, ApiScope.paramOffset] at hdepth
        omega
      simp [ApiScope.paramOffset]
  refine ⟨hscope.2.1, hscope.2.2, fun hproto => ?_⟩
  have hall : (opts.target values).params = opts.pathParams.mapIdx fun i param =>
      (param.1, values[opts.paramOffset + i]?) := by
    refine List.filter_eq_self.mpr fun p hp => decide_eq_true fun hname => hproto ?_
    obtain ⟨i, hi, rfl⟩ := List.mem_mapIdx.mp hp
    exact hname ▸ List.mem_map_of_mem (List.getElem_mem hi)
  rw [hall]
  refine ⟨?_, ?_⟩
  · exact List.ext_getElem (by simp) fun i _ _ => by simp
  · rw [hparams, ← List.map_append, ← List.map_append, hscope.1, List.take_append_drop]

/-! ## The configuration -/

section Config

variable {specs : BuiltinSpecs α} {server : ApiConfig α (BuiltinHandler ⊕ η)}
  {routes : List (ApiRoute α (BuiltinHandler ⊕ η))}

/-- **A request is of one route**, if any: no two of those that are registered, the one of the
websocket among them, are of one request, and the handler that answers is that of the endpoint that
the url names. -/
theorem one_route (h : registerApi t schemaErr specs server = .ok routes) :
    ∃ apiPrefix, resolveApiPrefix server.apiPrefix = .ok apiPrefix ∧
      (("GET", wsPattern apiPrefix) :: routes.map ApiRoute.key).Pairwise Apart ∧
      (∀ opts url values,
        (∃ r ∈ routes, r.handler = .api opts ∧ r.method = opts.method.upper ∧
          (UrlTemplate.parse r.pattern).matchUrl url = some values) ↔
        ∃ endpoint ∈ server.endpoints specs, ∃ head d,
          resolveHead t schemaErr server.cors endpoint = .ok head ∧
          endpoint.method opts.method = some d ∧
          head.compile server.hasAuth opts.method d = .ok opts ∧
          url = [apiPrefix.1, head.name.1, head.version.1] ++ values ∧
          values.length = head.depth ∧ "" ∉ values) ∧
      ∀ r ∈ routes, ∀ opts url values, r.handler = .api opts →
        (UrlTemplate.parse r.pattern).matchUrl url = some values →
        opts.requiredAccess = (if opts.method = .get then .r else .rw) ∧
        ((opts.target values).org.isSome = true ↔ opts.scope ≠ .global) ∧
        ((opts.target values).docid.isSome = true ↔ opts.scope = .doc) ∧
        (opts.pathParams.map Subtype.val).Nodup ∧
        ("__proto__" ∉ opts.pathParams.map Subtype.val →
          (opts.target values).params.map Prod.fst = opts.pathParams.map Subtype.val ∧
          (opts.target values).org.toList.map some ++ (opts.target values).docid.toList.map some ++
            (opts.target values).params.map Prod.snd = values.map some) := by
  obtain ⟨apiPrefix, es, hprefix, hes, hplaces, rfl⟩ := registerApi_eq_ok.mp h
  -- the endpoint of a route
  have hroute (r : ApiRoute α (BuiltinHandler ⊕ η)) (opts) :
      (r ∈ es.flatMap (ResolvedEndpoint.routes apiPrefix) ∧ r.handler = .api opts) ↔
        ∃ endpoint ∈ server.endpoints specs, ∃ head d,
          resolveHead t schemaErr server.cors endpoint = .ok head ∧
          endpoint.method opts.method = some d ∧
          head.compile server.hasAuth opts.method d = .ok opts ∧
          (∃ methods, head.resolveMethods server.hasAuth endpoint = .ok methods) ∧
          r = ⟨opts.method.upper, head.pattern apiPrefix, .api opts⟩ := by
    constructor
    · rintro ⟨hr, hhandler⟩
      obtain ⟨e, he, hr⟩ := List.mem_flatMap.mp hr
      obtain ⟨hopts, rfl⟩ := mem_routes_iff.mp ⟨hr, hhandler⟩
      obtain ⟨endpoint, hendpoint, hok⟩ := (Outcome.mem_of_mapM_eq_ok hes).mp he
      obtain ⟨hhead, hmethods⟩ := resolveEndpoint_eq_ok.mp hok
      obtain ⟨d, hd, hcompile⟩ := (ApiHead.mem_of_resolveMethods hmethods).mp hopts
      exact ⟨endpoint, hendpoint, e.head, d, hhead, hd, hcompile, ⟨e.methods, hmethods⟩, rfl⟩
    · rintro ⟨endpoint, hendpoint, head, d, hhead, hd, hcompile, ⟨methods, hmethods⟩, rfl⟩
      have he : (⟨head, methods⟩ : ResolvedEndpoint α _) ∈ es :=
        (Outcome.mem_of_mapM_eq_ok hes).mpr
          ⟨endpoint, hendpoint, resolveEndpoint_eq_ok.mpr ⟨hhead, hmethods⟩⟩
      have hopts := (ApiHead.mem_of_resolveMethods hmethods).mpr ⟨d, hd, hcompile⟩
      have hr : (⟨opts.method.upper, head.pattern apiPrefix, .api opts⟩ : ApiRoute α _) ∈
          ResolvedEndpoint.routes apiPrefix ⟨head, methods⟩ := (mem_routes_iff.mpr ⟨hopts, rfl⟩).1
      exact ⟨List.mem_flatMap.mpr ⟨_, he, hr⟩, rfl⟩
  -- each endpoint has its methods
  have hmethods (endpoint) (hendpoint : endpoint ∈ server.endpoints specs) (head)
      (hhead : resolveHead t schemaErr server.cors endpoint = .ok head) :
      ∃ methods, head.resolveMethods server.hasAuth endpoint = .ok methods := by
    obtain ⟨e, he⟩ := Outcome.exists_of_mapM_eq_ok hes hendpoint
    obtain ⟨hhead', hmethods⟩ := resolveEndpoint_eq_ok.mp he
    obtain rfl := Except.ok.inj (hhead.symm.trans hhead')
    exact ⟨e.methods, hmethods⟩
  refine ⟨apiPrefix, hprefix, pairwise_apart hes hplaces, fun opts url values => ?_,
    fun r hr opts url values hhandler hmatch => ?_⟩
  · constructor
    · rintro ⟨r, hr, hhandler, -, hmatch⟩
      obtain ⟨endpoint, hendpoint, head, d, hhead, hd, hcompile, -, rfl⟩ :=
        (hroute r opts).mp ⟨hr, hhandler⟩
      exact ⟨endpoint, hendpoint, head, d, hhead, hd, hcompile,
        (ApiHead.matchUrl_pattern (pathParams_of_resolveHead hhead)).mp hmatch⟩
    · rintro ⟨endpoint, hendpoint, head, d, hhead, hd, hcompile, hurl⟩
      obtain ⟨hr, hhandler⟩ := (hroute ⟨opts.method.upper, head.pattern apiPrefix, .api opts⟩
        opts).mpr ⟨endpoint, hendpoint, head, d, hhead, hd, hcompile,
          hmethods endpoint hendpoint head hhead, rfl⟩
      exact ⟨_, hr, hhandler, rfl,
        (ApiHead.matchUrl_pattern (pathParams_of_resolveHead hhead)).mpr hurl⟩
  · obtain ⟨endpoint, -, head, d, hhead, -, hcompile, -, rfl⟩ := (hroute r opts).mp ⟨hr, hhandler⟩
    have hpath := pathParams_of_resolveHead hhead
    have htells := ApiHead.compile_eq_ok hcompile
    obtain ⟨-, hlen, -⟩ := (ApiHead.matchUrl_pattern hpath).mp hmatch
    obtain ⟨horg, hdocid, hvalues⟩ := target_values htells hlen
    refine ⟨htells.requiredAccess, horg, hdocid, ?_, hvalues⟩
    rw [htells.pathParams]
    exact hpath.nodup.map Subtype.val_injective

/-- Comments of a document, and one of them. -/
def commentsApi : List (ApiEndpointDef Unit (BuiltinHandler ⊕ String)) :=
  [{ name := .string "comments"
     method := fun
       | .get => some { handler := some (.inr "list") }
       | .post => some { handler := some (.inr "add") }
       | _ => none },
   { name := .string "comments"
     path := "/:id"
     method := fun
       | .get => some { handler := some (.inr "read") }
       | _ => none }]

def commentsConfig : ApiConfig Unit (BuiltinHandler ⊕ String) where
  apiPrefix := .undefined
  cors := none
  hasAuth := true
  api := commentsApi

def anySpecs : BuiltinSpecs Unit :=
  ⟨fun _ => none, ⟨fun _ => none, fun _ => true⟩, ⟨fun _ => none, fun _ => true⟩,
    ⟨fun _ => none, fun _ => true⟩, fun _ => none, fun _ => none⟩

/-- The second endpoint. -/
def commentHead : ApiHead where
  name := ⟨"comments", rfl⟩
  version := v1
  scope := .doc
  accessPurpose := none
  cors := none
  path := "/:id"
  pathParams := [⟨"id", rfl⟩]

theorem commentsConfig_accepted :
    ∃ routes, registerApi .ascii (fun _ => "") anySpecs commentsConfig = .ok routes := by
  have hsome : (registerApi .ascii (fun _ => "") anySpecs commentsConfig).toOption.isSome = true :=
    by decide +kernel
  cases h : registerApi .ascii (fun _ => "") anySpecs commentsConfig with
  | error e =>
    rw [h] at hsome
    exact absurd hsome Bool.false_ne_true
  | ok routes => exact ⟨routes, rfl⟩

theorem one_route_comments :
    ∃ routes, registerApi .ascii (fun _ => "") anySpecs commentsConfig = .ok routes ∧
      (routes.map ApiRoute.key).Pairwise Apart ∧
      ∃ r ∈ routes, r.method = "GET" ∧ (UrlTemplate.parse r.pattern).matchUrl
        ["api", "comments", "v1", "acme", "readme", "7"] = some ["acme", "readme", "7"] := by
  obtain ⟨routes, hok⟩ := commentsConfig_accepted
  obtain ⟨apiPrefix, hprefix, hapart, hserved, -⟩ := one_route hok
  obtain rfl := Except.ok.inj hprefix
  refine ⟨routes, hok, hapart.of_cons, ?_⟩
  have hmem : commentsApi[1] ∈ commentsConfig.endpoints anySpecs :=
    List.mem_append_right _ (List.getElem_mem (by decide))
  obtain ⟨opts, hopts⟩ : ∃ opts : ApiHandlerOptions Unit (BuiltinHandler ⊕ String),
      commentHead.compile true .get { handler := some (.inr "read") } = .ok opts := ⟨_, rfl⟩
  have hget : opts.method = .get := (ApiHead.compile_eq_ok hopts).method
  obtain ⟨r, hr, -, hmethod, hmatch⟩ := (hserved opts _ ["acme", "readme", "7"]).mpr
    ⟨commentsApi[1], hmem, commentHead, { handler := some (.inr "read") }, rfl, by rw [hget]; rfl,
      by rw [hget]; exact hopts, rfl, rfl, by decide⟩
  exact ⟨r, hr, by rw [hmethod, hget]; rfl, hmatch⟩

/-- **What is accepted at startup**: a configuration all of whose endpoints are accepted alone, in
places of their own; in another order they have the same routes. -/
theorem registerApi_accepts :
    ((∃ routes, registerApi t schemaErr specs server = .ok routes) ↔
      (∃ apiPrefix, resolveApiPrefix server.apiPrefix = .ok apiPrefix) ∧
      (∀ endpoint ∈ server.endpoints specs, ∃ e,
        resolveEndpoint t schemaErr server endpoint = .ok e ∧ e.place ≠ wsHead.place) ∧
      (server.endpoints specs).Pairwise fun a b => ∀ e e',
        resolveEndpoint t schemaErr server a = .ok e →
        resolveEndpoint t schemaErr server b = .ok e' → e.place ≠ e'.place) ∧
    ∀ api routes, server.api.Perm api → registerApi t schemaErr specs server = .ok routes →
      ∃ routes', registerApi t schemaErr specs { server with api := api } = .ok routes' ∧
        routes.Perm routes' := by
  constructor
  · constructor
    · rintro ⟨routes, h⟩
      obtain ⟨apiPrefix, es, hprefix, hes, hplaces, -⟩ := registerApi_eq_ok.mp h
      obtain ⟨hws, hplaces⟩ := List.nodup_cons.mp hplaces
      refine ⟨⟨apiPrefix, hprefix⟩, fun endpoint hendpoint => ?_, ?_⟩
      · obtain ⟨e, he⟩ := Outcome.exists_of_mapM_eq_ok hes hendpoint
        have hmem : e ∈ es := (Outcome.mem_of_mapM_eq_ok hes).mpr ⟨endpoint, hendpoint, he⟩
        exact ⟨e, he, fun heq => hws (heq ▸ List.mem_map_of_mem hmem)⟩
      · exact (Outcome.pairwise_mapM_iff hes).mp (List.pairwise_map.mp hplaces)
    · rintro ⟨⟨apiPrefix, hprefix⟩, halone, hpairs⟩
      obtain ⟨es, hes, hmem⟩ := Outcome.exists_mapM_eq_ok fun endpoint hendpoint =>
        (halone endpoint hendpoint).imp fun _ he => he.1
      refine ⟨_, registerApi_eq_ok.mpr ⟨apiPrefix, es, hprefix, hes, ?_, rfl⟩⟩
      refine List.nodup_cons.mpr ⟨fun hws => ?_, ?_⟩
      · obtain ⟨e, he, hplace⟩ := List.mem_map.mp hws
        obtain ⟨endpoint, hendpoint, hok⟩ := (hmem e).mp he
        obtain ⟨e', hok', hne⟩ := halone endpoint hendpoint
        obtain rfl := Except.ok.inj (hok.symm.trans hok')
        exact hne hplace
      · exact List.pairwise_map.mpr ((Outcome.pairwise_mapM_iff hes).mpr hpairs)
  · intro api routes hperm h
    obtain ⟨apiPrefix, es, hprefix, hes, hplaces, rfl⟩ := registerApi_eq_ok.mp h
    obtain ⟨es', hes', hperm'⟩ := Outcome.mapM_perm (hperm.append_left (builtinApi specs)) hes
    refine ⟨es'.flatMap (ResolvedEndpoint.routes apiPrefix),
      registerApi_eq_ok.mpr ⟨apiPrefix, es', hprefix, hes', ?_, rfl⟩, hperm'.flatMap_right _⟩
    exact ((hperm'.map _).cons _).nodup_iff.mp hplaces

end Config

end YHub
