import YHub.ApiHandler
import YHub.Lib.UrlTemplate

/-!
# The routes of the api (`api.js:150-306`, `builtin-api.js:28-233`, `server.js:101-108`)

`registerApi` checks the endpoints, the built-in ones first, and registers a route of uws for each
of their methods, and one for preflights where cors is on. The routes of an endpoint have one
pattern, `/{prefix}/{name}/{version}`, the parameters of its scope, and those of its path. Two
endpoints may share a name and a version if they differ in the number of parameters.

What is external of an endpoint: whether its specs compile, and to what.

* `registerApi_eq_ok`: which configurations are accepted.
* `matchUrl_pattern`: which urls are of an endpoint, and the values they have for its parameters.
-/

namespace YHub

/-! ## Values -/

/-- A value of a field. -/
inductive ApiValue where
  | undefined
  | null
  | string (s : String)
  /-- Another value, with its text in a template. -/
  | other (text : String)
  deriving DecidableEq, Repr

/-- `/^[A-Za-z0-9_-]+$/` -/
def isApiSegment (s : String) : Bool :=
  s ≠ "" && s.toList.all fun c => c.isAlphanum || ['_', '-'].contains c

/-- One segment of an url. -/
abbrev ApiSegment := { s : String // isApiSegment s = true }

def apiSegment? (s : String) : Option ApiSegment :=
  if h : isApiSegment s = true then some ⟨s, h⟩ else none

inductive ApiScope where
  | doc
  | org
  | global
  deriving DecidableEq, Repr

namespace ApiScope

/-- The parameters of a scope. -/
def params : ApiScope → List String
  | doc => ["org", "docid"]
  | org => ["org"]
  | global => []

/-- `paramOffset` -/
def paramOffset : ApiScope → Nat
  | doc => 2
  | org => 1
  | global => 0

end ApiScope

namespace ApiValue

/-- The text in a template. -/
def text : ApiValue → String
  | undefined => "undefined"
  | null => "null"
  | string s => s
  | other text => text

/-- The default of a field that is destructured. -/
def default (value d : ApiValue) : ApiValue := if value = undefined then d else value

def segment? : ApiValue → Option ApiSegment
  | string s => apiSegment? s
  | _ => none

def scope? : ApiValue → Option ApiScope
  | string s =>
    if s = "doc" then some .doc
    else if s = "org" then some .org
    else if s = "global" then some .global
    else none
  | _ => none

/-- A string or `null`. -/
def purpose? : ApiValue → Option (Option String)
  | null => some none
  | string s => some (some s)
  | _ => none

end ApiValue

/-! ## Endpoints -/

inductive ApiMethod where
  | get
  | post
  | put
  | patch
  | delete
  deriving DecidableEq, Repr

namespace ApiMethod

/-- The keys of `apiMethods`. -/
def all : List ApiMethod := [get, post, put, patch, delete]

def name : ApiMethod → String
  | get => "get"
  | post => "post"
  | put => "put"
  | patch => "patch"
  | delete => "delete"

/-- `method.toUpperCase()`, the method of the requests that uws routes to `app[apiMethods[method]]`.
-/
def upper : ApiMethod → String
  | get => "GET"
  | post => "POST"
  | put => "PUT"
  | patch => "PATCH"
  | delete => "DELETE"

end ApiMethod

/-- A `$query`, with what it compiles to, `none` where that throws. -/
structure QuerySpec where
  coerce : Option (InsertionMap String String → Option String)
  /-- `Object.hasOwn(shape, 'branch')` -/
  hasBranch : Bool

/-- `endpoint[method]` -/
structure ApiMethodDef (α η : Type) where
  /-- `none` is not a function. -/
  handler : Option η
  accessPurpose : ApiValue := .undefined
  query : Option QuerySpec := none
  /-- `$body`, with what it compiles to. -/
  body : Option (Option (BodySpec α)) := none

/-- An element of `builtinApi` or `server.api`. -/
structure ApiEndpointDef (α η : Type) where
  name : ApiValue
  version : ApiValue := .undefined
  scope : ApiValue := .undefined
  path : String := ""
  accessPurpose : ApiValue := .undefined
  cors : EndpointCors := .undefined
  /-- `none` is `null` or `undefined`. -/
  method : ApiMethod → Option (ApiMethodDef α η)

/-- What `registerApi` reads of `conf.server`. -/
structure ApiConfig (α η : Type) where
  apiPrefix : ApiValue
  cors : Option CorsFields
  hasAuth : Bool
  api : List (ApiEndpointDef α η)

/-- The fields that are checked first. -/
structure ApiFields where
  name : ApiSegment
  version : ApiSegment
  scope : ApiScope
  accessPurpose : Option String

/-- The options of `createApiHandler`. -/
structure ApiHandlerOptions (α η : Type) extends ApiEndpoint α where
  method : ApiMethod
  handler : η
  scope : ApiScope
  accessPurpose : Option String
  pathParams : List ApiSegment
  paramOffset : Nat

inductive RouteHandler (α η : Type) where
  | api (opts : ApiHandlerOptions α η)
  | preflight (cors : ResolvedCors) (allowedMethods : String)

structure ApiRoute (α η : Type) where
  method : String
  pattern : String
  handler : RouteHandler α η

/-! ## `registerApi` -/

/-- `resolveApiPrefix` -/
def resolveApiPrefix (apiPrefix : ApiValue) : Except String ApiSegment :=
  let value := if apiPrefix = .null then .string "api" else apiPrefix.default (.string "api")
  match value.segment? with
  | some segment => .ok segment
  | none =>
    .error ("invalid api prefix \"" ++ value.text ++ "\" - must be a single path segment")

section Register

variable {α η : Type}

def ApiEndpointDef.fields (endpoint : ApiEndpointDef α η) : Except String ApiFields :=
  let version := endpoint.version.default (.string "v1")
  let scope := endpoint.scope.default (.string "doc")
  match endpoint.name.segment?, version.segment?, scope.scope?,
    (endpoint.accessPurpose.default .null).purpose? with
  | some name, some version, some scope, some accessPurpose =>
    .ok ⟨name, version, scope, accessPurpose⟩
  | _, _, _, _ =>
    .error ("invalid api endpoint: name=\"" ++ endpoint.name.text ++ "\" version=\"" ++
      version.text ++ "\" scope=\"" ++ scope.text ++ "\"")

/-- The methods that are defined, in the order of `apiMethods`. -/
def ApiEndpointDef.defined (endpoint : ApiEndpointDef α η) :
    List (ApiMethod × ApiMethodDef α η) :=
  ApiMethod.all.filterMap fun method => (endpoint.method method).map (method, ·)

/-- A segment of the path. -/
def addPathParam (message : String) (pathParams : List ApiSegment) (seg : String) :
    Except String (List ApiSegment) :=
  match seg.toList with
  | ':' :: param =>
    match apiSegment? (String.ofList param) with
    | some param =>
      if ["org", "docid", "branch"].contains param.1 || pathParams.contains param then
        .error message
      else .ok (pathParams ++ [param])
    | none => .error message
  | _ => .error message

/-- The parameters of a path. -/
def resolvePath (name path : String) : Except String (List ApiSegment) :=
  if path = "" then .ok []
  else
    match path.toList with
    | '/' :: rest =>
      (split '/' (String.ofList rest)).foldlM
        (addPathParam ("invalid api path \"" ++ path ++ "\" (endpoint \"" ++ name ++ "\")")) []
    | _ =>
      .error ("api path must start with \"/\": \"" ++ path ++ "\" (endpoint \"" ++ name ++ "\")")

/-- What is known of an endpoint before its methods are looked at. -/
structure ApiHead extends ApiFields where
  cors : Option ResolvedCors
  path : String
  pathParams : List ApiSegment

namespace ApiHead

variable (head : ApiHead)

/-- The number of its url params. -/
def depth : Nat := head.scope.paramOffset + head.pathParams.length

def routeKey : String := head.name.1 ++ "/" ++ head.version.1 ++ "/" ++ toString head.depth

def pattern (apiPrefix : ApiSegment) : String :=
  "/" ++ apiPrefix.1 ++ "/" ++ head.name.1 ++ "/" ++ head.version.1 ++
    (if head.scope = .global then "" else "/:org") ++
    (if head.scope = .doc then "/:docid" else "") ++ head.path

/-- What is thrown for an endpoint. -/
def message (text : String) : String := "api endpoint \"" ++ head.name.1 ++ "\": " ++ text

/-- `def.accessPurpose ?? accessPurpose` -/
def resolvePurpose (method : ApiMethod) : ApiValue → Except String (Option String)
  | .undefined => .ok head.accessPurpose
  | .null => .ok head.accessPurpose
  | .string s => .ok (some s)
  | .other _ => .error (head.message ("invalid " ++ method.name ++ ".accessPurpose"))

def resolveQuery (method : ApiMethod) :
    Option QuerySpec → Except String (Option (InsertionMap String String → Option String))
  | none => .ok none
  | some query =>
    match query.coerce with
    | some coerce => .ok (some coerce)
    | none => .error (head.message ("invalid " ++ method.name ++ ".$query"))

def resolveBody (method : ApiMethod) :
    Option (Option (BodySpec α)) → Except String (Option (BodySpec α))
  | none => .ok none
  | some body =>
    if method = .get then .error (head.message "get cannot declare $body")
    else
      match body with
      | some spec => .ok (some spec)
      | none => .error (head.message ("invalid " ++ method.name ++ ".$body"))

/-- One method. -/
def compile (hasAuth : Bool) (method : ApiMethod) (d : ApiMethodDef α η) :
    Except String (ApiHandlerOptions α η) :=
  match d.handler with
  | none => .error (head.message (method.name ++ ".handler must be a function"))
  | some handler => do
    let accessPurpose ← head.resolvePurpose method d.accessPurpose
    let coerceQuery ← head.resolveQuery method d.query
    let bodySpec ← head.resolveBody method d.body
    return {
      hasAuth, coerceQuery, bodySpec, method, handler, accessPurpose
      requiredAccess := if method = .get then .r else .rw
      queryDeclaresBranch := head.scope = .doc && d.query.any QuerySpec.hasBranch
      cors := head.cors
      scope := head.scope
      pathParams := head.pathParams
      paramOffset := head.scope.paramOffset }

/-- The handlers of an endpoint. -/
def resolveMethods (hasAuth : Bool) (endpoint : ApiEndpointDef α η) :
    Except String (List (ApiHandlerOptions α η)) :=
  if endpoint.defined.isEmpty then
    .error ("api endpoint \"" ++ head.name.1 ++ "\" defines no method handlers")
  else endpoint.defined.mapM fun m => head.compile hasAuth m.1 m.2

/-- `Allow` of the preflight. -/
def allowedMethods (methods : List (ApiHandlerOptions α η)) : String :=
  ", ".intercalate (methods.map (·.method.upper) ++ ["OPTIONS"])

/-- The routes of an endpoint. -/
def routes (apiPrefix : ApiSegment) (methods : List (ApiHandlerOptions α η)) :
    List (ApiRoute α η) :=
  (methods.map fun opts => ⟨opts.method.upper, head.pattern apiPrefix, .api opts⟩) ++
    match head.cors with
    | none => []
    | some cors =>
      [⟨"OPTIONS", head.pattern apiPrefix, .preflight cors (allowedMethods methods)⟩]

end ApiHead

variable (t : CaseTable) (schemaErr : CorsFields → String)

/-- The checks before the one for duplicates. -/
def resolveHead (serverCors : Option CorsFields) (endpoint : ApiEndpointDef α η) :
    Except String ApiHead := do
  let fields ← endpoint.fields
  let cors ← (resolveCors t schemaErr serverCors endpoint.cors).mapError fun message =>
    message ++ " (endpoint \"" ++ fields.name.1 ++ "\")"
  let pathParams ← resolvePath fields.name.1 endpoint.path
  return { fields with cors, path := endpoint.path, pathParams }

/-- One endpoint, after those whose keys and routes are registered. -/
def registerEndpoint (server : ApiConfig α η) (apiPrefix : ApiSegment)
    (registered : List String × List (ApiRoute α η)) (endpoint : ApiEndpointDef α η) :
    Except String (List String × List (ApiRoute α η)) := do
  let head ← resolveHead t schemaErr server.cors endpoint
  if head.routeKey ∈ registered.1 then
    .error ("duplicate api endpoint \"" ++ head.name.1 ++ "\" (version \"" ++ head.version.1 ++
      "\", " ++ toString head.depth ++ " url params)")
  else do
    let methods ← head.resolveMethods server.hasAuth endpoint
    return (registered.1 ++ [head.routeKey], registered.2 ++ head.routes apiPrefix methods)

/-- The handlers of the built-in endpoints. -/
inductive BuiltinHandler where
  | getYdoc
  | deleteYdoc
  | patchYdoc
  | rollback
  | prune
  | changeset
  | activity
  deriving DecidableEq, Repr

/-- What the specs of the built-in endpoints compile to. -/
structure BuiltinSpecs (α : Type) where
  ydocQuery : InsertionMap String String → Option String
  ydocBody : BodySpec α
  rollbackBody : BodySpec α
  pruneBody : BodySpec α
  changesetQuery : InsertionMap String String → Option String
  activityQuery : InsertionMap String String → Option String

/-- `builtinApi` -/
def builtinApi (specs : BuiltinSpecs α) : List (ApiEndpointDef α (BuiltinHandler ⊕ η)) :=
  [{ name := .string "ydoc"
     method := fun
       | .get => some
         { handler := some (.inl .getYdoc), query := some ⟨some specs.ydocQuery, false⟩ }
       | .delete => some
         { handler := some (.inl .deleteYdoc), accessPurpose := .string "delete" }
       | .patch => some { handler := some (.inl .patchYdoc), body := some (some specs.ydocBody) }
       | _ => none },
   { name := .string "rollback"
     method := fun
       | .post => some
         { handler := some (.inl .rollback), body := some (some specs.rollbackBody) }
       | _ => none },
   { name := .string "prune"
     method := fun
       | .post => some { handler := some (.inl .prune), body := some (some specs.pruneBody) }
       | _ => none },
   { name := .string "changeset"
     method := fun
       | .get => some
         { handler := some (.inl .changeset), query := some ⟨some specs.changesetQuery, false⟩ }
       | _ => none },
   { name := .string "activity"
     method := fun
       | .get => some
         { handler := some (.inl .activity), query := some ⟨some specs.activityQuery, false⟩ }
       | _ => none }]

/-- The endpoints, in the order in which they are registered. -/
def ApiConfig.endpoints (specs : BuiltinSpecs α) (server : ApiConfig α (BuiltinHandler ⊕ η)) :
    List (ApiEndpointDef α (BuiltinHandler ⊕ η)) := builtinApi specs ++ server.api

def registerApi (specs : BuiltinSpecs α) (server : ApiConfig α (BuiltinHandler ⊕ η)) :
    Except String (List (ApiRoute α (BuiltinHandler ⊕ η))) := do
  let apiPrefix ← resolveApiPrefix server.apiPrefix
  let registered ← (server.endpoints specs).foldlM
    (registerEndpoint t schemaErr server apiPrefix) (["ws/v1/2"], [])
  return registered.2

/-- The route of `registerWebsocketServer`. -/
def wsPattern (apiPrefix : ApiSegment) : String := "/" ++ apiPrefix.1 ++ "/ws/v1/:org/:docid"

/-- What `createApiHandler` takes from the parameters of the url. -/
structure ApiTarget where
  org : Option String
  docid : Option String
  params : List (String × Option String)
  deriving DecidableEq, Repr

/-- `values[i]` is `req.getParameter(i)`. -/
def ApiHandlerOptions.target (opts : ApiHandlerOptions α η) (values : List String) : ApiTarget where
  org := if opts.scope = .global then none else values[0]?
  docid := if opts.scope = .doc then values[1]? else none
  -- the assignment of a string to `__proto__` is ignored
  params := (opts.pathParams.mapIdx fun i param => (param.1, values[opts.paramOffset + i]?)).filter
    fun p => p.1 ≠ "__proto__"

variable {t schemaErr}

/-! ## Segments and paths -/

theorem apiSegment?_eq_some {s : String} {a : ApiSegment} (h : apiSegment? s = some a) :
    a.1 = s := by
  unfold apiSegment? at h
  split_ifs at h
  obtain rfl := Option.some.inj h
  rfl

theorem ApiSegment.notMem (a : ApiSegment) {c : Char}
    (hc : (c.isAlphanum || ['_', '-'].contains c) = false) : c ∉ a.1.toList := by
  intro hmem
  have hall := (Bool.and_eq_true_iff.mp a.2).2
  exact absurd ((List.all_eq_true.mp hall) c hmem) (by rw [hc]; exact Bool.false_ne_true)

theorem ApiSegment.plain (a : ApiSegment) :
    (UrlPart.literal a.1).Plain ∧ (UrlPart.param a.1).Plain := by
  have hslash : '/' ∉ a.1.toList := a.notMem rfl
  refine ⟨⟨hslash, fun hhead => ?_⟩, hslash⟩
  exact a.notMem rfl (List.mem_of_mem_head? hhead)

/-- What is known of the parameters of a path. -/
structure PathParams (path : List Char) (pathParams : List ApiSegment) : Prop where
  text : path = slashed (pathParams.map fun param => ':' :: param.1.toList)
  nodup : pathParams.Nodup
  free : ∀ param ∈ pathParams, param.1 ∉ ["org", "docid", "branch"]

theorem addPathParam_eq_ok {message seg : String} {pathParams next : List ApiSegment}
    (h : addPathParam message pathParams seg = .ok next) :
    ∃ param : ApiSegment, seg.toList = ':' :: param.1.toList ∧
      param.1 ∉ ["org", "docid", "branch"] ∧ param ∉ pathParams ∧ next = pathParams ++ [param] := by
  unfold addPathParam at h
  split at h
  · rename_i text htext
    split at h
    · rename_i param hparam
      split_ifs at h with hcheck
      have hname : param.1.toList = text := by
        rw [apiSegment?_eq_some hparam, String.toList_ofList]
      simp only [Bool.or_eq_true, List.contains_iff_mem, not_or] at hcheck
      exact ⟨param, hname ▸ htext, hcheck.1, hcheck.2, (Except.ok.inj h).symm⟩
    · exact absurd h (by simp)
  · exact absurd h (by simp)

/-- **An accepted path** is its parameters, which have distinct names. -/
theorem resolvePath_eq_ok {name path : String} {pathParams : List ApiSegment}
    (h : resolvePath name path = .ok pathParams) : PathParams path.toList pathParams := by
  unfold resolvePath at h
  split_ifs at h with hempty
  · obtain rfl := Except.ok.inj h
    subst hempty
    exact ⟨rfl, List.nodup_nil, by simp⟩
  · split at h
    · rename_i rest hpath
      have hfold : PathParams
          (slashed ((split '/' (String.ofList rest)).map String.toList)) pathParams := by
        refine Outcome.foldlM_eq_ok (P := fun done params =>
          PathParams (slashed (done.map String.toList)) params) ?_ ?_ h
        · exact ⟨rfl, List.nodup_nil, by simp⟩
        · intro done seg params next _ hdone hnext
          obtain ⟨param, hseg, hfree, hnew, rfl⟩ := addPathParam_eq_ok hnext
          refine ⟨?_, ?_, fun p hp => ?_⟩
          · rw [List.map_append, List.map_append, slashed_append, slashed_append, hdone.text]
            simp [slashed, hseg]
          · exact hdone.nodup.append (List.nodup_singleton _)
              (List.disjoint_singleton.mpr hnew)
          · rcases List.mem_append.mp hp with hp | hp
            · exact hdone.free p hp
            · exact List.mem_singleton.mp hp ▸ hfree
      have hsplit : (split '/' (String.ofList rest)).map String.toList = rest.splitOn '/' := by
        unfold split
        rw [String.toList_ofList, List.map_map]
        exact (List.map_congr_left fun _ _ => String.toList_ofList).trans (List.map_id _)
      rw [hsplit, slashed_splitOn, ← hpath] at hfold
      exact hfold
    · exact absurd h (by simp)

/-! ## Patterns -/

theorem paramOffset_eq (scope : ApiScope) : scope.paramOffset = scope.params.length := by
  cases scope <;> rfl

namespace ApiHead

/-- The parts of the pattern. -/
def template (head : ApiHead) (apiPrefix : ApiSegment) : UrlTemplate :=
  [apiPrefix.1, head.name.1, head.version.1].map .literal ++
    (head.scope.params ++ head.pathParams.map Subtype.val).map .param

variable {head : ApiHead} {apiPrefix : ApiSegment}

theorem pattern_eq (h : PathParams head.path.toList head.pathParams) :
    head.pattern apiPrefix = (head.template apiPrefix).text := by
  have hscope : (if head.scope = .global then "" else "/:org").toList ++
      (if head.scope = .doc then "/:docid" else "").toList =
        slashed ((head.scope.params.map UrlPart.param).map UrlPart.chars) := by
    cases head.scope <;> rfl
  have hpath : head.path.toList =
      slashed (((head.pathParams.map Subtype.val).map UrlPart.param).map UrlPart.chars) := by
    rw [h.text, List.map_map, List.map_map]
    rfl
  apply String.toList_injective
  unfold pattern template UrlTemplate.text
  rw [String.toList_ofList, List.map_append, List.map_append, List.map_append, slashed_append,
    slashed_append, ← hpath, ← hscope]
  simp [slashed, UrlPart.chars]

theorem plain_template (head : ApiHead) (apiPrefix : ApiSegment) :
    ∀ part ∈ head.template apiPrefix, part.Plain := by
  intro part hpart
  rcases List.mem_append.mp hpart with hpart | hpart
  · have hliterals : [apiPrefix.1, head.name.1, head.version.1] =
        [apiPrefix, head.name, head.version].map Subtype.val := rfl
    rw [hliterals, List.map_map] at hpart
    obtain ⟨a, -, rfl⟩ := List.mem_map.mp hpart
    exact (ApiSegment.plain a).1
  · obtain ⟨name, hname, rfl⟩ := List.mem_map.mp hpart
    rcases List.mem_append.mp hname with hname | hname
    · have hplain : ∀ name ∈ head.scope.params, '/' ∉ name.toList := by
        cases head.scope <;> decide
      exact hplain name hname
    · obtain ⟨a, -, rfl⟩ := List.mem_map.mp hname
      exact (ApiSegment.plain a).2

/-- **The urls of an endpoint.** -/
theorem matchUrl_pattern (h : PathParams head.path.toList head.pathParams)
    {url values : List String} :
    (UrlTemplate.parse (head.pattern apiPrefix)).matchUrl url = some values ↔
      url = [apiPrefix.1, head.name.1, head.version.1] ++ values ∧
        values.length = head.depth ∧ "" ∉ values := by
  rw [pattern_eq h, UrlTemplate.parse_text (plain_template head apiPrefix)]
  unfold template
  rw [UrlTemplate.matchUrl_literals]
  have hdepth : (head.scope.params ++ head.pathParams.map Subtype.val).length = head.depth := by
    rw [List.length_append, List.length_map, ← paramOffset_eq]
    rfl
  constructor
  · rintro ⟨rest, rfl, hrest⟩
    obtain ⟨rfl, hlen, hempty⟩ := UrlTemplate.matchUrl_params.mp hrest
    exact ⟨rfl, hlen.trans hdepth, hempty⟩
  · rintro ⟨rfl, hlen, hempty⟩
    exact ⟨values, rfl, UrlTemplate.matchUrl_params.mpr ⟨rfl, hlen.trans hdepth.symm, hempty⟩⟩

end ApiHead

/-! ## Methods -/

section Methods

variable {head : ApiHead} {hasAuth : Bool} {method : ApiMethod} {d : ApiMethodDef α η}
  {opts : ApiHandlerOptions α η} {endpoint : ApiEndpointDef α η}
  {methods : List (ApiHandlerOptions α η)}

theorem ApiMethod.upper_injective : Function.Injective ApiMethod.upper := by
  intro a b h
  cases a <;> cases b <;> first | rfl | exact absurd h (by decide)

/-- What a handler is told of its endpoint. -/
structure ApiHead.Tells (head : ApiHead) (m : ApiMethod) (opts : ApiHandlerOptions α η) :
    Prop where
  method : opts.method = m
  requiredAccess : opts.requiredAccess = if m = .get then .r else .rw
  scope : opts.scope = head.scope
  pathParams : opts.pathParams = head.pathParams
  paramOffset : opts.paramOffset = head.scope.paramOffset
  cors : opts.cors = head.cors

theorem ApiHead.compile_eq_ok (h : head.compile hasAuth method d = .ok opts) :
    head.Tells method opts := by
  unfold ApiHead.compile at h
  cases hhandler : d.handler with
  | none =>
    rw [hhandler] at h
    exact absurd h (by simp)
  | some handler =>
    rw [hhandler] at h
    obtain ⟨accessPurpose, -, h⟩ := Outcome.bind_eq_ok.mp h
    obtain ⟨coerceQuery, -, h⟩ := Outcome.bind_eq_ok.mp h
    obtain ⟨bodySpec, -, h⟩ := Outcome.bind_eq_ok.mp h
    obtain rfl := Except.ok.inj h
    exact ⟨rfl, rfl, rfl, rfl, rfl, rfl⟩

theorem mem_defined : (method, d) ∈ endpoint.defined ↔ endpoint.method method = some d := by
  have hall : method ∈ ApiMethod.all := by cases method <;> decide
  unfold ApiEndpointDef.defined
  rw [List.mem_filterMap]
  constructor
  · rintro ⟨method', -, h⟩
    obtain ⟨d', hd', h⟩ := Option.map_eq_some_iff.mp h
    obtain ⟨rfl, rfl⟩ := Prod.mk.inj h
    exact hd'
  · exact fun h => ⟨method, hall, by rw [h]; rfl⟩

theorem nodup_defined : (endpoint.defined.map Prod.fst).Nodup := by
  have hkeys : (endpoint.defined.map Prod.fst) =
      ApiMethod.all.filter fun method => (endpoint.method method).isSome := by
    unfold ApiEndpointDef.defined
    rw [List.map_filterMap, ← List.filterMap_eq_filter]
    refine List.filterMap_congr fun method _ => ?_
    cases h : endpoint.method method <;> simp [Option.guard, h]
  have hall : ApiMethod.all.Nodup := by decide
  rw [hkeys]
  exact hall.filter _

theorem ApiHead.resolveMethods_eq_ok (h : head.resolveMethods hasAuth endpoint = .ok methods) :
    endpoint.defined.mapM (fun m => head.compile hasAuth m.1 m.2) = .ok methods := by
  unfold ApiHead.resolveMethods at h
  split_ifs at h
  exact h

theorem ApiHead.mem_of_resolveMethods (h : head.resolveMethods hasAuth endpoint = .ok methods) :
    opts ∈ methods ↔ ∃ d, endpoint.method opts.method = some d ∧
      head.compile hasAuth opts.method d = .ok opts := by
  rw [Outcome.mem_of_mapM_eq_ok (ApiHead.resolveMethods_eq_ok h)]
  constructor
  · rintro ⟨⟨method, d⟩, hmem, hcompile⟩
    have hmethod : opts.method = method := (ApiHead.compile_eq_ok hcompile).method
    exact ⟨d, hmethod ▸ mem_defined.mp hmem, by rw [hmethod]; exact hcompile⟩
  · rintro ⟨d, hd, hcompile⟩
    exact ⟨(opts.method, d), mem_defined.mpr hd, hcompile⟩

theorem ApiHead.nodup_of_resolveMethods (h : head.resolveMethods hasAuth endpoint = .ok methods) :
    (methods.map (·.method.upper)).Nodup := by
  have hmap := Outcome.map_of_mapM_eq_ok (ApiHead.resolveMethods_eq_ok h)
    (g := fun opts => opts.method) (k := Prod.fst)
    fun m opts hopts => (ApiHead.compile_eq_ok hopts).method
  have hnodup : (methods.map (·.method)).Nodup := hmap ▸ nodup_defined
  have hupper := hnodup.map ApiMethod.upper_injective
  rwa [List.map_map] at hupper

end Methods

/-! ## What is registered -/

/-- An endpoint that is accepted alone. -/
structure ResolvedEndpoint (α η : Type) where
  head : ApiHead
  methods : List (ApiHandlerOptions α η)

/-- Two endpoints may not have the same. -/
def ApiHead.place (head : ApiHead) : String × String × Nat :=
  (head.name.1, head.version.1, head.depth)

def ResolvedEndpoint.place (e : ResolvedEndpoint α η) : String × String × Nat := e.head.place

def ResolvedEndpoint.routes (apiPrefix : ApiSegment) (e : ResolvedEndpoint α η) :
    List (ApiRoute α η) := e.head.routes apiPrefix e.methods

/-- The checks of an endpoint, but the one for duplicates. -/
def resolveEndpoint (t : CaseTable) (schemaErr : CorsFields → String) (server : ApiConfig α η)
    (endpoint : ApiEndpointDef α η) : Except String (ResolvedEndpoint α η) := do
  let head ← resolveHead t schemaErr server.cors endpoint
  let methods ← head.resolveMethods server.hasAuth endpoint
  return ⟨head, methods⟩

theorem resolveEndpoint_eq_ok {server : ApiConfig α η} {endpoint : ApiEndpointDef α η}
    {e : ResolvedEndpoint α η} :
    resolveEndpoint t schemaErr server endpoint = .ok e ↔
      resolveHead t schemaErr server.cors endpoint = .ok e.head ∧
        e.head.resolveMethods server.hasAuth endpoint = .ok e.methods := by
  unfold resolveEndpoint
  rw [Outcome.bind_eq_ok]
  constructor
  · rintro ⟨head, hhead, h⟩
    obtain ⟨methods, hmethods, h⟩ := Outcome.bind_eq_ok.mp h
    obtain rfl := Except.ok.inj h
    exact ⟨hhead, hmethods⟩
  · rintro ⟨hhead, hmethods⟩
    exact ⟨e.head, hhead, Outcome.bind_eq_ok.mpr ⟨e.methods, hmethods, rfl⟩⟩

/-- The text of a key is read back. -/
theorem routeKey_inj {name name' version version' : ApiSegment} {n n' : Nat} :
    name.1 ++ "/" ++ version.1 ++ "/" ++ toString n =
      name'.1 ++ "/" ++ version'.1 ++ "/" ++ toString n' ↔
      (name.1, version.1, n) = (name'.1, version'.1, n') := by
  constructor
  · intro h
    have hchars := congrArg String.toList h
    simp only [String.toList_append, List.append_assoc] at hchars
    obtain ⟨hname, hrest⟩ := (append_cons_inj (ApiSegment.notMem name rfl)
      (ApiSegment.notMem name' rfl)).mp hchars
    obtain ⟨hversion, hdigits⟩ := (append_cons_inj (ApiSegment.notMem version rfl)
      (ApiSegment.notMem version' rfl)).mp hrest
    have hn : n = n' := by
      change (Nat.repr n).toList = (Nat.repr n').toList at hdigits
      rw [Nat.toList_repr, Nat.toList_repr] at hdigits
      have hvalue := congrArg (Nat.ofDigitChars 10 · 0) hdigits
      simpa only [Nat.ofDigitChars_ten_toDigits] using hvalue
    rw [String.toList_injective hname, String.toList_injective hversion, hn]
  · intro h
    obtain ⟨hname, h⟩ := Prod.mk.inj h
    obtain ⟨hversion, rfl⟩ := Prod.mk.inj h
    rw [hname, hversion]

/-- The version by default. -/
def v1 : ApiSegment := ⟨"v1", rfl⟩

/-- The endpoint of the websocket, as far as urls are concerned. -/
def wsHead : ApiHead where
  name := ⟨"ws", rfl⟩
  version := v1
  scope := .doc
  accessPurpose := none
  cors := none
  path := ""
  pathParams := []

theorem wsHead_pattern (apiPrefix : ApiSegment) :
    wsHead.pattern apiPrefix = wsPattern apiPrefix := by
  apply String.toList_injective
  simp [ApiHead.pattern, wsPattern, wsHead, v1]

theorem registerEndpoint_eq_ok {server : ApiConfig α η} {apiPrefix : ApiSegment}
    (registered : List String × List (ApiRoute α η)) (endpoint : ApiEndpointDef α η)
    (next : List String × List (ApiRoute α η)) :
    registerEndpoint t schemaErr server apiPrefix registered endpoint = .ok next ↔
      ∃ e, resolveEndpoint t schemaErr server endpoint = .ok e ∧
        e.head.routeKey ∉ registered.1 ∧
        next = (registered.1 ++ [e.head.routeKey], registered.2 ++ e.routes apiPrefix) := by
  unfold registerEndpoint
  rw [Outcome.bind_eq_ok]
  constructor
  · rintro ⟨head, hhead, h⟩
    split_ifs at h with hkey
    obtain ⟨methods, hmethods, h⟩ := Outcome.bind_eq_ok.mp h
    obtain rfl := Except.ok.inj h
    exact ⟨⟨head, methods⟩, resolveEndpoint_eq_ok.mpr ⟨hhead, hmethods⟩, hkey, rfl⟩
  · rintro ⟨e, he, hkey, rfl⟩
    obtain ⟨hhead, hmethods⟩ := resolveEndpoint_eq_ok.mp he
    refine ⟨e.head, hhead, ?_⟩
    rw [if_neg hkey]
    exact Outcome.bind_eq_ok.mpr ⟨e.methods, hmethods, rfl⟩

/-- **What is registered**: each endpoint alone, if they have distinct places, and not the one of
the websocket. -/
theorem registerApi_eq_ok {specs : BuiltinSpecs α} {server : ApiConfig α (BuiltinHandler ⊕ η)}
    {routes : List (ApiRoute α (BuiltinHandler ⊕ η))} :
    registerApi t schemaErr specs server = .ok routes ↔
      ∃ apiPrefix es, resolveApiPrefix server.apiPrefix = .ok apiPrefix ∧
        (server.endpoints specs).mapM (resolveEndpoint t schemaErr server) = .ok es ∧
        (wsHead.place :: es.map ResolvedEndpoint.place).Nodup ∧
        routes = es.flatMap (ResolvedEndpoint.routes apiPrefix) := by
  have hloop (apiPrefix : ApiSegment) (final : List String × List (ApiRoute α _)) :
      (server.endpoints specs).foldlM (registerEndpoint t schemaErr server apiPrefix)
          (["ws/v1/2"], []) = .ok final ↔
        ∃ es, (server.endpoints specs).mapM (resolveEndpoint t schemaErr server) = .ok es ∧
          (es.map fun e => e.head.routeKey).Nodup ∧
          (∀ e ∈ es, e.head.routeKey ∉ ["ws/v1/2"]) ∧
          final = (["ws/v1/2"] ++ es.map fun e => e.head.routeKey,
            es.foldl (fun rs e => rs ++ e.routes apiPrefix) []) :=
    Outcome.foldlM_distinct_eq_ok registerEndpoint_eq_ok
  have hflat (apiPrefix : ApiSegment) (es : List (ResolvedEndpoint α (BuiltinHandler ⊕ η))) :
      es.foldl (fun rs e => rs ++ e.routes apiPrefix) [] =
        es.flatMap (ResolvedEndpoint.routes apiPrefix) := by
    rw [List.flatMap_eq_foldl]
  have hkeys (es : List (ResolvedEndpoint α (BuiltinHandler ⊕ η))) :
      ((es.map fun e => e.head.routeKey).Nodup ∧ ∀ e ∈ es, e.head.routeKey ∉ ["ws/v1/2"]) ↔
        (wsHead.place :: es.map ResolvedEndpoint.place).Nodup := by
    have hws (e : ResolvedEndpoint α (BuiltinHandler ⊕ η)) :
        e.head.routeKey ∉ ["ws/v1/2"] ↔ wsHead.place ≠ e.place := by
      have hkey : wsHead.routeKey = "ws/v1/2" := rfl
      rw [List.mem_singleton, not_iff_not, ← hkey]
      exact routeKey_inj.trans eq_comm
    rw [List.nodup_cons, List.Nodup, List.pairwise_map, List.Nodup, List.pairwise_map, and_comm]
    refine and_congr ?_ ?_
    · rw [List.mem_map, not_exists]
      simp only [not_and]
      exact forall₂_congr fun e _ => (hws e).trans ne_comm
    · exact List.Pairwise.iff fun e e' => not_congr routeKey_inj
  unfold registerApi
  rw [Outcome.bind_eq_ok]
  constructor
  · rintro ⟨apiPrefix, hprefix, h⟩
    obtain ⟨final, hfinal, h⟩ := Outcome.bind_eq_ok.mp h
    obtain rfl := Except.ok.inj h
    obtain ⟨es, hes, hnodup, hfresh, rfl⟩ := (hloop apiPrefix final).mp hfinal
    exact ⟨apiPrefix, es, hprefix, hes, (hkeys es).mp ⟨hnodup, hfresh⟩, hflat apiPrefix es⟩
  · rintro ⟨apiPrefix, es, hprefix, hes, hnodup, rfl⟩
    obtain ⟨hkey, hfresh⟩ := (hkeys es).mpr hnodup
    refine ⟨apiPrefix, hprefix, Outcome.bind_eq_ok.mpr ⟨_, (hloop apiPrefix _).mpr
      ⟨es, hes, hkey, hfresh, rfl⟩, ?_⟩⟩
    exact congrArg Except.ok (hflat apiPrefix es)

end Register

end YHub
