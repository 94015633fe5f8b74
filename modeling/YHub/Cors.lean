import YHub.Lib.InsertionMap
import YHub.Lib.JsNumber
import YHub.Lib.LowerCase
import YHub.Lib.Outcome
import YHub.Lib.Pattern
import YHub.Lib.Strings

/-!
# The cors configuration and the origin gate (`cors.js:22-284`, `types.js:468-516`)

`resolveCors` merges `server.cors` with the override of an endpoint, checks the merged fields, and
splits the allowlist into exact origins and wildcards, in lower case. `originAllowed` decides of the
headers `Origin`, `Host` and `Sec-Fetch-Site` whether a request may proceed. `schemaErr` is the text
of the error of `$cors.check`.

* `field_mergeFields`: the merged fields, field by field.
* `resolveCors_eq_ok`: what is accepted, `allowlist_of_resolveOrigins`: what its allowlist becomes.
-/

namespace YHub

/-! ## Values -/

/-- A value of a field. `array` has the elements that are strings, `none` for another value; an
object or a function is `other`. -/
inductive CorsValue where
  | undefined
  | null
  | bool (b : Bool)
  | number (x : JsNumber)
  | string (s : String)
  | array (elems : List (Option String))
  | other
  deriving DecidableEq

/-- The enumerable fields. -/
abbrev CorsFields := InsertionMap String CorsValue

/-- The field `cors` of an endpoint, which no schema covers. -/
inductive EndpointCors where
  | undefined
  | null
  /-- A primitive, a function or an array. -/
  | notAnObject
  | fields (override : CorsFields)

namespace CorsFields

/-- `cors[name]` -/
def field (cors : CorsFields) (name : String) : CorsValue := (cors.get name).getD .undefined

end CorsFields

/-- `corsFields`, the shape of `$cors`. -/
def corsFields : List String :=
  ["origin", "credentials", "trustSameOrigin", "allowHeaders", "exposeHeaders", "maxAge"]

namespace CorsValue

/-- `typeof value === 'string' || array.isArray(value)` -/
def isOrigin : CorsValue → Bool
  | string _ => true
  | array _ => true
  | _ => false

/-- An array with an element that is not a string. -/
def hasOtherElem : CorsValue → Bool
  | array elems => elems.contains none
  | _ => false

/-- `s.$array(s.$string)` -/
def isStrings : CorsValue → Bool
  | array elems => !elems.contains none
  | _ => false

/-- `s.$boolean.optional` -/
def isOptionalBool : CorsValue → Bool
  | undefined => true
  | bool _ => true
  | _ => false

/-- A non-negative integer. -/
def isSeconds : CorsValue → Bool
  | number x => x.isInteger && !x.lt (.ofNat 0)
  | _ => false

/-- The elements of an array of strings. -/
def strings? : CorsValue → Option (List String)
  | array elems => some (elems.filterMap id)
  | _ => none

/-- `array.isArray(origin) ? origin : [origin]` -/
def originList : CorsValue → List String
  | string s => [s]
  | array elems => elems.filterMap id
  | _ => []

end CorsValue

/-! ## Regular expressions -/

/-- `\s` -/
def isSpace (c : Char) : Bool :=
  [9, 10, 11, 12, 13, 32, 0xa0, 0x1680, 0x2028, 0x2029, 0x202f, 0x205f, 0x3000, 0xfeff].contains
    c.toNat || (0x2000 ≤ c.toNat && c.toNat ≤ 0x200a)

/-- `[A-Za-z0-9+.-]` -/
def isSchemeChar (c : Char) : Bool := c.isAlphanum || ['+', '.', '-'].contains c

/-- `[^/?#\s]`, without the characters of `more`. -/
def isHostChar (more : List Char) (c : Char) : Bool :=
  !(['/', '?', '#'] ++ more).contains c && !isSpace c

/-- A scheme, and then the items. -/
def schemeRegex (items : List Pattern.Item) : List Char → Bool
  | [] => false
  | c :: s => c.isAlpha && (Pattern.exec (.rep true 0 isSchemeChar :: items) s).isSome

/-- `/^[A-Za-z][A-Za-z0-9+.-]*:\/\/[^/?#\s]+$/` -/
def originRegex : List Char → Bool :=
  schemeRegex (Pattern.literal "://" ++ [.rep true 1 (isHostChar [])])

/-- `/^[A-Za-z][A-Za-z0-9+.-]*:\/\/\*\.[^/?#*.:\s]+\.[^/?#*\s]+$/` -/
def wildcardRegex : List Char → Bool :=
  schemeRegex (Pattern.literal "://*." ++
    [.rep true 1 (isHostChar ['*', '.', ':']), .lit '.', .rep true 1 (isHostChar ['*'])])

/-- `/^(https:\/\/[^/?#]+:443|http:\/\/[^/?#]+:80)$/i` -/
def defaultPortRegex (s : List Char) : Bool :=
  let isAuthorityChar := fun c => !(['/', '?', '#'].contains c)
  [("https://", ":443"), ("http://", ":80")].any fun (scheme, port) =>
    (Pattern.exec (Pattern.literal scheme ++ .rep true 1 isAuthorityChar :: Pattern.literal port)
      (s.map Char.toLower)).isSome

/-! ## `resolveCors` -/

/-- A wildcard entry, split at the `*`. -/
structure OriginPattern where
  prefix_ : List Char
  suffix : List Char
  deriving DecidableEq, Repr

structure ResolvedCors where
  originAll : Bool
  /-- `null` when `originAll`. -/
  origins : Option (List (List Char))
  originPatterns : Option (List OriginPattern)
  credentials : Bool
  trustSameOrigin : Bool
  allowHeaders : Option String
  exposeHeaders : Option String
  /-- The header has the text of this number. -/
  maxAge : JsNumber
  deriving DecidableEq

def unknownField (field : String) : String :=
  "invalid cors config: unknown field \"" ++ field ++ "\""

/-- A field of the override; an explicit `undefined` is like an absent field. -/
def mergeField (merged : CorsFields) (entry : String × CorsValue) : Except String CorsFields :=
  if entry.1 ∉ corsFields then .error (unknownField entry.1)
  else .ok (if entry.2 = .undefined then merged else merged.set entry.1 entry.2)

/-- The override over the fields of the server. -/
def mergeFields (serverCors : Option CorsFields) (override : CorsFields) :
    Except String CorsFields :=
  override.entries.foldlM mergeField (serverCors.getD .empty)

/-- What is thrown for an entry of the allowlist. -/
def checkOrigin (origin : String) : Except String Unit :=
  if origin = "null" then
    .error ("invalid cors origin \"null\" - \"null\" is the origin of every sandboxed iframe " ++
      "and file:// page and cannot be allowlisted. Apps without a real origin (Electron, " ++
      "file://) should strip or replace the `Origin` header instead (see API.md)")
  else if origin = "" then
    .error ("invalid cors config: empty origin entry - check the allowlist for a doubled or " ++
      "trailing comma")
  else if origin = "*" then
    .error "invalid cors origin \"*\" in an allowlist - use origin: '*' to allow every origin"
  else if (indexOf ['*'] origin.toList).isSome && !wildcardRegex origin.toList then
    .error ("invalid cors origin \"" ++ origin ++ "\" - a wildcard origin starts its host with " ++
      "\"*.\" followed by at least two labels (https://*.example.com)")
  else if (indexOf ['*'] origin.toList).isNone && !originRegex origin.toList then
    .error ("invalid cors origin \"" ++ origin ++ "\" - expected scheme://host[:port] without a " ++
      "trailing slash" ++ if ',' ∈ origin.toList then "; use an array for several origins" else "")
  else if defaultPortRegex origin.toList then
    .error ("invalid cors origin \"" ++ origin ++ "\" - browsers omit the default port from " ++
      "the Origin header, so this never matches; drop the port")
  else .ok ()

variable (t : CaseTable)

/-- An entry goes to the set of origins or to the patterns. -/
def pushOrigin (acc : List (List Char) × List OriginPattern) (origin : String) :
    List (List Char) × List OriginPattern :=
  let lower := t.toLowerCase origin.toList
  match indexOf ['*'] origin.toList with
  | some star => (acc.1, acc.2 ++ [⟨lower.take star, lower.drop (star + 1)⟩])
  | none => (if lower ∈ acc.1 then acc.1 else acc.1 ++ [lower], acc.2)

def addOrigin (acc : List (List Char) × List OriginPattern) (origin : String) :
    Except String (List (List Char) × List OriginPattern) :=
  (checkOrigin origin).map fun _ => pushOrigin t acc origin

def resolveOrigins (list : List String) :
    Except String (List (List Char) × List OriginPattern) :=
  if list = [] then .error "invalid cors config: `origin` allowlist is empty"
  else list.foldlM (addOrigin t) ([], [])

/-- `$cors.check(cors)` -/
def checkSchema (cors : CorsFields) : Bool :=
  (match cors.field "origin" with
    | .string _ => true
    | value => value.isStrings) &&
  (cors.field "credentials").isOptionalBool && (cors.field "trustSameOrigin").isOptionalBool &&
  (["allowHeaders", "exposeHeaders"].all fun name =>
    cors.field name = .undefined || (cors.field name).isStrings) &&
  match cors.field "maxAge" with
  | .undefined => true
  | .number _ => true
  | _ => false

/-- `(headers ?? default).join(', ') || null` -/
def joinHeaders (headers : Option (List String)) (default : List String) : Option String :=
  let text := ", ".intercalate (headers.getD default)
  if text = "" then none else some text

/-- The first of the checks that fails, before the allowlist is looked at. -/
def checkFields (schemaErr : CorsFields → String) (cors : CorsFields) : Except String Unit :=
  let origin := cors.field "origin"
  let invalid := fun name => cors.field name ≠ .undefined && !(cors.field name).isStrings
  let hasStar := fun name => ((cors.field name).strings?.getD []).contains "*"
  let hasAuthorization := ((cors.field "allowHeaders").strings?.getD []).any fun header =>
    t.toLowerCase header.toList = "authorization".toList
  let credentials := cors.field "credentials" = .bool true
  match cors.keys.find? (· ∉ corsFields), ["allowHeaders", "exposeHeaders"].find? invalid with
  | some field, _ => .error (unknownField field)
  | none, invalidHeaders =>
    if origin = .undefined then
      .error ("invalid cors config: `origin` is required - an endpoint override inherits it " ++
        "from `server.cors` when that is set")
    else if !origin.isOrigin then
      .error ("invalid cors config: `origin` must be '*', an origin string, or an array of " ++
        "origins - a function, regex, or boolean origin is not supported, the allowlist is " ++
        "fixed at startup (see API.md)")
    else if origin.hasOtherElem then
      .error "invalid cors config: every `origin` entry must be an origin string"
    else if let some name := invalidHeaders then
      .error ("invalid cors config: `" ++ name ++ "` must be an array of header names")
    else if cors.field "maxAge" ≠ .undefined && !(cors.field "maxAge").isSeconds then
      .error "invalid cors config: `maxAge` must be a non-negative integer number of seconds"
    else if !checkSchema cors then .error ("invalid cors config: " ++ schemaErr cors)
    else if origin = .string "*" && credentials then
      .error ("invalid cors config: `credentials` requires a concrete `origin` - browsers " ++
        "reject \"*\" together with Access-Control-Allow-Credentials. An endpoint override " ++
        "inherits `credentials` from `server.cors` - set `credentials: false` on the override " ++
        "to open the endpoint to every origin")
    else if credentials && (hasStar "allowHeaders" || hasStar "exposeHeaders") then
      .error ("invalid cors config: a \"*\" entry in `allowHeaders`/`exposeHeaders` does not " ++
        "work together with `credentials` - list the headers explicitly")
    else if hasStar "allowHeaders" && !hasAuthorization then
      .error ("invalid cors config: a \"*\" in `allowHeaders` never covers `Authorization` - " ++
        "list it alongside: allowHeaders: ['*', 'Authorization']")
    else .ok ()

/-- The values of checked fields. -/
def resolveFields (schemaErr : CorsFields → String) (cors : CorsFields) :
    Except String ResolvedCors := do
  checkFields t schemaErr cors
  let originAll := decide (cors.field "origin" = .string "*")
  let (origins, originPatterns) ←
    if originAll then .ok (none, none)
    else (resolveOrigins t (cors.field "origin").originList).map fun (origins, originPatterns) =>
      (some origins, if originPatterns = [] then none else some originPatterns)
  return {
    originAll, origins, originPatterns
    credentials := cors.field "credentials" = .bool true
    trustSameOrigin := cors.field "trustSameOrigin" ≠ .bool false
    allowHeaders :=
      joinHeaders (cors.field "allowHeaders").strings? ["Content-Type", "Authorization"]
    exposeHeaders := joinHeaders (cors.field "exposeHeaders").strings? []
    maxAge := match cors.field "maxAge" with
      | .number x => x
      | _ => .ofNat 3600 }

/-- `none` is `null`: cors is disabled. `serverCors` is covered by the schema of the
configuration. -/
def resolveCors (schemaErr : CorsFields → String) (serverCors : Option CorsFields)
    (endpointCors : EndpointCors) : Except String (Option ResolvedCors) :=
  match endpointCors, serverCors with
  | .null, _ => .ok none
  | .notAnObject, _ =>
    .error ("invalid cors config: expected an object or null - `cors: null` disables cors on an " ++
      "endpoint")
  | .undefined, none => .ok none
  | .undefined, some cors => (resolveFields t schemaErr cors).map some
  | .fields override, serverCors => do
    let cors ← mergeFields serverCors override
    (resolveFields t schemaErr cors).map some

/-! ## The gate -/

/-- The star covers at least one character. -/
def OriginPattern.covers (pattern : OriginPattern) (o : List Char) : Bool :=
  pattern.prefix_.length + pattern.suffix.length < o.length && pattern.prefix_.isPrefixOf o &&
    pattern.suffix.isSuffixOf o

/-- The value of `Access-Control-Allow-Origin`. -/
def allowedOrigin (cors : ResolvedCors) (origin : String) : Option String :=
  if cors.originAll then some "*"
  else if origin = "" then none
  else
    let o := t.toLowerCase origin.toList
    if (cors.origins.getD []).contains o || (cors.originPatterns.getD []).any (·.covers o) then
      some origin
    else none

/-- The headers that `writeOrigin` writes, `none` where the origin is not allowed. -/
def writeOrigin (cors : ResolvedCors) (origin : String) (skip : List String) :
    Option (List (String × String)) :=
  (allowedOrigin t cors origin).map fun allowed =>
    ("Access-Control-Allow-Origin", allowed) ::
      if cors.credentials && !skip.contains "access-control-allow-credentials" then
        [("Access-Control-Allow-Credentials", "true")]
      else []

/-- The headers that `writeCorsResponse` writes; `skip` are those that a response has already. -/
def writeCorsResponse (cors : Option ResolvedCors) (origin : String) (skip : List String) :
    List (String × String) :=
  let vary := if cors.any (·.originAll) then [] else [("Vary", "Origin")]
  match cors with
  | none => vary
  | some cors =>
    if skip.contains "access-control-allow-origin" then vary
    else
      match writeOrigin t cors origin skip with
      | none => vary
      | some headers =>
        vary ++ headers ++
          match cors.exposeHeaders with
          | some exposeHeaders =>
            if skip.contains "access-control-expose-headers" then []
            else [("Access-Control-Expose-Headers", exposeHeaders)]
          | none => []

/-- Whether a request may proceed; a header that is absent is `""`. -/
def originAllowed (cors : Option ResolvedCors) (origin host secFetchSite : String) : Bool :=
  if origin = "" then true
  else if cors.any fun cors => (allowedOrigin t cors origin).isSome then true
  else if cors.any fun cors => !cors.trustSameOrigin then false
  else if secFetchSite ≠ "" && secFetchSite ≠ "same-origin" && secFetchSite ≠ "none" then false
  else
    match indexOf "://".toList origin.toList with
    | none => false
    | some schemeEnd =>
      0 < schemeEnd && host ≠ "" &&
        t.toLowerCase (origin.toList.drop (schemeEnd + 3)) = t.toLowerCase host.toList

/-! ## What is merged -/

variable {t}

theorem field_mergeField {merged merged' : CorsFields} {entry : String × CorsValue}
    (h : mergeField merged entry = .ok merged') (name : String) :
    merged'.field name =
      if name = entry.1 ∧ entry.2 ≠ .undefined then entry.2 else merged.field name := by
  unfold mergeField at h
  split_ifs at h with hfield hvalue
  · obtain rfl := Except.ok.inj h
    rw [if_neg fun hn => hn.2 hvalue]
  · obtain rfl := Except.ok.inj h
    unfold CorsFields.field
    rw [InsertionMap.get_set]
    by_cases hname : name = entry.1 <;> simp [hname, hvalue]

/-- The fields of the override that were merged, with the one of a name, if there is one. -/
theorem field_foldlM_mergeField {l : List (String × CorsValue)} {merged merged' : CorsFields}
    (hl : (l.map Prod.fst).Nodup) (h : l.foldlM mergeField merged = .ok merged') (name : String) :
    (name ∉ l.map Prod.fst → merged'.field name = merged.field name) ∧
      ∀ value, (name, value) ∈ l →
        merged'.field name = if value = .undefined then merged.field name else value := by
  refine Outcome.foldlM_eq_ok (P := fun done next =>
    (name ∉ done.map Prod.fst → next.field name = merged.field name) ∧
      ∀ value, (name, value) ∈ done →
        next.field name = if value = .undefined then merged.field name else value) ?_ ?_ h
  · exact ⟨fun _ => rfl, fun value hvalue => absurd hvalue List.not_mem_nil⟩
  · rintro done entry next next' hdone ⟨habsent, hpresent⟩ hentry
    have hnodup := hl.sublist (hdone.sublist.map Prod.fst)
    rw [List.map_append, List.nodup_append] at hnodup
    have hnew : entry.1 ∉ done.map Prod.fst :=
      fun hmem => hnodup.2.2 _ hmem _ (List.mem_singleton_self _) rfl
    have hfield := field_mergeField hentry name
    refine ⟨fun hname => ?_, fun value hvalue => ?_⟩
    · rw [List.map_append, List.mem_append, not_or] at hname
      have hne : name ≠ entry.1 := fun hn => hname.2 (List.mem_singleton.mpr hn)
      rw [hfield, if_neg fun hn => hne hn.1, habsent hname.1]
    · rcases List.mem_append.mp hvalue with hvalue | hvalue
      · have hne : name ≠ entry.1 := by
          rintro rfl
          exact hnew (List.mem_map.mpr ⟨_, hvalue, rfl⟩)
        rw [hfield, if_neg fun hn => hne hn.1, hpresent value hvalue]
      · obtain rfl := List.mem_singleton.mp hvalue
        rw [hfield, habsent hnew]
        by_cases hundef : value = .undefined <;> simp [hundef]

/-- **The fields of the override are over those of the server.** -/
theorem field_mergeFields {serverCors : Option CorsFields} {override merged : CorsFields}
    (h : mergeFields serverCors override = .ok merged) (name : String) :
    merged.field name =
      if override.field name = .undefined then (serverCors.getD .empty).field name
      else override.field name := by
  obtain ⟨habsent, hpresent⟩ := field_foldlM_mergeField override.nodup h name
  cases hget : override.get name with
  | none =>
    have hundef : override.field name = .undefined := by simp [CorsFields.field, hget]
    rw [habsent (InsertionMap.get_eq_none.mp hget), if_pos hundef]
  | some value =>
    have hvalue : override.field name = value := by simp [CorsFields.field, hget]
    rw [hpresent value (InsertionMap.get_eq_some.mp hget), hvalue]

/-- What the configuration of an endpoint says; `undefined` without cors. -/
def mergedField (serverCors : Option CorsFields) (endpointCors : EndpointCors) (name : String) :
    CorsValue :=
  match endpointCors with
  | .null => .undefined
  | .fields override =>
    if override.field name = .undefined then (serverCors.getD .empty).field name
    else override.field name
  | _ => (serverCors.getD .empty).field name

/-! ## What is accepted -/

/-- The allowlist of checked fields. -/
def ResolvedCors.HasOrigins (cors : ResolvedCors) (t : CaseTable) (origin : CorsValue) : Prop :=
  if origin = .string "*" then cors.originAll = true ∧ cors.originPatterns = none
  else
    cors.originAll = false ∧ ∃ origins patterns,
      resolveOrigins t origin.originList = .ok (origins, patterns) ∧
        cors.origins.getD [] = origins ∧ cors.originPatterns.getD [] = patterns

theorem hasOrigins_of_resolveFields {schemaErr : CorsFields → String} {cors : CorsFields}
    {r : ResolvedCors} (h : resolveFields t schemaErr cors = .ok r) :
    r.HasOrigins t (cors.field "origin") ∧
      r.trustSameOrigin = decide (cors.field "trustSameOrigin" ≠ .bool false) := by
  unfold resolveFields at h
  obtain ⟨-, -, h⟩ := Outcome.bind_eq_ok.mp h
  dsimp only at h
  unfold ResolvedCors.HasOrigins
  split_ifs with hall
  · rw [if_pos (decide_eq_true hall)] at h
    obtain ⟨_, hlists, h⟩ := Outcome.bind_eq_ok.mp h
    obtain rfl := Except.ok.inj hlists
    obtain rfl := Except.ok.inj h
    exact ⟨⟨decide_eq_true hall, rfl⟩, rfl⟩
  · rw [if_neg (by rwa [decide_eq_true_eq])] at h
    obtain ⟨_, hlists, h⟩ := Outcome.bind_eq_ok.mp h
    obtain ⟨acc, hacc, rfl⟩ := Outcome.map_eq_ok.mp hlists
    obtain rfl := Except.ok.inj h
    refine ⟨⟨decide_eq_false hall, acc.1, acc.2, hacc, rfl, ?_⟩, rfl⟩
    dsimp only
    split_ifs with hnil
    · exact hnil.symm
    · rfl

/-- **An accepted configuration is disabled, or it is what the merged fields say.** -/
theorem resolveCors_eq_ok {schemaErr : CorsFields → String} {serverCors : Option CorsFields}
    {endpointCors : EndpointCors} {resolved : Option ResolvedCors}
    (h : resolveCors t schemaErr serverCors endpointCors = .ok resolved) :
    (resolved = none ∧ ∀ name, mergedField serverCors endpointCors name = .undefined) ∨
      ∃ r, resolved = some r ∧ r.HasOrigins t (mergedField serverCors endpointCors "origin") ∧
        r.trustSameOrigin =
          decide (mergedField serverCors endpointCors "trustSameOrigin" ≠ .bool false) := by
  cases endpointCors with
  | null =>
    obtain rfl := Except.ok.inj h
    exact .inl ⟨rfl, fun _ => rfl⟩
  | notAnObject => exact absurd h (by simp [resolveCors])
  | undefined =>
    cases serverCors with
    | none =>
      obtain rfl := Except.ok.inj h
      exact .inl ⟨rfl, fun _ => rfl⟩
    | some cors =>
      obtain ⟨r, hr, rfl⟩ := Outcome.map_eq_ok.mp h
      exact .inr ⟨r, rfl, hasOrigins_of_resolveFields hr⟩
  | fields override =>
    obtain ⟨cors, hcors, h⟩ := Outcome.bind_eq_ok.mp h
    obtain ⟨r, hr, rfl⟩ := Outcome.map_eq_ok.mp h
    have hmerged (name : String) :
        mergedField serverCors (.fields override) name = cors.field name :=
      (field_mergeFields hcors name).symm
    rw [hmerged, hmerged]
    exact .inr ⟨r, rfl, hasOrigins_of_resolveFields hr⟩

/-! ## The allowlist -/

/-- What an entry with a star becomes. -/
def wildcardPattern (t : CaseTable) (origin : String) : Option OriginPattern :=
  (indexOf ['*'] origin.toList).map fun star =>
    ⟨(t.toLowerCase origin.toList).take star, (t.toLowerCase origin.toList).drop (star + 1)⟩

/-- The entries that were looked at. -/
structure Allowlist (t : CaseTable) (entries : List String)
    (acc : List (List Char) × List OriginPattern) : Prop where
  checked : ∀ entry ∈ entries, checkOrigin entry = .ok ()
  origins : ∀ o, o ∈ acc.1 ↔
    ∃ entry ∈ entries, wildcardPattern t entry = none ∧ t.toLowerCase entry.toList = o
  patterns : ∀ pattern, pattern ∈ acc.2 ↔
    ∃ entry ∈ entries, wildcardPattern t entry = some pattern

theorem Allowlist.pushOrigin {entries : List String}
    {acc : List (List Char) × List OriginPattern} {entry : String} (h : Allowlist t entries acc)
    (hentry : checkOrigin entry = .ok ()) :
    Allowlist t (entries ++ [entry]) (pushOrigin t acc entry) := by
  have hchecked : ∀ e ∈ entries ++ [entry], checkOrigin e = .ok () := by
    intro e he
    rcases List.mem_append.mp he with he | he
    · exact h.checked e he
    · exact List.mem_singleton.mp he ▸ hentry
  unfold YHub.pushOrigin
  cases hstar : indexOf ['*'] entry.toList with
  | none =>
    have hnone : wildcardPattern t entry = none := by simp [wildcardPattern, hstar]
    refine ⟨hchecked, fun o => ?_, fun pattern => ?_⟩
    · have hpush : o ∈ (if t.toLowerCase entry.toList ∈ acc.1 then acc.1
          else acc.1 ++ [t.toLowerCase entry.toList]) ↔
          o ∈ acc.1 ∨ t.toLowerCase entry.toList = o := by
        split_ifs with hmem
        · exact ⟨.inl, fun ho => ho.elim id fun ho => ho ▸ hmem⟩
        · rw [List.mem_append, List.mem_singleton, eq_comm]
      refine hpush.trans ?_
      simp [h.origins, or_and_right, exists_or, hnone]
    · simp [h.patterns, or_and_right, exists_or, hnone]
  | some star =>
    have hsome := congrArg (Option.map fun star => (⟨(t.toLowerCase entry.toList).take star,
      (t.toLowerCase entry.toList).drop (star + 1)⟩ : OriginPattern)) hstar
    change wildcardPattern t entry = some _ at hsome
    refine ⟨hchecked, fun o => ?_, fun pattern => ?_⟩
    · simp [h.origins, or_and_right, exists_or, hsome]
    · simp [h.patterns, or_and_right, exists_or, hsome, eq_comm]

/-- **An accepted allowlist is split into exact origins and patterns.** -/
theorem allowlist_of_resolveOrigins {list : List String}
    {acc : List (List Char) × List OriginPattern} (h : resolveOrigins t list = .ok acc) :
    Allowlist t list acc := by
  unfold resolveOrigins at h
  split_ifs at h
  refine Outcome.foldlM_eq_ok ⟨by simp, by simp, by simp⟩ ?_ h
  intro done entry acc acc' _ hacc hentry
  obtain ⟨_, hchecked, rfl⟩ := Outcome.map_eq_ok.mp hentry
  exact hacc.pushOrigin hchecked

end YHub
