import YHub.Lib.Fetch
import YHub.Origins
import YHub.Upgrade

/-!
# The cors headers of responses (`cors.js:250-284`, `api.js:324-563`)

Whatever an endpoint answers, its response has the headers of `writeCorsResponse` and those of its
own. A browser lets a page read the response by these headers alone (`Lib/Fetch.lean`).

* `ApiState.written_of_reach`: the headers of a response, in every run.
* `readable_iff`: a page may read a response if the configuration declares its origin, and with
  cookies if it says so; nor does a cache that obeys `Vary` give it to a page that may not.
-/

namespace YHub

/-! ## The headers of a response -/

/-- The header that a call writes. -/
def ResCall.header : ResCall → Option (String × String)
  | writeHeader key value => some (key, value)
  | _ => none

/-- The headers that are written. -/
def UwsResponse.headers (res : UwsResponse) : Fetch.Headers :=
  res.calls.filterMap fun c => c.1.header

/-- Nothing of a response is written. -/
def UwsResponse.Silent (res : UwsResponse) : Prop := res.responses = 0 ∧ res.headers = []

theorem UwsResponse.headers_call (res : UwsResponse) (calls : List ResCall) :
    (res.call calls).headers = res.headers ++ calls.filterMap ResCall.header := by
  unfold headers call
  rw [List.filterMap_append, List.filterMap_map]
  rfl

theorem filterMap_header (headers : List (String × String)) :
    (headers.map fun h => ResCall.writeHeader h.1 h.2).filterMap ResCall.header = headers := by
  rw [List.filterMap_map]
  exact List.filterMap_some

section Handler

variable {α : Type} (enc : Encoding α) (t : CaseTable) (endpoint : ApiEndpoint α)
  (req : ApiRequestHead)

/-- The headers of what is answered; `A` is known of the responses of the handler. -/
inductive ApiEndpoint.Writes (origin : String) (A : FetchResponse → Prop) : Fetch.Headers → Prop
  | plain (own : List (String × String)) (hown : ∀ h ∈ own, h.1 = "Content-Type") :
    Writes origin A (writeCorsResponse t endpoint.cors origin [] ++ own)
  | response (r : FetchResponse) (hr : A r) :
    Writes origin A (writeCorsResponse t endpoint.cors origin (r.headers.map Prod.fst) ++
      r.headers.filter fun h => h.1 ≠ "content-length" && h.1 ≠ "transfer-encoding")

/-- A response of the handler of the endpoint is in `A`. -/
def ApiEvent.Handles (A : FetchResponse → Prop) (e : ApiEvent α) : Prop :=
  ∀ r, e = .handler (.ok (.response r)) → A r

namespace ApiState

/-- Nothing is written, or a response, and then nothing more. -/
structure Written (A : FetchResponse → Prop) (s : ApiState α) : Prop where
  headers : s.res.Silent ∨ s.phase.isFinished = true ∧ endpoint.Writes t req.origin A s.res.headers
  awaited : ∀ r, s.phase = .responseBody r → A r

variable {enc t endpoint req} {A : FetchResponse → Prop} {s : ApiState α}

theorem Written.silent (h : s.Written t endpoint req A) (hopen : s.phase.isFinished = false) :
    s.res.Silent := by
  rcases h.headers with hsilent | ⟨hfinished, -⟩
  · exact hsilent
  · exact absurd (hopen.symm.trans hfinished) Bool.false_ne_true

/-- Another phase, and nothing written. -/
theorem Written.phase (hs : s.res.Silent) {phase : ApiPhase α}
    (hphase : ∀ r, phase = .responseBody r → A r) :
    ({ s with phase := phase } : ApiState α).Written t endpoint req A :=
  ⟨.inl hs, hphase⟩

theorem silent_cork {res : UwsResponse} (h : res.Silent) {calls : List ResCall}
    (hgone : (res.cork calls).2 = false) : (res.cork calls).1.Silent := by
  unfold UwsResponse.cork at hgone ⊢
  split_ifs at hgone ⊢
  exact ⟨(UwsResponse.responses_call _).trans (by rw [h.1]; rfl),
    (UwsResponse.headers_call _ _).trans (by rw [h.2]; rfl)⟩

theorem headers_cork {res : UwsResponse} (h : res.Silent) {calls : List ResCall}
    (hcork : (res.cork calls).2 = true) :
    (res.cork calls).1.headers = calls.filterMap ResCall.header := by
  unfold UwsResponse.cork at hcork ⊢
  split_ifs at hcork ⊢
  rw [UwsResponse.headers_call, h.2]
  rfl

/-- An answer, or none if the client is gone. -/
theorem Written.answer (hs : s.res.Silent) {calls : List ResCall}
    (hcalls : endpoint.Writes t req.origin A (calls.filterMap ResCall.header)) :
    ({ s with res := (s.res.cork calls).1, phase := .finished } : ApiState α).Written t endpoint req
      A := by
  refine ⟨?_, fun r hr => absurd hr (by simp)⟩
  cases hcork : (s.res.cork calls).2 with
  | false => exact .inl (silent_cork hs hcork)
  | true =>
    refine .inr ⟨rfl, ?_⟩
    show endpoint.Writes t req.origin A (s.res.cork calls).1.headers
    rwa [headers_cork hs hcork]

theorem Written.respond (hs : s.res.Silent) {calls : List ResCall}
    (hcalls : endpoint.Writes t req.origin A (calls.filterMap ResCall.header)) :
    (s.respond calls).Written t endpoint req A := by
  unfold ApiState.respond
  dsimp only
  cases hcork : (s.res.cork calls).2 with
  | false => exact ⟨.inl (silent_cork hs hcork), fun r hr => absurd hr (by simp)⟩
  | true => exact Written.answer hs hcalls

/-! ## One step -/

theorem filterMap_status (status : String) (headers : List (String × String))
    (calls : List ResCall) :
    (ResCall.writeStatus status :: headers.map (fun h => .writeHeader h.1 h.2) ++
      calls).filterMap ResCall.header = headers ++ calls.filterMap ResCall.header := by
  rw [List.filterMap_append, List.filterMap_cons_none rfl, filterMap_header]

theorem written_afterAuth (hs : s.res.Silent)
    (outcome : Except (Thrown α) (Except (String × String) (AuthInfo × Option AccessType))) :
    (s.afterAuth endpoint req outcome).Written t endpoint req A := by
  unfold afterAuth
  split
  · exact .phase hs (by simp)
  · split_ifs
    · exact .phase hs (by simp)
    · split
      · exact .phase hs (by simp)
      · split
        · exact .phase hs (by simp)
        · refine .phase hs fun r hr => ?_
          cases hbody : endpoint.bodySpec with
          | none => simp [hbody] at hr
          | some spec => simp [hbody] at hr

theorem written_afterBody (hs : s.res.Silent) (spec : BodySpec α) (raw : List UInt8) :
    (s.afterBody enc req spec raw).Written t endpoint req A := by
  unfold afterBody
  dsimp only
  generalize (if req.isJson "content-type" = true then enc.parse raw else enc.decodeAny raw) = body
  cases body with
  | none => exact .phase hs (by simp)
  | some decoded =>
    dsimp only
    split_ifs
    · cases spec.coerce decoded with
      | none => exact .phase hs (by simp)
      | some err => exact .phase hs (by simp)
    · exact .phase hs (by simp)
    · exact .phase hs (by simp)

theorem written_afterHandler (hs : s.res.Silent)
    (outcome : Except (Thrown α) (HandlerResult α))
    (hA : ∀ r, outcome = .ok (.response r) → A r) :
    (s.afterHandler enc t endpoint req outcome).Written t endpoint req A := by
  unfold afterHandler
  split
  · exact .phase hs (by simp)
  · split_ifs
    · exact .phase hs (by simp)
    · split
      · rename_i r
        refine .phase hs fun r' hr' => ?_
        obtain rfl := ApiPhase.responseBody.inj hr'
        exact hA r rfl
      · refine .respond hs ?_
        have hcalls := filterMap_status "204 No Content"
          (writeCorsResponse t endpoint.cors req.origin []) [ResCall.end_ none]
        exact hcalls ▸ .plain [] (by simp)
      · split
        · exact .phase hs (by simp)
        · rename_i body contentType _
          refine .respond hs ?_
          have hcalls := filterMap_status "200 OK"
            (writeCorsResponse t endpoint.cors req.origin [])
            [.writeHeader "Content-Type" contentType, .end_ (some body)]
          exact hcalls ▸ .plain [("Content-Type", contentType)] (by simp)

theorem written_afterArrayBuffer (hs : s.res.Silent) {r : FetchResponse} (hr : A r)
    (outcome : Except (Thrown α) (List UInt8)) :
    (s.afterArrayBuffer t endpoint req r outcome).Written t endpoint req A := by
  unfold afterArrayBuffer
  split
  · exact .phase hs (by simp)
  · split
    · exact .phase hs (by simp)
    · refine .respond hs ?_
      unfold ApiEndpoint.writeHeaders
      rw [List.append_assoc, filterMap_status, List.filterMap_append, filterMap_header,
        List.filterMap_cons_none rfl, List.filterMap_nil, List.append_nil]
      exact .response r hr

theorem writes_sendErrorResponse {origin status : String} {body : α} {acceptsJson : Bool}
    {calls : List ResCall}
    (h : sendErrorResponse enc (endpoint.writeHeaders t origin []) status body acceptsJson =
      some calls) : endpoint.Writes t origin A (calls.filterMap ResCall.header) := by
  obtain ⟨response, -, rfl⟩ := Option.map_eq_some_iff.mp h
  unfold ApiEndpoint.writeHeaders
  rw [filterMap_status]
  exact .plain [("Content-Type", _)] (by simp)

theorem written_answerError (hs : s.res.Silent) (err : Thrown α) :
    (s.answerError enc t endpoint req err).Written t endpoint req A := by
  unfold answerError
  split_ifs
  · exact .phase hs (by simp)
  · split
    · exact .phase hs (by simp)
    · rename_i calls hsend
      exact .answer hs (writes_sendErrorResponse hsend)

theorem silent_opened : (opened : ApiState α).res.Silent := ⟨rfl, rfl⟩

theorem written_start :
    (start enc t endpoint (some req)).Written t endpoint req A := by
  unfold start
  dsimp only
  split_ifs
  · exact ⟨.inl silent_opened, by simp [opened]⟩
  · unfold refused
    split
    · exact .phase silent_opened (by simp)
    · rename_i calls hsend
      exact .answer silent_opened (writes_sendErrorResponse hsend)

/-- **A step** writes nothing, or the headers of the response. -/
theorem Written.exec {s' : ApiState α} {e : ApiEvent α} (h : s.Written t endpoint req A)
    (hA : e.Handles A) (he : ApiEvent.exec enc t endpoint req s e = some s') :
    s'.Written t endpoint req A := by
  obtain ⟨res, aborted, upload, phase⟩ := s
  cases e with
  | abort =>
    obtain rfl := Option.some.inj he
    exact ⟨h.headers, h.awaited⟩
  | data chunk isLast =>
    cases upload with
    | pending chunks =>
      obtain rfl := Option.some.inj he
      exact ⟨h.headers, h.awaited⟩
    | _ => exact absurd he (by simp [ApiEvent.exec])
  | auth readAuthInfo getAccess =>
    cases phase with
    | auth =>
      obtain rfl := Option.some.inj he
      exact written_afterAuth (h.silent rfl) _
    | _ => exact absurd he (by simp [ApiEvent.exec])
  | body =>
    cases phase with
    | body spec =>
      cases upload with
      | pending chunks => exact absurd he (by simp [ApiEvent.exec])
      | complete raw =>
        obtain rfl := Option.some.inj he
        exact written_afterBody (h.silent rfl) _ _
      | rejected =>
        obtain rfl := Option.some.inj he
        exact .phase (h.silent rfl) (by simp)
    | failed err =>
      obtain ⟨-, he⟩ := Option.ite_none_right_eq_some.mp he
      obtain rfl := Option.some.inj he
      exact written_answerError (h.silent rfl) _
    | _ => exact absurd he (by simp [ApiEvent.exec])
  | handler outcome =>
    cases phase with
    | handler =>
      obtain rfl := Option.some.inj he
      refine written_afterHandler (h.silent rfl) _ fun r hr => ?_
      exact hA r (congrArg ApiEvent.handler hr)
    | _ => exact absurd he (by simp [ApiEvent.exec])
  | arrayBuffer outcome =>
    cases phase with
    | responseBody r =>
      obtain rfl := Option.some.inj he
      exact written_afterArrayBuffer (h.silent rfl) (h.awaited r rfl) _
    | _ => exact absurd he (by simp [ApiEvent.exec])

/-- **Every run.** -/
theorem written_of_reach
    (h : ApiReach enc t endpoint req true (fun e _ => e.Handles A) s) :
    s.Written t endpoint req A := by
  induction h with
  | refl => exact written_start
  | tail _ hstep ih =>
    obtain ⟨e, hA, he⟩ := hstep
    exact ih.exec hA he

end ApiState

end Handler

/-! ## What the configuration declares -/

section Config

variable {t : CaseTable} {schemaErr : CorsFields → String} {serverCors : Option CorsFields}
  {endpointCors : EndpointCors} {resolved : Option ResolvedCors} {r : ResolvedCors}

/-- The origins that a configuration declares: every one, an entry, or one that a wildcard covers.
-/
def Declares (t : CaseTable) (serverCors : Option CorsFields) (endpointCors : EndpointCors)
    (o : BrowserOrigin) : Prop :=
  let origin := mergedField serverCors endpointCors "origin"
  origin = .string "*" ∨
    (∃ entry ∈ origin.originList, t.toLowerCase entry.toList = t.toLowerCase o.text) ∨
    ∃ entry ∈ origin.originList, WildcardAdmits t entry o

/-- The request headers that a configuration declares. -/
def declaredHeaders (serverCors : Option CorsFields) (endpointCors : EndpointCors) : List String :=
  (mergedField serverCors endpointCors "allowHeaders").strings?.getD
    ["Content-Type", "Authorization"]

/-- What an accepted configuration keeps. -/
structure CorsDeclared (t : CaseTable) (serverCors : Option CorsFields)
    (endpointCors : EndpointCors) (r : ResolvedCors) : Prop where
  origins : r.HasOrigins t (mergedField serverCors endpointCors "origin")
  credentials : r.credentials = decide (mergedField serverCors endpointCors "credentials" =
    .bool true)
  allowHeaders : r.allowHeaders =
    joinHeaders (some (declaredHeaders serverCors endpointCors)) []
  concrete : mergedField serverCors endpointCors "credentials" = .bool true →
    mergedField serverCors endpointCors "origin" ≠ .string "*" ∧
      "*" ∉ declaredHeaders serverCors endpointCors
  authorization : "*" ∈ declaredHeaders serverCors endpointCors →
    ∃ header ∈ declaredHeaders serverCors endpointCors,
      t.toLowerCase header.toList = "authorization".toList

/-- The checks that concern what a browser would reject. -/
theorem checkFields_eq_ok {cors : CorsFields} (h : checkFields t schemaErr cors = .ok ()) :
    ¬ (cors.field "origin" = .string "*" ∧ cors.field "credentials" = .bool true) ∧
      ¬ (cors.field "credentials" = .bool true ∧
        "*" ∈ (cors.field "allowHeaders").strings?.getD []) ∧
      ("*" ∈ (cors.field "allowHeaders").strings?.getD [] →
        ∃ header ∈ (cors.field "allowHeaders").strings?.getD [],
          t.toLowerCase header.toList = "authorization".toList) := by
  unfold checkFields at h
  dsimp only at h
  split at h
  · exact absurd h (by simp)
  · split at h
    · exact absurd h (by simp)
    · split at h
      · exact absurd h (by simp)
      · split at h
        · exact absurd h (by simp)
        · split at h
          · exact absurd h (by simp)
          · split_ifs at h with hage hschema hall hstars hstar
            simp only [Bool.and_eq_true, decide_eq_true_eq, Bool.or_eq_true,
              List.contains_iff_mem, not_and, not_or, Bool.not_eq_true', Bool.not_eq_false,
              List.any_eq_true] at hall hstars hstar
            refine ⟨fun hc => hall hc.1 hc.2, fun hc => (hstars hc.1).1 hc.2, hstar⟩

theorem resolveFields_eq_ok {cors : CorsFields} (h : resolveFields t schemaErr cors = .ok r) :
    checkFields t schemaErr cors = .ok () ∧
      r.credentials = decide (cors.field "credentials" = .bool true) ∧
      r.allowHeaders =
        joinHeaders (cors.field "allowHeaders").strings? ["Content-Type", "Authorization"] := by
  unfold resolveFields at h
  obtain ⟨_, hcheck, h⟩ := Outcome.bind_eq_ok.mp h
  refine ⟨hcheck, ?_⟩
  dsimp only at h
  split_ifs at h
  · obtain ⟨lists, -, h⟩ := Outcome.bind_eq_ok.mp h
    obtain rfl := Except.ok.inj h
    exact ⟨rfl, rfl⟩
  · obtain ⟨lists, -, h⟩ := Outcome.bind_eq_ok.mp h
    obtain rfl := Except.ok.inj h
    exact ⟨rfl, rfl⟩

theorem corsDeclared_of_resolveCors
    (h : resolveCors t schemaErr serverCors endpointCors = .ok (some r)) :
    CorsDeclared t serverCors endpointCors r := by
  -- the merged fields
  obtain ⟨cors, hmerged, hr⟩ : ∃ cors : CorsFields,
      (∀ name, mergedField serverCors endpointCors name = cors.field name) ∧
        resolveFields t schemaErr cors = .ok r := by
    cases endpointCors with
    | null => exact absurd h (by simp [resolveCors])
    | notAnObject => exact absurd h (by simp [resolveCors])
    | undefined =>
      cases serverCors with
      | none => exact absurd h (by simp [resolveCors])
      | some cors =>
        obtain ⟨r', hr', hsome⟩ := Outcome.map_eq_ok.mp h
        obtain rfl := Option.some.inj hsome
        exact ⟨cors, fun name => rfl, hr'⟩
    | fields override =>
      obtain ⟨cors, hcors, h⟩ := Outcome.bind_eq_ok.mp h
      obtain ⟨r', hr', hsome⟩ := Outcome.map_eq_ok.mp h
      obtain rfl := Option.some.inj hsome
      exact ⟨cors, fun name => (field_mergeFields hcors name).symm, hr'⟩
  obtain ⟨horigins, -⟩ := hasOrigins_of_resolveFields hr
  obtain ⟨hcheck, hcredentials, hallow⟩ := resolveFields_eq_ok hr
  obtain ⟨hall, hstars, hstar⟩ := checkFields_eq_ok hcheck
  have hheaders : declaredHeaders serverCors endpointCors =
      (cors.field "allowHeaders").strings?.getD ["Content-Type", "Authorization"] := by
    unfold declaredHeaders
    rw [hmerged]
  -- the headers by default have no star
  have hdeclared : "*" ∈ declaredHeaders serverCors endpointCors →
      declaredHeaders serverCors endpointCors = (cors.field "allowHeaders").strings?.getD [] := by
    rw [hheaders]
    cases (cors.field "allowHeaders").strings? with
    | none => exact fun hmem => absurd hmem (by decide)
    | some headers => exact fun _ => rfl
  refine ⟨hmerged "origin" ▸ horigins, by rw [hcredentials, hmerged], ?_,
    fun hcred => ⟨fun horigin => ?_, ?_⟩, ?_⟩
  · rw [hallow, hheaders]
    rfl
  · rw [hmerged] at hcred horigin
    exact hall ⟨horigin, hcred⟩
  · rw [hmerged] at hcred
    exact fun hmem => hstars ⟨hcred, hdeclared hmem ▸ hmem⟩
  · intro hmem
    have heq := hdeclared hmem
    rw [heq] at hmem ⊢
    exact hstar hmem

/-- **The origins that are allowed are those that are declared.** -/
theorem allowedOrigin_iff_declares
    (h : resolveCors t schemaErr serverCors endpointCors = .ok resolved) (o : BrowserOrigin) :
    (∃ r, resolved = some r ∧ (allowedOrigin t r (String.ofList o.text)).isSome = true) ↔
      Declares t serverCors endpointCors o := by
  unfold Declares
  dsimp only
  rcases resolveCors_eq_ok h with ⟨rfl, hfield⟩ | ⟨r, rfl, horigins, -⟩
  · rw [hfield]
    simp [CorsValue.originList]
  · have hsome : (∃ r', some r = some r' ∧
        (allowedOrigin t r' (String.ofList o.text)).isSome = true) ↔
          (allowedOrigin t r (String.ofList o.text)).isSome = true := by simp
    rw [hsome, allowedOrigin_isSome (text_ne_empty o), String.toList_ofList]
    unfold ResolvedCors.HasOrigins at horigins
    split_ifs at horigins with hall
    · simp [horigins.1, hall]
    · obtain ⟨hoAll, origins, patterns, hlist, rfl, rfl⟩ := horigins
      rw [(allowlist_of_resolveOrigins hlist).admits_iff o]
      simp [hoAll, hall]

end Config

/-! ## What a browser reads -/

/-- The handler of the endpoint leaves to the configuration who may read its response. -/
def FetchResponse.LeavesCors (r : FetchResponse) : Prop :=
  ∀ h ∈ r.headers, Fetch.lower h.1 ≠ Fetch.lower "access-control-allow-origin" ∧
    Fetch.lower h.1 ≠ Fetch.lower "access-control-allow-credentials"

section Read

variable {α : Type} {enc : Encoding α} {t : CaseTable} {endpoint : ApiEndpoint α}
  {req : ApiRequestHead} {schemaErr : CorsFields → String} {serverCors : Option CorsFields}
  {endpointCors : EndpointCors}

/-- The lines of a response, if its handler leaves cors to the configuration. -/
theorem writeCorsResponse_eq (cors : Option ResolvedCors) (origin : String) {skip : List String}
    (horigin : "access-control-allow-origin" ∉ skip)
    (hcredentials : "access-control-allow-credentials" ∉ skip) :
    ∃ exposed : List String, writeCorsResponse t cors origin skip =
      (if cors.any (·.originAll) then [] else ["Origin"]).map ("Vary", ·) ++
        (cors.bind fun r => allowedOrigin t r origin).toList.map
          ("Access-Control-Allow-Origin", ·) ++
        (if cors.any fun r => r.credentials && (allowedOrigin t r origin).isSome
          then ["true"] else []).map ("Access-Control-Allow-Credentials", ·) ++
        exposed.map ("Access-Control-Expose-Headers", ·) := by
  cases cors with
  | none => exact ⟨[], by simp [writeCorsResponse]⟩
  | some r =>
    unfold writeCorsResponse writeOrigin
    cases hallowed : allowedOrigin t r origin with
    | none =>
      refine ⟨[], ?_⟩
      cases hall : r.originAll <;> simp [hallowed, hall]
    | some allowed =>
      refine ⟨if "access-control-expose-headers" ∈ skip then [] else r.exposeHeaders.toList, ?_⟩
      cases hall : r.originAll <;> cases hcred : r.credentials <;>
        cases hexpose : r.exposeHeaders <;>
        by_cases hskip : "access-control-expose-headers" ∈ skip <;>
        simp [horigin, hcredentials, hallowed, hall, hcred, hexpose, hskip]

/-- What a browser and a cache read of them. -/
theorem values_writeCorsResponse (cors : Option ResolvedCors) (origin : String)
    {skip : List String} (horigin : "access-control-allow-origin" ∉ skip)
    (hcredentials : "access-control-allow-credentials" ∉ skip) :
    Fetch.Headers.values (writeCorsResponse t cors origin skip) "access-control-allow-origin" =
        (cors.bind fun r => allowedOrigin t r origin).toList ∧
      Fetch.Headers.values (writeCorsResponse t cors origin skip)
          "access-control-allow-credentials" =
        (if cors.any fun r => r.credentials && (allowedOrigin t r origin).isSome
          then ["true"] else []) ∧
      Fetch.Headers.values (writeCorsResponse t cors origin skip) "vary" =
        if cors.any (·.originAll) then [] else ["Origin"] := by
  obtain ⟨exposed, heq⟩ := writeCorsResponse_eq (t := t) cors origin horigin hcredentials
  rw [heq]
  simp +decide only [Fetch.Headers.values_append, Fetch.Headers.values_map, if_true, if_false,
    List.append_nil, List.nil_append, and_self]

variable {origin : String} {headers : Fetch.Headers}

/-- What a browser and a cache read of a response. -/
theorem values_of_writes
    (h : endpoint.Writes t origin FetchResponse.LeavesCors headers) :
    headers.values "access-control-allow-origin" =
        (endpoint.cors.bind fun r => allowedOrigin t r origin).toList ∧
      headers.values "access-control-allow-credentials" =
        (if endpoint.cors.any fun r => r.credentials && (allowedOrigin t r origin).isSome
          then ["true"] else []) ∧
      (endpoint.cors.any (·.originAll) = false → "Origin" ∈ headers.values "vary") := by
  obtain ⟨skip, own, rfl, horigin, hcredentials, hown⟩ : ∃ skip own,
      headers = writeCorsResponse t endpoint.cors origin skip ++ own ∧
        "access-control-allow-origin" ∉ skip ∧ "access-control-allow-credentials" ∉ skip ∧
        ∀ name ∈ ["access-control-allow-origin", "access-control-allow-credentials"],
          Fetch.Headers.values own name = [] := by
    cases h with
    | plain own hown =>
      refine ⟨[], own, rfl, List.not_mem_nil, List.not_mem_nil, fun name hname => ?_⟩
      have hne : ∀ name ∈ ["access-control-allow-origin", "access-control-allow-credentials"],
          Fetch.lower "Content-Type" ≠ Fetch.lower name := by decide
      exact Fetch.Headers.values_eq_nil.mpr fun h hh => hown h hh ▸ hne name hname
    | response r hr =>
      refine ⟨_, _, rfl, fun hmem => ?_, fun hmem => ?_, ?_⟩
      · obtain ⟨h, hh, hkey⟩ := List.mem_map.mp hmem
        exact (hr h hh).1 (congrArg Fetch.lower hkey)
      · obtain ⟨h, hh, hkey⟩ := List.mem_map.mp hmem
        exact (hr h hh).2 (congrArg Fetch.lower hkey)
      · rw [List.forall_mem_cons]
        refine ⟨Fetch.Headers.values_eq_nil.mpr fun h hh => ?_, fun name hname => ?_⟩
        · exact (hr h (List.mem_of_mem_filter hh)).1
        · obtain rfl := List.mem_singleton.mp hname
          exact Fetch.Headers.values_eq_nil.mpr fun h hh => (hr h (List.mem_of_mem_filter hh)).2
  obtain ⟨hACAO, hACAC, hvary⟩ :=
    values_writeCorsResponse (t := t) endpoint.cors origin horigin hcredentials
  rw [Fetch.Headers.values_append, Fetch.Headers.values_append, Fetch.Headers.values_append, hACAO,
    hACAC, hvary, hown _ (.head _), hown _ (.tail _ (.head _))]
  refine ⟨List.append_nil _, List.append_nil _, fun hall => ?_⟩
  rw [hall]
  exact List.mem_append_left _ (List.mem_singleton_self _)

/-- **The cors check** of a page to whose origin the response is, or that any origin may read. -/
theorem corsCheck_iff_declares {resolved : Option ResolvedCors}
    (hcors : resolveCors t schemaErr serverCors endpointCors = .ok resolved)
    (hACAO : headers.values "access-control-allow-origin" =
      (resolved.bind fun r => allowedOrigin t r origin).toList)
    (hACAC : headers.values "access-control-allow-credentials" =
      if resolved.any fun r => r.credentials && (allowedOrigin t r origin).isSome
        then ["true"] else []) {o : BrowserOrigin}
    (hsame : resolved.any (·.originAll) = false → origin = String.ofList o.text)
    (credentials : Bool) :
    Fetch.corsCheck headers (String.ofList o.text) credentials = true ↔
      Declares t serverCors endpointCors o ∧
        (credentials = true → mergedField serverCors endpointCors "credentials" = .bool true) := by
  rw [← allowedOrigin_iff_declares hcors]
  cases resolved with
  | none =>
    rw [Fetch.corsCheck_of_nil hACAO]
    simp
  | some r =>
    have hdeclared := corsDeclared_of_resolveCors hcors
    have hcredentials : r.credentials = true ↔
        mergedField serverCors endpointCors "credentials" = .bool true := by
      rw [hdeclared.credentials, decide_eq_true_iff]
    rw [← hcredentials]
    simp only [Option.some.injEq, exists_eq_left']
    rw [Option.bind_some] at hACAO
    cases hall : r.originAll with
    | true =>
      -- every origin, and no cookies
      have hstar (s : String) : allowedOrigin t r s = some "*" := if_pos hall
      have hnone : r.credentials = false := by
        rw [Bool.eq_false_iff]
        intro hcred
        have hne := (hdeclared.concrete (hcredentials.mp hcred)).1
        have horigins := hdeclared.origins
        unfold ResolvedCors.HasOrigins at horigins
        rw [if_neg hne] at horigins
        exact absurd (hall.symm.trans horigins.1) (by simp)
      rw [hstar] at hACAO
      rw [Fetch.corsCheck_of_allowed hACAO, Fetch.Headers.get_of_nil (by rw [hACAC]; simp [hnone]),
        hstar, hnone]
      cases credentials <;> simp
    | false =>
      obtain rfl := hsame (by simp [hall])
      cases hallowed : allowedOrigin t r (String.ofList o.text) with
      | none =>
        rw [hallowed] at hACAO
        rw [Fetch.corsCheck_of_nil hACAO]
        simp
      | some allowed =>
        have hself : allowed = String.ofList o.text := by
          unfold allowedOrigin at hallowed
          rw [if_neg (by simp [hall]), if_neg (text_ne_empty o)] at hallowed
          dsimp only at hallowed
          split_ifs at hallowed
          exact (Option.some.inj hallowed).symm
        rw [hallowed] at hACAO
        rw [Fetch.corsCheck_of_allowed hACAO]
        cases hcred : r.credentials with
        | true =>
          have htrue : headers.get "access-control-allow-credentials" = some "true" :=
            Fetch.Headers.get_of_singleton (hACAC.trans (by simp [hcred, hallowed]))
          rw [htrue]
          simp [hself]
        | false =>
          have hnone := Fetch.Headers.get_of_nil (hACAC.trans (by simp [hcred]))
          rw [hnone]
          simp [hself]

/-- `headers[name]`; the names are in lower case. -/
def ApiRequestHead.field (req : ApiRequestHead) (name : List Char) : Option String :=
  req.headers.get (String.ofList name)

/-- The requests that a response answers: its own, and those that a cache answers with it. -/
def ApiRequestHead.AnsweredBy (headers : Fetch.Headers) (req other : ApiRequestHead) : Prop :=
  other = req ∨ Fetch.Reusable headers req.field other.field

/-- **Who may read a response**, in every run in which the handler of the endpoint leaves it to the
configuration: the pages whose origins are declared, with cookies if that is declared; also of those
that get the response from a cache. -/
theorem readable_iff
    (hcors : resolveCors t schemaErr serverCors endpointCors = .ok endpoint.cors)
    {s : ApiState α}
    (h : ApiReach enc t endpoint req true (fun e _ => e.Handles FetchResponse.LeavesCors) s)
    (hdone : s.res.responses ≠ 0) {other : ApiRequestHead}
    (hother : req.AnsweredBy s.res.headers other) {o : BrowserOrigin}
    (ho : other.origin = String.ofList o.text) (credentials : Bool) :
    Fetch.corsCheck s.res.headers (String.ofList o.text) credentials = true ↔
      Declares t serverCors endpointCors o ∧
        (credentials = true → mergedField serverCors endpointCors "credentials" = .bool true) := by
  have hwrites : endpoint.Writes t req.origin FetchResponse.LeavesCors s.res.headers := by
    rcases (ApiState.written_of_reach h).headers with hsilent | ⟨-, hwrites⟩
    · exact absurd hsilent.1 hdone
    · exact hwrites
  obtain ⟨hACAO, hACAC, hvary⟩ := values_of_writes hwrites
  refine corsCheck_iff_declares hcors hACAO hACAC (fun hall => ?_) credentials
  rcases hother with rfl | hreuse
  · exact ho
  · have htoken : Fetch.IsToken "Origin".toList := by decide
    have hfield : req.headers.get "origin" = other.headers.get "origin" :=
      hreuse.eq htoken (hvary hall)
    rw [← ho]
    exact congrArg (·.getD "") hfield

/-- What the endpoint with `strictCors` resolves to. -/
def previewResolved : ResolvedCors where
  originAll := false
  origins := some ["https://app.example.com".toList]
  originPatterns := some [⟨"https://".toList, ".preview.example.com".toList⟩]
  credentials := false
  trustSameOrigin := false
  allowHeaders := some "Content-Type, Authorization"
  exposeHeaders := none
  maxAge := .ofNat 3600

def previewEndpoint : ApiEndpoint (Option String) := { plainEndpoint with cors := previewResolved }

def previewRequest : ApiRequestHead where
  query := .empty
  headers := InsertionMap.empty.set "origin" "https://x.preview.example.com"

theorem declares_preview : Declares .ascii (some previewCors) strictCors previewOrigin :=
  .inr (.inr ⟨"https://*.Preview.example.com", .tail _ (.head _), "preview.example.com".toList,
    ['x'], List.cons_ne_nil _ _, rfl, rfl⟩)

/-- A page may read that it is unauthorized, without cookies. -/
theorem readable_preview : ∃ s : ApiState (Option String), s.res.responses ≠ 0 ∧
    Fetch.corsCheck s.res.headers (String.ofList previewOrigin.text) false = true ∧
      Fetch.corsCheck s.res.headers (String.ofList previewOrigin.text) true = false := by
  have hcors : resolveCors .ascii (fun _ => "") (some previewCors) strictCors =
      .ok previewEndpoint.cors := rfl
  have h₁ : ApiReach textEncoding .ascii previewEndpoint previewRequest true
      (fun e _ => e.Handles FetchResponse.LeavesCors) _ :=
    .single ⟨.auth (.ok none) (.ok none), fun r hr => by simp at hr, rfl⟩
  have h₂ := h₁.tail ⟨.data [] true, fun r hr => by simp at hr, rfl⟩
  have h₃ := h₂.tail ⟨.body, fun r hr => by simp at hr, rfl⟩
  have hread := readable_iff hcors h₃ (by decide) (.inl rfl) (o := previewOrigin) rfl
  refine ⟨_, by decide, (hread false).mpr ⟨declares_preview, by simp⟩, ?_⟩
  rw [Bool.eq_false_iff]
  exact fun h => absurd (((hread true).mp h).2 rfl) (by decide)

end Read

end YHub
