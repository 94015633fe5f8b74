import Mathlib.Logic.Relation
import YHub.Responses

/-!
# The handler of a rest request (`api.js:324-563`)

`createApiHandler` answers a request after it has awaited the auth plugin, the body, the handler of
the endpoint, and the body of a `Response`; whatever fails on the way is answered after the request
is uploaded. Between two steps anything may happen: the body arrives in chunks, the client goes
away. Where the code awaits nothing it is not interrupted, so that reading the request and the
origin gate are one step, with `onAborted` not called yet.

* `ApiState.Ok.exec`: a step keeps the exchange in order, if the body of the error that it answers
  with can be encoded.
* `ApiState.exec_settles`: each promise that settles brings the end closer.
-/

namespace YHub

/-! ## Requests and endpoints -/

/-- What is snapshotted of the request. -/
structure ApiRequestHead where
  query : InsertionMap String String
  headers : InsertionMap String String

namespace ApiRequestHead

variable (req : ApiRequestHead)

/-- `headers[name] ?? ''` -/
def header (name : String) : String := (req.headers.get name).getD ""

/-- `headers[name].includes('application/json')` -/
def isJson (name : String) : Bool :=
  (indexOf "application/json".toList (req.header name).toList).isSome

def acceptsJson : Bool := req.isJson "accept"

def origin : String := req.header "origin"

/-- `query.branch ?? 'main'` -/
def branch : String := (req.query.get "branch").getD "main"

end ApiRequestHead

/-- How a body is checked; `coerce` has the error, if there is one. -/
structure BodySpec (α : Type) where
  coerce : α → Option String
  /-- `$schema.check` -/
  check : α → Bool

/-- The options of `createApiHandler`; `coerceQuery` has the error, if there is one. -/
structure ApiEndpoint (α : Type) where
  hasAuth : Bool
  requiredAccess : AccessType
  coerceQuery : Option (InsertionMap String String → Option String)
  bodySpec : Option (BodySpec α)
  queryDeclaresBranch : Bool
  cors : Option ResolvedCors

/-- The query that is coerced, with the default of the server for the branch. -/
def ApiEndpoint.query {α : Type} (endpoint : ApiEndpoint α) (req : ApiRequestHead) :
    InsertionMap String String :=
  if endpoint.queryDeclaresBranch && (req.query.get "branch").isNone then
    req.query.set "branch" req.branch
  else req.query

/-- A `Response` of the handler of an endpoint, without its body. -/
structure FetchResponse where
  status : Nat
  statusText : String
  headers : List (String × String)
  deriving DecidableEq, Repr

/-- What the handler of an endpoint returns. -/
inductive HandlerResult (α : Type) where
  /-- `null` or `undefined` -/
  | null
  | string (s : String)
  /-- A `Uint8Array`. -/
  | bytes (b : List UInt8)
  | encodedAny (b : List UInt8)
  | value (v : α)
  | response (r : FetchResponse)

/-! ## The state of a request -/

/-- `bodyPromise` -/
inductive BodyState where
  | pending (chunks : List UInt8)
  | complete (raw : List UInt8)
  | rejected
  deriving DecidableEq, Repr

namespace BodyState

/-- `rejectBody`, which does nothing once the promise is settled. -/
def reject : BodyState → BodyState
  | pending _ => rejected
  | body => body

def settled : BodyState → Bool
  | pending _ => false
  | _ => true

end BodyState

/-- What the handler awaits; `failed` awaits the body before it answers an error. -/
inductive ApiPhase (α : Type) where
  | auth
  | body (spec : BodySpec α)
  | handler
  | responseBody (r : FetchResponse)
  | failed (err : Thrown α)
  | finished

namespace ApiPhase

variable {α : Type}

def isFinished : ApiPhase α → Bool
  | finished => true
  | _ => false

/-- The promises that may still be awaited. -/
def rank : ApiPhase α → Nat
  | auth => 5
  | body _ => 4
  | handler => 3
  | responseBody _ => 2
  | failed _ => 1
  | finished => 0

end ApiPhase

structure ApiState (α : Type) where
  res : UwsResponse
  /-- `ctx.aborted` -/
  aborted : Bool
  body : BodyState
  phase : ApiPhase α

/-- What happens to a request; `body` is the continuation of an `await bodyPromise`. -/
inductive ApiEvent (α : Type) where
  | abort
  | data (chunk : List UInt8) (isLast : Bool)
  | auth (readAuthInfo : Except (Thrown α) (Option AuthInfo))
      (getAccess : Except (Thrown α) (Option AccessType))
  | body
  | handler (outcome : Except (Thrown α) (HandlerResult α))
  | arrayBuffer (outcome : Except (Thrown α) (List UInt8))

/-! ## The handler -/

section Handler

variable {α : Type} (enc : Encoding α) (t : CaseTable) (endpoint : ApiEndpoint α)
  (req : ApiRequestHead)

/-- `writeHeaders(res, skip)` -/
def ApiEndpoint.writeHeaders (origin : String) (skip : List String) : List ResCall :=
  (writeCorsResponse t endpoint.cors origin skip).map fun h => .writeHeader h.1 h.2

namespace ApiState

/-- Nothing is awaited any more. -/
def finish (s : ApiState α) : ApiState α := { s with phase := .finished }

/-- `handleRequest` rejects. -/
def fail (s : ApiState α) (err : Thrown α) : ApiState α := { s with phase := .failed err }

/-- The last `res.cork` of `handleRequest`. -/
def respond (s : ApiState α) (calls : List ResCall) : ApiState α :=
  let cork := s.res.cork calls
  { s with res := cork.1, phase := if cork.2 then .finished else .failed .other }

/-- After `await authPromise`. -/
def afterAuth (s : ApiState α)
    (outcome : Except (Thrown α) (Except (String × String) (AuthInfo × Option AccessType))) :
    ApiState α :=
  match outcome with
  | .error err => s.fail err
  | .ok authResult =>
    if s.aborted then s.finish
    else
      match authResult with
      | .error (error, status) =>
        s.fail (.apiError ((parseInt status.toList).getD 0) error .none)
      | .ok _ =>
        match endpoint.coerceQuery.bind (· (endpoint.query req)) with
        | some err => s.fail (.apiError 400 ("invalid query: " ++ err) (.code "invalid-query"))
        | none => { s with phase := (endpoint.bodySpec.map .body).getD .handler }

/-- After `await bodyPromise`, until the call of the handler of the endpoint. -/
def afterBody (s : ApiState α) (spec : BodySpec α) (raw : List UInt8) : ApiState α :=
  let isJson := req.isJson "content-type"
  let invalid := fun message : String => s.fail (.apiError 400 message (.code "invalid-body"))
  match if isJson then enc.parse raw else enc.decodeAny raw with
  | none => invalid "invalid body"
  | some decoded =>
    if isJson then
      match spec.coerce decoded with
      | some err => invalid ("invalid body: " ++ err)
      | none => { s with phase := .handler }
    else if spec.check decoded then { s with phase := .handler }
    else invalid "invalid body"

/-- The body and its content type, `none` where it cannot be encoded. -/
def encodeResult (json : Bool) : HandlerResult α → Option (Payload × String)
  | .string s => some (.text s, "text/plain; charset=utf-8")
  | .bytes b => some (.bytes b, "application/octet-stream")
  | .encodedAny b =>
    if json then ((enc.decodeAny b).bind (enc.encode true)).map (·, "application/json")
    else some (.bytes b, "application/x-lib0any")
  | .value v =>
    (enc.encode json v).map (·, if json then "application/json" else "application/x-lib0any")
  | _ => none

/-- After `await handler(apiReq)`. -/
def afterHandler (s : ApiState α) (outcome : Except (Thrown α) (HandlerResult α)) : ApiState α :=
  match outcome with
  | .error err => s.fail err
  | .ok result =>
    if s.aborted then s.finish
    else
      match result with
      | .response r => { s with phase := .responseBody r }
      | .null =>
        s.respond (.writeStatus "204 No Content" :: endpoint.writeHeaders t req.origin [] ++
          [.end_ none])
      | result =>
        match encodeResult enc req.acceptsJson result with
        | none => s.fail .other
        | some (body, contentType) =>
          s.respond (.writeStatus "200 OK" :: endpoint.writeHeaders t req.origin [] ++
            [.writeHeader "Content-Type" contentType, .end_ (some body)])

/-- After `await result.arrayBuffer()`. -/
def afterArrayBuffer (s : ApiState α) (r : FetchResponse)
    (outcome : Except (Thrown α) (List UInt8)) : ApiState α :=
  match outcome with
  | .error err => s.fail err
  | .ok body =>
    if s.aborted then s.finish
    else
      let status :=
        if r.statusText ≠ "" then toString r.status ++ " " ++ r.statusText else statusLine r.status
      let headers := r.headers.filter fun h => h.1 ≠ "content-length" && h.1 ≠ "transfer-encoding"
      s.respond (.writeStatus status ::
        endpoint.writeHeaders t req.origin (r.headers.map Prod.fst) ++
        headers.map (fun h => .writeHeader h.1 h.2) ++ [.end_ (some (.bytes body))])

/-- The status line and the body for what is thrown. -/
def errorResponse : Thrown α → String × α
  | .docDeleted => (statusLine 404, enc.errorBody "Not Found" (.code "doc-deleted"))
  | .apiError status message extra => (statusLine status, enc.errorBody message extra)
  | .other => ("500 Internal Server Error", enc.errorBody "Internal server error" .none)

/-- `handleRequest().catch`, after the body. An exception here is an unhandled rejection. -/
def answerError (s : ApiState α) (err : Thrown α) : ApiState α :=
  if s.aborted then s.finish
  else
    match sendErrorResponse enc (endpoint.writeHeaders t req.origin []) (errorResponse enc err).1
      (errorResponse enc err).2 req.acceptsJson with
    | none => s.finish
    | some calls => { s with res := (s.res.cork calls).1, phase := .finished }

/-- `onAborted` is set, and `onData`. -/
def opened : ApiState α :=
  ⟨UwsResponse.empty.call [.onAborted, .onData], false, .pending [], .auth⟩

/-- An answer of the synchronous part. -/
def refused (origin status : String) (body : α) (acceptsJson : Bool) : ApiState α :=
  match sendErrorResponse enc (endpoint.writeHeaders t origin []) status body acceptsJson with
  | none => opened.finish
  | some calls =>
    let s : ApiState α := opened
    { s with res := (s.res.cork calls).1, phase := .finished }

/-- The call of the handler; `none` is a request that cannot be read. -/
def start : Option ApiRequestHead → ApiState α
  | none =>
    refused enc t endpoint "" "500 Internal Server Error"
      (enc.errorBody "Internal server error" .none) false
  | some req =>
    if originAllowed t endpoint.cors req.origin (req.header "host") (req.header "sec-fetch-site")
    then opened
    else
      refused enc t endpoint req.origin (statusLine 403)
        (enc.errorBody "origin not allowed" (.code "origin-not-allowed")) true

end ApiState

/-- One event, where it can happen. -/
def ApiEvent.exec (s : ApiState α) : ApiEvent α → Option (ApiState α)
  | .abort =>
    some { s with res := { s.res with gone := true }, aborted := true, body := s.body.reject }
  | .data chunk isLast =>
    match s.body with
    | .pending chunks =>
      let chunks := chunks ++ chunk
      some { s with body := if isLast then .complete chunks else .pending chunks }
    | _ => none
  | .auth readAuthInfo getAccess =>
    match s.phase with
    | .auth =>
      some (s.afterAuth endpoint req
        (authenticate endpoint.hasAuth endpoint.requiredAccess readAuthInfo getAccess))
    | _ => none
  | .body =>
    match s.phase, s.body with
    | .body spec, .complete raw => some (s.afterBody enc req spec raw)
    | .body _, .rejected => some (s.fail .other)
    | .failed err, upload =>
      if upload.settled then some (s.answerError enc t endpoint req err) else none
    | _, _ => none
  | .handler outcome =>
    match s.phase with
    | .handler => some (s.afterHandler enc t endpoint req outcome)
    | _ => none
  | .arrayBuffer outcome =>
    match s.phase with
    | .responseBody r => some (s.afterArrayBuffer t endpoint req r outcome)
    | _ => none

variable {enc t endpoint req}

namespace ApiState

/-- The promise that is awaited settles. -/
def Settles (s : ApiState α) (e : ApiEvent α) : Prop :=
  match s.phase, e with
  | .auth, .auth _ _ => True
  | .body _, .body => s.body.settled = true
  | .handler, .handler _ => True
  | .responseBody _, .arrayBuffer _ => True
  | .failed _, .body => s.body.settled = true
  | _, _ => False

/-! ## What a continuation does -/

/-- What becomes of a request when `handleRequest` continues, up to its next `await`; at most `k`
promises may still be awaited then. -/
inductive Next (k : Nat) (s : ApiState α) : ApiState α → Prop
  | fails (err : Thrown α) : Next k s (s.fail err)
  | givesUp (haborted : s.aborted = true) : Next k s s.finish
  | awaits (phase : ApiPhase α) (hopen : phase.isFinished = false) (hrank : phase.rank ≤ k) :
    Next k s { s with phase := phase }
  | responds (haborted : s.aborted = false) (calls : List ResCall)
      (hcalls : calls.countP ResCall.completes = 1) : Next k s (s.respond calls)

theorem countP_headers (headers : List (String × String)) :
    (headers.map fun h => ResCall.writeHeader h.1 h.2).countP ResCall.completes = 0 :=
  List.countP_eq_zero.mpr fun call hcall => by
    obtain ⟨h, -, rfl⟩ := List.mem_map.mp hcall
    exact Bool.false_ne_true

/-- The status and the headers complete nothing. -/
theorem countP_status (status : String) (headers : List (String × String)) (calls : List ResCall) :
    (ResCall.writeStatus status :: headers.map (fun h => .writeHeader h.1 h.2) ++ calls).countP
      ResCall.completes = calls.countP ResCall.completes := by
  rw [List.countP_append, List.countP_cons, countP_headers]
  exact Nat.zero_add _

theorem next_afterAuth (s : ApiState α)
    (outcome : Except (Thrown α) (Except (String × String) (AuthInfo × Option AccessType))) :
    Next 4 s (s.afterAuth endpoint req outcome) := by
  unfold afterAuth
  split
  · exact .fails _
  · split_ifs with haborted
    · exact .givesUp haborted
    · split
      · exact .fails _
      · split
        · exact .fails _
        · cases endpoint.bodySpec with
          | none => exact .awaits .handler rfl (by simp [ApiPhase.rank])
          | some spec => exact .awaits (.body spec) rfl (by simp [ApiPhase.rank])

theorem next_afterBody (s : ApiState α) (spec : BodySpec α) (raw : List UInt8) :
    Next 3 s (s.afterBody enc req spec raw) := by
  unfold afterBody
  dsimp only
  generalize (if req.isJson "content-type" = true then enc.parse raw else enc.decodeAny raw) = body
  cases body with
  | none => exact .fails _
  | some decoded =>
    dsimp only
    split_ifs
    · cases spec.coerce decoded with
      | none => exact .awaits .handler rfl (by simp [ApiPhase.rank])
      | some err => exact .fails _
    · exact .awaits .handler rfl (by simp [ApiPhase.rank])
    · exact .fails _

theorem next_afterHandler (s : ApiState α) (outcome : Except (Thrown α) (HandlerResult α)) :
    Next 2 s (s.afterHandler enc t endpoint req outcome) := by
  unfold afterHandler
  split
  · exact .fails _
  · split_ifs with haborted
    · exact .givesUp haborted
    · rw [Bool.not_eq_true] at haborted
      split
      · exact .awaits (.responseBody _) rfl (by simp [ApiPhase.rank])
      · exact .responds haborted _ (countP_status _ _ _)
      · split
        · exact .fails _
        · exact .responds haborted _ (countP_status _ _ _)

theorem next_afterArrayBuffer (s : ApiState α) (r : FetchResponse)
    (outcome : Except (Thrown α) (List UInt8)) :
    Next 1 s (s.afterArrayBuffer t endpoint req r outcome) := by
  unfold afterArrayBuffer
  split
  · exact .fails _
  · split
    · rename_i haborted
      exact .givesUp haborted
    · rename_i haborted
      refine .responds (Bool.not_eq_true _ ▸ haborted) _ ?_
      unfold ApiEndpoint.writeHeaders
      rw [List.append_assoc, countP_status, List.countP_append, countP_headers]
      rfl

/-! ## The end comes closer -/

theorem Next.rank_le {k : Nat} {s s' : ApiState α} (h : Next k s s') (hk : 1 ≤ k) :
    s'.phase.rank ≤ k := by
  cases h with
  | fails err => exact hk
  | givesUp _ => exact Nat.zero_le k
  | awaits phase _ hrank => exact hrank
  | responds _ calls _ =>
    unfold respond
    dsimp only
    split
    · exact Nat.zero_le k
    · exact hk

theorem phase_answerError (s : ApiState α) (err : Thrown α) :
    (s.answerError enc t endpoint req err).phase = .finished := by
  unfold answerError
  split
  · rfl
  · split <;> rfl

/-- **A promise that settles brings the end closer.** -/
theorem exec_settles {s : ApiState α} {e : ApiEvent α} (h : s.Settles e) :
    ∃ s', ApiEvent.exec enc t endpoint req s e = some s' ∧ s'.phase.rank < s.phase.rank := by
  obtain ⟨res, aborted, upload, phase⟩ := s
  cases phase with
  | auth =>
    cases e with
    | auth readAuthInfo getAccess =>
      exact ⟨_, rfl, Nat.lt_succ_of_le ((next_afterAuth _ _).rank_le (by omega))⟩
    | _ => exact absurd h id
  | body spec =>
    cases e with
    | body =>
      cases upload with
      | pending chunks => exact absurd h Bool.false_ne_true
      | complete raw =>
        exact ⟨_, rfl, Nat.lt_succ_of_le ((next_afterBody _ _ _).rank_le (by omega))⟩
      | rejected => exact ⟨_, rfl, by simp [fail, ApiPhase.rank]⟩
    | _ => exact absurd h id
  | handler =>
    cases e with
    | handler outcome =>
      exact ⟨_, rfl, Nat.lt_succ_of_le ((next_afterHandler _ _).rank_le (by omega))⟩
    | _ => exact absurd h id
  | responseBody r =>
    cases e with
    | arrayBuffer outcome =>
      exact ⟨_, rfl, Nat.lt_succ_of_le ((next_afterArrayBuffer _ _ _).rank_le (by omega))⟩
    | _ => exact absurd h id
  | failed err =>
    cases e with
    | body =>
      refine ⟨_, if_pos h, ?_⟩
      rw [phase_answerError]
      exact Nat.zero_lt_one
    | _ => exact absurd h id
  | finished => exact absurd h (by simp [Settles])

/-! ## The exchange -/

/-- The exchange is in order. -/
def Ok (s : ApiState α) : Prop := s.res.Ok s.aborted s.phase.isFinished

theorem Ok.finish {s : ApiState α} (hopen : s.res.Ok s.aborted false)
    (haborted : s.aborted = true) : s.finish.Ok := by
  show s.res.Ok s.aborted true
  rw [haborted] at hopen ⊢
  exact hopen.giveUp

theorem Ok.answer {s : ApiState α} (hopen : s.res.Ok s.aborted false)
    (haborted : s.aborted = false) {calls : List ResCall}
    (hcalls : calls.countP ResCall.completes = 1) :
    Ok ({ s with res := (s.res.cork calls).1, phase := .finished } : ApiState α) := by
  show (s.res.cork calls).1.Ok s.aborted true
  rw [haborted] at hopen ⊢
  exact (hopen.cork hcalls).2

/-- **A continuation keeps an open exchange in order.** -/
theorem Next.ok {k : Nat} {s s' : ApiState α} (h : Next k s s')
    (hopen : s.res.Ok s.aborted false) : s'.Ok := by
  cases h with
  | fails err => exact hopen
  | givesUp haborted => exact Ok.finish hopen haborted
  | awaits phase hphase _ =>
    show s.res.Ok s.aborted phase.isFinished
    rwa [hphase]
  | responds haborted calls hcalls =>
    have hcork : (s.res.cork calls).2 = true := ((haborted ▸ hopen).cork hcalls).1
    unfold respond
    dsimp only
    rw [if_pos hcork]
    exact Ok.answer hopen haborted hcalls

theorem countP_sendErrorResponse {headers : List (String × String)} {status : String} {body : α}
    {acceptsJson : Bool} {calls : List ResCall}
    (h : sendErrorResponse enc (headers.map fun h => .writeHeader h.1 h.2) status body
      acceptsJson = some calls) : calls.countP ResCall.completes = 1 := by
  obtain ⟨response, -, rfl⟩ := Option.map_eq_some_iff.mp h
  exact countP_status _ _ _

/-- **An error is answered**, if its body can be encoded. -/
theorem ok_answerError {s : ApiState α} {err : Thrown α} (hopen : s.res.Ok s.aborted false)
    (hencodes : s.aborted = false →
      (enc.encode req.acceptsJson (errorResponse enc err).2).isSome = true) :
    (s.answerError enc t endpoint req err).Ok := by
  unfold answerError
  split
  · rename_i haborted
    exact Ok.finish hopen haborted
  · rename_i haborted
    rw [Bool.not_eq_true] at haborted
    cases hsend : sendErrorResponse enc (endpoint.writeHeaders t req.origin [])
        (errorResponse enc err).1 (errorResponse enc err).2 req.acceptsJson with
    | none =>
      have hnone := Option.map_eq_none_iff.mp hsend
      exact absurd (hencodes haborted) (by simp [hnone])
    | some calls => exact Ok.answer hopen haborted (countP_sendErrorResponse hsend)

theorem ok_opened : (opened : ApiState α).Ok := UwsResponse.ok_empty.call rfl

theorem ok_refused {origin status : String} {body : α} {acceptsJson : Bool}
    (hencodes : (enc.encode acceptsJson body).isSome = true) :
    (refused enc t endpoint origin status body acceptsJson).Ok := by
  unfold refused
  cases hsend : sendErrorResponse enc (endpoint.writeHeaders t origin []) status body
      acceptsJson with
  | none =>
    have hnone := Option.map_eq_none_iff.mp hsend
    exact absurd hencodes (by simp [hnone])
  | some calls => exact Ok.answer ok_opened rfl (countP_sendErrorResponse hsend)

theorem ok_start (head : Option ApiRequestHead) : (start enc t endpoint head).Ok := by
  cases head with
  | none => exact ok_refused (Encoding.encode_none _ _)
  | some req =>
    show Ok (if _ then _ else _)
    split
    · exact ok_opened
    · exact ok_refused (Encoding.encode_code _ _ _)

/-- What a client may rely on. -/
def Safe (s : ApiState α) : Prop := s.res.Safe s.aborted s.phase.isFinished

end ApiState

/-- The body of an error that is answered can be encoded. -/
def ApiEvent.Encodes (enc : Encoding α) (req : ApiRequestHead) (e : ApiEvent α) (s : ApiState α) :
    Prop :=
  ∀ err, e = .body → s.phase = .failed err → s.aborted = false →
    (enc.encode req.acceptsJson (ApiState.errorResponse enc err).2).isSome = true

namespace ApiState

/-- **A step keeps the exchange in order.** -/
theorem Ok.exec {s s' : ApiState α} {e : ApiEvent α} (h : s.Ok) (hencodes : e.Encodes enc req s)
    (he : ApiEvent.exec enc t endpoint req s e = some s') : s'.Ok := by
  obtain ⟨res, aborted, upload, phase⟩ := s
  cases e with
  | abort =>
    obtain rfl := Option.some.inj he
    exact UwsResponse.Ok.abort h
  | data chunk isLast =>
    cases upload with
    | pending chunks =>
      obtain rfl := Option.some.inj he
      exact h
    | _ => exact absurd he (by simp [ApiEvent.exec])
  | auth readAuthInfo getAccess =>
    cases phase with
    | auth =>
      obtain rfl := Option.some.inj he
      exact (next_afterAuth _ _).ok h
    | _ => exact absurd he (by simp [ApiEvent.exec])
  | body =>
    cases phase with
    | body spec =>
      cases upload with
      | pending chunks => exact absurd he (by simp [ApiEvent.exec])
      | complete raw =>
        obtain rfl := Option.some.inj he
        exact (next_afterBody _ _ _).ok h
      | rejected =>
        obtain rfl := Option.some.inj he
        exact h
    | failed err =>
      obtain ⟨-, he⟩ := Option.ite_none_right_eq_some.mp he
      obtain rfl := Option.some.inj he
      exact ok_answerError h (hencodes err rfl rfl)
    | _ => exact absurd he (by simp [ApiEvent.exec])
  | handler outcome =>
    cases phase with
    | handler =>
      obtain rfl := Option.some.inj he
      exact (next_afterHandler _ _).ok h
    | _ => exact absurd he (by simp [ApiEvent.exec])
  | arrayBuffer outcome =>
    cases phase with
    | responseBody r =>
      obtain rfl := Option.some.inj he
      exact (next_afterArrayBuffer _ _ _).ok h
    | _ => exact absurd he (by simp [ApiEvent.exec])

/-- An error whose body cannot be encoded is not answered. -/
theorem Ok.not_safe_of_exec {s s' : ApiState α} {e : ApiEvent α} (h : s.Ok)
    (hencodes : ¬ e.Encodes enc req s)
    (he : ApiEvent.exec enc t endpoint req s e = some s') : ¬ s'.Safe := by
  simp only [ApiEvent.Encodes, not_forall] at hencodes
  obtain ⟨err, rfl, hphase, haborted, hnone⟩ := hencodes
  obtain ⟨res, aborted, upload, phase⟩ := s
  obtain rfl : phase = .failed err := hphase
  obtain rfl : aborted = false := haborted
  obtain ⟨-, he⟩ := Option.ite_none_right_eq_some.mp he
  obtain rfl := Option.some.inj he
  have hsend : sendErrorResponse enc (endpoint.writeHeaders t req.origin [])
      (errorResponse enc err).1 (errorResponse enc err).2 req.acceptsJson = none := by
    unfold sendErrorResponse
    rw [Option.not_isSome_iff_eq_none.mp hnone]
    rfl
  have hanswer : answerError enc t endpoint req ⟨res, false, upload, .failed err⟩ err =
      ApiState.finish ⟨res, false, upload, .failed err⟩ := by
    unfold answerError
    rw [if_neg Bool.false_ne_true, hsend]
  rw [hanswer]
  exact UwsResponse.not_safe_of_pending (h.pending rfl)

end ApiState

/-! ## Runs -/

variable (enc t endpoint req)

/-- An event of which `P` holds in the state before it. -/
def ApiStep (P : ApiEvent α → ApiState α → Prop) (s s' : ApiState α) : Prop :=
  ∃ e, P e s ∧ ApiEvent.exec enc t endpoint req s e = some s'

/-- The states of the runs of events of which `P` holds, of a request that can be read or not. -/
def ApiReach (readable : Bool) (P : ApiEvent α → ApiState α → Prop) : ApiState α → Prop :=
  Relation.ReflTransGen (ApiStep enc t endpoint req P)
    (ApiState.start enc t endpoint (if readable then some req else none))

variable {enc t endpoint req}

/-- **Every run** in which the errors can be encoded. -/
theorem ApiState.ok_of_reach {readable : Bool} {s : ApiState α}
    (h : ApiReach enc t endpoint req readable (ApiEvent.Encodes enc req) s) : s.Ok := by
  induction h with
  | refl => exact ApiState.ok_start _
  | tail _ hstep ih =>
    obtain ⟨e, hencodes, he⟩ := hstep
    exact ih.exec hencodes he

end Handler

end YHub
