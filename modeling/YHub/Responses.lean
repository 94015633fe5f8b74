import YHub.Cors
import YHub.WSUser

/-!
# Responses (`api.js:16-148`)

A response of uws is written by calls of its methods, in a callback that is corked. uws forbids any
access once the client is gone: a call throws then. `calls` are the calls that were made, each with
whether the client was gone.

An exchange is open until the handler of the request has nothing left to await. `UwsResponse.Ok` is
kept by what a handler may do: note that the client is gone, answer an open exchange while it is
not, and give up one whose client is gone.
-/

namespace YHub

/-! ## What is written -/

inductive Payload where
  | text (s : String)
  | bytes (b : List UInt8)
  deriving DecidableEq, Repr

/-- A call of a method of the response. -/
inductive ResCall where
  | onAborted
  | onData
  | cork
  | writeStatus (status : String)
  | writeHeader (key value : String)
  | end_ (payload : Option Payload)
  | upgrade (user : WSUser) (secWebSocketKey secWebSocketProtocol secWebSocketExtensions : String)
  deriving DecidableEq, Repr

/-- The call completes a response. -/
def ResCall.completes : ResCall → Bool
  | end_ _ => true
  | upgrade .. => true
  | _ => false

structure UwsResponse where
  gone : Bool
  calls : List (ResCall × Bool)

namespace UwsResponse

def empty : UwsResponse := ⟨false, []⟩

/-- Methods are called. -/
def call (res : UwsResponse) (calls : List ResCall) : UwsResponse :=
  { res with calls := res.calls ++ calls.map (·, res.gone) }

/-- `res.cork(() => { … })`, with the calls of the callback, and whether it returns. -/
def cork (res : UwsResponse) (calls : List ResCall) : UwsResponse × Bool :=
  if res.gone then (res.call [.cork], false) else (res.call (.cork :: calls), true)

/-- The responses that are complete. -/
def responses (res : UwsResponse) : Nat := res.calls.countP fun c => c.1.completes

/-- No method is called after the client is gone. -/
def Untouched (res : UwsResponse) : Prop := ∀ c ∈ res.calls, c.2 = false

/-- What the handler of a request keeps. `aborted` is what it knows of the client, `finished` that
it awaits nothing. -/
structure Ok (res : UwsResponse) (aborted finished : Bool) : Prop where
  gone : res.gone = aborted
  untouched : res.Untouched
  pending : finished = false → res.responses = 0
  answered : finished = true → aborted = false → res.responses = 1
  once : res.responses ≤ 1

/-- What a client may rely on. -/
structure Safe (res : UwsResponse) (aborted finished : Bool) : Prop where
  untouched : res.Untouched
  once : res.responses ≤ 1
  answered : finished = true → aborted = false → res.responses = 1

variable {res : UwsResponse} {aborted finished : Bool}

theorem Ok.safe (h : res.Ok aborted finished) : res.Safe aborted finished :=
  ⟨h.untouched, h.once, h.answered⟩

theorem responses_call (calls : List ResCall) :
    (res.call calls).responses = res.responses + calls.countP ResCall.completes := by
  unfold responses call
  rw [List.countP_append, List.countP_map]
  rfl

theorem untouched_call (h : res.Untouched) (hgone : res.gone = false) (calls : List ResCall) :
    (res.call calls).Untouched := by
  intro c hc
  rcases List.mem_append.mp hc with hc | hc
  · exact h c hc
  · obtain ⟨call, -, rfl⟩ := List.mem_map.mp hc
    exact hgone

theorem ok_empty : empty.Ok false false :=
  ⟨rfl, fun _ hc => absurd hc List.not_mem_nil, fun _ => rfl,
    fun hf => absurd hf Bool.false_ne_true, Nat.zero_le 1⟩

/-- An exchange stays open, if the calls complete nothing. -/
theorem Ok.call (h : res.Ok false false) {calls : List ResCall}
    (hcalls : calls.countP ResCall.completes = 0) : (res.call calls).Ok false false := by
  have hresponses : (res.call calls).responses = 0 := by
    rw [responses_call, h.pending rfl, hcalls]
  exact ⟨h.gone, untouched_call h.untouched h.gone _, fun _ => hresponses,
    fun hf => absurd hf Bool.false_ne_true, hresponses.trans_le (Nat.zero_le 1)⟩

/-- `onAborted` is called back. -/
theorem Ok.abort (h : res.Ok aborted finished) : Ok { res with gone := true } true finished :=
  ⟨rfl, h.untouched, h.pending, fun _ hf => absurd hf (by simp), h.once⟩

/-- **An open exchange is answered** with one complete response. -/
theorem Ok.cork (h : res.Ok false false) {calls : List ResCall}
    (hcalls : calls.countP ResCall.completes = 1) :
    (res.cork calls).2 = true ∧ (res.cork calls).1.Ok false true := by
  have hcork : res.cork calls = (res.call (.cork :: calls), true) := by
    unfold UwsResponse.cork
    rw [h.gone]
    rfl
  have hresponses : (res.call (.cork :: calls)).responses = 1 := by
    rw [responses_call, h.pending rfl, List.countP_cons, hcalls]
    rfl
  rw [hcork]
  exact ⟨rfl, h.gone, untouched_call h.untouched h.gone _, fun hf => absurd hf (by simp),
    fun _ _ => hresponses, hresponses.le⟩

/-- **An exchange whose client is gone is given up.** -/
theorem Ok.giveUp (h : res.Ok true finished) : res.Ok true true :=
  ⟨h.gone, h.untouched, fun hf => absurd hf (by simp), fun _ hf => absurd hf (by simp), h.once⟩

/-- A call is made while nobody is there. -/
theorem not_safe_of_gone (h : res.gone = true) (call : ResCall) :
    ¬ (res.call [call]).Safe aborted finished := by
  intro hsafe
  have hcall := hsafe.untouched (call, true) (List.mem_append_right _ (by simp [h]))
  exact absurd hcall (by simp)

/-- An exchange with a client ends without an answer. -/
theorem not_safe_of_pending (h : res.responses = 0) : ¬ res.Safe false true := by
  intro hsafe
  exact absurd (hsafe.answered rfl rfl) (by simp [h])

end UwsResponse

/-! ## Errors and their bodies -/

/-- The status lines that uws expects. -/
def statusLines : List (Nat × String) :=
  [(200, "200 OK"), (201, "201 Created"), (204, "204 No Content"), (400, "400 Bad Request"),
    (401, "401 Unauthorized"), (403, "403 Forbidden"), (404, "404 Not Found"),
    (409, "409 Conflict"), (422, "422 Unprocessable Entity"), (429, "429 Too Many Requests"),
    (500, "500 Internal Server Error"), (503, "503 Service Unavailable")]

def statusLine (code : Nat) : String := (statusLines.lookup code).getD (toString code ++ " ")

section

variable {α : Type}

/-- The `extra` of an `apiError`: none, a `code`, or what an endpoint or the auth plugin has. -/
inductive Extra (α : Type) where
  | none
  | code (code : String)
  | custom (extra : α)

/-- What is thrown. -/
inductive Thrown (α : Type) where
  | docDeleted
  | apiError (status : Nat) (message : String) (extra : Extra α)
  | other

/-- Values and their encodings; `none` is an exception. -/
structure Encoding (α : Type) where
  /-- `JSON.stringify(value, jsonReplacer)`; `undefined` is the empty text. -/
  stringify : α → Option String
  /-- `buffer.encodeAny(value)` -/
  encodeAny : α → Option (List UInt8)
  /-- `buffer.decodeAny(bytes)` -/
  decodeAny : List UInt8 → Option α
  /-- `JSON.parse(string.decodeUtf8(bytes))` -/
  parse : List UInt8 → Option α
  /-- `{ error: message, ...extra }` -/
  errorBody : String → Extra α → α
  stringify_none : ∀ message, (stringify (errorBody message .none)).isSome = true
  stringify_code : ∀ message code, (stringify (errorBody message (.code code))).isSome = true
  encodeAny_none : ∀ message, (encodeAny (errorBody message .none)).isSome = true
  encodeAny_code : ∀ message code, (encodeAny (errorBody message (.code code))).isSome = true

namespace Encoding

variable (enc : Encoding α)

def encode (json : Bool) (value : α) : Option Payload :=
  if json then (enc.stringify value).map .text else (enc.encodeAny value).map .bytes

variable {enc}

theorem encode_none (json : Bool) (message : String) :
    (enc.encode json (enc.errorBody message .none)).isSome = true := by
  cases json <;> simp [encode, enc.stringify_none, enc.encodeAny_none]

theorem encode_code (json : Bool) (message code : String) :
    (enc.encode json (enc.errorBody message (.code code))).isSome = true := by
  cases json <;> simp [encode, enc.stringify_code, enc.encodeAny_code]

end Encoding

/-- The calls of `sendErrorResponse` in its cork, `none` where the body cannot be encoded. -/
def sendErrorResponse (enc : Encoding α) (headers : List ResCall) (status : String) (body : α)
    (acceptsJson : Bool) : Option (List ResCall) :=
  (enc.encode acceptsJson body).map fun response =>
    .writeStatus status :: headers ++
      [.writeHeader "Content-Type"
        (if acceptsJson then "application/json" else "application/x-lib0any"),
        .end_ (some response)]

/-- What `authenticate` makes of the answers of the auth plugin, with the error and the status of a
request that is denied. An `authInfo` of `none` is `null`. -/
def authenticate (hasAuth : Bool) (requiredAccess : AccessType)
    (readAuthInfo : Except (Thrown α) (Option AuthInfo))
    (getAccess : Except (Thrown α) (Option AccessType)) :
    Except (Thrown α) (Except (String × String) (AuthInfo × Option AccessType)) :=
  let unauthorized := ("Unauthorized", "401 Unauthorized")
  let forbidden := ("Forbidden", "403 Forbidden")
  let caught := fun err : Thrown α =>
    match err with
    | .apiError .. => .error err
    | _ => .ok (.error unauthorized)
  if !hasAuth then .ok (.error unauthorized)
  else
    match readAuthInfo with
    | .error err => caught err
    | .ok none => .ok (.error unauthorized)
    | .ok (some authInfo) =>
      match getAccess with
      | .error err => caught err
      | .ok accessType =>
        if requiredAccess = .rw && !hasWriteAccess accessType then .ok (.error forbidden)
        else if requiredAccess = .r && !hasReadAccess accessType then .ok (.error forbidden)
        else .ok (.ok (authInfo, accessType))

end

end YHub
