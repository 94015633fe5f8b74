import YHub.ApiHandler

/-!
# The upgrade handler, and responses that are safe against aborts (`server.js:337-400`)

The handler of a websocket upgrade awaits the auth plugin twice. Whether the client is gone is
checked before the upgrade and before an error is answered, but not before the `403` of a user
without read access.

* `UpgradeState.Ok.exec`: a step keeps the exchange in order, if it does not deny a client that is
  gone.
* `responses_safe`: no access after an abort, and one response; of both handlers, in every run.
* `responses_unsafe`: a client that is gone is denied; an error that cannot be encoded.
-/

namespace YHub

/-! ## The state of an upgrade -/

/-- What the handler reads of the request, up to the call of `readAuthInfo`; `room` is `none` where
that throws. -/
structure UpgradeRequest where
  origin : String
  host : String
  secFetchSite : String
  secWebSocketKey : String
  secWebSocketProtocol : String
  secWebSocketExtensions : String
  room : Option Room

inductive UpgradePhase where
  | authInfo (room : Room)
  | accessType (room : Room) (authInfo : AuthInfo)
  | finished
  deriving DecidableEq, Repr

namespace UpgradePhase

def isFinished : UpgradePhase → Bool
  | finished => true
  | _ => false

/-- The promises that may still be awaited. -/
def rank : UpgradePhase → Nat
  | authInfo _ => 2
  | accessType _ _ => 1
  | finished => 0

end UpgradePhase

structure UpgradeState where
  res : UwsResponse
  aborted : Bool
  phase : UpgradePhase

/-- What happens to an upgrade. An `authInfo` of `none` has no `userid` that is a string. -/
inductive UpgradeEvent (α : Type) where
  | abort
  | authInfo (outcome : Except (Thrown α) (Option AuthInfo))
  | accessType (outcome : Except (Thrown α) (Option AccessType))

/-! ## The handler -/

section Handler

variable {α : Type} (t : CaseTable) (cors : Option ResolvedCors) (req : UpgradeRequest)

namespace UpgradeState

def finish (s : UpgradeState) : UpgradeState := { s with phase := .finished }

/-- The `catch`. -/
def fail (s : UpgradeState) (err : Thrown α) : UpgradeState :=
  if s.aborted then s.finish
  else
    match err with
    | .apiError status message _ =>
      { s with
        res := (s.res.cork [.writeStatus (statusLine status), .end_ (some (.text message))]).1
        phase := .finished }
    | _ =>
      { s with
        res := (s.res.cork [.writeStatus "401 Unauthorized", .end_ (some (.text "Unauthorized"))]).1
        phase := .finished }

/-- The last `res.cork` of the `try`. -/
def respond (s : UpgradeState) (calls : List ResCall) : UpgradeState :=
  let cork := s.res.cork calls
  if cork.2 then { s with res := cork.1, phase := .finished }
  else { s with res := cork.1 }.fail (.other : Thrown Unit)

def forbidden : List ResCall := [.writeStatus "403 Forbidden", .end_ (some (.text "Forbidden"))]

/-- `onAborted` is set. -/
def opened : UpgradeState := ⟨UwsResponse.empty.call [.onAborted], false, .finished⟩

/-- The call of the handler. -/
def start : UpgradeState :=
  let s := opened
  if !originAllowed t cors req.origin req.host req.secFetchSite then s.respond forbidden
  else
    match req.room with
    | none => s.fail (.other : Thrown Unit)
    | some room => { s with phase := .authInfo room }

/-- After `await readAuthInfo(req)`. -/
def afterAuthInfo (s : UpgradeState) (room : Room)
    (outcome : Except (Thrown α) (Option AuthInfo)) : UpgradeState :=
  match outcome with
  | .error err => s.fail err
  | .ok none => s.fail (.other : Thrown α)
  | .ok (some authInfo) => { s with phase := .accessType room authInfo }

/-- After `await getAccessType(authInfo, room, null)`. -/
def afterAccessType (s : UpgradeState) (room : Room) (authInfo : AuthInfo)
    (outcome : Except (Thrown α) (Option AccessType)) : UpgradeState :=
  match outcome with
  | .error err => s.fail err
  | .ok accessType =>
    -- without a look at `aborted`
    if !hasReadAccess accessType then s.respond forbidden
    else if s.aborted then s.finish
    else
      s.respond [.upgrade (.new room (hasWriteAccess accessType) authInfo) req.secWebSocketKey
        req.secWebSocketProtocol req.secWebSocketExtensions]

end UpgradeState

/-- One event, where it can happen. -/
def UpgradeEvent.exec (s : UpgradeState) : UpgradeEvent α → Option UpgradeState
  | .abort => some { s with res := { s.res with gone := true }, aborted := true }
  | .authInfo outcome =>
    match s.phase with
    | .authInfo room => some (s.afterAuthInfo room outcome)
    | _ => none
  | .accessType outcome =>
    match s.phase with
    | .accessType room user => some (s.afterAccessType req room user outcome)
    | _ => none

variable {t cors req}

/-- A client that is gone is denied. -/
def UpgradeEvent.DeniesGone (e : UpgradeEvent α) (s : UpgradeState) : Prop :=
  e = .accessType (.ok none) ∧ s.aborted = true

namespace UpgradeState

/-- The promise that is awaited settles. -/
def Settles (s : UpgradeState) (e : UpgradeEvent α) : Prop :=
  match s.phase, e with
  | .authInfo _, .authInfo _ => True
  | .accessType _ _, .accessType _ => True
  | _, _ => False

/-- The exchange is in order. -/
def Ok (s : UpgradeState) : Prop := s.res.Ok s.aborted s.phase.isFinished

/-- What a client may rely on. -/
def Safe (s : UpgradeState) : Prop := s.res.Safe s.aborted s.phase.isFinished

variable {s s' : UpgradeState}

theorem phase_fail (s : UpgradeState) (err : Thrown α) : (s.fail err).phase = .finished := by
  unfold fail
  split
  · rfl
  · split <;> rfl

theorem phase_respond (s : UpgradeState) (calls : List ResCall) :
    (s.respond calls).phase = .finished := by
  unfold respond
  dsimp only
  split
  · rfl
  · exact phase_fail _ _

/-- **A promise that settles brings the end closer.** -/
theorem exec_settles {e : UpgradeEvent α} (h : s.Settles e) :
    ∃ s', UpgradeEvent.exec req s e = some s' ∧ s'.phase.rank < s.phase.rank := by
  obtain ⟨res, aborted, phase⟩ := s
  cases phase with
  | authInfo room =>
    cases e with
    | authInfo outcome =>
      refine ⟨_, rfl, ?_⟩
      unfold afterAuthInfo
      split
      · rw [phase_fail]
        exact Nat.zero_lt_two
      · rw [phase_fail]
        exact Nat.zero_lt_two
      · exact Nat.one_lt_two
    | _ => exact absurd h id
  | accessType room user =>
    cases e with
    | accessType outcome =>
      have hphase : ∀ s : UpgradeState,
          (s.afterAccessType req room user outcome).phase = .finished := by
        intro s
        unfold afterAccessType
        split
        · exact phase_fail _ _
        · split_ifs
          · exact phase_respond _ _
          · rfl
          · exact phase_respond _ _
      refine ⟨_, rfl, ?_⟩
      rw [hphase]
      exact Nat.zero_lt_one
    | _ => exact absurd h id
  | finished => exact absurd h (by simp [Settles])

/-! ## The exchange -/

theorem Ok.finish (hopen : s.res.Ok s.aborted false) (haborted : s.aborted = true) :
    s.finish.Ok := by
  show s.res.Ok s.aborted true
  rw [haborted] at hopen ⊢
  exact hopen.giveUp

theorem Ok.answer (hopen : s.res.Ok s.aborted false) (haborted : s.aborted = false)
    {calls : List ResCall} (hcalls : calls.countP ResCall.completes = 1) :
    Ok { s with res := (s.res.cork calls).1, phase := .finished } := by
  show (s.res.cork calls).1.Ok s.aborted true
  rw [haborted] at hopen ⊢
  exact (hopen.cork hcalls).2

theorem Ok.fail (hopen : s.res.Ok s.aborted false) (err : Thrown α) : (s.fail err).Ok := by
  unfold UpgradeState.fail
  split
  · rename_i haborted
    exact Ok.finish hopen haborted
  · rename_i haborted
    rw [Bool.not_eq_true] at haborted
    split
    · exact Ok.answer hopen haborted rfl
    · exact Ok.answer hopen haborted rfl

theorem Ok.respond (hopen : s.res.Ok s.aborted false) (haborted : s.aborted = false)
    {calls : List ResCall} (hcalls : calls.countP ResCall.completes = 1) :
    (s.respond calls).Ok := by
  have hcork : (s.res.cork calls).2 = true := ((haborted ▸ hopen).cork hcalls).1
  unfold UpgradeState.respond
  dsimp only
  rw [if_pos hcork]
  exact Ok.answer hopen haborted hcalls

theorem ok_start : (start t cors req).Ok := by
  have hopened : opened.res.Ok opened.aborted false := UwsResponse.ok_empty.call rfl
  unfold start
  dsimp only
  split
  · exact Ok.respond hopened rfl rfl
  · split
    · exact Ok.fail hopened _
    · exact hopened

/-- **A step keeps the exchange in order**, unless a client that is gone is denied. -/
theorem Ok.exec {e : UpgradeEvent α} (h : s.Ok) (hdenies : ¬ e.DeniesGone s)
    (he : UpgradeEvent.exec req s e = some s') : s'.Ok := by
  obtain ⟨res, aborted, phase⟩ := s
  cases e with
  | abort =>
    obtain rfl := Option.some.inj he
    exact UwsResponse.Ok.abort h
  | authInfo outcome =>
    cases phase with
    | authInfo room =>
      obtain rfl := Option.some.inj he
      unfold afterAuthInfo
      split
      · exact Ok.fail h _
      · exact Ok.fail h _
      · exact h
    | _ => exact absurd he (by simp [UpgradeEvent.exec])
  | accessType outcome =>
    cases phase with
    | accessType room user =>
      obtain rfl := Option.some.inj he
      unfold afterAccessType
      split
      · exact Ok.fail h _
      · rename_i accessType
        cases accessType with
        | none =>
          have haborted : aborted = false :=
            Bool.not_eq_true _ ▸ fun haborted => hdenies ⟨rfl, haborted⟩
          exact Ok.respond h haborted rfl
        | some access =>
          have hread : ¬ (!hasReadAccess (some access)) = true := by simp [hasReadAccess]
          rw [if_neg hread]
          split
          · rename_i haborted
            exact Ok.finish h haborted
          · rename_i haborted
            exact Ok.respond h (Bool.not_eq_true _ ▸ haborted) rfl
    | _ => exact absurd he (by simp [UpgradeEvent.exec])

/-- A client that is gone and denied: the response is touched. -/
theorem Ok.not_safe_of_exec {e : UpgradeEvent α} (h : s.Ok) (hdenies : e.DeniesGone s)
    (he : UpgradeEvent.exec req s e = some s') : ¬ s'.Safe := by
  obtain ⟨res, aborted, phase⟩ := s
  obtain ⟨rfl, haborted⟩ := hdenies
  obtain rfl : aborted = true := haborted
  cases phase with
  | accessType room user =>
    obtain rfl := Option.some.inj he
    have hgone : res.gone = true := h.gone
    have hcork : res.cork forbidden = (res.call [.cork], false) := by
      unfold UwsResponse.cork
      rw [hgone]
      rfl
    have hdenied : (⟨res, true, .accessType room user⟩ : UpgradeState).respond forbidden =
        ⟨res.call [.cork], true, .finished⟩ := by
      unfold UpgradeState.respond
      dsimp only
      rw [hcork]
      rfl
    show ¬ ((⟨res, true, .accessType room user⟩ : UpgradeState).respond forbidden).Safe
    rw [hdenied]
    exact UwsResponse.not_safe_of_gone hgone .cork
  | _ => exact absurd he (by simp [UpgradeEvent.exec])

end UpgradeState

/-! ## Runs -/

variable (t cors req)

/-- An event of which `P` holds in the state before it. -/
def UpgradeStep (P : UpgradeEvent α → UpgradeState → Prop) (s s' : UpgradeState) : Prop :=
  ∃ e, P e s ∧ UpgradeEvent.exec req s e = some s'

/-- The states of the runs of events of which `P` holds. -/
def UpgradeReach (P : UpgradeEvent α → UpgradeState → Prop) : UpgradeState → Prop :=
  Relation.ReflTransGen (UpgradeStep req P) (UpgradeState.start t cors req)

variable {t cors req}

theorem UpgradeState.ok_of_reach {s : UpgradeState}
    (h : UpgradeReach t cors req (fun (e : UpgradeEvent α) s => ¬ e.DeniesGone s) s) : s.Ok := by
  induction h with
  | refl => exact UpgradeState.ok_start
  | tail _ hstep ih =>
    obtain ⟨e, hdenies, he⟩ := hstep
    exact ih.exec hdenies he

/-- **Responses are safe against aborts.** In every run of the handler of a rest request in which
the body of each error that is answered can be encoded, and in every run of an upgrade in which no
client that is gone is denied: no method is called after the client is gone, there is at most one
response, there is one when nothing is awaited and the client is there, and each promise that
settles brings that closer. In every other run this fails, after the first step that is not like
that. -/
theorem responses_safe (enc : Encoding α) (t : CaseTable) (endpoint : ApiEndpoint α)
    (head : ApiRequestHead) (readable : Bool) (cors : Option ResolvedCors)
    (req : UpgradeRequest) :
    (∀ s, ApiReach enc t endpoint head readable (ApiEvent.Encodes enc head) s → s.Safe ∧
      ∀ e, s.Settles e →
        ∃ s', ApiEvent.exec enc t endpoint head s e = some s' ∧ s'.phase.rank < s.phase.rank) ∧
    (∀ s s', ApiReach enc t endpoint head readable (ApiEvent.Encodes enc head) s →
      ApiStep enc t endpoint head (fun e s => ¬ e.Encodes enc head s) s s' → ¬ s'.Safe) ∧
    (∀ s, UpgradeReach t cors req (fun (e : UpgradeEvent α) s => ¬ e.DeniesGone s) s → s.Safe ∧
      ∀ e : UpgradeEvent α, s.Settles e →
        ∃ s', UpgradeEvent.exec req s e = some s' ∧ s'.phase.rank < s.phase.rank) ∧
    ∀ s s', UpgradeReach t cors req (fun (e : UpgradeEvent α) s => ¬ e.DeniesGone s) s →
      UpgradeStep req (fun (e : UpgradeEvent α) s => e.DeniesGone s) s s' → ¬ s'.Safe := by
  refine ⟨fun s hs => ⟨(ApiState.ok_of_reach hs).safe, fun e => ApiState.exec_settles⟩,
    fun s s' hs hstep => ?_,
    fun s hs => ⟨(UpgradeState.ok_of_reach hs).safe, fun e => UpgradeState.exec_settles⟩,
    fun s s' hs hstep => ?_⟩
  · obtain ⟨e, hencodes, he⟩ := hstep
    exact (ApiState.ok_of_reach hs).not_safe_of_exec hencodes he
  · obtain ⟨e, hdenies, he⟩ := hstep
    exact (UpgradeState.ok_of_reach hs).not_safe_of_exec hdenies he

end Handler

/-! ## Clients that go away, and errors without a body -/

/-- A client without an `Origin`. -/
def upgradeRequest : UpgradeRequest := ⟨"", "", "", "key", "", "", some Room.a⟩

/-- The texts of values; `none` is one with a `BigInt`, which `JSON.stringify` refuses. -/
def textEncoding : Encoding (Option String) where
  stringify v := v
  encodeAny _ := some []
  decodeAny _ := none
  parse _ := none
  errorBody message
    | .none => some ("\x7b\"error\":\"" ++ message ++ "\"\x7d")
    | .code code => some ("\x7b\"error\":\"" ++ message ++ "\",\"code\":\"" ++ code ++ "\"\x7d")
    | .custom extra => extra.map fun extra => "\x7b\"error\":\"" ++ message ++ "\"," ++ extra
  stringify_none _ := rfl
  stringify_code _ _ := rfl
  encodeAny_none _ := rfl
  encodeAny_code _ _ := rfl

/-- An endpoint that checks nothing. -/
def plainEndpoint : ApiEndpoint (Option String) := ⟨true, .r, none, none, false, none⟩

def jsonRequest : ApiRequestHead := ⟨.empty, InsertionMap.empty.set "accept" "application/json"⟩

/-- A user with read access, whose client stays. -/
theorem responses_safe_of_upgrade : ∃ s : UpgradeState,
    s.Safe ∧ s.phase = .finished ∧ s.res.responses = 1 := by
  have hsafe := (responses_safe textEncoding .ascii plainEndpoint jsonRequest true none
    upgradeRequest).2.2.1
  have h₁ : UpgradeReach .ascii none upgradeRequest
      (fun (e : UpgradeEvent (Option String)) s => ¬ e.DeniesGone s) _ :=
    .single ⟨.authInfo (.ok (some ⟨"user1", []⟩)),
      fun h => by simp [UpgradeEvent.DeniesGone] at h, rfl⟩
  have h₂ := h₁.tail ⟨.accessType (.ok (some .r)),
    fun h => by simp [UpgradeEvent.DeniesGone] at h, rfl⟩
  exact ⟨_, (hsafe _ h₂).1, rfl, rfl⟩

/-- **Responses that are not safe.** A user without read access goes away before `getAccessType`
answers, and is denied. An endpoint throws an `apiError` with a `BigInt` for a client that accepts
json, and nothing is answered. -/
theorem responses_unsafe :
    (¬ ∀ s, UpgradeReach .ascii none upgradeRequest
      (fun (_ : UpgradeEvent (Option String)) _ => True) s → s.Safe) ∧
    ¬ ∀ s, ApiReach textEncoding .ascii plainEndpoint jsonRequest true (fun _ _ => True) s →
      s.Safe := by
  refine ⟨fun h => ?_, fun h => ?_⟩
  · have h₁ : UpgradeReach .ascii none upgradeRequest
        (fun (_ : UpgradeEvent (Option String)) _ => True) _ :=
      .single ⟨.authInfo (.ok (some ⟨"user1", []⟩)), trivial, rfl⟩
    have h₂ := h₁.tail ⟨.abort, trivial, rfl⟩
    have h₃ := h₂.tail ⟨.accessType (.ok none), trivial, rfl⟩
    exact absurd ((h _ h₃).untouched (.cork, true) (by decide)) (by simp)
  · have h₁ : ApiReach textEncoding .ascii plainEndpoint jsonRequest true (fun _ _ => True) _ :=
      .single ⟨.data [] true, trivial, rfl⟩
    have h₂ := h₁.tail ⟨.auth (.ok (some ⟨"user1", []⟩)) (.ok (some .r)), trivial, rfl⟩
    have h₃ := h₂.tail ⟨.handler (.error (.apiError 409 "conflict" (.custom none))), trivial, rfl⟩
    have h₄ := h₃.tail ⟨.body, trivial, rfl⟩
    exact absurd ((h _ h₄).answered rfl rfl) (by decide)

end YHub
