import YHub.ContentTasks
import YHub.GetDoc

/-!
# Agent tasks (`agents.js:57-152`)

`agentTask` hands a document to a handler and forwards every change of it to the stream of the room.
No forward is awaited: the promise of `addMessage` settles at some time, and a failure is kept in
`pendingError`, if it is the first. The task reads `pendingError` when the handler has returned, and
again when the clearing of the awareness has settled; with `clearAwareness: false` nothing is
cleared, and the two are one.

A state `AgentTask` is where the task stands between two events; `forwards` are the messages it has
forwarded, with how their promises have settled, also after the task has returned. The contents of
awareness updates are parameters of the events. An update of at most 3 bytes has no content, and is
not forwarded.

* `agent_forwards_surfaced`: the task resolves only when all it forwarded is accepted, exactly if
  nothing is unsettled where it reads `pendingError` for the last time; what fails later is never
  surfaced.
* `forward_lost`: an update that is lost.
-/

namespace YHub

variable {β ρ ε : Type}

/-- `AgentTaskOptions`, with the defaults; `clearAwareness = none` is `false`. -/
structure AgentTaskOptions where
  clearAwareness : Option JsNumber := some (.ofNat 0)
  author : Option String := none
  displayedAuthor : Option String := author
  promptBy : Option String := none
  customAttributions : List KV := []

/-- How a promise of `addMessage` has settled. -/
inductive Settlement (ε : Type) where
  | accepted
  | failed (err : ε)
  deriving DecidableEq, Repr

/-- A message that was handed to `addMessage`, and how its promise has settled if it has. -/
structure Forward (β ε : Type) where
  message : Message β
  settlement : Option (Settlement ε)
  deriving DecidableEq, Repr

/-- What an agent task rejects with. -/
inductive AgentError (ε : Type) where
  | docDeleted (room : Room) (tombstone : Tombstone)
  | error (err : ε)

/-- What the task awaits, or how it has returned. -/
inductive AgentPhase (β ρ ε : Type) where
  /-- `getDoc` -/
  | loading
  /-- The handler, which was given the document. -/
  | handling (gcDoc : Option β)
  /-- `promise.wait(delayMs)` -/
  | waiting (result : Option ρ)
  /-- `addMessage` of the disconnect. -/
  | clearing (result : Option ρ) (disconnect : Message β)
  | resolved (result : Option ρ)
  | rejected (err : AgentError ε)

structure AgentTask (β ρ ε : Type) where
  phase : AgentPhase β ρ ε
  pendingError : Option ε
  forwards : List (Forward β ε)

/-! ## The task -/

namespace AgentTaskOptions

variable (opts : AgentTaskOptions)

/-- `mergedAttrs` -/
def mergedAttrs : List KV := opts.customAttributions ++ (opts.promptBy.map (⟨"promptBy", ·⟩)).toList

/-- `insertAttrs` and `deleteAttrs`. -/
def attrs (name : String) (now : Nat) : List ContentAttribute :=
  (opts.author.map (⟨name, .string ·⟩)).toList ++ ⟨name ++ "At", .number now⟩ ::
    opts.mergedAttrs.map fun a => ⟨name ++ ":" ++ a.k, .string a.v⟩

/-- The message that `onUpdate` forwards. -/
def onUpdate (Y : Yjs β) (byteLength : β → Nat) (now : Nat) (update : β) : Option (Message β) :=
  if byteLength update ≤ 3 then none
  else some (.ydocUpdate update (Y.encodeContentMap (Y.createContentMapFromContentIds
    (Y.createContentIdsFromUpdate update) (opts.attrs "insert" now) (opts.attrs "delete" now))))

/-- The message that `onAwareness` forwards. -/
def onAwareness (added updated removed : List Nat) (update : β) : Option (Message β) :=
  let clients := added ++ updated ++ removed
  if clients = [] then none else some (.awareness update)

end AgentTaskOptions

namespace AgentTask

/-- The call of `agentTask`. -/
def start : AgentTask β ρ ε := ⟨.loading, none, []⟩

/-- `captureErr`; what is thrown may be `null`. -/
def captureErr (s : AgentTask β ρ ε) (err : Option ε) : AgentTask β ρ ε :=
  { s with pendingError := s.pendingError.or err }

/-- `yhub.stream.addMessage(room, …).catch(…)` -/
def forward (s : AgentTask β ρ ε) (message : Option (Message β)) : AgentTask β ρ ε :=
  { s with forwards := s.forwards ++ message.toList.map (⟨·, none⟩) }

/-- From `getDoc` to the call of the handler; `seed` is the awareness with the displayed author. -/
def onDoc (s : AgentTask β ρ ε) (room : Room) (opts : AgentTaskOptions) (doctable : DocTable β)
    (seed : β) : AgentTask β ρ ε :=
  match doctable.tombstone with
  | some tombstone => { s with phase := .rejected (.docDeleted room tombstone) }
  | none =>
    { s with phase := .handling doctable.gcDoc }.forward
      (opts.displayedAuthor.map fun _ => .awareness seed)

/-- The last two lines. -/
def finish (s : AgentTask β ρ ε) (result : Option ρ) : AgentTask β ρ ε :=
  match s.pendingError with
  | some err => { s with phase := .rejected (.error err) }
  | none => { s with phase := .resolved result }

/-- From the handler to the next `await`, or to the end. `clearAwareness * 1000` is positive where
`clearAwareness` is. -/
def afterHandler (s : AgentTask β ρ ε) (opts : AgentTaskOptions) (result : Option ρ)
    (disconnect : Message β) : AgentTask β ρ ε :=
  let skipClear := s.pendingError.isNone && opts.clearAwareness.isNone
  if skipClear then s.finish result
  else if s.pendingError.isNone && opts.clearAwareness.any (JsNumber.ofNat 0).lt then
    { s with phase := .waiting result }
  else { s with phase := .clearing result disconnect }

/-- A forward settles. -/
def settle (s : AgentTask β ρ ε) (i : Nat) (f : Forward β ε) (settlement : Settlement ε) :
    AgentTask β ρ ε :=
  let s := { s with forwards := s.forwards.set i { f with settlement := some settlement } }
  match settlement with
  | .accepted => s
  | .failed err => s.captureErr (some err)

/-- The `try` around the disconnect, and what follows. -/
def cleared (s : AgentTask β ρ ε) (result : Option ρ) : Settlement ε → AgentTask β ρ ε
  | .accepted => s.finish result
  | .failed err => (s.captureErr (some err)).finish result

end AgentTask

/-- What happens to an agent task. -/
inductive AgentEvent (β ρ ε : Type) where
  | doc (doctable : DocTable β) (seed : β)
  | docFailed (err : AgentError ε)
  /-- The document of the handler changes. -/
  | update (now : Nat) (u : β)
  /-- The awareness of the handler changes. -/
  | awareness (added updated removed : List Nat) (u : β)
  | returned (result : ρ) (disconnect : Message β)
  | threw (err : Option ε) (disconnect : Message β)
  | waited (disconnect : Message β)
  | cleared (settlement : Settlement ε)
  /-- The promise of a forward settles. -/
  | settled (i : Nat) (settlement : Settlement ε)

section Runs

variable (Y : Yjs β) (byteLength : β → Nat) (room : Room) (opts : AgentTaskOptions)

/-- One event; the listeners are on while the handler runs. -/
def AgentEvent.exec (s : AgentTask β ρ ε) : AgentEvent β ρ ε → Option (AgentTask β ρ ε)
  | .doc doctable seed =>
    match s.phase with
    | .loading => some (s.onDoc room opts doctable seed)
    | _ => none
  | .docFailed err =>
    match s.phase with
    | .loading => some { s with phase := .rejected err }
    | _ => none
  | .update now u =>
    match s.phase with
    | .handling _ => some (s.forward (opts.onUpdate Y byteLength now u))
    | _ => none
  | .awareness added updated removed u =>
    match s.phase with
    | .handling _ => some (s.forward (AgentTaskOptions.onAwareness added updated removed u))
    | _ => none
  | .returned result disconnect =>
    match s.phase with
    | .handling _ => some (s.afterHandler opts (some result) disconnect)
    | _ => none
  | .threw err disconnect =>
    match s.phase with
    | .handling _ => some ((s.captureErr err).afterHandler opts none disconnect)
    | _ => none
  | .waited disconnect =>
    match s.phase with
    | .waiting result => some { s with phase := .clearing result disconnect }
    | _ => none
  | .cleared settlement =>
    match s.phase with
    | .clearing result _ => some (s.cleared result settlement)
    | _ => none
  | .settled i settlement =>
    match s.forwards[i]? with
    | some ⟨message, none⟩ => some (s.settle i ⟨message, none⟩ settlement)
    | _ => none

/-- An event of which `P` holds in the state before it. -/
def AgentStep (P : AgentEvent β ρ ε → AgentTask β ρ ε → Prop) (s s' : AgentTask β ρ ε) : Prop :=
  ∃ e, P e s ∧ AgentEvent.exec Y byteLength room opts s e = some s'

/-- The states of the runs of events of which `P` holds. -/
def AgentReach (P : AgentEvent β ρ ε → AgentTask β ρ ε → Prop) : AgentTask β ρ ε → Prop :=
  Relation.ReflTransGen (AgentStep Y byteLength room opts P) .start

end Runs

/-! ## What is surfaced -/

namespace AgentTask

/-- A forward has failed. -/
def Failed (s : AgentTask β ρ ε) : Prop :=
  ∃ f ∈ s.forwards, ∃ err, f.settlement = some (.failed err)

/-- The task has resolved. -/
def Resolved (s : AgentTask β ρ ε) : Prop := ∃ result, s.phase = .resolved result

/-- The task has rejected. -/
def Rejected (s : AgentTask β ρ ε) : Prop := ∃ err, s.phase = .rejected err

/-- **Every failure is surfaced**: the task resolves only if the stream has accepted every update
that was forwarded, and when it returns after one has failed, it rejects. -/
structure Surfaced (s : AgentTask β ρ ε) : Prop where
  accepted : s.Resolved → ∀ f ∈ s.forwards, f.settlement = some .accepted
  rejects : s.Failed → s.Resolved ∨ s.Rejected → s.Rejected

/-- With this event `pendingError` is read for the last time, and it is `null`. -/
def LastRead (opts : AgentTaskOptions) (s : AgentTask β ρ ε) : AgentEvent β ρ ε → Prop
  | .returned _ _ => s.pendingError = none ∧ opts.clearAwareness = none
  | .threw err _ => err = none ∧ s.pendingError = none ∧ opts.clearAwareness = none
  | .cleared settlement => settlement = .accepted ∧ s.pendingError = none
  | _ => False

/-- No forward is unsettled at the last read of `pendingError`, unless that finds an error. -/
def Awaited (opts : AgentTaskOptions) (e : AgentEvent β ρ ε) (s : AgentTask β ρ ε) : Prop :=
  LastRead opts s e → ∀ f ∈ s.forwards, f.settlement ≠ none

/-- A forward that fails does so while the task has not resolved. -/
def Timely (e : AgentEvent β ρ ε) (s : AgentTask β ρ ε) : Prop :=
  ∀ i err, e = .settled i (.failed err) → ¬ s.Resolved

/-- **The invariant**: a failure is pending, and the task has not resolved before everything was
accepted. -/
structure Ok (s : AgentTask β ρ ε) : Prop where
  pending : s.Failed → s.pendingError ≠ none
  accepted : s.Resolved → ∀ f ∈ s.forwards, f.settlement = some .accepted

theorem Ok.surfaced {s : AgentTask β ρ ε} (h : s.Ok) : s.Surfaced where
  accepted := h.accepted
  rejects := by
    rintro ⟨f, hf, err, herr⟩ (hresolved | hrejected)
    · exact absurd (herr.symm.trans (h.accepted hresolved f hf)) (by simp)
    · exact hrejected

theorem ok_start : (start : AgentTask β ρ ε).Ok := by
  refine ⟨?_, ?_⟩
  · rintro ⟨f, hf, -⟩
    exact absurd hf List.not_mem_nil
  · intro _ f hf
    exact absurd hf List.not_mem_nil

variable {s : AgentTask β ρ ε}

/-- What the task does while it has not resolved. -/
theorem Ok.of_not_resolved {s' : AgentTask β ρ ε} (h : s.Failed → s.pendingError ≠ none)
    (hforwards : s'.Failed → s.Failed) (hpending : s'.pendingError = s.pendingError)
    (hphase : ¬ s'.Resolved) : s'.Ok :=
  ⟨fun hfailed => hpending ▸ h (hforwards hfailed), fun hresolved => absurd hresolved hphase⟩

theorem captureErr_ne_none (h : s.Failed → s.pendingError ≠ none) (err : Option ε) :
    (s.captureErr err).Failed → (s.captureErr err).pendingError ≠ none := by
  intro hfailed
  have hne := h hfailed
  unfold captureErr
  cases hp : s.pendingError with
  | none => exact absurd hp hne
  | some e => simp

/-- Where nothing is pending, whatever has settled was accepted. -/
theorem accepted_of_settled (h : s.Failed → s.pendingError ≠ none)
    (hpending : s.pendingError = none) (hsettled : ∀ f ∈ s.forwards, f.settlement ≠ none) :
    ∀ f ∈ s.forwards, f.settlement = some .accepted := by
  intro f hf
  cases hsettlement : f.settlement with
  | none => exact absurd hsettlement (hsettled f hf)
  | some settlement =>
    cases settlement with
    | accepted => rfl
    | failed err => exact absurd hpending (h ⟨f, hf, err, hsettlement⟩)

theorem finish_ok (h : s.Failed → s.pendingError ≠ none)
    (hsettled : s.pendingError = none → ∀ f ∈ s.forwards, f.settlement ≠ none)
    (result : Option ρ) : (s.finish result).Ok := by
  unfold finish
  split
  · rename_i err hpending
    refine ⟨fun _ => Option.ne_none_iff_exists'.mpr ⟨err, hpending⟩, ?_⟩
    rintro ⟨result, hresolved⟩
    exact absurd hresolved (by simp)
  · rename_i hpending
    exact ⟨fun hfailed => absurd hpending (h hfailed),
      fun _ => accepted_of_settled h hpending (hsettled hpending)⟩

theorem afterHandler_ok (h : s.Failed → s.pendingError ≠ none) {opts : AgentTaskOptions}
    (hsettled : s.pendingError = none ∧ opts.clearAwareness = none →
      ∀ f ∈ s.forwards, f.settlement ≠ none)
    (result : Option ρ) (disconnect : Message β) : (s.afterHandler opts result disconnect).Ok := by
  unfold afterHandler
  simp only
  split_ifs with hskip
  · rw [Bool.and_eq_true, Option.isNone_iff_eq_none, Option.isNone_iff_eq_none] at hskip
    exact finish_ok h (fun _ => hsettled hskip) result
  · refine .of_not_resolved h id rfl ?_
    rintro ⟨result, hresolved⟩
    exact absurd hresolved (by simp)
  · refine .of_not_resolved h id rfl ?_
    rintro ⟨result, hresolved⟩
    exact absurd hresolved (by simp)

theorem failed_forward {message : Option (Message β)} (h : (s.forward message).Failed) :
    s.Failed := by
  obtain ⟨f, hf, err, herr⟩ := h
  rcases List.mem_append.mp hf with hf | hf
  · exact ⟨f, hf, err, herr⟩
  · obtain ⟨m, -, rfl⟩ := List.mem_map.mp hf
    exact absurd herr (by simp)

theorem forward_ok {gcDoc : Option β} (hphase : s.phase = .handling gcDoc)
    (h : s.Failed → s.pendingError ≠ none) (message : Option (Message β)) :
    (s.forward message).Ok := by
  refine .of_not_resolved h failed_forward rfl ?_
  rintro ⟨result, hresolved⟩
  have : s.phase = .resolved result := hresolved
  exact absurd (hphase.symm.trans this) (by simp)

theorem onDoc_ok (h : s.Failed → s.pendingError ≠ none) (room : Room) (opts : AgentTaskOptions)
    (doctable : DocTable β) (seed : β) : (s.onDoc room opts doctable seed).Ok := by
  unfold onDoc
  split
  · refine .of_not_resolved h id rfl ?_
    rintro ⟨result, hresolved⟩
    exact absurd hresolved (by simp)
  · have hphase : ({ s with phase := .handling doctable.gcDoc } : AgentTask β ρ ε).phase =
        .handling doctable.gcDoc := rfl
    exact forward_ok hphase h _

theorem cleared_ok (h : s.Failed → s.pendingError ≠ none) (result : Option ρ)
    {settlement : Settlement ε} (hsettled : settlement = .accepted ∧ s.pendingError = none →
      ∀ f ∈ s.forwards, f.settlement ≠ none) : (s.cleared result settlement).Ok := by
  cases settlement with
  | accepted => exact finish_ok h (fun hpending => hsettled ⟨rfl, hpending⟩) result
  | failed err =>
    refine finish_ok (captureErr_ne_none h _) (fun hpending => ?_) result
    unfold captureErr at hpending
    cases hp : s.pendingError <;> simp [hp] at hpending

/-- A forward that is accepted has not failed. -/
theorem failed_of_accepted {i : Nat} {f : Forward β ε} (h : (s.settle i f .accepted).Failed) :
    s.Failed := by
  obtain ⟨g, hg, err, herr⟩ := h
  rcases List.mem_or_eq_of_mem_set hg with hg | rfl
  · exact ⟨g, hg, err, herr⟩
  · exact absurd herr (by simp)

/-- Once the task has resolved nothing is left that could settle. -/
theorem settle_ok (h : s.Ok) {i : Nat} {message : Message β}
    (hforward : s.forwards[i]? = some ⟨message, none⟩) (settlement : Settlement ε) :
    (s.settle i ⟨message, none⟩ settlement).Ok := by
  have hphase : (s.settle i ⟨message, none⟩ settlement).phase = s.phase := by
    cases settlement <;> rfl
  refine ⟨fun hfailed => ?_, fun ⟨result, hresolved⟩ => ?_⟩
  · cases settlement with
    | accepted => exact h.pending (failed_of_accepted hfailed)
    | failed err =>
      unfold settle captureErr
      cases s.pendingError <;> simp
  · have haccepted := h.accepted ⟨result, hphase.symm.trans hresolved⟩ _
      (List.mem_of_getElem? hforward)
    exact absurd haccepted (by simp)

end AgentTask

section Runs

variable {Y : Yjs β} {byteLength : β → Nat} {room : Room} {opts : AgentTaskOptions}
  {s s' : AgentTask β ρ ε}

open AgentTask

/-- What an event does, and where the task stands before it. -/
inductive Executed (Y : Yjs β) (byteLength : β → Nat) (room : Room) (opts : AgentTaskOptions)
    (s : AgentTask β ρ ε) : AgentEvent β ρ ε → AgentTask β ρ ε → Prop
  | doc (doctable : DocTable β) (seed : β) (hphase : s.phase = .loading) :
      Executed Y byteLength room opts s (.doc doctable seed) (s.onDoc room opts doctable seed)
  | docFailed (err : AgentError ε) (hphase : s.phase = .loading) :
      Executed Y byteLength room opts s (.docFailed err) { s with phase := .rejected err }
  | update (now : Nat) (u : β) (gcDoc : Option β) (hphase : s.phase = .handling gcDoc) :
      Executed Y byteLength room opts s (.update now u)
        (s.forward (opts.onUpdate Y byteLength now u))
  | awareness (added updated removed : List Nat) (u : β) (gcDoc : Option β)
      (hphase : s.phase = .handling gcDoc) :
      Executed Y byteLength room opts s (.awareness added updated removed u)
        (s.forward (AgentTaskOptions.onAwareness added updated removed u))
  | returned (result : ρ) (disconnect : Message β) (gcDoc : Option β)
      (hphase : s.phase = .handling gcDoc) :
      Executed Y byteLength room opts s (.returned result disconnect)
        (s.afterHandler opts (some result) disconnect)
  | threw (err : Option ε) (disconnect : Message β) (gcDoc : Option β)
      (hphase : s.phase = .handling gcDoc) :
      Executed Y byteLength room opts s (.threw err disconnect)
        ((s.captureErr err).afterHandler opts none disconnect)
  | waited (disconnect : Message β) (result : Option ρ) (hphase : s.phase = .waiting result) :
      Executed Y byteLength room opts s (.waited disconnect)
        { s with phase := .clearing result disconnect }
  | cleared (settlement : Settlement ε) (result : Option ρ) (disconnect : Message β)
      (hphase : s.phase = .clearing result disconnect) :
      Executed Y byteLength room opts s (.cleared settlement) (s.cleared result settlement)
  | settled (i : Nat) (settlement : Settlement ε) (message : Message β)
      (hforward : s.forwards[i]? = some ⟨message, none⟩) :
      Executed Y byteLength room opts s (.settled i settlement)
        (s.settle i ⟨message, none⟩ settlement)

theorem executed_of_exec {e : AgentEvent β ρ ε}
    (hs : AgentEvent.exec Y byteLength room opts s e = some s') :
    Executed Y byteLength room opts s e s' := by
  cases e with
  | doc doctable seed =>
    simp only [AgentEvent.exec] at hs
    split at hs <;> cases hs
    exact .doc doctable seed ‹_›
  | docFailed err =>
    simp only [AgentEvent.exec] at hs
    split at hs <;> cases hs
    exact .docFailed err ‹_›
  | update now u =>
    simp only [AgentEvent.exec] at hs
    split at hs <;> cases hs
    exact .update now u _ ‹_›
  | awareness added updated removed u =>
    simp only [AgentEvent.exec] at hs
    split at hs <;> cases hs
    exact .awareness added updated removed u _ ‹_›
  | returned result disconnect =>
    simp only [AgentEvent.exec] at hs
    split at hs <;> cases hs
    exact .returned result disconnect _ ‹_›
  | threw err disconnect =>
    simp only [AgentEvent.exec] at hs
    split at hs <;> cases hs
    exact .threw err disconnect _ ‹_›
  | waited disconnect =>
    simp only [AgentEvent.exec] at hs
    split at hs <;> cases hs
    exact .waited disconnect _ ‹_›
  | cleared settlement =>
    simp only [AgentEvent.exec] at hs
    split at hs <;> cases hs
    exact .cleared settlement _ _ ‹_›
  | settled i settlement =>
    simp only [AgentEvent.exec] at hs
    split at hs <;> cases hs
    exact .settled i settlement _ ‹_›

/-- The step lemma. -/
theorem AgentTask.Ok.executed (h : s.Ok) {e : AgentEvent β ρ ε} (hawaited : Awaited opts e s)
    (hs : Executed Y byteLength room opts s e s') : s'.Ok := by
  cases hs with
  | doc doctable seed => exact onDoc_ok h.pending room opts doctable seed
  | docFailed err =>
    refine .of_not_resolved h.pending id rfl ?_
    rintro ⟨result, hresolved⟩
    exact absurd hresolved (by simp)
  | update now u gcDoc hphase => exact forward_ok hphase h.pending _
  | awareness added updated removed u gcDoc hphase => exact forward_ok hphase h.pending _
  | returned result disconnect => exact afterHandler_ok h.pending hawaited _ disconnect
  | threw err disconnect =>
    refine afterHandler_ok (captureErr_ne_none h.pending err) (fun ⟨hpending, hclear⟩ => ?_) _
      disconnect
    obtain ⟨hnone, herr⟩ := Option.or_eq_none_iff.mp hpending
    exact hawaited ⟨herr, hnone, hclear⟩
  | waited disconnect result =>
    refine .of_not_resolved h.pending id rfl ?_
    rintro ⟨result, hresolved⟩
    exact absurd hresolved (by simp)
  | cleared settlement result => exact cleared_ok h.pending result hawaited
  | settled i settlement message hforward => exact settle_ok h hforward settlement

/-- The run lemma. -/
theorem ok_of_reach (hs : AgentReach Y byteLength room opts (Awaited opts) s) : s.Ok := by
  induction hs with
  | refl => exact ok_start
  | tail _ hstep ih =>
    obtain ⟨e, hawaited, hexec⟩ := hstep
    exact ih.executed hawaited (executed_of_exec hexec)

/-- The task resolves with the last read of `pendingError`, if that is `null`. -/
theorem resolved_of_lastRead {e : AgentEvent β ρ ε} (he : LastRead opts s e)
    (hs : Executed Y byteLength room opts s e s') : s'.Resolved ∧ s'.forwards = s.forwards := by
  cases hs with
  | returned result disconnect =>
    obtain ⟨hpending, hclear⟩ := he
    refine ⟨⟨some result, ?_⟩, ?_⟩ <;> simp [afterHandler, finish, hpending, hclear]
  | threw err disconnect =>
    obtain ⟨rfl, hpending, hclear⟩ := he
    refine ⟨⟨none, ?_⟩, ?_⟩ <;> simp [afterHandler, finish, captureErr, hpending, hclear]
  | cleared settlement result =>
    obtain ⟨rfl, hpending⟩ := he
    refine ⟨⟨result, ?_⟩, ?_⟩ <;> simp [AgentTask.cleared, finish, hpending]
  | _ => exact he.elim

/-- What is unsettled when the task resolves has not been accepted. -/
theorem not_surfaced_of_not_awaited {e : AgentEvent β ρ ε} (h : ¬ Awaited opts e s)
    (hs : Executed Y byteLength room opts s e s') : ¬ s'.Surfaced := by
  simp only [Awaited, Classical.not_imp, not_forall, not_not] at h
  obtain ⟨he, f, hf, hunsettled⟩ := h
  obtain ⟨hresolved, hforwards⟩ := resolved_of_lastRead he hs
  intro hsurfaced
  have haccepted := hsurfaced.accepted hresolved f (hforwards ▸ hf)
  exact absurd (hunsettled.symm.trans haccepted) (by simp)

/-- What has been lost stays lost: only forwards that have not settled yet still do. -/
theorem lost_executed {e : AgentEvent β ρ ε} (hlost : s.Resolved ∧ s.Failed)
    (hs : Executed Y byteLength room opts s e s') : s'.Resolved ∧ s'.Failed := by
  obtain ⟨⟨result, hresolved⟩, f, hf, err, herr⟩ := hlost
  cases hs with
  | settled i settlement message hforward =>
    have hphase : (s.settle i ⟨message, none⟩ settlement).phase = s.phase := by
      cases settlement <;> rfl
    have hforwards : (s.settle i ⟨message, none⟩ settlement).forwards =
        s.forwards.set i ⟨message, some settlement⟩ := by
      cases settlement <;> rfl
    obtain ⟨j, hj⟩ := List.mem_iff_getElem?.mp hf
    have hij : i ≠ j := by
      rintro rfl
      obtain rfl := Option.some.inj (hforward.symm.trans hj)
      exact absurd herr (by simp)
    refine ⟨⟨result, hphase.trans hresolved⟩, f, ?_, err, herr⟩
    rw [hforwards]
    exact List.mem_iff_getElem?.mpr ⟨j, by rwa [List.getElem?_set_ne hij]⟩
  | doc doctable seed hphase => exact absurd (hphase.symm.trans hresolved) (by simp)
  | docFailed err hphase => exact absurd (hphase.symm.trans hresolved) (by simp)
  | update now u gcDoc hphase => exact absurd (hphase.symm.trans hresolved) (by simp)
  | awareness added updated removed u gcDoc hphase =>
    exact absurd (hphase.symm.trans hresolved) (by simp)
  | returned result disconnect gcDoc hphase => exact absurd (hphase.symm.trans hresolved) (by simp)
  | threw err disconnect gcDoc hphase => exact absurd (hphase.symm.trans hresolved) (by simp)
  | waited disconnect result hphase => exact absurd (hphase.symm.trans hresolved) (by simp)
  | cleared settlement result disconnect hphase =>
    exact absurd (hphase.symm.trans hresolved) (by simp)

/-- A forward that fails after the task has resolved. -/
theorem lost_of_not_timely {e : AgentEvent β ρ ε} (h : ¬ Timely e s)
    (hs : Executed Y byteLength room opts s e s') : s'.Resolved ∧ s'.Failed := by
  simp only [Timely, not_forall, not_not] at h
  obtain ⟨i, err, rfl, result, hresolved⟩ := h
  cases hs with
  | settled i _ message hforward =>
    have hi := (List.getElem?_eq_some_iff.mp hforward).1
    refine ⟨⟨result, hresolved⟩, ⟨message, some (.failed err)⟩, ?_, err, rfl⟩
    exact List.mem_iff_getElem?.mpr ⟨i, List.getElem?_set_self hi⟩

/-- **What is surfaced.** In every run in which nothing is unsettled at the last read of
`pendingError`, the task resolves only when every update it forwarded is accepted, and rejects if
one fails. A run in which something is unsettled there has resolved with an update that is not
accepted; if it fails later, this is surfaced in no state from then on. -/
theorem agent_forwards_surfaced (Y : Yjs β) (byteLength : β → Nat) (room : Room)
    (opts : AgentTaskOptions) :
    (∀ s : AgentTask β ρ ε, AgentReach Y byteLength room opts (Awaited opts) s → s.Surfaced) ∧
    (∀ s s' : AgentTask β ρ ε, AgentReach Y byteLength room opts (fun _ _ => True) s →
      AgentStep Y byteLength room opts (fun e s => ¬ Awaited opts e s) s s' → ¬ s'.Surfaced) ∧
    ∀ s s' s'' : AgentTask β ρ ε, AgentReach Y byteLength room opts (fun _ _ => True) s →
      AgentStep Y byteLength room opts (fun e s => ¬ Timely e s) s s' →
      Relation.ReflTransGen (AgentStep Y byteLength room opts fun _ _ => True) s' s'' →
        ¬ s''.Surfaced := by
  refine ⟨fun s hs => (ok_of_reach hs).surfaced, fun s s' _ hstep => ?_,
    fun s s' s'' _ hstep hrest => ?_⟩
  · obtain ⟨e, hunsettled, hexec⟩ := hstep
    exact not_surfaced_of_not_awaited hunsettled (executed_of_exec hexec)
  · obtain ⟨e, huntimely, hexec⟩ := hstep
    have hlost : s''.Resolved ∧ s''.Failed := by
      induction hrest with
      | refl => exact lost_of_not_timely huntimely (executed_of_exec hexec)
      | tail _ hstep ih =>
        obtain ⟨e, -, hexec⟩ := hstep
        exact lost_executed ih (executed_of_exec hexec)
    obtain ⟨hresolved, f, hf, err, herr⟩ := hlost
    intro hsurfaced
    exact absurd (herr.symm.trans (hsurfaced.accepted hresolved f hf)) (by simp)

end Runs

/-! ## A forward that is lost -/

open AgentTask

/-- An agent that leaves its awareness in place. -/
def keepAwareness : AgentTaskOptions := { clearAwareness := none, author := some "agent" }

/-- The table of a room without a document. -/
def noDocTable : DocTable RefPayload :=
  ⟨none, none, none, none, .zero, .zero, none, none, none, []⟩

/-- The states of its runs in a room without a document. -/
def KeepsAwareness
    (P : AgentEvent RefPayload Unit String → AgentTask RefPayload Unit String → Prop) :
    AgentTask RefPayload Unit String → Prop :=
  AgentReach yjsRef (fun _ => 10) Room.a keepAwareness P

/-- A handler that makes one change and returns when its forwards are accepted. -/
theorem agent_forwards_surfaced_of_accepted : ∃ s : AgentTask RefPayload Unit String,
    s.Resolved ∧ s.forwards.length = 2 ∧ ∀ f ∈ s.forwards, f.settlement = some .accepted := by
  have h₁ : KeepsAwareness (Awaited keepAwareness) _ :=
    .single ⟨.doc noDocTable (.doc []), False.elim, rfl⟩
  have h₂ : KeepsAwareness (Awaited keepAwareness) _ :=
    h₁.tail ⟨.update 5 (.doc [1]), False.elim, rfl⟩
  have h₃ : KeepsAwareness (Awaited keepAwareness) _ :=
    h₂.tail ⟨.settled 1 .accepted, False.elim, rfl⟩
  have h₄ : KeepsAwareness (Awaited keepAwareness) _ :=
    h₃.tail ⟨.settled 0 .accepted, False.elim, rfl⟩
  have h₅ : KeepsAwareness (Awaited keepAwareness) _ :=
    h₄.tail ⟨.returned () (.awareness (.doc [])), fun _ => by decide, rfl⟩
  have hsurfaced := (agent_forwards_surfaced yjsRef (fun _ => 10) Room.a keepAwareness).1 _ h₅
  exact ⟨_, ⟨some (), rfl⟩, rfl, hsurfaced.accepted ⟨some (), rfl⟩⟩

/-- **A forward that is lost.** The handler makes one change and returns. The task resolves, and
then the stream does not accept the change. -/
theorem forward_lost : ¬ ∀ (opts : AgentTaskOptions) (s : AgentTask RefPayload Unit String),
    AgentReach yjsRef (fun _ => 10) Room.a opts (fun _ _ => True) s → s.Surfaced := by
  intro h
  have h₁ : KeepsAwareness (fun _ _ => True) _ :=
    .single ⟨.doc noDocTable (.doc []), trivial, rfl⟩
  have h₂ : KeepsAwareness (fun _ _ => True) _ :=
    h₁.tail ⟨.update 5 (.doc [1]), trivial, rfl⟩
  have h₃ : KeepsAwareness (fun _ _ => True) _ :=
    h₂.tail ⟨.returned () (.awareness (.doc [])), trivial, rfl⟩
  have h₄ : KeepsAwareness (fun _ _ => True) _ :=
    h₃.tail ⟨.settled 1 (.failed "connection closed"), trivial, rfl⟩
  obtain ⟨err, hrejected⟩ := (h keepAwareness _ h₄).rejects
    ⟨_, List.mem_cons_of_mem _ (List.mem_singleton_self _), _, rfl⟩ (Or.inl ⟨some (), rfl⟩)
  have hresolved : AgentPhase.resolved (some ()) = AgentPhase.rejected err := hrejected
  exact absurd hresolved (by simp)

end YHub
