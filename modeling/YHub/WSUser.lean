import YHub.Delivery
import YHub.Site

/-!
# Connections and their registration (`server.js:190-319`, `server.js:401-495`, `stream.js:598-623`)

A `WSUser` is created by the upgrade handler. Its `open` handler reads the document, asks for a
state vector, re-checks the access if it has to, sends the initial sync, and subscribes. Between its
steps anything may happen: the client goes away (`onClose`), a message of it fails, a re-check that
the stream has asked for comes back. `close` ends the socket, which runs the close handler at once,
and `destroy` unsubscribes, once. A `send` whose message is dropped closes the connection, too.

Each step is a whole turn of the event loop, or a part of one. `departures` is what `destroy` has
announced.

* `no_dead_subscriber`: nobody who is destroyed is in `subs` or `subUpdates`, in every run in which
  no send of an initial sync closes the connection; and an initial sync registers somebody who is
  destroyed exactly if one of its sends does.
* `dead_subscriber`: the first message of an initial sync is dropped.
-/

namespace YHub

variable {β : Type}

/-! ## Users -/

/-- Where the `open` handler is; `lastClock` is that of the document it has read. -/
inductive OpenPhase where
  | upgraded
  | gettingDoc
  | computingStateVector (lastClock : Clock) (recheck : Bool)
  | rechecking (lastClock : Clock)
  | syncing (lastClock : Clock)
  | finished
  deriving DecidableEq, Repr

structure WSUser where
  room : Room
  hasWriteAccess : Bool
  authInfo : AuthInfo
  awarenessId : Option Nat
  awarenessLastClock : Nat
  isClosed : Bool
  isDestroyed : Bool
  lastReceivedClock : Clock
  /-- `ws` is set when the handler begins. -/
  opening : OpenPhase
  /-- The calls of `recheckAuth` that the stream has asked for and that are under way. -/
  rechecks : Nat
  deriving DecidableEq, Repr

/-- `new WSUser(yhub, null, room, …)`. -/
def WSUser.new (room : Room) (hasWriteAccess : Bool) (authInfo : AuthInfo) : WSUser :=
  ⟨room, hasWriteAccess, authInfo, none, 0, false, false, .zero, .upgraded, 0⟩

/-- What `destroy` announces; an id `0` is falsy. -/
def WSUser.departure (u : WSUser) : List (Room × Nat × Nat) :=
  match u.awarenessId with
  | none => []
  | some id => if id = 0 then [] else [(u.room, id, u.awarenessLastClock)]

/-- What becomes of `ws.send`: `dropped` is the result `2`; the close handler may run inside of it;
on a socket that is gone it throws. -/
inductive SendOutcome where
  | sent
  | dropped
  | closed
  | throws
  deriving DecidableEq, Repr

/-- What the initial sync looks at of `getDoc`'s result. -/
structure OpenedDoc where
  tombstone : Option Tombstone
  authChecks : List (Option (List AuthMatcher) × Bool)
  lastClock : Clock

/-- The connections, and the maps of the stream. -/
structure WSServer where
  users : Nat → Option WSUser
  subUpdates : SubMap
  subs : SubMap
  departures : List (Room × Nat × Nat)

namespace WSServer

def empty : WSServer := ⟨fun _ => none, .empty, .empty, []⟩

/-- Fields of a user are set. -/
def modify (S : WSServer) (k : Nat) (f : WSUser → WSUser) : WSServer :=
  { S with users := Function.update S.users k ((S.users k).map f) }

def destroy (S : WSServer) (k : Nat) : WSServer :=
  match S.users k with
  | none => S
  | some u =>
    if u.isDestroyed then S
    else
      { users := Function.update S.users k (some { u with isDestroyed := true })
        subUpdates := S.subUpdates.unsubscribe u.room k
        subs := S.subs.unsubscribe u.room k
        departures := S.departures ++ u.departure }

/-- The close handler. -/
def onClose (S : WSServer) (k : Nat) : WSServer :=
  (S.modify k fun u => { u with isClosed := true }).destroy k

/-- `close`; `ws.end` runs the close handler. -/
def close (S : WSServer) (k : Nat) : WSServer :=
  match S.users k with
  | none => S
  | some u =>
    if u.isClosed then S.destroy k
    else if u.opening = .upgraded then (S.modify k fun u => { u with isClosed := true }).destroy k
    else ((S.onClose k).modify k fun u => { u with isClosed := true }).destroy k

def closeWithError (S : WSServer) (k : Nat) : WSServer := S.close k

def closeDocDeleted (S : WSServer) (k : Nat) : WSServer :=
  (S.modify k fun u => { u with awarenessId := none }).close k

/-- `sendData`, and whether it throws. -/
def sendData (S : WSServer) (k : Nat) (o : SendOutcome) : WSServer × Bool :=
  match S.users k with
  | none => (S, false)
  | some u =>
    if u.isClosed || u.opening = .upgraded then (S, false)
    else
      match o with
      | .sent => (S, false)
      | .dropped => (S.closeWithError k, false)
      | .closed => (S.onClose k, false)
      | .throws => (S, true)

/-- One `sendData` after the other. -/
def sendAll (k : Nat) : List SendOutcome → WSServer → WSServer × Bool
  | [], S => (S, false)
  | o :: os, S => if (S.sendData k o).2 then S.sendData k o else sendAll k os (S.sendData k o).1

/-- `user.lastReceivedClock = lastClock`, and `subscribe`. -/
def subscribe (S : WSServer) (k : Nat) (lastClock : Clock) : WSServer :=
  match S.users k with
  | none => S
  | some u =>
    { S with
      users := Function.update S.users k (some { u with lastReceivedClock := lastClock })
      subUpdates := S.subUpdates.subscribe u.room k lastClock }

/-- The end of the `open` handler. -/
def initialSync (S : WSServer) (k : Nat) (lastClock : Clock) (outcomes : List SendOutcome) :
    WSServer :=
  match S.users k with
  | none => S
  | some u =>
    if u.isClosed then S
    else if (sendAll k outcomes S).2 then (sendAll k outcomes S).1.closeWithError k
    else (sendAll k outcomes S).1.subscribe k lastClock

/-- `recheckAuth`, when the plugin has answered; `none` stands for an error. -/
def recheckAuth (S : WSServer) (k : Nat) (answer : Option (Option AccessType)) : WSServer :=
  match S.users k, answer with
  | none, _ => S
  | some _, none => S.close k
  | some u, some accessType =>
    if u.isDestroyed then S
    else if !hasReadAccess accessType || hasWriteAccess accessType != u.hasWriteAccess then
      S.close k
    else S

/-- What `onStreamMessage` does with one message. -/
def onMessage (S : WSServer) (k : Nat) (m : Message β) : WSServer :=
  match S.users k, m with
  | some _, .tombstone => S.closeDocDeleted k
  | some u, .authCheck users forceDisconnect =>
    if concerns users u.authInfo then
      if forceDisconnect then S.close k
      else S.modify k fun u => { u with rechecks := u.rechecks + 1 }
    else S
  | _, _ => S

/-- How many messages `onStreamMessage` sends. -/
def sends (ms : List (Message β)) : Nat :=
  (if ms.any Message.isUpdate then 1 else 0) +
    if ms.any (fun | .awareness _ => true | _ => false) then 1 else 0

/-- `onStreamMessage`, and what the loop does after it. -/
def receive (S : WSServer) (k : Nat) (ms : List (Message β)) (lastClock : Clock)
    (outcomes : List SendOutcome) : WSServer :=
  let S := ms.foldl (fun S m => S.onMessage k m) S
  let r := sendAll k (outcomes.take (sends ms)) S
  if r.2 then r.1.closeWithError k
  else r.1.modify k fun u => { u with lastReceivedClock := lastClock }

end WSServer

/-- Where the handler goes on when it has the document. -/
def OpenedDoc.next (d : OpenedDoc) (u : WSUser) : OpenPhase :=
  .computingStateVector d.lastClock (d.authChecks.any fun m => concerns m.1 u.authInfo)

/-- One step. `P` restricts the sends of an initial sync. -/
inductive WSStep (β : Type) (P : List SendOutcome → Prop) : WSServer → WSServer → Prop
  | upgrade (S : WSServer) (k : Nat) (room : Room) (hasWriteAccess : Bool) (authInfo : AuthInfo)
      (h : S.users k = none) :
      WSStep β P S { S with
        users := Function.update S.users k (some (.new room hasWriteAccess authInfo)) }
  | opened (S : WSServer) (k : Nat) (u : WSUser) (h : S.users k = some u)
      (hu : u.opening = .upgraded) :
      WSStep β P S (S.modify k fun u => { u with opening := .gettingDoc })
  | docDeleted (S : WSServer) (k : Nat) (u : WSUser) (d : OpenedDoc) (h : S.users k = some u)
      (hu : u.opening = .gettingDoc) (hd : d.tombstone ≠ none) :
      WSStep β P S
        ((S.modify k fun u => { u with opening := .finished }).closeDocDeleted k)
  | docRead (S : WSServer) (k : Nat) (u : WSUser) (d : OpenedDoc) (h : S.users k = some u)
      (hu : u.opening = .gettingDoc) (hd : d.tombstone = none) :
      WSStep β P S (S.modify k fun u => { u with opening := d.next u })
  | stateVector (S : WSServer) (k : Nat) (u : WSUser) (lastClock : Clock) (recheck : Bool)
      (h : S.users k = some u) (hu : u.opening = .computingStateVector lastClock recheck) :
      WSStep β P S (S.modify k fun u =>
        { u with opening := if recheck then .rechecking lastClock else .syncing lastClock })
  | rechecked (S : WSServer) (k : Nat) (u : WSUser) (lastClock : Clock)
      (answer : Option (Option AccessType)) (h : S.users k = some u)
      (hu : u.opening = .rechecking lastClock) :
      WSStep β P S
        ((S.modify k fun u => { u with opening := .syncing lastClock }).recheckAuth k answer)
  | openFails (S : WSServer) (k : Nat) (u : WSUser) (h : S.users k = some u)
      (hu : u.opening ≠ .upgraded ∧ u.opening ≠ .finished) :
      WSStep β P S ((S.modify k fun u => { u with opening := .finished }).closeWithError k)
  | initialSync (S : WSServer) (k : Nat) (u : WSUser) (lastClock : Clock)
      (outcomes : List SendOutcome) (h : S.users k = some u) (hu : u.opening = .syncing lastClock)
      (hP : P outcomes) :
      WSStep β P S ((S.initialSync k lastClock outcomes).modify k fun u =>
        { u with opening := .finished })
  | onClose (S : WSServer) (k : Nat) (u : WSUser) (h : S.users k = some u)
      (hu : u.opening ≠ .upgraded) : WSStep β P S (S.onClose k)
  | awareness (S : WSServer) (k : Nat) (u : WSUser) (awId clock : Nat) (h : S.users k = some u)
      (hu : u.opening ≠ .upgraded) (hw : u.hasWriteAccess = true)
      (hid : u.awarenessId = none ∨ u.awarenessId = some awId) :
      WSStep β P S (S.modify k fun u =>
        { u with awarenessId := some awId, awarenessLastClock := clock })
  | messageFails (S : WSServer) (k : Nat) (u : WSUser) (h : S.users k = some u)
      (hu : u.opening ≠ .upgraded) : WSStep β P S (S.closeWithError k)
  | takeOver (S : WSServer) :
      WSStep β P S { S with subs := S.subs.takeOver S.subUpdates, subUpdates := .empty }
  | received (S : WSServer) (ids : Room → Option StreamId) :
      WSStep β P S { S with subs := S.subs.received ids }
  | receive (S : WSServer) (k : Nat) (room : Room) (s : StreamSubs) (ms : List (Message β))
      (lastClock : Clock) (outcomes : List SendOutcome) (hs : S.subs room = some s)
      (hk : k ∈ s.subs) : WSStep β P S (S.receive k ms lastClock outcomes)
  | recheckAuth (S : WSServer) (k : Nat) (u : WSUser) (answer : Option (Option AccessType))
      (h : S.users k = some u) (hu : 0 < u.rechecks) :
      WSStep β P S
        ((S.modify k fun u => { u with rechecks := u.rechecks - 1 }).recheckAuth k answer)

/-- The states of the runs from a server without connections. -/
def WSReach (β : Type) (P : List SendOutcome → Prop) : WSServer → Prop :=
  Relation.ReflTransGen (WSStep β P) WSServer.empty

/-- A send closes the connection. -/
def closes : List SendOutcome → Bool
  | [] => false
  | .sent :: os => closes os
  | .throws :: _ => false
  | .dropped :: _ => true
  | .closed :: _ => true

/-- `room` has an entry that contains `k`. -/
def SubMap.Has (m : SubMap) (room : Room) (k : Nat) : Prop := ∃ s, m room = some s ∧ k ∈ s.subs

/-- Nobody who is destroyed is registered. -/
def WSServer.NoDead (S : WSServer) : Prop :=
  ∀ room k, S.subs.Has room k ∨ S.subUpdates.Has room k →
    ∃ u, S.users k = some u ∧ u.isDestroyed = false

/-! ## The maps -/

namespace SubMap

variable {m u : SubMap} {room room' : Room} {j k : Nat}

@[simp] theorem not_has_empty : ¬ SubMap.empty.Has room k := by
  rintro ⟨s, h, -⟩
  exact absurd h (by simp [SubMap.empty])

theorem has_subscribe {c : Clock} :
    (m.subscribe room k c).Has room' j ↔ m.Has room' j ∨ room' = room ∧ j = k := by
  unfold Has subscribe
  by_cases hr : room' = room
  · subst hr
    cases hm : m room' with
    | none => simp
    | some s =>
      simp only [Function.update_self, Option.getD_some, Option.some.injEq, exists_eq_left',
        Finset.mem_insert, true_and]
      exact or_comm
  · simp [hr]

theorem has_of_unsubscribe (h : (m.unsubscribe room k).Has room' j) :
    m.Has room' j ∧ (room' = room → j ≠ k) := by
  obtain ⟨t, ht, hj⟩ := h
  obtain ⟨s, hs, -, hsub, hk⟩ := of_unsubscribe ht
  refine ⟨⟨s, hs, hsub hj⟩, ?_⟩
  rintro hr rfl
  exact hk hr hj

theorem has_takeOver : (m.takeOver u).Has room k ↔ m.Has room k ∨ u.Has room k := by
  unfold Has takeOver
  cases hu : u room with
  | none => simp
  | some t =>
    cases hm : m room with
    | none => simp
    | some s => simp

theorem has_received {ids : Room → Option StreamId} :
    (m.received ids).Has room k ↔ m.Has room k := by
  constructor
  · rintro ⟨t, ht, hk⟩
    obtain ⟨s, hs, hsubs, -⟩ := of_received ht
    exact ⟨s, hs, hsubs ▸ hk⟩
  · rintro ⟨s, hs, hk⟩
    exact mem_received hs hk

end SubMap

/-! ## The invariant -/

/-- Whoever is registered is a user of the room who is not destroyed, and who is destroyed is
closed. -/
structure WSServer.Ok (S : WSServer) : Prop where
  registered : ∀ room k, S.subs.Has room k ∨ S.subUpdates.Has room k →
    ∃ u, S.users k = some u ∧ u.room = room ∧ u.isDestroyed = false
  closed : ∀ k u, S.users k = some u → u.isDestroyed = true → u.isClosed = true

namespace WSServer

variable {S : WSServer} {k : Nat} {u : WSUser} {f : WSUser → WSUser}

theorem Ok.noDead (hS : S.Ok) : S.NoDead := by
  intro room k h
  obtain ⟨u, hu, -, hd⟩ := hS.registered room k h
  exact ⟨u, hu, hd⟩

theorem empty_ok : empty.Ok where
  registered room k h := by simp [empty] at h
  closed k u hu := by simp [empty] at hu

/-! ### Fields of a user -/

theorem modify_self (hu : S.users k = some u) : (S.modify k f).users k = some (f u) := by
  simp [modify, hu]

theorem of_modify_self (h : (S.modify k f).users k = some u) :
    ∃ v, S.users k = some v ∧ u = f v := by
  simp only [modify, Function.update_self, Option.map_eq_some_iff] at h
  obtain ⟨v, hv, rfl⟩ := h
  exact ⟨v, hv, rfl⟩

/-- Any field may be set but `room` and `isDestroyed`, and `isClosed` only to `true`. -/
theorem Ok.modify (hS : S.Ok) (hroom : ∀ u, (f u).room = u.room)
    (hdestroyed : ∀ u, (f u).isDestroyed = u.isDestroyed)
    (hclosed : ∀ u, u.isClosed = true → (f u).isClosed = true) : (S.modify k f).Ok where
  registered room j h := by
    obtain ⟨u, hu, hr, hd⟩ := hS.registered room j h
    by_cases hj : j = k
    · subst hj
      exact ⟨f u, modify_self hu, (hroom u).trans hr, (hdestroyed u).trans hd⟩
    · exact ⟨u, by simp [WSServer.modify, hj, hu], hr, hd⟩
  closed j u hu hd := by
    by_cases hj : j = k
    · subst hj
      obtain ⟨v, hv, rfl⟩ := of_modify_self hu
      exact hclosed v (hS.closed j v hv ((hdestroyed v).symm.trans hd))
    · exact hS.closed j u (by simpa [WSServer.modify, hj] using hu) hd

theorem noDead_of_modify (hdestroyed : ∀ u, (f u).isDestroyed = u.isDestroyed)
    (h : (S.modify k f).NoDead) : S.NoDead := by
  intro room j hj
  obtain ⟨u, hu, hd⟩ := h room j hj
  by_cases hjk : j = k
  · subst hjk
    obtain ⟨v, hv, rfl⟩ := of_modify_self hu
    exact ⟨v, hv, (hdestroyed v).symm.trans hd⟩
  · exact ⟨u, by simpa [WSServer.modify, hjk] using hu, hd⟩

/-- Fields that say nothing of closing may be set. -/
theorem Ok.set (hS : S.Ok) (h : ∀ u, (f u).room = u.room ∧ (f u).isDestroyed = u.isDestroyed ∧
    (f u).isClosed = u.isClosed) : (S.modify k f).Ok :=
  hS.modify (fun u => (h u).1) (fun u => (h u).2.1) fun u hu => (h u).2.2.trans hu

theorem Ok.setClosed (hS : S.Ok) : (S.modify k fun u => { u with isClosed := true }).Ok :=
  hS.modify (fun _ => rfl) (fun _ => rfl) fun _ _ => rfl

/-- One user is replaced or added, and nobody else is registered anew. -/
theorem Ok.update {S' : WSServer} {v : WSUser} (hS : S.Ok)
    (husers : S'.users = Function.update S.users k (some v))
    (hothers : ∀ room j, j ≠ k → S'.subs.Has room j ∨ S'.subUpdates.Has room j →
      S.subs.Has room j ∨ S.subUpdates.Has room j)
    (hself : ∀ room, S'.subs.Has room k ∨ S'.subUpdates.Has room k →
      v.room = room ∧ v.isDestroyed = false)
    (hclosed : v.isDestroyed = true → v.isClosed = true) : S'.Ok := by
  have hk : S'.users k = some v := by rw [husers, Function.update_self]
  have hne : ∀ j, j ≠ k → S'.users j = S.users j := fun j hj => by
    rw [husers, Function.update_of_ne hj]
  constructor
  · intro room j h
    by_cases hj : j = k
    · subst hj
      exact ⟨v, hk, hself room h⟩
    · rw [hne j hj]
      exact hS.registered room j (hothers room j hj h)
  · intro j u hu hd
    by_cases hj : j = k
    · subst hj
      obtain rfl := Option.some.inj (hk.symm.trans hu)
      exact hclosed hd
    · exact hS.closed j u ((hne j hj).symm.trans hu) hd

/-! ### Closing -/

theorem destroy_of_none (h : S.users k = none) : S.destroy k = S := by
  simp only [destroy, h]

theorem destroy_of_isDestroyed (hu : S.users k = some u) (hd : u.isDestroyed = true) :
    S.destroy k = S := by
  simp only [destroy, hu, if_pos hd]

theorem destroy_of_alive (hu : S.users k = some u) (hd : u.isDestroyed = false) :
    S.destroy k =
      { users := Function.update S.users k (some { u with isDestroyed := true })
        subUpdates := S.subUpdates.unsubscribe u.room k
        subs := S.subs.unsubscribe u.room k
        departures := S.departures ++ u.departure } := by
  simp only [destroy, hu, hd, Bool.false_eq_true, if_false]

theorem destroy_self (hu : S.users k = some u) :
    ∃ u', (S.destroy k).users k = some u' ∧ u'.room = u.room ∧ u'.opening = u.opening ∧
      u'.isDestroyed = true ∧ u'.isClosed = u.isClosed := by
  cases hd : u.isDestroyed with
  | true =>
    rw [destroy_of_isDestroyed hu hd]
    exact ⟨u, hu, rfl, rfl, hd, rfl⟩
  | false =>
    rw [destroy_of_alive hu hd]
    exact ⟨{ u with isDestroyed := true }, by simp, rfl, rfl, rfl, rfl⟩

/-- Who is closed may be destroyed: he is unsubscribed. -/
theorem Ok.destroy (hS : S.Ok) (hk : ∀ u, S.users k = some u → u.isClosed = true) :
    (S.destroy k).Ok := by
  cases hu : S.users k with
  | none => exact (destroy_of_none hu).symm ▸ hS
  | some u =>
    cases hd : u.isDestroyed with
    | true => exact (destroy_of_isDestroyed hu hd).symm ▸ hS
    | false =>
      rw [destroy_of_alive hu hd]
      have hold : ∀ room j, (S.subs.unsubscribe u.room k).Has room j ∨
          (S.subUpdates.unsubscribe u.room k).Has room j →
          (S.subs.Has room j ∨ S.subUpdates.Has room j) ∧ (room = u.room → j ≠ k) :=
        fun room j h => h.elim (fun h => (SubMap.has_of_unsubscribe h).imp_left Or.inl)
          fun h => (SubMap.has_of_unsubscribe h).imp_left Or.inr
      refine hS.update rfl (fun room j _ h => (hold room j h).1) (fun room h => ?_)
        fun _ => hk u hu
      -- he was registered for his room only
      obtain ⟨h, hne⟩ := hold room k h
      obtain ⟨v, hv, hr, -⟩ := hS.registered room k h
      obtain rfl := Option.some.inj (hu.symm.trans hv)
      exact absurd rfl (hne hr.symm)

theorem Ok.onClose (hS : S.Ok) : (S.onClose k).Ok := by
  unfold WSServer.onClose
  refine Ok.destroy hS.setClosed fun u hu => ?_
  obtain ⟨v, -, rfl⟩ := of_modify_self hu
  rfl

theorem onClose_self (hu : S.users k = some u) :
    ∃ u', (S.onClose k).users k = some u' ∧ u'.room = u.room ∧ u'.opening = u.opening ∧
      u'.isDestroyed = true ∧ u'.isClosed = true :=
  destroy_self (modify_self hu)

theorem close_of_none (h : S.users k = none) : S.close k = S := by
  simp only [close, h]

theorem close_eq (hu : S.users k = some u) :
    S.close k =
      if u.isClosed then S.destroy k
      else if u.opening = .upgraded then S.onClose k
      else ((S.onClose k).modify k fun u => { u with isClosed := true }).destroy k := by
  simp only [close, hu, onClose]

theorem Ok.close (hS : S.Ok) : (S.close k).Ok := by
  cases hu : S.users k with
  | none => exact (close_of_none hu).symm ▸ hS
  | some u =>
    rw [close_eq hu]
    split_ifs with hc hup
    · refine hS.destroy fun v hv => ?_
      obtain rfl := Option.some.inj (hu.symm.trans hv)
      exact hc
    · exact hS.onClose
    · refine Ok.destroy hS.onClose.setClosed fun v hv => ?_
      obtain ⟨w, -, rfl⟩ := of_modify_self hv
      rfl

/-- Whoever is closed by the server is destroyed. -/
theorem close_self (hu : S.users k = some u) :
    ∃ u', (S.close k).users k = some u' ∧ u'.room = u.room ∧ u'.opening = u.opening ∧
      u'.isDestroyed = true ∧ u'.isClosed = true := by
  rw [close_eq hu]
  split_ifs with hc hup
  · obtain ⟨u', hu', hr, ho, hd, hc'⟩ := destroy_self hu
    exact ⟨u', hu', hr, ho, hd, hc'.trans hc⟩
  · exact onClose_self hu
  · obtain ⟨v, hv, hr, ho, -, -⟩ := onClose_self hu
    obtain ⟨w, hw, hwr, hwo, hwd, hwc⟩ :=
      destroy_self (modify_self (f := fun u => { u with isClosed := true }) hv)
    exact ⟨w, hw, hwr.trans hr, hwo.trans ho, hwd, hwc⟩

theorem Ok.closeWithError (hS : S.Ok) : (S.closeWithError k).Ok := hS.close

theorem Ok.closeDocDeleted (hS : S.Ok) : (S.closeDocDeleted k).Ok := by
  unfold WSServer.closeDocDeleted
  exact Ok.close (hS.set fun _ => ⟨rfl, rfl, rfl⟩)

/-! ### Sending -/

theorem sendData_of_none (h : S.users k = none) (o : SendOutcome) :
    S.sendData k o = (S, false) := by
  simp only [sendData, h]

theorem sendData_of_isClosed (hu : S.users k = some u) (hc : u.isClosed = true) (o : SendOutcome) :
    S.sendData k o = (S, false) := by
  simp only [sendData, hu, hc, Bool.true_or, if_true]

theorem sendData_of_upgraded (hu : S.users k = some u) (ho : u.opening = .upgraded)
    (o : SendOutcome) : S.sendData k o = (S, false) := by
  simp only [sendData, hu, ho, decide_true, Bool.or_true, if_true]

theorem sendData_of_open (hu : S.users k = some u) (hc : u.isClosed = false)
    (ho : u.opening ≠ .upgraded) (o : SendOutcome) :
    S.sendData k o =
      match o with
      | .sent => (S, false)
      | .dropped => (S.closeWithError k, false)
      | .closed => (S.onClose k, false)
      | .throws => (S, true) := by
  simp only [sendData, hu, hc, decide_eq_false ho, Bool.or_false, Bool.false_eq_true, if_false]

/-- What a send can do. -/
theorem sendData_cases (S : WSServer) (k : Nat) (o : SendOutcome) :
    (S.sendData k o).1 = S ∨ o = .dropped ∧ S.sendData k o = (S.closeWithError k, false) ∨
      o = .closed ∧ S.sendData k o = (S.onClose k, false) := by
  cases hu : S.users k with
  | none => exact Or.inl (by rw [sendData_of_none hu])
  | some u =>
    cases hc : u.isClosed with
    | true => exact Or.inl (by rw [sendData_of_isClosed hu hc])
    | false =>
      by_cases ho : u.opening = .upgraded
      · exact Or.inl (by rw [sendData_of_upgraded hu ho])
      · rw [sendData_of_open hu hc ho]
        cases o with
        | sent => exact Or.inl rfl
        | dropped => exact Or.inr (Or.inl ⟨rfl, rfl⟩)
        | closed => exact Or.inr (Or.inr ⟨rfl, rfl⟩)
        | throws => exact Or.inl rfl

theorem Ok.sendData (hS : S.Ok) (o : SendOutcome) : (S.sendData k o).1.Ok := by
  rcases sendData_cases S k o with h | ⟨-, h⟩ | ⟨-, h⟩
  · exact h.symm ▸ hS
  · rw [h]
    exact hS.closeWithError
  · rw [h]
    exact hS.onClose

theorem Ok.sendAll (os : List SendOutcome) (hS : S.Ok) : (sendAll k os S).1.Ok := by
  induction os generalizing S with
  | nil => exact hS
  | cons o os ih =>
    unfold WSServer.sendAll
    split_ifs
    · exact hS.sendData o
    · exact ih (hS.sendData o)

/-- Nothing is sent to somebody who is closed. -/
theorem sendAll_of_isClosed (hu : S.users k = some u) (hc : u.isClosed = true)
    (os : List SendOutcome) : sendAll k os S = (S, false) := by
  induction os with
  | nil => rfl
  | cons o os ih =>
    rw [sendAll, sendData_of_isClosed hu hc]
    exact ih

section Open

variable {os : List SendOutcome} (hu : S.users k = some u) (hc : u.isClosed = false)
  (ho : u.opening ≠ .upgraded)
include hu hc ho

/-- Sends that do not close the connection leave everything. -/
theorem sendAll_of_not_closes (h : closes os = false) : (sendAll k os S).1 = S := by
  induction os with
  | nil => rfl
  | cons o os ih =>
    rw [sendAll, sendData_of_open hu hc ho]
    cases o with
    | sent => exact ih h
    | dropped => exact absurd h (by simp [closes])
    | closed => exact absurd h (by simp [closes])
    | throws => rfl

/-- Sends that close the connection do not throw, and the user is destroyed. -/
theorem sendAll_of_closes (h : closes os = true) :
    (sendAll k os S).2 = false ∧
      ∃ u', (sendAll k os S).1.users k = some u' ∧ u'.isDestroyed = true := by
  induction os with
  | nil => exact absurd h (by simp [closes])
  | cons o os ih =>
    rw [sendAll, sendData_of_open hu hc ho]
    cases o with
    | sent => exact ih h
    | dropped =>
      obtain ⟨u', hu', -, -, hd, hc'⟩ := close_self hu
      have hrest := sendAll_of_isClosed (S := S.closeWithError k) hu' hc' os
      simp only [Bool.false_eq_true, if_false, hrest, true_and]
      exact ⟨u', hu', hd⟩
    | closed =>
      obtain ⟨u', hu', -, -, hd, hc'⟩ := onClose_self hu
      have hrest := sendAll_of_isClosed hu' hc' os
      simp only [Bool.false_eq_true, if_false, hrest, true_and]
      exact ⟨u', hu', hd⟩
    | throws => exact absurd h (by simp [closes])

end Open

/-! ### Subscribing -/

theorem subscribe_eq (hu : S.users k = some u) (c : Clock) :
    S.subscribe k c =
      { S with
        users := Function.update S.users k (some { u with lastReceivedClock := c })
        subUpdates := S.subUpdates.subscribe u.room k c } := by
  simp only [subscribe, hu]

/-- Whoever is not destroyed may subscribe. -/
theorem Ok.subscribe (hS : S.Ok) (hu : S.users k = some u) (hd : u.isDestroyed = false)
    (c : Clock) : (S.subscribe k c).Ok := by
  rw [subscribe_eq hu]
  refine hS.update rfl (fun room j hj h => ?_) (fun room h => ⟨?_, hd⟩) (hS.closed k u hu)
  · exact h.imp_right fun h => (SubMap.has_subscribe.mp h).resolve_right fun e => hj e.2
  · have hroom : (S.subs.Has room k ∨ S.subUpdates.Has room k) ∨ room = u.room := by
      rcases h with h | h
      · exact Or.inl (Or.inl h)
      · exact (SubMap.has_subscribe.mp h).imp Or.inr And.left
    rcases hroom with h | h
    · obtain ⟨v, hv, hr, -⟩ := hS.registered room k h
      obtain rfl := Option.some.inj (hu.symm.trans hv)
      exact hr
    · exact h.symm

/-- Somebody destroyed subscribes all the same. -/
theorem not_noDead_subscribe (hu : S.users k = some u) (hd : u.isDestroyed = true) (c : Clock) :
    ¬ (S.subscribe k c).NoDead := by
  intro h
  rw [subscribe_eq hu] at h
  obtain ⟨v, hv, hvd⟩ := h u.room k (Or.inr (SubMap.has_subscribe.mpr (Or.inr ⟨rfl, rfl⟩)))
  obtain rfl : { u with lastReceivedClock := c } = v := by simpa using hv
  exact absurd hvd (by simp [hd])

/-! ### The end of the `open` handler -/

theorem initialSync_eq (hu : S.users k = some u) (hc : u.isClosed = false) (c : Clock)
    (os : List SendOutcome) :
    S.initialSync k c os =
      if (sendAll k os S).2 then (sendAll k os S).1.closeWithError k
      else (sendAll k os S).1.subscribe k c := by
  simp only [initialSync, hu, hc, Bool.false_eq_true, if_false]

theorem initialSync_of_isClosed (hu : S.users k = some u) (hc : u.isClosed = true) (c : Clock)
    (os : List SendOutcome) : S.initialSync k c os = S := by
  simp only [initialSync, hu, hc, if_true]

theorem Ok.initialSync (hS : S.Ok) (hu : S.users k = some u) (ho : u.opening ≠ .upgraded)
    (c : Clock) {os : List SendOutcome} (hos : closes os = false) :
    (S.initialSync k c os).Ok := by
  cases hc : u.isClosed with
  | true => exact (initialSync_of_isClosed hu hc c os).symm ▸ hS
  | false =>
    rw [initialSync_eq hu hc, sendAll_of_not_closes hu hc ho hos]
    split_ifs
    · exact hS.closeWithError
    · refine hS.subscribe hu ?_ c
      -- whoever is destroyed is closed
      cases hd : u.isDestroyed with
      | false => rfl
      | true => exact absurd (hS.closed k u hu hd) (by simp [hc])

/-- When a send closes the connection, the handler goes on and subscribes. -/
theorem not_noDead_initialSync (hu : S.users k = some u) (hc : u.isClosed = false)
    (ho : u.opening ≠ .upgraded) (c : Clock) {os : List SendOutcome} (hos : closes os = true) :
    ¬ (S.initialSync k c os).NoDead := by
  obtain ⟨hthrows, u', hu', hd⟩ := sendAll_of_closes hu hc ho hos
  rw [initialSync_eq hu hc, hthrows]
  exact not_noDead_subscribe hu' hd c

/-- **An initial sync registers somebody who is destroyed** exactly if one of its sends closes the
connection. -/
theorem Ok.noDead_initialSync_iff (hS : S.Ok) (hu : S.users k = some u) (hc : u.isClosed = false)
    (ho : u.opening ≠ .upgraded) (c : Clock) (os : List SendOutcome) :
    (S.initialSync k c os).NoDead ↔ closes os = false := by
  constructor
  · intro h
    by_contra hos
    exact not_noDead_initialSync hu hc ho c (Bool.of_not_eq_false hos) h
  · intro hos
    exact (hS.initialSync hu ho c hos).noDead

/-! ### Messages and re-checks -/

theorem Ok.recheckAuth (hS : S.Ok) (answer : Option (Option AccessType)) :
    (S.recheckAuth k answer).Ok := by
  unfold WSServer.recheckAuth
  split
  · exact hS
  · exact hS.close
  · split_ifs
    · exact hS
    · exact hS.close
    · exact hS

theorem Ok.onMessage (hS : S.Ok) (m : Message β) : (S.onMessage k m).Ok := by
  unfold WSServer.onMessage
  split
  · exact hS.closeDocDeleted
  · split_ifs
    · exact hS.close
    · exact hS.set fun _ => ⟨rfl, rfl, rfl⟩
    · exact hS
  · exact hS

theorem Ok.receive (hS : S.Ok) (ms : List (Message β)) (c : Clock) (os : List SendOutcome) :
    (S.receive k ms c os).Ok := by
  have hmessages : (ms.foldl (fun S m => S.onMessage k m) S).Ok := by
    induction ms generalizing S with
    | nil => exact hS
    | cons m ms ih => exact ih (hS.onMessage m)
  unfold WSServer.receive
  simp only
  split_ifs
  · exact (hmessages.sendAll _).closeWithError
  · exact (hmessages.sendAll _).set fun _ => ⟨rfl, rfl, rfl⟩

end WSServer

/-! ## Runs -/

/-- A new connection. -/
theorem WSServer.Ok.upgrade {S : WSServer} {k : Nat} (hS : S.Ok) (h : S.users k = none)
    (room : Room) (hasWriteAccess : Bool) (authInfo : AuthInfo) :
    WSServer.Ok { S with
      users := Function.update S.users k (some (.new room hasWriteAccess authInfo)) } := by
  refine hS.update rfl (fun _ _ _ hj => hj) (fun room' hk => ?_) fun hd => absurd hd ?_
  · obtain ⟨u, hu, -, -⟩ := hS.registered room' k hk
    exact absurd (h.symm.trans hu) (by simp)
  · simp [WSUser.new]

/-- **One step** keeps the invariant. -/
theorem WSStep.ok {P : List SendOutcome → Prop} (hP : ∀ os, P os → closes os = false)
    {S S' : WSServer} (h : WSStep β P S S') (hS : S.Ok) : S'.Ok := by
  -- a step sets fields of a user, and then it runs one of the functions above
  cases h with
  | upgrade k room hasWriteAccess authInfo h => exact hS.upgrade h _ _ _
  | opened k u h hu => exact hS.set fun _ => ⟨rfl, rfl, rfl⟩
  | docDeleted k u d h hu hd =>
    exact WSServer.Ok.closeDocDeleted (hS.set fun _ => ⟨rfl, rfl, rfl⟩)
  | docRead k u d h hu hd => exact hS.set fun _ => ⟨rfl, rfl, rfl⟩
  | stateVector k u lastClock recheck h hu =>
    exact hS.set fun _ => ⟨rfl, rfl, rfl⟩
  | rechecked k u lastClock answer h hu =>
    refine WSServer.Ok.recheckAuth ?_ answer
    exact hS.set fun _ => ⟨rfl, rfl, rfl⟩
  | openFails k u h hu =>
    exact WSServer.Ok.closeWithError (hS.set fun _ => ⟨rfl, rfl, rfl⟩)
  | initialSync k u lastClock outcomes h hu hP' =>
    have hup : u.opening ≠ .upgraded := by simp [hu]
    exact (hS.initialSync h hup lastClock (hP outcomes hP')).set fun _ => ⟨rfl, rfl, rfl⟩
  | onClose k u h hu => exact hS.onClose
  | awareness k u awId clock h hu hw hid =>
    exact hS.set fun _ => ⟨rfl, rfl, rfl⟩
  | messageFails k u h hu => exact hS.closeWithError
  | takeOver =>
    refine ⟨fun room k h => hS.registered room k ?_, hS.closed⟩
    exact SubMap.has_takeOver.mp (h.resolve_right SubMap.not_has_empty)
  | received ids =>
    refine ⟨fun room k h => hS.registered room k ?_, hS.closed⟩
    exact h.imp_left SubMap.has_received.mp
  | receive k room s ms lastClock outcomes hs hk => exact hS.receive ms lastClock outcomes
  | recheckAuth k u answer h hu =>
    refine WSServer.Ok.recheckAuth ?_ answer
    exact hS.set fun _ => ⟨rfl, rfl, rfl⟩

/-- **Every run** keeps the invariant. -/
theorem WSReach.ok {P : List SendOutcome → Prop} (hP : ∀ os, P os → closes os = false)
    {S : WSServer} (hS : WSReach β P S) : S.Ok := by
  induction hS with
  | refl => exact WSServer.empty_ok
  | tail _ hstep ih => exact hstep.ok hP ih

/-- **No dead subscriber.** Nobody who is destroyed is registered, in every run in which no send of
an initial sync closes the connection; and in a state of such a run, the initial sync of somebody
who is not closed keeps it so exactly if none of its sends does. -/
theorem no_dead_subscriber {S : WSServer} (hS : WSReach β (fun os => closes os = false) S) :
    S.NoDead ∧
      ∀ k u c outcomes, S.users k = some u → u.opening = .syncing c → u.isClosed = false →
        ((S.initialSync k c outcomes).NoDead ↔ closes outcomes = false) := by
  have hok : S.Ok := hS.ok fun _ h => h
  refine ⟨hok.noDead, fun k u c outcomes hu ho hc => ?_⟩
  exact hok.noDead_initialSync_iff hu hc (by simp [ho]) c outcomes

/-! ## A dead subscriber -/

/-- Somebody connects, and his handler gets as far as the initial sync. -/
theorem exists_syncing (β : Type) (P : List SendOutcome → Prop) :
    ∃ S u, WSReach β P S ∧ S.users 0 = some u ∧ u.opening = .syncing .zero ∧
      u.isClosed = false := by
  let u : WSUser := .new .a true ⟨"user", []⟩
  let S : WSServer := { WSServer.empty with users := Function.update (fun _ => none) 0 (some u) }
  have hu : S.users 0 = some u := by simp [S]
  have hS : WSReach β P S := .single (.upgrade _ 0 _ _ _ rfl)
  have hu₁ := WSServer.modify_self (f := fun u => { u with opening := .gettingDoc }) hu
  have hS₁ := hS.tail (.opened S 0 u hu rfl)
  let d : OpenedDoc := ⟨none, [], .zero⟩
  have hu₂ := WSServer.modify_self (f := fun u => { u with opening := d.next u }) hu₁
  have hS₂ := hS₁.tail (.docRead _ 0 _ d hu₁ rfl rfl)
  have hS₃ := hS₂.tail (.stateVector _ 0 _ .zero false hu₂ rfl)
  exact ⟨_, _, hS₃, WSServer.modify_self hu₂, rfl, rfl⟩

theorem no_dead_subscriber_of_syncing :
    ∃ S : WSServer, (S.users 0).isSome = true ∧ S.NoDead ∧
      ((S.initialSync 0 .zero [.sent, .sent]).NoDead ↔ closes [.sent, .sent] = false) := by
  obtain ⟨S, u, hS, hu, ho, hc⟩ := exists_syncing Unit fun os => closes os = false
  obtain ⟨hdead, hsync⟩ := no_dead_subscriber hS
  exact ⟨S, by simp [hu], hdead, hsync 0 u .zero _ hu ho hc⟩

/-- **A subscriber who is destroyed.** The first message of his initial sync is dropped, and that
closes the connection. -/
theorem dead_subscriber : ¬ ∀ S, WSReach Unit (fun _ => True) S → S.NoDead := by
  intro h
  obtain ⟨S, u, hS, hu, ho, hc⟩ := exists_syncing Unit fun _ => True
  have hsync := hS.tail (.initialSync S 0 u .zero [.dropped] hu ho trivial)
  have hdead : (S.initialSync 0 .zero [.dropped]).NoDead := by
    refine WSServer.noDead_of_modify ?_ (h _ hsync)
    exact fun _ => rfl
  exact WSServer.not_noDead_initialSync hu hc (by simp [ho]) .zero rfl hdead

end YHub
