import YHub.Invariant
import YHub.RunTask

/-!
# Deletions, restorations and connections (`index.js:44-52`, `377-454`, `server.js:187-441`)

Everything that works on one room, as processes over a `Site`: the hub, and what the auth plugin
answers. Each takes one step for every statement or command that touches shared state, and may stop
between any two of them.

* `deleteDoc` (`DeletionStep`) commits the tombstone, then adds `ydoc:tombstone:v1` to the stream,
  which it clears before if the deletion is hard, and drops the cached responses meanwhile. If the
  tombstone is hard it goes on to purge the room: the rows are listed and deleted, the quarantine
  streams are deleted, the time is read, in any order, and then the tombstone is stamped.
* `restoreDoc` (`RestoreStep`) reads the tombstone and, unless it is hard or purged, drops it.
* `unsafePersistDoc` (`PersistCallStep`) stores a row.
* A websocket connection (`ConnStep`) is let in by the upgrade handler. Its `open` handler reads the
  document, re-checks the access if the stream holds a matching `auth:check:v1`, and subscribes.
  From then on it receives batches of the stream.
* A run of `_runTask` is a `WorkerStep` (`System.lean`).

`restored` is history: how often a tombstone was dropped.
-/

namespace YHub

variable {β : Type}

/-! ## Access -/

/-- `AccessType`, where it is not `null`. -/
inductive AccessType where
  | r
  | rw
  deriving DecidableEq, Repr

def hasReadAccess (accessType : Option AccessType) : Bool := accessType.isSome

def hasWriteAccess (accessType : Option AccessType) : Bool := accessType == some .rw

/-- The `authInfo` of a connection: its userid, and its properties as serialized values. -/
structure AuthInfo where
  userid : String
  props : List (String × String)
  deriving DecidableEq, Repr

def matchesAuthInfo (matcher : AuthMatcher) (authInfo : AuthInfo) : Bool :=
  match matcher with
  | .userid userid => authInfo.userid == userid
  | .props props => props.all fun p => authInfo.props.lookup p.1 == some p.2

/-- `m.users == null || m.users.some(u => matchesAuthInfo(u, authInfo))`. -/
def concerns (users : Option (List AuthMatcher)) (authInfo : AuthInfo) : Bool :=
  match users with
  | none => true
  | some us => us.any (matchesAuthInfo · authInfo)

/-- What the processes of a room share. -/
structure Site (β : Type) where
  hub : Hub β
  /-- What `auth.getAccessType` answers. -/
  access : AuthInfo → Option AccessType
  restored : Nat

/-! ## Tombstones -/

/-- The statement of `storeTombstone`: a repeated deletion keeps everything but `hard`. -/
def storeTombstone (room : Room) (deletedAt : Nat) (hard : Bool) (by_ : Option String)
    (old : Option Tombstone) : Tombstone :=
  match old with
  | none => ⟨room, deletedAt, hard, none, by_⟩
  | some t => { t with hard := t.hard || hard }

/-- The statement of `storeTombstonePurged`. -/
def storeTombstonePurged (purgedAt : Nat) (old : Option Tombstone) : Option Tombstone :=
  old.map fun t => { t with purgedAt := some purgedAt }

/-! ## deleteDoc -/

/-- What a purge has done so far. -/
structure Purge (β : Type) where
  /-- The references that `retrieveAssets` listed. -/
  listed : Option (List (Reference β))
  scheduled : Bool
  deleted : Bool
  unquarantined : Bool
  purgedAt : Option Nat

/-- A purge that begins. -/
def Purge.start : Purge β := ⟨none, false, false, false, none⟩

/-- Where a `deleteDoc` call is; `hard` is its option. -/
inductive Deletion (β : Type) where
  | idle
  | timed (hard : Bool) (by_ : Option String) (deletedAt : Nat)
  | committed (hard : Bool) (tombstone : Tombstone) (cleared : Bool) (message : Option StreamId)
      (uncached : Bool)
  | purging (hard : Bool) (purge : Purge β)
  | returned (hard : Bool) (tombstone : Tombstone)
  | failed

/-- What a purge lists. -/
def purgeInclude : Include := { gc := true, nongc := true, contentmap := true, contentids := true }

variable (C : Conf β) (room : Room)

/-- One step of a `deleteDoc` call. `ids` restricts the id that its message gets. -/
inductive DeletionStep (ids : Hub β → StreamId → Prop) :
    Hub β → Deletion β → Hub β → Deletion β → Prop
  | getTime (s : Hub β) (hard : Bool) (by_ : Option String) (deletedAt : Nat) :
      DeletionStep ids s .idle s (.timed hard by_ deletedAt)
  | commit (s : Hub β) (hard : Bool) (by_ : Option String) (deletedAt : Nat) :
      DeletionStep ids s (.timed hard by_ deletedAt)
        { s with tombstone := some (storeTombstone room deletedAt hard by_ s.tombstone) }
        (.committed hard (storeTombstone room deletedAt hard by_ s.tombstone)
          (!(storeTombstone room deletedAt hard by_ s.tombstone).hard) none false)
  | clear (s : Hub β) (hard : Bool) (t : Tombstone) (uncached : Bool) :
      DeletionStep ids s (.committed hard t false none uncached)
        { s with redis := clearMessages room s.redis } (.committed hard t true none uncached)
  -- the message is added in a `finally`, also when the stream could not be cleared
  | addMessage (s : Hub β) (hard : Bool) (t : Tombstone) (cleared uncached : Bool) (now : Nat)
      (hid : ids s (RedisStream.nextId now (s.redis.live room))) :
      DeletionStep ids s (.committed hard t cleared none uncached)
        (s.addMessage room now .tombstone)
        (.committed hard t cleared (some (RedisStream.nextId now (s.redis.live room))) uncached)
  | deleteCachedResponses (s : Hub β) (hard : Bool) (t : Tombstone) (cleared : Bool)
      (message : Option StreamId) :
      DeletionStep ids s (.committed hard t cleared message false)
        s (.committed hard t cleared message true)
  | soft (s : Hub β) (hard : Bool) (t : Tombstone) (m : StreamId) (h : t.hard = false) :
      DeletionStep ids s (.committed hard t true (some m) true) s (.returned hard t)
  | purge (s : Hub β) (hard : Bool) (t : Tombstone) (m : StreamId) (h : t.hard = true) :
      DeletionStep ids s (.committed hard t true (some m) true) s (.purging hard .start)
  | list (s : Hub β) (hard : Bool) (p : Purge β) (rows : List (Row β)) (hrows : rows.Perm s.rows)
      (h : p.listed = none) :
      DeletionStep ids s (.purging hard p) s (.purging hard { p with
        listed := some (retrieveAssets C.sort room purgeInclude true s.tombstone rows).assets })
  | schedule (s : Hub β) (hard : Bool) (p : Purge β) (refs : List (Reference β))
      (h : p.listed = some refs) (hs : p.scheduled = false) :
      DeletionStep ids s (.purging hard p)
        { s with timers := s.timers ++ scheduledRemovals C.plugins refs }
        (.purging hard { p with scheduled := true })
  | delete (s : Hub β) (hard : Bool) (p : Purge β) (refs : List (Reference β))
      (h : p.listed = some refs) (hs : p.scheduled = true) (hd : p.deleted = false) :
      DeletionStep ids s (.purging hard p) { s with rows := deleteReferences room refs s.rows }
        (.purging hard { p with deleted := true })
  | deleteQuarantineStreams (s : Hub β) (hard : Bool) (p : Purge β) (qids : List String) :
      DeletionStep ids s (.purging hard p)
        { s with redis := YHub.deleteQuarantineStreams room qids s.redis }
        (.purging hard { p with unquarantined := true })
  | getPurgeTime (s : Hub β) (hard : Bool) (p : Purge β) (ms : Nat) :
      DeletionStep ids s (.purging hard p) s (.purging hard { p with purgedAt := some ms })
  -- `RETURNING` finds no row when the tombstone is gone
  | purged (s : Hub β) (hard : Bool) (p : Purge β) (ms : Nat) (hd : p.deleted = true)
      (hq : p.unquarantined = true) (ht : p.purgedAt = some ms) :
      DeletionStep ids s (.purging hard p)
        { s with tombstone := storeTombstonePurged ms s.tombstone }
        (match storeTombstonePurged ms s.tombstone with
          | some t => .returned hard t
          | none => .failed)
  | stop (s : Hub β) (d : Deletion β) : DeletionStep ids s d s .failed

/-! ## restoreDoc -/

/-- Where a `restoreDoc` call is. -/
inductive Restore where
  | idle
  | dropping (tombstone : Tombstone)
  | refused
  | returned
  | failed
  deriving DecidableEq, Repr

/-- What `restoreDoc` does with the tombstone it has read. -/
def restoreDoc : Option Tombstone → Restore
  | none => .returned
  | some t => if t.hard || t.purgedAt.isSome then .refused else .dropping t

/-- One step of a `restoreDoc` call. -/
inductive RestoreStep : Site β → Restore → Site β → Restore → Prop
  | retrieveTombstone (x : Site β) : RestoreStep x .idle x (restoreDoc x.hub.tombstone)
  | deleteTombstone (x : Site β) (t : Tombstone) :
      RestoreStep x (.dropping t)
        { x with hub := { x.hub with tombstone := none }, restored := x.restored + 1 } .returned
  | stop (x : Site β) (r : Restore) : RestoreStep x r x .failed

/-! ## unsafePersistDoc -/

/-- Where an `unsafePersistDoc` call is. -/
inductive PersistCall (β : Type) where
  | idle
  | storing (t : Clock) (c : DocContent β) (assets : AssetColumn → Option (Asset β))
  | returned
  | failed

/-- One step of an `unsafePersistDoc` call. -/
inductive PersistCallStep : Hub β → PersistCall β → Hub β → PersistCall β → Prop
  | getTime (s : Hub β) (ms : Nat) (ydoc : β) (by_ : Option String) :
      PersistCallStep s .idle s
        (.storing (.persist ms) (Hub.attributed C.Y ms ydoc by_) fun _ => none)
  | put (s : Hub β) (t : Clock) (c : DocContent β) (assets : AssetColumn → Option (Asset β))
      (col : AssetColumn) (h : assets col = none) :
      PersistCallStep s (.storing t c assets)
        { s with objects := (tryPersistencePluginStore C.plugins (col.assetId room t)
          (c.asset col) s.objects).1 }
        (.storing t c (Function.update assets col (some (tryPersistencePluginStore C.plugins
          (col.assetId room t) (c.asset col) s.objects).2)))
  | insert (s : Hub β) (t : Clock) (c : DocContent β) (assets : AssetColumn → Asset β) :
      PersistCallStep s (.storing t c fun col => some (assets col))
        { s with rows := insertRow s.tombstone (storedRow t assets) s.rows } .returned
  | stop (s : Hub β) (p : PersistCall β) : PersistCallStep s p s .failed

/-! ## Connections -/

/-- `wsCloseAuthRevoked`. -/
def wsCloseAuthRevoked : Nat := 4401

/-- `wsCloseDocDeleted`. -/
def wsCloseDocDeleted : Nat := 4404

/-- Where a connection is. `write` is `hasWriteAccess` as of its upgrade. -/
inductive Conn (β : Type) where
  | idle
  | refused
  | upgraded (user : AuthInfo) (write : Bool)
  /-- The `getDoc` call of `open`: the last row clock with the tombstone, and the messages. -/
  | opening (user : AuthInfo) (write : Bool) (selected : Option (Clock × Option Tombstone))
      (cached : Option (Messages (Message β)))
  | rechecking (user : AuthInfo) (write : Bool) (lastClock : Clock)
  | ready (user : AuthInfo) (write : Bool) (lastClock : Clock)
  /-- `pending`: a re-check is under way; `since`: how often the room had been restored. -/
  | subscribed (user : AuthInfo) (write : Bool) (lastReceivedClock : Clock) (pending : Bool)
      (since : Nat)
  /-- `none`: the client went away. -/
  | closed (code : Option Nat)

namespace Message

/-- The code that `onStreamMessage` closes a connection with at once. -/
def closes (user : AuthInfo) : Message β → Option Nat
  | .tombstone => some wsCloseDocDeleted
  | .authCheck users forceDisconnect =>
    if concerns users user && forceDisconnect then some wsCloseAuthRevoked else none
  | _ => none

/-- Whether `onStreamMessage` calls `recheckAuth`. -/
def rechecks (user : AuthInfo) : Message β → Bool
  | .authCheck users forceDisconnect => concerns users user && !forceDisconnect
  | _ => false

end Message

/-- `onStreamMessage`: the first `close` takes effect. -/
def onStreamMessage (user : AuthInfo) (write : Bool) (lastClock : Clock) (pending : Bool)
    (since : Nat) (messages : List (Message β)) : Conn β :=
  match (messages.filterMap (Message.closes user)).head? with
  | some code => .closed (some code)
  | none => .subscribed user write lastClock (pending || messages.any (Message.rechecks user)) since

/-- What `onStreamMessage` comes to. -/
theorem onStreamMessage_cases (user : AuthInfo) (write : Bool) (c : Clock) (pending : Bool)
    (since : Nat) (messages : List (Message β)) :
    (∃ m ∈ messages, ∃ code, m.closes user = some code ∧
      onStreamMessage user write c pending since messages = .closed (some code)) ∨
    (∀ m ∈ messages, m.closes user = none) ∧
      onStreamMessage user write c pending since messages =
        .subscribed user write c (pending || messages.any (Message.rechecks user)) since := by
  unfold onStreamMessage
  cases hhead : (messages.filterMap (Message.closes user)).head? with
  | some code =>
    obtain ⟨m, hm, hcloses⟩ := List.mem_filterMap.mp (List.mem_of_head? hhead)
    exact Or.inl ⟨m, hm, code, hcloses, rfl⟩
  | none =>
    rw [List.head?_eq_none_iff, List.filterMap_eq_nil_iff] at hhead
    exact Or.inr ⟨hhead, rfl⟩

/-- `recheckAuth`, with the answer of the auth plugin: whether the connection stays. -/
def staysConnected (write : Bool) (accessType : Option AccessType) : Bool :=
  hasReadAccess accessType && hasWriteAccess accessType == write

/-- One step of a connection. -/
inductive ConnStep (x : Site β) : Conn β → Conn β → Prop
  | upgrade (user : AuthInfo) :
      ConnStep x .idle (if hasReadAccess (x.access user)
        then .upgraded user (hasWriteAccess (x.access user)) else .refused)
  | opened (user : AuthInfo) (write : Bool) :
      ConnStep x (.upgraded user write) (.opening user write none none)
  | select (user : AuthInfo) (write : Bool) (cached : Option (Messages (Message β)))
      (rows : List (Row β)) (hrows : rows.Perm x.hub.rows) :
      ConnStep x (.opening user write none cached)
        (.opening user write (some (lastClockOf C.sort rows, x.hub.tombstone)) cached)
  | xread (user : AuthInfo) (write : Bool) (selected : Option (Clock × Option Tombstone)) :
      ConnStep x (.opening user write selected none)
        (.opening user write selected (some (getMessages (x.hub.redis.live room))))
  | docDeleted (user : AuthInfo) (write : Bool) (persisted : Clock) (t : Tombstone)
      (cached : Messages (Message β)) :
      ConnStep x (.opening user write (some (persisted, some t)) (some cached))
        (.closed (some wsCloseDocDeleted))
  | loaded (user : AuthInfo) (write : Bool) (persisted : Clock) (cached : Messages (Message β)) :
      ConnStep x (.opening user write (some (persisted, none)) (some cached))
        (if (authChecksIn cached.messages).any fun m => concerns m.1 user
          then .rechecking user write (persisted.max cached.lastClock)
          else .ready user write (persisted.max cached.lastClock))
  | recheckAuth (user : AuthInfo) (write : Bool) (lastClock : Clock) :
      ConnStep x (.rechecking user write lastClock)
        (if staysConnected write (x.access user) then .ready user write lastClock
          else .closed (some wsCloseAuthRevoked))
  | subscribe (user : AuthInfo) (write : Bool) (lastClock : Clock) :
      ConnStep x (.ready user write lastClock) (.subscribed user write lastClock false x.restored)
  -- a run of entries of the stream that skips none; the entries that are not newer are left out
  | receive (user : AuthInfo) (write : Bool) (lastReceivedClock : Clock) (pending : Bool)
      (since : Nat) (before entries after : List (Entry (Message β))) (e : Entry (Message β))
      (hlive : x.hub.live room = before ++ (entries ++ [e]) ++ after)
      (hbefore : ∀ b ∈ before, lastReceivedClock.isSmaller (.id b.id) = false)
      (h : (messagesOf (entries ++ [e])).filter (lastReceivedClock.isSmaller <| .id ·.1) ≠ []) :
      ConnStep x (.subscribed user write lastReceivedClock pending since)
        (onStreamMessage user write (.id e.id) pending since (((messagesOf (entries ++ [e])).filter
          (lastReceivedClock.isSmaller <| .id ·.1)).map Prod.snd))
  | recheckPending (user : AuthInfo) (write : Bool) (lastReceivedClock : Clock) (since : Nat) :
      ConnStep x (.subscribed user write lastReceivedClock true since)
        (if staysConnected write (x.access user)
          then .subscribed user write lastReceivedClock false since
          else .closed (some wsCloseAuthRevoked))
  /-- An error, backpressure or a failing auth plugin. -/
  | closeWithError (c : Conn β) (code : Nat) (h : code = 1011 ∨ code = 1013) :
      ConnStep x c (.closed (some code))
  | disconnect (c : Conn β) : ConnStep x c (.closed none)

/-- How a connection comes to be subscribed: it subscribes, or was before and has received some
entries or re-checked. -/
theorem ConnStep.subscribed_cases {x : Site β} {c : Conn β} {user : AuthInfo}
    {write pending : Bool} {clock : Clock} {since : Nat}
    (h : ConnStep C room x c (.subscribed user write clock pending since)) :
    c = .ready user write clock ∧ pending = false ∧ since = x.restored ∨
    ∃ clock₀ pending₀, c = .subscribed user write clock₀ pending₀ since ∧
      (clock₀ = clock ∨ ∃ before entries after e,
        x.hub.live room = before ++ (entries ++ [e]) ++ after ∧
        (messagesOf (entries ++ [e])).filter (clock₀.isSmaller <| .id ·.1) ≠ [] ∧
        clock = .id e.id) := by
  generalize hc' : Conn.subscribed user write clock pending since = c' at h
  cases h with
  | upgrade u => split at hc' <;> exact absurd hc' (by simp)
  | loaded u w persisted cached => split at hc' <;> exact absurd hc' (by simp)
  | recheckAuth u w lastClock => split at hc' <;> exact absurd hc' (by simp)
  | subscribe u w lastClock =>
    obtain ⟨rfl, rfl, rfl, rfl, rfl⟩ := Conn.subscribed.inj hc'
    exact Or.inl ⟨rfl, rfl, rfl⟩
  | receive u w lastReceivedClock p since₀ before entries after e hlive hbefore hne =>
    rcases onStreamMessage_cases u w (.id e.id) p since₀ _ with ⟨-, -, code, -, e'⟩ | ⟨-, e'⟩
    · exact absurd (hc'.trans e') (by simp)
    · obtain ⟨rfl, rfl, rfl, -, rfl⟩ := Conn.subscribed.inj (hc'.trans e')
      exact Or.inr ⟨_, _, rfl, Or.inr ⟨before, entries, after, e, hlive, hne, rfl⟩⟩
  | recheckPending u w lastReceivedClock since₀ =>
    split at hc'
    · obtain ⟨rfl, rfl, rfl, rfl, rfl⟩ := Conn.subscribed.inj hc'
      exact Or.inr ⟨_, _, rfl, Or.inl rfl⟩
    · exact absurd hc' (by simp)
  | _ => exact absurd hc' (by simp)

/-! ## The processes of a room -/

/-- A process of a room. -/
inductive Actor (β : Type) where
  | worker (p : Proc β)
  | persist (p : PersistCall β)
  | deletion (d : Deletion β)
  | restore (r : Restore)
  | conn (c : Conn β)

/-- Nothing has happened yet. -/
def Actor.Idle : Actor β → Prop
  | .worker p => p = .idle
  | .persist p => p = .idle
  | .deletion d => d = .idle
  | .restore r => r = .idle
  | .conn c => c = .idle

/-- One step of a process. -/
inductive ActorStep (ids : Hub β → StreamId → Prop) :
    Site β → Actor β → Site β → Actor β → Prop
  | worker (x : Site β) (p p' : Proc β) (s' : Hub β) (h : WorkerStep C room x.hub p s' p') :
      ActorStep ids x (.worker p) { x with hub := s' } (.worker p')
  | persist (x : Site β) (p p' : PersistCall β) (s' : Hub β)
      (h : PersistCallStep C room x.hub p s' p') :
      ActorStep ids x (.persist p) { x with hub := s' } (.persist p')
  | deletion (x : Site β) (d d' : Deletion β) (s' : Hub β)
      (h : DeletionStep C room ids x.hub d s' d') :
      ActorStep ids x (.deletion d) { x with hub := s' } (.deletion d')
  | restore (x x' : Site β) (r r' : Restore) (h : RestoreStep x r x' r') :
      ActorStep ids x (.restore r) x' (.restore r')
  | conn (x : Site β) (c c' : Conn β) (h : ConnStep C room x c c') :
      ActorStep ids x (.conn c) x (.conn c')

/-- The rest of the world: messages are added by clients, with ids that increase; other commands
are sent to redis, as far as `ops` admits them; a removal of an object takes place; the access
of a user changes, as far as `grants` admits it. -/
inductive SiteWorld (ops : Nat → Op β → Prop)
    (grants : Site β → AuthInfo → Option AccessType → Prop) : Site β → Site β → Prop
  | addMessage (x : Site β) (now : Nat) (m : Message β) (hm : m ≠ .tombstone)
      (hid : ∀ e ∈ x.hub.log, e.id < RedisStream.nextId now (x.hub.redis.live room)) :
      SiteWorld ops grants x { x with hub := x.hub.addMessage room now m }
  | op (x : Site β) (now : Nat) (o : Op β) (h : ops now o) :
      SiteWorld ops grants x { x with hub := { x.hub with redis := o.exec now x.hub.redis } }
  | removeObject (x : Site β) (before after : List ObjectId) (o : ObjectId)
      (h : x.hub.timers = before ++ o :: after) :
      SiteWorld ops grants x { x with hub := { x.hub with
        objects := Function.update x.hub.objects o none
        timers := before ++ after } }
  | access (x : Site β) (user : AuthInfo) (accessType : Option AccessType)
      (h : grants x user accessType) :
      SiteWorld ops grants x { x with access := Function.update x.access user accessType }

/-! ## Runs -/

/-- A site and its processes. -/
abbrev SiteState (β : Type) : Type := Interleave.State (Site β) Nat (Actor β)

/-- What a run is restricted to: the ids of tombstone messages, the other commands to redis, the
changes of access, and the steps of processes. -/
structure Rules (β : Type) where
  ids : Hub β → StreamId → Prop := fun _ _ => True
  ops : SiteState β → Nat → Op β → Prop := fun _ _ _ => True
  grants : Site β → AuthInfo → Option AccessType → Prop := fun _ _ _ => True
  guard : SiteState β → Nat → Actor β → Prop := fun _ _ _ => True

/-- One step of a site. -/
abbrev SiteStep (R : Rules β) : SiteState β → SiteState β → Prop :=
  Interleave.Guarded (fun x s' => SiteWorld room (R.ops x) R.grants x.1 s') (ActorStep C room R.ids)
    R.guard

/-- A run of a site. -/
abbrev SiteRun (R : Rules β) : SiteState β → SiteState β → Prop :=
  Relation.ReflTransGen (SiteStep C room R)

variable {C room} {R : Rules β} {S : Site β} {ls : Nat → Actor β} {i : Nat}

/-- A step of one process, in a run. -/
theorem SiteRun.step {x : SiteState β} {S' : Site β} {a : Actor β} (h : SiteRun C room R x (S, ls))
    (hs : ActorStep C room R.ids S (ls i) S' a) (hg : R.guard (S, ls) i a) :
    SiteRun C room R x (S', Function.update ls i a) :=
  h.tail (Interleave.Guarded.proc S ls i S' a hs hg)

/-- An undisturbed process that works on the hub is part of a run, if its steps keep what the guard
relies on. -/
theorem SiteRun.alone_of {κ : Type} (process : κ → Actor β) {step : Hub β → κ → Hub β → κ → Prop}
    (P : Hub β → κ → Prop) (hP : ∀ s p s' p', P s p → step s p s' p' → P s' p')
    (hstep : ∀ S p s' p', step S.hub p s' p' →
      ActorStep C room R.ids S (process p) { S with hub := s' } (process p'))
    (hg : ∀ S p p', P S.hub p →
      R.guard (S, Function.update ls i (process p)) i (process p')) {p p' : κ} {s' : Hub β}
    (h : Interleave.Alone step (S.hub, p) (s', p')) (h₀ : P S.hub p) (hi : ls i = process p) :
    SiteRun C room R (S, ls) ({ S with hub := s' }, Function.update ls i (process p')) := by
  obtain ⟨y, hy⟩ : ∃ y, y = (s', p') := ⟨_, rfl⟩
  rw [← hy] at h
  have hrun : SiteRun C room R (S, ls) ({ S with hub := y.1 },
      Function.update ls i (process y.2)) ∧ P y.1 y.2 := by
    clear hy
    induction h with
    | refl =>
      refine ⟨?_, h₀⟩
      rw [← hi, Function.update_eq_self]
    | tail _ hs ih =>
      rename_i b c _
      refine ⟨?_, hP _ _ _ _ ih.2 hs⟩
      have hrun := SiteRun.step ih.1 (i := i) (a := process c.2) (by
        rw [Function.update_self]
        exact hstep { S with hub := b.1 } b.2 c.1 c.2 hs)
        (hg { S with hub := b.1 } b.2 c.2 ih.2)
      rwa [Function.update_idem] at hrun
  rw [hy] at hrun
  exact hrun.1

/-- An undisturbed process that works on the hub is part of a run. -/
theorem SiteRun.alone {κ : Type} (process : κ → Actor β) {step : Hub β → κ → Hub β → κ → Prop}
    (hstep : ∀ S p s' p', step S.hub p s' p' →
      ActorStep C room R.ids S (process p) { S with hub := s' } (process p'))
    (hg : ∀ x p p', x.2 i = process p → R.guard x i (process p')) {p p' : κ} {s' : Hub β}
    (h : Interleave.Alone step (S.hub, p) (s', p')) (hi : ls i = process p) :
    SiteRun C room R (S, ls) ({ S with hub := s' }, Function.update ls i (process p')) :=
  SiteRun.alone_of process (fun _ _ => True) (fun _ _ _ _ _ _ => trivial) hstep
    (fun _ p p' _ => hg _ p p' (Function.update_self ..)) h trivial hi

/-! ## An undisturbed deletion -/

/-- A `deleteDoc` call that starts at redis time `ms`, adds its message at `now` and, if it has to
purge the room, does so at `purgedAt`. -/
def Hub.deleteDoc (C : Conf β) (room : Room) (hard : Bool) (by_ : Option String)
    (ms now purgedAt : Nat) (s : Hub β) : Hub β :=
  let t := storeTombstone room ms hard by_ s.tombstone
  let redis := if t.hard then clearMessages room s.redis else s.redis
  let s := { s with tombstone := some t, redis := redis }.addMessage room now .tombstone
  if t.hard then
    let refs := (retrieveAssets C.sort room purgeInclude true s.tombstone s.rows).assets
    { s with
      tombstone := storeTombstonePurged purgedAt s.tombstone
      timers := s.timers ++ scheduledRemovals C.plugins refs
      rows := YHub.deleteReferences room refs s.rows
      redis := YHub.deleteQuarantineStreams room [] s.redis }
  else s

variable (C room) in
/-- Up to the promises that `deleteDoc` waits for after its commit. -/
theorem committed_alone (ids : Hub β → StreamId → Prop) (s : Hub β) (hard : Bool)
    (by_ : Option String) (ms now : Nat)
    (hid : ∀ s' : Hub β, s'.log = s.log → ids s' (RedisStream.nextId now (s'.redis.live room))) :
    let t := storeTombstone room ms hard by_ s.tombstone
    let redis := if t.hard then clearMessages room s.redis else s.redis
    ∃ m, Interleave.Alone (DeletionStep C room ids) (s, .idle)
      ({ s with tombstone := some t, redis := redis }.addMessage room now .tombstone,
        .committed hard t true (some m) true) := by
  intro t redis
  have h₁ : Interleave.Alone (DeletionStep C room ids) (s, .idle)
      ({ s with tombstone := some t }, .committed hard t (!t.hard) none false) :=
    (Interleave.Alone.step .refl (DeletionStep.getTime s hard by_ ms)).step
      (DeletionStep.commit s hard by_ ms)
  have h₂ : Interleave.Alone (DeletionStep C room ids) (s, .idle)
      ({ s with tombstone := some t, redis := redis }, .committed hard t true none false) := by
    cases ht : t.hard with
    | true =>
      rw [ht] at h₁
      have hredis : redis = clearMessages room s.redis := if_pos ht
      rw [hredis]
      exact h₁.step (DeletionStep.clear _ hard t false)
    | false =>
      rw [ht] at h₁
      have hredis : redis = s.redis := if_neg (by simp [ht])
      rw [hredis]
      exact h₁
  exact ⟨_, (h₂.step (DeletionStep.addMessage _ hard t true false now (hid _ rfl))).step
    (DeletionStep.deleteCachedResponses _ hard t true _)⟩

variable (C room) in
theorem deleteDoc_alone (ids : Hub β → StreamId → Prop) (s : Hub β) (hard : Bool)
    (by_ : Option String) (ms now purgedAt : Nat)
    (hid : ∀ s' : Hub β, s'.log = s.log → ids s' (RedisStream.nextId now (s'.redis.live room))) :
    ∃ t, Interleave.Alone (DeletionStep C room ids) (s, .idle)
      (s.deleteDoc C room hard by_ ms now purgedAt, .returned hard t) := by
  obtain ⟨m, h⟩ := committed_alone C room ids s hard by_ ms now hid
  unfold Hub.deleteDoc
  simp only
  cases ht : (storeTombstone room ms hard by_ s.tombstone).hard with
  | false =>
    rw [ht] at h
    exact ⟨_, h.step (DeletionStep.soft _ hard _ m ht)⟩
  | true =>
    rw [ht] at h
    have h₁ := h.step (DeletionStep.purge _ hard _ m ht)
    have h₂ := h₁.step (DeletionStep.list _ hard .start _ (List.Perm.refl _) rfl)
    have h₃ := h₂.step (DeletionStep.schedule _ hard _ _ rfl rfl)
    have h₄ := h₃.step (DeletionStep.delete _ hard _ _ rfl rfl rfl)
    have h₅ := h₄.step (DeletionStep.deleteQuarantineStreams _ hard _ [])
    have h₆ := h₅.step (DeletionStep.getPurgeTime _ hard _ purgedAt)
    exact ⟨_, h₆.step (DeletionStep.purged _ hard _ purgedAt rfl rfl rfl)⟩

/-- An undisturbed `deleteDoc` call at the end of a run. -/
theorem SiteRun.deleteDoc {x : SiteState β} (h : SiteRun C room R x (S, ls))
    (hi : ls i = .deletion .idle)
    (hg : ∀ y d d', y.2 i = .deletion d → R.guard y i (.deletion d')) (hard : Bool)
    (by_ : Option String) (ms now purgedAt : Nat)
    (hid : ∀ s : Hub β, s.log = S.hub.log →
      R.ids s (RedisStream.nextId now (s.redis.live room))) :
    ∃ t, SiteRun C room R x ({ S with hub := S.hub.deleteDoc C room hard by_ ms now purgedAt },
      Function.update ls i (.deletion (.returned hard t))) := by
  obtain ⟨t, halone⟩ := deleteDoc_alone C room R.ids S.hub hard by_ ms now purgedAt hid
  exact ⟨t, h.trans (SiteRun.alone .deletion
    (fun S d s' d' hs => ActorStep.deletion S d d' s' hs) hg halone hi)⟩

/-- A site to run: nobody has access, nothing was restored. -/
def Site.of (s : Hub β) : Site β := ⟨s, fun _ => none, 0⟩

/-- A site that everybody may use. -/
def Site.open (s : Hub β) : Site β := ⟨s, fun _ => some .rw, 0⟩

/-! ## An undisturbed connection -/

/-- The steps of a connection that nothing disturbs. -/
abbrev ConnAlone (C : Conf β) (room : Room) (S : Site β) : Conn β → Conn β → Prop :=
  Relation.ReflTransGen (ConnStep C room S)

theorem SiteRun.conn (hg : ∀ c c', R.guard (S, Function.update ls i (.conn c)) i (.conn c'))
    {c c' : Conn β} (h : ConnAlone C room S c c') (hi : ls i = .conn c) :
    SiteRun C room R (S, ls) (S, Function.update ls i (.conn c')) := by
  induction h with
  | refl =>
    rw [← hi, Function.update_eq_self]
  | tail _ hs ih =>
    rename_i b c' _
    have hrun := SiteRun.step ih (i := i) (a := .conn c') (by
      rw [Function.update_self]
      exact ActorStep.conn S b c' hs) (hg b c')
    rwa [Function.update_idem] at hrun

/-- Up to the `SELECT`. -/
theorem selected_alone {user : AuthInfo} (h : S.access user = some .rw) :
    ConnAlone C room S .idle
      (.opening user true (some (lastClockOf C.sort S.hub.rows, S.hub.tombstone)) none) := by
  have h₁ : ConnStep C room S .idle (.upgraded user true) := by
    have hup : ConnStep C room S _ _ := ConnStep.upgrade user
    rwa [h] at hup
  exact ((Relation.ReflTransGen.single h₁).tail (ConnStep.opened user true)).tail
    (ConnStep.select user true none S.hub.rows (List.Perm.refl _))

/-- From the `SELECT` on, when the stream holds no re-check. -/
theorem subscribed_alone {user : AuthInfo} {write : Bool} {p : Clock}
    (h : authChecksIn (getMessages (S.hub.redis.live room)).messages = []) :
    ConnAlone C room S (.opening user write (some (p, none)) none)
      (.subscribed user write (p.max (getMessages (S.hub.redis.live room)).lastClock) false
        S.restored) := by
  have h₁ : ConnAlone C room S _ _ :=
    Relation.ReflTransGen.single (ConnStep.xread user write (some (p, none)))
  have h₂ := h₁.tail (ConnStep.loaded user write p _)
  rw [h] at h₂
  exact h₂.tail (ConnStep.subscribe user write _)

end YHub
