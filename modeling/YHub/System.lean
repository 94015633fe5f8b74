import YHub.GetDoc
import YHub.Operations
import YHub.Lib.Interleave

/-!
# Workers and readers of one room (`index.js:162-223`, `index.js:242-296`)

The processes that work on one room at the same time, over redis, the rows of the room and the
objects of its plugins (`Hub`). A process is a run of `_runTask` or a call of `getDoc`; it takes one
step for each command or statement that touches shared state, and may stop between any two of them.

A run of `_runTask` (`WorkerStep`):
* `precheck`: it reads the stream and the persisted clock, in either order;
* with nothing new to persist, or in a hard-deleted room, it only trims (`trimming`);
* else it reads the rows (`fetching`: one `SELECT`, then one retrieval for each asset) and merges
  them with the messages it has already;
* if another worker has persisted the room meanwhile, it only trims;
* else it stores the document (`storing`: the plugins, then the `INSERT`), schedules the removal
  of the superseded objects, deletes the superseded rows and trims, the last two in either order
  (`cleaning`).

A call of `getDoc` (`ReadStep`) makes its `SELECT` and its `XREAD` in either order.

The rest of the world (`World`): messages are added, with ids that increase; the rest of redis
changes, the queue included; the room is deleted softly, or restored; a scheduled removal takes
its object away.

`log` and `written` are history: every entry ever added to the stream, and what runs set out to
store. Rows are those of one room, so a clock occurs once.
-/

namespace YHub

variable {β : Type}

/-- What the hub is set up with: Yjs, the engine's sort, the plugins, `minMessageLifetime`. -/
structure Conf (β : Type) where
  Y : Yjs β
  sort : ClockSort
  plugins : List (Plugin β)
  minMessageLifetime : JsNumber

/-- The state that the processes of a room share. -/
structure Hub (β : Type) where
  redis : Redis (Message β)
  rows : List (Row β)
  tombstone : Option Tombstone
  objects : Objects β
  /-- The scheduled removals of objects. -/
  timers : List ObjectId
  log : List (Entry (Message β))
  written : List (Clock × DocContent β)

/-- No row, no object, an empty redis. -/
def Hub.empty : Hub β := ⟨.empty, [], none, fun _ => none, [], [], []⟩

/-! ## Processes -/

/-- The two reads of a `getDoc` call. -/
structure Retrieval (β : Type) where
  cached : Option (Messages (Message β))
  selected : Option (RetrievedAssets β)
  /-- The assets that are still to be retrieved. -/
  todo : List (AssetId Clock × Asset β)
  retrieved : List (AssetId Clock × Asset β)

/-- A call with the messages it was handed, if any. -/
def Retrieval.start (cached : Option (Messages (Message β))) : Retrieval β := ⟨cached, none, [], []⟩

/-- Where a process is. -/
inductive Proc (β : Type) where
  | idle
  | precheck (task : StreamId) (cached : Option (Messages (Message β)))
      (persisted : Option (Clock × Option Tombstone))
  | trimming (task : StreamId) (minId : Clock) (maxAgeMs : JsNumber)
  | fetching (task : StreamId) (g : Retrieval β)
  | storing (task : StreamId) (d : DocTable β) (c : DocContent β)
      (assets : AssetColumn → Option (Asset β))
  | cleaning (task : StreamId) (d : DocTable β) (scheduled deleted trimmed : Bool)
  | reading (i : Include) (gcOnMerge : Bool) (g : Retrieval β)
  | returned (i : Include) (d : DocTable β)
  | finished

/-! ## Decisions of `_runTask` -/

/-- `lastUpdateClock`: only update and prune messages advance it. -/
def lastUpdateClock (persisted : Clock) (messages : List (StreamId × Message β)) : Clock :=
  messages.foldl (fun clk m => if m.2.changesDoc then clk.max (.id m.1) else clk) persisted

/-- The pre-check: the room is hard-deleted, or nothing has changed the document since the
persisted clock. -/
def nothingToCompact (persisted : Clock) (tombstone : Option Tombstone)
    (messages : List (StreamId × Message β)) : Bool :=
  tombstone.any Tombstone.hard || !persisted.isSmaller (lastUpdateClock persisted messages)

/-- The age that the trim of the pre-check spares: none in a hard-deleted room. -/
def trimOnlyMaxAge (minMessageLifetime : JsNumber) (tombstone : Option Tombstone) : JsNumber :=
  if tombstone.any Tombstone.hard then .ofNat 0 else minMessageLifetime

/-- What a run asks `getDoc` for. -/
def compactInclude : Include :=
  { gc := true, nongc := true, contentmap := true, contentids := true, references := true }

/-- The re-check: another worker has persisted as much meanwhile. -/
def outrun (d : DocTable β) : Bool := !d.lastPersistedClock.isSmaller d.lastClock

/-! ## Steps -/

variable (C : Conf β) (room : Room)

/-- One step of a `getDoc` call. `reads` restricts the states its `XREAD` runs in. -/
inductive RetrievalStep (reads : Hub β → Retrieval β → Prop) (i : Include) (s : Hub β) :
    Retrieval β → Retrieval β → Prop
  | select (g : Retrieval β) (rows : List (Row β)) (hrows : rows.Perm s.rows)
      (h : g.selected = none) :
      RetrievalStep reads i s g { g with
        selected := some (retrieveAssets C.sort room { i with contentids := true } false
          s.tombstone rows)
        todo := toRetrieve (retrieveAssets C.sort room { i with contentids := true } false
          s.tombstone rows).assets }
  | xread (g : Retrieval β) (h : g.cached = none) (hreads : reads s g) :
      RetrievalStep reads i s g { g with cached := some (getMessages (s.redis.live room)) }
  | retrieve (g : Retrieval β) (before after : List (AssetId Clock × Asset β))
      (id : AssetId Clock) (a : Asset β) (h : g.todo = before ++ (id, a) :: after) :
      RetrievalStep reads i s g { g with
        todo := before ++ after
        retrieved := match tryPersistencePluginRetrieve C.plugins id a s.objects with
          | some r => g.retrieved ++ [(id, r)]
          | none => g.retrieved }

/-- Both reads of a `getDoc` call are made, and the document is `d`. -/
def Retrieval.Yields (g : Retrieval β) (i : Include) (gcOnMerge : Bool) (d : DocTable β) : Prop :=
  ∃ cached ra, g.cached = some cached ∧ g.selected = some ra ∧ g.todo = [] ∧
    d = getDoc C.Y i gcOnMerge (retrieveDoc { i with contentids := true } ra g.retrieved) cached

/-- One step of a run of `_runTask`. -/
inductive WorkerStep : Hub β → Proc β → Hub β → Proc β → Prop
  | start (s : Hub β) (task : StreamId) : WorkerStep s .idle s (.precheck task none none)
  | precheckStream (s : Hub β) (task : StreamId) (persisted : Option (Clock × Option Tombstone)) :
      WorkerStep s (.precheck task none persisted) s
        (.precheck task (some (getMessages (s.redis.live room))) persisted)
  | precheckClock (s : Hub β) (task : StreamId) (cached : Option (Messages (Message β)))
      (rows : List (Row β)) (hrows : rows.Perm s.rows) :
      WorkerStep s (.precheck task cached none) s
        (.precheck task cached (some (lastClockOf C.sort rows, s.tombstone)))
  | nothing (s : Hub β) (task : StreamId) (cached : Messages (Message β)) (persisted : Clock)
      (tombstone : Option Tombstone)
      (h : nothingToCompact persisted tombstone cached.messages = true) :
      WorkerStep s (.precheck task (some cached) (some (persisted, tombstone))) s
        (.trimming task (persisted.max cached.lastClock)
          (trimOnlyMaxAge C.minMessageLifetime tombstone))
  | proceed (s : Hub β) (task : StreamId) (cached : Messages (Message β)) (persisted : Clock)
      (tombstone : Option Tombstone)
      (h : nothingToCompact persisted tombstone cached.messages = false) :
      WorkerStep s (.precheck task (some cached) (some (persisted, tombstone))) s
        (.fetching task (.start (some cached)))
  | fetch (s : Hub β) (task : StreamId) (g g' : Retrieval β)
      (h : RetrievalStep C room (fun _ _ => False) compactInclude s g g') :
      WorkerStep s (.fetching task g) s (.fetching task g')
  | outrun (s : Hub β) (task : StreamId) (g : Retrieval β) (d : DocTable β)
      (hd : g.Yields C compactInclude true d) (h : outrun d = true) :
      WorkerStep s (.fetching task g) s (.trimming task d.lastClock C.minMessageLifetime)
  | merged (s : Hub β) (task : StreamId) (g : Retrieval β) (d : DocTable β) (c : DocContent β)
      (hd : g.Yields C compactInclude true d) (h : YHub.outrun d = false)
      (hc : d.content? = some c) :
      WorkerStep s (.fetching task g) { s with written := (d.lastClock, c) :: s.written }
        (.storing task d c fun _ => none)
  | put (s : Hub β) (task : StreamId) (d : DocTable β) (c : DocContent β)
      (assets : AssetColumn → Option (Asset β)) (col : AssetColumn) (h : assets col = none) :
      WorkerStep s (.storing task d c assets)
        { s with objects := (tryPersistencePluginStore C.plugins (col.assetId room d.lastClock)
          (c.asset col) s.objects).1 }
        (.storing task d c (Function.update assets col
          (some (tryPersistencePluginStore C.plugins (col.assetId room d.lastClock) (c.asset col)
            s.objects).2)))
  | insert (s : Hub β) (task : StreamId) (d : DocTable β) (c : DocContent β)
      (assets : AssetColumn → Asset β) :
      WorkerStep s (.storing task d c fun col => some (assets col))
        { s with rows := insertRow s.tombstone (storedRow d.lastClock assets) s.rows }
        (.cleaning task d false false false)
  | schedule (s : Hub β) (task : StreamId) (d : DocTable β) (refs : List (Reference β))
      (h : d.references = some refs) :
      WorkerStep s (.cleaning task d false false false)
        { s with timers := s.timers ++ scheduledRemovals C.plugins refs }
        (.cleaning task d true false false)
  | delete (s : Hub β) (task : StreamId) (d : DocTable β) (refs : List (Reference β))
      (trimmed : Bool) (h : d.references = some refs) :
      WorkerStep s (.cleaning task d true false trimmed)
        { s with rows := deleteReferences room refs s.rows } (.cleaning task d true true trimmed)
  | trimAfter (s : Hub β) (task : StreamId) (d : DocTable β) (deleted : Bool) (now : Nat) :
      WorkerStep s (.cleaning task d true deleted false)
        { s with redis := (trimMessages now room d.lastClock.text C.minMessageLifetime (some task)
          s.redis).1 }
        (.cleaning task d true deleted true)
  | trim (s : Hub β) (task : StreamId) (minId : Clock) (maxAgeMs : JsNumber) (now : Nat) :
      WorkerStep s (.trimming task minId maxAgeMs)
        { s with redis := (trimMessages now room minId.text maxAgeMs (some task) s.redis).1 }
        .finished
  | stop (s : Hub β) (p : Proc β) : WorkerStep s p s .finished

/-- One step of a `getDoc` call of a reader. -/
inductive ReadStep (reads : Hub β → Retrieval β → Prop) : Hub β → Proc β → Hub β → Proc β → Prop
  | start (s : Hub β) (i : Include) (gcOnMerge : Bool) :
      ReadStep reads s .idle s (.reading i gcOnMerge (.start none))
  | read (s : Hub β) (i : Include) (gcOnMerge : Bool) (g g' : Retrieval β)
      (h : RetrievalStep C room reads i s g g') :
      ReadStep reads s (.reading i gcOnMerge g) s (.reading i gcOnMerge g')
  | finish (s : Hub β) (i : Include) (gcOnMerge : Bool) (g : Retrieval β) (d : DocTable β)
      (hd : g.Yields C i gcOnMerge d) :
      ReadStep reads s (.reading i gcOnMerge g) s (.returned i d)

/-- The rest of the world, at a hub with these processes. `admits` restricts the messages that are
added, `fires` the removals of objects that take place. -/
inductive World (admits : Message β → Prop)
    (fires : Interleave.State (Hub β) Nat (Proc β) → ObjectId → Prop) :
    Interleave.State (Hub β) Nat (Proc β) → Hub β → Prop
  | addMessage (s : Hub β) (ps : Nat → Proc β) (now : Nat) (m : Message β) (hm : admits m)
      (hid : ∀ e ∈ s.log, e.id < RedisStream.nextId now (s.redis.live room)) :
      World admits fires (s, ps) { s with
        redis := addMessage now room m s.redis
        log := s.log ++ [⟨RedisStream.nextId now (s.redis.live room), .m m⟩] }
  | otherKeys (s : Hub β) (ps : Nat → Proc β) (r : Redis (Message β))
      (h : r.live room = s.redis.live room) : World admits fires (s, ps) { s with redis := r }
  | softDelete (s : Hub β) (ps : Nat → Proc β) (tombstone : Option Tombstone)
      (h : tombstone.any Tombstone.hard = false) :
      World admits fires (s, ps) { s with tombstone := tombstone }
  | removeObject (s : Hub β) (ps : Nat → Proc β) (before after : List ObjectId) (o : ObjectId)
      (h : s.timers = before ++ o :: after) (hfires : fires (s, ps) o) :
      World admits fires (s, ps) { s with
        objects := Function.update s.objects o none
        timers := before ++ after }

variable {room} in
/-- Other removals may take place, as long as those that are scheduled do. -/
theorem World.mono {admits : Message β → Prop}
    {fires fires' : Interleave.State (Hub β) Nat (Proc β) → ObjectId → Prop} {s s' : Hub β}
    {ps : Nat → Proc β} (hw : World room admits fires (s, ps) s')
    (h : ∀ o ∈ s.timers, fires (s, ps) o → fires' (s, ps) o) :
    World room admits fires' (s, ps) s' := by
  cases hw with
  | addMessage _ _ now m hm hid => exact World.addMessage s ps now m hm hid
  | otherKeys _ _ r hr => exact World.otherKeys s ps r hr
  | softDelete _ _ tombstone hhard => exact World.softDelete s ps tombstone hhard
  | removeObject _ _ before after o htimers hfires =>
    refine World.removeObject s ps before after o htimers (h o ?_ hfires)
    rw [htimers]
    exact List.mem_append_right _ List.mem_cons_self

/-! ## Runs -/

/-- The states of the runs of workers. -/
abbrev WorkerReach (admits : Message β → Prop)
    (fires : Interleave.State (Hub β) Nat (Proc β) → ObjectId → Prop) :
    Interleave.State (Hub β) Nat (Proc β) → Prop :=
  Relation.ReflTransGen (Interleave.Step (World room admits fires) (WorkerStep C room))
    (Hub.empty, fun _ => .idle)

/-- The states of the runs of workers and readers. -/
abbrev HubReach (admits : Message β → Prop)
    (fires : Interleave.State (Hub β) Nat (Proc β) → ObjectId → Prop)
    (reads : Hub β → Retrieval β → Prop) : Interleave.State (Hub β) Nat (Proc β) → Prop :=
  Relation.ReflTransGen (Interleave.Step (World room admits fires) fun s p s' p' =>
    WorkerStep C room s p s' p' ∨ ReadStep C room reads s p s' p') (Hub.empty, fun _ => .idle)

end YHub
