import YHub.HardDeletion

/-!
# The open handler and the messages added meanwhile (`server.js:355-441`, `index.js:242-296`)

A connection starts from the larger of two clocks that it reads at different times: the last row
clock, with the tombstone, and the last entry of the stream. A message that is on the stream at the
second read is below that clock, and is not delivered to the connection afterwards: the open handler
has to act on it, which it does for a tombstone in the database and for an `auth:check:v1` among the
messages it has read (`Recheck.lean`).

* `recordedOk_of_run`: ids increase, so whatever clock a process has read is below the id of the
  next message (`Conn.below_of_added`), unless it is one of `unsafePersistDoc`.
* `holds_while_live`: what is kept by the steps taken while a message is on the stream.
* `deletion_noticed`: after a deletion has added its message, a connection that is subscribed has
  still to receive it, in every run in which the connection does not read the stream after that with
  a `SELECT` from before the commit.
* `deletion_unnoticed`: such a connection stays. Its `SELECT` found no tombstone, and its `XREAD`
  found the message.
-/

namespace YHub

variable {β : Type} {C : Conf β} {room : Room}

open SortedLog

/-! ## The clocks that are read -/

/-- `'0'`, the id of an entry of the log, or a clock of `unsafePersistDoc`. -/
def Known (log : List (Entry (Message β))) (c : Clock) : Prop :=
  c = .zero ∨ (∃ e ∈ log, c = .id e.id) ∨ ∃ ms, c = .persist ms

namespace Known

variable {log : List (Entry (Message β))} {c d : Clock}

theorem zero : Known log .zero := Or.inl rfl

theorem persist (ms : Nat) : Known log (.persist ms) := Or.inr (Or.inr ⟨ms, rfl⟩)

theorem of_mem {e : Entry (Message β)} (he : e ∈ log) : Known log (.id e.id) :=
  Or.inr (Or.inl ⟨e, he, rfl⟩)

theorem mono {log' : List (Entry (Message β))} (h : Known log c) (hlog : log <+: log') :
    Known log' c :=
  h.imp_right (Or.imp_left fun ⟨e, he, hc⟩ => ⟨e, hlog.subset he, hc⟩)

theorem max (hc : Known log c) (hd : Known log d) : Known log (c.max d) := by
  rcases c.max_cases d with ⟨-, e⟩ | ⟨-, e⟩
  · rwa [e]
  · rwa [e]

/-- A clock that is not one of `unsafePersistDoc` is below an id that is above the log. -/
theorem isSmaller {m : StreamId} (h : Known log c) (hm : ∀ e ∈ log, e.id < m)
    (hpos : StreamId.zero < m) (hpersist : ∀ ms, c = .persist ms → c.isSmaller (.id m) = true) :
    c.isSmaller (.id m) = true := by
  rcases h with rfl | ⟨e, he, rfl⟩ | ⟨ms, rfl⟩
  · exact (Clock.isSmaller_iff_lt rfl rfl).mpr hpos
  · exact (Clock.isSmaller_iff_lt rfl rfl).mpr (hm e he)
  · exact hpersist ms rfl

end Known

/-- The clocks that a connection has read. -/
def Conn.clocks : Conn β → List Clock
  | .opening _ _ selected cached =>
    (selected.map Prod.fst).toList ++ (cached.map Messages.lastClock).toList
  | .rechecking _ _ c => [c]
  | .ready _ _ c => [c]
  | .subscribed _ _ c _ _ => [c]
  | _ => []

/-- The clocks that a process has read or is storing under. -/
def Actor.clocks : Actor β → List Clock
  | .worker (.precheck _ cached _) => (cached.map Messages.lastClock).toList
  | .worker (.fetching _ g) =>
    (g.selected.map RetrievedAssets.lastClock).toList ++ (g.cached.map Messages.lastClock).toList
  | .worker (.storing _ d _ _) => [d.lastClock]
  | .persist (.storing t _ _) => [t]
  | .conn c => c.clocks
  | _ => []

/-- The log is a record of the stream and of the row clocks. -/
structure Hub.Recorded (room : Room) (s : Hub β) : Prop where
  log : LogOk s.log
  live : (s.live room).Sublist s.log
  rows : ∀ row ∈ s.rows, Known s.log row.t

/-- The hub and every process know only clocks of the log. -/
structure RecordedOk (room : Room) (x : SiteState β) : Prop where
  hub : x.1.hub.Recorded room
  clocks : ∀ i, ∀ c ∈ (x.2 i).clocks, Known x.1.hub.log c

theorem recordedOk_idle {x : SiteState β} (hidle : ∀ i, (x.2 i).Idle)
    (h : x.1.hub.Recorded room) : RecordedOk room x := by
  refine ⟨h, fun i => ?_⟩
  have hi := hidle i
  cases ha : x.2 i with
  | deletion d => exact fun c hc => absurd hc List.not_mem_nil
  | restore r => exact fun c hc => absurd hc List.not_mem_nil
  | _ p =>
    rw [ha] at hi
    obtain rfl : p = .idle := hi
    exact fun c hc => absurd hc List.not_mem_nil

/-- A redis command that adds nothing to the stream of the room. -/
def Removes (room : Room) (x : Site β) (now : Nat) (o : Op β) : Prop :=
  (RedisStream.entriesOf ((o.exec now x.hub.redis).live room)).Sublist (x.hub.live room)

/-- An id that redis gives after all the others. -/
def AboveLog (s : Hub β) (id : StreamId) : Prop := ∀ e ∈ s.log, e.id < id

/-! ### The step lemmas -/

section Steps

variable {s s' : Hub β}

namespace Hub.Recorded

theorem known_lastClockOf (h : s.Recorded room) {sort : ClockSort} (hsort : SortSpec sort)
    {rows : List (Row β)} (hrows : rows.Perm s.rows) : Known s.log (lastClockOf sort rows) := by
  by_cases hne : rows = []
  · subst hne
    rw [lastClock_nil hsort]
    exact .zero
  · obtain ⟨row, hrow, e⟩ := lastClock_mem hsort hne
    rw [← e]
    exact h.rows row (hrows.mem_iff.mp hrow)

theorem known_getMessages (h : s.Recorded room) :
    Known s.log (getMessages (s.redis.live room)).lastClock := by
  unfold getMessages
  simp only
  cases hlast : (xread .zero (s.redis.live room)).getLast? with
  | none => exact .zero
  | some e =>
    have he : e ∈ s.live room := List.mem_of_mem_filter (List.mem_of_getLast? hlast)
    exact .of_mem (h.live.subset he)

/-- The whole stream is read. -/
theorem messages_getMessages (h : s.Recorded room) :
    (getMessages (s.redis.live room)).messages = messagesOf (s.live room) := by
  have hall : xread .zero (s.redis.live room) = s.live room :=
    List.filter_eq_self.mpr fun e he => decide_eq_true (h.log.pos e (h.live.subset he))
  unfold getMessages
  rw [hall]

/-- Entries leave the stream, and the rows are still known. -/
theorem of_live (h : s.Recorded room) (hlog : s'.log = s.log)
    (hlive : (s'.live room).Sublist (s.live room)) (hrows : ∀ row ∈ s'.rows, Known s.log row.t) :
    s'.Recorded room where
  log := by rw [hlog]; exact h.log
  live := by rw [hlog]; exact hlive.trans h.live
  rows := by rw [hlog]; exact hrows

end Hub.Recorded

/-- What a step leaves: a record, a longer log, and no entry of the log back on the stream. -/
structure Hub.Records (room : Room) (s s' : Hub β) : Prop where
  hub : s'.Recorded room
  log : s.log <+: s'.log
  live : ∀ e ∈ s.log, e ∈ s'.live room → e ∈ s.live room

namespace Hub.Records

theorem of_live (h : s.Recorded room) (hlog : s'.log = s.log)
    (hlive : (s'.live room).Sublist (s.live room)) (hrows : ∀ row ∈ s'.rows, Known s.log row.t) :
    s.Records room s' where
  hub := h.of_live hlog hlive hrows
  log := by rw [hlog]
  live _ _ he := hlive.subset he

/-- A step that leaves the stream alone. -/
theorem of_rows (h : s.Recorded room) (hlog : s'.log = s.log) (hredis : s'.redis = s.redis)
    (hrows : ∀ row ∈ s'.rows, Known s.log row.t) : s.Records room s' :=
  of_live h hlog (by unfold Hub.live; rw [hredis]) hrows

theorem refl (h : s.Recorded room) : s.Records room s := of_rows h rfl rfl h.rows

theorem addMessage (h : s.Recorded room) {now : Nat}
    (hid : AboveLog s (RedisStream.nextId now (s.redis.live room))) (m : Message β) :
    s.Records room (s.addMessage room now m) := by
  have hlive : (s.addMessage room now m).live room =
      s.live room ++ [⟨RedisStream.nextId now (s.redis.live room), .m m⟩] :=
    addMessage_entries now room s.redis m
  refine ⟨⟨h.log.xadd hid, ?_, fun row hrow => (h.rows row hrow).mono (List.prefix_append _ _)⟩,
    List.prefix_append _ _, fun e he hmem => ?_⟩
  · rw [hlive]
    exact h.live.append (List.Sublist.refl _)
  · rw [hlive] at hmem
    rcases List.mem_append.mp hmem with hmem | hmem
    · exact hmem
    · rw [List.mem_singleton.mp hmem] at he
      exact absurd (hid _ he) (lt_irrefl _)

theorem insert (h : s.Recorded room) {row : Row β} (ht : Known s.log row.t) :
    s.Records room { s with rows := insertRow s.tombstone row s.rows } := by
  refine of_rows h rfl rfl fun row' hrow' => ?_
  rcases mem_insertRow hrow' with hrow' | rfl
  · exact h.rows row' hrow'
  · exact ht

theorem delete (h : s.Recorded room) (refs : List (Reference β)) :
    s.Records room { s with rows := YHub.deleteReferences room refs s.rows } :=
  of_rows h rfl rfl fun row hrow => h.rows row (List.mem_of_mem_filter hrow)

theorem trim (h : s.Recorded room) (now : Nat) (minId : List Char) (maxAgeMs : JsNumber)
    (task : StreamId) : s.Records room { s with
      redis := (trimMessages now room minId maxAgeMs (some task) s.redis).1 } := by
  refine of_live h rfl ?_ h.rows
  show (RedisStream.entriesOf
    ((trimMessages now room minId maxAgeMs (some task) s.redis).1.live room)).Sublist _
  rw [trimMessages_live]
  exact (trimStream_suffix ..).sublist

theorem clear (h : s.Recorded room) :
    s.Records room { s with redis := clearMessages room s.redis } := by
  refine of_live h rfl ?_ h.rows
  show (RedisStream.entriesOf ((clearMessages room s.redis).live room)).Sublist _
  rw [clearMessages_live, RedisStream.entriesOf_map_xtrimAll]
  exact List.nil_sublist _

theorem deleteQuarantineStreams (h : s.Recorded room) (qids : List String) :
    s.Records room { s with redis := YHub.deleteQuarantineStreams room qids s.redis } := by
  refine of_live h rfl ?_ h.rows
  have hlive : (YHub.deleteQuarantineStreams room qids s.redis).live room = s.redis.live room := by
    simp [Redis.live, deleteQuarantineStreams_keys]
  unfold Hub.live
  rw [hlive]

/-- The steps of the world. -/
theorem world {ops : Nat → Op β → Prop}
    {grants : Site β → AuthInfo → Option AccessType → Prop} {x x' : Site β}
    (hops : ∀ now o, ops now o → Removes room x now o) (hs : x.hub.Recorded room)
    (h : SiteWorld room ops grants x x') : x.hub.Records room x'.hub := by
  cases h with
  | addMessage now m hm hid => exact addMessage hs hid m
  | op now o ho => exact of_live hs rfl (hops now o ho) hs.rows
  | removeObject before after o htimers => exact of_rows hs rfl rfl hs.rows
  | access user accessType hgr => exact refl hs

/-- What a step does, whatever clock the process stores under. -/
theorem worker (hs : s.Recorded room) {p p' : Proc β}
    (ha : ∀ c ∈ (Actor.worker p).clocks, Known s.log c) (h : WorkerStep C room s p s' p') :
    s.Records room s' := by
  cases h with
  | insert task d c assets => exact insert hs (ha _ (List.mem_singleton.mpr rfl))
  | delete task d refs trimmed hrefs => exact delete hs refs
  | trimAfter task d deleted now => exact trim hs now _ _ task
  | trim task minId maxAgeMs now => exact trim hs now _ _ task
  | _ => exact of_rows hs rfl rfl hs.rows

theorem persist (hs : s.Recorded room) {p p' : PersistCall β}
    (ha : ∀ c ∈ (Actor.persist p).clocks, Known s.log c) (h : PersistCallStep C room s p s' p') :
    s.Records room s' := by
  cases h with
  | insert t c assets => exact insert hs (ha _ (List.mem_singleton.mpr rfl))
  | _ => exact of_rows hs rfl rfl hs.rows

theorem deletion {ids : Hub β → StreamId → Prop} (hids : ∀ s id, ids s id → AboveLog s id)
    (hs : s.Recorded room) {d d' : Deletion β} (h : DeletionStep C room ids s d s' d') :
    s.Records room s' := by
  cases h with
  | addMessage hard t cleared uncached now hid => exact addMessage hs (hids _ _ hid) _
  | clear hard t uncached => exact clear hs
  | delete hard p refs hl hscheduled hd => exact delete hs refs
  | deleteQuarantineStreams hard p qids => exact deleteQuarantineStreams hs qids
  | _ => exact of_rows hs rfl rfl hs.rows

theorem actor {ids : Hub β → StreamId → Prop} (hids : ∀ s id, ids s id → AboveLog s id)
    {x x' : Site β} {a a' : Actor β} (hs : x.hub.Recorded room)
    (ha : ∀ c ∈ a.clocks, Known x.hub.log c) (h : ActorStep C room ids x a x' a') :
    x.hub.Records room x'.hub := by
  cases h with
  | worker p p' s' h => exact worker hs ha h
  | persist p p' s' h => exact persist hs ha h
  | deletion d d' s' h => exact deletion hids hs h
  | restore x' r r' h =>
    cases h with
    | deleteTombstone t => exact of_rows hs rfl rfl hs.rows
    | _ => exact refl hs
  | conn c c' h => exact refl hs

end Hub.Records

/-! ### What a process knows after its step -/

theorem clocks_worker (hsort : SortSpec C.sort) (hs : s.Recorded room) {p p' : Proc β}
    (ha : ∀ c ∈ (Actor.worker p).clocks, Known s.log c) (h : WorkerStep C room s p s' p') :
    ∀ c ∈ (Actor.worker p').clocks, Known s.log c := by
  intro c hc
  cases h with
  | precheckStream task persisted =>
    obtain rfl := List.mem_singleton.mp hc
    exact hs.known_getMessages
  | precheckClock task cached rows hrows => exact ha c hc
  | proceed task cached persisted tombstone hn => exact ha c hc
  | fetch task g g' hr =>
    cases hr with
    | select rows hrows hsel =>
      rcases List.mem_append.mp hc with hc | hc
      · obtain rfl := List.mem_singleton.mp hc
        exact hs.known_lastClockOf hsort hrows
      · exact ha c (List.mem_append_right _ hc)
    | xread hcached hreads => exact hreads.elim
    | retrieve before after id r htodo => exact ha c hc
  | merged task g d content hd ho hcontent =>
    obtain ⟨cached, ra, hcached, hra, -, rfl⟩ := hd
    obtain rfl := List.mem_singleton.mp hc
    refine (ha ra.lastClock ?_).max (ha cached.lastClock ?_)
    · simp [Actor.clocks, hra]
    · simp [Actor.clocks, hcached]
  | put task d content assets col hcol => exact ha c hc
  | _ => exact absurd hc List.not_mem_nil

theorem clocks_persist {p p' : PersistCall β}
    (ha : ∀ c ∈ (Actor.persist p).clocks, Known s.log c) (h : PersistCallStep C room s p s' p') :
    ∀ c ∈ (Actor.persist p').clocks, Known s.log c := by
  intro c hc
  cases h with
  | getTime ms ydoc by_ =>
    obtain rfl := List.mem_singleton.mp hc
    exact .persist ms
  | put t content assets col hcol => exact ha c hc
  | _ => exact absurd hc List.not_mem_nil

theorem clocks_conn (hsort : SortSpec C.sort) {x : Site β} (hs : x.hub.Recorded room)
    {c c' : Conn β} (ha : ∀ clk ∈ c.clocks, Known x.hub.log clk) (h : ConnStep C room x c c') :
    ∀ clk ∈ c'.clocks, Known x.hub.log clk := by
  intro clk hclk
  cases h with
  | upgrade user => split at hclk <;> exact absurd hclk List.not_mem_nil
  | select user write cached rows hrows =>
    rcases List.mem_append.mp hclk with hclk | hclk
    · obtain rfl := List.mem_singleton.mp hclk
      exact hs.known_lastClockOf hsort hrows
    · exact ha clk (List.mem_append_right _ hclk)
  | xread user write selected =>
    rcases List.mem_append.mp hclk with hclk | hclk
    · exact ha clk (List.mem_append_left _ hclk)
    · obtain rfl := List.mem_singleton.mp hclk
      exact hs.known_getMessages
  | loaded user write persisted cached =>
    have hmax : Known x.hub.log (persisted.max cached.lastClock) :=
      (ha _ (List.mem_append_left _ (List.mem_singleton.mpr rfl))).max
        (ha _ (List.mem_append_right _ (List.mem_singleton.mpr rfl)))
    split at hclk
    · rwa [List.mem_singleton.mp hclk]
    · rwa [List.mem_singleton.mp hclk]
  | recheckAuth user write lastClock =>
    split at hclk
    · exact ha clk hclk
    · exact absurd hclk List.not_mem_nil
  | subscribe user write lastClock => exact ha clk hclk
  | receive user write lastReceivedClock pending since before entries after e hlive hbefore hne =>
    have he : e ∈ x.hub.log := by
      refine hs.live.subset ?_
      rw [hlive]
      simp
    unfold onStreamMessage at hclk
    split at hclk
    · exact absurd hclk List.not_mem_nil
    · rw [List.mem_singleton.mp hclk]
      exact .of_mem he
  | recheckPending user write lastReceivedClock since =>
    split at hclk
    · exact ha clk hclk
    · exact absurd hclk List.not_mem_nil
  | _ => exact absurd hclk List.not_mem_nil

theorem clocks_actor (hsort : SortSpec C.sort) {ids : Hub β → StreamId → Prop} {x x' : Site β}
    {a a' : Actor β} (hs : x.hub.Recorded room) (ha : ∀ c ∈ a.clocks, Known x.hub.log c)
    (h : ActorStep C room ids x a x' a') : ∀ c ∈ a'.clocks, Known x.hub.log c := by
  cases h with
  | worker p p' s' h => exact clocks_worker hsort hs ha h
  | persist p p' s' h => exact clocks_persist ha h
  | conn c c' h => exact clocks_conn hsort hs ha h
  | _ => exact fun c hc => absurd hc List.not_mem_nil

end Steps

/-! ### Runs -/

/-- The rules of a run whose log is a record. -/
structure Rules.Records (room : Room) (R : Rules β) : Prop where
  ids : ∀ s id, R.ids s id → AboveLog s id
  ops : ∀ x now o, R.ops x now o → Removes room x.1 now o

variable {R : Rules β} {x₀ x y : SiteState β}

theorem records_step (hR : R.Records room) (h : RecordedOk room x) (hs : SiteStep C room R x y) :
    x.1.hub.Records room y.1.hub := by
  cases hs with
  | env S ls S' hw => exact .world (hR.ops (S, ls)) h.hub hw
  | proc S ls i S' a hs hg => exact .actor hR.ids h.hub (h.clocks i) hs

theorem recordedOk_step (hsort : SortSpec C.sort) (hR : R.Records room) (h : RecordedOk room x)
    (hs : SiteStep C room R x y) : RecordedOk room y := by
  have hrecords := records_step hR h hs
  refine ⟨hrecords.hub, ?_⟩
  cases hs with
  | env S ls S' hw => exact fun i c hc => (h.clocks i c hc).mono hrecords.log
  | proc S ls i S' a hs hg =>
    intro j c hc
    by_cases hj : j = i
    · subst hj
      simp only [Function.update_self] at hc
      exact (clocks_actor hsort h.hub (h.clocks j) hs c hc).mono hrecords.log
    · simp only [Function.update_of_ne hj] at hc
      exact (h.clocks j c hc).mono hrecords.log

/-- The run lemma. -/
theorem recordedOk_of_run (hsort : SortSpec C.sort) (hR : R.Records room)
    (h₀ : RecordedOk room x₀) (hx : SiteRun C room R x₀ x) : RecordedOk room x := by
  induction hx with
  | refl => exact h₀
  | tail _ hs ih => exact recordedOk_step hsort hR ih hs

/-! ## A message that is added while a connection opens -/

/-- The clocks that the connection starts from, as far as it has read them. Nothing it has read yet
counts before it has read the stream, nor when it has found a tombstone. -/
def Conn.starts : Conn β → List Clock
  | .opening _ _ _ none => []
  | .opening _ _ (some (_, some _)) _ => []
  | c => c.clocks

/-- The connection starts below `m`. -/
def Conn.Below (m : StreamId) (c : Conn β) : Prop :=
  ∀ clk ∈ c.starts, clk.isSmaller (.id m) = true

theorem Conn.starts_subset (c : Conn β) : ∀ clk ∈ c.starts, clk ∈ c.clocks := by
  intro clk hclk
  cases c with
  | opening user write selected cached =>
    cases cached with
    | none => exact absurd hclk List.not_mem_nil
    | some cached =>
      cases selected with
      | none => exact hclk
      | some p =>
        obtain ⟨p, t⟩ := p
        cases t with
        | none => exact hclk
        | some t => exact absurd hclk List.not_mem_nil
  | _ => exact hclk

/-- A connection that holds no clock of `unsafePersistDoc` of the same or a later millisecond starts
below a message that is added now. -/
theorem Conn.below_of_added {log : List (Entry (Message β))} {c : Conn β} {m : StreamId}
    (hc : ∀ clk ∈ c.clocks, Known log clk) (hm : ∀ e ∈ log, e.id < m) (hpos : StreamId.zero < m)
    (hpersist : ∀ ms, Clock.persist ms ∈ c.starts → ms < m.ms) : c.Below m := by
  intro clk hclk
  refine (hc clk (c.starts_subset clk hclk)).isSmaller hm hpos fun ms hms => ?_
  subst hms
  exact Clock.persist_isSmaller_iff.mpr (hpersist ms hclk)

/-- A batch either ends before an entry that the subscriber has still to receive, or holds it. -/
theorem lt_or_received {live before entries after : List (Entry (Message β))}
    {e : Entry (Message β)} {c : Clock} {m : StreamId} {msg : Message β}
    (hsorted : Sorted Entry.id live) (hlive : live = before ++ (entries ++ [e]) ++ after)
    (hbefore : ∀ b ∈ before, c.isSmaller (.id b.id) = false) (hm : ⟨m, .m msg⟩ ∈ live)
    (hc : c.isSmaller (.id m) = true) : e.id < m ∨
      msg ∈ ((messagesOf (entries ++ [e])).filter (c.isSmaller <| .id ·.1)).map Prod.snd := by
  rw [hlive] at hm
  rcases List.mem_append.mp hm with hm | hm
  · rcases List.mem_append.mp hm with hm | hm
    · exact absurd hc (by simp [hbefore _ hm])
    · refine Or.inr (List.mem_map.mpr ⟨(m, msg), List.mem_filter.mpr ⟨?_, hc⟩, rfl⟩)
      exact mem_messagesOf.mpr hm
  · refine Or.inl ?_
    rw [hlive] at hsorted
    exact (List.pairwise_append.mp hsorted).2.2 e (by simp) _ hm

/-- A message that closes the connection takes effect. -/
theorem onStreamMessage_closes {user : AuthInfo} {msgs : List (Message β)} {msg : Message β}
    {code : Nat} (hmsg : msg ∈ msgs) (hcloses : msg.closes user = some code) (write : Bool)
    (c : Clock) (pending : Bool) (since : Nat) :
    ∃ code, onStreamMessage user write c pending since msgs = .closed (some code) := by
  rcases onStreamMessage_cases user write c pending since msgs with ⟨-, -, code, -, e⟩ | ⟨hnone, -⟩
  · exact ⟨code, e⟩
  · exact absurd (hcloses.symm.trans (hnone msg hmsg)) (by simp)

/-- A run in which the entry `⟨m, msg⟩` is added, and what holds of a connection as long as it is on
the stream. -/
theorem holds_while_live (hsort : SortSpec C.sort) (hR : R.Records room) {m : StreamId}
    {msg : Message β} {P : SiteState β → Prop} (h₀ : RecordedOk room x₀)
    (hm : ⟨m, .m msg⟩ ∈ x₀.1.hub.log) (hP : P x₀)
    (hstep : ∀ x y, RecordedOk room x → ⟨m, .m msg⟩ ∈ x.1.hub.live room → P x →
      SiteStep C room R x y → P y)
    (hx : SiteRun C room R x₀ x) (hlive : ⟨m, .m msg⟩ ∈ x.1.hub.live room) : P x := by
  have hall : RecordedOk room x ∧ ⟨m, .m msg⟩ ∈ x.1.hub.log ∧
      (⟨m, .m msg⟩ ∈ x.1.hub.live room → P x) := by
    clear hlive
    induction hx with
    | refl => exact ⟨h₀, hm, fun _ => hP⟩
    | tail _ hs ih =>
      obtain ⟨hok, hlog, hP⟩ := ih
      have hrecords := records_step hR hok hs
      refine ⟨recordedOk_step hsort hR hok hs, hrecords.log.subset hlog, fun hlive => ?_⟩
      have hbefore := hrecords.live _ hlog hlive
      exact hstep _ _ hok hbefore (hP hbefore) hs
  exact hall.2.2 hlive

/-! ## Deletions -/

/-- The connection will find the tombstone in the database, or its message on the stream. -/
def Conn.Notices (m : StreamId) : Conn β → Prop
  | .opening _ _ none _ => True
  | c => c.Below m

/-- No `XREAD` of connection `i` is made any more if its `SELECT` found no tombstone. -/
def NoLateRead (i : Nat) (x : SiteState β) (k : Nat) (a : Actor β) : Prop :=
  k = i → ∀ user write p, x.2 i = .conn (.opening user write (some (p, none)) none) →
    ∀ cached, a ≠ .conn (.opening user write (some (p, none)) (some cached))

/-- The runs up to a deletion's message. -/
def Rules.recorded (room : Room) : Rules β := { ids := AboveLog, ops := fun x => Removes room x.1 }

/-- The runs after it. -/
def Rules.deleted (room : Room) (i : Nat) : Rules β :=
  { ids := AboveLog
    ops := fun x => Removes room x.1
    guard := fun x k a => Drops (fun _ => False) x k a ∧ NoLateRead i x k a }

theorem Rules.records_recorded : (Rules.recorded (β := β) room).Records room :=
  ⟨fun _ _ h => h, fun _ _ _ h => h⟩

theorem Rules.records_deleted (i : Nat) : (Rules.deleted (β := β) room i).Records room :=
  ⟨fun _ _ h => h, fun _ _ _ h => h⟩

/-- The step of the connection. -/
theorem Conn.Notices.step {m : StreamId} {x : Site β} {c c' : Conn β} (h : c.Notices m)
    (hrec : x.hub.Recorded room) (htomb : x.hub.tombstone.isSome = true)
    (hlive : ⟨m, .m .tombstone⟩ ∈ x.hub.live room) (hs : ConnStep C room x c c')
    (hread : ∀ user write p, c = .opening user write (some (p, none)) none →
      ∀ cached, c' ≠ .opening user write (some (p, none)) (some cached)) : c'.Notices m := by
  have nothing : ∀ {q : Conn β}, q.starts = [] → q.Below m := by
    intro q hq clk hclk
    rw [hq] at hclk
    exact absurd hclk List.not_mem_nil
  cases hs with
  | upgrade user => split <;> exact nothing rfl
  | opened user write => trivial
  | select user write cached rows hrows =>
    obtain ⟨t, ht⟩ := Option.isSome_iff_exists.mp htomb
    rw [ht]
    cases cached <;> exact nothing rfl
  | xread user write selected =>
    cases selected with
    | none => trivial
    | some p =>
      obtain ⟨p, t⟩ := p
      cases t with
      | none => exact (hread user write p rfl _ rfl).elim
      | some t => exact nothing rfl
  | docDeleted user write persisted t cached => exact nothing rfl
  | loaded user write persisted cached =>
    have hmax : (persisted.max cached.lastClock).isSmaller (.id m) = true :=
      Clock.max_isSmaller (h _ List.mem_cons_self)
        (h _ (List.mem_cons_of_mem _ (List.mem_singleton.mpr rfl)))
    split
    · intro clk hclk
      rwa [List.mem_singleton.mp hclk]
    · intro clk hclk
      rwa [List.mem_singleton.mp hclk]
  | recheckAuth user write lastClock =>
    split
    · exact h
    · exact nothing rfl
  | subscribe user write lastClock => exact h
  | receive user write lastReceivedClock pending since before entries after e hentries hbefore
      hne =>
    have hc : lastReceivedClock.isSmaller (.id m) = true := h _ (List.mem_singleton.mpr rfl)
    rcases lt_or_received (hrec.log.sorted.sublist hrec.live) hentries hbefore hlive hc with
      hlt | hmem
    · rcases onStreamMessage_cases user write (.id e.id) pending since _ with
        ⟨-, -, code, -, e'⟩ | ⟨-, e'⟩
      · rw [e']
        exact nothing rfl
      · rw [e']
        intro clk hclk
        rw [List.mem_singleton.mp hclk]
        exact (Clock.isSmaller_iff_lt rfl rfl).mpr hlt
    · obtain ⟨code, hclosed⟩ := onStreamMessage_closes hmem rfl write (.id e.id) pending since
      rw [hclosed]
      exact nothing rfl
  | recheckPending user write lastReceivedClock since =>
    split
    · exact h
    · exact nothing rfl
  | closeWithError code hcode => exact nothing rfl
  | disconnect => exact nothing rfl

/-- The tombstone and what connection `i` has read. -/
def DeletionNoticed (m : StreamId) (i : Nat) (x : SiteState β) : Prop :=
  x.1.hub.tombstone.isSome = true ∧ ∀ c, x.2 i = .conn c → c.Notices m

theorem DeletionNoticed.step {m : StreamId} {i : Nat} (hx : RecordedOk room x)
    (hlive : ⟨m, .m .tombstone⟩ ∈ x.1.hub.live room) (h : DeletionNoticed m i x)
    (hs : SiteStep C room (.deleted room i) x y) : DeletionNoticed m i y := by
  obtain ⟨htomb, hnotices⟩ := h
  obtain ⟨t, ht⟩ := Option.isSome_iff_exists.mp htomb
  cases hs with
  | env S ls S' hw =>
    obtain ⟨t', ht', -⟩ := (Hub.After.world hw).tombstone t ht
    exact ⟨Option.isSome_iff_exists.mpr ⟨t', ht'⟩, hnotices⟩
  | proc S ls k S' a hs hg =>
    obtain ⟨t', ht', -⟩ := (Hub.After.actor hs hg.1).tombstone t ht
    refine ⟨Option.isSome_iff_exists.mpr ⟨t', ht'⟩, fun c hc => ?_⟩
    rcases Interleave.update_cases hc with ⟨rfl, rfl⟩ | ⟨-, hc⟩
    · generalize ha : ls i = a at hs
      cases hs with
      | conn c₀ c' hs =>
        refine (hnotices c₀ ha).step hx.hub htomb hlive hs fun user write p hp cached hc => ?_
        exact hg.2 rfl user write p (by rw [← hp]; exact ha) cached (by rw [hc])
    · exact hnotices c hc

/-- **A deletion is noticed**: after it has added its message, under the tombstone it has committed,
a connection that is subscribed has still to receive the message, as long as that is on the stream.
When the message is added the connection starts from no clock of `unsafePersistDoc` of the same or a
later millisecond, and afterwards it makes no `XREAD` after a `SELECT` that found no tombstone. -/
theorem deletion_noticed (hsort : SortSpec C.sort) {x₀ x z : SiteState β}
    (hidle : ∀ i, (x₀.2 i).Idle) (h₀ : x₀.1.hub.Recorded room)
    (hx : SiteRun C room (.recorded room) x₀ x) {i j : Nat} {hard cleared uncached : Bool}
    {t : Tombstone} (hj : x.2 j = .deletion (.committed hard t cleared none uncached))
    (htomb : x.1.hub.tombstone.isSome = true) {m : StreamId} {s : Hub β}
    (hadd : DeletionStep C room AboveLog x.1.hub (.committed hard t cleared none uncached) s
      (.committed hard t cleared (some m) uncached))
    (hpersist : ∀ c ms, x.2 i = .conn c → Clock.persist ms ∈ c.starts → ms < m.ms)
    (hz : SiteRun C room (.deleted room i) ({ x.1 with hub := s }, Function.update x.2 j
      (.deletion (.committed hard t cleared (some m) uncached))) z)
    (hlive : ⟨m, .m .tombstone⟩ ∈ z.1.hub.live room) {user : AuthInfo} {write : Bool} {c : Clock}
    {pending : Bool} {since : Nat}
    (hi : z.2 i = .conn (.subscribed user write c pending since)) :
    c.isSmaller (.id m) = true := by
  have hok := recordedOk_of_run hsort Rules.records_recorded (recordedOk_idle hidle h₀) hx
  have hy : RecordedOk room ({ x.1 with hub := s }, Function.update x.2 j
      (.deletion (.committed hard t cleared (some m) uncached))) := by
    refine recordedOk_step hsort Rules.records_recorded hok
      (Interleave.Guarded.proc x.1 x.2 j _ _ ?_ trivial)
    rw [hj]
    exact ActorStep.deletion x.1 _ _ s hadd
  obtain ⟨hm, hpos, hlog, hs⟩ : AboveLog x.1.hub m ∧ StreamId.zero < m ∧
      ⟨m, .m .tombstone⟩ ∈ s.log ∧ s.tombstone = x.1.hub.tombstone := by
    cases hadd with
    | addMessage _ _ _ _ now hid =>
      exact ⟨hid, RedisStream.zero_lt_nextId .., List.mem_append_right _
        (List.mem_singleton.mpr rfl), rfl⟩
  have hnotices : DeletionNoticed m i ({ x.1 with hub := s }, Function.update x.2 j
      (.deletion (.committed hard t cleared (some m) uncached))) := by
    refine ⟨by rwa [hs], fun c hc => ?_⟩
    have hij : i ≠ j := by
      rintro rfl
      simp only [Function.update_self] at hc
      exact absurd hc (by simp)
    simp only [Function.update_of_ne hij] at hc
    have hbelow := Conn.below_of_added (c := c) (fun clk hclk => hok.clocks i clk (by rwa [hc])) hm
      hpos (hpersist c · hc)
    cases c with
    | opening user write selected cached =>
      cases selected with
      | none => trivial
      | some p => exact hbelow
    | _ => exact hbelow
  have hnoticed := holds_while_live hsort (Rules.records_deleted i) hy hlog hnotices
    (fun x y hx hlive h hs => h.step hx hlive hs) hz hlive
  exact hnoticed.2 _ hi c (List.mem_singleton.mpr rfl)

/-! ### A deletion while a connection opens -/

/-- A deletion and a connection that have not begun. -/
def opening : Nat → Actor RefPayload
  | 0 => .deletion .idle
  | 1 => .conn .idle
  | _ => .worker .idle

theorem opening_idle (i : Nat) : (opening i).Idle := by
  unfold opening
  split <;> rfl

theorem oneUpdate_recorded : oneUpdate.Recorded Room.a where
  log := ⟨List.pairwise_singleton _ _, by decide⟩
  live := List.Sublist.refl _
  rows row hrow := absurd hrow List.not_mem_nil

/-- Redis ids that are given later are above the log. -/
theorem oneUpdate_aboveLog {now : Nat} (h : 1000 < now) (s' : Hub RefPayload)
    (hlog : s'.log = oneUpdate.log) :
    AboveLog s' (RedisStream.nextId now (s'.redis.live Room.a)) := by
  intro e he
  rw [hlog] at he
  obtain rfl := List.mem_singleton.mp he
  exact Or.inl (h.trans_le (StreamId.le_ms_next _ _))

/-- The runs in which the room is not restored. -/
def Rules.unrestored (room : Room) : Rules β :=
  { ids := AboveLog, ops := fun x => Removes room x.1, guard := Drops fun _ => False }

/-- A connection that has made both reads. -/
def halfOpened : Conn RefPayload :=
  .opening ⟨"user1", []⟩ true (some (.zero, none))
    (some (getMessages (oneUpdate.redis.live Room.a)))

/-- The room with a tombstone. -/
def softlyDeleted : Hub RefPayload :=
  { oneUpdate with tombstone := some ⟨Room.a, 200000, false, none, none⟩ }

/-- A connection has made both reads when the room is deleted, and subscribes after that. -/
theorem deletion_noticed_of_run : ∃ y z : SiteState RefPayload,
    SiteRun (.ref []) Room.a (.deleted Room.a 1) y z ∧ y.2 1 = .conn halfOpened ∧
      z.2 1 = .conn (.subscribed ⟨"user1", []⟩ true (.id ⟨1000, 0⟩) false 0) ∧
      ⟨⟨200000, 0⟩, .m .tombstone⟩ ∈ z.1.hub.live Room.a ∧
      (Clock.id ⟨1000, 0⟩).isSmaller (.id ⟨200000, 0⟩) = true := by
  have hread : ConnAlone (.ref []) Room.a (Site.open oneUpdate) .idle halfOpened :=
    (selected_alone rfl).tail (ConnStep.xread _ _ _)
  have h₁ : SiteRun (.ref []) Room.a (.recorded Room.a) (Site.open oneUpdate, opening) _ :=
    SiteRun.conn (i := 1) (fun _ _ => trivial) hread rfl
  have h₂ : SiteRun (.ref []) Room.a (.recorded Room.a) (Site.open oneUpdate, opening)
      ({ Site.open oneUpdate with hub := softlyDeleted }, _) :=
    (h₁.step (i := 0) (ActorStep.deletion _ _ _ _
      (DeletionStep.getTime oneUpdate false none 200000)) trivial).step (i := 0)
      (ActorStep.deletion _ _ _ _ (DeletionStep.commit oneUpdate false none 200000)) trivial
  have hadd : DeletionStep (.ref []) Room.a AboveLog softlyDeleted
      (.committed false ⟨Room.a, 200000, false, none, none⟩ true none false)
      (softlyDeleted.addMessage Room.a 200000 .tombstone)
      (.committed false ⟨Room.a, 200000, false, none, none⟩ true (some ⟨200000, 0⟩) false) :=
    DeletionStep.addMessage _ _ _ _ _ 200000 (oneUpdate_aboveLog (by decide) _ rfl)
  have h₃ : SiteRun (.ref []) Room.a (.deleted Room.a 1)
      ({ Site.open oneUpdate with hub := softlyDeleted.addMessage Room.a 200000 .tombstone },
        Function.update (Function.update (Function.update (Function.update opening 1
          (.conn halfOpened)) 0 (.deletion (.timed false none 200000))) 0
          (.deletion (.committed false ⟨Room.a, 200000, false, none, none⟩ true none false))) 0
          (.deletion (.committed false ⟨Room.a, 200000, false, none, none⟩ true
            (some ⟨200000, 0⟩) false))) _ :=
    Relation.ReflTransGen.refl.tail (Interleave.Guarded.proc _ _ 1 _ _
      (ActorStep.conn _ _ _ (ConnStep.loaded ⟨"user1", []⟩ true .zero _))
      ⟨fun t ht => absurd ht (by simp [halfOpened]),
        fun _ user write p hp => absurd hp (by simp [halfOpened])⟩)
  have hready : ∀ (q : Actor RefPayload), q = .conn (.ready ⟨"user1", []⟩ true (.id ⟨1000, 0⟩)) →
      (∀ r, q ≠ .restore (.dropping r)) ∧
        ∀ user write p, q ≠ .conn (.opening user write (some (p, none)) none) := by
    rintro q rfl
    exact ⟨fun r => by simp, fun user write p => by simp⟩
  have h₄ := h₃.step (i := 1) (ActorStep.conn _ _ _ (ConnStep.subscribe ⟨"user1", []⟩ true
    (.id ⟨1000, 0⟩))) ⟨fun t ht => absurd ht ((hready _ rfl).1 t),
      fun _ user write p hp => absurd hp ((hready _ rfl).2 user write p)⟩
  have hstarts : ∀ c ms, Actor.conn halfOpened = .conn c → Clock.persist ms ∈ c.starts →
      ms < 200000 := by
    intro c ms hc hms
    obtain rfl := Actor.conn.inj hc
    have hms : Clock.persist ms ∈ [Clock.zero, .id ⟨1000, 0⟩] := hms
    exact absurd hms (by simp [Clock.zero])
  exact ⟨_, _, h₄, rfl, rfl, by decide, deletion_noticed insertionSort_spec opening_idle
    oneUpdate_recorded h₂ (i := 1) (j := 0) rfl rfl hadd hstarts h₄ (by decide) rfl⟩

/-- **A deletion is not noticed**: the connection makes its `SELECT` before the tombstone is
committed and its `XREAD` after the message was added. -/
theorem deletion_unnoticed : ¬ ∀ x₀ x : SiteState RefPayload, (∀ i, (x₀.2 i).Idle) →
    x₀.1.hub.Recorded Room.a → SiteRun (.ref []) Room.a (.unrestored Room.a) x₀ x →
    ∀ i j hard t user write c pending since, x.2 j = .deletion (.returned hard t) →
      x.2 i = .conn (.subscribed user write c pending since) →
      ∀ e ∈ x.1.hub.live Room.a, e.message? = some .tombstone → c.isSmaller (.id e.id) = true := by
  intro hclaim
  have hselected : ConnAlone (.ref []) Room.a (Site.open oneUpdate) .idle
      (.opening ⟨"user1", []⟩ true (some _) none) := selected_alone rfl
  have h₁ : SiteRun (.ref []) Room.a (.unrestored Room.a) (Site.open oneUpdate, opening) _ :=
    SiteRun.conn (i := 1) (fun c c' t ht => absurd ht (by simp)) hselected rfl
  obtain ⟨t, h₂⟩ := h₁.deleteDoc (i := 0) rfl
    (fun x d d' hd t ht => absurd (hd.symm.trans ht) (by simp)) false none 200000 200000 0
    (oneUpdate_aboveLog (by decide))
  have h₃ := h₂.trans (SiteRun.conn (i := 1)
    (fun c c' t ht => absurd ht (by simp)) (subscribed_alone (by decide)) rfl)
  have hlive : ⟨⟨200000, 0⟩, .m .tombstone⟩ ∈
      (oneUpdate.deleteDoc (.ref []) Room.a false none 200000 200000 0).live Room.a := by decide
  have hbelow := hclaim _ _ opening_idle oneUpdate_recorded h₃ 1 0 false t _ _ _ _ _ rfl rfl _
    hlive rfl
  exact absurd hbelow (by decide)

end YHub
