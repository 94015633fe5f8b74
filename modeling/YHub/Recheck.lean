import YHub.OpenHandler

/-!
# Re-checks of a connection that opens (`server.js:212-222`, `server.js:401-441`)

`recheckAuth` adds an `auth:check:v1` to the stream after access was revoked. A connection acts on
it at one of three places: its upgrade is refused; its `open` handler has read the message and
re-checks; or it is subscribed and receives the message.

* `recheck_noticed`: it does, in every run in which the connection, when it has read the stream
  before the message was added, selects no row with a clock that is not below the message
  (`SelectsOld`).
* `recheck_missed`: otherwise it need not. The row stems from a later update that was compacted in
  between.
-/

namespace YHub

variable {β : Type} {C : Conf β} {room : Room}

open SortedLog

/-- The connection will re-check, or has still to receive the message. -/
def Conn.Rechecks (user : AuthInfo) (users : Option (List AuthMatcher)) (forceDisconnect : Bool)
    (k : StreamId) : Conn β → Prop
  | .opening u write selected (some cached) => u = user →
    (k, .authCheck users forceDisconnect) ∈ cached.messages ∨
      (Conn.opening u write selected (some cached)).Below k
  | .ready u _ c => u = user → c.isSmaller (.id k) = true
  | .subscribed u _ c pending _ => u = user → c.isSmaller (.id k) = true ∨ pending = true
  | _ => True

/-- When connection `i` makes its `SELECT` and has read the stream without the message, every row is
below it. -/
def SelectsOld (i : Nat) (k : StreamId) (m : Message β) (x : SiteState β) (n : Nat)
    (a : Actor β) : Prop :=
  n = i → ∀ user write cached p, x.2 i = .conn (.opening user write none (some cached)) →
    a = .conn (.opening user write (some p) (some cached)) → (k, m) ∉ cached.messages →
    ∀ row ∈ x.1.hub.rows, row.t.isSmaller (.id k) = true

/-- The runs after the access of `user` was revoked and the message added: nobody gives access
back. -/
def Rules.revoked (room : Room) (user : AuthInfo) (i : Nat) (k : StreamId) (m : Message β) :
    Rules β :=
  { ids := AboveLog
    ops := fun x => Removes room x.1
    grants := fun _ u accessType => u = user → accessType = none
    guard := SelectsOld i k m }

theorem Rules.records_revoked (user : AuthInfo) (i : Nat) (k : StreamId) (m : Message β) :
    (Rules.revoked room user i k m).Records room :=
  ⟨fun _ _ h => h, fun _ _ _ h => h⟩

variable {user : AuthInfo} {users : Option (List AuthMatcher)} {forceDisconnect : Bool}
  {k : StreamId}

/-- A message of the stream is among those that are read. -/
theorem Hub.Recorded.mem_getMessages {s : Hub β} (h : s.Recorded room) {m : Message β}
    (hm : ⟨k, .m m⟩ ∈ s.live room) : (k, m) ∈ (getMessages (s.redis.live room)).messages := by
  rw [h.messages_getMessages]
  exact mem_messagesOf.mpr hm

/-- The `auth:check:v1` asks for a re-check. -/
theorem any_authChecksIn {messages : List (StreamId × Message β)}
    (hm : (k, .authCheck users forceDisconnect) ∈ messages)
    (hconcerns : concerns users user = true) :
    ((authChecksIn messages).any fun m => concerns m.1 user) = true :=
  List.any_eq_true.mpr ⟨(users, forceDisconnect), List.mem_filterMap.mpr ⟨_, hm, rfl⟩, hconcerns⟩

theorem isSmaller_lastClockOf {sort : ClockSort} (hsort : SortSpec sort) {rows : List (Row β)}
    (hpos : StreamId.zero < k) (hrows : ∀ row ∈ rows, row.t.isSmaller (.id k) = true) :
    (lastClockOf sort rows).isSmaller (.id k) = true := by
  by_cases hne : rows = []
  · subst hne
    rw [lastClock_nil hsort]
    exact (Clock.isSmaller_iff_lt rfl rfl).mpr hpos
  · obtain ⟨row, hrow, e⟩ := lastClock_mem hsort hne
    rw [← e]
    exact hrows row hrow

/-- Nobody stays connected without access. -/
theorem ne_of_staysConnected {x : Site β} {u : AuthInfo} {write : Bool}
    (haccess : x.access user = none) (h : staysConnected write (x.access u) = true) : u ≠ user := by
  rintro rfl
  rw [haccess] at h
  exact absurd h (by simp [staysConnected, hasReadAccess])

/-- The `SELECT` of a connection that has read the stream. -/
theorem Conn.Rechecks.select {sort : ClockSort} (hsort : SortSpec sort) {u : AuthInfo}
    {write : Bool} {cached : Messages (Message β)} {rows : List (Row β)}
    (h : (Conn.opening u write none (some cached)).Rechecks user users forceDisconnect k)
    (hpos : StreamId.zero < k) (t : Option Tombstone)
    (hrows : (k, .authCheck users forceDisconnect) ∉ cached.messages →
      ∀ row ∈ rows, row.t.isSmaller (.id k) = true) :
    (Conn.opening u write (some (lastClockOf sort rows, t)) (some cached)).Rechecks user users
      forceDisconnect k := by
  intro hu
  by_cases hmem : (k, .authCheck users forceDisconnect) ∈ cached.messages
  · exact Or.inl hmem
  · have hbelow := (h hu).resolve_left hmem
    refine Or.inr fun clk hclk => ?_
    cases t with
    | some t => exact absurd hclk List.not_mem_nil
    | none =>
      rcases List.mem_cons.mp hclk with rfl | hclk
      · exact isSmaller_lastClockOf hsort hpos (hrows hmem)
      · exact hbelow clk hclk

/-- The entries of the stream that a connection receives. -/
theorem Conn.Rechecks.receive {u : AuthInfo} {write pending : Bool} {c : Clock} {since : Nat}
    {live before entries after : List (Entry (Message β))} {e : Entry (Message β)}
    (h : (Conn.subscribed u write c pending since : Conn β).Rechecks user users forceDisconnect k)
    (hsorted : Sorted Entry.id live) (hconcerns : concerns users user = true)
    (hlive : ⟨k, .m (.authCheck users forceDisconnect)⟩ ∈ live)
    (hentries : live = before ++ (entries ++ [e]) ++ after)
    (hbefore : ∀ b ∈ before, c.isSmaller (.id b.id) = false) :
    (onStreamMessage u write (.id e.id) pending since (((messagesOf (entries ++ [e])).filter
      (c.isSmaller <| .id ·.1)).map Prod.snd)).Rechecks user users forceDisconnect k := by
  rcases onStreamMessage_cases u write (.id e.id) pending since _ with
    ⟨-, -, code, -, e'⟩ | ⟨hnone, e'⟩
  · rw [e']
    trivial
  · rw [e']
    rintro rfl
    rcases h rfl with hc | rfl
    · rcases lt_or_received hsorted hentries hbefore hlive hc with hlt | hmem
      · exact Or.inl ((Clock.isSmaller_iff_lt rfl rfl).mpr hlt)
      · -- the message is in the batch, and has not closed the connection
        cases forceDisconnect with
        | true => exact absurd (hnone _ hmem) (by simp [Message.closes, hconcerns])
        | false =>
          have hrechecks : (Message.authCheck users false : Message β).rechecks u = true := by
            simp [Message.rechecks, hconcerns]
          exact Or.inr (by rw [List.any_eq_true.mpr ⟨_, hmem, hrechecks⟩, Bool.or_true])
    · -- a re-check is under way, and stays so
      exact Or.inr (Bool.true_or _)

/-- The step of the connection. -/
theorem Conn.Rechecks.step (hsort : SortSpec C.sort) {x : Site β} {c c' : Conn β}
    (h : c.Rechecks user users forceDisconnect k) (hrec : x.hub.Recorded room)
    (hpos : StreamId.zero < k) (haccess : x.access user = none)
    (hconcerns : concerns users user = true)
    (hlive : ⟨k, .m (.authCheck users forceDisconnect)⟩ ∈ x.hub.live room)
    (hs : ConnStep C room x c c')
    (hselect : ∀ u write cached p, c = .opening u write none (some cached) →
      c' = .opening u write (some p) (some cached) →
      (k, .authCheck users forceDisconnect) ∉ cached.messages →
      ∀ row ∈ x.hub.rows, row.t.isSmaller (.id k) = true) :
    c'.Rechecks user users forceDisconnect k := by
  cases hs with
  | upgrade u => split <;> trivial
  | opened u write => trivial
  | select u write cached rows hrows =>
    cases cached with
    | none => trivial
    | some cached =>
      exact h.select hsort hpos x.hub.tombstone fun hmem row hrow =>
        hselect u write cached _ rfl rfl hmem row (hrows.mem_iff.mp hrow)
  | xread u write selected => exact fun _ => Or.inl (hrec.mem_getMessages hlive)
  | docDeleted u write persisted t cached => trivial
  | loaded u write persisted cached =>
    cases hany : (authChecksIn cached.messages).any fun m => concerns m.1 u with
    | true => trivial
    | false =>
      intro hu
      subst hu
      rcases h rfl with hmem | hbelow
      · exact absurd (any_authChecksIn hmem hconcerns) (by simp [hany])
      · exact Clock.max_isSmaller (hbelow _ List.mem_cons_self)
          (hbelow _ (List.mem_cons_of_mem _ (List.mem_singleton.mpr rfl)))
  | recheckAuth u write lastClock =>
    cases hstays : staysConnected write (x.access u) with
    | false => trivial
    | true => exact fun hu => absurd hu (ne_of_staysConnected haccess hstays)
  | subscribe u write lastClock => exact fun hu => Or.inl (h hu)
  | receive u write lastReceivedClock pending since before entries after e hentries hbefore hne =>
    exact h.receive (hrec.log.sorted.sublist hrec.live) hconcerns hlive hentries hbefore
  | recheckPending u write lastReceivedClock since =>
    cases hstays : staysConnected write (x.access u) with
    | false => trivial
    | true => exact fun hu => absurd hu (ne_of_staysConnected haccess hstays)
  | closeWithError code hcode => trivial
  | disconnect => trivial

/-- No process gives access. -/
theorem ActorStep.access {ids : Hub β → StreamId → Prop} {x x' : Site β} {a a' : Actor β}
    (h : ActorStep C room ids x a x' a') : x'.access = x.access := by
  cases h with
  | restore x' r r' h => cases h <;> rfl
  | _ => rfl

/-- The access of the user, and what connection `i` has read. -/
def RecheckNoticed (user : AuthInfo) (users : Option (List AuthMatcher)) (forceDisconnect : Bool)
    (k : StreamId) (i : Nat) (x : SiteState β) : Prop :=
  x.1.access user = none ∧ ∀ c, x.2 i = .conn c → c.Rechecks user users forceDisconnect k

theorem RecheckNoticed.step (hsort : SortSpec C.sort) {i : Nat} {x y : SiteState β}
    (hx : RecordedOk room x) (hpos : StreamId.zero < k) (hconcerns : concerns users user = true)
    (hlive : ⟨k, .m (.authCheck users forceDisconnect)⟩ ∈ x.1.hub.live room)
    (h : RecheckNoticed user users forceDisconnect k i x)
    (hs : SiteStep C room (.revoked room user i k (.authCheck users forceDisconnect)) x y) :
    RecheckNoticed user users forceDisconnect k i y := by
  obtain ⟨haccess, hrechecks⟩ := h
  cases hs with
  | env S ls S' hw =>
    cases hw with
    | access u accessType hgrant =>
      refine ⟨?_, hrechecks⟩
      show Function.update S.access u accessType user = none
      by_cases hu : user = u
      · subst hu
        rw [Function.update_self]
        exact hgrant rfl
      · rwa [Function.update_of_ne hu]
    | _ => exact ⟨haccess, hrechecks⟩
  | proc S ls n S' a hs hg =>
    refine ⟨by rw [hs.access]; exact haccess, fun c hc => ?_⟩
    rcases Interleave.update_cases hc with ⟨rfl, rfl⟩ | ⟨-, hc⟩
    · generalize ha : ls i = a at hs
      cases hs with
      | conn c₀ c' hs =>
        refine (hrechecks c₀ ha).step hsort hx.hub hpos haccess hconcerns hlive hs
          fun u write cached p hp hc hmem => ?_
        exact hg rfl u write cached p (by rw [← hp]; exact ha) (by rw [hc]) hmem
    · exact hrechecks c hc

/-- **A re-check is noticed**: after the access of a user was revoked and an `auth:check:v1` added
that concerns them, a connection of theirs that subscribes has still to receive it, and once it has,
it re-checks, as long as the message is on the stream. When the message is added the connection
starts from no clock of `unsafePersistDoc` of the same or a later millisecond; afterwards it selects
no row that is not below the message, if it has read the stream without the message. -/
theorem recheck_noticed (hsort : SortSpec C.sort) {x₀ x z : SiteState β}
    (hidle : ∀ i, (x₀.2 i).Idle) (h₀ : x₀.1.hub.Recorded room)
    (hx : SiteRun C room (.recorded room) x₀ x) {i now : Nat} (hrevoked : x.1.access user = none)
    (hconcerns : concerns users user = true)
    (hk : RedisStream.nextId now (x.1.hub.redis.live room) = k) (hid : AboveLog x.1.hub k)
    (hpersist : ∀ c ms, x.2 i = .conn c → Clock.persist ms ∈ c.starts → ms < k.ms)
    (hz : SiteRun C room (.revoked room user i k (.authCheck users forceDisconnect))
      ({ x.1 with hub := x.1.hub.addMessage room now (.authCheck users forceDisconnect) }, x.2) z)
    (hlive : ⟨k, .m (.authCheck users forceDisconnect)⟩ ∈ z.1.hub.live room) :
    (∀ write c, z.2 i = .conn (.ready user write c) → c.isSmaller (.id k) = true) ∧
      ∀ write c pending since, z.2 i = .conn (.subscribed user write c pending since) →
        c.isSmaller (.id k) = true ∨ pending = true := by
  subst hk
  have hok := recordedOk_of_run hsort Rules.records_recorded (recordedOk_idle hidle h₀) hx
  have hpos := RedisStream.zero_lt_nextId now (x.1.hub.redis.live room)
  have hy : RecordedOk room
      ({ x.1 with hub := x.1.hub.addMessage room now (.authCheck users forceDisconnect) }, x.2) :=
    recordedOk_step hsort Rules.records_recorded hok
      (Interleave.Guarded.env x.1 x.2 _ (SiteWorld.addMessage x.1 now _ (by simp) hid))
  have hlog : ⟨RedisStream.nextId now (x.1.hub.redis.live room),
      .m (.authCheck users forceDisconnect)⟩ ∈
        (x.1.hub.addMessage room now (.authCheck users forceDisconnect)).log :=
    List.mem_append_right _ (List.mem_singleton.mpr rfl)
  have hstart : RecheckNoticed user users forceDisconnect
      (RedisStream.nextId now (x.1.hub.redis.live room)) i
      ({ x.1 with hub := x.1.hub.addMessage room now (.authCheck users forceDisconnect) },
        x.2) := by
    refine ⟨hrevoked, fun c hc => ?_⟩
    have hbelow := Conn.below_of_added (c := c) (fun clk hclk => hok.clocks i clk (by rwa [hc])) hid
      hpos (hpersist c · hc)
    cases c with
    | opening u write selected cached =>
      cases cached with
      | none => trivial
      | some cached => exact fun _ => Or.inr hbelow
    | ready u write c => exact fun _ => hbelow c (List.mem_singleton.mpr rfl)
    | subscribed u write c pending since =>
      exact fun _ => Or.inl (hbelow c (List.mem_singleton.mpr rfl))
    | _ => trivial
  have hnoticed := holds_while_live hsort (Rules.records_revoked user i _ _) hy hlog hstart
    (fun x y hx hlive h hs => h.step hsort hx hpos hconcerns hlive hs) hz hlive
  exact ⟨fun write c hi => hnoticed.2 _ hi rfl,
    fun write c pending since hi => hnoticed.2 _ hi rfl⟩

/-! ## A row that is stored meanwhile -/

/-- The user of a connection that has read the stream. -/
def revokedUser : AuthInfo := ⟨"user1", []⟩

/-- A re-check of everybody. -/
def recheckAll : Message RefPayload := .authCheck none false

/-- A connection that has read the stream, and not the rows, when access is revoked. -/
def halfOpen : SiteState RefPayload :=
  ({ Site.open oneUpdate with access := Function.update (fun _ => some .rw) revokedUser none },
    Function.update opening 1 (.conn (.opening revokedUser true none
      (some (getMessages (oneUpdate.redis.live Room.a))))))

theorem halfOpen_run :
    SiteRun (.ref []) Room.a (.recorded Room.a) (Site.open oneUpdate, opening) halfOpen := by
  have hup : ConnStep (.ref []) Room.a (Site.open oneUpdate) .idle (.upgraded revokedUser true) :=
    ConnStep.upgrade revokedUser
  have hconn : ConnAlone (.ref []) Room.a (Site.open oneUpdate) .idle
      (.opening revokedUser true none (some (getMessages (oneUpdate.redis.live Room.a)))) :=
    ((Relation.ReflTransGen.single hup).tail (ConnStep.opened revokedUser true)).tail
      (ConnStep.xread revokedUser true none)
  have h₁ : SiteRun (.ref []) Room.a (.recorded Room.a) (Site.open oneUpdate, opening) _ :=
    SiteRun.conn (i := 1) (fun _ _ => trivial) hconn rfl
  exact h₁.tail (Interleave.Guarded.env _ _ _ (SiteWorld.access _ revokedUser none trivial))

/-- The connection makes its `SELECT` after the re-check; nothing is stored meanwhile. -/
theorem recheck_noticed_of_run : ∃ z : SiteState RefPayload,
    SiteRun (.ref []) Room.a (.revoked Room.a revokedUser 1 ⟨200000, 0⟩ recheckAll)
      ({ halfOpen.1 with hub := halfOpen.1.hub.addMessage Room.a 200000 recheckAll },
        halfOpen.2) z ∧
      z.2 1 = .conn (.ready revokedUser true (.id ⟨1000, 0⟩)) ∧
      (Clock.id ⟨1000, 0⟩).isSmaller (.id ⟨200000, 0⟩) = true := by
  have hrow : ∀ x : SiteState RefPayload, x.1.hub.rows = [] →
      ∀ row ∈ x.1.hub.rows, row.t.isSmaller (.id ⟨200000, 0⟩) = true := by
    intro x hx row hrow
    rw [hx] at hrow
    exact absurd hrow List.not_mem_nil
  have h₁ : SiteRun (.ref []) Room.a (.revoked Room.a revokedUser 1 ⟨200000, 0⟩ recheckAll)
      ({ halfOpen.1 with hub := halfOpen.1.hub.addMessage Room.a 200000 recheckAll },
        halfOpen.2) _ :=
    Relation.ReflTransGen.refl.tail (Interleave.Guarded.proc _ _ 1 _ _
      (ActorStep.conn _ _ _ (ConnStep.select revokedUser true _ [] (List.Perm.refl _)))
      fun _ _ _ _ _ _ _ _ => hrow _ rfl)
  have h₂ := h₁.step (i := 1) (ActorStep.conn _ _ _ (ConnStep.loaded revokedUser true _ _))
    fun _ _ _ _ _ hp => absurd hp (by simp)
  have hrevoked : halfOpen.1.access revokedUser = none := rfl
  have hk : RedisStream.nextId 200000 (halfOpen.1.hub.redis.live Room.a) = ⟨200000, 0⟩ := rfl
  have hlive : ⟨⟨200000, 0⟩, .m recheckAll⟩ ∈
      (halfOpen.1.hub.addMessage Room.a 200000 recheckAll).live Room.a := by decide
  have hid : AboveLog oneUpdate (RedisStream.nextId 200000 (oneUpdate.redis.live Room.a)) :=
    oneUpdate_aboveLog (by decide) _ rfl
  refine ⟨_, h₂, rfl, (recheck_noticed insertionSort_spec opening_idle oneUpdate_recorded
    halfOpen_run hrevoked rfl hk hid (fun c ms hc hms => ?_) h₂ hlive).1 true _ rfl⟩
  obtain rfl := Actor.conn.inj hc
  have hms : Clock.persist ms ∈ [Clock.id ⟨1000, 0⟩] := hms
  exact absurd (List.mem_singleton.mp hms) (by simp)

/-- The runs in which nobody gives the user access. -/
def Rules.ungranted (room : Room) (user : AuthInfo) : Rules β :=
  { ids := AboveLog
    ops := fun x => Removes room x.1
    grants := fun _ u accessType => u = user → accessType = none }

/-- The room after the re-check and one more update. -/
def rechecked : Hub RefPayload :=
  (oneUpdate.addMessage Room.a 200000 recheckAll).addMessage Room.a 210000 (insertion 8 "user2")

/-- **A re-check is missed**: the later update is compacted before the connection makes its
`SELECT`, and the row is past the message, which the connection has not read. -/
theorem recheck_missed : ¬ ∀ (x₀ x z : SiteState RefPayload) user users forceDisconnect k now i,
    (∀ i, (x₀.2 i).Idle) → x₀.1.hub.Recorded Room.a →
    SiteRun (.ref []) Room.a (.recorded Room.a) x₀ x → x.1.access user = none →
    concerns users user = true → RedisStream.nextId now (x.1.hub.redis.live Room.a) = k →
    AboveLog x.1.hub k →
    SiteRun (.ref []) Room.a (.ungranted Room.a user)
      ({ x.1 with hub := x.1.hub.addMessage Room.a now (.authCheck users forceDisconnect) },
        x.2) z →
    ⟨k, .m (.authCheck users forceDisconnect)⟩ ∈ z.1.hub.live Room.a →
    ∀ write c, z.2 i = .conn (.ready user write c) → c.isSmaller (.id k) = true := by
  intro hclaim
  have hid : AboveLog oneUpdate (RedisStream.nextId 200000 (oneUpdate.redis.live Room.a)) :=
    oneUpdate_aboveLog (by decide) _ rfl
  have h₁ : SiteRun (.ref []) Room.a (.ungranted Room.a revokedUser)
      ({ halfOpen.1 with hub := oneUpdate.addMessage Room.a 200000 recheckAll }, halfOpen.2)
      ({ halfOpen.1 with hub := rechecked }, halfOpen.2) :=
    Relation.ReflTransGen.refl.tail (Interleave.Guarded.env _ _ _
      (SiteWorld.addMessage _ 210000 (insertion 8 "user2") (by simp [insertion]) (by decide)))
  have h₂ := h₁.trans (SiteRun.alone .worker (i := 2)
    (fun S p s' p' hs => ActorStep.worker S p p' s' hs) (fun _ _ _ _ => trivial)
    (runTask_alone 220000 ⟨1000, 0⟩) rfl)
  have h₃ := SiteRun.step h₂ (i := 1) (ActorStep.conn _ _ _
    (ConnStep.select revokedUser true _ _ (List.Perm.refl _))) trivial
  have h₄ := h₃.step (i := 1) (ActorStep.conn _ _ _
    (ConnStep.loaded revokedUser true _ _)) trivial
  have hlive : ⟨⟨200000, 0⟩, .m recheckAll⟩ ∈
      (rechecked.runTask (.ref []) Room.a 220000 ⟨1000, 0⟩).live Room.a := by decide +kernel
  have hbelow := hclaim _ _ _ revokedUser none false ⟨200000, 0⟩ 200000 1 opening_idle
    oneUpdate_recorded halfOpen_run rfl rfl rfl hid h₄ hlive true _ rfl
  exact absurd hbelow (by decide)

end YHub
