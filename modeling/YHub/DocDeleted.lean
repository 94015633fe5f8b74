import YHub.HardDeletion

/-!
# What the close code 4404 says (`server.js:187-227`, `stream.js:502-524`, `index.js:377-411`)

A connection is closed with `wsCloseDocDeleted` when it receives an `ydoc:tombstone:v1`, whatever
has become of the tombstone. The entry outlives a restoration: `deleteDoc` adds it after its commit,
`quarantine` puts it aside, and `unquarantine` adds it once more with a new id.

* `truthful_of_run`: a tombstone entry that a connection has still to receive, one that has
  subscribed since the last restoration, stands for a tombstone, in every run in which no such entry
  is added to the stream of a restored room ahead of a connection, and no connection subscribes
  behind one (`Rules.truthful`).
* `closed_only_if_deleted`: so such a connection is closed with 4404 only while there is a
  tombstone.
* `closed_though_restored`: it is not, in general. The stream of a deleted room is quarantined, the
  room is restored, a client connects, and the stream is re-injected.
-/

namespace YHub

variable {β : Type} {C : Conf β} {room : Room}

open SortedLog

/-! ## Ids on a stream -/

/-- What redis keeps of a stream: its ids increase, up to the last one. -/
def RedisStream.Ordered {μ : Type} (s : Option (RedisStream μ)) : Prop :=
  Sorted Entry.id (entriesOf s) ∧ ∀ e ∈ entriesOf s, e.id ≤ (s.getD empty).lastId

namespace RedisStream.Ordered

variable {μ : Type} {s : Option (RedisStream μ)}

theorem none : Ordered (Option.none : Option (RedisStream μ)) :=
  ⟨List.Pairwise.nil, fun _ he => absurd he List.not_mem_nil⟩

theorem xadd (h : Ordered s) (now : Nat) (f : Field μ) :
    Ordered (some (RedisStream.xadd now f s)) := by
  have hlt : ∀ e ∈ entriesOf s, e.id < nextId now s :=
    fun e he => (h.2 e he).trans_lt (StreamId.lt_next now _)
  refine ⟨?_, fun e he => ?_⟩
  · rw [entriesOf_xadd]
    refine List.pairwise_append.mpr ⟨h.1, List.pairwise_singleton _ _, fun e he e' he' => ?_⟩
    rw [List.mem_singleton.mp he']
    exact hlt e he
  · rw [entriesOf_xadd] at he
    rcases List.mem_append.mp he with he | he
    · exact (hlt e he).le
    · rw [List.mem_singleton.mp he]
      exact le_refl _

/-- Entries leave the stream, or the key is deleted. -/
theorem trimStream (h : Ordered s) (now : Nat) (minId : List Char) (maxAgeMs : JsNumber)
    (acked : Bool) : Ordered (YHub.trimStream now minId maxAgeMs acked s) := by
  rcases trimStream_cases now minId maxAgeMs acked s with e | ⟨b, e⟩
  · rwa [e]
  · rw [e]
    cases s with
    | none => exact none
    | some s =>
      simp only [trimKey]
      split
      · exact none
      · have hsub : (s.xtrimMinId b).entries.Sublist s.entries := List.dropWhile_sublist _
        exact ⟨h.1.sublist hsub, fun e he => h.2 e (hsub.subset he)⟩

theorem xtrimAll (s : Option (RedisStream μ)) : Ordered (s.map RedisStream.xtrimAll) := by
  cases s <;> exact ⟨List.Pairwise.nil, fun e he => absurd he List.not_mem_nil⟩

end RedisStream.Ordered

section Live

variable {now : Nat} {r : Redis (Message β)}

theorem ordered_addMessage (h : RedisStream.Ordered (r.live room)) (m : Message β) :
    RedisStream.Ordered ((addMessage now room m r).live room) := by
  rw [addMessage_live]
  exact h.xadd now (.m m)

theorem ordered_addMessages (h : RedisStream.Ordered (r.live room)) (ms : List (Message β)) :
    RedisStream.Ordered ((ms.foldl (fun r m => addMessage now room m r) r).live room) := by
  induction ms generalizing r with
  | nil => exact h
  | cons m ms ih => exact ih (ordered_addMessage h m)

/-- Every command keeps the ids of a live stream in order. -/
theorem ordered_exec (h : RedisStream.Ordered (r.live room)) (o : Op β) :
    RedisStream.Ordered ((o.exec now r).live room) := by
  by_cases hroom : room = o.room
  · cases o with
    | addMessage room' m =>
      obtain rfl : room = room' := hroom
      exact ordered_addMessage h m
    | trimMessages room' minId maxAgeMs taskid =>
      obtain rfl : room = room' := hroom
      cases taskid with
      | none => exact h
      | some id =>
        simp only [Op.exec, trimMessages_live]
        exact h.trimStream now minId maxAgeMs _
    | disableCompaction room' => exact h
    | enableCompaction room' =>
      simp only [Op.exec, YHub.enableCompaction]
      split <;> exact h
    | clearMessages room' =>
      obtain rfl : room = room' := hroom
      simp only [Op.exec, clearMessages_live]
      exact RedisStream.Ordered.xtrimAll _
    | quarantine room' qid =>
      obtain rfl : room = room' := hroom
      simp only [Op.exec, quarantineMulti_live]
      exact RedisStream.Ordered.none.xadd now .nop
    | quarantineCleanup room' =>
      obtain rfl : room = room' := hroom
      simp only [Op.exec, quarantineCleanup_live]
      exact RedisStream.Ordered.none
    | unquarantine room' qid entries =>
      obtain rfl : room = room' := hroom
      simp only [Op.exec, unquarantineMulti_live]
      exact ordered_addMessages h _
    | deleteQuarantineStreams room' qids =>
      simpa [Op.exec, Redis.live, deleteQuarantineStreams_keys] using h
  · rwa [Op.exec_live_of_ne hroom]

end Live

/-! ## Tombstone entries ahead of a connection -/

/-- The connection has subscribed since the room was last restored. -/
def Site.Fresh (x : Site β) (c : Conn β) (clock : Clock) : Prop :=
  ∃ user write pending, c = .subscribed user write clock pending x.restored

/-- There is a tombstone, or no connection that has subscribed since has still to receive `id`. -/
def Announces (x : SiteState β) (id : StreamId) : Prop :=
  x.1.hub.tombstone.isSome = true ∨
    ∀ i c clock, x.2 i = .conn c → x.1.Fresh c clock → clock.isSmaller (.id id) = false

/-- A tombstone entry that comes onto the stream through a command announces a tombstone. -/
def Reinjects (room : Room) (x : SiteState β) (now : Nat) (o : Op β) : Prop :=
  ∀ e ∈ RedisStream.entriesOf ((o.exec now x.1.hub.redis).live room),
    e.message? = some .tombstone → e ∈ x.1.hub.live room ∨ Announces x e.id

/-- So does the one that a deletion adds, and one that is ahead of a connection that subscribes. -/
structure Truthful (room : Room) (x : SiteState β) (i : Nat) (a : Actor β) : Prop where
  add : ∀ hard t cleared uncached m, x.2 i = .deletion (.committed hard t cleared none uncached) →
    a = .deletion (.committed hard t cleared (some m) uncached) → Announces x m
  subscribe : ∀ user write clock since, x.2 i = .conn (.ready user write clock) →
    a = .conn (.subscribed user write clock false since) → x.1.hub.tombstone.isSome = true ∨
      ∀ e ∈ x.1.hub.live room, e.message? = some .tombstone → clock.isSmaller (.id e.id) = false

/-- The runs in which no tombstone entry comes to be ahead of a connection to a restored room. -/
def Rules.truthful (room : Room) : Rules β := { ops := Reinjects room, guard := Truthful room }

/-- The invariant. -/
structure TruthfulOk (room : Room) (x : SiteState β) : Prop where
  ordered : RedisStream.Ordered (x.1.hub.redis.live room)
  since : ∀ i user write clock pending since,
    x.2 i = .conn (.subscribed user write clock pending since) → since ≤ x.1.restored
  announces : ∀ e ∈ x.1.hub.live room, e.message? = some .tombstone → Announces x e.id

theorem truthfulOk_idle {x : SiteState β} (hidle : ∀ i, (x.2 i).Idle)
    (h : RedisStream.Ordered (x.1.hub.redis.live room)) : TruthfulOk room x := by
  have hnone : ∀ i c, x.2 i = .conn c → c = .idle := by
    intro i c hc
    have hi := hidle i
    rwa [hc] at hi
  refine ⟨h, fun i user write clock pending since hi => ?_, fun e he hm => Or.inr ?_⟩
  · exact absurd (hnone i _ hi) (by simp)
  · rintro i c clock hc ⟨user, write, pending, rfl⟩
    exact absurd (hnone i _ hc) (by simp)

/-! ### The step lemmas -/

section Steps

variable {S S' : Site β} {ls : Nat → Actor β} {i : Nat} {a : Actor β}

/-- A tombstone entry keeps announcing while the tombstone stays and no connection is new. -/
theorem Announces.mono {x y : SiteState β} {id : StreamId} (h : Announces x id)
    (htomb : x.1.hub.tombstone.isSome = true → y.1.hub.tombstone.isSome = true)
    (hconn : ∀ j c clock, y.2 j = .conn c → y.1.Fresh c clock →
      x.2 j = .conn c ∧ x.1.Fresh c clock) : Announces y id := by
  refine h.imp htomb fun h j c clock hc hf => ?_
  obtain ⟨hc, hf⟩ := hconn j c clock hc hf
  exact h j c clock hc hf

/-- The tombstone stays, or a restoration drops it. -/
theorem Hub.After.isSome {s s' : Hub β} (h : s.After s') (hs : s.tombstone.isSome = true) :
    s'.tombstone.isSome = true := by
  obtain ⟨t, ht⟩ := Option.isSome_iff_exists.mp hs
  obtain ⟨t', ht', -⟩ := h.tombstone t ht
  exact Option.isSome_iff_exists.mpr ⟨t', ht'⟩

/-- A step that neither restores the room nor is one of a connection. -/
theorem TruthfulOk.other (h : TruthfulOk room (S, ls)) (hafter : S.hub.After S'.hub)
    (hrestored : S'.restored = S.restored) (ha : ∀ c, a ≠ .conn c)
    (hordered : RedisStream.Ordered (S'.hub.redis.live room))
    (hadded : ∀ e ∈ S'.hub.live room, e.message? = some .tombstone →
      e ∈ S.hub.live room ∨ Announces (S, ls) e.id) :
    TruthfulOk room (S', Function.update ls i a) := by
  have hconn : ∀ j c, Function.update ls i a j = .conn c → ls j = .conn c := by
    intro j c hc
    rcases Interleave.update_cases hc with ⟨-, hc⟩ | ⟨-, hc⟩
    · exact absurd hc (ha c)
    · exact hc
  refine ⟨hordered, fun j user write clock pending since hj => ?_, fun e he hm => ?_⟩
  · rw [hrestored]
    exact h.since j user write clock pending since (hconn j _ hj)
  · have hannounces : Announces (S, ls) e.id := by
      rcases hadded e he hm with he | hn
      · exact h.announces e he hm
      · exact hn
    refine hannounces.mono hafter.isSome fun j c clock hc hf => ⟨hconn j c hc, ?_⟩
    obtain ⟨user, write, pending, rfl⟩ := hf
    exact ⟨user, write, pending, by rw [hrestored]⟩

/-- A connection that has subscribed since is no further than before, or has just subscribed. -/
theorem Site.Fresh.of_step (hordered : RedisStream.Ordered (S.hub.redis.live room)) {c c' : Conn β}
    {clock : Clock} (hs : ConnStep C room S c c') (hf : S.Fresh c' clock) :
    (∃ clock₀, S.Fresh c clock₀ ∧ ∀ id : StreamId, clock.isSmaller (.id id) = true →
      clock₀.isSmaller (.id id) = true) ∨
    ∃ user write, c = .ready user write clock ∧
      c' = .subscribed user write clock false S.restored := by
  obtain ⟨user, write, pending, rfl⟩ := hf
  rcases hs.subscribed_cases with ⟨rfl, rfl, -⟩ | ⟨clock₀, pending₀, rfl, hclock⟩
  · exact Or.inr ⟨user, write, rfl, rfl⟩
  refine Or.inl ⟨clock₀, ⟨user, write, pending₀, rfl⟩, fun id hid => ?_⟩
  rcases hclock with rfl | ⟨before, entries, after, e, hlive, hne, rfl⟩
  · exact hid
  · -- some entry of the batch is ahead of the old clock, and none is ahead of the new one
    obtain ⟨b, hb⟩ := List.exists_mem_of_ne_nil _ hne
    obtain ⟨hb, hahead⟩ := List.mem_filter.mp hb
    have hb := mem_messagesOf.mp hb
    have hsorted : Sorted Entry.id (entries ++ [e]) := by
      have h := hordered.1
      have hlive : RedisStream.entriesOf (S.hub.redis.live room) =
        before ++ (entries ++ [e]) ++ after := hlive
      rw [hlive] at h
      exact (List.pairwise_append.mp (List.pairwise_append.mp h).1).2.1
    have hle : b.1 ≤ e.id := by
      have h := le_getLast hsorted (by simp) hb
      simpa using h
    have hlt : e.id < id := (Clock.isSmaller_iff_lt rfl rfl).mp hid
    exact Clock.isSmaller_trans hahead ((Clock.isSmaller_iff_lt rfl rfl).mpr (hle.trans_lt hlt))

/-- The restorations that a connection has subscribed after are past ones. -/
theorem since_of_step {c c' : Conn β} {user : AuthInfo} {write pending : Bool} {clock : Clock}
    {since : Nat} (hs : ConnStep C room S c c')
    (hc' : c' = .subscribed user write clock pending since)
    (hc : ∀ user write clock pending since, c = .subscribed user write clock pending since →
      since ≤ S.restored) : since ≤ S.restored := by
  subst hc'
  rcases hs.subscribed_cases with ⟨-, -, rfl⟩ | ⟨clock₀, pending₀, e, -⟩
  · exact le_refl _
  · exact hc user write clock₀ pending₀ since e

theorem TruthfulOk.conn (h : TruthfulOk room (S, ls)) {c c' : Conn β} (hi : ls i = .conn c)
    (hs : ConnStep C room S c c') (hg : Truthful room (S, ls) i (.conn c')) :
    TruthfulOk room (S, Function.update ls i (.conn c')) := by
  refine ⟨h.ordered, fun j user write clock pending since hj => ?_, fun e he hm => ?_⟩
  · rcases Interleave.update_cases hj with ⟨rfl, hc'⟩ | ⟨-, hj⟩
    · exact since_of_step hs (Actor.conn.inj hc') fun user write clock pending since hc =>
        h.since j user write clock pending since (by rw [← hc]; exact hi)
    · exact h.since j user write clock pending since hj
  · by_cases htomb : S.hub.tombstone.isSome = true
    · exact Or.inl htomb
    refine Or.inr fun j c₁ clock hj hf => ?_
    have hbefore := (h.announces e he hm).resolve_left htomb
    rcases Interleave.update_cases hj with ⟨rfl, hc₁⟩ | ⟨-, hj⟩
    · obtain rfl : c' = c₁ := Actor.conn.inj hc₁
      rcases hf.of_step h.ordered hs with ⟨clock₀, hf₀, hle⟩ | ⟨user, write, rfl, hc'⟩
      · by_contra hahead
        have hsmaller := hle e.id (Bool.eq_true_of_not_eq_false hahead)
        rw [hbefore j c clock₀ hi hf₀] at hsmaller
        exact Bool.false_ne_true hsmaller
      · exact (hg.subscribe user write clock _ hi (by rw [hc'])).resolve_left htomb e he hm
    · exact hbefore j c₁ clock hj hf

theorem TruthfulOk.restore (h : TruthfulOk room (S, ls)) {r r' : Restore}
    (hs : RestoreStep S r S' r') : TruthfulOk room (S', Function.update ls i (.restore r')) := by
  cases hs with
  | deleteTombstone t =>
    have hconn : ∀ j c, Function.update ls i (Actor.restore .returned) j = .conn c →
        ls j = .conn c := by
      intro j c hc
      rcases Interleave.update_cases hc with ⟨-, hc⟩ | ⟨-, hc⟩
      · exact absurd hc (by simp)
      · exact hc
    refine ⟨h.ordered, fun j user write clock pending since hj => ?_, fun e he hm => Or.inr ?_⟩
    · exact (h.since j user write clock pending since (hconn j _ hj)).trans (Nat.le_succ _)
    · -- nobody has subscribed since
      rintro j c clock hc ⟨user, write, pending, rfl⟩
      have hle := h.since j user write clock pending (S.restored + 1) (hconn j _ hc)
      exact absurd hle (Nat.not_succ_le_self _)
  | _ => exact h.other (.refl _) rfl (by simp) h.ordered fun e he _ => Or.inl he

theorem TruthfulOk.deletion (h : TruthfulOk room (S, ls)) {ids : Hub β → StreamId → Prop}
    {d d' : Deletion β} {s' : Hub β} (hi : ls i = .deletion d)
    (hs : DeletionStep C room ids S.hub d s' d') (hg : Truthful room (S, ls) i (.deletion d')) :
    TruthfulOk room ({ S with hub := s' }, Function.update ls i (.deletion d')) := by
  have hafter : S.hub.After s' := .deletion hs
  cases hs with
  | addMessage hard t cleared uncached now hid =>
    refine h.other hafter rfl (by simp) (ordered_addMessage h.ordered _) fun e he hm => ?_
    have he :
        e ∈ RedisStream.entriesOf ((addMessage now room .tombstone S.hub.redis).live room) := he
    rw [addMessage_entries] at he
    rcases List.mem_append.mp he with he | he
    · exact Or.inl he
    · rw [List.mem_singleton.mp he]
      exact Or.inr (hg.add hard t cleared uncached _ hi rfl)
  | clear hard t uncached =>
    have hlive : (clearMessages room S.hub.redis).live room =
        (S.hub.redis.live room).map RedisStream.xtrimAll := clearMessages_live ..
    refine h.other hafter rfl (by simp) ?_ fun e he hm => ?_
    · show RedisStream.Ordered ((clearMessages room S.hub.redis).live room)
      rw [hlive]
      exact .xtrimAll _
    · have he : e ∈ RedisStream.entriesOf ((clearMessages room S.hub.redis).live room) := he
      rw [hlive, RedisStream.entriesOf_map_xtrimAll] at he
      exact absurd he List.not_mem_nil
  | deleteQuarantineStreams hard p qids =>
    have hlive : (YHub.deleteQuarantineStreams room qids S.hub.redis).live room =
        S.hub.redis.live room := by
      simp [Redis.live, deleteQuarantineStreams_keys]
    refine h.other hafter rfl (by simp) ?_ fun e he hm => Or.inl ?_
    · show RedisStream.Ordered ((YHub.deleteQuarantineStreams room qids S.hub.redis).live room)
      rw [hlive]
      exact h.ordered
    · have he : e ∈ RedisStream.entriesOf
        ((YHub.deleteQuarantineStreams room qids S.hub.redis).live room) := he
      rwa [hlive] at he
  | _ => exact h.other hafter rfl (by simp) h.ordered fun e he _ => Or.inl he

theorem TruthfulOk.worker (h : TruthfulOk room (S, ls)) {p p' : Proc β} {s' : Hub β}
    (hs : WorkerStep C room S.hub p s' p') :
    TruthfulOk room ({ S with hub := s' }, Function.update ls i (.worker p')) := by
  have hafter : S.hub.After s' := .worker hs
  have htrim : ∀ now minId maxAgeMs task, RedisStream.Ordered ((trimMessages now room minId maxAgeMs
      (some task) S.hub.redis).1.live room) ∧ ∀ e ∈ RedisStream.entriesOf
        ((trimMessages now room minId maxAgeMs (some task) S.hub.redis).1.live room),
          e ∈ S.hub.live room := by
    intro now minId maxAgeMs task
    rw [trimMessages_live]
    exact ⟨h.ordered.trimStream .., fun e he => (trimStream_suffix ..).subset he⟩
  cases hs with
  | trimAfter task d deleted now =>
    exact h.other hafter rfl (by simp) (htrim ..).1 fun e he _ => Or.inl ((htrim ..).2 e he)
  | trim task minId maxAgeMs now =>
    exact h.other hafter rfl (by simp) (htrim ..).1 fun e he _ => Or.inl ((htrim ..).2 e he)
  | _ => exact h.other hafter rfl (by simp) h.ordered fun e he _ => Or.inl he

theorem TruthfulOk.persist (h : TruthfulOk room (S, ls)) {p p' : PersistCall β} {s' : Hub β}
    (hs : PersistCallStep C room S.hub p s' p') :
    TruthfulOk room ({ S with hub := s' }, Function.update ls i (.persist p')) := by
  have hafter : S.hub.After s' := .persist hs
  cases hs <;> exact h.other hafter rfl (by simp) h.ordered fun e he _ => Or.inl he

theorem TruthfulOk.world (h : TruthfulOk room (S, ls))
    {grants : Site β → AuthInfo → Option AccessType → Prop}
    (hw : SiteWorld room (Reinjects room (S, ls)) grants S S') : TruthfulOk room (S', ls) := by
  cases hw with
  | addMessage now m hm hid =>
    refine ⟨ordered_addMessage h.ordered m, h.since, fun e he hem => ?_⟩
    have he : e ∈ RedisStream.entriesOf ((addMessage now room m S.hub.redis).live room) := he
    rw [addMessage_entries] at he
    rcases List.mem_append.mp he with he | he
    · exact h.announces e he hem
    · rw [List.mem_singleton.mp he] at hem
      exact absurd (Option.some.inj hem) hm
  | op now o ho =>
    refine ⟨ordered_exec h.ordered o, h.since, fun e he hem => ?_⟩
    rcases ho e he hem with he | hn
    · exact h.announces e he hem
    · exact hn
  | removeObject before after o htimers => exact ⟨h.ordered, h.since, h.announces⟩
  | access user accessType hgrant => exact ⟨h.ordered, h.since, h.announces⟩

end Steps

/-! ## Runs -/

/-- The run lemma. -/
theorem truthful_of_run {x₀ x : SiteState β} (hidle : ∀ i, (x₀.2 i).Idle)
    (h₀ : RedisStream.Ordered (x₀.1.hub.redis.live room))
    (hx : SiteRun C room (.truthful room) x₀ x) : TruthfulOk room x := by
  refine Interleave.guarded_invariant (P := TruthfulOk room) (truthfulOk_idle hidle h₀) ?_ ?_ hx
  · intro S ls S' ih hw
    exact ih.world hw
  · intro S ls i S' a ih hs hg
    generalize ha : ls i = a₀ at hs
    cases hs with
    | worker p p' s' hs => exact ih.worker hs
    | persist p p' s' hs => exact ih.persist hs
    | deletion d d' s' hs => exact ih.deletion ha hs hg
    | restore S' r r' hs => exact ih.restore hs
    | conn c c' hs => exact ih.conn ha hs hg

/-- Only a tombstone entry closes a connection with 4404. -/
theorem tombstone_of_closes {user : AuthInfo} {m : Message β}
    (h : m.closes user = some wsCloseDocDeleted) : m = .tombstone := by
  cases m with
  | tombstone => rfl
  | authCheck users forceDisconnect =>
    simp only [Message.closes] at h
    split at h
    · exact absurd (Option.some.inj h) (by decide)
    · exact absurd h (by simp)
  | _ => exact absurd h (by simp [Message.closes])

/-- **4404 is truthful**: in every run in which no tombstone entry comes to be ahead of a connection
to a restored room, a connection that has subscribed since the last restoration is closed with
`wsCloseDocDeleted` only while the room has a tombstone. -/
theorem closed_only_if_deleted {x₀ x : SiteState β} (hidle : ∀ i, (x₀.2 i).Idle)
    (h₀ : RedisStream.Ordered (x₀.1.hub.redis.live room))
    (hx : SiteRun C room (.truthful room) x₀ x) {i : Nat} {user : AuthInfo} {write pending : Bool}
    {clock : Clock} (hi : x.2 i = .conn (.subscribed user write clock pending x.1.restored))
    (hs : ConnStep C room x.1 (.subscribed user write clock pending x.1.restored)
      (.closed (some wsCloseDocDeleted))) : x.1.hub.tombstone.isSome = true := by
  have hok := truthful_of_run hidle h₀ hx
  generalize hc' : Conn.closed (some wsCloseDocDeleted) = c' at hs
  cases hs with
  | receive u w lastReceivedClock p since before entries after e hlive hbefore hne =>
    rcases onStreamMessage_cases user write (.id e.id) pending x.1.restored _ with
      ⟨m, hm, code, hcloses, e'⟩ | ⟨-, e'⟩
    · obtain rfl := Option.some.inj (Conn.closed.inj (hc'.trans e'))
      obtain rfl := tombstone_of_closes hcloses
      obtain ⟨⟨id, _⟩, hx, rfl⟩ := List.mem_map.mp hm
      obtain ⟨hmem, hahead⟩ := List.mem_filter.mp hx
      have hmem := mem_messagesOf.mp hmem
      have hmem : ⟨id, .m .tombstone⟩ ∈ x.1.hub.live room := by
        rw [hlive]
        exact List.mem_append_left _ (List.mem_append_right _ hmem)
      rcases hok.announces _ hmem rfl with htomb | hbehind
      · exact htomb
      · have hf := hbehind i _ clock hi ⟨user, write, pending, rfl⟩
        exact absurd hahead (by simp [hf])
    · exact absurd (hc'.trans e') (by simp)
  | recheckPending u w lastReceivedClock since =>
    split at hc'
    · exact absurd hc' (by simp)
    · exact absurd (Option.some.inj (Conn.closed.inj hc')) (by decide)
  | closeWithError c code hcode =>
    obtain rfl := Option.some.inj (Conn.closed.inj hc')
    rcases hcode with h | h <;> exact absurd h (by decide)
  | disconnect => exact absurd (Conn.closed.inj hc') (by simp)

/-! ## A stream that is re-injected -/

/-- A deletion, a connection and a restoration that have not begun. -/
def reopening : Nat → Actor RefPayload
  | 0 => .deletion .idle
  | 1 => .conn .idle
  | 2 => .restore .idle
  | _ => .worker .idle

theorem reopening_idle (i : Nat) : (reopening i).Idle := by
  unfold reopening
  split <;> rfl

theorem oneUpdate_ordered : RedisStream.Ordered (oneUpdate.redis.live Room.a) :=
  RedisStream.Ordered.none.xadd 1000 (.m (insertion 7 "user1"))

/-- A connection is subscribed when the room is deleted. -/
theorem closed_only_if_deleted_of_run :
    (oneUpdate.deleteDoc (.ref []) Room.a false none 200000 200000 0).tombstone.isSome = true := by
  have hconn : ConnAlone (.ref []) Room.a (Site.open oneUpdate) .idle
      (.subscribed ⟨"user1", []⟩ true (.id ⟨1000, 0⟩) false 0) :=
    (selected_alone rfl).trans (subscribed_alone (by decide))
  have hnone : ∀ e ∈ oneUpdate.live Room.a, e.message? ≠ some .tombstone := by decide
  have hg : ∀ c c', Truthful Room.a (Site.open oneUpdate, Function.update reopening 1 (.conn c)) 1
      (.conn c') := fun c c' => ⟨fun _ _ _ _ _ hc => absurd hc (by simp),
    fun _ _ _ _ _ _ => Or.inr fun e he hm => absurd hm (hnone e he)⟩
  have h₁ : SiteRun (.ref []) Room.a (.truthful Room.a) (Site.open oneUpdate, reopening) _ :=
    SiteRun.conn (i := 1) hg hconn rfl
  have h₂ := h₁.step (i := 0) (ActorStep.deletion _ _ _ _
    (DeletionStep.getTime oneUpdate false none 200000))
    ⟨fun _ _ _ _ _ _ hc => absurd hc (by simp), fun _ _ _ _ hc => absurd hc (by simp [reopening])⟩
  have h₃ := h₂.step (i := 0) (ActorStep.deletion _ _ _ _
    (DeletionStep.commit oneUpdate false none 200000))
    ⟨fun _ _ _ _ _ _ hc => absurd hc (by simp), fun _ _ _ _ hc => absurd hc (by simp)⟩
  have h₄ := h₃.step (i := 0) (ActorStep.deletion _ _ _ _
    (DeletionStep.addMessage _ false _ true false 200000 trivial))
    ⟨fun _ _ _ _ _ _ _ => Or.inl rfl, fun _ _ _ _ hc => absurd hc (by simp)⟩
  exact closed_only_if_deleted reopening_idle oneUpdate_ordered h₄ (i := 1) rfl
    (ConnStep.receive _ _ _ _ _ (oneUpdate.live Room.a) [] [] ⟨⟨200000, 0⟩, .m .tombstone⟩ rfl
      (by decide) (by decide))

/-- The deleted room. -/
def deleted : Hub RefPayload := oneUpdate.deleteDoc (.ref []) Room.a false none 200000 200000 0

/-- Its stream is quarantined, and the tombstone dropped. -/
def quarantined : Hub RefPayload :=
  { deleted with
    redis := (Op.quarantine Room.a "q").exec 300000 deleted.redis
    tombstone := none }

/-- The stream is re-injected. -/
def reinjectedHub : Hub RefPayload :=
  { quarantined with
    redis := (Op.unquarantine Room.a "q" (deleted.live Room.a)).exec 400000 quarantined.redis }

/-- **Closed though the room is not deleted**: the connection has subscribed after the restoration,
and receives the tombstone entry that was quarantined before. -/
theorem closed_though_restored : ¬ ∀ x₀ x : SiteState RefPayload, (∀ i, (x₀.2 i).Idle) →
    RedisStream.Ordered (x₀.1.hub.redis.live Room.a) → SiteRun (.ref []) Room.a {} x₀ x →
    ∀ i user write clock pending,
      x.2 i = .conn (.subscribed user write clock pending x.1.restored) →
      ConnStep (.ref []) Room.a x.1 (.subscribed user write clock pending x.1.restored)
        (.closed (some wsCloseDocDeleted)) → x.1.hub.tombstone.isSome = true := by
  intro hclaim
  have h₀ : SiteRun (.ref []) Room.a {} (Site.open oneUpdate, reopening) _ := .refl
  obtain ⟨t, h₁⟩ := h₀.deleteDoc (i := 0) rfl (fun _ _ _ _ => trivial) false none 200000 200000 0
    fun _ _ => trivial
  have h₂ := h₁.tail (Interleave.Guarded.env _ _ _
    (SiteWorld.op _ 300000 (.quarantine Room.a "q") trivial))
  have h₃ := (SiteRun.step h₂ (i := 2)
    (ActorStep.restore _ _ _ _ (RestoreStep.retrieveTombstone _)) trivial).step (i := 2)
    (ActorStep.restore _ _ _ _ (RestoreStep.deleteTombstone _ _)) trivial
  have hconn : ConnAlone (.ref []) Room.a ⟨quarantined, fun _ => some .rw, 1⟩ .idle
      (.subscribed ⟨"user1", []⟩ true (.id ⟨300000, 0⟩) false 1) :=
    (selected_alone rfl).trans (subscribed_alone (by decide))
  have h₄ := h₃.trans (SiteRun.conn (i := 1) (fun _ _ => trivial) hconn rfl)
  have h₅ := h₄.tail (Interleave.Guarded.env _ _ _
    (SiteWorld.op _ 400000 (.unquarantine Room.a "q" (deleted.live Room.a)) trivial))
  have hreceive : ConnStep (.ref []) Room.a ⟨reinjectedHub, fun _ => some .rw, 1⟩
      (.subscribed ⟨"user1", []⟩ true (.id ⟨300000, 0⟩) false 1)
      (.closed (some wsCloseDocDeleted)) :=
    ConnStep.receive _ _ _ _ _ [⟨⟨300000, 0⟩, .nop⟩]
      [⟨⟨400000, 0⟩, .m (insertion 7 "user1")⟩] [] ⟨⟨400000, 1⟩, .m .tombstone⟩ rfl (by decide)
      (by decide)
  have htomb := hclaim _ _ reopening_idle oneUpdate_ordered h₅ 1 _ _ _ _ rfl hreceive
  exact absurd htomb (by simp)

end YHub
