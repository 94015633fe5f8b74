import YHub.Subscription
import YHub.Invariant

/-!
# What the subscribers of a stream are handed (`stream.js:308-402`, `stream.js:598-623`)

The loop `_runSub` with its subscribers. It reads every room from one position, which falls back
when somebody joins with an older clock, and hands a batch to every subscriber of its room, who
keeps the messages after his own clock.

`Subscriptions` is the streams of all rooms, the two maps, the subscribers and where the loop is. A
round of the loop takes over what is waiting and sends its positions (`next`), gets a reply of at
most `COUNT` entries for each of some rooms (`reply`), and hands over one batch after the other
(`Subscriptions.handOver`); it may fail anywhere. In between anything may be added, subscribed and
unsubscribed. A subscriber of `Subscriptions` also keeps what happened to him: the clock he
subscribed with, whether the loop has taken him over, and what was read and handed to him since.

Ids increase strictly. An entry is trimmed only when every subscriber of the room whom it is for has
had a read up to it, and a subscriber comes with a clock after which everything is still there.

* `delivered`: a subscriber has been handed, in order, the messages after the clock he came with up
  to what was read for his room since he was taken over.
* `SubscriptionsOk`: the invariant. The position of a room may be ahead of the clock of a
  subscriber, but then no message is in between (`Upto`).
-/

namespace YHub

variable {β : Type}

open SortedLog

/-! ## Subscribers and batches -/

/-- `COUNT` (`stream.js:381`). -/
def xreadCount : Nat := 5000

/-- A stream of a reply: redis leaves out those without entries. -/
structure Batch (β : Type) where
  room : Room
  entries : List (Entry (Message β))
  last : Entry (Message β)

namespace Batch

variable (m : Batch β)

def all : List (Entry (Message β)) := m.entries ++ [m.last]

def messages : List (StreamId × Message β) := messagesOf m.all

def lastClock : Clock := .id m.last.id

/-- The batch on its own, as a reply. -/
def ids : Room → Option StreamId := fun room => if room = m.room then some m.last.id else none

end Batch

/-- A `StreamSubscriber`, and what happened to him. -/
structure Subscriber (β : Type) where
  room : Room
  lastReceivedClock : Clock
  /-- The clock he subscribed with. -/
  since : Clock
  /-- The loop has taken him over. -/
  merged : Bool
  /-- The last ids of the batches of his room since then. -/
  reads : List StreamId
  /-- What `onStreamMessage` was called with. -/
  handed : List (StreamId × Message β)

namespace Subscriber

variable (m : Batch β) (s : Subscriber β)

/-- The callback of `sub.subs.forEach`. -/
def receive : Subscriber β :=
  let filteredMessages := m.messages.filter fun x => s.lastReceivedClock.isSmaller (.id x.1)
  if filteredMessages.length > 0 then
    { s with handed := s.handed ++ filteredMessages, lastReceivedClock := m.lastClock }
  else s

/-- A batch of his room has been read. -/
def read : Subscriber β :=
  if s.room = m.room ∧ s.merged = true then { s with reads := s.reads ++ [m.last.id] } else s

variable {m s}

@[simp] theorem receive_room : (s.receive m).room = s.room := by
  unfold receive
  simp only
  split <;> rfl

@[simp] theorem receive_merged : (s.receive m).merged = s.merged := by
  unfold receive
  simp only
  split <;> rfl

@[simp] theorem read_room : (s.read m).room = s.room := by
  unfold read
  split <;> rfl

@[simp] theorem read_merged : (s.read m).merged = s.merged := by
  unfold read
  split <;> rfl

theorem read_of_not (h : ¬ (s.room = m.room ∧ s.merged = true)) : s.read m = s := if_neg h

end Subscriber

/-! ## The loop -/

/-- Where the loop is. -/
inductive Loop (β : Type) where
  /-- Before a round. -/
  | idle
  /-- The `XREAD` is under way, with a position for every room. -/
  | reading (ids : Room → Option Clock)
  /-- What is left of the reply. -/
  | handing (reply : List (Batch β))

structure Subscriptions (β : Type) where
  log : Room → List (Entry (Message β))
  live : Room → List (Entry (Message β))
  subUpdates : SubMap
  subs : SubMap
  subscriber : Nat → Option (Subscriber β)
  loop : Loop β

namespace Subscriptions

/-- No entries, nobody subscribed. -/
def empty : Subscriptions β := ⟨fun _ => [], fun _ => [], .empty, .empty, fun _ => none, .idle⟩

/-- `this.subs.get(streamName)?.subs`. -/
def receivers (S : Subscriptions β) (room : Room) : Finset Nat :=
  ((S.subs room).map StreamSubs.subs).getD ∅

/-- One round of `for (let i = 0; i < ms.length; i++)`. -/
def handOver (m : Batch β) (S : Subscriptions β) : Subscriptions β := { S with
  subs := S.subs.received m.ids
  subscriber := fun k => (S.subscriber k).map fun s =>
    ((if k ∈ S.receivers m.room then s.receive m else s).read m) }

/-- `update subs`, and the positions for the `XREAD`. -/
def next (S : Subscriptions β) : Subscriptions β := { S with
  subUpdates := .empty
  subs := S.subs.takeOver S.subUpdates
  subscriber := fun k => (S.subscriber k).map fun s => { s with merged := true }
  loop := .reading fun room =>
    (S.subs.takeOver S.subUpdates room).map StreamSubs.lastReceivedClock }

end Subscriptions

/-- `XREAD COUNT` on a stream returns the batch. -/
def Batch.ReadFrom (m : Batch β) (live : List (Entry (Message β))) (id : Clock) : Prop :=
  ∃ p, id.toId? = some p ∧ (live.filter (p < ·.id)).take xreadCount = m.all

inductive SubscriptionsStep : Subscriptions β → Subscriptions β → Prop
  | addMessage (S : Subscriptions β) (room : Room) (e : Entry (Message β))
      (hpos : StreamId.zero < e.id) (hid : ∀ x ∈ S.log room, x.id < e.id) :
      SubscriptionsStep S { S with
        log := Function.update S.log room (S.log room ++ [e])
        live := Function.update S.live room (S.live room ++ [e]) }
  /-- Entries are trimmed that have been read. -/
  | trim (S : Subscriptions β) (room : Room) (dropped rest : List (Entry (Message β)))
      (hlive : S.live room = dropped ++ rest)
      (hread : ∀ e ∈ dropped, ∀ k s, S.subscriber k = some s → s.room = room →
        s.since.isSmaller (.id e.id) = true → ∃ l ∈ s.reads, e.id ≤ l) :
      SubscriptionsStep S { S with live := Function.update S.live room rest }
  | subscribe (S : Subscriptions β) (k : Nat) (room : Room) (c : Clock) (c₀ : StreamId)
      (hk : S.subscriber k = none) (hc : c.toId? = some c₀)
      (hlive : ∀ e ∈ S.log room, c.isSmaller (.id e.id) = true → e ∈ S.live room) :
      SubscriptionsStep S { S with
        subUpdates := S.subUpdates.subscribe room k c
        subscriber := Function.update S.subscriber k (some ⟨room, c, c, false, [], []⟩) }
  /-- `subscribe` is called again. -/
  | resubscribe (S : Subscriptions β) (k : Nat) (s : Subscriber β) (hk : S.subscriber k = some s) :
      SubscriptionsStep S { S with
        subUpdates := S.subUpdates.subscribe s.room k s.lastReceivedClock }
  /-- Also by `closeWithError`, when `onStreamMessage` throws. -/
  | unsubscribe (S : Subscriptions β) (k : Nat) (s : Subscriber β) (hk : S.subscriber k = some s) :
      SubscriptionsStep S { S with
        subUpdates := S.subUpdates.unsubscribe s.room k
        subs := S.subs.unsubscribe s.room k
        subscriber := Function.update S.subscriber k none }
  | next (S : Subscriptions β) (hloop : S.loop = .idle) : SubscriptionsStep S S.next
  | reply (S : Subscriptions β) (ids : Room → Option Clock) (reply : List (Batch β))
      (hloop : S.loop = .reading ids) (hrooms : (reply.map Batch.room).Nodup)
      (hreply : ∀ m ∈ reply, ∃ id, ids m.room = some id ∧ m.ReadFrom (S.live m.room) id) :
      SubscriptionsStep S { S with loop := .handing reply }
  | handOver (S : Subscriptions β) (m : Batch β) (reply : List (Batch β))
      (hloop : S.loop = .handing (m :: reply)) :
      SubscriptionsStep S { S.handOver m with loop := .handing reply }
  | done (S : Subscriptions β) (hloop : S.loop = .handing []) :
      SubscriptionsStep S { S with loop := .idle }
  /-- `error in subscription loop`. -/
  | fail (S : Subscriptions β) : SubscriptionsStep S { S with loop := .idle }

/-- The states of the runs from empty streams. -/
def SubscriptionsReach : Subscriptions β → Prop :=
  Relation.ReflTransGen SubscriptionsStep Subscriptions.empty

/-! ## The two maps -/

theorem Clock.toId?_min {a b : Clock} {i j : StreamId} (ha : a.toId? = some i)
    (hb : b.toId? = some j) : (a.min b).toId? = some (Min.min i j) := by
  unfold Clock.min
  cases h : a.isSmaller b with
  | true => rw [if_pos rfl, ha, min_eq_left ((Clock.isSmaller_iff_lt ha hb).mp h).le]
  | false => rw [if_neg Bool.false_ne_true, hb,
      min_eq_right ((Clock.not_isSmaller_iff_le ha hb).mp h)]

namespace SubMap

variable {m u : SubMap} {room room' : Room} {t : StreamSubs} {j k : Nat}

/-- An entry of a map after an `unsubscribe`. -/
theorem of_unsubscribe (h : m.unsubscribe room k room' = some t) :
    ∃ s, m room' = some s ∧ t.lastReceivedClock = s.lastReceivedClock ∧ t.subs ⊆ s.subs ∧
      (room' = room → k ∉ t.subs) := by
  unfold unsubscribe at h
  cases hm : m room with
  | none =>
    rw [hm] at h
    refine ⟨t, h, rfl, subset_rfl, ?_⟩
    rintro rfl
    exact absurd (hm.symm.trans h) (by simp)
  | some s =>
    rw [hm] at h
    by_cases hr : room' = room
    · subst hr
      simp only [Function.update_self] at h
      split at h
      · exact absurd h (by simp)
      · obtain rfl := Option.some.inj h
        exact ⟨s, hm, rfl, Finset.erase_subset _ _, fun _ => Finset.notMem_erase _ _⟩
    · simp only [Function.update_of_ne hr] at h
      exact ⟨t, h, rfl, subset_rfl, fun e => absurd e hr⟩

/-- Everybody else stays. -/
theorem mem_unsubscribe {s : StreamSubs} (hs : m room' = some s) (hj : j ∈ s.subs) (hjk : j ≠ k) :
    ∃ t, m.unsubscribe room k room' = some t ∧ j ∈ t.subs := by
  unfold unsubscribe
  cases hm : m room with
  | none => exact ⟨s, hs, hj⟩
  | some s' =>
    by_cases hr : room' = room
    · subst hr
      obtain rfl := Option.some.inj (hm.symm.trans hs)
      have hmem : j ∈ s'.subs.erase k := Finset.mem_erase.mpr ⟨hjk, hj⟩
      have hne : s'.subs.erase k ≠ ∅ := Finset.ne_empty_of_mem hmem
      refine ⟨{ s' with subs := s'.subs.erase k }, ?_, hmem⟩
      simp only [Function.update_self, if_neg hne]
    · exact ⟨s, by simp only [Function.update_of_ne hr, hs], hj⟩

/-- A position after the loop has taken over what is waiting: no later than it was, nor than any
clock that was waiting. -/
theorem of_takeOver (hm : ∀ room s, m room = some s → ∃ p, s.lastReceivedClock.toId? = some p)
    (hu : ∀ room s, u room = some s → ∃ q, s.lastReceivedClock.toId? = some q)
    (h : m.takeOver u room = some t) :
    ∃ i, t.lastReceivedClock.toId? = some i ∧ ∀ k ∈ t.subs,
      (∃ s p, m room = some s ∧ s.lastReceivedClock.toId? = some p ∧ k ∈ s.subs ∧ i ≤ p) ∨
        ∃ s q, u room = some s ∧ s.lastReceivedClock.toId? = some q ∧ k ∈ s.subs ∧ i ≤ q := by
  unfold takeOver at h
  cases hur : u room with
  | none =>
    rw [hur] at h
    obtain ⟨p, hp⟩ := hm room t h
    exact ⟨p, hp, fun k hk => Or.inl ⟨t, p, h, hp, hk, le_rfl⟩⟩
  | some s =>
    rw [hur] at h
    obtain rfl := Option.some.inj h
    obtain ⟨q, hq⟩ := hu room s hur
    cases hmr : m room with
    | none =>
      refine ⟨q, by simpa using hq, fun k hk => Or.inr ⟨s, q, rfl, hq, ?_, le_rfl⟩⟩
      simpa using hk
    | some s' =>
      obtain ⟨p, hp⟩ := hm room s' hmr
      refine ⟨Min.min q p, Clock.toId?_min hq hp, fun k hk => ?_⟩
      rcases Finset.mem_union.mp hk with hk | hk
      · exact Or.inl ⟨s', p, rfl, hp, hk, min_le_right _ _⟩
      · exact Or.inr ⟨s, q, rfl, hq, hk, min_le_left _ _⟩

/-- Nobody gets lost on the way from one map to the other. -/
theorem mem_takeOver {s : StreamSubs} (hs : m room = some s ∨ u room = some s) (hk : k ∈ s.subs) :
    ∃ t, m.takeOver u room = some t ∧ k ∈ t.subs := by
  unfold takeOver
  cases hu : u room with
  | none =>
    refine ⟨s, hs.resolve_right ?_, hk⟩
    rw [hu]
    simp
  | some s' =>
    refine ⟨_, rfl, Finset.mem_union.mpr ?_⟩
    rcases hs with hs | hs
    · rw [hs]
      exact Or.inl hk
    · obtain rfl := Option.some.inj (hu.symm.trans hs)
      exact Or.inr hk

/-- An entry of a map after a reply. -/
theorem of_received {ids : Room → Option StreamId} (h : m.received ids room = some t) :
    ∃ s, m room = some s ∧ t.subs = s.subs ∧
      t.lastReceivedClock = ((ids room).map Clock.id).getD s.lastReceivedClock := by
  unfold received at h
  cases hm : m room with
  | none =>
    rw [hm] at h
    exact absurd h (by simp)
  | some s =>
    rw [hm] at h
    cases hi : ids room with
    | none =>
      rw [hi] at h
      obtain rfl := Option.some.inj h
      exact ⟨s, rfl, rfl, rfl⟩
    | some i =>
      rw [hi] at h
      obtain rfl := Option.some.inj h
      exact ⟨s, rfl, rfl, rfl⟩

/-- A reply leaves everybody. -/
theorem mem_received {ids : Room → Option StreamId} {s : StreamSubs} (hs : m room = some s)
    (hk : k ∈ s.subs) : ∃ t, m.received ids room = some t ∧ k ∈ t.subs := by
  unfold received
  rw [hs]
  cases ids room with
  | none => exact ⟨s, rfl, hk⟩
  | some i => exact ⟨_, rfl, hk⟩

end SubMap

/-! ## One subscriber -/

/-- A read up to `p` has nothing new for a clock `c` that is behind. -/
def Upto (log : List (Entry (Message β))) (c p : StreamId) : Prop :=
  p ≤ c ∨ (∃ e ∈ log, p ≤ e.id) ∧ ∀ x ∈ messagesOf log, c < x.1 → p < x.1

/-- **The invariant of a subscriber** who came with the clock `c₀` and has the clock `c`. -/
structure SubscriberOk (log live : List (Entry (Message β))) (s : Subscriber β)
    (c₀ c : StreamId) : Prop where
  since : s.since.toId? = some c₀
  clock : s.lastReceivedClock.toId? = some c
  le : c₀ ≤ c
  clock_read : c = c₀ ∨ c ∈ s.reads
  read_inLog : ∀ l ∈ s.reads, InLog log l
  /-- No message was passed over. -/
  read_lt : ∀ x ∈ messagesOf log, c < x.1 → ∀ l ∈ s.reads, l < x.1
  handed : s.handed = between Prod.fst c₀ c (messagesOf log)
  kept : ∀ x ∈ messagesOf log, c < x.1 → x ∈ messagesOf live

section Logs

variable {log live rest : List (Entry (Message β))} {e : Entry (Message β)} {s : Subscriber β}
  {c₀ c p q l : StreamId}

theorem messagesOf_append (l r : List (Entry (Message β))) :
    messagesOf (l ++ r) = messagesOf l ++ messagesOf r :=
  List.filterMap_append

theorem lt_of_mem_messagesOf (hid : ∀ a ∈ log, a.id < e.id) (hl : InLog log l)
    {x : StreamId × Message β} (hx : x ∈ messagesOf [e]) : l < x.1 := by
  obtain ⟨a, ha, rfl⟩ := hl
  have hxe := List.mem_singleton.mp (mem_messagesOf.mp hx)
  rw [← hxe] at hid
  exact hid a ha

namespace Upto

theorem anti (h : Upto log c p) (hqp : q ≤ p) : Upto log c q := by
  rcases h with h | ⟨⟨e, he, hpe⟩, h⟩
  · exact Or.inl (hqp.trans h)
  · exact Or.inr ⟨⟨e, he, hqp.trans hpe⟩, fun x hx hcx => hqp.trans_lt (h x hx hcx)⟩

theorem append (h : Upto log c p) (hid : ∀ a ∈ log, a.id < e.id) : Upto (log ++ [e]) c p := by
  rcases h with h | ⟨⟨a, ha, hpa⟩, h⟩
  · exact Or.inl h
  refine Or.inr ⟨⟨a, List.mem_append_left _ ha, hpa⟩, fun x hx hcx => ?_⟩
  rw [messagesOf_append] at hx
  rcases List.mem_append.mp hx with hx | hx
  · exact h x hx hcx
  · exact hpa.trans_lt (lt_of_mem_messagesOf hid ⟨a, ha, rfl⟩ hx)

/-- What is after the clock is after the position. -/
theorem lt (h : Upto log c p) {x : StreamId × Message β} (hx : x ∈ messagesOf log)
    (hcx : c < x.1) : p < x.1 := by
  rcases h with h | h
  · exact h.trans_lt hcx
  · exact h.2 x hx hcx

end Upto

namespace SubscriberOk

/-- A subscriber who has just come. -/
theorem new {room : Room} {clock : Clock} (hc : clock.toId? = some c)
    (hlive : ∀ e ∈ log, clock.isSmaller (.id e.id) = true → e ∈ live) :
    SubscriberOk log live ⟨room, clock, clock, false, [], []⟩ c c where
  since := hc
  clock := hc
  le := le_rfl
  clock_read := Or.inl rfl
  read_inLog l hl := absurd hl List.not_mem_nil
  read_lt x hx hcx l hl := absurd hl List.not_mem_nil
  handed := between_self.symm
  kept x hx hcx := by
    rw [mem_messagesOf] at hx ⊢
    exact hlive _ hx ((Clock.isSmaller_iff_lt hc rfl).mpr hcx)

theorem addMessage (h : SubscriberOk log live s c₀ c) (hid : ∀ a ∈ log, a.id < e.id) :
    SubscriberOk (log ++ [e]) (live ++ [e]) s c₀ c where
  since := h.since
  clock := h.clock
  le := h.le
  clock_read := h.clock_read
  read_inLog l hl := (h.read_inLog l hl).append
  read_lt x hx hcx l hl := by
    rw [messagesOf_append] at hx
    rcases List.mem_append.mp hx with hx | hx
    · exact h.read_lt x hx hcx l hl
    · exact lt_of_mem_messagesOf hid (h.read_inLog l hl) hx
  handed := by
    rw [messagesOf_append]
    rcases h.clock_read with rfl | hc
    · rw [h.handed, between_self, between_self]
    · rw [between_append fun x hx => lt_of_mem_messagesOf hid (h.read_inLog c hc) hx]
      exact h.handed
  kept x hx hcx := by
    rw [messagesOf_append] at hx ⊢
    rcases List.mem_append.mp hx with hx | hx
    · exact List.mem_append_left _ (h.kept x hx hcx)
    · exact List.mem_append_right _ hx

/-- What is trimmed has been read, so it is not after his clock. -/
theorem trim {dropped : List (Entry (Message β))} (h : SubscriberOk log (dropped ++ rest) s c₀ c)
    (hread : ∀ e ∈ dropped, s.since.isSmaller (.id e.id) = true → ∃ l ∈ s.reads, e.id ≤ l) :
    SubscriberOk log rest s c₀ c where
  since := h.since
  clock := h.clock
  le := h.le
  clock_read := h.clock_read
  read_inLog := h.read_inLog
  read_lt := h.read_lt
  handed := h.handed
  kept x hx hcx := by
    have hlive := h.kept x hx hcx
    rw [messagesOf_append] at hlive
    refine (List.mem_append.mp hlive).resolve_left fun hdropped => ?_
    have hsince : s.since.isSmaller (.id x.1) = true :=
      (Clock.isSmaller_iff_lt h.since rfl).mpr (h.le.trans_lt hcx)
    obtain ⟨l, hl, hle⟩ := hread _ (mem_messagesOf.mp hdropped) hsince
    exact absurd (h.read_lt x hx hcx l hl) (not_lt.mpr hle)

end SubscriberOk

end Logs

/-! ## One batch -/

/-- A batch that is still to be handed over has what the subscribers of its room are waiting
for. -/
structure BatchOk (S : Subscriptions β) (m : Batch β) : Prop where
  sublist : m.all.Sublist (S.log m.room)
  complete : ∀ k s c, S.subscriber k = some s → s.room = m.room → s.merged = true →
    s.lastReceivedClock.toId? = some c → ∀ x ∈ messagesOf (S.log m.room), c < x.1 →
      x.1 ≤ m.last.id → x ∈ m.messages

namespace BatchOk

variable {S : Subscriptions β} {m : Batch β} {s : Subscriber β} {k : Nat} {c₀ c : StreamId}

theorem last_mem (h : BatchOk S m) : m.last ∈ S.log m.room :=
  h.sublist.subset (List.mem_append_right _ (List.mem_singleton.mpr rfl))

theorem le_last (h : BatchOk S m) (hlog : LogOk (S.log m.room)) {e : Entry (Message β)}
    (he : e ∈ m.all) : e.id ≤ m.last.id := by
  have hsorted : Sorted Entry.id m.all := List.Pairwise.sublist h.sublist hlog.sorted
  have hne : m.all ≠ [] := by simp [Batch.all]
  have hlast : m.all.getLast hne = m.last := by simp [Batch.all]
  have hle := le_getLast hsorted hne he
  rwa [hlast] at hle

/-- **The messages a subscriber picks from a batch**: those of the log after his clock. -/
theorem filtered (h : BatchOk S m) (hlog : LogOk (S.log m.room)) (hk : S.subscriber k = some s)
    (hr : s.room = m.room) (hm : s.merged = true) (hc : s.lastReceivedClock.toId? = some c) :
    (m.messages.filter fun x => s.lastReceivedClock.isSmaller (.id x.1)) =
      between Prod.fst c m.last.id (messagesOf (S.log m.room)) := by
  have hsorted := sorted_messagesOf hlog.sorted
  have hbatch : m.messages.Pairwise fun a b => a.1 < b.1 :=
    sorted_messagesOf (List.Pairwise.sublist h.sublist hlog.sorted)
  refine eq_of_mem_iff (hbatch.filter _) (hsorted.filter _) fun x => ?_
  rw [List.mem_filter, mem_between, Clock.isSmaller_iff_lt hc rfl]
  constructor
  · rintro ⟨hx, hcx⟩
    have he : ⟨x.1, .m x.2⟩ ∈ m.all := mem_messagesOf.mp hx
    exact ⟨mem_messagesOf.mpr (h.sublist.subset he), hcx, h.le_last hlog he⟩
  · rintro ⟨hx, hcx, hle⟩
    exact ⟨h.complete k s c hk hr hm hc x hx hcx hle, hcx⟩

/-- **A batch is handed to a subscriber**, who then has everything up to its last id. -/
theorem receive (h : BatchOk S m) (hlog : LogOk (S.log m.room)) (hk : S.subscriber k = some s)
    (hr : s.room = m.room) (hm : s.merged = true)
    (hs : SubscriberOk (S.log s.room) (S.live s.room) s c₀ c) :
    ∃ c', c ≤ c' ∧ SubscriberOk (S.log s.room) (S.live s.room) ((s.receive m).read m) c₀ c' ∧
      Upto (S.log s.room) c' m.last.id := by
  have hfiltered := h.filtered hlog hk hr hm hs.clock
  have hlast : InLog (S.log s.room) m.last.id := by
    rw [hr]
    exact ⟨_, h.last_mem, rfl⟩
  have hinLog : ∀ l ∈ s.reads ++ [m.last.id], InLog (S.log s.room) l := by
    intro l hl
    rcases List.mem_append.mp hl with hl | hl
    · exact hs.read_inLog l hl
    · rw [List.mem_singleton.mp hl]
      exact hlast
  rw [← hr] at hfiltered
  unfold Subscriber.receive
  simp only [hfiltered]
  split
  · -- some message is after his clock, so the last id of the batch is
    rename_i hpos
    obtain ⟨x, hx⟩ := List.exists_mem_of_length_pos hpos
    obtain ⟨hxlog, hcx, hxl⟩ := mem_between.mp hx
    have hcl : c < m.last.id := hcx.trans_le hxl
    refine ⟨m.last.id, hcl.le, ?_, Or.inl le_rfl⟩
    unfold Subscriber.read
    rw [if_pos ⟨hr, hm⟩]
    exact {
      since := hs.since
      clock := rfl
      le := hs.le.trans hcl.le
      clock_read := Or.inr (List.mem_append_right _ (List.mem_singleton.mpr rfl))
      read_inLog := hinLog
      read_lt := fun y hy hly l hl => by
        rcases List.mem_append.mp hl with hl | hl
        · exact hs.read_lt y hy (hcl.trans hly) l hl
        · rwa [List.mem_singleton.mp hl]
      handed := by
        rw [hs.handed]
        refine (between_split ?_ hs.le hcl.le).symm
        rw [hr]
        exact sorted_messagesOf hlog.sorted
      kept := fun y hy hly => hs.kept y hy (hcl.trans hly) }
  · -- nothing is in between
    rename_i hpos
    have hnil : between Prod.fst c m.last.id (messagesOf (S.log s.room)) = [] :=
      List.eq_nil_of_length_eq_zero (by omega)
    have hlt : ∀ x ∈ messagesOf (S.log s.room), c < x.1 → m.last.id < x.1 := by
      intro x hx hcx
      by_contra hle
      have hmem := mem_between.mpr ⟨hx, hcx, not_lt.mp hle⟩
      rw [hnil] at hmem
      exact absurd hmem List.not_mem_nil
    refine ⟨c, le_rfl, ?_, Or.inr ⟨?_, hlt⟩⟩
    · unfold Subscriber.read
      rw [if_pos ⟨hr, hm⟩]
      exact {
        since := hs.since
        clock := hs.clock
        le := hs.le
        clock_read := hs.clock_read.imp_right (List.mem_append_left _)
        read_inLog := hinLog
        read_lt := fun y hy hcy l hl => by
          rcases List.mem_append.mp hl with hl | hl
          · exact hs.read_lt y hy hcy l hl
          · rw [List.mem_singleton.mp hl]
            exact hlt y hy hcy
        handed := hs.handed
        kept := hs.kept }
    · obtain ⟨e, he, hid⟩ := hlast
      exact ⟨e, he, hid.ge⟩

end BatchOk

/-- **A batch of an `XREAD`** from a position that is good for the subscribers of the room. -/
theorem Batch.ReadFrom.batchOk {S : Subscriptions β} {m : Batch β} {id : Clock}
    (h : m.ReadFrom (S.live m.room) id) (hlog : LogOk (S.log m.room))
    (hsuffix : S.live m.room <:+ S.log m.room)
    (hs : ∀ k s c, S.subscriber k = some s → s.room = m.room → s.merged = true →
      s.lastReceivedClock.toId? = some c →
      (∀ x ∈ messagesOf (S.log m.room), c < x.1 → x ∈ messagesOf (S.live m.room)) ∧
        ∀ p, id.toId? = some p → Upto (S.log m.room) c p) : BatchOk S m := by
  obtain ⟨p, hp, htake⟩ := h
  have hlive : Sorted Entry.id (S.live m.room) := List.Pairwise.sublist hsuffix.sublist hlog.sorted
  refine ⟨?_, fun k s c hk hr hm hc x hx hcx hle => ?_⟩
  · rw [← htake]
    exact (List.take_sublist _ _).trans (List.filter_sublist.trans hsuffix.sublist)
  · obtain ⟨hkept, hupto⟩ := hs k s c hk hr hm hc
    have hxlive := mem_messagesOf.mp (hkept x hx hcx)
    unfold Batch.messages
    -- what is read is all of the stream after the position and up to the last id
    have hall : m.all = upTo Entry.id m.last.id ((S.live m.room).filter (p < ·.id)) :=
      take_eq_upTo (hlive.filter _) htake
    rw [mem_messagesOf, hall, mem_upTo, List.mem_filter]
    exact ⟨⟨hxlive, decide_eq_true ((hupto p hp).lt hx hcx)⟩, hle⟩

/-! ## The invariant -/

/-- A map has positions, and subscribers for whom these are as `R` says. -/
def MapOk (subscriber : Nat → Option (Subscriber β))
    (R : Subscriber β → StreamId → StreamId → Prop) (m : SubMap) : Prop :=
  ∀ room t, m room = some t → ∃ p, t.lastReceivedClock.toId? = some p ∧ ∀ k ∈ t.subs,
    ∃ s c, subscriber k = some s ∧ s.room = room ∧ s.lastReceivedClock.toId? = some c ∧ R s c p

/-- What the loop relies on. -/
def LoopOk (S : Subscriptions β) : Loop β → Prop
  | .idle => True
  | .reading ids => ∀ room t, S.subs room = some t → ids room = some t.lastReceivedClock
  | .handing reply => (reply.map Batch.room).Nodup ∧ ∀ m ∈ reply, BatchOk S m

/-- **The invariant.** -/
structure SubscriptionsOk (S : Subscriptions β) : Prop where
  log_ok : ∀ room, LogOk (S.log room)
  live_suffix : ∀ room, S.live room <:+ S.log room
  subscriber : ∀ k s, S.subscriber k = some s →
    ∃ c₀ c, SubscriberOk (S.log s.room) (S.live s.room) s c₀ c
  waiting : ∀ k s, S.subscriber k = some s → s.merged = false →
    ∃ u, S.subUpdates s.room = some u ∧ k ∈ u.subs
  merged : ∀ k s, S.subscriber k = some s → s.merged = true →
    ∃ t, S.subs s.room = some t ∧ k ∈ t.subs
  subUpdates : MapOk S.subscriber (fun _ c q => q ≤ c) S.subUpdates
  subs : MapOk S.subscriber (fun s c p => s.merged = true ∧ Upto (S.log s.room) c p) S.subs
  loop : LoopOk S S.loop

section Maps

variable {subscriber subscriber' : Nat → Option (Subscriber β)}
  {R R' : Subscriber β → StreamId → StreamId → Prop} {m : SubMap} {room : Room} {k : Nat}
  {s : Subscriber β} {c : StreamId}

namespace MapOk

theorem empty : MapOk subscriber R .empty := fun _ _ h => absurd h (by simp [SubMap.empty])

/-- The subscribers change. -/
theorem mono (h : MapOk subscriber R m) (hR : ∀ k s c p, subscriber k = some s →
    s.lastReceivedClock.toId? = some c → R s c p → ∃ s' c', subscriber' k = some s' ∧
      s'.room = s.room ∧ s'.lastReceivedClock.toId? = some c' ∧ R' s' c' p) :
    MapOk subscriber' R' m := by
  intro room t ht
  obtain ⟨p, hp, hmem⟩ := h room t ht
  refine ⟨p, hp, fun k hk => ?_⟩
  obtain ⟨s, c, hs, hr, hc, hRs⟩ := hmem k hk
  obtain ⟨s', c', hs', hr', hc', hRs'⟩ := hR k s c p hs hc hRs
  exact ⟨s', c', hs', hr'.trans hr, hc', hRs'⟩

theorem unsubscribe (h : MapOk subscriber R m) (hk : subscriber k = some s) :
    MapOk (Function.update subscriber k none) R (m.unsubscribe s.room k) := by
  intro room t ht
  obtain ⟨t₀, ht₀, hclock, hsub, hnot⟩ := SubMap.of_unsubscribe ht
  obtain ⟨p, hp, hmem⟩ := h room t₀ ht₀
  refine ⟨p, hclock ▸ hp, fun j hj => ?_⟩
  obtain ⟨s', c, hs', hr, hc, hRs⟩ := hmem j (hsub hj)
  have hjk : j ≠ k := by
    rintro rfl
    obtain rfl := Option.some.inj (hs'.symm.trans hk)
    exact hnot hr.symm hj
  exact ⟨s', c, by rw [Function.update_of_ne hjk, hs'], hr, hc, hRs⟩

/-- What `subscribe` leaves: the earliest clock. -/
theorem subscribe (h : MapOk subscriber (fun _ c q => q ≤ c) m) (hk : subscriber k = some s)
    (hc : s.lastReceivedClock.toId? = some c) :
    MapOk subscriber (fun _ c q => q ≤ c) (m.subscribe s.room k s.lastReceivedClock) := by
  intro room t ht
  unfold SubMap.subscribe at ht
  by_cases hr : room = s.room
  · subst hr
    simp only [Function.update_self] at ht
    obtain rfl := Option.some.inj ht
    cases hm : m s.room with
    | none =>
      refine ⟨Min.min c c, Clock.toId?_min hc hc, fun j hj => ?_⟩
      obtain rfl : j = k := by simpa using hj
      exact ⟨s, c, hk, rfl, hc, min_le_left _ _⟩
    | some u =>
      obtain ⟨q, hq, hmem⟩ := h s.room u hm
      refine ⟨Min.min q c, Clock.toId?_min hq hc, fun j hj => ?_⟩
      rcases Finset.mem_insert.mp hj with rfl | hj
      · exact ⟨s, c, hk, rfl, hc, min_le_right _ _⟩
      · obtain ⟨s', c', hs', hr', hc', hle⟩ := hmem j hj
        exact ⟨s', c', hs', hr', hc', (min_le_left _ _).trans hle⟩
  · simp only [Function.update_of_ne hr] at ht
    exact h room t ht

end MapOk

/-- Whoever subscribes is among those who wait. -/
theorem SubMap.mem_subscribe (clock : Clock) :
    ∃ u, m.subscribe room k clock room = some u ∧ k ∈ u.subs := by
  refine ⟨_, Function.update_self .., ?_⟩
  exact Finset.mem_insert_self _ _

/-- So is everybody who was. -/
theorem SubMap.mem_subscribe_of_mem {room' : Room} {j : Nat} (clock : Clock)
    (h : ∃ u, m room' = some u ∧ j ∈ u.subs) :
    ∃ u, m.subscribe room k clock room' = some u ∧ j ∈ u.subs := by
  obtain ⟨u, hu, hj⟩ := h
  unfold SubMap.subscribe
  by_cases hr : room' = room
  · subst hr
    refine ⟨_, Function.update_self .., ?_⟩
    simp only [hu, Option.getD_some]
    exact Finset.mem_insert_of_mem hj
  · exact ⟨u, by simp only [Function.update_of_ne hr, hu], hj⟩

end Maps

/-! ### What the steps leave to the loop -/

section Loop

variable {S S' : Subscriptions β} {m : Batch β}

theorem BatchOk.mono (h : BatchOk S m) (hlog : S'.log m.room = S.log m.room)
    (hsub : ∀ k s, S'.subscriber k = some s → s.room = m.room → s.merged = true →
      S.subscriber k = some s) : BatchOk S' m where
  sublist := hlog ▸ h.sublist
  complete k s c hk hr hm hc := by
    rw [hlog]
    exact h.complete k s c (hsub k s hk hr hm) hr hm hc

theorem LoopOk.mono {loop : Loop β} (h : LoopOk S loop)
    (hsubs : ∀ room t, S'.subs room = some t →
      ∃ t₀, S.subs room = some t₀ ∧ t.lastReceivedClock = t₀.lastReceivedClock)
    (hbatch : ∀ m, BatchOk S m → BatchOk S' m) : LoopOk S' loop := by
  cases loop with
  | idle => trivial
  | reading ids =>
    intro room t ht
    obtain ⟨t₀, ht₀, e⟩ := hsubs room t ht
    rw [e]
    exact h room t₀ ht₀
  | handing reply => exact ⟨h.1, fun m hm => hbatch m (h.2 m hm)⟩

/-- An entry is added after what is in the batch. -/
theorem BatchOk.addMessage {room : Room} {e : Entry (Message β)} {live : Room → _}
    (h : BatchOk S m) (hid : ∀ x ∈ S.log room, x.id < e.id) :
    BatchOk { S with
      log := Function.update S.log room (S.log room ++ [e]), live := live } m := by
  by_cases hr : m.room = room
  · subst hr
    refine ⟨?_, fun k s c hk hr hm hc x hx hcx hle => ?_⟩
    · simp only [Function.update_self]
      exact h.sublist.trans (List.sublist_append_left _ _)
    · simp only [Function.update_self, messagesOf_append] at hx
      rcases List.mem_append.mp hx with hx | hx
      · exact h.complete k s c hk hr hm hc x hx hcx hle
      · have hlt := lt_of_mem_messagesOf hid ⟨_, h.last_mem, rfl⟩ hx
        exact absurd hle (not_le.mpr hlt)
  · exact h.mono (Function.update_of_ne hr ..) fun _ _ hk _ _ => hk

end Loop

/-! ### The steps -/

namespace SubscriptionsOk

variable {S : Subscriptions β} {room : Room} {k : Nat} {s : Subscriber β}

theorem empty : SubscriptionsOk (Subscriptions.empty : Subscriptions β) where
  log_ok _ := ⟨List.Pairwise.nil, fun _ he => absurd he List.not_mem_nil⟩
  live_suffix _ := List.suffix_refl _
  subscriber _ _ h := absurd h (by simp [Subscriptions.empty])
  waiting _ _ h := absurd h (by simp [Subscriptions.empty])
  merged _ _ h := absurd h (by simp [Subscriptions.empty])
  subUpdates := MapOk.empty
  subs := MapOk.empty
  loop := trivial

theorem addMessage (h : SubscriptionsOk S) {e : Entry (Message β)} (hpos : StreamId.zero < e.id)
    (hid : ∀ x ∈ S.log room, x.id < e.id) : SubscriptionsOk { S with
      log := Function.update S.log room (S.log room ++ [e])
      live := Function.update S.live room (S.live room ++ [e]) } where
  log_ok room' := by
    by_cases hr : room' = room
    · subst hr
      simp only [Function.update_self]
      refine ⟨List.pairwise_append.mpr ⟨(h.log_ok _).sorted, List.pairwise_singleton _ _, ?_⟩, ?_⟩
      · intro x hx y hy
        rw [List.mem_singleton.mp hy]
        exact hid x hx
      · intro x hx
        rcases List.mem_append.mp hx with hx | hx
        · exact (h.log_ok _).pos x hx
        · rwa [List.mem_singleton.mp hx]
    · simp only [Function.update_of_ne hr]
      exact h.log_ok room'
  live_suffix room' := by
    by_cases hr : room' = room
    · subst hr
      obtain ⟨before, hlog⟩ := h.live_suffix room'
      simp only [Function.update_self]
      exact ⟨before, by rw [← hlog, List.append_assoc]⟩
    · simp only [Function.update_of_ne hr]
      exact h.live_suffix room'
  subscriber k s hk := by
    obtain ⟨c₀, c, hs⟩ := h.subscriber k s hk
    refine ⟨c₀, c, ?_⟩
    by_cases hr : s.room = room
    · subst hr
      simp only [Function.update_self]
      exact hs.addMessage hid
    · simp only [Function.update_of_ne hr]
      exact hs
  waiting := h.waiting
  merged := h.merged
  subUpdates := h.subUpdates
  subs := h.subs.mono fun k s c p hk hc hR => by
    refine ⟨s, c, hk, rfl, hc, hR.1, ?_⟩
    by_cases hr : s.room = room
    · subst hr
      simp only [Function.update_self]
      exact hR.2.append hid
    · simp only [Function.update_of_ne hr]
      exact hR.2
  loop := h.loop.mono (fun _ t ht => ⟨t, ht, rfl⟩) fun _ hm => hm.addMessage hid

theorem trim (h : SubscriptionsOk S) {dropped rest : List (Entry (Message β))}
    (hlive : S.live room = dropped ++ rest)
    (hread : ∀ e ∈ dropped, ∀ k s, S.subscriber k = some s → s.room = room →
      s.since.isSmaller (.id e.id) = true → ∃ l ∈ s.reads, e.id ≤ l) :
    SubscriptionsOk { S with live := Function.update S.live room rest } where
  log_ok := h.log_ok
  live_suffix room' := by
    by_cases hr : room' = room
    · subst hr
      simp only [Function.update_self]
      have hsuffix := h.live_suffix room'
      rw [hlive] at hsuffix
      exact (List.suffix_append _ _).trans hsuffix
    · simp only [Function.update_of_ne hr]
      exact h.live_suffix room'
  subscriber k s hk := by
    obtain ⟨c₀, c, hs⟩ := h.subscriber k s hk
    refine ⟨c₀, c, ?_⟩
    by_cases hr : s.room = room
    · subst hr
      simp only [Function.update_self]
      rw [hlive] at hs
      exact hs.trim fun e he => hread e he k s hk rfl
    · simp only [Function.update_of_ne hr]
      exact hs
  waiting := h.waiting
  merged := h.merged
  subUpdates := h.subUpdates
  subs := h.subs
  loop := h.loop.mono (fun _ t ht => ⟨t, ht, rfl⟩) fun _ hm => hm.mono rfl fun _ _ hk _ _ => hk

/-- Nobody of the two maps is new. -/
theorem subscribe (h : SubscriptionsOk S) {c : Clock} {c₀ : StreamId} (hk : S.subscriber k = none)
    (hc : c.toId? = some c₀)
    (hlive : ∀ e ∈ S.log room, c.isSmaller (.id e.id) = true → e ∈ S.live room) :
    SubscriptionsOk { S with
      subUpdates := S.subUpdates.subscribe room k c
      subscriber := Function.update S.subscriber k (some ⟨room, c, c, false, [], []⟩) } := by
  have hold : ∀ j s, S.subscriber j = some s →
      Function.update S.subscriber k (some ⟨room, c, c, false, [], []⟩) j = some s := by
    intro j s hs
    have hjk : j ≠ k := by
      rintro rfl
      exact absurd (hk.symm.trans hs) (by simp)
    rw [Function.update_of_ne hjk, hs]
  have hnew : ∀ j s, Function.update S.subscriber k (some ⟨room, c, c, false, [], []⟩) j = some s →
      (j = k ∧ s = ⟨room, c, c, false, [], []⟩) ∨ S.subscriber j = some s := by
    intro j s hs
    rcases Interleave.update_cases hs with ⟨hj, hs⟩ | ⟨-, hs⟩
    · exact Or.inl ⟨hj, (Option.some.inj hs).symm⟩
    · exact Or.inr hs
  exact {
    log_ok := h.log_ok
    live_suffix := h.live_suffix
    subscriber := fun j s hs => by
      rcases hnew j s hs with ⟨rfl, rfl⟩ | hs
      · exact ⟨c₀, c₀, SubscriberOk.new hc hlive⟩
      · exact h.subscriber j s hs
    waiting := fun j s hs hm => by
      rcases hnew j s hs with ⟨rfl, rfl⟩ | hs
      · exact SubMap.mem_subscribe c
      · exact SubMap.mem_subscribe_of_mem c (h.waiting j s hs hm)
    merged := fun j s hs hm => by
      rcases hnew j s hs with ⟨rfl, rfl⟩ | hs
      · exact absurd hm (by simp)
      · exact h.merged j s hs hm
    subUpdates := by
      have hmap : MapOk (Function.update S.subscriber k (some ⟨room, c, c, false, [], []⟩))
          (fun _ c q => q ≤ c) S.subUpdates :=
        h.subUpdates.mono fun j s c p hs hc hR => ⟨s, c, hold j s hs, rfl, hc, hR⟩
      exact hmap.subscribe (Function.update_self ..) hc
    subs := h.subs.mono fun j s c p hs hc hR => ⟨s, c, hold j s hs, rfl, hc, hR⟩
    loop := by
      refine h.loop.mono (fun _ t ht => ⟨t, ht, rfl⟩) fun m hm => hm.mono rfl ?_
      intro j s hs _ hmerged
      rcases hnew j s hs with ⟨rfl, rfl⟩ | hs
      · exact absurd hmerged (by simp)
      · exact hs }

theorem resubscribe (h : SubscriptionsOk S) (hk : S.subscriber k = some s) :
    SubscriptionsOk { S with
      subUpdates := S.subUpdates.subscribe s.room k s.lastReceivedClock } where
  log_ok := h.log_ok
  live_suffix := h.live_suffix
  subscriber := h.subscriber
  waiting j s' hs hm := SubMap.mem_subscribe_of_mem _ (h.waiting j s' hs hm)
  merged := h.merged
  subUpdates := by
    obtain ⟨c₀, c, hs⟩ := h.subscriber k s hk
    exact h.subUpdates.subscribe hk hs.clock
  subs := h.subs
  loop := h.loop.mono (fun _ t ht => ⟨t, ht, rfl⟩) fun _ hm => hm.mono rfl fun _ _ hk _ _ => hk

theorem unsubscribe (h : SubscriptionsOk S) (hk : S.subscriber k = some s) :
    SubscriptionsOk { S with
      subUpdates := S.subUpdates.unsubscribe s.room k
      subs := S.subs.unsubscribe s.room k
      subscriber := Function.update S.subscriber k none } := by
  have hold : ∀ j s', Function.update S.subscriber k none j = some s' →
      j ≠ k ∧ S.subscriber j = some s' := by
    intro j s' hs
    rcases Interleave.update_cases hs with ⟨-, hs⟩ | ⟨hjk, hs⟩
    · exact absurd hs (by simp)
    · exact ⟨hjk, hs⟩
  exact {
    log_ok := h.log_ok
    live_suffix := h.live_suffix
    subscriber := fun j s' hs => h.subscriber j s' (hold j s' hs).2
    waiting := fun j s' hs hm => by
      obtain ⟨hjk, hs⟩ := hold j s' hs
      obtain ⟨u, hu, hj⟩ := h.waiting j s' hs hm
      exact SubMap.mem_unsubscribe hu hj hjk
    merged := fun j s' hs hm => by
      obtain ⟨hjk, hs⟩ := hold j s' hs
      obtain ⟨t, ht, hj⟩ := h.merged j s' hs hm
      exact SubMap.mem_unsubscribe ht hj hjk
    subUpdates := h.subUpdates.unsubscribe hk
    subs := h.subs.unsubscribe hk
    loop := by
      refine h.loop.mono (fun _ t ht => ?_)
        fun m hm => hm.mono rfl fun j s' hs _ _ => (hold j s' hs).2
      obtain ⟨t₀, ht₀, e, -, -⟩ := SubMap.of_unsubscribe ht
      exact ⟨t₀, ht₀, e⟩ }

/-- **The loop takes over who is waiting**: its positions fall back far enough for them. -/
theorem next (h : SubscriptionsOk S) : SubscriptionsOk S.next := by
  have hmerge : ∀ k s, S.subscriber k = some s →
      S.next.subscriber k = some { s with merged := true } := by
    intro k s hk
    show (S.subscriber k).map _ = _
    rw [hk]
    rfl
  have hold : ∀ k s', S.next.subscriber k = some s' →
      ∃ s, S.subscriber k = some s ∧ s' = { s with merged := true } := by
    intro k s' hk
    obtain ⟨s, hs, e⟩ := Option.map_eq_some_iff.mp hk
    exact ⟨s, hs, e.symm⟩
  exact {
    log_ok := h.log_ok
    live_suffix := h.live_suffix
    subscriber := fun k s' hk => by
      obtain ⟨s, hs, rfl⟩ := hold k s' hk
      obtain ⟨c₀, c, hsub⟩ := h.subscriber k s hs
      exact ⟨c₀, c, hsub.since, hsub.clock, hsub.le, hsub.clock_read, hsub.read_inLog,
        hsub.read_lt, hsub.handed, hsub.kept⟩
    waiting := fun k s' hk hm => by
      obtain ⟨s, -, rfl⟩ := hold k s' hk
      exact absurd hm (by simp)
    merged := fun k s' hk _ => by
      obtain ⟨s, hs, rfl⟩ := hold k s' hk
      cases hm : s.merged with
      | false =>
        obtain ⟨u, hu, hmem⟩ := h.waiting k s hs hm
        exact SubMap.mem_takeOver (Or.inr hu) hmem
      | true =>
        obtain ⟨t, ht, hmem⟩ := h.merged k s hs hm
        exact SubMap.mem_takeOver (Or.inl ht) hmem
    subUpdates := MapOk.empty
    subs := fun room t ht => by
      obtain ⟨i, hi, hmem⟩ := SubMap.of_takeOver
        (fun room t ht => (h.subs room t ht).imp fun _ hp => hp.1)
        (fun room t ht => (h.subUpdates room t ht).imp fun _ hp => hp.1) ht
      refine ⟨i, hi, fun k hk => ?_⟩
      rcases hmem k hk with ⟨t₀, p, ht₀, hp, hk₀, hip⟩ | ⟨u, q, hu, hq, hku, hiq⟩
      · obtain ⟨p', hp', hall⟩ := h.subs room t₀ ht₀
        obtain rfl := Option.some.inj (hp.symm.trans hp')
        obtain ⟨s, c, hs, hr, hc, -, hupto⟩ := hall k hk₀
        exact ⟨_, c, hmerge k s hs, hr, hc, rfl, hupto.anti hip⟩
      · obtain ⟨q', hq', hall⟩ := h.subUpdates room u hu
        obtain rfl := Option.some.inj (hq.symm.trans hq')
        obtain ⟨s, c, hs, hr, hc, hle⟩ := hall k hku
        exact ⟨_, c, hmerge k s hs, hr, hc, rfl, Or.inl (hiq.trans hle)⟩
    loop := fun room t ht => by
      show (S.subs.takeOver S.subUpdates room).map _ = _
      have hmap : S.subs.takeOver S.subUpdates room = some t := ht
      rw [hmap]
      rfl }

theorem reply (h : SubscriptionsOk S) {ids : Room → Option Clock} {reply : List (Batch β)}
    (hloop : S.loop = .reading ids) (hrooms : (reply.map Batch.room).Nodup)
    (hreply : ∀ m ∈ reply, ∃ id, ids m.room = some id ∧ m.ReadFrom (S.live m.room) id) :
    SubscriptionsOk { S with loop := .handing reply } where
  log_ok := h.log_ok
  live_suffix := h.live_suffix
  subscriber := h.subscriber
  waiting := h.waiting
  merged := h.merged
  subUpdates := h.subUpdates
  subs := h.subs
  loop := by
    have hids := h.loop
    rw [hloop] at hids
    refine ⟨hrooms, fun m hm => ?_⟩
    obtain ⟨id, hid, hread⟩ := hreply m hm
    have hok : BatchOk S m := by
      refine hread.batchOk (h.log_ok _) (h.live_suffix _) fun k s c hk hr hmerged hc => ?_
      obtain ⟨c₀, c', hs⟩ := h.subscriber k s hk
      obtain rfl := Option.some.inj (hc.symm.trans hs.clock)
      obtain ⟨t, ht, hkt⟩ := h.merged k s hk hmerged
      obtain ⟨p, hp, hall⟩ := h.subs s.room t ht
      obtain ⟨s', c', hk', -, hc', -, hupto⟩ := hall k hkt
      obtain rfl := Option.some.inj (hk.symm.trans hk')
      obtain rfl := Option.some.inj (hc.symm.trans hc')
      -- the position that was sent is still the one in the map
      have hpos : id = t.lastReceivedClock :=
        Option.some.inj (hid.symm.trans (hr ▸ hids s.room t ht))
      refine ⟨hr ▸ hs.kept, fun p' hp' => ?_⟩
      rw [hpos] at hp'
      obtain rfl := Option.some.inj (hp.symm.trans hp')
      exact hr ▸ hupto
    exact hok.mono rfl fun _ _ hk _ _ => hk

/-- The subscribers after a batch: those of its room whom the loop has taken over have received
it. -/
theorem handOver_subscriber (h : SubscriptionsOk S) (m : Batch β) (hk : S.subscriber k = some s) :
    (s.room = m.room ∧ s.merged = true) ∧
        (S.handOver m).subscriber k = some ((s.receive m).read m) ∨
      ¬ (s.room = m.room ∧ s.merged = true) ∧ (S.handOver m).subscriber k = some s := by
  have hval : (S.handOver m).subscriber k =
      some ((if k ∈ S.receivers m.room then s.receive m else s).read m) := by
    show (S.subscriber k).map _ = _
    rw [hk]
    rfl
  by_cases hm : s.room = m.room ∧ s.merged = true
  · obtain ⟨t, ht, hkt⟩ := h.merged k s hk hm.2
    have hmem : k ∈ S.receivers m.room := by
      unfold Subscriptions.receivers
      rwa [← hm.1, ht]
    rw [if_pos hmem] at hval
    exact Or.inl ⟨hm, hval⟩
  · have hnot : k ∉ S.receivers m.room := by
      intro hmem
      unfold Subscriptions.receivers at hmem
      cases ht : S.subs m.room with
      | none =>
        rw [ht] at hmem
        exact absurd hmem (Finset.notMem_empty k)
      | some t =>
        rw [ht] at hmem
        obtain ⟨p, -, hall⟩ := h.subs m.room t ht
        obtain ⟨s', c, hs', hr, -, hmerged, -⟩ := hall k hmem
        obtain rfl := Option.some.inj (hk.symm.trans hs')
        exact hm ⟨hr, hmerged⟩
    rw [if_neg hnot, Subscriber.read_of_not hm] at hval
    exact Or.inr ⟨hm, hval⟩

/-- **A batch is handed over.** -/
theorem handOver (h : SubscriptionsOk S) {m : Batch β} {reply : List (Batch β)}
    (hloop : S.loop = .handing (m :: reply)) :
    SubscriptionsOk { S.handOver m with loop := .handing reply } := by
  have hbatches := h.loop
  rw [hloop] at hbatches
  have hm : BatchOk S m := hbatches.2 m List.mem_cons_self
  have hold : ∀ k s', (S.handOver m).subscriber k = some s' → ∃ s, S.subscriber k = some s := by
    intro k s' hk
    obtain ⟨s, hs, -⟩ := Option.map_eq_some_iff.mp hk
    exact ⟨s, hs⟩
  -- a subscriber keeps his room, and is taken over when he was
  have hnew : ∀ k s', (S.handOver m).subscriber k = some s' → ∃ s, S.subscriber k = some s ∧
      s'.room = s.room ∧ s'.merged = s.merged ∧
      (¬ (s.room = m.room ∧ s.merged = true) → s' = s) := by
    intro k s' hk
    obtain ⟨s, hs⟩ := hold k s' hk
    refine ⟨s, hs, ?_⟩
    rcases h.handOver_subscriber m hs with ⟨hroom, e⟩ | ⟨hroom, e⟩
    · obtain rfl := Option.some.inj (hk.symm.trans e)
      exact ⟨by simp, by simp, fun hn => absurd hroom hn⟩
    · obtain rfl := Option.some.inj (hk.symm.trans e)
      exact ⟨rfl, rfl, fun _ => rfl⟩
  exact {
    log_ok := h.log_ok
    live_suffix := h.live_suffix
    subscriber := fun k s' hk => by
      obtain ⟨s, hs⟩ := hold k s' hk
      obtain ⟨c₀, c, hsub⟩ := h.subscriber k s hs
      rcases h.handOver_subscriber m hs with ⟨⟨hr, hmerged⟩, e⟩ | ⟨-, e⟩
      · obtain rfl := Option.some.inj (hk.symm.trans e)
        obtain ⟨c', -, hsub', -⟩ := hm.receive (h.log_ok _) hs hr hmerged hsub
        simp only [Subscriber.read_room, Subscriber.receive_room]
        exact ⟨c₀, c', hsub'⟩
      · obtain rfl := Option.some.inj (hk.symm.trans e)
        exact ⟨c₀, c, hsub⟩
    waiting := fun k s' hk hmerged => by
      obtain ⟨s, hs, hr, hme, -⟩ := hnew k s' hk
      rw [hr]
      exact h.waiting k s hs (hme ▸ hmerged)
    merged := fun k s' hk hmerged => by
      obtain ⟨s, hs, hr, hme, -⟩ := hnew k s' hk
      obtain ⟨t, ht, hkt⟩ := h.merged k s hs (hme ▸ hmerged)
      rw [hr]
      have hreceived : ∃ t, S.subs.received m.ids s.room = some t ∧ k ∈ t.subs :=
        SubMap.mem_received ht hkt
      exact hreceived
    subUpdates := h.subUpdates.mono fun k s c q hs hc hle => by
      obtain ⟨c₀, c', hsub⟩ := h.subscriber k s hs
      obtain rfl := Option.some.inj (hc.symm.trans hsub.clock)
      rcases h.handOver_subscriber m hs with ⟨⟨hr, hmerged⟩, e⟩ | ⟨-, e⟩
      · obtain ⟨c', hle', hsub', -⟩ := hm.receive (h.log_ok _) hs hr hmerged hsub
        exact ⟨_, c', e, by simp, hsub'.clock, hle.trans hle'⟩
      · exact ⟨s, c, e, rfl, hc, hle⟩
    subs := fun room t ht => by
      have ht : S.subs.received m.ids room = some t := ht
      obtain ⟨t₀, ht₀, hmem, hclock⟩ := SubMap.of_received ht
      obtain ⟨p, hp, hall⟩ := h.subs room t₀ ht₀
      by_cases hr : room = m.room
      · subst hr
        simp only [Batch.ids, if_true, Option.map_some, Option.getD_some] at hclock
        refine ⟨m.last.id, hclock ▸ rfl, fun k hk => ?_⟩
        obtain ⟨s, c, hs, hroom, hc, hmerged, -⟩ := hall k (hmem ▸ hk)
        obtain ⟨c₀, c', hsub⟩ := h.subscriber k s hs
        rcases h.handOver_subscriber m hs with ⟨-, e⟩ | ⟨hn, -⟩
        · obtain ⟨c', -, hsub', hupto⟩ := hm.receive (h.log_ok _) hs hroom hmerged hsub
          refine ⟨_, c', e, by simpa using hroom, hsub'.clock, by simpa using hmerged, ?_⟩
          simp only [Subscriber.read_room, Subscriber.receive_room]
          exact hupto
        · exact absurd ⟨hroom, hmerged⟩ hn
      · simp only [Batch.ids, if_neg hr, Option.map_none, Option.getD_none] at hclock
        refine ⟨p, hclock ▸ hp, fun k hk => ?_⟩
        obtain ⟨s, c, hs, hroom, hc, hR⟩ := hall k (hmem ▸ hk)
        rcases h.handOver_subscriber m hs with ⟨hin, -⟩ | ⟨-, e⟩
        · exact absurd (hroom.symm.trans hin.1) hr
        · exact ⟨s, c, e, hroom, hc, hR⟩
    loop := by
      obtain ⟨hnodup, hall⟩ := hbatches
      obtain ⟨hne, hnodup⟩ := List.nodup_cons.mp hnodup
      refine ⟨hnodup, fun b hb => (hall b (List.mem_cons_of_mem _ hb)).mono rfl ?_⟩
      intro k s' hk hr _
      obtain ⟨s, hs, hroom, -, hsame⟩ := hnew k s' hk
      have hother : b.room ≠ m.room := fun e => hne (e ▸ List.mem_map_of_mem hb)
      obtain rfl := hsame fun hin => hother (hr.symm.trans (hroom.trans hin.1))
      exact hs }

/-- The loop gives up what it has, or is through with it. -/
theorem idle (h : SubscriptionsOk S) : SubscriptionsOk { S with loop := .idle } :=
  ⟨h.log_ok, h.live_suffix, h.subscriber, h.waiting, h.merged, h.subUpdates, h.subs, trivial⟩

/-- The step lemma. -/
theorem step {S' : Subscriptions β} (h : SubscriptionsOk S) (hs : SubscriptionsStep S S') :
    SubscriptionsOk S' := by
  cases hs with
  | addMessage room e hpos hid => exact h.addMessage hpos hid
  | trim room dropped rest hlive hread => exact h.trim hlive hread
  | subscribe k room c c₀ hk hc hlive => exact h.subscribe hk hc hlive
  | resubscribe k s hk => exact h.resubscribe hk
  | unsubscribe k s hk => exact h.unsubscribe hk
  | next hloop => exact h.next
  | reply ids reply hloop hrooms hreply => exact h.reply hloop hrooms hreply
  | handOver m reply hloop => exact h.handOver hloop
  | done hloop => exact h.idle
  | fail => exact h.idle

/-- The run lemma. -/
theorem of_reach (hS : SubscriptionsReach S) : SubscriptionsOk S := by
  induction hS with
  | refl => exact .empty
  | tail _ hstep ih => exact ih.step hstep

end SubscriptionsOk

/-! ## What is delivered -/

/-- **Ordered exactly-once delivery**: in every state of a run, a subscriber has been handed the
messages of his room that are after the clock he came with and not after the ids that were read for
his room since he was taken over, each of them once and in the order of their ids. -/
theorem delivered {S : Subscriptions β} (hS : SubscriptionsReach S) {k : Nat} {s : Subscriber β}
    (hk : S.subscriber k = some s) :
    s.handed = (messagesOf (S.log s.room)).filter
        (fun x => s.since.isSmaller (.id x.1) ∧ ∃ l ∈ s.reads, x.1 ≤ l) ∧
      s.handed.Pairwise fun a b => a.1 < b.1 := by
  have h := SubscriptionsOk.of_reach hS
  obtain ⟨c₀, c, hs⟩ := h.subscriber k s hk
  have hhanded : s.handed = (messagesOf (S.log s.room)).filter
      fun x => s.since.isSmaller (.id x.1) ∧ ∃ l ∈ s.reads, x.1 ≤ l := by
    rw [hs.handed]
    refine List.filter_congr fun x hx => ?_
    rw [decide_eq_decide, Clock.isSmaller_iff_lt hs.since rfl]
    constructor
    · rintro ⟨hlt, hle⟩
      -- his clock is the last id of a read, as it is not the one he came with
      have hread : c ∈ s.reads := hs.clock_read.resolve_left fun e => absurd hle (by simpa [e])
      exact ⟨hlt, c, hread, hle⟩
    · rintro ⟨hlt, l, hl, hle⟩
      refine ⟨hlt, not_lt.mp fun hcx => ?_⟩
      exact absurd hle (not_le.mpr (hs.read_lt x hx hcx l hl))
  refine ⟨hhanded, ?_⟩
  rw [hhanded]
  exact (sorted_messagesOf (h.log_ok _).sorted).filter _

/-- A room with an update: somebody subscribes from `'0'`, the loop takes him over, reads and hands
over. -/
theorem delivered_of_run :
    [(⟨1000, 0⟩, insertion 7 "user1")] = (messagesOf [⟨⟨1000, 0⟩, .m (insertion 7 "user1")⟩]).filter
      fun x : StreamId × Message RefPayload =>
        Clock.zero.isSmaller (.id x.1) ∧ ∃ l ∈ [(⟨1000, 0⟩ : StreamId)], x.1 ≤ l := by
  have h₁ : SubscriptionsReach (β := RefPayload) _ := Relation.ReflTransGen.refl.tail
    (SubscriptionsStep.addMessage _ Room.a ⟨⟨1000, 0⟩, .m (insertion 7 "user1")⟩ (by decide)
      fun x hx => absurd hx List.not_mem_nil)
  have h₂ := h₁.tail (SubscriptionsStep.subscribe _ 0 Room.a .zero .zero rfl rfl fun e he _ => he)
  have h₃ := h₂.tail (SubscriptionsStep.next _ rfl)
  have h₄ := h₃.tail (SubscriptionsStep.reply _ _
    [⟨Room.a, [], ⟨⟨1000, 0⟩, .m (insertion 7 "user1")⟩⟩] rfl (List.nodup_singleton _) ?_)
  · have h₅ := h₄.tail (SubscriptionsStep.handOver _ _ [] rfl)
    exact (delivered h₅ (k := 0) (s := ⟨Room.a, .id ⟨1000, 0⟩, .zero, true, [⟨1000, 0⟩],
      [(⟨1000, 0⟩, insertion 7 "user1")]⟩) (by rfl)).1
  · intro m hm
    obtain rfl := List.mem_singleton.mp hm
    exact ⟨.zero, rfl, .zero, rfl, rfl⟩

end YHub
