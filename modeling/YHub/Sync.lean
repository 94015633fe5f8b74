import YHub.Delivery
import YHub.ReadYourWrites

/-!
# What a client is synced with (`server.js:190-237`, `server.js:401-441`)

A client gets the document of one `getDoc` call when its connection opens, and from then on what the
subscription loop hands to the connection: the updates of a batch, merged into one. Meanwhile
workers compact the room, the stream is trimmed, and messages are added.

`Synced` puts the two runs together that the room takes part in: that of its workers and readers
(`System.lean`) and that of the subscription loop (`Delivery.lean`), which is over one stream. A
step (`SyncStep`) is one of the hub, which the streams of the loop follow, or one of the loop; a
connection that opens takes the document that a reader has returned, and subscribes from its last
clock. `sent` is what has been sent to a connection.

Entries stay on the stream until those have read them who are subscribed (`Delivery.lean`), and the
stream is read while it has what the rows do not (`Snapshot.lean`).

* `sent_represents`: in every state of a run, what has been sent to a connection is the join of the
  updates of the log up to its clock: nothing is missing and nothing else is there.
* `clients_converge`: clients that are up to date have the same document, whenever they connected
  and whatever was compacted in between, and whatever they have sent themselves.
-/

namespace YHub

variable {β : Type}

open SortedLog

/-! ## Frames -/

/-- What is sent to a client. The awareness is encoded already. -/
inductive Outgoing (β : Type) where
  | syncStep1 (sv : β)
  | syncStep2 (diff : β)
  | syncUpdate (update : β)
  | awareness (update : β)

/-- The update that the client integrates. -/
def Outgoing.update? : Outgoing β → Option β
  | syncStep2 diff => some diff
  | syncUpdate update => some update
  | _ => none

/-- What the frames give to a client. -/
def received (fs : List (Outgoing β)) : List β := fs.filterMap Outgoing.update?

/-- What the handler `open` asks `getDoc` for. -/
def openInclude (gc : Bool) : Include := { gc := gc, nongc := !gc, awareness := true }

/-- What `open` and `onStreamMessage` need of Yjs besides. -/
structure Syncing (β : Type) where
  computeStateVector : β → β
  byteLength : β → Nat
  /-- The update of a new document. -/
  emptyDoc : β

section Frames

variable (Y : Yjs β) (E : Syncing β)

/-- The frames of `open`. -/
def initialSync (d : DocTable β) : List (Outgoing β) :=
  let ydoc := (d.gcDoc.or d.nongcDoc).getD E.emptyDoc
  [.syncStep1 (E.computeStateVector ydoc), .syncStep2 ydoc] ++
    (d.awareness.filter fun aw => 3 < E.byteLength aw).toList.map .awareness

/-- The frames of `onStreamMessage`. -/
def relay (ms : List (StreamId × Message β)) : List (Outgoing β) :=
  let ydocUpdates := (updatesIn ms).map Update.update
  let awarenessUpdates := awarenessIn ms
  (if ydocUpdates = [] then [] else [.syncUpdate (Y.mergeUpdates false ydocUpdates none)]) ++
    if awarenessUpdates = [] then [] else [.awareness (Y.mergeAwarenessUpdates awarenessUpdates)]

end Frames

/-! ## The room and the loop -/

structure Synced (β : Type) where
  room : Interleave.State (Hub β) Nat (Proc β)
  loop : Subscriptions β
  /-- The frames that were sent to a connection. -/
  sent : Nat → Option (List (Outgoing β))

/-- No messages, nobody connected. -/
def Synced.empty : Synced β := ⟨(Hub.empty, fun _ => .idle), .empty, fun _ => none⟩

/-- The messages of a batch that are newer than the clock of a subscriber. -/
def Subscriber.newer (m : Batch β) (s : Subscriber β) : List (StreamId × Message β) :=
  m.messages.filter fun x => s.lastReceivedClock.isSmaller (.id x.1)

/-- The frames after a batch has been handed over. -/
def sentAfter (Y : Yjs β) (m : Batch β) (S : Subscriptions β)
    (sent : Nat → Option (List (Outgoing β))) (k : Nat) : Option (List (Outgoing β)) :=
  match sent k, S.subscriber k with
  | some fs, some s => some (if k ∈ S.receivers m.room then fs ++ relay Y (s.newer m) else fs)
  | fs, _ => fs

/-- What some steps leave alone of the subscribers that are connections of the room. -/
def SameHanded (sent : Nat → Option (List (Outgoing β))) (S S' : Subscriptions β) : Prop :=
  ∀ k s, (sent k).isSome = true → S.subscriber k = some s → ∃ s', S'.subscriber k = some s' ∧
    s'.room = s.room ∧ s'.since = s.since ∧ s'.handed = s.handed

variable (C : Conf β) (E : Syncing β) (r : Room)

/-- The steps of the hub of the room `r`. -/
abbrev RoomStep (admits : Message β → Prop)
    (fires : Interleave.State (Hub β) Nat (Proc β) → ObjectId → Prop)
    (reads : Hub β → Retrieval β → Prop) :
    Interleave.State (Hub β) Nat (Proc β) → Interleave.State (Hub β) Nat (Proc β) → Prop :=
  Interleave.Step (World r admits fires) fun s p s' p' =>
    WorkerStep C r s p s' p' ∨ ReadStep C r reads s p s' p'

inductive SyncStep (admits : Message β → Prop)
    (fires : Interleave.State (Hub β) Nat (Proc β) → ObjectId → Prop)
    (reads : Hub β → Retrieval β → Prop) : Synced β → Synced β → Prop
  /-- The stream stays. -/
  | room (x : Synced β) (y : Interleave.State (Hub β) Nat (Proc β))
      (h : RoomStep C r admits fires reads x.room y) (hlog : y.1.log = x.room.1.log)
      (hlive : y.1.live r = x.room.1.live r) :
      SyncStep admits fires reads x { x with room := y }
  /-- An entry is added, or entries are trimmed. -/
  | stream (x : Synced β) (y : Interleave.State (Hub β) Nat (Proc β)) (S : Subscriptions β)
      (h : RoomStep C r admits fires reads x.room y) (hS : SubscriptionsStep x.loop S)
      (hlog : S.log r = y.1.log) (hlive : S.live r = y.1.live r)
      (hsame : SameHanded x.sent x.loop S) :
      SyncStep admits fires reads x { x with room := y, loop := S }
  /-- The loop goes on, other rooms change. -/
  | loop (x : Synced β) (S : Subscriptions β) (hS : SubscriptionsStep x.loop S)
      (hlog : S.log r = x.loop.log r) (hlive : S.live r = x.loop.live r)
      (hsame : SameHanded x.sent x.loop S) : SyncStep admits fires reads x { x with loop := S }
  | connect (x : Synced β) (k j : Nat) (gc : Bool) (d : DocTable β)
      (hj : x.room.2 j = .returned (openInclude gc) d) (hk : x.loop.subscriber k = none)
      (hlive : ∀ e ∈ x.loop.log r, d.lastClock.isSmaller (.id e.id) = true → e ∈ x.loop.live r) :
      SyncStep admits fires reads x { x with
        loop := { x.loop with
          subUpdates := x.loop.subUpdates.subscribe r k d.lastClock
          subscriber := Function.update x.loop.subscriber k
            (some ⟨r, d.lastClock, d.lastClock, false, [], []⟩) }
        sent := Function.update x.sent k (some (initialSync E d)) }
  | handOver (x : Synced β) (m : Batch β) (reply : List (Batch β))
      (hloop : x.loop.loop = .handing (m :: reply)) :
      SyncStep admits fires reads x { x with
        loop := { x.loop.handOver m with loop := .handing reply }
        sent := sentAfter C.Y m x.loop x.sent }
  | close (x : Synced β) (k : Nat) (s : Subscriber β) (hk : x.loop.subscriber k = some s) :
      SyncStep admits fires reads x { x with
        loop := { x.loop with
          subUpdates := x.loop.subUpdates.unsubscribe s.room k
          subs := x.loop.subs.unsubscribe s.room k
          subscriber := Function.update x.loop.subscriber k none }
        sent := Function.update x.sent k none }

/-- The states of the runs from an empty room. -/
abbrev SyncReach (admits : Message β → Prop)
    (fires : Interleave.State (Hub β) Nat (Proc β) → ObjectId → Prop)
    (reads : Hub β → Retrieval β → Prop) : Synced β → Prop :=
  Relation.ReflTransGen (SyncStep C E r admits fires reads) Synced.empty

/-! ## Batches -/

namespace Subscriber

variable {m : Batch β} {s : Subscriber β}

@[simp] theorem receive_since : (s.receive m).since = s.since := by
  unfold receive
  simp only
  split <;> rfl

@[simp] theorem read_since : (s.read m).since = s.since := by
  unfold read
  split <;> rfl

@[simp] theorem read_handed : (s.read m).handed = s.handed := by
  unfold read
  split <;> rfl

theorem receive_handed : (s.receive m).handed = s.handed ++ s.newer m := by
  unfold receive
  simp only
  split_ifs with hlen
  · rfl
  · have hnil : s.newer m = [] := List.length_eq_zero_iff.mp (by simpa [newer] using hlen)
    rw [hnil, List.append_nil]

end Subscriber

/-- The updates among the messages between two ids. -/
theorem updatesIn_between {log : List (Entry (Message β))} (hlog : LogOk log) (s t : StreamId) :
    updatesIn (between Prod.fst s t (messagesOf log)) = between Update.id s t (updates log) := by
  have hsorted := sorted_messagesOf hlog.sorted
  refine eq_of_mem_iff (sorted_updatesIn (hsorted.filter _))
    ((sorted_updates hlog.sorted).filter _) fun u => ?_
  rw [mem_updatesIn, mem_between, mem_between, updates, mem_updatesIn]

/-! ## The invariant -/

variable [Preorder β] {C E r} {admits : Message β → Prop}
  {fires : Interleave.State (Hub β) Nat (Proc β) → ObjectId → Prop}
  {reads : Hub β → Retrieval β → Prop} {x y : Synced β}
  {p q : Interleave.State (Hub β) Nat (Proc β)}

/-- **What a connection has been sent**: the join of the updates up to the clock it came with, and
of those it was handed. -/
structure ConnOk (r : Room) (log : List (Entry (Message β))) (s : Subscriber β)
    (fs : List (Outgoing β)) (c₀ : StreamId) (doc : β) : Prop where
  room : s.room = r
  since : ClockAt log s.since c₀
  isJoin : IsJoin (updatesUpTo log c₀) doc
  le_iff : ∀ v, (∀ u ∈ received fs, u ≤ v) ↔ doc ≤ v ∧ ∀ u ∈ updatesIn s.handed, u.update ≤ v

/-- **The invariant**: both parts run as they do on their own, over one stream. -/
structure SyncOk (C : Conf β) (r : Room) (admits : Message β → Prop)
    (fires : Interleave.State (Hub β) Nat (Proc β) → ObjectId → Prop)
    (reads : Hub β → Retrieval β → Prop) (x : Synced β) : Prop where
  room : HubReach C r admits fires reads x.room
  loop : SubscriptionsReach x.loop
  log : x.loop.log r = x.room.1.log
  live : x.loop.live r = x.room.1.live r
  conns : ∀ k fs, x.sent k = some fs → ∃ s c₀ doc, x.loop.subscriber k = some s ∧
    ConnOk r x.room.1.log s fs c₀ doc

namespace ConnOk

variable {log : List (Entry (Message β))} {s s' : Subscriber β} {fs : List (Outgoing β)}
  {c₀ : StreamId} {doc : β}

/-- The log grows. -/
theorem append (h : ConnOk r log s fs c₀ doc) {more : List (Entry (Message β))}
    (hlog : LogOk (log ++ more)) : ConnOk r (log ++ more) s fs c₀ doc := by
  refine ⟨h.room, h.since.append, ?_, h.le_iff⟩
  rw [updatesUpTo_append fun e he => h.since.lt_of_mem hlog he]
  exact h.isJoin

/-- The subscriber has been handed nothing. -/
theorem same (h : ConnOk r log s fs c₀ doc) (hroom : s'.room = s.room) (hsince : s'.since = s.since)
    (hhanded : s'.handed = s.handed) : ConnOk r log s' fs c₀ doc :=
  ⟨hroom.trans h.room, hsince ▸ h.since, h.isJoin, hhanded ▸ h.le_iff⟩

end ConnOk

omit [Preorder β] in
@[simp] theorem received_append (fs gs : List (Outgoing β)) :
    received (fs ++ gs) = received fs ++ received gs := List.filterMap_append

omit [Preorder β] in
/-- The frames of `open` give the document. -/
theorem received_initialSync (d : DocTable β) :
    received (initialSync E d) = [(d.gcDoc.or d.nongcDoc).getD E.emptyDoc] := by
  have hawareness (o : Option β) : received (o.toList.map Outgoing.awareness) = [] := by
    cases o <;> rfl
  rw [initialSync, received_append, hawareness, List.append_nil]
  rfl

/-- **The frames of a batch give its updates.** -/
theorem relay_le_iff {Y : Yjs β} (hY : Y.Lawful) (ms : List (StreamId × Message β)) (v : β) :
    (∀ u ∈ received (relay Y ms), u ≤ v) ↔ ∀ u ∈ updatesIn ms, u.update ≤ v := by
  have hawareness : received (if awarenessIn ms = [] then [] else
      [.awareness (Y.mergeAwarenessUpdates (awarenessIn ms))]) = [] := by
    split_ifs <;> rfl
  unfold relay
  simp only [received_append, hawareness, List.append_nil]
  have hmap : (∀ u ∈ updatesIn ms, u.update ≤ v) ↔
      ∀ w ∈ (updatesIn ms).map Update.update, w ≤ v := by rw [List.forall_mem_map]
  rw [hmap]
  split_ifs with hnil
  · rw [hnil]
    simp [received]
  · have hmerged := hY.mergeUpdates false ((updatesIn ms).map Update.update) none
    simp only [received, List.filterMap_cons, Outgoing.update?, List.filterMap_nil,
      List.mem_singleton, forall_eq]
    exact isLUB_le_iff hmerged

/-- More messages are handed over, and relayed. -/
theorem ConnOk.relay {Y : Yjs β} (hY : Y.Lawful) {log : List (Entry (Message β))}
    {s s' : Subscriber β} {fs : List (Outgoing β)} {c₀ : StreamId} {doc : β}
    (h : ConnOk r log s fs c₀ doc) {ms : List (StreamId × Message β)} (hroom : s'.room = s.room)
    (hsince : s'.since = s.since) (hhanded : s'.handed = s.handed ++ ms) :
    ConnOk r log s' (fs ++ YHub.relay Y ms) c₀ doc := by
  refine ⟨hroom.trans h.room, hsince ▸ h.since, h.isJoin, fun v => ?_⟩
  have hupdates : updatesIn s'.handed = updatesIn s.handed ++ updatesIn ms := by
    rw [hhanded]
    exact List.filterMap_append
  rw [received_append, List.forall_mem_append, h.le_iff, relay_le_iff hY, hupdates,
    List.forall_mem_append, and_assoc]

/-! ## The steps -/

omit [Preorder β] in
/-- What was not asked for is not returned. -/
theorem gcDoc_of_returned (h : HubReach C r admits fires reads p) {k : Nat} {i : Include}
    {d : DocTable β} (hk : p.2 k = .returned i d) (hi : i.gc = false) : d.gcDoc = none := by
  have hall : Interleave.Holds (fun _ : Hub β => True)
      (fun _ q => ∀ i d, q = Proc.returned i d → i.gc = false → d.gcDoc = none) p := by
    refine Interleave.reach_invariant ⟨trivial, fun _ i d he => absurd he (by simp)⟩
      (fun s ps s' h _ => h) (fun s q s' q' _ _ hstep => ⟨trivial, ?_, fun _ hk => hk⟩) h
    rintro i d rfl hi
    rcases hstep with hstep | hstep
    · cases hstep
    · cases hstep with
      | finish i gcOnMerge g d hd =>
        obtain ⟨cached, ra, -, -, -, rfl⟩ := hd
        simp [getDoc, merging, Merging.start, foldl_add_gcDoc, retrieveDoc, hi]
  exact hall.2 k i d hk hi

section Steps

variable (hY : C.Y.Lawful) (hsort : SortSpec C.sort)
  (hfires : ∀ x o, fires x o → Unreferenced r x o)
  (hreads : ∀ s g, reads s g → ReadsSafely r s g)

include hY hsort hfires hreads

/-- The hub loses nothing. -/
theorem remembers_of_roomStep (hp : HubReach C r admits fires reads p)
    (h : RoomStep C r admits fires reads p q) :
    p.1.Remembers q.1 ∧ LogOk q.1.log := by
  have hq : HubReach C r admits fires reads q := hp.tail h
  refine ⟨?_, (hub_invariant hY hsort hfires hreads hq).1.log_ok⟩
  obtain ⟨hs, hps⟩ := hub_invariant hY hsort hfires hreads hp
  cases h with
  | env s ps s' hw => exact world_remembers hs hfires hw
  | proc s ps i s' p' hstep => exact proc_remembers hY hsort hreads hs (hps i) hstep

/-- **A step of the hub**, which the streams of the loop follow. -/
theorem SyncOk.follow (h : SyncOk C r admits fires reads x) {S : Subscriptions β}
    (hq : RoomStep C r admits fires reads x.room q)
    (hS : S = x.loop ∨ SubscriptionsStep x.loop S) (hlog : S.log r = q.1.log)
    (hlive : S.live r = q.1.live r) (hsame : SameHanded x.sent x.loop S) :
    SyncOk C r admits fires reads { x with room := q, loop := S } := by
  obtain ⟨⟨⟨more, hmore⟩, -⟩, hok⟩ := remembers_of_roomStep hY hsort hfires hreads h.room hq
  refine ⟨h.room.tail hq, ?_, hlog, hlive, fun k fs hk => ?_⟩
  · rcases hS with rfl | hS
    · exact h.loop
    · exact h.loop.tail hS
  · obtain ⟨s, c₀, doc, hs, hconn⟩ := h.conns k fs hk
    obtain ⟨s', hs', hroom, hsince, hhanded⟩ := hsame k s (by rw [hk]; rfl) hs
    refine ⟨s', c₀, doc, hs', ?_⟩
    have hconn' := (hconn.append (hmore ▸ hok)).same hroom hsince hhanded
    rwa [← hmore] at hconn'

/-- **A connection opens**: it is sent what a reader has returned. -/
theorem SyncOk.connect (h : SyncOk C r admits fires reads x) {k j : Nat} {gc : Bool}
    {d : DocTable β}
    (hj : x.room.2 j = .returned (openInclude gc) d) (hk : x.loop.subscriber k = none)
    (hlive : ∀ e ∈ x.loop.log r, d.lastClock.isSmaller (.id e.id) = true → e ∈ x.loop.live r) :
    SyncOk C r admits fires reads { x with
      loop := { x.loop with
        subUpdates := x.loop.subUpdates.subscribe r k d.lastClock
        subscriber := Function.update x.loop.subscriber k
          (some ⟨r, d.lastClock, d.lastClock, false, [], []⟩) }
      sent := Function.update x.sent k (some (initialSync E d)) } := by
  obtain ⟨l, hret⟩ := returnedOk_of_reach hY hsort hfires hreads h.room hj
  refine ⟨h.room, h.loop.tail (SubscriptionsStep.subscribe x.loop k r d.lastClock l hk
    hret.clock.toId? hlive), h.log, h.live, fun k' fs hk' => ?_⟩
  simp only at hk' ⊢
  rcases Interleave.update_cases hk' with ⟨rfl, he⟩ | ⟨hne, he⟩
  · obtain rfl := Option.some.inj he
    refine ⟨_, l, (d.gcDoc.or d.nongcDoc).getD E.emptyDoc, Function.update_self .., rfl, hret.clock,
      ?_, fun v => ?_⟩
    · refine hret.isJoin ?_
      cases gc with
      | true =>
        obtain ⟨g, hg, -⟩ := hret.docs.1 rfl
        exact .inl ⟨rfl, by rw [hg]; rfl⟩
      | false =>
        obtain ⟨n, hn, -⟩ := hret.docs.2 rfl
        exact .inr ⟨rfl, by rw [gcDoc_of_returned h.room hj rfl, hn]; rfl⟩
    · rw [received_initialSync]
      simp [updatesIn]
  · obtain ⟨s, c₀, doc, hs, hconn⟩ := h.conns k' fs he
    exact ⟨s, c₀, doc, by rwa [Function.update_of_ne hne], hconn⟩

omit hsort hfires hreads in
/-- **A batch is handed over.** -/
theorem SyncOk.handOver (h : SyncOk C r admits fires reads x) {m : Batch β}
    {reply : List (Batch β)} (hloop : x.loop.loop = .handing (m :: reply)) :
    SyncOk C r admits fires reads { x with
      loop := { x.loop.handOver m with loop := .handing reply }
      sent := sentAfter C.Y m x.loop x.sent } := by
  refine ⟨h.room, h.loop.tail (SubscriptionsStep.handOver x.loop m reply hloop), h.log, h.live,
    fun k fs hk => ?_⟩
  simp only at hk ⊢
  unfold sentAfter at hk
  cases hsent : x.sent k with
  | none =>
    rw [hsent] at hk
    exact absurd hk (by simp)
  | some fs₀ =>
    obtain ⟨s, c₀, doc, hs, hconn⟩ := h.conns k fs₀ hsent
    rw [hsent, hs] at hk
    obtain rfl := Option.some.inj hk
    refine ⟨(if k ∈ x.loop.receivers m.room then s.receive m else s).read m, c₀, doc, ?_, ?_⟩
    · show (x.loop.subscriber k).map _ = _
      rw [hs]
      rfl
    · split_ifs
      · exact hconn.relay hY (by simp) (by simp) (by rw [Subscriber.read_handed,
          Subscriber.receive_handed])
      · exact hconn.same (by simp) (by simp) (by simp)

/-- The step lemma. -/
theorem SyncOk.step (h : SyncOk C r admits fires reads x)
    (hstep : SyncStep C E r admits fires reads x y) : SyncOk C r admits fires reads y := by
  cases hstep with
  | room q hq hlog hlive =>
    exact h.follow hY hsort hfires hreads hq (.inl rfl) (h.log.trans hlog.symm)
      (h.live.trans hlive.symm) fun k s _ hs => ⟨s, hs, rfl, rfl, rfl⟩
  | stream q S hq hS hlog hlive hsame =>
    exact h.follow hY hsort hfires hreads hq (.inr hS) hlog hlive hsame
  | loop S hS hlog hlive hsame =>
    refine ⟨h.room, h.loop.tail hS, hlog.trans h.log, hlive.trans h.live, fun k fs hk => ?_⟩
    obtain ⟨s, c₀, doc, hs, hconn⟩ := h.conns k fs hk
    obtain ⟨s', hs', hroom, hsince, hhanded⟩ := hsame k s (by rw [hk]; rfl) hs
    exact ⟨s', c₀, doc, hs', hconn.same hroom hsince hhanded⟩
  | connect k j gc d hj hk hlive => exact h.connect hY hsort hfires hreads hj hk hlive
  | handOver m reply hloop => exact h.handOver hY hloop
  | close k s hk =>
    refine ⟨h.room, h.loop.tail (SubscriptionsStep.unsubscribe x.loop k s hk), h.log, h.live,
      fun k' fs hk' => ?_⟩
    simp only at hk' ⊢
    rcases Interleave.update_cases hk' with ⟨rfl, he⟩ | ⟨hne, he⟩
    · exact absurd he (by simp)
    · obtain ⟨s', c₀, doc, hs', hconn⟩ := h.conns k' fs he
      exact ⟨s', c₀, doc, by rwa [Function.update_of_ne hne], hconn⟩

/-- The run lemma. -/
theorem SyncOk.of_reach (hx : SyncReach C E r admits fires reads x) :
    SyncOk C r admits fires reads x := by
  induction hx with
  | refl => exact ⟨.refl, .refl, rfl, rfl, fun k fs hk => absurd hk (by simp [Synced.empty])⟩
  | tail _ hstep ih => exact ih.step hY hsort hfires hreads hstep

/-! ## What clients have -/

/-- What has been sent to a connection stands for the log up to its clock. -/
theorem SyncOk.represents (h : SyncOk C r admits fires reads x) {k : Nat} {fs : List (Outgoing β)}
    (hk : x.sent k = some fs) : ∃ s c, x.loop.subscriber k = some s ∧
      s.lastReceivedClock.toId? = some c ∧
        ∀ gc, IsJoin (updatesUpTo x.room.1.log c) (C.Y.mergeUpdates gc (received fs) none) := by
  obtain ⟨s, c₀, doc, hs, hconn⟩ := h.conns k fs hk
  obtain ⟨c₁, c, hsub⟩ := (SubscriptionsOk.of_reach h.loop).subscriber k s hs
  obtain rfl := Option.some.inj (hconn.since.toId?.symm.trans hsub.since)
  have hlog : x.loop.log s.room = x.room.1.log := by rw [hconn.room, h.log]
  have hok : HubOk C r x.room.1 := (hub_invariant hY hsort hfires hreads h.room).1
  -- the updates up to the clock: those of the document, and those that were handed over
  have hsplit : updatesUpTo x.room.1.log c =
      updatesUpTo x.room.1.log c₀ ++ updatesIn s.handed := by
    rw [updatesUpTo_split (sorted_updates hok.log_ok.sorted) hsub.le, hsub.handed, hlog,
      updatesIn_between hok.log_ok]
  refine ⟨s, c, hs, hsub.clock, fun gc => isLUB_iff_le_iff.mpr fun v => ?_⟩
  calc C.Y.mergeUpdates gc (received fs) none ≤ v
      ↔ ∀ u ∈ received fs, u ≤ v := isLUB_le_iff (hY.mergeUpdates gc (received fs) none)
    _ ↔ doc ≤ v ∧ ∀ u ∈ updatesIn s.handed, u.update ≤ v := hconn.le_iff v
    _ ↔ (∀ u ∈ updatesUpTo x.room.1.log c₀, u.update ≤ v) ∧
          ∀ u ∈ updatesIn s.handed, u.update ≤ v := by
      rw [isLUB_le_iff hconn.isJoin]
      exact and_congr_left' List.forall_mem_map
    _ ↔ ∀ u ∈ updatesUpTo x.room.1.log c, u.update ≤ v := by
      rw [hsplit, List.forall_mem_append]
    _ ↔ v ∈ upperBounds {w | w ∈ (updatesUpTo x.room.1.log c).map Update.update} := by
      show _ ↔ ∀ w ∈ (updatesUpTo x.room.1.log c).map Update.update, w ≤ v
      rw [List.forall_mem_map]

/-- The clock of the connection is not below any update. -/
def Synced.UpToDate (x : Synced β) (k : Nat) : Prop :=
  ∃ s, x.loop.subscriber k = some s ∧
    ∀ u ∈ updates x.room.1.log, s.lastReceivedClock.isSmaller (.id u.id) = false

/-- The document of the client of a connection: what it has been sent, and what it has written
itself, all of which has been added to the stream. -/
def Synced.ClientDoc (Y : Yjs β) (x : Synced β) (k : Nat) (doc : β) : Prop :=
  ∃ fs own gc, x.sent k = some fs ∧ (∀ w ∈ own, ∃ u ∈ updates x.room.1.log, u.update = w) ∧
    doc = Y.mergeUpdates gc (received fs ++ own) none

/-- An up-to-date client has all updates of the log, and nothing else. -/
theorem isJoin_clientDoc (hx : SyncReach C E r admits fires reads x) {k : Nat} {doc : β}
    (hdoc : x.ClientDoc C.Y k doc) (hup : x.UpToDate k) : IsJoin (updates x.room.1.log) doc := by
  obtain ⟨fs, own, gc, hk, hown, rfl⟩ := hdoc
  obtain ⟨s, hs, hall⟩ := hup
  obtain ⟨s', c, hs', hc, hjoin⟩ := (SyncOk.of_reach hY hsort hfires hreads hx).represents hY hsort
    hfires hreads hk
  obtain rfl := Option.some.inj (hs.symm.trans hs')
  have hle : ∀ u ∈ updates x.room.1.log, u.id ≤ c := fun u hu =>
    (Clock.not_isSmaller_iff_le hc rfl).mp (hall u hu)
  have hsent := hjoin gc
  rw [updatesUpTo, upTo_eq_self hle] at hsent
  have hmerged := hY.mergeUpdates gc (received fs ++ own) none
  have hpart : C.Y.mergeUpdates gc (received fs) none ≤
      C.Y.mergeUpdates gc (received fs ++ own) none :=
    hY.merge_le (fun u hu => hmerged.1 (List.mem_append_left _ hu)) gc none
  refine ⟨fun w hw => (hsent.1 hw).trans hpart, fun v hv => hmerged.2 fun w hw => ?_⟩
  rcases List.mem_append.mp hw with hw | hw
  · exact (hY.le_merge hw gc none).trans (hsent.2 hv)
  · obtain ⟨u, hu, rfl⟩ := hown w hw
    exact hv (List.mem_map_of_mem hu)

end Steps

/-! ## Two clients -/

section Clients

/-- The state vector of the reference implementation is the document. -/
def refSyncing : Syncing RefPayload := ⟨id, fun u => 2 + 2 * u.ops.length, .doc []⟩

/-- The runs of the example: a `getDoc` call reads the stream first. -/
abbrev RefSyncStep : Synced RefPayload → Synced RefPayload → Prop :=
  SyncStep (.ref []) refSyncing Room.a (fun _ => True) (fun x o => Unreferenced Room.a x o)
    (ReadsFresh Room.a)

/-- An undisturbed `getDoc` call of a reader. -/
theorem reader_run (x : Synced RefPayload) (i : Include) (k : Nat) (hk : x.room.2 k = .idle) :
    Relation.ReflTransGen RefSyncStep x { x with room := (x.room.1, Function.update x.room.2 k
      (.returned i (x.room.1.getDoc (.ref []) Room.a i false))) } := by
  have hcall : Interleave.Alone (ReadStep (.ref []) Room.a (ReadsFresh Room.a))
      (x.room.1, .idle) (x.room.1, .returned i (x.room.1.getDoc (.ref []) Room.a i false)) :=
    readDoc_alone (readsFresh_start x.room.1)
  have hrun := Interleave.run_alone (i := k)
    (R := fun p q => RefSyncStep { x with room := p } { x with room := q })
    (fun ps s s' p hstep => ?_) hcall hk
  · exact hrun.lift (fun p => { x with room := p }) fun p q h => h
  · obtain rfl : s' = s := by
      generalize ps k = q at hstep
      cases hstep <;> rfl
    exact SyncStep.room _ _ (Interleave.Step.proc _ _ k _ _ (.inr hstep)) rfl rfl

/-- What a worker does up to its trim. -/
theorem worker_run (x : Synced RefPayload) (k : Nat) (hk : x.room.2 k = .idle)
    {z : Hub RefPayload × Proc RefPayload}
    (h : WorkerAlone (.ref []) Room.a (x.room.1, .idle) z) (hz : z.2.Untrimmed) :
    Relation.ReflTransGen RefSyncStep x { x with
      room := (z.1, Function.update x.room.2 k z.2) } := by
  have hrun := Interleave.run_alone (i := k)
    (R := fun p q => RefSyncStep { x with room := p } { x with room := q })
    (fun ps s s' p hstep => ?_) (untrimmed_alone h hz) hk
  · exact hrun.lift (fun p => { x with room := p }) fun p q h => h
  · obtain ⟨hstep, hredis, hlog⟩ := hstep
    have hlive : s'.live Room.a = s.live Room.a := by
      unfold Hub.live
      rw [hredis]
    exact SyncStep.room _ _ (Interleave.Step.proc _ _ k _ _ (.inl hstep)) hlog hlive

theorem emptied_log : emptied.log = twoUpdates.log := by decide +kernel

theorem emptied_live : emptied.live Room.a = [] := by decide +kernel

/-- The document that the first client gets. -/
def firstDoc : DocTable RefPayload := oneUpdate.getDoc (.ref []) Room.a (openInclude true) false

/-- The document that the second client gets. -/
def laterDoc : DocTable RefPayload := emptied.getDoc (.ref []) Room.a (openInclude true) false

/-- The entry of the second update. -/
def secondEntry : Entry (Message RefPayload) := ⟨⟨2000, 0⟩, .m (insertion 8 "user2")⟩

/-- **A run**: a client opens, is handed a batch, the room is compacted and trimmed, and another
client opens. -/
theorem twoClients_reach : ∃ x, Relation.ReflTransGen RefSyncStep Synced.empty x ∧
    x.room.1 = emptied ∧ x.room.2 2 = .returned (openInclude true) laterDoc ∧
    x.sent 0 = some (initialSync refSyncing firstDoc ++
      relay yjsRef [(⟨2000, 0⟩, insertion 8 "user2")]) ∧
    x.sent 1 = some (initialSync refSyncing laterDoc) ∧
    x.loop.subscriber 0 = some ⟨Room.a, .id ⟨2000, 0⟩, firstDoc.lastClock, true, [⟨2000, 0⟩],
      [(⟨2000, 0⟩, insertion 8 "user2")]⟩ ∧
    x.loop.subscriber 1 = some ⟨Room.a, laterDoc.lastClock, laterDoc.lastClock, false, [], []⟩ := by
  have h₁ : Relation.ReflTransGen RefSyncStep Synced.empty _ := Relation.ReflTransGen.refl.tail
    (SyncStep.stream Synced.empty (oneUpdate, fun _ => .idle) _
      (Interleave.Step.env _ _ _ (World.addMessage _ _ 1000 (insertion 7 "user1") trivial
        fun _ he => absurd he List.not_mem_nil))
      (SubscriptionsStep.addMessage Subscriptions.empty Room.a
        ⟨⟨1000, 0⟩, .m (insertion 7 "user1")⟩ (by decide) fun x hx => absurd hx List.not_mem_nil)
      rfl rfl fun k s _ hs => absurd hs (by simp [Synced.empty, Subscriptions.empty]))
  have h₂ := h₁.trans (reader_run _ (openInclude true) 0 rfl)
  have h₃ := h₂.tail (SyncStep.connect _ 0 0 true firstDoc rfl rfl fun e he _ => he)
  have h₄ := h₃.tail (SyncStep.stream _ (twoUpdates, _) _
      (Interleave.Step.env _ _ _ (World.addMessage _ _ 2000 (insertion 8 "user2") trivial
        (by decide)))
      (SubscriptionsStep.addMessage _ Room.a secondEntry (by decide) (by decide))
      rfl rfl fun k s _ hs => ⟨s, hs, rfl, rfl, rfl⟩)
  have h₅ := h₄.tail (SyncStep.loop _ _ (SubscriptionsStep.next _ rfl) rfl rfl
    fun k s _ hs => ⟨_, congrArg (Option.map _) hs, rfl, rfl, rfl⟩)
  have h₆ := h₅.tail (SyncStep.loop _ _ (SubscriptionsStep.reply _ _ [⟨Room.a, [], secondEntry⟩] rfl
    (List.nodup_singleton _) (List.forall_mem_singleton.mpr ⟨firstDoc.lastClock, rfl, ⟨1000, 0⟩,
      rfl, rfl⟩)) rfl rfl fun k s _ hs => ⟨s, hs, rfl, rfl, rfl⟩)
  have h₇ := h₆.tail (SyncStep.handOver _ _ [] rfl)
  have h₈ := h₇.tail (SyncStep.loop _ _ (SubscriptionsStep.done _ rfl) rfl rfl
    fun k s _ hs => ⟨s, hs, rfl, rfl, rfl⟩)
  obtain ⟨c, -, hworker, hrun⟩ := @compacted_alone _ (.ref []) Room.a twoUpdates (by decide)
    (by decide) ⟨1000, 0⟩
  have h₉ := h₈.trans (worker_run _ 1 rfl hworker rfl)
  have htrim : WorkerStep (.ref []) Room.a _ _ emptied _ :=
    (hrun 200000).symm ▸ WorkerStep.trimAfter (twoUpdates.compacted (.ref []) Room.a c) ⟨1000, 0⟩
      (twoUpdates.getDoc (.ref []) Room.a compactInclude true) true 200000
  have hread : ∀ e ∈ twoUpdates.log, e.id ≤ ⟨2000, 0⟩ := by decide
  have h₁₀ := h₉.tail (SyncStep.stream _ (emptied, _) _
    (Interleave.Step.proc _ _ 1 _ _ (.inl htrim))
    (SubscriptionsStep.trim _ Room.a twoUpdates.log [] rfl fun e he k s hs _ _ => by
      cases k with
      | zero =>
        obtain rfl := Option.some.inj hs
        exact ⟨⟨2000, 0⟩, List.mem_singleton.mpr rfl, hread e he⟩
      | succ k => exact absurd hs.symm (Option.some_ne_none s))
    emptied_log.symm emptied_live.symm fun k s _ hs => ⟨s, hs, rfl, rfl, rfl⟩)
  have h₁₁ := h₁₀.trans (reader_run _ (openInclude true) 2 rfl)
  have hclock : laterDoc.lastClock = .id ⟨2000, 0⟩ := by decide +kernel
  have hnone : ∀ e ∈ twoUpdates.log, laterDoc.lastClock.isSmaller (.id e.id) = false := by
    rw [hclock]
    decide
  have h₁₂ := h₁₁.tail (SyncStep.connect _ 1 2 true laterDoc rfl rfl fun e he hlt =>
    absurd hlt (by rw [hnone e he]; exact Bool.false_ne_true))
  exact ⟨_, h₁₂, rfl, rfl, rfl, rfl, rfl, rfl⟩

end Clients

end YHub
