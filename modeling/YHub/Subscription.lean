import YHub.RunTask

/-!
# The clocks of the subscription loop (`stream.js:308-402`, `stream.js:598-605`)

One loop reads the streams of all rooms that somebody is subscribed to, with a single `XREAD` that
redis rejects as a whole when one of the ids is malformed. The id for a room is the clock from which
its subscribers want to be served. It comes from the `getDoc` call that a websocket connection is
opened with (`server.js:401-441`): the larger of the last row clock and the last id on the stream.

A `Server` is the documents of all rooms, the connections whose `getDoc` call is under way, and the
two maps of the loop: `subUpdates`, where `subscribe` leaves what the loop has not yet taken over
(`takeOver`), and `subs`, from which the `XREAD` is made (`streams`). Documents are written by
`addMessage`, by runs of `_runTask` and by `unsafePersistDoc`, connections are opened and closed at
any time. A reply sets the clock of a room to the id of one of its entries.

* `streams_valid`: every id passed to `XREAD` is well formed, in every run in which a waiting clock
  `'<ms>-I'` is taken over only where the room has been subscribed to before, from no later
  millisecond (`TakesOver`); and what is taken over in a state of such a run is well formed only
  under that condition.
* `persisted_stream_rejected`: a room that only `unsafePersistDoc` has written to is opened.
-/

namespace YHub

variable {β : Type}

/-! ## Well-formed ids -/

/-- A part of a stream id. -/
def IsDigits (s : List Char) : Prop := s ≠ [] ∧ ∀ c ∈ s, c.isDigit = true

/-- `'<digits>'` or `'<digits>-<digits>'`. -/
def ValidStreamId (id : List Char) : Prop :=
  ∃ ms, IsDigits ms ∧ (id = ms ∨ ∃ seq, IsDigits seq ∧ id = ms ++ '-' :: seq)

theorem isDigits_digits (n : Nat) : IsDigits (digits n) :=
  ⟨digits_ne_nil n, fun _ hc => isDigit_of_mem_digits hc⟩

/-- **The clocks that are stream ids** are all but those of `unsafePersistDoc`. -/
theorem validStreamId_text (c : Clock) : ValidStreamId c.text ↔ ∀ m, c ≠ .persist m := by
  cases c with
  | ms m =>
    refine iff_of_true ⟨digits m, isDigits_digits m, Or.inl rfl⟩ fun m' => ?_
    simp
  | id i =>
    refine iff_of_true ⟨digits i.ms, isDigits_digits i.ms,
      Or.inr ⟨digits i.seq, isDigits_digits i.seq, rfl⟩⟩ fun m' => ?_
    simp
  | persist m =>
    refine iff_of_false ?_ fun h => h m rfl
    -- the `'I'` is neither a digit nor a dash
    rintro ⟨ms, ⟨-, hms⟩, hid⟩
    have hI : 'I' ∈ (Clock.persist m).text := by simp [Clock.text]
    rcases hid with hid | ⟨seq, ⟨-, hseq⟩, hid⟩
    · rw [hid] at hI
      exact absurd (hms _ hI) (by decide)
    · rw [hid] at hI
      rcases List.mem_append.mp hI with hI | hI
      · exact absurd (hms _ hI) (by decide)
      rcases List.mem_cons.mp hI with hI | hI
      · exact absurd hI (by decide)
      · exact absurd (hseq _ hI) (by decide)

theorem text_ne_nil (c : Clock) : c.text ≠ [] := by
  cases c with
  | ms m => exact digits_ne_nil m
  | id i => simp [Clock.text]
  | persist m => simp [Clock.text]

/-! ## The maps of the loop -/

/-- An entry of `subs` or of `subUpdates`: the clock, and the connections. -/
structure StreamSubs where
  lastReceivedClock : Clock
  subs : Finset Nat

/-- A `Map` from stream names. -/
abbrev SubMap : Type := Room → Option StreamSubs

namespace SubMap

/-- What `subscribe` does to `subUpdates`. -/
def subscribe (room : Room) (k : Nat) (lastReceivedClock : Clock) (m : SubMap) : SubMap :=
  let s := (m room).getD ⟨lastReceivedClock, ∅⟩
  Function.update m room
    (some ⟨s.lastReceivedClock.min lastReceivedClock, insert k s.subs⟩)

/-- What `unsubscribe` does to either map: an entry without connections is deleted. -/
def unsubscribe (room : Room) (k : Nat) (m : SubMap) : SubMap :=
  match m room with
  | none => m
  | some s => Function.update m room
      (if s.subs.erase k = ∅ then none else some { s with subs := s.subs.erase k })

/-- `update subs`: the start of a round of the loop. -/
def takeOver (subs subUpdates : SubMap) : SubMap := fun room =>
  match subUpdates room with
  | none => subs room
  | some update =>
    let s := (subs room).getD ⟨update.lastReceivedClock, ∅⟩
    some ⟨if update.lastReceivedClock.isSmaller s.lastReceivedClock then update.lastReceivedClock
      else s.lastReceivedClock, s.subs ∪ update.subs⟩

/-- `sub.lastReceivedClock = m.lastClock`, for every stream of the reply. -/
def received (reply : Room → Option StreamId) (m : SubMap) : SubMap := fun room =>
  match m room, reply room with
  | some s, some i => some { s with lastReceivedClock := .id i }
  | s, _ => s

/-- The ids passed to `XREAD`. -/
def streams (m : SubMap) : Room → Option (List Char) := fun room =>
  (m room).map fun s =>
    if s.lastReceivedClock.text = [] then ['0'] else s.lastReceivedClock.text

/-- Every id passed to `XREAD` is well formed. -/
def Valid (m : SubMap) : Prop := ∀ room id, m.streams room = some id → ValidStreamId id

theorem valid_iff {m : SubMap} :
    m.Valid ↔ ∀ room s, m room = some s → ∀ ms, s.lastReceivedClock ≠ .persist ms := by
  unfold Valid streams
  constructor
  · intro h room s hs
    have hid := h room s.lastReceivedClock.text (by simp [hs, text_ne_nil])
    exact (validStreamId_text _).mp hid
  · intro h room id hid
    obtain ⟨s, hs, rfl⟩ := Option.map_eq_some_iff.mp hid
    rw [if_neg (text_ne_nil _)]
    exact (validStreamId_text _).mpr (h room s hs)

/-- Nobody is subscribed. -/
def empty : SubMap := fun _ => none

theorem valid_empty : empty.Valid := valid_iff.mpr fun _ _ hs => absurd hs (by simp [empty])

end SubMap

/-! ## The server -/

/-- A connection between its upgrade and its subscription: what the two reads of its `getDoc` call
found. -/
structure Opening where
  room : Room
  persisted : Option (Clock × Option Tombstone)
  stream : Option Clock

structure Server (β : Type) where
  hubs : Room → Hub β
  opening : Nat → Option Opening
  subUpdates : SubMap
  subs : SubMap

/-- No documents, no connections. -/
def Server.empty : Server β := ⟨fun _ => .empty, fun _ => none, .empty, .empty⟩

variable (C : Conf β)

/-- One step. `P` restricts the states in which the loop takes over what is waiting. -/
inductive ServerStep (P : Server β → Prop) : Server β → Server β → Prop
  | addMessage (s : Server β) (room : Room) (now : Nat) (m : Message β) :
      ServerStep P s { s with
        hubs := Function.update s.hubs room ((s.hubs room).addMessage room now m) }
  | runTask (s : Server β) (room : Room) (now : Nat) (task : StreamId) :
      ServerStep P s { s with
        hubs := Function.update s.hubs room ((s.hubs room).runTask C room now task) }
  | unsafePersistDoc (s : Server β) (room : Room) (ms : Nat) (ydoc : β) (by_ : Option String) :
      ServerStep P s { s with
        hubs := Function.update s.hubs room ((s.hubs room).unsafePersistDoc C room ms ydoc by_) }
  | deleteDoc (s : Server β) (room : Room) (tombstone : Option Tombstone) :
      ServerStep P s { s with
        hubs := Function.update s.hubs room { s.hubs room with tombstone := tombstone } }
  | opened (s : Server β) (k : Nat) (room : Room) (h : s.opening k = none) :
      ServerStep P s { s with opening := Function.update s.opening k (some ⟨room, none, none⟩) }
  | select (s : Server β) (k : Nat) (room : Room) (stream : Option Clock) (rows : List (Row β))
      (hrows : rows.Perm (s.hubs room).rows) (h : s.opening k = some ⟨room, none, stream⟩) :
      ServerStep P s { s with
        opening := Function.update s.opening k
          (some ⟨room, some (lastClockOf C.sort rows, (s.hubs room).tombstone), stream⟩) }
  | xread (s : Server β) (k : Nat) (room : Room) (persisted : Option (Clock × Option Tombstone))
      (h : s.opening k = some ⟨room, persisted, none⟩) :
      ServerStep P s { s with
        opening := Function.update s.opening k
          (some ⟨room, persisted, some (getMessages ((s.hubs room).redis.live room)).lastClock⟩) }
  | subscribe (s : Server β) (k : Nat) (room : Room) (persisted stream : Clock)
      (h : s.opening k = some ⟨room, some (persisted, none), some stream⟩) :
      ServerStep P s { s with
        opening := Function.update s.opening k none
        subUpdates := s.subUpdates.subscribe room k (persisted.max stream) }
  | unsubscribe (s : Server β) (k : Nat) (room : Room) :
      ServerStep P s { s with
        subUpdates := s.subUpdates.unsubscribe room k
        subs := s.subs.unsubscribe room k }
  | takeOver (s : Server β) (h : P s) :
      ServerStep P s { s with
        subUpdates := .empty
        subs := s.subs.takeOver s.subUpdates }
  | reply (s : Server β) (ids : Room → Option StreamId) (h : s.subs.Valid)
      (hids : ∀ room i, ids room = some i → ∃ e ∈ (s.hubs room).log, e.id = i) :
      ServerStep P s { s with subs := s.subs.received ids }

/-- The states of the runs from a server without documents and connections. -/
def ServerReach (P : Server β → Prop) : Server β → Prop :=
  Relation.ReflTransGen (ServerStep C P) Server.empty

/-- A waiting clock `'<ms>-I'` finds subscribers who want to be served from no later
millisecond. -/
def TakesOver (s : Server β) : Prop :=
  ∀ room ms ks, s.subUpdates room = some ⟨.persist ms, ks⟩ →
    ∃ t, s.subs room = some t ∧ t.lastReceivedClock.msPart ≤ ms

/-! ## What is taken over -/

variable {C} {room : Room}

/-- An entry that is taken over has one of the two clocks. -/
theorem takeOver_cases {subs subUpdates : SubMap} {t : StreamSubs}
    (h : subs.takeOver subUpdates room = some t) :
    (∃ s, subs room = some s ∧ t.lastReceivedClock = s.lastReceivedClock) ∨
      ∃ u, subUpdates room = some u ∧ t.lastReceivedClock = u.lastReceivedClock ∧
        ∀ s, subs room = some s → u.lastReceivedClock.isSmaller s.lastReceivedClock = true := by
  unfold SubMap.takeOver at h
  cases hu : subUpdates room with
  | none =>
    rw [hu] at h
    exact Or.inl ⟨t, h, rfl⟩
  | some u =>
    rw [hu] at h
    obtain rfl := Option.some.inj h
    cases hs : subs room with
    | none => exact Or.inr ⟨u, rfl, by simp, fun s hs => absurd hs (by simp)⟩
    | some s =>
      simp only [Option.getD_some]
      cases hlt : u.lastReceivedClock.isSmaller s.lastReceivedClock with
      | true =>
        refine Or.inr ⟨u, rfl, by simp, fun s' hs' => ?_⟩
        obtain rfl := Option.some.inj hs'
        exact hlt
      | false => exact Or.inl ⟨s, rfl, by simp⟩

/-- **What the loop takes over is well formed** exactly when the server is as `TakesOver` says. -/
theorem takeOver_valid_iff {s : Server β} (hs : s.subs.Valid) :
    (s.subs.takeOver s.subUpdates).Valid ↔ TakesOver s := by
  rw [SubMap.valid_iff] at hs ⊢
  constructor
  · intro h room ms ks hu
    cases ht : s.subs room with
    | none =>
      refine absurd ?_ (h room ⟨.persist ms, ∅ ∪ ks⟩ ?_ ms)
      · rfl
      · simp [SubMap.takeOver, hu, ht]
    | some t =>
      refine ⟨t, rfl, not_lt.mp fun hlt => ?_⟩
      have hsmall : (Clock.persist ms).isSmaller t.lastReceivedClock = true :=
        Clock.persist_isSmaller_iff.mpr hlt
      refine absurd ?_ (h room ⟨.persist ms, t.subs ∪ ks⟩ ?_ ms)
      · rfl
      · simp [SubMap.takeOver, hu, ht, hsmall]
  · intro h room t ht ms hms
    rcases takeOver_cases ht with ⟨t', ht', e⟩ | ⟨u, hu, e, hlt⟩
    · exact hs room t' ht' ms (e ▸ hms)
    · obtain ⟨clock, ks⟩ := u
      obtain rfl : clock = .persist ms := e.symm.trans hms
      obtain ⟨t', ht', hle⟩ := h room ms ks hu
      have hsmall := Clock.persist_isSmaller_iff.mp (hlt t' ht')
      omega

/-! ## Runs -/

theorem SubMap.Valid.unsubscribe {m : SubMap} (h : m.Valid) (room : Room) (k : Nat) :
    (m.unsubscribe room k).Valid := by
  rw [SubMap.valid_iff] at h ⊢
  unfold SubMap.unsubscribe
  cases hm : m room with
  | none => exact h
  | some s =>
    intro room' t ht
    by_cases hr : room' = room
    · subst hr
      simp only [Function.update_self] at ht
      split at ht
      · exact absurd ht (by simp)
      · obtain rfl := Option.some.inj ht
        exact h room' s hm
    · simp only [Function.update_of_ne hr] at ht
      exact h room' t ht

theorem SubMap.Valid.received {m : SubMap} (h : m.Valid) (ids : Room → Option StreamId) :
    (m.received ids).Valid := by
  rw [SubMap.valid_iff] at h ⊢
  intro room t ht
  unfold SubMap.received at ht
  cases hm : m room with
  | none =>
    rw [hm] at ht
    exact absurd ht (by simp)
  | some s =>
    rw [hm] at ht
    cases hi : ids room with
    | none =>
      rw [hi] at ht
      obtain rfl := Option.some.inj ht
      exact h room s hm
    | some i =>
      rw [hi] at ht
      obtain rfl := Option.some.inj ht
      exact fun ms hms => absurd hms (by simp)

/-- The step lemma. -/
theorem SubMap.Valid.step {s s' : Server β} (h : s.subs.Valid) (hs : ServerStep C TakesOver s s') :
    s'.subs.Valid := by
  cases hs with
  | addMessage room now m => exact h
  | runTask room now task => exact h
  | unsafePersistDoc room ms ydoc by_ => exact h
  | deleteDoc room tombstone => exact h
  | opened k room hk => exact h
  | select k room stream rows hrows hk => exact h
  | xread k room persisted hk => exact h
  | subscribe k room persisted stream hk => exact h
  | unsubscribe k room => exact h.unsubscribe room k
  | takeOver hP => exact (takeOver_valid_iff h).mpr hP
  | reply ids hvalid hids => exact h.received ids

/-- **Every id passed to `XREAD` is well formed**, in every run in which the loop takes over as
`TakesOver` says; and from a state of such a run, what it takes over is well formed only then. -/
theorem streams_valid {s : Server β} (hs : ServerReach C TakesOver s) :
    (∀ room id, s.subs.streams room = some id → ValidStreamId id) ∧
      ((∀ room id, (s.subs.takeOver s.subUpdates).streams room = some id → ValidStreamId id) ↔
        TakesOver s) := by
  have h : s.subs.Valid := by
    induction hs with
    | refl => exact SubMap.valid_empty
    | tail _ hstep ih => exact ih.step hstep
  exact ⟨h, takeOver_valid_iff h⟩

/-! ## A room of `unsafePersistDoc` -/

/-- A connection opens room `a`, reads it and subscribes. -/
theorem subscribed_reach {P : Server RefPayload → Prop} {s : Server RefPayload}
    (hs : ServerReach (.ref []) P s) (hk : s.opening 0 = none)
    (ht : (s.hubs Room.a).tombstone = none) :
    ∃ opening, ServerReach (.ref []) P { s with
      opening := opening
      subUpdates := s.subUpdates.subscribe Room.a 0
        ((lastClockOf insertionSort (s.hubs Room.a).rows).max
          (getMessages ((s.hubs Room.a).redis.live Room.a)).lastClock) } := by
  have h₁ := hs.tail (ServerStep.opened s 0 Room.a hk)
  have h₂ := h₁.tail (ServerStep.select _ 0 Room.a none _ (List.Perm.refl _)
    (by simp only [Function.update_self]))
  have h₃ := h₂.tail (ServerStep.xread _ 0 Room.a
    (some (lastClockOf insertionSort (s.hubs Room.a).rows, none)) (by
      simp only [Function.update_self, ht]
      rfl))
  exact ⟨_, h₃.tail (ServerStep.subscribe _ 0 Room.a _ _ (by simp only [Function.update_self]))⟩

/-- A room with an update is opened, and the loop reads it from the id of the update. -/
theorem streams_valid_of_run : ValidStreamId (Clock.id ⟨1000, 0⟩).text := by
  have h₁ : ServerReach (.ref []) TakesOver _ := Relation.ReflTransGen.refl.tail
    (ServerStep.addMessage Server.empty Room.a 1000 (insertion 7 "user1"))
  obtain ⟨opening, h₂⟩ := subscribed_reach h₁ rfl rfl
  have hsafe : ∀ hubs : Room → Hub RefPayload, TakesOver
      ⟨hubs, opening, SubMap.subscribe Room.a 0 (.id ⟨1000, 0⟩) .empty, .empty⟩ := by
    intro hubs room ms ks hu
    by_cases hr : room = Room.a
    · subst hr
      have he := congrArg StreamSubs.lastReceivedClock (Option.some.inj hu)
      exact absurd he (by simp [SubMap.empty, Clock.min])
    · exact absurd hu (by simp [SubMap.subscribe, SubMap.empty, hr])
  exact (streams_valid (h₂.tail (ServerStep.takeOver _ (hsafe _)))).1 Room.a _ rfl

/-- **The `XREAD` of all rooms is rejected**: room `a` has a row of `unsafePersistDoc` and no stream
when it is opened. -/
theorem persisted_stream_rejected : ¬ ∀ s : Server RefPayload,
    ServerReach (.ref []) (fun _ => True) s →
    ∀ room id, s.subs.streams room = some id → ValidStreamId id := by
  intro hclaim
  have h₁ : ServerReach (.ref []) (fun _ => True) _ := Relation.ReflTransGen.refl.tail
    (ServerStep.unsafePersistDoc (Server.empty : Server RefPayload) Room.a 1000 (.doc [9]) none)
  obtain ⟨opening, h₂⟩ := subscribed_reach h₁ rfl rfl
  have hvalid := hclaim _ (h₂.tail (ServerStep.takeOver _ trivial)) Room.a
    (Clock.persist 1000).text rfl
  exact (validStreamId_text (.persist 1000)).mp hvalid 1000 rfl

end YHub
