import YHub.Operations
import Mathlib.Data.Set.Basic

/-!
# Quarantine keeps every update

`quarantine` renames the live stream of a room away and `unquarantine` adds its messages back.
Both take several round trips, and any number of clients may run them, and write, at the same
time. `QStep` is one round trip of one of them:

* `addMessage`;
* `quarantine`: the `MULTI`, `RENAME` and `XADD nop`. The qid is a fresh `uuidv4`: no key has it
  and no call has used it. If there was no stream to rename, the client still has a `DEL` to send
  (`cleanups`);
* `cleanup`: that `DEL`;
* `xrange`: an `unquarantine` reads the quarantine stream (`reads`);
* `unquarantine`: it sends its `MULTI` with what it read;
* `remove`: a trim, a clear or a `deleteQuarantineStreams`.

`owed` are the update messages whose `addMessage` succeeded and that no `remove` has taken away.
The payload of a message is an arbitrary type, so two writes can be told apart by what they carry.

Results: `owed_present`: every owed message is an entry of the live stream or of a quarantine
stream, in every run in which a `cleanup` finds no update under the live key that is not also in
quarantine (`CleanupSafe`); and a `cleanup` keeps this up only then. `cleanup_drops_an_update` is
the run without it: the `nop` that the `MULTI` left behind is there to be written after.
-/

namespace YHub

variable {β : Type} {now : Nat} {room : Room} {r : Redis (Message β)} {m : Message β}

/-! ## Where a message is -/

/-- Some entry under the key carries the message. -/
def Holds (s : Option (RedisStream (Message β))) (m : Message β) : Prop :=
  ∃ e ∈ RedisStream.entriesOf s, e.message? = some m

/-- Some quarantine stream of the room carries the message. -/
def InQuarantine (room : Room) (r : Redis (Message β)) (m : Message β) : Prop :=
  ∃ qid, Holds (r.quarantined room qid) m

/-- The message is an entry of the live stream or of a quarantine stream of the room. -/
def Present (room : Room) (r : Redis (Message β)) (m : Message β) : Prop :=
  Holds (r.live room) m ∨ InQuarantine room r m

theorem holds_none : ¬ Holds (none : Option (RedisStream (Message β))) m := by
  rintro ⟨e, he, -⟩
  exact absurd he (by simp)

theorem holds_xadd {s : Option (RedisStream (Message β))} {f : Field (Message β)} :
    Holds (some (RedisStream.xadd now f s)) m ↔ Holds s m ∨ f = .m m := by
  unfold Holds
  rw [RedisStream.entriesOf_xadd]
  constructor
  · rintro ⟨e, he, hm⟩
    rcases List.mem_append.mp he with he | he
    · exact Or.inl ⟨e, he, hm⟩
    · rw [List.mem_singleton.mp he] at hm
      cases f with
      | m m' => exact Or.inr (congrArg Field.m (Option.some.inj hm))
      | nop => exact absurd hm (by simp [Entry.message?])
  · rintro (⟨e, he, hm⟩ | hf)
    · exact ⟨e, List.mem_append_left _ he, hm⟩
    · refine ⟨_, List.mem_append_right _ (List.mem_singleton.mpr rfl), ?_⟩
      rw [hf]
      rfl

theorem holds_addMessages (ms : List (Message β)) :
    Holds ((ms.foldl (fun r m => addMessage now room m r) r).live room) m ↔
      Holds (r.live room) m ∨ m ∈ ms := by
  induction ms generalizing r with
  | nil => simp
  | cons m' ms ih =>
    rw [List.foldl_cons, ih, addMessage_live, holds_xadd, Field.m.injEq, List.mem_cons, or_assoc]
    exact or_congr Iff.rfl (or_congr eq_comm Iff.rfl)

/-- `unquarantine` drops `auth:check:v1` messages, so it re-injects every update. -/
theorem mem_reinjected {entries : List (Entry (Message β))} (hm : m.isUpdate = true) :
    m ∈ reinjected entries ↔ ∃ e ∈ entries, e.message? = some m := by
  simp [reinjected, Message.not_isAuthCheck_of_isUpdate hm]

/-! ## The system -/

/-- Redis and the clients of one room. -/
structure QState (β : Type) where
  redis : Redis (Message β)
  /-- `quarantine` calls that still have to send their `DEL`. -/
  cleanups : Nat
  /-- `unquarantine` calls that have read their stream: the qid and the entries. -/
  reads : List (String × List (Entry (Message β)))
  /-- The qids that calls have used. -/
  qids : Set String
  /-- The update messages that have to be somewhere. -/
  owed : Set (Message β)

/-- The operations that remove entries on purpose. -/
def Op.Removes (room : Room) : Op β → Prop
  | trimMessages room' _ _ _ => room' = room
  | clearMessages room' => room' = room
  | deleteQuarantineStreams room' _ => room' = room
  | _ => False

/-- One round trip. `P` restricts the states a `cleanup` runs in. -/
inductive QStep (room : Room) (P : QState β → Prop) : QState β → QState β → Prop
  | addMessage (s : QState β) (now : Nat) (m : Message β) :
      QStep room P s { s with
        redis := addMessage now room m s.redis
        owed := s.owed ∪ {m' | m' = m ∧ m.isUpdate = true} }
  | quarantine (s : QState β) (now : Nat) (qid : String) (hused : qid ∉ s.qids)
      (hkey : s.redis.quarantined room qid = none) :
      QStep room P s { s with
        redis := (quarantineMulti now room qid s.redis).1
        cleanups := if (quarantineMulti now room qid s.redis).2 then s.cleanups
          else s.cleanups + 1
        qids := insert qid s.qids }
  | cleanup (s : QState β) (hc : 0 < s.cleanups) (hP : P s) :
      QStep room P s { s with
        redis := quarantineCleanup room s.redis
        cleanups := s.cleanups - 1 }
  | xrange (s : QState β) (qid : String) :
      QStep room P s { s with
        reads := (qid, unquarantineRead room qid s.redis) :: s.reads
        qids := insert qid s.qids }
  | unquarantine (s : QState β) (now : Nat) (qid : String) (entries : List (Entry (Message β)))
      (before after : List (String × List (Entry (Message β))))
      (hread : s.reads = before ++ (qid, entries) :: after) :
      QStep room P s { s with
        redis := unquarantineMulti now room qid entries s.redis
        reads := before ++ after }
  | remove (s : QState β) (now : Nat) (o : Op β) (ho : o.Removes room) :
      QStep room P s { s with
        redis := o.exec now s.redis
        owed := {m ∈ s.owed | Present room (o.exec now s.redis) m} }

/-- No call is under way. -/
def QState.start (r : Redis (Message β)) : QState β := ⟨r, 0, [], ∅, ∅⟩

/-- The states of the runs from `r`, whatever streams it holds. -/
def QReach (room : Room) (P : QState β → Prop) (r : Redis (Message β)) : QState β → Prop :=
  Relation.ReflTransGen (QStep room P) (.start r)

/-- Every owed message under the live key is also in quarantine. -/
def CleanupSafe (room : Room) (s : QState β) : Prop :=
  ∀ m ∈ s.owed, Holds (s.redis.live room) m → InQuarantine room s.redis m

/-! ## What each round trip does to the streams -/

theorem quarantined_addMessage (qid : String) (m' : Message β) :
    (addMessage now room m' r).quarantined room qid = r.quarantined room qid :=
  addMessage_keys_of_ne now room r m' (by simp)

theorem present_addMessage (m' : Message β) :
    Present room (addMessage now room m' r) m ↔ Present room r m ∨ m = m' := by
  simp only [Present, InQuarantine, quarantined_addMessage, addMessage_live, holds_xadd,
    Field.m.injEq]
  rw [or_right_comm, eq_comm (a := m)]

theorem quarantined_quarantineMulti {qid : String} (qid' : String) :
    (quarantineMulti now room qid r).1.quarantined room qid' =
      if qid' = qid ∧ r.live room ≠ none then r.live room else r.quarantined room qid' := by
  cases h : r.keys (.room room) with
  | none => simp [quarantineMulti, Redis.rename, Redis.xadd, Redis.quarantined, Redis.live, h]
  | some s =>
    by_cases hq : qid' = qid
    · simp [quarantineMulti, Redis.rename, Redis.xadd, Redis.quarantined, Redis.live, h, hq]
    · simp [quarantineMulti, Redis.rename, Redis.xadd, Redis.quarantined, Redis.live, h, hq]

/-- The `MULTI` moves the live stream to a free key: nothing gets lost. -/
theorem present_quarantineMulti {qid : String} (hfree : r.quarantined room qid = none)
    (h : Present room r m) : Present room (quarantineMulti now room qid r).1 m := by
  rcases h with h | ⟨qid', h⟩
  · refine Or.inr ⟨qid, ?_⟩
    rw [quarantined_quarantineMulti, if_pos]
    · exact h
    · refine ⟨rfl, fun hn => ?_⟩
      rw [hn] at h
      exact holds_none h
  · refine Or.inr ⟨qid', ?_⟩
    rw [quarantined_quarantineMulti, if_neg]
    · exact h
    · rintro ⟨rfl, -⟩
      rw [hfree] at h
      exact holds_none h

theorem quarantined_unquarantineMulti {qid : String} {entries : List (Entry (Message β))}
    (qid' : String) : (unquarantineMulti now room qid entries r).quarantined room qid' =
      if qid' = qid then none else r.quarantined room qid' := by
  have hkeep : ∀ q, ((reinjected entries).foldl (fun r m => addMessage now room m r) r).keys
      (.quarantineRoom room q) = r.keys (.quarantineRoom room q) :=
    fun q => foldl_addMessage_keys_of_ne (by simp) _
  by_cases hq : qid' = qid
  · simp [unquarantineMulti, Redis.del, Redis.quarantined, hq]
  · simp [unquarantineMulti, Redis.del, Redis.quarantined, hq, hkeep]

/-- The `MULTI` of `unquarantine` deletes the stream it read, whose updates it adds back. -/
theorem present_unquarantineMulti {qid : String} {entries : List (Entry (Message β))}
    (hread : r.quarantined room qid = none ∨
      RedisStream.entriesOf (r.quarantined room qid) = entries)
    (hm : m.isUpdate = true) (h : Present room r m) :
    Present room (unquarantineMulti now room qid entries r) m := by
  have hlive : ∀ {m}, Holds (r.live room) m ∨ m ∈ reinjected entries →
      Present room (unquarantineMulti now room qid entries r) m := by
    intro m hm
    refine Or.inl ?_
    rw [unquarantineMulti_live, holds_addMessages]
    exact hm
  rcases h with h | ⟨qid', h⟩
  · exact hlive (Or.inl h)
  · by_cases hq : qid' = qid
    · subst hq
      rcases hread with hread | hread
      · rw [hread] at h
        exact absurd h holds_none
      · refine hlive (Or.inr ((mem_reinjected hm).mpr ?_))
        rw [← hread]
        exact h
    · refine Or.inr ⟨qid', ?_⟩
      rw [quarantined_unquarantineMulti, if_neg hq]
      exact h

theorem quarantined_quarantineCleanup (qid : String) :
    (quarantineCleanup room r).quarantined room qid = r.quarantined room qid :=
  Redis.set_keys_of_ne (by simp) _

/-- The `DEL` leaves what is in quarantine, and nothing else. -/
theorem present_quarantineCleanup :
    Present room (quarantineCleanup room r) m ↔ InQuarantine room r m := by
  simp only [Present, quarantineCleanup_live, InQuarantine, quarantined_quarantineCleanup]
  exact ⟨fun h => h.resolve_left holds_none, Or.inr⟩

/-- A removal leaves a quarantine stream as it is, or deletes it. -/
theorem quarantined_remove {o : Op β} (ho : o.Removes room) (qid : String) :
    (o.exec now r).quarantined room qid = none ∨
      (o.exec now r).quarantined room qid = r.quarantined room qid := by
  cases o with
  | trimMessages room' minId maxAgeMs taskid =>
    exact Or.inr (trimMessages_keys_of_ne (by simp))
  | clearMessages room' => exact Or.inr (Redis.set_keys_of_ne (by simp) _)
  | deleteQuarantineStreams room' qids =>
    simp only [Op.exec, Redis.quarantined, deleteQuarantineStreams_keys]
    split
    · exact Or.inl rfl
    · exact Or.inr rfl
  | addMessage | disableCompaction | enableCompaction | quarantine | quarantineCleanup
  | unquarantine => exact absurd ho id

/-! ## The invariant -/

/-- What holds between round trips. -/
structure Kept (room : Room) (s : QState β) : Prop where
  isUpdate : ∀ m ∈ s.owed, m.isUpdate = true
  present : ∀ m ∈ s.owed, Present room s.redis m
  qid_used : ∀ x ∈ s.reads, x.1 ∈ s.qids
  /-- A quarantine stream that a client has read is gone or still has the same entries. -/
  read : ∀ x ∈ s.reads, s.redis.quarantined room x.1 = none ∨
    RedisStream.entriesOf (s.redis.quarantined room x.1) = x.2

theorem kept_init (room : Room) (r : Redis (Message β)) : Kept room (.start r) :=
  ⟨fun _ h => absurd h (Set.notMem_empty _), fun _ h => absurd h (Set.notMem_empty _),
    fun _ h => absurd h List.not_mem_nil, fun _ h => absurd h List.not_mem_nil⟩

/-- What a client has read stays true of a stream that is kept or deleted. -/
theorem Kept.read_of {s : QState β} (h : Kept room s) {r' : Redis (Message β)}
    (hq : ∀ qid ∈ s.qids, r'.quarantined room qid = none ∨
      r'.quarantined room qid = s.redis.quarantined room qid) :
    ∀ x ∈ s.reads, r'.quarantined room x.1 = none ∨
      RedisStream.entriesOf (r'.quarantined room x.1) = x.2 := by
  intro x hx
  rcases hq x.1 (h.qid_used x hx) with hn | he
  · exact Or.inl hn
  · rw [he]
    exact h.read x hx

/-- **The step lemma.** -/
theorem Kept.step {s s' : QState β} (h : Kept room s) (hs : QStep room (CleanupSafe room) s s') :
    Kept room s' := by
  cases hs with
  | addMessage now m' =>
    refine ⟨?_, ?_, h.qid_used, h.read_of fun qid _ => Or.inr (quarantined_addMessage qid m')⟩
    · rintro m (hm | ⟨rfl, hm⟩)
      · exact h.isUpdate m hm
      · exact hm
    · rintro m (hm | ⟨rfl, hm⟩)
      · exact (present_addMessage m').mpr (Or.inl (h.present m hm))
      · exact (present_addMessage m).mpr (Or.inr rfl)
  | quarantine now qid hused hkey =>
    refine ⟨h.isUpdate, fun m hm => present_quarantineMulti hkey (h.present m hm),
      fun x hx => Set.mem_insert_of_mem qid (h.qid_used x hx), h.read_of fun qid' hq => Or.inr ?_⟩
    rw [quarantined_quarantineMulti, if_neg]
    rintro ⟨rfl, -⟩
    exact hused hq
  | cleanup hc hP =>
    refine ⟨h.isUpdate, fun m hm => present_quarantineCleanup.mpr ?_, h.qid_used,
      h.read_of fun qid _ => Or.inr (quarantined_quarantineCleanup qid)⟩
    rcases h.present m hm with hl | hq
    · exact hP m hm hl
    · exact hq
  | xrange qid =>
    refine ⟨h.isUpdate, h.present, fun x hx => ?_, fun x hx => ?_⟩
    · rcases List.mem_cons.mp hx with rfl | hx
      · exact Set.mem_insert _ _
      · exact Set.mem_insert_of_mem qid (h.qid_used x hx)
    · rcases List.mem_cons.mp hx with rfl | hx
      · exact Or.inr rfl
      · exact h.read x hx
  | unquarantine now qid entries before after hread =>
    have hsub : ∀ x ∈ before ++ after, x ∈ s.reads := by
      intro x hx
      rw [hread]
      simp only [List.mem_append, List.mem_cons] at hx ⊢
      tauto
    have hmem : (qid, entries) ∈ s.reads := by
      rw [hread]
      simp
    refine ⟨h.isUpdate, fun m hm => present_unquarantineMulti (h.read _ hmem) (h.isUpdate m hm)
      (h.present m hm), fun x hx => h.qid_used x (hsub x hx), fun x hx => ?_⟩
    refine h.read_of (fun qid' _ => ?_) x (hsub x hx)
    rw [quarantined_unquarantineMulti]
    split
    · exact Or.inl rfl
    · exact Or.inr rfl
  | remove now o ho =>
    exact ⟨fun m hm => h.isUpdate m hm.1, fun m hm => hm.2, h.qid_used,
      h.read_of fun qid _ => quarantined_remove ho qid⟩

theorem kept_of_reach {s : QState β} (hs : QReach room (CleanupSafe room) r s) : Kept room s := by
  induction hs with
  | refl => exact kept_init room r
  | tail _ hstep ih => exact ih.step hstep

/-- **Quarantine keeps every update**: in every run whose `cleanup`s are safe, every owed message
is an entry of the live stream or of a quarantine stream of the room. And in each of the states
reached, a `cleanup` would leave every owed message in place if and only if it is safe there. -/
theorem owed_present {s : QState β} (hs : QReach room (CleanupSafe room) r s) :
    (∀ m ∈ s.owed, Present room s.redis m) ∧
      ((∀ m ∈ s.owed, Present room (quarantineCleanup room s.redis) m) ↔ CleanupSafe room s) := by
  have h := kept_of_reach hs
  refine ⟨h.present, fun hall m hm _ => present_quarantineCleanup.mp (hall m hm),
    fun hsafe m hm => present_quarantineCleanup.mpr ?_⟩
  rcases h.present m hm with hl | hq
  · exact hsafe m hm hl
  · exact hq

/-- **A run**: a room without a stream is quarantined, a client writes, and what he wrote is
quarantined too before the `DEL` of the first call comes. Then it is re-injected. -/
theorem owed_present_of_run : ∃ s : QState Unit, QReach Room.a (CleanupSafe Room.a) Redis.empty s ∧
    s.cleanups = 0 ∧ s.redis.quarantined Room.a "p" = none ∧
    Present Room.a s.redis (.ydocUpdate () ()) := by
  have h₁ : QStep Room.a (CleanupSafe Room.a) (.start (Redis.empty : Redis (Message Unit))) _ :=
    QStep.quarantine _ 1000 "q" (Set.notMem_empty _) rfl
  have h₂ := (Relation.ReflTransGen.single h₁).tail
    (QStep.addMessage _ 1001 (.ydocUpdate () ()))
  have hfresh : "p" ∉ insert "q" (∅ : Set String) := by simp
  have h₃ := h₂.tail (QStep.quarantine _ 1002 "p" hfresh rfl)
  have h₄ := h₃.tail (QStep.cleanup _ (by decide) fun m hm _ => by
    obtain ⟨rfl, -⟩ := hm.resolve_left (Set.notMem_empty m)
    exact ⟨"p", ⟨⟨1001, 0⟩, .m (.ydocUpdate () ())⟩, by decide, rfl⟩)
  have h₅ := (h₄.tail (QStep.xrange _ "p")).tail (QStep.unquarantine _ 1004 "p" _ [] [] rfl)
  exact ⟨_, h₅, rfl, rfl, (owed_present h₅).1 _ (Or.inr ⟨rfl, rfl⟩)⟩

/-- **A `cleanup` can drop an update**: a room without a stream is quarantined, a client writes to
the `nop` that the `MULTI` left, and the `DEL` comes after it. -/
theorem cleanup_drops_an_update :
    ∃ s : QState Unit, QReach Room.a (fun _ => True) Redis.empty s ∧
      .ydocUpdate () () ∈ s.owed ∧ ¬ Present Room.a s.redis (.ydocUpdate () ()) := by
  have h₁ : QStep Room.a (fun _ => True) (.start (Redis.empty : Redis (Message Unit))) _ :=
    QStep.quarantine _ 1000 "q" (Set.notMem_empty _) rfl
  have h₂ := (Relation.ReflTransGen.single h₁).tail
    (QStep.addMessage _ 1000 (.ydocUpdate () ()))
  have h₃ := h₂.tail (QStep.cleanup _ (by decide) trivial)
  refine ⟨_, h₃, Or.inr ⟨rfl, rfl⟩, ?_⟩
  rw [present_quarantineCleanup]
  rintro ⟨qid, h⟩
  rw [quarantined_addMessage, quarantined_quarantineMulti, if_neg fun hn => hn.2 rfl] at h
  exact holds_none h

end YHub
