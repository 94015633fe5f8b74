import YHub.HardDeletion

/-!
# Cached responses (`stream.js:697-750`, `index.js:377-391`, `builtin-api.js:157-224`)

The endpoints `changeset` and `activity` answer from a cache in redis. `cachedGet` looks the key up;
on a miss it reads the document, computes the response and returns it, and sends a `SET` that it
does not wait for. A cache hit never reaches `getDoc`, so `deleteDoc` drops the cached responses of
the room (`deleteCachedResponses`: a scan for the keys, then a `DEL`) once its tombstone has
committed.

A `CacheState` is a room with its processes (`Site.lean`), the cache, the `SET`s that are under way,
the requests and how far each deletion is with the cache (`Dropping`). The scan returns every key
that is there from its beginning to its end (`owed`), and maybe others. A key expires at any time.
`committedIn` is history: how often the room had been restored when a deletion committed.

* `no_cached_content`: a request that starts after a `deleteDoc` call has returned returns nothing
  until the room is restored, in every run in which a `SET` takes effect only as long as each
  deletion that has committed since the last restoration has its scan ahead of it, or the key among
  those it is going to delete (`CacheSafe`).
* `cached_content_returned`: a request that has read the document before the deletion writes its
  response after the scan.
-/

namespace YHub

variable {β ρ : Type}

/-! ## Requests -/

inductive CachedEndpoint where
  | changeset
  | activity
  deriving DecidableEq, Repr

/-- A key behind the prefix of the room. -/
structure CacheKey where
  endpoint : CachedEndpoint
  args : List String
  deriving DecidableEq, Repr

/-- The responses of the two endpoints. -/
structure Responses (β ρ : Type) where
  /-- `computePool.changeset` and `computePool.activity`, `none` when they fail. -/
  compute : CacheKey → DocTable β → Option ρ
  byteLength : ρ → Nat

/-- Where a request is. -/
inductive CachedRequest (β ρ : Type) where
  | idle
  | looking (key : CacheKey)
  | reading (key : CacheKey) (g : Retrieval β)
  | computing (key : CacheKey) (d : DocTable β)
  | returned (result : ρ)
  | docDeleted
  | failed

/-- What both endpoints ask `getDoc` for. -/
def cachedInclude : Include := { nongc := true, contentmap := true }

section Request

variable (C : Conf β) (room : Room) (A : Responses β ρ)

/-- One step of a request, with the `SET`s it sends. -/
inductive RequestStep (s : Hub β) (cache : CacheKey → Option ρ) :
    CachedRequest β ρ → CachedRequest β ρ → List (CacheKey × ρ) → Prop
  | start (key : CacheKey) : RequestStep s cache .idle (.looking key) []
  | hit (key : CacheKey) (cached : ρ) (h : cache key = some cached) :
      RequestStep s cache (.looking key) (.returned cached) []
  | miss (key : CacheKey) (h : cache key = none) :
      RequestStep s cache (.looking key) (.reading key (.start none)) []
  | read (key : CacheKey) (g g' : Retrieval β)
      (h : RetrievalStep C room (fun _ _ => True) cachedInclude s g g') :
      RequestStep s cache (.reading key g) (.reading key g') []
  | docDeleted (key : CacheKey) (g : Retrieval β) (d : DocTable β)
      (hd : g.Yields C cachedInclude true d) (h : d.tombstone ≠ none) :
      RequestStep s cache (.reading key g) .docDeleted []
  | loaded (key : CacheKey) (g : Retrieval β) (d : DocTable β)
      (hd : g.Yields C cachedInclude true d) (h : d.tombstone = none) :
      RequestStep s cache (.reading key g) (.computing key d) []
  | computed (key : CacheKey) (d : DocTable β) (result : ρ) (h : A.compute key d = some result) :
      RequestStep s cache (.computing key d) (.returned result)
        (if A.byteLength result < 100 * 1000 * 1000 then [(key, result)] else [])
  /-- An error of redis, of postgres or of the compute pool. -/
  | fail (q : CachedRequest β ρ) (h : ∀ result, q ≠ .returned result) :
      RequestStep s cache q .failed []

end Request

/-! ## Deletions and the cache -/

/-- How far a `deleteCachedResponses` call is. -/
inductive Dropping where
  | idle
  | scanning (owed : Set CacheKey)
  | scanned (keys : List CacheKey)
  | dropped

namespace Dropping

/-- Keys disappear from the cache, so that a scan need not return them. -/
def forget (keys : List CacheKey) : Dropping → Dropping
  | .scanning owed => .scanning {k | k ∈ owed ∧ k ∉ keys}
  | d => d

/-- If the key is in the cache, it is still going to be deleted. -/
def Covers (k : CacheKey) : Dropping → Prop
  | .idle => True
  | .scanning owed => k ∈ owed
  | .scanned keys => k ∈ keys
  | .dropped => False

theorem Covers.forget {d : Dropping} {k : CacheKey} {keys : List CacheKey} (h : d.Covers k)
    (hk : k ∉ keys) : (d.forget keys).Covers k := by
  cases d with
  | scanning owed => exact ⟨h, hk⟩
  | _ => exact h

theorem forget_idle {d : Dropping} {keys : List CacheKey} : d.forget keys = .idle ↔ d = .idle := by
  cases d <;> simp [forget]

theorem forget_dropped {d : Dropping} {keys : List CacheKey} :
    d.forget keys = .dropped ↔ d = .dropped := by
  cases d <;> simp [forget]

end Dropping

namespace Actor

/-- A `deleteDoc` call that has not committed. -/
def fresh : Actor β → Bool
  | .deletion .idle => true
  | .deletion (.timed _ _ _) => true
  | _ => false

/-- A `deleteDoc` call that has committed. -/
def committed : Actor β → Bool
  | .deletion (.committed _ _ _ _ _) => true
  | .deletion (.purging _ _) => true
  | .deletion (.returned _ _) => true
  | _ => false

/-- The cached responses have been dropped. -/
def uncached : Actor β → Bool
  | .deletion (.committed _ _ _ _ uncached) => uncached
  | .deletion (.purging _ _) => true
  | .deletion (.returned _ _) => true
  | _ => false

theorem not_committed_of_fresh {a : Actor β} (h : a.fresh = true) : a.committed = false := by
  unfold fresh at h
  split at h
  · rfl
  · rfl
  · exact absurd h (by simp)

end Actor

structure CacheState (β ρ : Type) where
  run : SiteState β
  cache : CacheKey → Option ρ
  /-- The `SET`s that are under way. -/
  sets : List (CacheKey × ρ)
  dropping : Nat → Dropping
  requests : Nat → CachedRequest β ρ
  committedIn : Nat → Option Nat

namespace CacheState

/-- A step of the room. -/
def site (x : SiteState β) (S : CacheState β ρ) : CacheState β ρ := { S with
  run := x
  committedIn := fun i =>
    if (S.run.2 i).fresh && (x.2 i).committed then some S.run.1.restored else S.committedIn i }

/-- Keys disappear from the cache. -/
def forget (keys : List CacheKey) (S : CacheState β ρ) : CacheState β ρ := { S with
  cache := fun k => if k ∈ keys then none else S.cache k
  dropping := fun i => (S.dropping i).forget keys }

/-- Nobody has asked for anything yet. -/
def start (x : SiteState β) (cache : CacheKey → Option ρ) : CacheState β ρ :=
  ⟨x, cache, [], fun _ => .idle, fun _ => .idle, fun _ => none⟩

end CacheState

variable (C : Conf β) (room : Room) (A : Responses β ρ)

/-- One step. `P` restricts the states in which a `SET` takes effect. -/
inductive CacheStep (P : CacheState β ρ → CacheKey → Prop) :
    CacheState β ρ → CacheState β ρ → Prop
  | site (S : CacheState β ρ) (x : SiteState β) (h : SiteStep C room {} S.run x)
      (hu : ∀ i, (x.2 i).uncached = true → (S.run.2 i).uncached = true) :
      CacheStep P S (S.site x)
  | scan (S : CacheState β ρ) (i : Nat) (hard : Bool) (t : Tombstone) (cleared : Bool)
      (message : Option StreamId)
      (ha : S.run.2 i = .deletion (.committed hard t cleared message false))
      (hi : S.dropping i = .idle) :
      CacheStep P S { S with
        dropping := Function.update S.dropping i (.scanning {k | S.cache k ≠ none}) }
  | scanned (S : CacheState β ρ) (i : Nat) (owed : Set CacheKey) (keys : List CacheKey)
      (hi : S.dropping i = .scanning owed) (hkeys : ∀ k ∈ owed, k ∈ keys) :
      CacheStep P S { S with dropping := Function.update S.dropping i (.scanned keys) }
  | del (S : CacheState β ρ) (i : Nat) (hard : Bool) (t : Tombstone) (cleared : Bool)
      (message : Option StreamId) (keys : List CacheKey)
      (ha : S.run.2 i = .deletion (.committed hard t cleared message false))
      (hi : S.dropping i = .scanned keys) :
      CacheStep P S { S.forget keys with
        run := (S.run.1,
          Function.update S.run.2 i (.deletion (.committed hard t cleared message true)))
        dropping := Function.update (S.forget keys).dropping i .dropped }
  | expire (S : CacheState β ρ) (k : CacheKey) : CacheStep P S (S.forget [k])
  | set (S : CacheState β ρ) (before after : List (CacheKey × ρ)) (k : CacheKey) (result : ρ)
      (h : S.sets = before ++ (k, result) :: after) (hP : P S k) :
      CacheStep P S { S with
        cache := Function.update S.cache k (some result)
        sets := before ++ after }
  /-- `error caching result`. -/
  | setFails (S : CacheState β ρ) (before after : List (CacheKey × ρ)) (x : CacheKey × ρ)
      (h : S.sets = before ++ x :: after) : CacheStep P S { S with sets := before ++ after }
  | request (S : CacheState β ρ) (j : Nat) (q : CachedRequest β ρ) (sets : List (CacheKey × ρ))
      (h : RequestStep C room A S.run.1.hub S.cache (S.requests j) q sets) :
      CacheStep P S { S with
        requests := Function.update S.requests j q
        sets := S.sets ++ sets }

abbrev CacheRun (P : CacheState β ρ → CacheKey → Prop) : CacheState β ρ → CacheState β ρ → Prop :=
  Relation.ReflTransGen (CacheStep C room A P)

/-- The states of the runs from a room and a cache in any state. -/
def CacheReach (P : CacheState β ρ → CacheKey → Prop) (S : CacheState β ρ) : Prop :=
  ∃ x cache, (∀ i, (x.2 i).Idle) ∧ CacheRun C room A P (.start x cache) S

/-- Each deletion that has committed since the last restoration is still going to delete the
key. -/
def CacheSafe (S : CacheState β ρ) (k : CacheKey) : Prop :=
  ∀ i, S.committedIn i = some S.run.1.restored → (S.dropping i).Covers k

/-! ## What a step of the room leaves -/

variable {C room A} {x y : SiteState β} {i : Nat}

theorem deletion_fresh {ids : Hub β → StreamId → Prop} {s s' : Hub β} {d d' : Deletion β}
    (h : DeletionStep C room ids s d s' d') (hf : (Actor.deletion d').fresh = true) :
    (Actor.deletion d).fresh = true := by
  cases h with
  | getTime hard by_ deletedAt => rfl
  | commit hard by_ deletedAt => rfl
  | purged hard p ms hd hq ht =>
    cases hp : storeTombstonePurged ms s.tombstone with
    | none =>
      rw [hp] at hf
      exact absurd hf (by simp [Actor.fresh])
    | some t =>
      rw [hp] at hf
      exact absurd hf (by simp [Actor.fresh])
  | _ => exact absurd hf (by simp [Actor.fresh])

/-- What has committed stays so. -/
theorem SiteStep.fresh (h : SiteStep C room {} x y) (hf : (y.2 i).fresh = true) :
    (x.2 i).fresh = true := by
  cases h with
  | env s ls s' hw => exact hf
  | proc s ls j s' a hs hg =>
    by_cases hij : i = j
    · subst hij
      simp only [Function.update_self] at hf
      show (ls i).fresh = true
      generalize ls i = b at hs
      cases hs with
      | deletion d d' s' hs => exact deletion_fresh hs hf
      | _ => exact absurd hf (by simp [Actor.fresh])
    · simpa only [Function.update_of_ne hij] using hf

/-- The tombstone stays, or the room is restored. -/
theorem SiteStep.restored (h : SiteStep C room {} x y) :
    y.1.restored = x.1.restored ∧ (x.1.hub.tombstone ≠ none → y.1.hub.tombstone ≠ none) ∨
      y.1.restored = x.1.restored + 1 := by
  have hstays : ∀ s s' : Hub β, s.After s' → s.tombstone ≠ none → s'.tombstone ≠ none := by
    intro s s' ha hs
    obtain ⟨t, ht⟩ := Option.ne_none_iff_exists'.mp hs
    obtain ⟨t', ht', -⟩ := ha.tombstone t ht
    rw [ht']
    simp
  cases h with
  | env s ls s' hw =>
    refine Or.inl ⟨?_, hstays _ _ (.world hw)⟩
    cases hw <;> rfl
  | proc s ls j s' a hs hg =>
    show s'.restored = s.restored ∧ _ ∨ s'.restored = s.restored + 1
    generalize ls j = b at hs
    cases hs with
    | worker p p' s' hs => exact Or.inl ⟨rfl, hstays _ _ (.worker hs)⟩
    | persist p p' s' hs => exact Or.inl ⟨rfl, hstays _ _ (.persist hs)⟩
    | deletion d d' s' hs => exact Or.inl ⟨rfl, hstays _ _ (.deletion hs)⟩
    | restore x' r r' hs =>
      cases hs with
      | retrieveTombstone => exact Or.inl ⟨rfl, id⟩
      | deleteTombstone t => exact Or.inr rfl
      | stop => exact Or.inl ⟨rfl, id⟩
    | conn c c' hs => exact Or.inl ⟨rfl, id⟩

theorem SiteStep.restored_le (h : SiteStep C room {} x y) : x.1.restored ≤ y.1.restored := by
  rcases h.restored with ⟨e, -⟩ | e
  · omega
  · omega

/-- **A commit.** -/
theorem SiteStep.commits (h : SiteStep C room {} x y) (hf : (x.2 i).fresh = true)
    (hc : (y.2 i).committed = true) :
    y.1.hub.tombstone ≠ none ∧ y.1.restored = x.1.restored := by
  have hsame : y.2 i ≠ x.2 i := by
    intro e
    rw [e, Actor.not_committed_of_fresh hf] at hc
    exact Bool.false_ne_true hc
  cases h with
  | env s ls s' hw => exact absurd rfl hsame
  | proc s ls j s' a hs hg =>
    by_cases hij : i = j
    · subst hij
      simp only [Function.update_self] at hc
      have hf : (ls i).fresh = true := hf
      show s'.hub.tombstone ≠ none ∧ s'.restored = s.restored
      generalize ls i = b at hs hf
      cases hs with
      | deletion d d' s' hs =>
        cases hs with
        | commit hard by_ deletedAt => exact ⟨by simp, rfl⟩
        | getTime hard by_ deletedAt => exact absurd hc (by simp [Actor.committed])
        | stop d => exact absurd hc (by simp [Actor.committed])
        | _ => exact absurd hf (by simp [Actor.fresh])
      | _ => exact absurd hf (by simp [Actor.fresh])
    · exact absurd (Function.update_of_ne hij ..) hsame

/-! ## The invariant -/

/-- **The invariant of the cache.** -/
structure CacheOk (S : CacheState β ρ) : Prop where
  fresh : ∀ i, (S.run.2 i).fresh = true → S.dropping i = .idle
  committedIn : ∀ i n, S.committedIn i = some n →
    n ≤ S.run.1.restored ∧ (S.run.2 i).fresh = false
  uncached : ∀ i, (S.run.2 i).uncached = true → S.dropping i = .dropped
  deleted : ∀ i, S.committedIn i = some S.run.1.restored → S.run.1.hub.tombstone ≠ none
  /-- What is cached is still going to be deleted. -/
  covers : ∀ k, S.cache k ≠ none → CacheSafe S k

section Steps

variable {S : CacheState β ρ}

theorem CacheOk.start (hidle : ∀ i, (x.2 i).Idle) (cache : CacheKey → Option ρ) :
    CacheOk (CacheState.start x cache) where
  fresh _ _ := rfl
  committedIn _ _ h := absurd h (by simp [CacheState.start])
  uncached i h := by
    have hi := hidle i
    have h : (x.2 i).uncached = true := h
    cases ha : x.2 i with
    | deletion d =>
      rw [ha] at hi h
      obtain rfl : d = .idle := hi
      exact absurd h (by simp [Actor.uncached])
    | _ =>
      rw [ha] at h
      exact absurd h (by simp [Actor.uncached])
  deleted _ h := absurd h (by simp [CacheState.start])
  covers _ _ _ h := absurd h (by simp [CacheState.start])

/-- A step of the room. -/
theorem CacheOk.site (h : CacheOk S) (hs : SiteStep C room {} S.run y)
    (hu : ∀ i, (y.2 i).uncached = true → (S.run.2 i).uncached = true) : CacheOk (S.site y) := by
  -- a deletion of the time since the last restoration commits now, or did
  have hcommitted : ∀ i, (S.site y).committedIn i = some y.1.restored →
      ((S.run.2 i).fresh = true ∧ (y.2 i).committed = true) ∨
        S.committedIn i = some S.run.1.restored ∧ y.1.restored = S.run.1.restored := by
    intro i hi
    have hi : (if (S.run.2 i).fresh && (y.2 i).committed then some S.run.1.restored
      else S.committedIn i) = some y.1.restored := hi
    split at hi
    · rename_i hc
      exact Or.inl (Bool.and_eq_true_iff.mp hc)
    · have hle := (h.committedIn i _ hi).1
      have hge := hs.restored_le
      have e : y.1.restored = S.run.1.restored := by omega
      exact Or.inr ⟨e ▸ hi, e⟩
  exact {
    fresh := fun i hi => h.fresh i (hs.fresh hi)
    committedIn := fun i n hn => by
      have hn : (if (S.run.2 i).fresh && (y.2 i).committed then some S.run.1.restored
        else S.committedIn i) = some n := hn
      have hle := hs.restored_le
      split at hn
      · rename_i hc
        obtain ⟨-, hc⟩ := Bool.and_eq_true_iff.mp hc
        refine ⟨Option.some.inj hn ▸ hle, ?_⟩
        rw [Bool.eq_false_iff]
        intro hf
        have hf : (y.2 i).fresh = true := hf
        rw [Actor.not_committed_of_fresh hf] at hc
        exact Bool.false_ne_true hc
      · obtain ⟨hn, hfresh⟩ := h.committedIn i n hn
        refine ⟨hn.trans hle, ?_⟩
        rw [Bool.eq_false_iff] at hfresh ⊢
        exact fun hf => hfresh (hs.fresh hf)
    uncached := fun i hi => h.uncached i (hu i hi)
    deleted := fun i hi => by
      rcases hcommitted i hi with ⟨hf, hc⟩ | ⟨hi, e⟩
      · exact (hs.commits hf hc).1
      · rcases hs.restored with ⟨-, hstays⟩ | e'
        · exact hstays (h.deleted i hi)
        · omega
    covers := fun k hk i hi => by
      show (S.dropping i).Covers k
      rcases hcommitted i hi with ⟨hf, -⟩ | ⟨hi, -⟩
      · rw [h.fresh i hf]
        trivial
      · exact h.covers k hk i hi }

theorem CacheOk.forget (h : CacheOk S) (keys : List CacheKey) : CacheOk (S.forget keys) where
  fresh i hi := Dropping.forget_idle.mpr (h.fresh i hi)
  committedIn := h.committedIn
  uncached i hi := Dropping.forget_dropped.mpr (h.uncached i hi)
  deleted := h.deleted
  covers k hk i hi := by
    have hk : (if k ∈ keys then none else S.cache k) ≠ none := hk
    split at hk
    · exact absurd rfl hk
    · rename_i hnot
      exact (h.covers k hk i hi).forget hnot

/-- A `deleteCachedResponses` call comes further. -/
theorem CacheOk.drop (h : CacheOk S) {d : Dropping}
    (ha : (S.run.2 i).fresh = false) (hu : (S.run.2 i).uncached = false)
    (hd : ∀ k, S.cache k ≠ none → S.committedIn i = some S.run.1.restored → d.Covers k) :
    CacheOk { S with dropping := Function.update S.dropping i d } where
  fresh j hj := by
    by_cases hij : j = i
    · subst hij
      rw [ha] at hj
      exact absurd hj Bool.false_ne_true
    · simpa only [Function.update_of_ne hij] using h.fresh j hj
  committedIn := h.committedIn
  uncached j hj := by
    by_cases hij : j = i
    · subst hij
      rw [hu] at hj
      exact absurd hj Bool.false_ne_true
    · simpa only [Function.update_of_ne hij] using h.uncached j hj
  deleted := h.deleted
  covers k hk j hj := by
    by_cases hij : j = i
    · subst hij
      simpa only [Function.update_self] using hd k hk hj
    · simpa only [Function.update_of_ne hij] using h.covers k hk j hj

/-- The `DEL` takes effect. -/
theorem CacheOk.del (h : CacheOk S) {hard : Bool} {t : Tombstone} {cleared : Bool}
    {message : Option StreamId} {keys : List CacheKey}
    (ha : S.run.2 i = .deletion (.committed hard t cleared message false))
    (hi : S.dropping i = .scanned keys) :
    CacheOk { S.forget keys with
      run := (S.run.1,
        Function.update S.run.2 i (.deletion (.committed hard t cleared message true)))
      dropping := Function.update (S.forget keys).dropping i .dropped } where
  fresh j hj := by
    by_cases hij : j = i
    · subst hij
      simp only [Function.update_self] at hj
      exact absurd hj (by simp [Actor.fresh])
    · simp only [Function.update_of_ne hij] at hj ⊢
      exact Dropping.forget_idle.mpr (h.fresh j hj)
  committedIn j n hn := by
    refine ⟨(h.committedIn j n hn).1, ?_⟩
    by_cases hij : j = i
    · subst hij
      simp [Actor.fresh]
    · simpa only [Function.update_of_ne hij] using (h.committedIn j n hn).2
  uncached j hj := by
    by_cases hij : j = i
    · subst hij
      simp
    · simp only [Function.update_of_ne hij] at hj ⊢
      exact Dropping.forget_dropped.mpr (h.uncached j hj)
  deleted := h.deleted
  covers k hk j hj := by
    have hk : (if k ∈ keys then none else S.cache k) ≠ none := hk
    split at hk
    · exact absurd rfl hk
    · rename_i hnot
      have hcovers := h.covers k hk j hj
      by_cases hij : j = i
      · subst hij
        rw [hi] at hcovers
        exact absurd hcovers hnot
      · simp only [Function.update_of_ne hij]
        exact hcovers.forget hnot

/-- The step lemma. -/
theorem CacheOk.step {S' : CacheState β ρ} (h : CacheOk S)
    (hs : CacheStep C room A CacheSafe S S') : CacheOk S' := by
  cases hs with
  | site y hs hu => exact h.site hs hu
  | scan i hard t cleared message ha hi =>
    exact h.drop (by rw [ha]; rfl) (by rw [ha]; rfl) fun k hk _ => hk
  | scanned i owed keys hi hkeys =>
    refine h.drop (d := .scanned keys) ?_ ?_ fun k hk hc => ?_
    · rw [Bool.eq_false_iff]
      intro hf
      rw [h.fresh i hf] at hi
      exact absurd hi (by simp)
    · rw [Bool.eq_false_iff]
      intro hu
      rw [h.uncached i hu] at hi
      exact absurd hi (by simp)
    · have hcovers := h.covers k hk i hc
      rw [hi] at hcovers
      exact hkeys k hcovers
  | del i hard t cleared message keys ha hi => exact h.del ha hi
  | expire k => exact h.forget [k]
  | set before after k result hsets hP =>
    refine ⟨h.fresh, h.committedIn, h.uncached, h.deleted, fun k' hk' => ?_⟩
    by_cases hkk : k' = k
    · subst hkk
      exact hP
    · simp only [Function.update_of_ne hkk] at hk'
      exact h.covers k' hk'
  | setFails before after x hsets => exact ⟨h.fresh, h.committedIn, h.uncached, h.deleted, h.covers⟩
  | request j q sets hs => exact ⟨h.fresh, h.committedIn, h.uncached, h.deleted, h.covers⟩

/-- The run lemma. -/
theorem CacheOk.of_reach (h : CacheReach C room A CacheSafe S) : CacheOk S := by
  obtain ⟨x, cache, hidle, hrun⟩ := h
  induction hrun with
  | refl => exact .start hidle cache
  | tail _ hstep ih => exact ih.step hstep

/-! ## After a deletion -/

/-- What a request that started after the deletion has got. -/
def Refused : CachedRequest β ρ → Prop
  | .reading _ g => ∀ ra, g.selected = some ra → ra.tombstone ≠ none
  | .computing _ _ => False
  | .returned _ => False
  | _ => True

/-- The document comes with the tombstone that the `SELECT` found. -/
theorem Retrieval.Yields.tombstone {g : Retrieval β} {d : DocTable β}
    (hd : g.Yields C cachedInclude true d) :
    ∃ ra, g.selected = some ra ∧ d.tombstone = ra.tombstone := by
  obtain ⟨cached, ra, -, hra, -, rfl⟩ := hd
  exact ⟨ra, hra, rfl⟩

/-- **In a deleted room without cached responses** a request is refused. -/
theorem Refused.step {s : Hub β} {cache : CacheKey → Option ρ} {q q' : CachedRequest β ρ}
    {sets : List (CacheKey × ρ)} (h : Refused q) (hdeleted : s.tombstone ≠ none)
    (hcache : ∀ k, cache k = none) (hs : RequestStep C room A s cache q q' sets) : Refused q' := by
  cases hs with
  | start key => trivial
  | hit key cached hit =>
    rw [hcache key] at hit
    exact absurd hit (by simp)
  | miss key hmiss => exact fun ra hra => absurd hra (by simp [Retrieval.start])
  | read key g g' hr =>
    cases hr with
    | select rows hrows hg =>
      intro ra hra
      obtain rfl := Option.some.inj hra
      exact hdeleted
    | xread hg hreads => exact h
    | retrieve before after id a hg => exact h
  | docDeleted key g d hd ht => trivial
  | loaded key g d hd ht =>
    obtain ⟨ra, hra, e⟩ := hd.tombstone
    exact h ra hra (e ▸ ht)
  | computed key d result hr => exact h.elim
  | fail hq => trivial

/-- A deletion of this time stays one, and its cached responses stay dropped. -/
theorem dropped_of_run {P : CacheState β ρ → CacheKey → Prop} {S₁ S₂ : CacheState β ρ} {n : Nat}
    (h₂ : CacheRun C room A P S₁ S₂) (hc : S₁.committedIn i = some n)
    (hf : (S₁.run.2 i).fresh = false) (hd : S₁.dropping i = .dropped) :
    S₁.run.1.restored ≤ S₂.run.1.restored ∧ S₂.committedIn i = some n ∧
      (S₂.run.2 i).fresh = false ∧ S₂.dropping i = .dropped := by
  induction h₂ with
  | refl => exact ⟨le_rfl, hc, hf, hd⟩
  | tail _ hstep ih =>
    rename_i S S' _
    obtain ⟨hle, hc, hf, hd⟩ := ih
    have hne : ∀ j, S.dropping j ≠ .dropped → i ≠ j := by
      rintro j hj rfl
      exact hj hd
    cases hstep with
    | site y hs hu =>
      refine ⟨hle.trans hs.restored_le, ?_, ?_, hd⟩
      · show (if (S.run.2 i).fresh && (y.2 i).committed then some S.run.1.restored
          else S.committedIn i) = some n
        rw [hf, Bool.false_and, if_neg Bool.false_ne_true, hc]
      · rw [Bool.eq_false_iff] at hf ⊢
        exact fun hf' => hf (hs.fresh hf')
    | scan j hard t cleared message ha hj =>
      have hij := hne j (by
        rw [hj]
        simp)
      exact ⟨hle, hc, hf, by simpa only [Function.update_of_ne hij] using hd⟩
    | scanned j owed keys hj hkeys =>
      have hij := hne j (by
        rw [hj]
        simp)
      exact ⟨hle, hc, hf, by simpa only [Function.update_of_ne hij] using hd⟩
    | del j hard t cleared message keys ha hj =>
      have hij := hne j (by
        rw [hj]
        simp)
      refine ⟨hle, hc, ?_, ?_⟩
      · simpa only [Function.update_of_ne hij] using hf
      · simp only [Function.update_of_ne hij]
        exact Dropping.forget_dropped.mpr hd
    | expire k => exact ⟨hle, hc, hf, Dropping.forget_dropped.mpr hd⟩
    | set before after k result hsets hP => exact ⟨hle, hc, hf, hd⟩
    | setFails before after x hsets => exact ⟨hle, hc, hf, hd⟩
    | request j q sets hs => exact ⟨hle, hc, hf, hd⟩

/-- **No cached content after a deletion**: after a `deleteDoc` call has returned, and as long as
the room is not restored, a request that starts returns nothing, and a document that it has read
bears the tombstone, with which it fails. -/
theorem no_cached_content {S₁ S₂ : CacheState β ρ} (h₁ : CacheReach C room A CacheSafe S₁)
    {hard : Bool} {t : Tombstone} {j : Nat} (hi : S₁.run.2 i = .deletion (.returned hard t))
    (hc : S₁.committedIn i = some S₁.run.1.restored) (hj : S₁.requests j = .idle)
    (h₂ : CacheRun C room A CacheSafe S₁ S₂) (hr : S₂.run.1.restored = S₁.run.1.restored) :
    (∀ result, S₂.requests j ≠ .returned result) ∧
      ∀ key g d, S₂.requests j = .reading key g → g.Yields C cachedInclude true d →
        d.tombstone ≠ none := by
  have hok₁ : CacheOk S₁ := .of_reach h₁
  have hf : (S₁.run.2 i).fresh = false := by
    rw [hi]
    rfl
  have hd : S₁.dropping i = .dropped := hok₁.uncached i (by
    rw [hi]
    rfl)
  have hrefused : S₂.run.1.restored = S₁.run.1.restored → Refused (S₂.requests j) := by
    clear hr
    induction h₂ with
    | refl =>
      intro _
      rw [hj]
      trivial
    | tail hrun hstep ih =>
      rename_i S S'
      intro hr
      obtain ⟨hle, hcS, -, hdS⟩ := dropped_of_run hrun hc hf hd
      have hok : CacheOk S := by
        obtain ⟨x, cache, hidle, h₁⟩ := h₁
        exact .of_reach ⟨x, cache, hidle, h₁.trans hrun⟩
      -- the restorations are as many before the step
      have hrS : S.run.1.restored = S₁.run.1.restored := by
        obtain ⟨hle', -⟩ := dropped_of_run (.single hstep) hcS
          (hok.committedIn i _ hcS).2 hdS
        omega
      rw [← hrS] at hcS
      have hcache : ∀ k, S.cache k = none := by
        intro k
        by_contra hk
        have hcovers := hok.covers k hk i hcS
        rw [hdS] at hcovers
        exact hcovers
      cases hstep with
      | request j' q sets hs =>
        by_cases hjj : j = j'
        · subst hjj
          simp only [Function.update_self]
          exact (ih hrS).step (hok.deleted i hcS) hcache hs
        · simpa only [Function.update_of_ne hjj] using ih hrS
      | _ => exact ih hrS
  have href := hrefused hr
  refine ⟨fun result e => ?_, fun key g d e hy => ?_⟩
  · rw [e] at href
    exact href
  · rw [e] at href
    obtain ⟨ra, hra, ht⟩ := hy.tombstone
    rw [ht]
    exact href ra hra

end Steps

/-! ## Runs -/

section Runs

variable {P : CacheState β ρ → CacheKey → Prop} {S₀ S : CacheState β ρ}

/-- A step of a deletion, in a run. -/
theorem CacheRun.deletion (h : CacheRun C room A P S₀ S) (i : Nat) {d d' : Deletion β}
    {s' : Hub β} (hs : DeletionStep C room (fun _ _ => True) S.run.1.hub d s' d')
    (hi : S.run.2 i = .deletion d)
    (hu : (Actor.deletion d').uncached = true → (Actor.deletion d).uncached = true) :
    CacheRun C room A P S₀ (S.site ({ S.run.1 with hub := s' },
      Function.update S.run.2 i (.deletion d'))) := by
  refine Relation.ReflTransGen.tail h (CacheStep.site S _ ?_ fun j hj => ?_)
  · refine Interleave.Guarded.proc S.run.1 S.run.2 i _ _ ?_ trivial
    rw [hi]
    exact ActorStep.deletion _ _ _ _ hs
  · by_cases hij : j = i
    · subst hij
      simp only [Function.update_self] at hj
      rw [hi]
      exact hu hj
    · simpa only [Function.update_of_ne hij] using hj

/-- A step of a request, in a run. -/
theorem CacheRun.request (h : CacheRun C room A P S₀ S) (j : Nat) {q q' : CachedRequest β ρ}
    {sets : List (CacheKey × ρ)} (hs : RequestStep C room A S.run.1.hub S.cache q q' sets)
    (hj : S.requests j = q) :
    CacheRun C room A P S₀ { S with
      requests := Function.update S.requests j q', sets := S.sets ++ sets } := by
  subst hj
  exact Relation.ReflTransGen.tail h (CacheStep.request S j q' sets hs)

/-- A soft deletion on its own, which drops the keys that are in the cache. -/
theorem deleted_alone (h : CacheRun C room A P S₀ S) (hi : S.run.2 i = .deletion .idle)
    (hd : S.dropping i = .idle) (ht : S.run.1.hub.tombstone = none) (keys : List CacheKey)
    (hcache : ∀ k, S.cache k ≠ none → k ∈ keys) :
    ∃ S' t, CacheRun C room A P S S' ∧ CacheRun C room A P S₀ S' ∧
      S'.run.2 i = .deletion (.returned false t) ∧ S'.committedIn i = some S'.run.1.restored ∧
      S'.requests = S.requests ∧ S'.sets = S.sets ∧ (∀ k, S'.cache k = none) ∧
      S'.run.1.hub.rows = S.run.1.hub.rows := by
  obtain ⟨t, hstored, hsoft⟩ : ∃ t, storeTombstone room 0 false none S.run.1.hub.tombstone = t ∧
      t.hard = false := by
    rw [ht]
    exact ⟨_, rfl, rfl⟩
  have hcommit : DeletionStep C room (fun _ _ => True) S.run.1.hub (.timed false none 0)
      { S.run.1.hub with tombstone := some t } (.committed false t true none false) := by
    have hstep : DeletionStep C room (fun _ _ => True) S.run.1.hub _ _ _ :=
      DeletionStep.commit _ false none 0
    rw [hstored, hsoft] at hstep
    exact hstep
  have h₀ : CacheRun C room A P S S := .refl
  have h₁ := h₀.deletion i (DeletionStep.getTime _ false none 0) hi fun hu => hu
  have h₂ := h₁.deletion i hcommit (Function.update_self ..) fun hu => hu
  have h₃ := h₂.deletion i (DeletionStep.addMessage _ false t true false 0 trivial)
    (Function.update_self ..) fun hu => hu
  have h₄ := h₃.tail (CacheStep.scan _ i _ _ _ _ (Function.update_self ..) hd)
  have h₅ := h₄.tail (CacheStep.scanned _ i _ keys (Function.update_self ..) hcache)
  have h₆ : CacheRun C room A P S _ := h₅.tail (CacheStep.del _ i _ _ _ _ keys
    (Function.update_self ..) (Function.update_self ..))
  have h₇ := h₆.deletion i (DeletionStep.soft _ false t _ hsoft) (Function.update_self ..)
    fun _ => rfl
  refine ⟨_, t, h₇, h.trans h₇, Function.update_self .., ?_, rfl, rfl, fun k => ?_, rfl⟩
  · simp [CacheState.site, CacheState.forget, Actor.fresh, Actor.committed]
  · show (if k ∈ keys then none else S.cache k) = none
    split_ifs with hk
    · rfl
    · by_contra hne
      exact hk (hcache k hne)

end Runs

/-- Responses that are the document. -/
def documents : Responses RefPayload RefPayload := ⟨fun _ d => d.nongcDoc, fun _ => 0⟩

/-- A request for the changes of a room, without any filter. -/
def changes : CacheKey := ⟨.changeset, ["null", "null", "", "false", "false", "false", ""]⟩

/-- A request that misses the cache and has read the document. -/
theorem loaded_alone {P : CacheState RefPayload RefPayload → CacheKey → Prop} :
    ∃ S d result, CacheRun (.ref []) Room.a documents P
        (.start (Site.of oneUpdate, administration) fun _ => none) S ∧
      S.run = (Site.of oneUpdate, administration) ∧ S.cache = (fun _ => none) ∧ S.sets = [] ∧
      S.dropping = (fun _ => .idle) ∧ S.committedIn = (fun _ => none) ∧
      S.requests 0 = .computing changes d ∧ S.requests 1 = .idle ∧
      documents.compute changes d = some result := by
  have h₀ : CacheRun (.ref []) Room.a documents P
      (.start (Site.of oneUpdate, administration) fun _ => none) _ := .refl
  have h₁ := h₀.request 0 (RequestStep.start changes) rfl
  have h₂ := h₁.request 0 (RequestStep.miss changes rfl) rfl
  have h₃ := h₂.request 0 (RequestStep.read changes _ _
    (RetrievalStep.select _ [] (List.Perm.refl _) rfl)) rfl
  have h₄ := h₃.request 0 (RequestStep.read changes _ _
    (RetrievalStep.xread _ rfl trivial)) rfl
  have h₅ := h₄.request 0 (RequestStep.loaded changes _ _ ⟨_, _, rfl, rfl, rfl, rfl⟩ rfl) rfl
  exact ⟨_, _, _, h₅, rfl, rfl, rfl, rfl, rfl, rfl, rfl, rfl⟩

/-- **A run**: a response is cached, the room is deleted with what is in the cache, and a request
misses and reads the tombstone. -/
theorem no_cached_content_of_run : ∃ (S₀ S : CacheState RefPayload RefPayload)
    (g : Retrieval RefPayload) (d : DocTable RefPayload), S₀.cache changes ≠ none ∧
      CacheRun (.ref []) Room.a documents CacheSafe S₀ S ∧ S.requests 1 = .reading changes g ∧
      g.Yields (.ref []) cachedInclude true d ∧ d.tombstone ≠ none := by
  obtain ⟨S, d, result, h₁, hrun, hcache, hsets, hdropping, hcommitted, hloaded, hidle, hresult⟩ :=
    loaded_alone (P := CacheSafe)
  -- nothing is deleted yet, so the `SET` may take effect
  obtain ⟨S₀, h₂, hrun₀, hcache₀, hdropping₀, hidle₀⟩ : ∃ S₀, CacheRun (.ref []) Room.a documents
      CacheSafe (.start (Site.of oneUpdate, administration) fun _ => none) S₀ ∧
      S₀.run = (Site.of oneUpdate, administration) ∧
      S₀.cache = Function.update (fun _ => none) changes (some result) ∧
      S₀.dropping = (fun _ => .idle) ∧ S₀.requests 1 = .idle := by
    have hcomputed := h₁.request 0 (RequestStep.computed changes d result hresult) hloaded
    refine ⟨_, hcomputed.tail (CacheStep.set _ [] [] changes result ?_ fun i hi => ?_), hrun, ?_,
      hdropping, ?_⟩
    · rw [hsets]
      rfl
    · exact absurd hi (by simp [hcommitted])
    · simp only [hcache]
    · exact hidle
  have hkeys : ∀ k, S₀.cache k ≠ none → k ∈ [changes] := by
    intro k hk
    by_contra hne
    rw [hcache₀, Function.update_of_ne (by simpa using hne)] at hk
    exact hk rfl
  obtain ⟨S₁, t, hdeletion, h₃, hi, hc, hj, -, hnone, hrows⟩ := deleted_alone (i := 0) h₂
    (by rw [hrun₀]; rfl) (by rw [hdropping₀]) (by rw [hrun₀]; rfl) [changes] hkeys
  have hidle₁ : S₁.requests 1 = .idle := (congrFun hj 1).trans hidle₀
  have h₀ : CacheRun (.ref []) Room.a documents CacheSafe S₁ S₁ := .refl
  have h₄ := h₀.request 1 (RequestStep.start changes) hidle₁
  have h₅ := h₄.request 1 (RequestStep.miss changes (hnone changes)) rfl
  have hperm : [].Perm S₁.run.1.hub.rows := by
    rw [hrows, hrun₀]
    exact List.Perm.refl []
  have h₆ := h₅.request 1 (RequestStep.read changes _ _
    (RetrievalStep.select _ [] hperm rfl)) rfl
  have h₇ := h₆.request 1 (RequestStep.read changes _ _ (RetrievalStep.xread _ rfl trivial)) rfl
  have hcached : S₀.cache changes ≠ none := by
    rw [hcache₀, Function.update_self]
    exact Option.some_ne_none result
  exact ⟨S₀, _, _, _, hcached, hdeletion.trans h₇, rfl, ⟨_, _, rfl, rfl, rfl, rfl⟩,
    (no_cached_content ⟨_, _, administration_idle, h₃⟩ hi hc hidle₁ h₇ rfl).2 changes _ _ rfl
      ⟨_, _, rfl, rfl, rfl, rfl⟩⟩

/-- **A cached response is returned**: a request misses the cache and reads the document, the room
is deleted, and the `SET` takes effect after that. -/
theorem cached_content_returned : ¬ ∀ S₁ S₂ : CacheState RefPayload RefPayload,
    CacheReach (.ref []) Room.a documents (fun _ _ => True) S₁ → ∀ i hard t j,
    S₁.run.2 i = .deletion (.returned hard t) →
    S₁.committedIn i = some S₁.run.1.restored → S₁.requests j = .idle →
    CacheRun (.ref []) Room.a documents (fun _ _ => True) S₁ S₂ →
    S₂.run.1.restored = S₁.run.1.restored → ∀ result, S₂.requests j ≠ .returned result := by
  intro hclaim
  obtain ⟨S, d, result, h₁, hrun, hcache, hsets, hdropping, -, hloaded, hidle, hresult⟩ :=
    loaded_alone (P := fun _ _ => True)
  obtain ⟨S₁, t, -, h₂, hi, hc, hj, hsets₁, -⟩ := deleted_alone (i := 0) h₁
    (by rw [hrun]; rfl) (by rw [hdropping]) (by rw [hrun]; rfl) []
    fun k hk => absurd (congrFun hcache k) hk
  have hloaded₁ : S₁.requests 0 = .computing changes d := (congrFun hj 0).trans hloaded
  have hidle₁ : S₁.requests 1 = .idle := (congrFun hj 1).trans hidle
  have hset : S₁.sets ++ (if documents.byteLength result < 100 * 1000 * 1000 then
      [(changes, result)] else []) = [] ++ (changes, result) :: [] := by
    rw [hsets₁, hsets]
    rfl
  obtain ⟨S₂, h₃, hset, hi, hc, hidle⟩ : ∃ S₂, CacheRun (.ref []) Room.a documents (fun _ _ => True)
      (.start (Site.of oneUpdate, administration) fun _ => none) S₂ ∧
      S₂.sets = [] ++ (changes, result) :: [] ∧ S₂.run.2 0 = .deletion (.returned false t) ∧
      S₂.committedIn 0 = some S₂.run.1.restored ∧ S₂.requests 1 = .idle :=
    ⟨_, h₂.request 0 (RequestStep.computed changes d result hresult) hloaded₁, hset, hi, hc, hidle₁⟩
  have h₄ : CacheRun (.ref []) Room.a documents (fun _ _ => True) S₂ _ :=
    Relation.ReflTransGen.single (CacheStep.set S₂ [] [] changes result hset trivial)
  have h₅ := h₄.request 1 (RequestStep.start changes) hidle
  have h₆ := h₅.request 1 (RequestStep.hit changes result (by
    simp only [Function.update_self])) rfl
  exact hclaim _ _ ⟨_, _, administration_idle, h₃⟩ 0 false t 1 hi hc hidle h₆ rfl result rfl

end YHub
