import YHub.Site

/-!
# What a hard deletion leaves in the database (`persistence.js:176-191`, `persistence.js:379-436`)

The `INSERT` of `store` is refused once the room has a hard tombstone, whatever stage the run of
`_runTask` or the `unsafePersistDoc` call is at that makes it. So the rows only become fewer from
the commit on (`Hub.After`), and the rows that a purge lists include all that are left when it
deletes them (`DeletionOk`).

* `hard_deletion_barrier`: in every run in which no tombstone is dropped, no row is added after a
  hard tombstone is committed, the tombstone keeps its `deletedAt`, and after a hard deletion has
  returned the room has no row and its tombstone is hard and purged.
* `restoreDoc_keeps_hard`: a hard tombstone stays, in every run in which a `restoreDoc` call finds
  the tombstone still soft when it drops it.
* `restoreDoc_drops_hard`: it does not stay in general. `restoreDoc` reads the tombstone, which is
  soft; a hard deletion runs; `restoreDoc` drops the tombstone.
-/

namespace YHub

variable {β : Type} {C : Conf β} {room : Room}

/-! ## Steps of a room's tombstone and rows -/

/-- The room has a hard tombstone. -/
def Hub.Hard (s : Hub β) : Prop := s.tombstone.any Tombstone.hard = true

theorem Hub.hard_iff {s : Hub β} : s.Hard ↔ ∃ t, s.tombstone = some t ∧ t.hard = true := by
  unfold Hub.Hard
  cases s.tombstone with
  | none => simp
  | some t => simp

/-- A tombstone after more deletions of the room. -/
structure Tombstone.Becomes (t t' : Tombstone) : Prop where
  deletedAt : t'.deletedAt = t.deletedAt
  hard : t.hard = true → t'.hard = true
  purgedAt : t.purgedAt.isSome = true → t'.purgedAt.isSome = true

theorem Tombstone.Becomes.refl (t : Tombstone) : t.Becomes t := ⟨rfl, id, id⟩

theorem Tombstone.Becomes.trans {t t' t'' : Tombstone} (h : t.Becomes t') (h' : t'.Becomes t'') :
    t.Becomes t'' :=
  ⟨h'.deletedAt.trans h.deletedAt, fun ht => h'.hard (h.hard ht),
    fun ht => h'.purgedAt (h.purgedAt ht)⟩

/-- `ON CONFLICT DO UPDATE`: a second deletion only ever makes the tombstone hard. -/
theorem becomes_storeTombstone (t : Tombstone) (deletedAt : Nat) (hard : Bool)
    (by_ : Option String) : t.Becomes (storeTombstone room deletedAt hard by_ (some t)) :=
  ⟨rfl, fun ht => by simp [storeTombstone, ht], id⟩

theorem storeTombstone_hard (deletedAt : Nat) (by_ : Option String) (old : Option Tombstone) :
    (storeTombstone room deletedAt true by_ old).hard = true := by
  cases old with
  | none => rfl
  | some t => simp [storeTombstone]

/-- What becomes of the tombstone and the rows of a room while no tombstone is dropped. -/
structure Hub.After (s s' : Hub β) : Prop where
  tombstone : ∀ t, s.tombstone = some t → ∃ t', s'.tombstone = some t' ∧ t.Becomes t'
  rows : s.Hard → s'.rows.Sublist s.rows

namespace Hub.After

variable {s s' s'' : Hub β}

theorem hard (h : s.After s') (hs : s.Hard) : s'.Hard := by
  obtain ⟨t, ht, hhard⟩ := Hub.hard_iff.mp hs
  obtain ⟨t', ht', hb⟩ := h.tombstone t ht
  exact Hub.hard_iff.mpr ⟨t', ht', hb.hard hhard⟩

theorem trans (h : s.After s') (h' : s'.After s'') : s.After s'' where
  tombstone t ht := by
    obtain ⟨t', ht', hb⟩ := h.tombstone t ht
    obtain ⟨t'', ht'', hb'⟩ := h'.tombstone t' ht'
    exact ⟨t'', ht'', hb.trans hb'⟩
  rows hs := (h'.rows (h.hard hs)).trans (h.rows hs)

/-- The tombstone stays as it is. -/
theorem of_tombstone (ht : s'.tombstone = s.tombstone) (hrows : s.Hard → s'.rows.Sublist s.rows) :
    s.After s' :=
  ⟨fun t h => ⟨t, ht.trans h, .refl t⟩, hrows⟩

theorem of_eq (ht : s'.tombstone = s.tombstone) (hrows : s'.rows = s.rows) : s.After s' :=
  of_tombstone ht fun _ => by rw [hrows]

theorem refl (s : Hub β) : s.After s := of_eq rfl rfl

/-- **The barrier.** -/
theorem insert (row : Row β) : s.After { s with rows := insertRow s.tombstone row s.rows } :=
  of_tombstone rfl fun hs => by
    have hrows : insertRow s.tombstone row s.rows = s.rows := if_pos hs
    rw [hrows]

theorem delete (refs : List (Reference β)) :
    s.After { s with rows := YHub.deleteReferences room refs s.rows } :=
  of_tombstone rfl fun _ => List.filter_sublist

theorem worker {p p' : Proc β} (h : WorkerStep C room s p s' p') : s.After s' := by
  cases h with
  | insert task d c assets => exact insert _
  | delete task d refs trimmed hrefs => exact delete refs
  | _ => exact of_eq rfl rfl

theorem persist {p p' : PersistCall β} (h : PersistCallStep C room s p s' p') : s.After s' := by
  cases h with
  | insert t c assets => exact insert _
  | _ => exact of_eq rfl rfl

theorem deletion {ids : Hub β → StreamId → Prop} {d d' : Deletion β}
    (h : DeletionStep C room ids s d s' d') : s.After s' := by
  cases h with
  | commit hard by_ deletedAt =>
    refine ⟨fun t ht => ⟨_, rfl, ?_⟩, fun _ => List.Sublist.refl _⟩
    rw [ht]
    exact becomes_storeTombstone t deletedAt hard by_
  | delete hard p refs hl hs hd => exact delete refs
  | purged hard p ms hd hq hp =>
    refine ⟨fun t ht => ⟨_, by rw [storeTombstonePurged, ht]; rfl, ?_⟩,
      fun _ => List.Sublist.refl _⟩
    exact ⟨rfl, id, fun _ => rfl⟩
  | _ => exact of_eq rfl rfl

theorem world {ops : Nat → Op β → Prop}
    {grants : Site β → AuthInfo → Option AccessType → Prop} {x x' : Site β}
    (h : SiteWorld room ops grants x x') : x.hub.After x'.hub := by
  cases h <;> exact of_eq rfl rfl

end Hub.After

/-! ## Runs -/

/-- A `restoreDoc` call drops the tombstone only in a state with `P`. -/
def Drops (P : Hub β → Prop) (x : SiteState β) (i : Nat) (a : Actor β) : Prop :=
  ∀ t, x.2 i = .restore (.dropping t) → a = .restore .returned → P x.1.hub

/-- The runs in which `restoreDoc` drops a tombstone only in states with `P`. -/
def Rules.drops (P : Hub β → Prop) : Rules β := { guard := Drops P }

/-- What a step of a process does to the hub, unless it drops a tombstone. -/
theorem Hub.After.actor {ids : Hub β → StreamId → Prop} {x x' : Site β} {a a' : Actor β}
    (h : ActorStep C room ids x a x' a')
    (hdrop : ∀ t, a = .restore (.dropping t) → a' = .restore .returned → False) :
    x.hub.After x'.hub := by
  cases h with
  | worker p p' s' h => exact worker h
  | persist p p' s' h => exact persist h
  | deletion d d' s' h => exact deletion h
  | restore x' r r' h =>
    cases h with
    | retrieveTombstone => exact refl _
    | deleteTombstone t => exact (hdrop t rfl rfl).elim
    | stop => exact refl _
  | conn c c' h => exact refl _

/-- The run lemma. -/
theorem after_of_run {x y : SiteState β} (h : SiteRun C room (.drops fun _ => False) x y) :
    x.1.hub.After y.1.hub :=
  Interleave.guarded_rel (R := fun x y => x.hub.After y.hub) (fun _ => .refl _)
    (fun _ _ _ h h' => h.trans h') (fun _ _ _ h => .world h)
    (fun _ _ _ _ _ h hg => .actor h hg) h

/-! ## What a deletion relies on -/

/-- The references name every row. -/
def Lists (room : Room) (refs : List (Reference β)) (rows : List (Row β)) : Prop :=
  ∀ row ∈ rows, ∃ ref ∈ refs, ref.1.room = room ∧ ref.1.t = row.t

/-- The room is erased. -/
def Hub.Erased (s : Hub β) : Prop :=
  s.rows = [] ∧ ∃ t, s.tombstone = some t ∧ t.hard = true ∧ t.purgedAt.isSome = true

/-- What a `deleteDoc` call relies on, at each place it can be. -/
def DeletionOk (room : Room) (s : Hub β) : Deletion β → Prop
  | .committed hard t _ _ _ => (hard = true → t.hard = true) ∧ (t.hard = true → s.Hard)
  | .purging _ p => s.Hard ∧ (∀ refs, p.listed = some refs → Lists room refs s.rows) ∧
      (p.deleted = true → s.rows = [])
  | .returned hard t => (hard = true → t.hard = true) ∧ (t.hard = true → s.Erased)
  | _ => True

theorem Lists.sublist {refs : List (Reference β)} {rows rows' : List (Row β)}
    (h : Lists room refs rows) (hsub : rows'.Sublist rows) : Lists room refs rows' :=
  fun row hrow => h row (hsub.subset hrow)

/-- A purge lists every row of the room. -/
theorem lists_retrieveAssets {sort : ClockSort} {tombstone : Option Tombstone}
    {rows rows' : List (Row β)} (h : rows.Perm rows') :
    Lists room (retrieveAssets sort room purgeInclude true tombstone rows).assets rows' := by
  intro row hrow
  refine ⟨(AssetColumn.gcdoc.assetId room row.t, _), List.mem_flatMap.mpr
    ⟨row, h.mem_iff.mpr hrow, List.mem_map.mpr ⟨.gcdoc, by decide, rfl⟩⟩, rfl, rfl⟩

/-- **What is listed is deleted.** -/
theorem deleteReferences_eq_nil {refs : List (Reference β)} {rows : List (Row β)}
    (h : Lists room refs rows) : deleteReferences room refs rows = [] := by
  unfold deleteReferences
  rw [List.filter_eq_nil_iff]
  intro row hrow
  simpa using h row hrow

/-- What a deletion relies on outlasts the steps of others. -/
theorem DeletionOk.after {s s' : Hub β} {d : Deletion β} (h : DeletionOk room s d)
    (ha : s.After s') : DeletionOk room s' d := by
  cases d with
  | committed hard t cleared message uncached => exact ⟨h.1, fun ht => ha.hard (h.2 ht)⟩
  | purging hard p =>
    obtain ⟨hs, hlists, hdeleted⟩ := h
    have hsub := ha.rows hs
    refine ⟨ha.hard hs, fun refs hrefs => (hlists refs hrefs).sublist hsub, fun hd => ?_⟩
    rw [hdeleted hd] at hsub
    exact List.sublist_nil.mp hsub
  | returned hard t =>
    refine ⟨h.1, fun ht => ?_⟩
    obtain ⟨hrows, t₀, ht₀, hhard, hpurged⟩ := h.2 ht
    obtain ⟨t', ht', hb⟩ := ha.tombstone t₀ ht₀
    have hsub := ha.rows (Hub.hard_iff.mpr ⟨t₀, ht₀, hhard⟩)
    rw [hrows] at hsub
    exact ⟨List.sublist_nil.mp hsub, t', ht', hb.hard hhard, hb.purgedAt hpurged⟩
  | _ => trivial

/-- The step lemma. -/
theorem DeletionOk.step {ids : Hub β → StreamId → Prop} {s s' : Hub β} {d d' : Deletion β}
    (h : DeletionOk room s d) (hstep : DeletionStep C room ids s d s' d') :
    DeletionOk room s' d' := by
  have ha : s.After s' := .deletion hstep
  cases hstep with
  | getTime hard by_ deletedAt => trivial
  | commit hard by_ deletedAt =>
    refine ⟨fun hhard => ?_, fun ht => Hub.hard_iff.mpr ⟨_, rfl, ht⟩⟩
    subst hhard
    exact storeTombstone_hard ..
  | clear hard t uncached => exact h.after ha
  | addMessage hard t cleared uncached now hid => exact h.after ha
  | deleteCachedResponses hard t cleared message => exact h
  | soft hard t m hsoft =>
    exact ⟨h.1, fun ht => absurd ht (by simp [hsoft])⟩
  | purge hard t m hhard =>
    exact ⟨h.2 hhard, fun refs hrefs => absurd hrefs (by simp [Purge.start]),
      fun hd => absurd hd (by simp [Purge.start])⟩
  | list hard p rows hrows hl =>
    refine ⟨h.1, fun refs hrefs => ?_, h.2.2⟩
    obtain rfl := Option.some.inj hrefs
    exact lists_retrieveAssets hrows
  | schedule hard p refs hl hs => exact h
  | delete hard p refs hl hs hd =>
    refine ⟨h.1, fun refs' hrefs' => (h.2.1 refs' hrefs').sublist List.filter_sublist, fun _ => ?_⟩
    exact deleteReferences_eq_nil (h.2.1 refs hl)
  | deleteQuarantineStreams hard p qids => exact h
  | getPurgeTime hard p ms => exact h
  | purged hard p ms hd hq hp =>
    obtain ⟨hhard, -, hdeleted⟩ := h
    obtain ⟨t, ht, hth⟩ := Hub.hard_iff.mp hhard
    have hstored : storeTombstonePurged ms s.tombstone = some { t with purgedAt := some ms } := by
      rw [storeTombstonePurged, ht]
      rfl
    rw [hstored]
    exact ⟨fun _ => hth, fun _ => ⟨hdeleted hd, _, rfl, hth, rfl⟩⟩
  | stop => trivial

/-- Every deletion of a run can rely on it. -/
theorem deletionOk_of_run {x y : SiteState β} (hidle : ∀ i, (x.2 i).Idle)
    (h : SiteRun C room (.drops fun _ => False) x y) :
    ∀ i d, y.2 i = .deletion d → DeletionOk room y.1.hub d := by
  refine Interleave.guarded_invariant
    (P := fun y => ∀ i d, y.2 i = .deletion d → DeletionOk room y.1.hub d) ?_ ?_ ?_ h
  · intro i d hd
    have hi := hidle i
    rw [hd] at hi
    obtain rfl : d = .idle := hi
    trivial
  · intro s ls s' ih hw i d hd
    exact (ih i d hd).after (.world hw)
  · intro s ls i s' a ih hs hg j d hd
    rcases Interleave.update_cases hd with ⟨rfl, rfl⟩ | ⟨-, hd⟩
    · generalize ha : ls j = a at hs
      cases hs with
      | deletion d₀ d' s' hs => exact (ih j d₀ ha).step hs
    · exact (ih j d hd).after (.actor hs hg)

/-- **The barrier of a hard deletion.** In every run in which no tombstone is dropped, from a room
in any state: the tombstone that the first deletion has committed keeps its `deletedAt`, and stays
hard once it is; from then on the rows only become fewer; and once a hard deletion has returned
there is no row, and the tombstone is hard and purged. -/
theorem hard_deletion_barrier {x₀ x y : SiteState β} (hidle : ∀ i, (x₀.2 i).Idle)
    (hx : SiteRun C room (.drops fun _ => False) x₀ x)
    (hy : SiteRun C room (.drops fun _ => False) x y) {t : Tombstone}
    (ht : x.1.hub.tombstone = some t) :
    (∃ t', y.1.hub.tombstone = some t' ∧ t'.deletedAt = t.deletedAt ∧
      (t.hard = true → t'.hard = true)) ∧
    (t.hard = true → y.1.hub.rows.Sublist x.1.hub.rows) ∧
    ∀ i t'', y.2 i = .deletion (.returned true t'') → y.1.hub.rows = [] ∧
      ∃ t', y.1.hub.tombstone = some t' ∧ t'.hard = true ∧ t'.purgedAt.isSome = true ∧
        t'.deletedAt = t.deletedAt := by
  have hafter := after_of_run hy
  obtain ⟨t', ht', hb⟩ := hafter.tombstone t ht
  refine ⟨⟨t', ht', hb.deletedAt, hb.hard⟩,
    fun hhard => hafter.rows (Hub.hard_iff.mpr ⟨t, ht, hhard⟩), fun i t'' hi => ?_⟩
  obtain ⟨hhard, herased⟩ := deletionOk_of_run hidle (hx.trans hy) i _ hi
  obtain ⟨hrows, t₁, ht₁, hh, hp⟩ := herased (hhard rfl)
  obtain rfl : t' = t₁ := Option.some.inj (ht'.symm.trans ht₁)
  exact ⟨hrows, t', ht', hh, hp, hb.deletedAt⟩

/-- A room with one row. -/
def oneRow : Hub RefPayload := oneUpdate.runTask (.ref []) Room.a 100000 ⟨1000, 0⟩

/-- Two deletions and a restoration that have not begun. -/
def administration : Nat → Actor RefPayload
  | 0 => .deletion .idle
  | 1 => .restore .idle
  | 2 => .deletion .idle
  | _ => .worker .idle

theorem administration_idle (i : Nat) : (administration i).Idle := by
  unfold administration
  split <;> rfl

/-- A process other than `restoreDoc` drops no tombstone. -/
theorem drops_deletion {P : Hub β → Prop} {x : SiteState β} {i : Nat} (d d' : Deletion β)
    (h : x.2 i = .deletion d) : (Rules.drops P).guard x i (.deletion d') := by
  intro t ht
  rw [h] at ht
  exact absurd ht (by simp)

/-- The room is deleted softly, and then hard. -/
theorem hard_deletion_barrier_of_run :
    ((oneRow.deleteDoc (.ref []) Room.a false none 200000 200000 0).deleteDoc (.ref []) Room.a true
      none 300000 300000 300001).rows = [] := by
  have h₀ : SiteRun (.ref []) Room.a (.drops fun _ => False) (Site.of oneRow, administration) _ :=
    .refl
  obtain ⟨t, h₁⟩ := h₀.deleteDoc (i := 0) rfl (fun _ d d' hd => drops_deletion d d' hd) false none
    200000 200000 0 fun _ _ => trivial
  have hlast : SiteRun (.ref []) Room.a (.drops fun _ => False)
      (Site.of (oneRow.deleteDoc (.ref []) Room.a false none 200000 200000 0),
        Function.update administration 0 (.deletion (.returned false t))) _ := .refl
  obtain ⟨t', h₂⟩ := hlast.deleteDoc (i := 2) rfl (fun _ d d' hd => drops_deletion d d' hd) true
    none 300000 300000 300001 fun _ _ => trivial
  exact ((hard_deletion_barrier administration_idle h₁ h₂ rfl).2.2 2 t' rfl).1

/-! ## Restorations -/

/-- **A hard tombstone stays**, in every run in which `restoreDoc` drops no hard tombstone. -/
theorem restoreDoc_keeps_hard {x y : SiteState β}
    (h : SiteRun C room (.drops fun s => ¬ s.Hard) x y) (hx : x.1.hub.Hard) : y.1.hub.Hard := by
  refine Interleave.guarded_rel (R := fun x y => x.hub.Hard → y.hub.Hard) (fun _ => id)
    (fun _ _ _ h h' hs => h' (h hs)) (fun _ _ _ hw => (Hub.After.world hw).hard) ?_ h hx
  intro s ls i s' a hstep hg hs
  exact (Hub.After.actor hstep fun t ht ha => hg t ht ha hs).hard hs

/-- **A run**: the room is deleted softly, restored and deleted hard, and `restoreDoc` finds the
tombstone of that. -/
theorem restoreDoc_keeps_hard_of_run : ∃ y : SiteState RefPayload,
    SiteRun (.ref []) Room.a (.drops fun s => ¬ s.Hard)
      (Site.of oneRow, Function.update administration 3 (.restore .idle)) y ∧
      y.1.restored = 1 ∧ y.2 3 = .restore .refused ∧ y.1.hub.Hard := by
  have h₀ : SiteRun (.ref []) Room.a (.drops fun s => ¬ s.Hard)
      (Site.of oneRow, Function.update administration 3 (.restore .idle)) _ := .refl
  obtain ⟨t, h₁⟩ := h₀.deleteDoc (i := 0) rfl (fun _ d d' hd => drops_deletion d d' hd) false none
    200000 200000 0 fun _ _ => trivial
  have h₂ := h₁.step (i := 1) (ActorStep.restore _ _ _ _ (RestoreStep.retrieveTombstone _))
    fun t ht _ => absurd ht (by simp [administration])
  have h₃ := h₂.step (i := 1) (ActorStep.restore _ _ (.dropping ⟨Room.a, 200000, false, none, none⟩)
    _ (RestoreStep.deleteTombstone _ _)) fun _ _ _ hhard => Bool.false_ne_true hhard
  obtain ⟨t', h₄⟩ := h₃.deleteDoc (i := 2) rfl (fun _ d d' hd => drops_deletion d d' hd) true none
    300000 300000 300001 fun _ _ => trivial
  obtain ⟨x, h₄, hhard, hrestored, hidle⟩ : ∃ x, SiteRun (.ref []) Room.a
      (.drops fun s => ¬ s.Hard)
      (Site.of oneRow, Function.update administration 3 (.restore .idle)) x ∧ x.1.hub.Hard ∧
      x.1.restored = 1 ∧ x.2 3 = .restore .idle := ⟨_, h₄, rfl, rfl, rfl⟩
  obtain ⟨t'', ht'', hard⟩ := Hub.hard_iff.mp hhard
  have hread : ActorStep (.ref []) Room.a (fun _ _ => True) x.1 (x.2 3) x.1
      (.restore .refused) := by
    have hstep : ActorStep (.ref []) Room.a (fun _ _ => True) x.1 (.restore .idle) x.1 _ :=
      ActorStep.restore _ _ _ _ (RestoreStep.retrieveTombstone x.1)
    rw [ht''] at hstep
    simpa [hidle, restoreDoc, hard] using hstep
  have h₅ : SiteRun (.ref []) Room.a (.drops fun s => ¬ s.Hard) x _ :=
    .single (Interleave.Guarded.proc _ _ 3 _ _ hread fun t ht _ => absurd ht (by simp [hidle]))
  exact ⟨_, h₄.trans h₅, hrestored, rfl, restoreDoc_keeps_hard h₅ hhard⟩

/-- **A hard tombstone is dropped**: the deletion becomes hard between the two statements of
`restoreDoc`. -/
theorem restoreDoc_drops_hard : ¬ ∀ x₀ x y : SiteState RefPayload, (∀ i, (x₀.2 i).Idle) →
    SiteRun (.ref []) Room.a {} x₀ x → x.1.hub.Hard → SiteRun (.ref []) Room.a {} x y →
    y.1.hub.Hard := by
  intro hclaim
  have h₀ : SiteRun (.ref []) Room.a {} (Site.of oneRow, administration) _ := .refl
  obtain ⟨t, h₁⟩ := h₀.deleteDoc (i := 0) rfl (fun _ _ _ _ => trivial) false none 200000 200000 0
    fun _ _ => trivial
  have h₂ := h₁.step (i := 1) (ActorStep.restore _ _ _ _ (RestoreStep.retrieveTombstone _)) trivial
  obtain ⟨t', h₃⟩ := h₂.deleteDoc (i := 2) rfl (fun _ _ _ _ => trivial) true none 300000 300000
    300001 fun _ _ => trivial
  have hhard := hclaim _ _ _ administration_idle h₃ rfl (Relation.ReflTransGen.refl.tail
    (Interleave.Guarded.proc _ _ 1 _ _ (ActorStep.restore _ _ (.dropping
      ⟨Room.a, 200000, false, none, none⟩) _ (RestoreStep.deleteTombstone _ _)) trivial))
  exact absurd hhard (by simp [Hub.Hard])

end YHub
