import YHub.ActivityGroups
import YHub.TimeWindow

/-!
# Who an entry credits (`compute-worker.js:223-248`)

The attributions of an entry are computed anew: of the filtered content, whatever has a timestamp
between the ends of the entry is stamped with the author of the entry. Whose content this was is not
looked at.

* `activity_credit_iff`: what has an event is in the attributions of its entry; but an entry shows
  nothing but its author's content only if whoever has an event at a timestamp of filtered content
  is recorded for this content (`TiesShared`), and if all timestamps are those of events, in that
  case only.
* `other_author_credited`: two users in one millisecond.
-/

namespace YHub

variable {β : Type}

/-- The attributes name the author on the side; `none` if they name nobody. -/
def RecordedBy (side : Side) (by_ : Option String) (as : List ContentAttribute) : Prop :=
  (∃ a ∈ as, a.name = side.attr ∧ a.val.string? = by_) ∨ by_ = none ∧ ∀ a ∈ as, a.name ≠ side.attr

/-- The attributes give the time on the side. -/
def RecordedAt (side : Side) (t : Nat) (as : List ContentAttribute) : Prop :=
  ⟨side.attr ++ "At", .number t⟩ ∈ as

/-- The author of the entry is recorded on the side, and a time between its ends. -/
def Activity.Credited (act : Activity) (side : Side) (as : List ContentAttribute) : Prop :=
  RecordedBy side act.by_ as ∧ ∃ t, RecordedAt side t as ∧ act.from_ ≤ t ∧ t ≤ act.to_

theorem RecordedAt.mem_timestamps {side : Side} {t : Nat} {as : List ContentAttribute}
    (h : RecordedAt side t as) : t ∈ timestamps as := by
  refine YHub.mem_timestamps.mpr ⟨_, h, ?_, rfl⟩
  cases side
  · exact Or.inl rfl
  · exact Or.inr rfl

/-! ## The events -/

theorem recordedAt_of_timestampOf {side : Side} {as : List ContentAttribute} {t : Nat}
    (h : timestampOf side as = some t) : RecordedAt side t as := by
  obtain ⟨v, hv, ht⟩ := Option.bind_eq_some_iff.mp h
  obtain ⟨a, ha, hname, hval⟩ := lastValue_eq_some hv
  have heq : a = ⟨side.attr ++ "At", .number t⟩ := by
    rw [← hname, ← AttributeValue.number?_eq_some_iff.mp ht, ← hval]
  unfold RecordedAt
  rwa [← heq]

theorem recordedBy_authorOf (side : Side) (as : List ContentAttribute) :
    RecordedBy side (authorOf side as) as := by
  unfold authorOf
  cases h : lastValue side.attr as with
  | none => exact Or.inr ⟨rfl, lastValue_eq_none h⟩
  | some v =>
    obtain ⟨a, ha, hname, rfl⟩ := lastValue_eq_some h
    exact Or.inl ⟨a, ha, hname, rfl⟩

/-- The time and the author of an event are recorded. -/
theorem Activity.recorded_of_ofAttrs {side : Side} {b : Bool} {as : List ContentAttribute}
    {act : Activity} (h : ofAttrs side.attr b as = some act) :
    RecordedAt side act.from_ as ∧ RecordedBy side act.by_ as := by
  have hevent := map_ofAttrs side b as
  rw [h, Option.map_some, eq_comm, Option.map_eq_some_iff] at hevent
  obtain ⟨t, ht, heq⟩ := hevent
  obtain ⟨rfl, hby⟩ := Prod.mk.inj heq
  exact ⟨recordedAt_of_timestampOf ht, hby ▸ recordedBy_authorOf side as⟩

namespace ActivityTask

variable {Y : Yjs β} {A : Attributions Y} {msg : ActivityTask β}

/-- The event of filtered content. -/
def HasEvent (A : Attributions Y) (msg : ActivityTask β) (x : Y.ContentId) (e : Activity) : Prop :=
  ∃ as, A.attrsAt (msg.filteredAttributions A) x = some as ∧
    Activity.ofAttrs x.1.attr msg.includeCustomAttributions as = some e

theorem mem_events_iff (hA : A.Lawful) {e : Activity} :
    e ∈ msg.events A ↔ ∃ x, msg.HasEvent A x e := by
  have hside (side : Side) :
      e ∈ (A.ranges ((msg.filteredAttributions A).at side)).filterMap (fun r =>
          Activity.ofAttrs side.attr msg.includeCustomAttributions r.attrs) ↔
        ∃ i, msg.HasEvent A (side, i) e := by
    rw [List.mem_filterMap]
    constructor
    · rintro ⟨r, hr, he⟩
      obtain ⟨i, hi⟩ := List.exists_mem_of_ne_nil _ (hA.ranges_ne_nil _ r hr)
      exact ⟨i, r.attrs, (hA.ranges _ i r.attrs).mpr ⟨r, hr, hi, rfl⟩, he⟩
    · rintro ⟨i, as, has, he⟩
      obtain ⟨r, hr, -, rfl⟩ := (hA.ranges _ i as).mp has
      exact ⟨r, hr, he⟩
  constructor
  · intro h
    rcases List.mem_append.mp h with h | h
    · exact ((hside .inserts).mp h).imp' (Prod.mk .inserts) fun _ hi => hi
    · exact ((hside .deletes).mp h).imp' (Prod.mk .deletes) fun _ hi => hi
  · rintro ⟨⟨_ | _, i⟩, hx⟩
    · exact List.mem_append_left _ ((hside .inserts).mpr ⟨i, hx⟩)
    · exact List.mem_append_right _ ((hside .deletes).mpr ⟨i, hx⟩)

/-- An event between the ends of an entry is one of its run. -/
theorem mem_run_of_between {c : List Activity × Activity} (hc : c ∈ msg.cuts A) {e : Activity}
    (he : e ∈ msg.events A) (hfrom : c.2.from_ < e.from_) (hto : e.from_ < c.2.to_) : e ∈ c.1 := by
  rw [← mem_sorted, ← flatten_cuts, List.mem_flatten] at he
  obtain ⟨run, hrun, he⟩ := he
  obtain ⟨d, hd, rfl⟩ := List.mem_map.mp hrun
  have hpair : (msg.cuts A).Pairwise fun c d => c.2.to_ ≤ d.2.from_ ∨ d.2.to_ ≤ c.2.from_ :=
    pairwise_entries.imp Or.inl
  have hsymm : Std.Symm fun c d : List Activity × Activity =>
      c.2.to_ ≤ d.2.from_ ∨ d.2.to_ ≤ c.2.from_ := ⟨fun _ _ h => h.symm⟩
  by_contra hnot
  have hne : c ≠ d := fun hcd => hnot (hcd ▸ he)
  obtain ⟨hdfrom, hdto⟩ := from_mem_of_mem_cuts hd he
  rcases hpair.forall hc hd hne with h | h
  · omega
  · omega

end ActivityTask

/-! ## The attributions of an entry -/

/-- The content id is in the attributions of the entry. -/
def ActivityEntry.Shows (Y : Yjs β) (r : ActivityEntry β) (x : Y.ContentId) : Prop :=
  ∃ b, r.attributions = some b ∧ Y.HasKey (Y.decodeContentMap b) x

/-- One of the timestamps is between the ends of the entry, or the gate of the filtering is shut. -/
def Activity.Covers (act : Activity) (as : List ContentAttribute) : Prop :=
  act.from_ ≠ 0 ∨ act.to_ ≠ 0 → ∃ v ∈ timestamps as, act.from_ ≤ v ∧ v ≤ act.to_

/-- The two entries are of one author, and have the same ends. -/
def Activity.SameAs (act act' : Activity) : Prop :=
  act.by_ = act'.by_ ∧ act.from_ = act'.from_ ∧ act.to_ = act'.to_

namespace ActivityTask

variable {Y : Yjs β} {A : Attributions Y} {msg : ActivityTask β}

/-- What the attributions of an entry have: no author is asked for. -/
theorem shows_iff [Preorder β] (hY : Y.Lawful) (hA : A.Lawful)
    (hcreate : ∀ c i d x, Y.HasKey (Y.createContentMapFromContentIds c i d) x ↔ Y.HasId c x)
    (hattributions : msg.includeAttributions = true) {r : ActivityEntry β}
    (hr : r ∈ (msg.run A).activity) {x : Y.ContentId} :
    r.Shows Y x ↔
      ∃ as, A.attrsAt (msg.filteredAttributions A) x = some as ∧ r.toActivity.Covers as := by
  obtain ⟨act, -, rfl⟩ := List.mem_map.mp hr
  unfold ActivityEntry.Shows
  simp only [hattributions, if_true, Option.some.injEq, exists_eq_left', hY.decode_contentMap_key]
  unfold perItem
  simp only [hcreate, hY.createContentIds, hA.hasKey_iff, attrsAt_filter_window hA]
  refine exists_congr fun as => and_congr_right' ?_
  simp only [InWindow, JsNumber.le_ofNat_ofNat, Bool.or_eq_true, JsNumber.truthy_ofNat]
  exact Iff.rfl

/-- Every entry of the response is one of the grouping. -/
theorem exists_cut_of_mem_activity {r : ActivityEntry β} (hr : r ∈ (msg.run A).activity) :
    ∃ c ∈ msg.cuts A, r.toActivity.SameAs c.2 := by
  obtain ⟨act, hact, rfl⟩ := List.mem_map.mp hr
  have hact : act ∈ msg.unlimited A := (limited_sublist _ _).mem hact
  have hgrouped : ∃ g ∈ msg.grouped A, act.SameAs g := by
    unfold unlimited at hact
    simp only at hact
    split_ifs at hact
    · obtain ⟨g, hg, rfl⟩ := List.mem_map.mp (List.mem_reverse.mp hact)
      exact ⟨g, hg, rfl, rfl, rfl⟩
    · exact ⟨act, List.mem_reverse.mp hact, rfl, rfl, rfl⟩
    · obtain ⟨g, hg, rfl⟩ := List.mem_map.mp hact
      exact ⟨g, hg, rfl, rfl, rfl⟩
    · exact ⟨act, hact, rfl, rfl, rfl⟩
  obtain ⟨g, hg, hsame⟩ := hgrouped
  rw [← map_snd_cuts] at hg
  obtain ⟨c, hc, rfl⟩ := List.mem_map.mp hg
  exact ⟨c, hc, hsame⟩

/-- The limit cuts no entry off. -/
def Unlimited (A : Attributions Y) (msg : ActivityTask β) : Prop :=
  (JsNumber.ofNat 0).lt msg.limit = true →
    ∀ n, msg.limit.toIndex = some n → (msg.events A).length ≤ n

/-- Without a limit, every entry of the grouping is in the response. -/
theorem exists_mem_activity (hlimit : msg.Unlimited A) {c : List Activity × Activity}
    (hc : c ∈ msg.cuts A) : ∃ r ∈ (msg.run A).activity, r.toActivity.SameAs c.2 := by
  have hg : c.2 ∈ msg.grouped A := by
    rw [← map_snd_cuts]
    exact List.mem_map_of_mem hc
  have hact : ∃ act ∈ msg.unlimited A, act.SameAs c.2 := by
    unfold unlimited
    simp only
    split_ifs
    · exact ⟨_, List.mem_reverse.mpr (List.mem_map_of_mem hg), rfl, rfl, rfl⟩
    · exact ⟨_, List.mem_reverse.mpr hg, rfl, rfl, rfl⟩
    · exact ⟨_, List.mem_map_of_mem hg, rfl, rfl, rfl⟩
    · exact ⟨_, hg, rfl, rfl, rfl⟩
  obtain ⟨act, hact, hsame⟩ := hact
  rw [← activityResult_eq hlimit] at hact
  exact ⟨_, List.mem_map_of_mem hact, hsame⟩

/-! ## Who is credited -/

/-- An entry shows only what its author has inserted or deleted between its ends. -/
def Credits (A : Attributions Y) (msg : ActivityTask β) : Prop :=
  ∀ r ∈ (msg.run A).activity, ∀ x, r.Shows Y x →
    ∃ as, A.attrsAt (Y.decodeContentMap msg.contentmapBin) x = some as ∧
      r.toActivity.Credited x.1 as

/-- The content of every event is in the attributions of the entry that the event is one of. -/
def ShowsEvents (A : Attributions Y) (msg : ActivityTask β) : Prop :=
  ∀ x e, msg.HasEvent A x e → (∃ c ∈ msg.cuts A, e ∈ c.1) ∧
    ∀ c ∈ msg.cuts A, e ∈ c.1 → ∃ r ∈ (msg.run A).activity, r.toActivity.SameAs c.2 ∧
      e.by_ = r.by_ ∧ r.from_ ≤ e.from_ ∧ e.from_ ≤ r.to_ ∧ r.Shows Y x

/-- Whoever has an event at a timestamp of filtered content is recorded for it. -/
def TiesShared (A : Attributions Y) (msg : ActivityTask β) : Prop :=
  ∀ x as, A.attrsAt (msg.filteredAttributions A) x = some as →
    ∀ v ∈ timestamps as, ∀ e ∈ msg.events A, e.from_ = v → RecordedBy x.1 e.by_ as

/-- So is whoever has events before and after one, and nobody else has any between these. -/
def GapsShared (A : Attributions Y) (msg : ActivityTask β) : Prop :=
  ∀ x as, A.attrsAt (msg.filteredAttributions A) x = some as → ∀ v ∈ timestamps as,
    ∀ e ∈ msg.events A, ∀ e' ∈ msg.events A, e.from_ < v → v < e'.from_ → e'.by_ = e.by_ →
      (∀ e'' ∈ msg.events A, e.from_ < e''.from_ → e''.from_ < e'.from_ → e''.by_ = e.by_) →
        RecordedBy x.1 e.by_ as

/-- The timestamps of inserted content are those of inserts, and likewise for deleted content. -/
def SidesKept (A : Attributions Y) (msg : ActivityTask β) : Prop :=
  ∀ x as, A.attrsAt (msg.filteredAttributions A) x = some as →
    ∀ v ∈ timestamps as, RecordedAt x.1 v as

/-- When an entry shows only what is its author's. -/
structure Apart (A : Attributions Y) (msg : ActivityTask β) : Prop where
  sides : msg.SidesKept A
  nonzero : ∀ e ∈ msg.events A, e.from_ ≠ 0
  ties : msg.TiesShared A
  gaps : msg.GapsShared A

/-- Every timestamp of filtered content is that of its event, and none is `0`: `createContentMap`
gives each piece of content one author and one time. -/
def Stamped (A : Attributions Y) (msg : ActivityTask β) : Prop :=
  ∀ x as, A.attrsAt (msg.filteredAttributions A) x = some as → ∀ v ∈ timestamps as,
    v ≠ 0 ∧ ∃ e, msg.HasEvent A x e ∧ e.from_ = v

/-- Filtered content has its attributes from the content map. -/
theorem attrsAt_filteredAttributions (hA : A.Lawful) {x : Y.ContentId} {as : List ContentAttribute}
    (h : A.attrsAt (msg.filteredAttributions A) x = some as) :
    A.attrsAt (Y.decodeContentMap msg.contentmapBin) x = some as :=
  ((attrsAt_filterContentMap hA).mp h).1

/-- Where every timestamp is that of an event, only ties can go wrong. -/
theorem Stamped.apart (hA : A.Lawful) (hstamped : msg.Stamped A) (hties : msg.TiesShared A) :
    msg.Apart A where
  sides x as has v hv := by
    obtain ⟨-, e, ⟨as', has', he⟩, rfl⟩ := hstamped x as has v hv
    obtain rfl : as = as' := Option.some.inj (has.symm.trans has')
    exact (Activity.recorded_of_ofAttrs he).1
  nonzero e he := by
    obtain ⟨x, as, has, hx⟩ := (mem_events_iff hA).mp he
    exact (hstamped x as has _ (Activity.recorded_of_ofAttrs hx).1.mem_timestamps).1
  ties := hties
  gaps x as has v hv e he e' he' hlt hlt' hby hbetween := by
    -- the content has an event of its own between the two
    obtain ⟨-, own, ⟨as', has', hx⟩, rfl⟩ := hstamped x as has v hv
    obtain rfl : as = as' := Option.some.inj (has.symm.trans has')
    have hown : own ∈ msg.events A := (mem_events_iff hA).mpr ⟨x, as, has, hx⟩
    rw [← hbetween own hown hlt hlt']
    exact (Activity.recorded_of_ofAttrs hx).2

section

variable [Preorder β] (hY : Y.Lawful) (hA : A.Lawful)
  (hcreate : ∀ c i d x, Y.HasKey (Y.createContentMapFromContentIds c i d) x ↔ Y.HasId c x)
  (hattributions : msg.includeAttributions = true)

include hY hA hcreate hattributions

theorem showsEvents (hlimit : msg.Unlimited A) : msg.ShowsEvents A := by
  rintro x e ⟨as, has, he⟩
  have hmem : e ∈ msg.events A := (mem_events_iff hA).mpr ⟨x, as, has, he⟩
  constructor
  · rw [← mem_sorted, ← flatten_cuts, List.mem_flatten] at hmem
    obtain ⟨run, hrun, he⟩ := hmem
    obtain ⟨c, hc, rfl⟩ := List.mem_map.mp hrun
    exact ⟨c, hc, he⟩
  · intro c hc hec
    obtain ⟨r, hr, hsame⟩ := exists_mem_activity hlimit hc
    obtain ⟨hby, hfrom, hto⟩ := hsame
    obtain ⟨hle, hle'⟩ := from_mem_of_mem_cuts hc hec
    rw [← hfrom] at hle
    rw [← hto] at hle'
    have hauthor : e.by_ = r.by_ := ((isEntry_of_mem_cuts c hc).by_ e hec).trans hby.symm
    refine ⟨r, hr, ⟨hby, hfrom, hto⟩, hauthor, hle, hle', ?_⟩
    have hv := (Activity.recorded_of_ofAttrs he).1.mem_timestamps
    exact (shows_iff hY hA hcreate hattributions hr).mpr ⟨as, has, fun _ => ⟨_, hv, hle, hle'⟩⟩

/-- The author of an event is credited with all content that has a timestamp at its time. -/
theorem Credits.tiesShared (hlimit : msg.Unlimited A) (h : msg.Credits A) : msg.TiesShared A := by
  intro x as has v hv e he hev
  obtain ⟨y, hy⟩ := (mem_events_iff hA).mp he
  obtain ⟨⟨c, hc, hec⟩, hall⟩ := showsEvents hY hA hcreate hattributions hlimit y e hy
  obtain ⟨r, hr, -, hby, hle, hle', -⟩ := hall c hc hec
  rw [hev] at hle hle'
  have hshows : r.Shows Y x :=
    (shows_iff hY hA hcreate hattributions hr).mpr ⟨as, has, fun _ => ⟨v, hv, hle, hle'⟩⟩
  obtain ⟨as', has', hcredited, -⟩ := h r hr x hshows
  obtain rfl : as = as' := Option.some.inj ((attrsAt_filteredAttributions hA has).symm.trans has')
  rw [hby]
  exact hcredited

theorem Apart.credits (h : msg.Apart A) : msg.Credits A := by
  intro r hr x hshows
  obtain ⟨as, has, hcovers⟩ := (shows_iff hY hA hcreate hattributions hr).mp hshows
  obtain ⟨c, hc, hby, hfrom, hto⟩ := exists_cut_of_mem_activity hr
  have hentry := isEntry_of_mem_cuts c hc
  obtain ⟨first, hfirst, hfirst_from⟩ := hentry.first
  obtain ⟨last, hlast, hlast_to⟩ := hentry.last
  have hfirst := List.mem_of_mem_head? hfirst
  have hlast := List.mem_of_getLast? hlast
  have hfirst_events := mem_events_of_mem_cuts hc hfirst
  have hlast_events := mem_events_of_mem_cuts hc hlast
  rw [← from_eq_to hlast_events] at hlast_to
  -- the gate is open, as no event is at `0`
  have hpos : first.from_ ≠ 0 := h.nonzero first hfirst_events
  obtain ⟨v, hv, hle, hle'⟩ := hcovers (Or.inl (by rw [hfrom, hfirst_from]; exact hpos))
  refine ⟨as, attrsAt_filteredAttributions hA has, ?_, v, h.sides x as has v hv, hle, hle'⟩
  rw [hfrom, hfirst_from] at hle
  rw [hto, hlast_to] at hle'
  rw [hby, ← hentry.by_ first hfirst]
  rcases hle.eq_or_lt with hv' | hlt
  · exact h.ties x as has v hv first hfirst_events hv'
  · have hby' : last.by_ = first.by_ :=
      (hentry.by_ last hlast).trans (hentry.by_ first hfirst).symm
    rcases hle'.eq_or_lt with hv' | hlt'
    · rw [← hby']
      exact h.ties x as has v hv last hlast_events hv'.symm
    · refine h.gaps x as has v hv first hfirst_events last hlast_events hlt hlt' hby'
        fun e he hfe hel => ?_
      rw [← hfirst_from] at hfe
      rw [← hlast_to] at hel
      exact (hentry.by_ e (mem_run_of_between hc he hfe hel)).trans (hentry.by_ first hfirst).symm

end

/-- **Who an entry credits.** What has an event is in the attributions of its entry. If content is
kept apart, an entry shows only what is its author's; an entry does so only if ties are shared, and
if every timestamp is that of an event, exactly then. -/
theorem activity_credit_iff [Preorder β] (hY : Y.Lawful) (hA : A.Lawful)
    (hcreate : ∀ c i d x, Y.HasKey (Y.createContentMapFromContentIds c i d) x ↔ Y.HasId c x)
    (hattributions : msg.includeAttributions = true) (hlimit : msg.Unlimited A) :
    msg.ShowsEvents A ∧ (msg.Apart A → msg.Credits A) ∧ (msg.Credits A → msg.TiesShared A) ∧
      (msg.Stamped A → (msg.Credits A ↔ msg.TiesShared A)) :=
  have hties := Credits.tiesShared hY hA hcreate hattributions hlimit
  have hcredits := Apart.credits hY hA hcreate hattributions
  ⟨showsEvents hY hA hcreate hattributions hlimit, hcredits, hties,
    fun hstamped => ⟨hties, fun h => hcredits (hstamped.apart hA h)⟩⟩

/-- An activity request for the attributions of a document. -/
def attributionsOf (m : Content RefIdMap) : ActivityTask RefPayload :=
  { bobActivity with
    contentmapBin := .contentMap m
    by_ := ""
    includeYdoc := false
    includeAttributions := true
    limit := .ofNat 0 }

theorem unlimited_attributionsOf (m : Content RefIdMap) :
    (attributionsOf m).Unlimited refAttributions := by
  intro hpos
  have hzero : (JsNumber.ofNat 0).lt (.ofNat 0) = false := by decide
  exact absurd (hzero.symm.trans hpos) Bool.false_ne_true

theorem hasKey_create_yjsRef (c : Content yjsRef.IdSet) (i d : List ContentAttribute)
    (x : yjsRef.ContentId) :
    yjsRef.HasKey (yjsRef.createContentMapFromContentIds c i d) x ↔ yjsRef.HasId c x := by
  have hside (s : List Nat) (as : List ContentAttribute) (i : Nat) :
      (∃ p ∈ s.map fun j => (j, as), p.1 = i) ↔ i ∈ s := by simp
  obtain ⟨_ | _, j⟩ := x
  · exact hside c.inserts i j
  · exact hside c.deletes d j

/-- Alice is alone. -/
theorem activity_credit_iff_of_alice : (attributionsOf aliceMap).Credits refAttributions := by
  have hiff : (attributionsOf aliceMap).Stamped refAttributions →
      ((attributionsOf aliceMap).Credits refAttributions ↔
        (attributionsOf aliceMap).TiesShared refAttributions) :=
    (activity_credit_iff yjsRef_lawful refAttributions_lawful hasKey_create_yjsRef rfl
      (unlimited_attributionsOf aliceMap)).2.2.2
  have hevents : (attributionsOf aliceMap).events refAttributions =
      [⟨5, 5, some "alice", none⟩] := rfl
  refine (hiff fun x as has v hv => ?_).mpr fun x as has v hv e he _ => ?_
  · obtain ⟨rfl, rfl⟩ := attrsAt_aliceMap (attrsAt_filteredAttributions refAttributions_lawful has)
    obtain rfl : v = 5 := List.mem_singleton.mp hv
    exact ⟨by decide, _, ⟨_, has, rfl⟩, rfl⟩
  · obtain ⟨rfl, rfl⟩ := attrsAt_aliceMap (attrsAt_filteredAttributions refAttributions_lawful has)
    rw [hevents] at he
    rw [List.mem_singleton.mp he]
    exact Or.inl ⟨_, List.mem_cons_self, rfl, rfl⟩

/-- Alice and Bob have each inserted a piece of content, in the same millisecond. -/
def sameMillisecond : Content RefIdMap :=
  ⟨[(7, [⟨"insert", .string "alice"⟩, ⟨"insertAt", .number 5⟩]),
    (8, [⟨"insert", .string "bob"⟩, ⟨"insertAt", .number 5⟩])], []⟩

/-- **Two users in one millisecond.** Bob is credited with what Alice has inserted. -/
theorem other_author_credited :
    ¬ ∀ msg : ActivityTask RefPayload, msg.includeAttributions = true →
      msg.Unlimited refAttributions → msg.Credits refAttributions := by
  intro h
  have hties : (attributionsOf sameMillisecond).TiesShared refAttributions :=
    Credits.tiesShared yjsRef_lawful refAttributions_lawful hasKey_create_yjsRef rfl
      (unlimited_attributionsOf _) (h _ rfl (unlimited_attributionsOf _))
  have hbob : (⟨5, 5, some "bob", none⟩ : Activity) ∈
      (attributionsOf sameMillisecond).events refAttributions := by decide
  have hrecorded := hties (.inserts, (7 : Nat)) _ rfl 5 (by decide) _ hbob rfl
  rcases hrecorded with ⟨a, ha, hname, hval⟩ | ⟨hnone, -⟩
  · rcases List.mem_cons.mp ha with rfl | ha
    · exact absurd hval (by decide)
    · rw [List.mem_singleton.mp ha] at hname
      exact absurd hname (by decide)
  · exact absurd hnone (Option.some_ne_none _)

end ActivityTask

end YHub
