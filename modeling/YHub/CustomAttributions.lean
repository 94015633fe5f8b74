import YHub.ActivityGroups
import YHub.ActivityCredit
import YHub.Lib.FirstByKey

/-!
# The custom attributions of an entry (`compute-worker.js:137-206`)

With `customAttributions` requested, an event has the custom attributions of its range, and an entry
those of its events, deduplicated. What is deduplicated is the text `k_v` of a pair.

* `mem_customAttributions_iff`: the pairs of an event are those of its attributes.
* `activity_customAttributions_iff`: an entry has each pair of its events once, exactly if no two
  pairs of its events have one text.
* `pairs_collapsed`: the pairs `a_b`, `c` and `a`, `b_c`.
-/

namespace YHub

variable {β : Type}

namespace Activity

/-- The pairs of a run of events. -/
def pairs (run : List Activity) : List KV := run.flatMap fun a => a.customAttributions.getD []

/-- The entry has each pair of the run once, and no other pair. -/
def Deduplicated (run : List Activity) (act : Activity) : Prop :=
  ∃ l, act.customAttributions = some l ∧ l.Nodup ∧ ∀ p, p ∈ l ↔ p ∈ pairs run

/-- No two pairs of the run have one text. -/
def KeysSeparate (run : List Activity) : Prop :=
  ∀ p ∈ pairs run, ∀ q ∈ pairs run, p.k ++ "_" ++ p.v = q.k ++ "_" ++ q.v → p = q

/-- The custom attributions of the events were collected. -/
def Collects (acts : List Activity) : Prop := ∀ a ∈ acts, a.customAttributions.isSome = true

/-! ## The pairs of an entry -/

theorem uniqueCustomAttrs_eq (seen : List String) (l : List KV) :
    uniqueCustomAttrs seen l = FirstByKey.firstBy (fun c => c.k ++ "_" ++ c.v) seen l := by
  induction l generalizing seen with
  | nil => rfl
  | cons c l ih =>
    unfold uniqueCustomAttrs FirstByKey.firstBy
    dsimp only
    split
    · exact ih seen
    · rw [ih]

theorem pairs_append (run run' : List Activity) : pairs (run ++ run') = pairs run ++ pairs run' :=
  List.flatMap_append

/-- **An entry has the pairs of its run**, before they are deduplicated. -/
theorem customAttributions_of_mem_cuts {groupDistance groupMaxDuration : JsNumber}
    {acts : List Activity} (hacts : Collects acts) {c : List Activity × Activity}
    (hc : c ∈ cuts groupDistance groupMaxDuration acts) :
    c.2.customAttributions = some (pairs c.1) := by
  have hrun : Collects c.1 := by
    intro a ha
    have hflatten : ((cuts groupDistance groupMaxDuration acts).map Prod.fst).flatten = acts :=
      Cuts.flatten_cut acts
    refine hacts a ?_
    rw [← hflatten]
    exact List.mem_flatten_of_mem (List.mem_map_of_mem hc) ha
  refine Cuts.forall_cut (P := fun run act => Collects run →
    act.customAttributions = some (pairs run)) ?_ ?_ c hc hrun
  · intro a ha
    obtain ⟨l, hl⟩ := Option.isSome_iff_exists.mp (ha a (List.mem_singleton_self a))
    simp [pairs, hl]
  · intro run last act ih _ hrun'
    have hlast := ih fun a ha => hrun' a (List.mem_append_left _ ha)
    rw [pairs_append]
    simp [join, hlast, pairs]

/-- **Deduplication** keeps each pair exactly if no two pairs have one text. -/
theorem deduplicated_unique_iff {run : List Activity} {act : Activity}
    (h : act.customAttributions = some (pairs run)) :
    Deduplicated run act.unique ↔ KeysSeparate run := by
  have hunique : act.unique.customAttributions =
      some (FirstByKey.firstBy (fun c => c.k ++ "_" ++ c.v) [] (pairs run)) := by
    show some (uniqueCustomAttrs [] (act.customAttributions.getD [])) = _
    rw [h, uniqueCustomAttrs_eq]
    rfl
  have hkeys : KeysSeparate run ↔
      Set.InjOn (fun c : KV => c.k ++ "_" ++ c.v) { p | p ∈ pairs run } := Iff.rfl
  rw [hkeys, ← FirstByKey.forall_mem_firstBy_iff]
  constructor
  · rintro ⟨l, hl, -, hmem⟩
    obtain rfl := Option.some.inj (hunique.symm.trans hl)
    exact hmem
  · exact fun hmem => ⟨_, hunique, FirstByKey.nodup_firstBy, hmem⟩

/-- Keys without an underscore are told apart. -/
theorem keysSeparate_of_notMem {run : List Activity} (h : ∀ p ∈ pairs run, '_' ∉ p.k.toList) :
    KeysSeparate run := by
  intro p hp q hq hpq
  have hchars := congrArg String.toList hpq
  simp only [String.toList_append, List.append_assoc] at hchars
  obtain ⟨hk, hv⟩ := (append_cons_inj (h p hp) (h q hq)).mp hchars
  obtain ⟨pk, pv⟩ := p
  obtain ⟨qk, qv⟩ := q
  obtain rfl : pk = qk := String.toList_inj.mp hk
  obtain rfl : pv = qv := String.toList_inj.mp hv
  rfl

/-! ## The pairs of an event -/

/-- The attribute that a pair is recorded as. -/
def pairAttr (side : Side) (p : KV) : ContentAttribute := ⟨side.attr ++ ":" ++ p.k, .string p.v⟩

theorem pairAttr_name_ne (side : Side) (p : KV) :
    (pairAttr side p).name ≠ side.attr ++ "At" ∧ (pairAttr side p).name ≠ side.attr := by
  constructor
  · intro h
    have hchars := congrArg String.toList h
    cases side <;> simp [pairAttr, Side.attr] at hchars
  · intro h
    have hchars := congrArg String.toList h
    cases side <;> simp [pairAttr, Side.attr] at hchars

theorem toList_pairAttr (side : Side) (p : KV) :
    (pairAttr side p).name.toList = (side.attr ++ ":").toList ++ p.k.toList := by
  unfold pairAttr
  rw [String.toList_append]

/-- The pair of an attribute whose name begins like that of a pair. -/
theorem mem_pair_iff {side : Side} {attr : ContentAttribute} {p : KV}
    (h : (side.attr ++ ":").toList <+: attr.name.toList) :
    p ∈ (attr.val.string?.map (KV.mk (String.ofList (attr.name.toList.drop 7)))).toList ↔
      attr = pairAttr side p := by
  have hlen : (side.attr ++ ":").toList.length = 7 := by cases side <;> rfl
  rw [Option.mem_toList, Option.map_eq_some_iff]
  constructor
  · rintro ⟨v, hv, rfl⟩
    obtain ⟨rest, hrest⟩ := h
    obtain ⟨name, val⟩ := attr
    obtain rfl : val = .string v := AttributeValue.string?_eq_some_iff.mp hv
    have hname : name = side.attr ++ ":" ++ String.ofList (name.toList.drop 7) := by
      rw [← String.toList_inj, String.toList_append, String.toList_ofList]
      rw [← hrest, ← hlen, List.drop_left]
    exact congrArg (ContentAttribute.mk · (.string v)) hname
  · rintro rfl
    refine ⟨p.v, rfl, ?_⟩
    rw [toList_pairAttr, ← hlen, List.drop_left, String.ofList_toList]

/-- What one attribute adds. -/
theorem customAttributions_add {side : Side} {c : Collected} {l : List KV}
    (h : c.customAttributions = some l) (attr : ContentAttribute) :
    ∃ l', (c.add side.attr attr).customAttributions = some l' ∧
      ∀ p, p ∈ l' ↔ p ∈ l ∨ attr = pairAttr side p := by
  unfold Collected.add
  split_ifs with hat hname hpair
  · refine ⟨l, h, fun p => (or_iff_left ?_).symm⟩
    rintro rfl
    exact (pairAttr_name_ne side p).1 hat
  · refine ⟨l, h, fun p => (or_iff_left ?_).symm⟩
    rintro rfl
    exact (pairAttr_name_ne side p).2 hname
  · refine ⟨_, congrArg (Option.map _) h, fun p => ?_⟩
    rw [List.mem_append]
    exact or_congr_right (mem_pair_iff (List.isPrefixOf_iff_prefix.mp hpair))
  · refine ⟨l, h, fun p => (or_iff_left ?_).symm⟩
    rintro rfl
    refine hpair (List.isPrefixOf_iff_prefix.mpr ?_)
    rw [toList_pairAttr]
    exact List.prefix_append _ _

/-- **The pairs of an event** are those of its attributes. -/
theorem mem_customAttributions_iff {side : Side} {as : List ContentAttribute} {act : Activity}
    (h : ofAttrs side.attr true as = some act) :
    ∃ l, act.customAttributions = some l ∧ ∀ p, p ∈ l ↔ pairAttr side p ∈ as := by
  have hfold (as : List ContentAttribute) :
      ∃ l, (as.foldl (Collected.add side.attr) ⟨none, none, some []⟩).customAttributions = some l ∧
        ∀ p, p ∈ l ↔ pairAttr side p ∈ as := by
    induction as using List.reverseRecOn with
    | nil => exact ⟨[], rfl, fun p => by simp⟩
    | append_singleton as attr ih =>
      obtain ⟨l, hl, hmem⟩ := ih
      obtain ⟨l', hl', hmem'⟩ := customAttributions_add hl attr
      rw [List.foldl_append]
      refine ⟨l', hl', fun p => ?_⟩
      rw [hmem', hmem, List.mem_append, List.mem_singleton, eq_comm]
  obtain ⟨l, hl, hmem⟩ := hfold as
  obtain ⟨t, -, rfl⟩ := Option.map_eq_some_iff.mp h
  exact ⟨l, hl, hmem⟩

end Activity

/-! ## The entries of a request -/

theorem limited_map {α γ : Type} (f : α → γ) (limit : JsNumber) (l : List α) :
    limited limit (l.map f) = (limited limit l).map f := by
  unfold limited
  split
  · cases limit.toIndex with
    | none => rfl
    | some n => exact List.map_take.symm
  · rfl

namespace ActivityTask

variable {Y : Yjs β} {A : Attributions Y} {msg : ActivityTask β}

/-- The runs of the entries that are returned. -/
def returned (A : Attributions Y) (msg : ActivityTask β) : List (List Activity × Activity) :=
  limited msg.limit (if msg.reverse then (msg.cuts A).reverse else msg.cuts A)

theorem mem_cuts_of_mem_returned {c : List Activity × Activity} (hc : c ∈ msg.returned A) :
    c ∈ msg.cuts A := by
  have hmem := (limited_sublist _ _).subset hc
  split_ifs at hmem
  · exact List.mem_reverse.mp hmem
  · exact hmem

theorem activityResult_eq_map (h : msg.includeCustomAttributions = true) :
    msg.activityResult A = (msg.returned A).map fun c => c.2.unique := by
  unfold activityResult returned
  rw [if_pos h, ← map_snd_cuts, List.map_map, ← limited_map]
  split
  · rw [List.map_reverse]
    rfl
  · rfl

/-- An event is that of a range, with the pairs of its attributes. -/
theorem exists_range_of_mem_events (h : msg.includeCustomAttributions = true) {e : Activity}
    (he : e ∈ msg.events A) :
    ∃ side, ∃ r ∈ A.ranges ((msg.filteredAttributions A).at side),
      ∃ l, e.customAttributions = some l ∧ ∀ p, p ∈ l ↔ Activity.pairAttr side p ∈ r.attrs := by
  unfold events at he
  rw [h] at he
  rcases List.mem_append.mp he with he | he
  · obtain ⟨r, hr, hofAttrs⟩ := List.mem_filterMap.mp he
    have hofAttrs' : Activity.ofAttrs Side.inserts.attr true r.attrs = some e := hofAttrs
    exact ⟨.inserts, r, hr, Activity.mem_customAttributions_iff hofAttrs'⟩
  · obtain ⟨r, hr, hofAttrs⟩ := List.mem_filterMap.mp he
    have hofAttrs' : Activity.ofAttrs Side.deletes.attr true r.attrs = some e := hofAttrs
    exact ⟨.deletes, r, hr, Activity.mem_customAttributions_iff hofAttrs'⟩

theorem collects_sorted (h : msg.includeCustomAttributions = true) :
    Activity.Collects (msg.sorted A) := by
  intro a ha
  obtain ⟨-, -, -, l, hl, -⟩ := exists_range_of_mem_events h (mem_sorted.mp ha)
  exact Option.isSome_iff_exists.mpr ⟨l, hl⟩

end ActivityTask

/-- **The custom attributions of an entry.** However events are grouped, an entry has each pair of
its events once, and no other pair, exactly if no two pairs of its events have one text. So it is
with the entries of a request, whose events have the pairs of their ranges. -/
theorem activity_customAttributions_iff {Y : Yjs β} (A : Attributions Y) (msg : ActivityTask β)
    (h : msg.includeCustomAttributions = true) :
    (∀ (groupDistance groupMaxDuration : JsNumber) (acts : List Activity), Activity.Collects acts →
      ∀ c ∈ Activity.cuts groupDistance groupMaxDuration acts,
        Activity.Deduplicated c.1 c.2.unique ↔ Activity.KeysSeparate c.1) ∧
    (∀ e ∈ msg.events A, ∃ side, ∃ r ∈ A.ranges ((msg.filteredAttributions A).at side),
      ∃ l, e.customAttributions = some l ∧ ∀ p, p ∈ l ↔ Activity.pairAttr side p ∈ r.attrs) ∧
    ∃ returned : List (List Activity × Activity), (∀ c ∈ returned, c ∈ msg.cuts A) ∧
      msg.activityResult A = returned.map (fun c => c.2.unique) ∧
      ∀ c ∈ returned, Activity.Deduplicated c.1 c.2.unique ↔ Activity.KeysSeparate c.1 := by
  have hcuts : ∀ (groupDistance groupMaxDuration : JsNumber) (acts : List Activity),
      Activity.Collects acts → ∀ c ∈ Activity.cuts groupDistance groupMaxDuration acts,
        Activity.Deduplicated c.1 c.2.unique ↔ Activity.KeysSeparate c.1 :=
    fun _ _ _ hacts _ hc =>
      Activity.deduplicated_unique_iff (Activity.customAttributions_of_mem_cuts hacts hc)
  refine ⟨hcuts, fun e => ActivityTask.exists_range_of_mem_events h, msg.returned A,
    fun c => ActivityTask.mem_cuts_of_mem_returned, ActivityTask.activityResult_eq_map h,
    fun c hc => ?_⟩
  exact hcuts _ _ _ (ActivityTask.collects_sorted h) c (ActivityTask.mem_cuts_of_mem_returned hc)

namespace ActivityTask

/-- Alice has made two changes, one with each of the pairs. -/
def twoChanges (p q : KV) : Content RefIdMap :=
  ⟨[(7, [⟨"insert", .string "alice"⟩, ⟨"insertAt", .number 5⟩, Activity.pairAttr .inserts p]),
    (8, [⟨"insert", .string "alice"⟩, ⟨"insertAt", .number 6⟩, Activity.pairAttr .inserts q])], []⟩

/-- An activity request for the custom attributions, too. -/
def customAttributionsOf (m : Content RefIdMap) : ActivityTask RefPayload :=
  { attributionsOf m with includeCustomAttributions := true }

/-- Neither key has an underscore. -/
theorem activity_customAttributions_import :
    ∃ c ∈ (customAttributionsOf (twoChanges ⟨"source", "import"⟩ ⟨"tag", "v_2"⟩)).cuts
        refAttributions, c.1.length = 2 ∧ Activity.Deduplicated c.1 c.2.unique := by
  obtain ⟨hcuts, -, -⟩ := activity_customAttributions_iff refAttributions
    (customAttributionsOf (twoChanges ⟨"source", "import"⟩ ⟨"tag", "v_2"⟩)) rfl
  have hcut : (customAttributionsOf (twoChanges ⟨"source", "import"⟩ ⟨"tag", "v_2"⟩)).cuts
      refAttributions = [([⟨5, 5, some "alice", some [⟨"source", "import"⟩]⟩,
          ⟨6, 6, some "alice", some [⟨"tag", "v_2"⟩]⟩],
        ⟨5, 6, some "alice", some [⟨"source", "import"⟩, ⟨"tag", "v_2"⟩]⟩)] := rfl
  have hmem := hcut ▸ List.mem_singleton_self _
  refine ⟨_, hmem, rfl, (hcuts _ _ _ (collects_sorted rfl) _ hmem).mpr ?_⟩
  refine Activity.keysSeparate_of_notMem fun p hp => ?_
  rcases List.mem_cons.mp hp with rfl | hp
  · decide
  · rw [List.mem_singleton.mp hp]
    decide

/-- **Two pairs of one text.** Of `a_b`, `c` and `a`, `b_c`, the entry has the first pair only. -/
theorem pairs_collapsed :
    ¬ ∀ msg : ActivityTask RefPayload, msg.includeCustomAttributions = true →
      ∀ c ∈ msg.returned refAttributions, Activity.Deduplicated c.1 c.2.unique := by
  intro h
  have hreturned : (customAttributionsOf (twoChanges ⟨"a_b", "c"⟩ ⟨"a", "b_c"⟩)).returned
      refAttributions = [([⟨5, 5, some "alice", some [⟨"a_b", "c"⟩]⟩,
          ⟨6, 6, some "alice", some [⟨"a", "b_c"⟩]⟩],
        ⟨5, 6, some "alice", some [⟨"a_b", "c"⟩, ⟨"a", "b_c"⟩]⟩)] := rfl
  obtain ⟨l, hl, -, hmem⟩ := h _ rfl _ (hreturned ▸ List.mem_singleton_self _)
  have hfirst : l = [⟨"a_b", "c"⟩] := (Option.some.inj hl).symm
  rw [hfirst] at hmem
  have hsecond := (hmem ⟨"a", "b_c"⟩).mpr (List.mem_cons_of_mem _ (List.mem_singleton_self _))
  exact absurd hsecond (by decide)

end ActivityTask

end YHub
