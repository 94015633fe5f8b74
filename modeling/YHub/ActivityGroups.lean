import YHub.Activity
import YHub.Lib.Cuts

/-!
# The entries of an activity request (`compute-worker.js:137-197`)

There is an event for each range of the filtered content that has a timestamp. The grouping cuts the
sorted events into runs, one for each entry. An entry keeps the author of its events; its ends are
the times of the first and of the last one.

* `map_events`: the events are those of the ranges, at their times and by their authors.
* `activity_grouping`: the runs make up the sorted events, and each is cut off only where the author
  changes or one of the two bounds is reached.
* `IsEntry`: what an entry is to its run.
-/

namespace YHub

variable {β : Type}

/-! ## The events -/

/-- The attribute that names the author. -/
def Side.attr : Side → String
  | .inserts => "insert"
  | .deletes => "delete"

/-- The value of the last attribute with the name. -/
def lastValue (name : String) (as : List ContentAttribute) : Option AttributeValue :=
  (as.reverse.find? fun a => a.name = name).map ContentAttribute.val

/-- The timestamp that attributes give on the side. -/
def timestampOf (side : Side) (as : List ContentAttribute) : Option Nat :=
  (lastValue (side.attr ++ "At") as).bind AttributeValue.number?

/-- The author that they name. -/
def authorOf (side : Side) (as : List ContentAttribute) : Option String :=
  (lastValue side.attr as).bind AttributeValue.string?

theorem lastValue_concat (name : String) (as : List ContentAttribute) (attr : ContentAttribute) :
    lastValue name (as ++ [attr]) =
      if attr.name = name then some attr.val else lastValue name as := by
  unfold lastValue
  rw [List.reverse_concat, List.find?_cons]
  by_cases h : attr.name = name
  · simp [h]
  · simp [h]

theorem lastValue_eq_some {name : String} {as : List ContentAttribute} {v : AttributeValue}
    (h : lastValue name as = some v) : ∃ a ∈ as, a.name = name ∧ a.val = v := by
  obtain ⟨a, ha, hv⟩ := Option.map_eq_some_iff.mp h
  refine ⟨a, List.mem_reverse.mp (List.mem_of_find?_eq_some ha), ?_, hv⟩
  simpa using List.find?_some ha

theorem lastValue_eq_none {name : String} {as : List ContentAttribute}
    (h : lastValue name as = none) : ∀ a ∈ as, a.name ≠ name := by
  intro a ha
  have hnone := List.find?_eq_none.mp (Option.map_eq_none_iff.mp h) a (List.mem_reverse.mpr ha)
  simpa using hnone

namespace Activity

theorem name_ne_at (name : String) : name ≠ name ++ "At" := by
  intro h
  have := congrArg String.length h
  simp [String.length_append] at this

/-- What the callback has collected is what the last attributes say. -/
theorem foldl_add (side : Side) (as : List ContentAttribute) (l : Option (List KV)) :
    (as.foldl (Collected.add side.attr) ⟨none, none, l⟩).t = timestampOf side as ∧
      (as.foldl (Collected.add side.attr) ⟨none, none, l⟩).actBy = authorOf side as := by
  induction as using List.reverseRecOn with
  | nil => exact ⟨rfl, rfl⟩
  | append_singleton as attr ih =>
    obtain ⟨ht, hby⟩ := ih
    simp only [timestampOf, authorOf, List.foldl_append, List.foldl_cons, List.foldl_nil,
      lastValue_concat] at ht hby ⊢
    unfold Collected.add
    split_ifs with htime hname hname hcustom
    · exact absurd (hname.symm.trans htime) (name_ne_at _)
    · exact ⟨rfl, hby⟩
    · exact ⟨ht, rfl⟩
    · exact ⟨ht, hby⟩
    · exact ⟨ht, hby⟩

/-- The event of a range is at its timestamp, and by its author. -/
theorem map_ofAttrs (side : Side) (b : Bool) (as : List ContentAttribute) :
    (ofAttrs side.attr b as).map (fun e => (e.from_, e.by_)) =
      (timestampOf side as).map (·, authorOf side as) := by
  obtain ⟨ht, hby⟩ := foldl_add side as (if b then some [] else none)
  rw [← ht, ← hby]
  unfold ofAttrs
  rw [Option.map_map]
  rfl

end Activity

namespace ActivityTask

variable {Y : Yjs β} (A : Attributions Y) (msg : ActivityTask β)

/-- The ranges of the filtered content, each with its side. -/
def attributedRanges : List (Side × AttrRange Y.Id) :=
  (A.ranges (msg.filteredAttributions A).inserts).map (Side.inserts, ·) ++
    (A.ranges (msg.filteredAttributions A).deletes).map (Side.deletes, ·)

/-- **The events**: one for each range that has a timestamp. -/
theorem map_events : (msg.events A).map (fun e => (e.from_, e.by_)) =
    (msg.attributedRanges A).filterMap fun r =>
      (timestampOf r.1 r.2.attrs).map (·, authorOf r.1 r.2.attrs) := by
  have hside (side : Side) (rs : List (AttrRange Y.Id)) :
      (rs.filterMap fun r => Activity.ofAttrs side.attr msg.includeCustomAttributions
        r.attrs).map (fun e => (e.from_, e.by_)) =
      (rs.map (side, ·)).filterMap fun r =>
        (timestampOf r.1 r.2.attrs).map (·, authorOf r.1 r.2.attrs) := by
    rw [List.map_filterMap, List.filterMap_map]
    exact List.filterMap_congr fun r _ => Activity.map_ofAttrs side _ r.attrs
  unfold events attributedRanges
  rw [List.map_append, List.filterMap_append]
  exact congrArg₂ (· ++ ·) (hside .inserts _) (hside .deletes _)

end ActivityTask

/-! ## Runs -/

namespace Activity

variable {groupDistance groupMaxDuration : JsNumber}

/-- The runs of events, each with its entry. -/
def cuts (groupDistance groupMaxDuration : JsNumber) (acts : List Activity) :
    List (List Activity × Activity) :=
  Cuts.cut (joins groupDistance groupMaxDuration) join id acts

theorem map_snd_cutFrom (run : List Activity) (last : Activity) (acts : List Activity) :
    (Cuts.cutFrom (joins groupDistance groupMaxDuration) join id run last acts).map Prod.snd =
      groupFrom groupDistance groupMaxDuration last acts := by
  induction acts generalizing run last with
  | nil => rfl
  | cons act acts ih =>
    unfold Cuts.cutFrom groupFrom
    split
    · exact ih _ _
    · rw [List.map_cons, ih]
      rfl

/-- The entries are those of `groups`. -/
theorem map_snd_cuts (acts : List Activity) :
    (cuts groupDistance groupMaxDuration acts).map Prod.snd =
      groups groupDistance groupMaxDuration acts := by
  cases acts with
  | nil => rfl
  | cons act acts => exact map_snd_cutFrom [act] act acts

/-- The entry of a run. -/
structure IsEntry (groupDistance groupMaxDuration : JsNumber) (run : List Activity)
    (act : Activity) : Prop where
  first : ∃ a, run.head? = some a ∧ act.from_ = a.from_
  last : ∃ a, run.getLast? = some a ∧ act.to_ = a.to_
  by_ : ∀ a ∈ run, a.by_ = act.by_
  gaps : run.IsChain fun a b => (JsNumber.ofInt (b.from_ - a.to_)).lt groupDistance = true
  span : 1 < run.length → (JsNumber.ofInt (act.to_ - act.from_)).lt groupMaxDuration = true

theorem joins_iff {last act : Activity} : joins groupDistance groupMaxDuration last act = true ↔
    last.by_ = act.by_ ∧ (JsNumber.ofInt (act.from_ - last.to_)).lt groupDistance = true ∧
      (JsNumber.ofInt (act.to_ - last.from_)).lt groupMaxDuration = true := by
  simp only [joins, Bool.and_eq_true, decide_eq_true_eq, and_assoc]

theorem isEntry_singleton (act : Activity) :
    IsEntry groupDistance groupMaxDuration [act] act where
  first := ⟨act, rfl, rfl⟩
  last := ⟨act, rfl, rfl⟩
  by_ a ha := by rw [List.mem_singleton.mp ha]
  gaps := List.isChain_singleton act
  span h := absurd h (Nat.lt_irrefl 1)

/-- An event is put together with the entry. -/
theorem IsEntry.join {run : List Activity} {last act : Activity}
    (h : IsEntry groupDistance groupMaxDuration run last)
    (hjoins : joins groupDistance groupMaxDuration last act = true) :
    IsEntry groupDistance groupMaxDuration (run ++ [act]) (last.join act) := by
  obtain ⟨hby, hgap, hspan⟩ := joins_iff.mp hjoins
  obtain ⟨first, hfirst, hfrom⟩ := h.first
  obtain ⟨end_, hend, hto⟩ := h.last
  refine ⟨⟨first, ?_, hfrom⟩, ⟨act, List.getLast?_concat, rfl⟩, fun a ha => ?_, ?_, fun _ => hspan⟩
  · rw [List.head?_append, hfirst]
    rfl
  · rcases List.mem_append.mp ha with ha | ha
    · exact h.by_ a ha
    · rw [List.mem_singleton.mp ha]
      exact hby.symm
  · refine h.gaps.append (List.isChain_singleton act) fun a ha b hb => ?_
    rw [hend, Option.mem_some_iff] at ha
    obtain rfl := ha
    obtain rfl : act = b := by simpa using hb
    rw [← hto]
    exact hgap

theorem isEntry_of_mem_cuts {acts : List Activity} :
    ∀ c ∈ cuts groupDistance groupMaxDuration acts,
      IsEntry groupDistance groupMaxDuration c.1 c.2 :=
  Cuts.forall_cut isEntry_singleton fun _ _ _ h hjoins => h.join hjoins

/-- Where a run ends, the author changes or a bound is reached. -/
theorem isChain_cuts (acts : List Activity) :
    (cuts groupDistance groupMaxDuration acts).IsChain fun c d =>
      ∃ a, d.1.head? = some a ∧ (c.2.by_ = a.by_ →
        (JsNumber.ofInt (a.from_ - c.2.to_)).lt groupDistance = false ∨
          (JsNumber.ofInt (a.to_ - c.2.from_)).lt groupMaxDuration = false) := by
  refine (Cuts.isChain_cut acts).imp fun c d => ?_
  rintro ⟨a, ha, hjoins⟩
  refine ⟨a, ha, fun hby => ?_⟩
  by_contra hno
  simp only [not_or, Bool.not_eq_false] at hno
  exact absurd (joins_iff.mpr ⟨hby, hno⟩) (by rw [hjoins]; exact Bool.false_ne_true)

end Activity

/-! ## The entries of a request -/

namespace ActivityTask

/-- `groupDistance`. -/
def groupDistance (msg : ActivityTask β) : JsNumber :=
  if msg.group then msg.groupMaxGap else .ofNat 1

variable {Y : Yjs β} {A : Attributions Y} {msg : ActivityTask β}

/-- The runs of the sorted events, each with its entry. -/
def cuts (A : Attributions Y) (msg : ActivityTask β) : List (List Activity × Activity) :=
  Activity.cuts msg.groupDistance msg.groupMaxDuration (msg.sorted A)

theorem map_snd_cuts : (msg.cuts A).map Prod.snd = msg.grouped A := Activity.map_snd_cuts _

theorem flatten_cuts : ((msg.cuts A).map Prod.fst).flatten = msg.sorted A := Cuts.flatten_cut _

theorem isEntry_of_mem_cuts : ∀ c ∈ msg.cuts A,
    Activity.IsEntry msg.groupDistance msg.groupMaxDuration c.1 c.2 :=
  Activity.isEntry_of_mem_cuts

theorem mem_events_of_mem_cuts {c : List Activity × Activity} (hc : c ∈ msg.cuts A) {a : Activity}
    (ha : a ∈ c.1) : a ∈ msg.events A := by
  rw [← mem_sorted, ← flatten_cuts]
  exact List.mem_flatten_of_mem (List.mem_map_of_mem hc) ha

/-- In a run, and from one run to the next, the events are in the order of their times. -/
theorem pairwise_cuts (msg : ActivityTask β) :
    (∀ c ∈ msg.cuts A, c.1.Pairwise fun a b => a.from_ ≤ b.from_) ∧
      (msg.cuts A).Pairwise fun c d => ∀ a ∈ c.1, ∀ b ∈ d.1, a.from_ ≤ b.from_ := by
  have hsorted : (msg.sorted A).Pairwise fun a b => a.from_ ≤ b.from_ := pairwise_sorted
  rw [← flatten_cuts, List.pairwise_flatten, List.pairwise_map, List.forall_mem_map] at hsorted
  exact hsorted

/-- The events of an entry are at times between its ends. -/
theorem from_mem_of_mem_cuts {c : List Activity × Activity} (hc : c ∈ msg.cuts A) {a : Activity}
    (ha : a ∈ c.1) : c.2.from_ ≤ a.from_ ∧ a.from_ ≤ c.2.to_ := by
  have hentry := isEntry_of_mem_cuts c hc
  obtain ⟨first, hfirst, hfrom⟩ := hentry.first
  obtain ⟨last, hlast, hto⟩ := hentry.last
  have hpair := (pairwise_cuts msg).1 c hc
  have hlast' : last.from_ = c.2.to_ :=
    (from_eq_to (mem_events_of_mem_cuts hc (List.mem_of_getLast? hlast))).trans hto.symm
  rw [hfrom, ← hlast']
  constructor
  · obtain ⟨rest, hrun⟩ := List.head?_eq_some_iff.mp hfirst
    rw [hrun] at hpair ha
    rcases List.mem_cons.mp ha with rfl | ha
    · exact le_rfl
    · exact (List.pairwise_cons.mp hpair).1 a ha
  · obtain ⟨rest, hrun⟩ := List.getLast?_eq_some_iff.mp hlast
    rw [hrun] at hpair ha
    rcases List.mem_append.mp ha with ha | ha
    · exact (List.pairwise_append.mp hpair).2.2 a ha last (List.mem_singleton_self last)
    · rw [List.mem_singleton.mp ha]

/-- One entry ends before the next one begins. -/
theorem pairwise_entries : (msg.cuts A).Pairwise fun c d => c.2.to_ ≤ d.2.from_ := by
  refine (pairwise_cuts msg).2.imp_of_mem fun {c d} hc hd h => ?_
  obtain ⟨last, hlast, hto⟩ := (isEntry_of_mem_cuts c hc).last
  obtain ⟨first, hfirst, hfrom⟩ := (isEntry_of_mem_cuts d hd).first
  have hmem := List.mem_of_getLast? hlast
  rw [hto, hfrom, ← from_eq_to (mem_events_of_mem_cuts hc hmem)]
  exact h last hmem first (List.mem_of_mem_head? hfirst)

end ActivityTask

/-- **The grouping.** There is an event for each range with a timestamp. The runs make up the
events, sorted by their times, and there is an entry for each run (`IsEntry`). The entries are one
after the other. Where an entry is followed by one of the same author, one of the bounds does not
admit the first event of that. -/
theorem activity_grouping {Y : Yjs β} (A : Attributions Y) (msg : ActivityTask β) :
    (msg.events A).map (fun e => (e.from_, e.by_)) =
      (msg.attributedRanges A).filterMap (fun r =>
        (timestampOf r.1 r.2.attrs).map (·, authorOf r.1 r.2.attrs)) ∧
    (∀ e ∈ msg.events A, e.from_ = e.to_) ∧
    (msg.sorted A).Perm (msg.events A) ∧
    (msg.sorted A).Pairwise (fun a b => a.from_ ≤ b.from_) ∧
    ∃ cuts : List (List Activity × Activity),
      (cuts.map Prod.fst).flatten = msg.sorted A ∧ cuts.map Prod.snd = msg.grouped A ∧
      (∀ c ∈ cuts, Activity.IsEntry msg.groupDistance msg.groupMaxDuration c.1 c.2) ∧
      (∀ c ∈ cuts, c.2.from_ ≤ c.2.to_) ∧ cuts.Pairwise (fun c d => c.2.to_ ≤ d.2.from_) ∧
      cuts.IsChain fun c d => ∃ a, d.1.head? = some a ∧ (c.2.by_ = d.2.by_ →
        (JsNumber.ofInt (a.from_ - c.2.to_)).lt msg.groupDistance = false ∨
          (JsNumber.ofInt (a.to_ - c.2.from_)).lt msg.groupMaxDuration = false) := by
  refine ⟨msg.map_events A, fun e he => ActivityTask.from_eq_to he, List.perm_insertionSort _ _,
    ActivityTask.pairwise_sorted, msg.cuts A, ActivityTask.flatten_cuts, ActivityTask.map_snd_cuts,
    ActivityTask.isEntry_of_mem_cuts, fun c hc => ?_, ActivityTask.pairwise_entries, ?_⟩
  · obtain ⟨first, hfirst, -⟩ := (ActivityTask.isEntry_of_mem_cuts c hc).first
    obtain ⟨hfrom, hto⟩ := ActivityTask.from_mem_of_mem_cuts hc (List.mem_of_mem_head? hfirst)
    exact hfrom.trans hto
  · refine (Activity.isChain_cuts (msg.sorted A)).imp_of_mem_imp fun c d _ hd => ?_
    rintro ⟨a, ha, hsep⟩
    refine ⟨a, ha, fun hby => hsep (hby.trans ?_)⟩
    exact ((ActivityTask.isEntry_of_mem_cuts d hd).by_ a (List.mem_of_mem_head? ha)).symm

end YHub
