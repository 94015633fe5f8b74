import YHub.Activity

/-!
# The author filter (`compute-worker.js:36-38`)

`by` is documented as a comma-separated list of user ids. What the filter splits at the commas is
the recorded author, and `by` has to be one of the parts.

* `author_filter_iff`: of the content that the other filters keep, a rollback, a prune, a changeset
  and an activity request select exactly that of the listed users, if and only if `AuthorsFit` holds
  of it: `by` is a single user id, and whoever is recorded with a comma around it is recorded under
  it as well; or `by` lists several, and nothing was written by any of them.
* `listed_author_dropped`: a list of two users.
-/

namespace YHub

variable {β : Type} {Y : Yjs β} (A : Attributions Y)

/-- The recorded authors. -/
def authors (as : List ContentAttribute) : List String :=
  (as.filter fun a => a.name = "insert" ∨ a.name = "delete").filterMap fun a => a.val.string?

/-- Of `others`, exactly what has an author who is listed in `by` is in `kept`. -/
def KeepsListed (others kept : Content Y.IdMap) (by_ : String) : Prop :=
  ∀ x, Y.HasKey kept x ↔
    ∃ as, A.attrsAt others x = some as ∧ ∃ user ∈ split ',' by_, user ∈ authors as

/-- When the filter does what is documented. -/
def AuthorsFit (others : Content Y.IdMap) (by_ : String) : Prop :=
  if ',' ∈ by_.toList then
    ∀ x as, A.attrsAt others x = some as → ∀ user ∈ split ',' by_, user ∉ authors as
  else
    ∀ x as, A.attrsAt others x = some as → by_ ∉ authors as →
      ∀ s ∈ authors as, ',' ∈ s.toList → by_ ∉ split ',' s

variable {A}

theorem mem_authors {as : List ContentAttribute} {s : String} :
    s ∈ authors as ↔
      ∃ a ∈ as, (a.name = "insert" ∨ a.name = "delete") ∧ a.val = .string s := by
  simp only [authors, List.mem_filterMap, List.mem_filter, decide_eq_true_eq,
    AttributeValue.string?_eq_some_iff, and_assoc]

/-- What the filter asks for. -/
theorem exists_isBy_iff {as : List ContentAttribute} {user : String} :
    (∃ a ∈ as, a.isBy user = true) ↔ ∃ s ∈ authors as, user ∈ split ',' s := by
  unfold ContentAttribute.isBy
  constructor
  · rintro ⟨a, ha, h⟩
    obtain ⟨hname, h⟩ := (Bool.and_eq_true _ _).mp h
    cases hv : a.val with
    | number n => simp [hv] at h
    | string s =>
      refine ⟨s, mem_authors.mpr ⟨a, ha, by simpa using hname, hv⟩, by simpa [hv] using h⟩
  · rintro ⟨s, hs, h⟩
    obtain ⟨a, ha, hname, hv⟩ := mem_authors.mp hs
    exact ⟨a, ha, by simp [hname, hv, h]⟩

section Kept

variable {m : Content Y.IdMap} {from_ to_ : Option JsNumber} {by_ : String}
  {ids : Option (Content Y.IdSet)} {kvs : Option (List KV)}

/-- The author, where the gate is open. -/
theorem attrsAt_filter_of_open (hA : A.Lawful) {x : Y.ContentId} {as : List ContentAttribute}
    (hopen : filters from_ to_ (some by_) kvs = true) :
    A.attrsAt (filterContentMap A m from_ to_ (some by_) ids kvs) x = some as ↔
      A.attrsAt (filterContentMap A m from_ to_ none ids kvs) x = some as ∧
        ∃ s ∈ authors as, by_ ∈ split ',' s := by
  rw [attrsAt_filterContentMap hA, attrsAt_filterContentMap hA, ← exists_isBy_iff]
  simp [hopen, PassesBy, and_assoc]

/-- An author opens the gate. -/
theorem attrsAt_filter_by (hA : A.Lawful) (hby : by_ ≠ "") {x : Y.ContentId}
    {as : List ContentAttribute} :
    A.attrsAt (filterContentMap A m from_ to_ (some by_) ids kvs) x = some as ↔
      A.attrsAt (filterContentMap A m from_ to_ none ids kvs) x = some as ∧
        ∃ s ∈ authors as, by_ ∈ split ',' s :=
  attrsAt_filter_of_open hA (by simp [filters, hby])

/-- **The filter keeps what is documented** exactly where `AuthorsFit` holds. -/
theorem keepsListed_iff (hA : A.Lawful) {others kept : Content Y.IdMap}
    (h : ∀ x as, A.attrsAt kept x = some as ↔
      A.attrsAt others x = some as ∧ ∃ s ∈ authors as, by_ ∈ split ',' s) :
    KeepsListed A others kept by_ ↔ AuthorsFit A others by_ := by
  -- content by content
  have hkeeps : KeepsListed A others kept by_ ↔ ∀ x as, A.attrsAt others x = some as →
      ((∃ s ∈ authors as, by_ ∈ split ',' s) ↔ ∃ user ∈ split ',' by_, user ∈ authors as) := by
    unfold KeepsListed
    refine forall_congr' fun x => ?_
    rw [hA.hasKey_iff]
    simp only [h]
    exact exists_some_and_iff_congr
  rw [hkeeps]
  unfold AuthorsFit
  split_ifs with hcomma
  · refine forall₃_congr fun x as _ => ?_
    -- `by` is not among the parts of anything
    have hno : ¬ ∃ s ∈ authors as, by_ ∈ split ',' s := by
      rintro ⟨s, -, hs⟩
      exact notMem_of_mem_split hs hcomma
    simp [hno]
  · refine forall₃_congr fun x as _ => ?_
    rw [split_of_notMem hcomma]
    constructor
    · intro hiff hnot s hs _ hpart
      obtain ⟨user, huser, hmem⟩ := hiff.mp ⟨s, hs, hpart⟩
      exact hnot (List.mem_singleton.mp huser ▸ hmem)
    · intro hfit
      constructor
      · rintro ⟨s, hs, hpart⟩
        refine ⟨by_, List.mem_singleton_self _, ?_⟩
        by_contra hnot
        by_cases hs' : ',' ∈ s.toList
        · exact hfit hnot s hs hs' hpart
        · rw [split_of_notMem hs', List.mem_singleton] at hpart
          exact hnot (hpart ▸ hs)
      · rintro ⟨user, huser, hmem⟩
        obtain rfl := List.mem_singleton.mp huser
        exact ⟨user, hmem, by rw [split_of_notMem hcomma]; exact List.mem_singleton_self _⟩

end Kept

/-! ## The requests -/

/-- The message with another author. -/
def Rollback.withBy (msg : Rollback β) (by_ : Option String) : Rollback β := { msg with by_ := by_ }

@[inherit_doc Rollback.withBy] def ComputePruneSet.withBy (msg : ComputePruneSet β)
    (by_ : Option String) : ComputePruneSet β := { msg with by_ := by_ }

@[inherit_doc Rollback.withBy] def Changeset.withBy (msg : Changeset β) (by_ : String) :
    Changeset β := { msg with by_ := by_ }

@[inherit_doc Rollback.withBy] def ActivityTask.withBy (msg : ActivityTask β) (by_ : String) :
    ActivityTask β := { msg with by_ := by_ }

theorem orUndefined_of_ne {s : String} (h : s ≠ "") : orUndefined s = some s := if_neg h

/-- **The author filter.** Of the content that the other filters keep, every request selects exactly
that which one of the users listed in `by` is recorded for, if and only if `AuthorsFit` holds. -/
theorem author_filter_iff (hA : A.Lawful) {by_ : String} (hby : by_ ≠ "") :
    (∀ msg : Rollback β,
      KeepsListed A ((msg.withBy none).reducedAttributions A)
          ((msg.withBy (some by_)).reducedAttributions A) by_ ↔
        AuthorsFit A ((msg.withBy none).reducedAttributions A) by_) ∧
    (∀ msg : ComputePruneSet β,
      KeepsListed A ((msg.withBy none).filtered A) ((msg.withBy (some by_)).filtered A) by_ ↔
        AuthorsFit A ((msg.withBy none).filtered A) by_) ∧
    (∀ msg : Changeset β,
      KeepsListed A ((msg.withBy "").filteredAttributions A)
          ((msg.withBy by_).filteredAttributions A) by_ ↔
        AuthorsFit A ((msg.withBy "").filteredAttributions A) by_) ∧
    ∀ msg : ActivityTask β,
      KeepsListed A ((msg.withBy "").filteredAttributions A)
          ((msg.withBy by_).filteredAttributions A) by_ ↔
        AuthorsFit A ((msg.withBy "").filteredAttributions A) by_ := by
  refine ⟨fun msg => ?_, fun msg => ?_, fun msg => ?_, fun msg => ?_⟩
  · exact keepsListed_iff hA fun _ _ => attrsAt_filter_by hA hby
  · exact keepsListed_iff hA fun _ _ => attrsAt_filter_by hA hby
  · refine keepsListed_iff hA fun _ _ => ?_
    unfold Changeset.filteredAttributions Changeset.withBy
    rw [orUndefined_of_ne hby]
    exact attrsAt_filter_by hA hby
  · refine keepsListed_iff hA fun _ _ => ?_
    unfold ActivityTask.filteredAttributions ActivityTask.withBy
    rw [orUndefined_of_ne hby]
    exact attrsAt_filter_by hA hby

/-! ## Two users -/

/-- A rollback of her document. -/
def aliceRollback : Rollback RefPayload where
  nongcDoc := .doc [7]
  contentmapBin := .contentMap aliceMap
  from_ := none
  to_ := none
  by_ := none
  contentIds := none
  withCustomAttributions := none
  userid := "carol"
  customAttributions := []

theorem author_filter_iff_of_alice :
    KeepsListed refAttributions ((aliceRollback.withBy none).reducedAttributions refAttributions)
      ((aliceRollback.withBy (some "alice")).reducedAttributions refAttributions) "alice" := by
  have hby : "alice" ≠ "" := by decide
  have hiff := author_filter_iff refAttributions_lawful hby
  refine (hiff.1 aliceRollback).mpr ?_
  unfold AuthorsFit
  rw [if_neg (by decide)]
  intro x as has hnot
  obtain ⟨-, rfl⟩ := attrsAt_aliceMap has
  exact absurd (by decide) hnot

/-- **A list of two users.** A rollback of what Alice and Bob have done reverts nothing. -/
theorem listed_author_dropped :
    ¬ ∀ (msg : Rollback RefPayload) (by_ : String), by_ ≠ "" →
      KeepsListed refAttributions ((msg.withBy none).reducedAttributions refAttributions)
        ((msg.withBy (some by_)).reducedAttributions refAttributions) by_ := by
  intro h
  have hby : "alice,bob" ≠ "" := by decide
  have hfit := (keepsListed_iff refAttributions_lawful fun _ _ =>
    attrsAt_filter_by refAttributions_lawful hby).mp (h aliceRollback _ hby)
  unfold AuthorsFit at hfit
  rw [if_pos (by decide)] at hfit
  exact hfit (.inserts, (7 : Nat)) _ rfl "alice" (by decide) (by decide)

end YHub
