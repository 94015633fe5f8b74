import YHub.Activity

/-!
# The window of time (`compute-worker.js:22-35`, `compute-worker.js:96-121`, `:215-222`)

The filtering is skipped when neither `from` nor `to` is truthy. A bound `0` is a number like any
other for the comparison, but it does not open the gate. The documents of a changeset and of an
activity request are cut off with `from = 0`, so there it is `to` alone that opens it; for an
activity request `to` is the latest one of the entries, and `0` if there are none.

* `time_window_iff`: a window `[from, to]` keeps exactly the content with a timestamp in it, and the
  two documents have nothing later than their bound, if and only if a bound is truthy, or all
  content carries the timestamp `0` anyway.
* `window_not_kept`: the window `[0, 0]`, and an activity request without entries.
-/

namespace YHub

variable {β : Type} {Y : Yjs β} (A : Attributions Y)

/-- The values of `insertAt` and `deleteAt`. -/
def timestamps (as : List ContentAttribute) : List Nat :=
  (as.filter fun a => a.name = "insertAt" ∨ a.name = "deleteAt").filterMap fun a => a.val.number?

/-- A timestamp in the window. -/
def InWindow (from_ to_ : JsNumber) (as : List ContentAttribute) : Prop :=
  ∃ v ∈ timestamps as, from_.le (.ofNat v) = true ∧ (JsNumber.ofNat v).le to_ = true

/-- Of the content of `m`, exactly what has a timestamp in the window is in `kept`. -/
def KeepsWindow (m kept : Content Y.IdMap) (from_ to_ : JsNumber) : Prop :=
  ∀ x, Y.HasKey kept x ↔ ∃ as, A.attrsAt m x = some as ∧ InWindow from_ to_ as

/-- All content of the document has a timestamp that is not later than the bound. -/
def ContentUpto (m : Content Y.IdMap) (doc : β) (bound : JsNumber) : Prop :=
  ∀ x, Y.HasId (Y.createContentIdsFromUpdate doc) x →
    ∃ as, A.attrsAt m x = some as ∧ ∃ v ∈ timestamps as, (JsNumber.ofNat v).le bound = true

variable {A}

theorem mem_timestamps {as : List ContentAttribute} {v : Nat} :
    v ∈ timestamps as ↔
      ∃ a ∈ as, (a.name = "insertAt" ∨ a.name = "deleteAt") ∧ a.val = .number v := by
  simp only [timestamps, List.mem_filterMap, List.mem_filter, decide_eq_true_eq,
    AttributeValue.number?_eq_some_iff, and_assoc]

/-- What the filter asks for. -/
theorem exists_inWindow_iff {as : List ContentAttribute} {from_ to_ : JsNumber} :
    (∃ a ∈ as, a.inWindow (some from_) (some to_) = true) ↔ InWindow from_ to_ as := by
  unfold ContentAttribute.inWindow InWindow
  constructor
  · rintro ⟨a, ha, h⟩
    obtain ⟨hname, h⟩ := (Bool.and_eq_true _ _).mp h
    cases hv : a.val with
    | number v =>
      refine ⟨v, mem_timestamps.mpr ⟨a, ha, by simpa using hname, hv⟩, by simpa [hv] using h⟩
    | string s => simp [hv] at h
  · rintro ⟨v, hv, h⟩
    obtain ⟨a, ha, hname, hval⟩ := mem_timestamps.mp hv
    exact ⟨a, ha, by simp [hname, hval, h.1, h.2]⟩

/-- Bounds that do not open the gate have a window of at most the timestamp `0`. -/
theorem inWindow_of_falsy {as : List ContentAttribute} {from_ to_ : JsNumber}
    (hfrom : from_.truthy = false) (hto : to_.truthy = false) :
    InWindow from_ to_ as ↔ from_ = .ofNat 0 ∧ to_ = .ofNat 0 ∧ 0 ∈ timestamps as := by
  unfold InWindow
  constructor
  · rintro ⟨v, hv, hfv, hvt⟩
    obtain rfl : from_ = .ofNat 0 := by
      refine (JsNumber.truthy_eq_false_iff.mp hfrom).resolve_left ?_
      rintro rfl
      exact absurd hfv (by simp)
    obtain rfl : to_ = .ofNat 0 := by
      refine (JsNumber.truthy_eq_false_iff.mp hto).resolve_left ?_
      rintro rfl
      exact absurd hvt (by simp)
    obtain rfl : v = 0 := by simpa using hvt
    exact ⟨rfl, rfl, hv⟩
  · rintro ⟨rfl, rfl, h⟩
    exact ⟨0, h, by simp, by simp⟩

/-- From `0` on, only `to` matters. -/
theorem inWindow_zero_iff {as : List ContentAttribute} {to_ : JsNumber} :
    InWindow (.ofNat 0) to_ as ↔ ∃ v ∈ timestamps as, (JsNumber.ofNat v).le to_ = true := by
  simp [InWindow]

theorem attrsAt_filter_window (hA : A.Lawful) {m : Content Y.IdMap} {from_ to_ : JsNumber}
    {x : Y.ContentId} {as : List ContentAttribute} :
    A.attrsAt (filterContentMap A m (some from_) (some to_) none none none) x = some as ↔
      A.attrsAt m x = some as ∧
        ((from_.truthy || to_.truthy) = true → InWindow from_ to_ as) := by
  rw [attrsAt_filterContentMap hA, ← exists_inWindow_iff]
  simp [PassesWindow, PassesCustom, PassesBy]

/-! ## The filter -/

/-- All content carries the timestamp `0`, and the window is `[0, 0]`. -/
def AllAtZero (A : Attributions Y) (m : Content Y.IdMap) (from_ to_ : JsNumber) : Prop :=
  ∀ x as, A.attrsAt m x = some as → from_ = .ofNat 0 ∧ to_ = .ofNat 0 ∧ 0 ∈ timestamps as

theorem keepsWindow_iff (hA : A.Lawful) (m : Content Y.IdMap) (from_ to_ : JsNumber) :
    KeepsWindow A m (filterContentMap A m (some from_) (some to_) none none none) from_ to_ ↔
      from_.truthy = true ∨ to_.truthy = true ∨ AllAtZero A m from_ to_ := by
  -- content by content
  have hkeeps : KeepsWindow A m (filterContentMap A m (some from_) (some to_) none none none)
      from_ to_ ↔ ∀ x as, A.attrsAt m x = some as →
        (((from_.truthy || to_.truthy) = true → InWindow from_ to_ as) ↔
          InWindow from_ to_ as) := by
    unfold KeepsWindow
    refine forall_congr' fun x => ?_
    rw [hA.hasKey_iff]
    simp only [attrsAt_filter_window hA]
    exact exists_some_and_iff_congr
  rw [hkeeps]
  cases hfrom : from_.truthy with
  | true => simp
  | false =>
    cases hto : to_.truthy with
    | true => simp
    | false =>
      simp only [Bool.or_self, Bool.false_eq_true, false_imp_iff, true_iff, false_or]
      exact forall₃_congr fun x as _ => inWindow_of_falsy hfrom hto

/-! ## The documents -/

/-- The content of a document that is cut off at `to`. -/
theorem contentUpto_iff [Preorder β] (hY : Y.Lawful) (hA : A.Lawful) (m : Content Y.IdMap)
    (nongcDoc : β) (to_ : JsNumber) {doc : β}
    (hdoc : ∀ x, Y.HasId (Y.createContentIdsFromUpdate doc) x ↔
      Y.HasId (Y.createContentIdsFromUpdate nongcDoc) x ∧
        Y.HasId (Y.createContentIdsFromContentMap
          (filterContentMap A m (some (.ofNat 0)) (some to_) none none none)) x) :
    ContentUpto A m doc to_ ↔ to_.truthy = true ∨
      ∀ x, Y.HasId (Y.createContentIdsFromUpdate nongcDoc) x → ∀ as, A.attrsAt m x = some as →
        to_ = .ofNat 0 ∧ 0 ∈ timestamps as := by
  have hkept (x : Y.ContentId) : Y.HasId (Y.createContentIdsFromUpdate doc) x ↔
      Y.HasId (Y.createContentIdsFromUpdate nongcDoc) x ∧ ∃ as, A.attrsAt m x = some as ∧
        (to_.truthy = true → InWindow (.ofNat 0) to_ as) := by
    rw [hdoc, hY.createContentIds, hA.hasKey_iff]
    have hzero : (JsNumber.ofNat 0).truthy = false := by
      rw [JsNumber.truthy_eq_false_iff]
      exact Or.inr rfl
    simp only [attrsAt_filter_window hA, hzero, Bool.false_or]
  unfold ContentUpto
  simp only [hkept, ← inWindow_zero_iff]
  cases hto : to_.truthy with
  | true =>
    simp only [true_imp_iff, true_or, iff_true]
    exact fun x hx => hx.2
  | false =>
    have hwindow (as : List ContentAttribute) :
        InWindow (.ofNat 0) to_ as ↔ to_ = .ofNat 0 ∧ 0 ∈ timestamps as :=
      (inWindow_of_falsy (JsNumber.truthy_eq_false_iff.mpr (Or.inr rfl)) hto).trans
        (and_iff_right rfl)
    simp only [Bool.false_eq_true, false_imp_iff, and_true, false_or, hwindow]
    refine forall_congr' fun x => ?_
    cases A.attrsAt m x with
    | none => simp
    | some as => simp

/-- The document of a changeset. -/
theorem Changeset.contentUpto_iff [Preorder β] (hY : Y.Lawful) (hA : A.Lawful)
    (msg : Changeset β) {to_ : JsNumber} (hto : msg.to_ = some to_) :
    ContentUpto A (Y.decodeContentMap msg.contentmapBin) (msg.doc A) to_ ↔ to_.truthy = true ∨
      ∀ x, Y.HasId (Y.createContentIdsFromUpdate msg.nongcDoc) x →
        ∀ as, A.attrsAt (Y.decodeContentMap msg.contentmapBin) x = some as →
          to_ = .ofNat 0 ∧ 0 ∈ timestamps as := by
  refine YHub.contentUpto_iff hY hA _ _ to_ fun x => ?_
  unfold doc afterContentIds
  rw [hA.gcIdSet, hA.intersectUpdate, hto]

/-- The document that the entries of an activity request share. -/
theorem ActivityTask.contentUpto_iff [Preorder β] (hY : Y.Lawful) (hA : A.Lawful)
    (msg : ActivityTask β) :
    ContentUpto A (Y.decodeContentMap msg.contentmapBin) (msg.doc A)
        (.ofNat (maxTo (msg.activityResult A))) ↔
      (∃ a ∈ msg.activityResult A, a.to_ ≠ 0) ∨
        ∀ x, Y.HasId (Y.createContentIdsFromUpdate msg.nongcDoc) x →
          ∀ as, A.attrsAt (Y.decodeContentMap msg.contentmapBin) x = some as →
            0 ∈ timestamps as := by
  have hmax : (JsNumber.ofNat (maxTo (msg.activityResult A))).truthy = true ↔
      ∃ a ∈ msg.activityResult A, a.to_ ≠ 0 := by
    rw [JsNumber.truthy_ofNat, ne_eq, maxTo_eq_zero_iff]
    push Not
    rfl
  rw [YHub.contentUpto_iff hY hA _ msg.nongcDoc, hmax]
  · refine or_congr_right' fun hzero => ?_
    rw [← hmax, JsNumber.truthy_ofNat, not_not] at hzero
    simp only [hzero, true_and]
  · intro x
    unfold doc docContentIds
    simp only
    split
    · rw [hA.gcIdSet, hA.intersectUpdate]
    · rw [hA.intersectUpdate]

/-- Unless the limit cuts entries off, one of them ends at another time than `0` exactly if some
filtered content carries such a timestamp. -/
theorem ActivityTask.exists_to_ne_zero_iff (msg : ActivityTask β)
    (hlimit : ∀ n, msg.limit.toIndex = some n → (msg.events A).length ≤ n) :
    (∃ a ∈ msg.activityResult A, a.to_ ≠ 0) ↔ ∃ e ∈ msg.events A, e.to_ ≠ 0 := by
  have hmax := maxTo_activityResult hlimit
  have hresult := not_congr (@maxTo_eq_zero_iff (msg.activityResult A))
  have hevents := not_congr (@maxTo_eq_zero_iff (msg.events A))
  push Not at hresult hevents
  rw [← hresult, ← hevents, hmax]

/-! ## The bounds -/

/-- **The window of time.** It is kept exactly if one of the bounds is truthy or all content is in
it anyway. The document of a changeset has nothing later than the `to` that is asked for exactly if
this `to` is truthy, or it would have nothing later anyway; and the document of an activity request
has nothing later than the latest `to` of the entries exactly if one of them has another `to` than
`0`, or all its content carries the timestamp `0`; unless the limit cuts entries off, one of them
has exactly if some filtered content is an event of another time than `0`. -/
theorem time_window_iff [Preorder β] (hY : Y.Lawful) (hA : A.Lawful) :
    (∀ m from_ to_,
      KeepsWindow A m (filterContentMap A m (some from_) (some to_) none none none) from_ to_ ↔
        from_.truthy = true ∨ to_.truthy = true ∨ AllAtZero A m from_ to_) ∧
    (∀ (msg : Changeset β) to_, msg.to_ = some to_ →
      (ContentUpto A (Y.decodeContentMap msg.contentmapBin) (msg.doc A) to_ ↔ to_.truthy = true ∨
        ∀ x, Y.HasId (Y.createContentIdsFromUpdate msg.nongcDoc) x →
          ∀ as, A.attrsAt (Y.decodeContentMap msg.contentmapBin) x = some as →
            to_ = .ofNat 0 ∧ 0 ∈ timestamps as)) ∧
    ∀ msg : ActivityTask β,
      (ContentUpto A (Y.decodeContentMap msg.contentmapBin) (msg.doc A)
          (.ofNat (maxTo (msg.activityResult A))) ↔
        (∃ a ∈ msg.activityResult A, a.to_ ≠ 0) ∨
          ∀ x, Y.HasId (Y.createContentIdsFromUpdate msg.nongcDoc) x →
            ∀ as, A.attrsAt (Y.decodeContentMap msg.contentmapBin) x = some as →
              0 ∈ timestamps as) ∧
      ((∀ n, msg.limit.toIndex = some n → (msg.events A).length ≤ n) →
        ((∃ a ∈ msg.activityResult A, a.to_ ≠ 0) ↔ ∃ e ∈ msg.events A, e.to_ ≠ 0)) :=
  ⟨fun m from_ to_ => keepsWindow_iff hA m from_ to_,
    fun msg _ hto => msg.contentUpto_iff hY hA hto,
    fun msg => ⟨msg.contentUpto_iff hY hA, msg.exists_to_ne_zero_iff⟩⟩

theorem time_window_iff_of_alice :
    KeepsWindow refAttributions aliceMap
      (filterContentMap refAttributions aliceMap (some (.ofNat 0)) (some (.ofNat 5)) none none none)
      (.ofNat 0) (.ofNat 5) := by
  have hiff := time_window_iff yjsRef_lawful refAttributions_lawful
  refine (hiff.1 aliceMap (.ofNat 0) (.ofNat 5)).mpr (Or.inr (Or.inl ?_))
  rw [JsNumber.truthy_ofNat]
  decide

/-- An activity request for what Bob has done. -/
def bobActivity : ActivityTask RefPayload where
  nongcDoc := .doc [7]
  contentmapBin := .contentMap aliceMap
  from_ := .ofNat 0
  to_ := .ofNat 9007199254740991
  by_ := "bob"
  contentIds := none
  withCustomAttributions := none
  includeCustomAttributions := false
  includeDelta := false
  includeYdoc := true
  includeAttributions := false
  limit := .ofNat 9007199254740991
  reverse := false
  group := true
  groupMaxGap := .ofNat 1000
  groupMaxDuration := .ofNat 9007199254740991

/-- **The bound `0`.** The window `[0, 0]` keeps what was inserted at `5`, and Bob, who has done
nothing, is shown the whole document. -/
theorem window_not_kept :
    (¬ ∀ m from_ to_, KeepsWindow refAttributions m
      (filterContentMap refAttributions m (some from_) (some to_) none none none) from_ to_) ∧
    ¬ ∀ msg : ActivityTask RefPayload,
      ContentUpto refAttributions (yjsRef.decodeContentMap msg.contentmapBin)
        (msg.doc refAttributions) (.ofNat (maxTo (msg.activityResult refAttributions))) := by
  have hfalsy : ¬ (JsNumber.ofNat 0).truthy = true := by
    rw [JsNumber.truthy_ofNat]
    decide
  constructor
  · intro h
    have hzero := (keepsWindow_iff refAttributions_lawful aliceMap (.ofNat 0) (.ofNat 0)).mp
      (h aliceMap _ _)
    have hall := (hzero.resolve_left hfalsy).resolve_left hfalsy
    exact absurd (hall (.inserts, (7 : Nat)) _ rfl).2.2 (by decide)
  · intro h
    have hnil : bobActivity.activityResult refAttributions = [] := activityResult_eq_nil rfl
    rcases (bobActivity.contentUpto_iff yjsRef_lawful refAttributions_lawful).mp (h bobActivity)
      with ⟨a, ha, -⟩ | hzero
    · rw [hnil] at ha
      exact absurd ha List.not_mem_nil
    · have hmem : yjsRef.HasId (yjsRef.createContentIdsFromUpdate (.doc [7]))
          (.inserts, (7 : Nat)) := List.mem_singleton_self 7
      exact absurd (hzero (.inserts, (7 : Nat)) hmem _ rfl) (by decide)

end YHub
