import YHub.AuthorFilter
import YHub.GetDoc
import YHub.Lib.Outcome

/-!
# What is reverted and what is shown (`builtin-api.js:14-23`, `builtin-api.js:95-163`)

The endpoints `rollback` and `changeset` take the same filters, one from a body, the other from a
query string. `rollback` hands them on as they are; it treats an empty `by` as absent when it asks
for a filter, but not afterwards. `changeset` makes an empty `by` an absent one, and parses the
custom attributions. Both read the document with its whole history.

* `reverted_eq_shown_iff`: what a rollback reverts is what the changeset with the same filter shows,
  if and only if `by` is not empty, or everything that the other filters keep has an author with an
  empty part.
* `empty_by_not_reverted`: an empty `by`.
-/

namespace YHub

variable {β : Type}

/-! ## The endpoints -/

/-- `apiError(status, message)`, or a `DocDeletedError`. -/
inductive ApiError where
  | error (status : Nat) (message : String)
  | docDeleted (tombstone : Tombstone)

/-- What the endpoints use of `getDoc(room, { nongc: true, contentmap: true })`. -/
structure History (β : Type) where
  nongcDoc : β
  contentmap : β
  tombstone : Option Tombstone

structure RollbackBody (β : Type) where
  from_ : Option JsNumber
  to_ : Option JsNumber
  by_ : Option String
  contentIds : Option β
  customAttributions : Option (List KV)
  withCustomAttributions : Option (List KV)

structure ChangesetQuery where
  by_ : Option String
  from_ : Option JsNumber
  to_ : Option JsNumber
  ydoc : Option Bool
  delta : Option Bool
  attributions : Option Bool
  withCustomAttributions : Option String

/-- `!from && !to && !by && !contentIds && (withCustomAttributions ?? []).length === 0` -/
def RollbackBody.unfiltered (body : RollbackBody β) : Bool :=
  !body.from_.any JsNumber.truthy && !body.to_.any JsNumber.truthy && !body.by_.any (· ≠ "") &&
    body.contentIds.isNone && (body.withCustomAttributions.getD []).length = 0

/-- The call of `computePool.rollback`. -/
def rollbackTask (userid : String) (body : RollbackBody β) (doc : History β) :
    Except ApiError (Rollback β) :=
  if body.unfiltered then
    .error (.error 400 ("Rollback requires at least one filter " ++
      "(from, to, by, contentIds, or withCustomAttributions)"))
  else
    match doc.tombstone with
    | some tombstone => .error (.docDeleted tombstone)
    | none => .ok
      { nongcDoc := doc.nongcDoc
        contentmapBin := doc.contentmap
        from_ := body.from_
        to_ := body.to_
        by_ := body.by_
        contentIds := body.contentIds
        withCustomAttributions := body.withCustomAttributions
        userid := userid
        customAttributions := body.customAttributions.getD [] }

/-- `rollbackEndpoint`: the message that it adds to the stream. -/
def rollbackEndpoint {Y : Yjs β} (A : Attributions Y) (now : Nat) (userid : String)
    (body : RollbackBody β) (doc : History β) : Except ApiError (Option (Message β)) :=
  (rollbackTask userid body doc).map fun task =>
    (task.run A now).map fun result => .ydocUpdate result.1 result.2

def parseCustomAttributionsParam (param : Option String) : List KV :=
  match orUndefined (param.getD "") with
  | none => []
  | some param => (split ',' param).map fun entry =>
    match split ':' entry with
    | [] => ⟨"", ""⟩
    | k :: rest => ⟨k, join ':' rest⟩

/-- The call of `computePool.changeset`. -/
def changesetTask (query : ChangesetQuery) (doc : History β) : Except ApiError (Changeset β) :=
  match doc.tombstone with
  | some tombstone => .error (.docDeleted tombstone)
  | none => .ok
    { nongcDoc := doc.nongcDoc
      contentmapBin := doc.contentmap
      from_ := query.from_
      to_ := query.to_
      by_ := query.by_.getD ""
      withCustomAttributions :=
        (orUndefined (query.withCustomAttributions.getD "")).map fun param =>
          parseCustomAttributionsParam (some param)
      includeYdoc := query.ydoc.getD false
      includeDelta := query.delta.getD false
      includeAttributions := query.attributions.getD false }

/-- `changesetEndpoint`, but for the cache. -/
def changesetEndpoint {Y : Yjs β} (A : Attributions Y) (query : ChangesetQuery) (doc : History β) :
    Except ApiError (ChangesetResponse β) :=
  (changesetTask query doc).map fun task => task.run A

/-! ## The same filter -/

/-- The body and the query ask for the same: the query spells out the custom attributions. -/
structure SameFilter (body : RollbackBody β) (query : ChangesetQuery) : Prop where
  from_ : body.from_ = query.from_
  to_ : body.to_ = query.to_
  by_ : body.by_ = query.by_
  contentIds : body.contentIds = none
  withCustomAttributions : body.withCustomAttributions.getD [] =
    parseCustomAttributionsParam query.withCustomAttributions

section Agreement

variable {Y : Yjs β} {A : Attributions Y} {m : Content Y.IdMap} {from_ to_ : Option JsNumber}
  {by_ : Option String} {ids : Option (Content Y.IdSet)} {kvs kvs' : Option (List KV)}
  {x : Y.ContentId} {as : List ContentAttribute}

/-- No custom attributions are as good as none. -/
theorem attrsAt_filter_congr (hA : A.Lawful) (h : kvs.getD [] = kvs'.getD []) :
    A.attrsAt (filterContentMap A m from_ to_ by_ ids kvs) x = some as ↔
      A.attrsAt (filterContentMap A m from_ to_ by_ ids kvs') x = some as := by
  have hcustom (l : Option (List KV)) : PassesCustom l as ↔
      ∀ kv ∈ l.getD [], ∃ a ∈ as, a.isCustom kv = true := by
    cases l <;> simp [PassesCustom]
  have hfilters (l : Option (List KV)) : filters from_ to_ by_ l =
      (from_.any JsNumber.truthy || to_.any JsNumber.truthy || by_.any (· ≠ "") ||
        decide (0 < (l.getD []).length)) := by
    cases l <;> simp [filters]
  rw [attrsAt_filterContentMap hA, attrsAt_filterContentMap hA, hcustom, hcustom, hfilters,
    hfilters, h]

/-- Without a filter there is no rollback: the gate is open. -/
theorem filters_of_not_unfiltered {body : RollbackBody β} (hids : body.contentIds = none)
    (h : body.unfiltered = false) :
    filters body.from_ body.to_ body.by_ body.withCustomAttributions = true := by
  have hkvs : body.withCustomAttributions.any (0 < ·.length) =
      !decide ((body.withCustomAttributions.getD []).length = 0) := by
    cases body.withCustomAttributions with
    | none => rfl
    | some l => cases l <;> simp
  unfold RollbackBody.unfiltered at h
  unfold filters
  rw [hkvs]
  rw [hids] at h
  revert h
  cases body.from_.any JsNumber.truthy <;> cases body.to_.any JsNumber.truthy <;>
    cases body.by_.any (· ≠ "") <;> simp

/-- The filter of an accepted rollback. -/
theorem of_rollbackTask {userid : String} {body : RollbackBody β} {doc : History β}
    {task : Rollback β} (h : rollbackTask userid body doc = .ok task) :
    body.unfiltered = false ∧ task.reducedAttributions A =
      filterContentMap A (Y.decodeContentMap doc.contentmap) body.from_ body.to_ body.by_
        (body.contentIds.map Y.decodeContentIds) body.withCustomAttributions := by
  unfold rollbackTask at h
  split at h
  · exact absurd h (by simp)
  · next hfiltered =>
    split at h
    · exact absurd h (by simp)
    · obtain rfl := Except.ok.inj h
      exact ⟨Bool.eq_false_iff.mpr hfiltered, rfl⟩

/-- A response is that of an accepted request. -/
theorem of_changesetEndpoint {query : ChangesetQuery} {doc : History β}
    {response : ChangesetResponse β} (h : changesetEndpoint A query doc = .ok response) :
    ∃ task, changesetTask query doc = .ok task ∧ task.run A = response := by
  unfold changesetEndpoint at h
  exact Outcome.map_eq_ok.mp h

/-- The filter of an accepted changeset request. -/
theorem of_changesetTask {query : ChangesetQuery} {doc : History β} {task : Changeset β}
    (h : changesetTask query doc = .ok task) :
    ∃ kvs : Option (List KV),
      kvs.getD [] = parseCustomAttributionsParam query.withCustomAttributions ∧
      task.filteredAttributions A =
        filterContentMap A (Y.decodeContentMap doc.contentmap) query.from_ query.to_
          (orUndefined (query.by_.getD "")) none kvs := by
  unfold changesetTask at h
  split at h
  · exact absurd h (by simp)
  · obtain rfl := Except.ok.inj h
    refine ⟨_, ?_, rfl⟩
    unfold parseCustomAttributionsParam
    cases hparam : orUndefined (query.withCustomAttributions.getD "") with
    | none => rfl
    | some param =>
      have hne : param ≠ "" := by
        rintro rfl
        unfold orUndefined at hparam
        split at hparam
        · exact absurd hparam (by simp)
        · next h => exact h (Option.some.inj hparam)
      simp [orUndefined_of_ne hne]

end Agreement

/-! ## What you see is what you revert -/

section Agreement

variable [Preorder β] {Y : Yjs β} {A : Attributions Y} {body : RollbackBody β}
  {query : ChangesetQuery} {doc : History β} {userid : String} {task : Rollback β}
  {response : ChangesetResponse β} {b : β} {x : Y.ContentId}

/-- What a rollback without content ids reverts. -/
theorem reverted_iff (hY : Y.Lawful) (hA : A.Lawful) (hids : body.contentIds = none)
    (htask : rollbackTask userid body doc = .ok task) :
    Y.HasId (task.revertIds A) x ↔
      ∃ as, A.attrsAt (filterContentMap A (Y.decodeContentMap doc.contentmap) body.from_ body.to_
        body.by_ none body.withCustomAttributions) x = some as := by
  rw [task.hasId_revertIds hY, hA.hasKey_iff, (of_rollbackTask htask).2, hids]
  rfl

/-- What the changeset with the same filter shows. -/
theorem shown_iff (hY : Y.Lawful) (hA : A.Lawful) (hsame : SameFilter body query)
    (hresponse : changesetEndpoint A query doc = .ok response)
    (hb : response.attributions = some b) :
    Y.HasKey (Y.decodeContentMap b) x ↔
      ∃ as, A.attrsAt (filterContentMap A (Y.decodeContentMap doc.contentmap) body.from_ body.to_
        (orUndefined (body.by_.getD "")) none body.withCustomAttributions) x = some as := by
  obtain ⟨call, hcall, rfl⟩ := of_changesetEndpoint hresponse
  obtain ⟨kvs, hkvs, hshown⟩ := of_changesetTask (A := A) hcall
  rw [call.hasKey_attributions hY hb, hA.hasKey_iff, hshown, ← hsame.from_, ← hsame.to_,
    ← hsame.by_]
  refine exists_congr fun as => attrsAt_filter_congr hA ?_
  rw [hkvs, hsame.withCustomAttributions]

/-- **What is reverted is what is shown**, if and only if `by` is not empty, or everything that the
other filters keep has an author with an empty part. -/
theorem reverted_eq_shown_iff (hY : Y.Lawful) (hA : A.Lawful) (hsame : SameFilter body query)
    (htask : rollbackTask userid body doc = .ok task)
    (hresponse : changesetEndpoint A query doc = .ok response)
    (hb : response.attributions = some b) :
    (∀ x, Y.HasId (task.revertIds A) x ↔ Y.HasKey (Y.decodeContentMap b) x) ↔
      body.by_ ≠ some "" ∨
        ∀ x as, A.attrsAt (filterContentMap A (Y.decodeContentMap doc.contentmap) body.from_
          body.to_ none none body.withCustomAttributions) x = some as →
            ∃ s ∈ authors as, "" ∈ split ',' s := by
  have hopen := filters_of_not_unfiltered hsame.contentIds (of_rollbackTask (A := A) htask).1
  simp only [reverted_iff hY hA hsame.contentIds htask, shown_iff hY hA hsame hresponse hb]
  rcases hby : body.by_ with _ | user
  · exact iff_of_true (fun _ => Iff.rfl) (Or.inl (by simp))
  by_cases huser : user = ""
  · subst huser
    rw [hby] at hopen
    have hnone : orUndefined ((some "").getD "") = none := rfl
    simp only [attrsAt_filter_of_open hA hopen, hnone, ne_eq, not_true_eq_false, false_or]
    -- content by content
    refine forall_congr' fun x => ?_
    cases A.attrsAt (filterContentMap A (Y.decodeContentMap doc.contentmap) body.from_ body.to_ none
      none body.withCustomAttributions) x with
    | none => simp
    | some as => simp
  · rw [Option.getD_some, orUndefined_of_ne huser]
    exact iff_of_true (fun _ => Iff.rfl) (Or.inl (by simpa using huser))

end Agreement

/-! ## An empty author -/

/-- Alice's document. -/
def aliceHistory : History RefPayload := ⟨.doc [7], .contentMap aliceMap, none⟩

/-- A rollback of what was done since `1`. -/
def sinceOneBody (by_ : Option String) : RollbackBody RefPayload :=
  ⟨some (.ofNat 1), none, by_, none, none, none⟩

/-- The changeset of what was done since `1`. -/
def sinceOneQuery (by_ : Option String) : ChangesetQuery :=
  ⟨by_, some (.ofNat 1), none, none, none, some true, none⟩

theorem sameFilter_sinceOne (by_ : Option String) :
    SameFilter (sinceOneBody by_) (sinceOneQuery by_) :=
  ⟨rfl, rfl, rfl, rfl, rfl⟩

theorem exists_rollbackTask_sinceOne (by_ : Option String) :
    ∃ task, rollbackTask "carol" (sinceOneBody by_) aliceHistory = .ok task := by
  have hfiltered : (sinceOneBody by_).unfiltered = false := by
    simp [RollbackBody.unfiltered, sinceOneBody]
  unfold rollbackTask
  rw [hfiltered]
  exact ⟨_, rfl⟩

theorem exists_changeset_sinceOne (by_ : Option String) :
    ∃ response b,
      changesetEndpoint refAttributions (sinceOneQuery by_) aliceHistory = .ok response ∧
        response.attributions = some b :=
  ⟨_, _, rfl, rfl⟩

/-- Without an author, Alice's content passes. -/
theorem attrsAt_sinceOne :
    refAttributions.attrsAt (filterContentMap refAttributions aliceMap (some (.ofNat 1)) none none
      none none) (.inserts, (7 : Nat)) =
        some [⟨"insert", .string "alice"⟩, ⟨"insertAt", .number 5⟩] := by
  refine (attrsAt_filterContentMap refAttributions_lawful).mpr ⟨rfl, by simp, fun _ => ?_,
    by simp [PassesCustom], fun _ => by simp [PassesBy]⟩
  exact ⟨⟨"insertAt", .number 5⟩, by simp, by simp [ContentAttribute.inWindow]⟩

theorem reverted_eq_shown_iff_of_alice :
    ∃ task response b,
      rollbackTask "carol" (sinceOneBody (some "alice")) aliceHistory = .ok task ∧
      changesetEndpoint refAttributions (sinceOneQuery (some "alice")) aliceHistory = .ok response ∧
      response.attributions = some b ∧
      ∀ x, yjsRef.HasId (task.revertIds refAttributions) x ↔
        yjsRef.HasKey (yjsRef.decodeContentMap b) x := by
  obtain ⟨task, htask⟩ := exists_rollbackTask_sinceOne (some "alice")
  obtain ⟨response, b, hresponse, hb⟩ := exists_changeset_sinceOne (some "alice")
  refine ⟨task, response, b, htask, hresponse, hb, ?_⟩
  refine (reverted_eq_shown_iff yjsRef_lawful refAttributions_lawful (sameFilter_sinceOne _) htask
    hresponse hb).mpr (Or.inl ?_)
  decide

/-- **An empty `by`.** The changeset shows what Alice has done, and the rollback reverts nothing. -/
theorem empty_by_not_reverted :
    ¬ ∀ (body : RollbackBody RefPayload) (query : ChangesetQuery) (doc : History RefPayload)
        (userid : String) (task : Rollback RefPayload) (response : ChangesetResponse RefPayload)
        (b : RefPayload), SameFilter body query → rollbackTask userid body doc = .ok task →
      changesetEndpoint refAttributions query doc = .ok response →
      response.attributions = some b →
        ∀ x, yjsRef.HasId (task.revertIds refAttributions) x ↔
          yjsRef.HasKey (yjsRef.decodeContentMap b) x := by
  intro h
  obtain ⟨task, htask⟩ := exists_rollbackTask_sinceOne (some "")
  obtain ⟨response, b, hresponse, hb⟩ := exists_changeset_sinceOne (some "")
  have hsame := sameFilter_sinceOne (some "")
  have hiff := h _ _ _ _ task response b hsame htask hresponse hb (.inserts, (7 : Nat))
  rw [reverted_iff yjsRef_lawful refAttributions_lawful rfl htask,
    shown_iff yjsRef_lawful refAttributions_lawful hsame hresponse hb] at hiff
  obtain ⟨as, has⟩ := hiff.mpr ⟨_, attrsAt_sinceOne⟩
  have hopen := filters_of_not_unfiltered rfl (of_rollbackTask (A := refAttributions) htask).1
  obtain ⟨has, s, hs, hempty⟩ := (attrsAt_filter_of_open refAttributions_lawful hopen).mp has
  obtain rfl := Option.some.inj (attrsAt_sinceOne.symm.trans has)
  obtain rfl : s = "alice" := by simpa [authors, AttributeValue.string?] using hs
  exact absurd hempty (by decide)

end YHub
