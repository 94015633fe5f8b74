import YHub.Yjs
import YHub.Stream
import YHub.Persistence
import YHub.Lib.FirstWins
import YHub.Lib.SortedLog

/-!
# Reading a document (`index.js:242-296`, `YHub.getDoc`)

`getDoc` merges what the rows of a room hold with the messages of its stream that are newer than
the last persisted clock. Its two reads are made by the caller (`Retrieval` in `System.lean`);
here it is a function of what they returned.

The fold over the messages (`Merging.add`) attributes each content id once: what is known already,
from the rows or from an earlier message, is excluded from a message's content map.

What a document stands for is said against a log, the list of every entry ever added to the
stream: `Represents Y log t c a` is "the asset `a` of column `c` is what the updates up to `t` make
together". The documents are their join. The content map gives each content id the attributes of
the first update that carried it and the content ids are its keys, unless a prune directive has
been added.

* `getDoc_represents`: rows that represent the log up to their clocks, and the updates of the log
  between the last of these clocks and a later one, make a document that represents the log up to
  the later one.
-/

namespace YHub

variable {β : Type}

/-! ## The document table -/

/-- `t.DocTable`; a part that was not asked for is `null`. -/
structure DocTable (β : Type) where
  gcDoc : Option β
  nongcDoc : Option β
  contentmap : Option β
  contentids : Option β
  lastClock : Clock
  lastPersistedClock : Clock
  tombstone : Option Tombstone
  references : Option (List (Reference β))
  awareness : Option β
  authChecks : List (Option (List AuthMatcher) × Bool)

namespace DocTable

/-- The part of the table that a column is stored from. -/
def asset? (d : DocTable β) : AssetColumn → Option (Asset β)
  | .gcdoc => d.gcDoc.map .ydoc
  | .nongcdoc => d.nongcDoc.map .ydoc
  | .contentmap => d.contentmap.map .contentmap
  | .contentids => d.contentids.map .contentids

/-- The four parts `store` needs. -/
def content? (d : DocTable β) : Option (DocContent β) :=
  match d.gcDoc, d.nongcDoc, d.contentmap, d.contentids with
  | some g, some n, some m, some i => some ⟨g, n, m, i⟩
  | _, _, _, _ => none

theorem content?_asset {d : DocTable β} {c : DocContent β} (h : d.content? = some c)
    (col : AssetColumn) : d.asset? col = some (c.asset col) := by
  unfold content? at h
  split at h
  · rename_i g n m i hg hn hm hi
    obtain rfl := Option.some.inj h
    cases col <;> simp [asset?, DocContent.asset, hg, hn, hm, hi]
  · exact absurd h (by simp)

theorem content?_of_asset {d : DocTable β} (h : ∀ col, ∃ a, d.asset? col = some a) :
    ∃ c, d.content? = some c := by
  obtain ⟨_, hg⟩ := h .gcdoc
  obtain ⟨_, hn⟩ := h .nongcdoc
  obtain ⟨_, hm⟩ := h .contentmap
  obtain ⟨_, hi⟩ := h .contentids
  simp only [asset?, Option.map_eq_some_iff] at hg hn hm hi
  obtain ⟨g, hg, -⟩ := hg
  obtain ⟨n, hn, -⟩ := hn
  obtain ⟨m, hm, -⟩ := hm
  obtain ⟨i, hi, -⟩ := hi
  exact ⟨⟨g, n, m, i⟩, by simp [content?, hg, hn, hm, hi]⟩

end DocTable

/-! ## The messages of a stream -/

/-- An update message with its clock. -/
structure Update (β : Type) where
  id : StreamId
  update : β
  contentmap : β

/-- The update messages, with their clocks. -/
def updatesIn (messages : List (StreamId × Message β)) : List (Update β) :=
  messages.filterMap fun
    | (id, .ydocUpdate u m) => some ⟨id, u, m⟩
    | _ => none

/-- The prune sets. -/
def prunesIn (messages : List (StreamId × Message β)) : List β :=
  messages.filterMap fun
    | (_, .prune p) => some p
    | _ => none

def awarenessIn (messages : List (StreamId × Message β)) : List β :=
  messages.filterMap fun
    | (_, .awareness u) => some u
    | _ => none

def authChecksIn (messages : List (StreamId × Message β)) :
    List (Option (List AuthMatcher) × Bool) :=
  messages.filterMap fun
    | (_, .authCheck users forceDisconnect) => some (users, forceDisconnect)
    | _ => none

/-! ## getDoc -/

/-- The lists `getDoc` collects what it merges in. -/
structure Merging (Y : Yjs β) where
  mergedContentIds : Content Y.IdSet
  gcDoc : Option (List β)
  nongcDoc : Option (List β)
  contentmap : Option (List (Content Y.IdMap))
  contentids : List (Content Y.IdSet)

/-- Attributions can only be assigned once: known content ids are excluded from the update. -/
def Merging.add {Y : Yjs β} (acc : Merging Y) (u : Update β) : Merging Y :=
  let mcontentmap := Y.excludeContentMap (Y.decodeContentMap u.contentmap) acc.mergedContentIds
  let mcontentids := Y.createContentIdsFromContentMap mcontentmap
  { mergedContentIds :=
      ⟨Y.insertIntoIdSet acc.mergedContentIds.inserts mcontentids.inserts,
        Y.insertIntoIdSet acc.mergedContentIds.deletes mcontentids.deletes⟩
    gcDoc := acc.gcDoc.map (· ++ [u.update])
    nongcDoc := acc.nongcDoc.map (· ++ [u.update])
    contentmap := acc.contentmap.map (· ++ [mcontentmap])
    contentids := acc.contentids ++ [mcontentids] }

/-- The lists before the messages: what the rows hold. -/
def Merging.start (Y : Yjs β) (persisted : RetrievedDoc β) : Merging Y :=
  let contentids := (persisted.contentids.getD []).map Y.decodeContentIds
  { mergedContentIds := Y.mergeContentIds contentids
    gcDoc := persisted.gcDoc
    nongcDoc := persisted.nongcDoc
    contentmap := persisted.contentmap.map (·.map Y.decodeContentMap)
    contentids := contentids }

/-- The lists after the messages: only update messages that are newer than what the rows hold are
added. -/
def merging (Y : Yjs β) (persisted : RetrievedDoc β) (messages : List (StreamId × Message β)) :
    Merging Y :=
  ((updatesIn messages).filter fun u => persisted.lastClock.isSmaller (.id u.id)).foldl
    Merging.add (.start Y persisted)

/-- `pruneSet`. -/
def pruneSet (Y : Yjs β) (messages : List (StreamId × Message β)) : Option Y.IdSet :=
  if prunesIn messages = [] then none
  else some (Y.mergeIdSets ((prunesIn messages).map Y.decodeIdSet))

/-- The content without the ids in `pruneSet`. -/
def Content.without {α : Type} {Y : Yjs β} (diff : α → Y.IdSet → α) (prune : Option Y.IdSet)
    (c : Content α) : Content α :=
  match prune with
  | some s => ⟨diff c.inserts s, diff c.deletes s⟩
  | none => c

/-- `getDoc`, from what `retrieveDoc` (asked also for the content ids) and `getMessages`
returned. -/
def getDoc (Y : Yjs β) (i : Include) (gcOnMerge : Bool) (persisted : RetrievedDoc β)
    (cached : Messages (Message β)) : DocTable β :=
  let acc := merging Y persisted cached.messages
  let prune := pruneSet Y cached.messages
  let mergedContentmap := acc.contentmap.map fun ms =>
    (Y.mergeContentMaps ms).without Y.diffIdMap prune
  let mergedCids := (Y.mergeContentIds acc.contentids).without Y.diffIdSet prune
  { gcDoc := acc.gcDoc.map fun us => Y.mergeUpdates gcOnMerge us none
    nongcDoc := acc.nongcDoc.map fun us => Y.mergeUpdates false us (prune.map Y.encodeIdSet)
    contentmap := mergedContentmap.map Y.encodeContentMap
    contentids := if i.contentids then some (Y.encodeContentIds mergedCids) else none
    lastClock := persisted.lastClock.max cached.lastClock
    lastPersistedClock := persisted.lastClock
    tombstone := persisted.tombstone
    references := persisted.references
    awareness :=
      if i.awareness then some (Y.mergeAwarenessUpdates (awarenessIn cached.messages)) else none
    authChecks := authChecksIn cached.messages }

/-! ## The fold -/

section Fold

variable {Y : Yjs β}

/-- The content ids an update carries. -/
def Update.Carries (Y : Yjs β) (u : Update β) (x : Y.ContentId) : Prop :=
  Y.HasKey (Y.decodeContentMap u.contentmap) x

/-- The attributes an update gives. -/
def Update.Gives (Y : Yjs β) (u : Update β) (x : Y.ContentId) (a : ContentAttribute) : Prop :=
  Y.HasAttr (Y.decodeContentMap u.contentmap) x a

open FirstWins

variable {acc : Merging Y} {us : List (Update β)} {x : Y.ContentId} {a : ContentAttribute}

theorem foldl_add_gcDoc : (us.foldl Merging.add acc).gcDoc =
    acc.gcDoc.map (· ++ us.map Update.update) := by
  induction us generalizing acc with
  | nil => simp
  | cons u us ih =>
    rw [List.foldl_cons, ih]
    simp [Merging.add, Function.comp_def]

theorem foldl_add_nongcDoc : (us.foldl Merging.add acc).nongcDoc =
    acc.nongcDoc.map (· ++ us.map Update.update) := by
  induction us generalizing acc with
  | nil => simp
  | cons u us ih =>
    rw [List.foldl_cons, ih]
    simp [Merging.add, Function.comp_def]

theorem foldl_add_contentmap : ∃ r, (us.foldl Merging.add acc).contentmap =
    acc.contentmap.map (· ++ r) := by
  induction us generalizing acc with
  | nil => exact ⟨[], by simp⟩
  | cons u us ih =>
    obtain ⟨r, hr⟩ : ∃ r, (us.foldl Merging.add (acc.add u)).contentmap =
      (acc.add u).contentmap.map (· ++ r) := ih
    exact ⟨Y.excludeContentMap (Y.decodeContentMap u.contentmap) acc.mergedContentIds :: r, by
      rw [List.foldl_cons, hr]
      simp [Merging.add, Function.comp_def]⟩

/-- The messages that are newer than what the rows hold. -/
def newer (ra : RetrievedAssets β) (cached : Messages (Message β)) : List β :=
  ((updatesIn cached.messages).filter fun u => ra.lastClock.isSmaller (.id u.id)).map Update.update

/-- The garbage-collected document: the rows' documents, and what is newer. -/
theorem getDoc_gcDoc {i : Include} (hi : i.gc = true) (gcOnMerge : Bool) (ra : RetrievedAssets β)
    (retrieved : List (AssetId Clock × Asset β)) (cached : Messages (Message β)) :
    (getDoc Y i gcOnMerge (retrieveDoc { i with contentids := true } ra retrieved) cached).gcDoc =
      some (Y.mergeUpdates gcOnMerge (updatesOf true retrieved ++ newer ra cached) none) := by
  simp [getDoc, merging, foldl_add_gcDoc, Merging.start, retrieveDoc, hi, newer]

/-- The full document. -/
theorem getDoc_nongcDoc {i : Include} (hi : i.nongc = true) (gcOnMerge : Bool)
    (ra : RetrievedAssets β) (retrieved : List (AssetId Clock × Asset β))
    (cached : Messages (Message β)) :
    (getDoc Y i gcOnMerge (retrieveDoc { i with contentids := true } ra retrieved)
      cached).nongcDoc = some (Y.mergeUpdates false (updatesOf false retrieved ++ newer ra cached)
        ((pruneSet Y cached.messages).map Y.encodeIdSet)) := by
  simp [getDoc, merging, foldl_add_nongcDoc, Merging.start, retrieveDoc, hi, newer]

/-- A document has the parts that were asked for. -/
theorem getDoc_asset? {i : Include} {gcOnMerge : Bool} {ra : RetrievedAssets β}
    {retrieved : List (AssetId Clock × Asset β)} {cached : Messages (Message β)}
    {col : AssetColumn} (hcol : col.included i = true) :
    ∃ a, (getDoc Y i gcOnMerge (retrieveDoc { i with contentids := true } ra retrieved)
      cached).asset? col = some a := by
  cases col with
  | gcdoc =>
    have hi : i.gc = true := hcol
    simp [DocTable.asset?, getDoc_gcDoc hi]
  | nongcdoc =>
    have hi : i.nongc = true := hcol
    simp [DocTable.asset?, getDoc_nongcDoc hi]
  | contentmap =>
    have hi : i.contentmap = true := hcol
    obtain ⟨r, hr⟩ := @foldl_add_contentmap _ Y
      (.start Y (retrieveDoc { i with contentids := true } ra retrieved))
      ((updatesIn cached.messages).filter fun u => ra.lastClock.isSmaller (.id u.id))
    have hm : (merging Y (retrieveDoc { i with contentids := true } ra retrieved)
        cached.messages).contentmap =
          some ((contentmapsOf retrieved).map Y.decodeContentMap ++ r) := by
      refine hr.trans ?_
      simp [Merging.start, retrieveDoc, hi]
    simp only [DocTable.asset?, getDoc, hm, Option.map_some]
    exact ⟨_, rfl⟩
  | contentids =>
    have hi : i.contentids = true := hcol
    simp [DocTable.asset?, getDoc, hi]

variable [Preorder β]

theorem hasId_insertInto (hY : Y.Lawful) {c d : Content Y.IdSet} :
    Y.HasId ⟨Y.insertIntoIdSet c.inserts d.inserts, Y.insertIntoIdSet c.deletes d.deletes⟩ x ↔
      Y.HasId c x ∨ Y.HasId d x := by
  obtain ⟨_ | _, i⟩ := x <;> exact hY.insertInto ..

/-- After one more update the known ids are the ones known before and the ones it carries. -/
theorem hasId_add (hY : Y.Lawful) (u : Update β) :
    Y.HasId (acc.add u).mergedContentIds x ↔ Y.HasId acc.mergedContentIds x ∨ u.Carries Y x := by
  simp only [Merging.add, hasId_insertInto hY, hY.createContentIds, hY.exclude_key]
  by_cases h : Y.HasId acc.mergedContentIds x <;> simp [h, Update.Carries]

/-- The content ids of the list are the known ids. -/
def Merging.IdsOk (acc : Merging Y) : Prop :=
  ∀ x, (∃ c ∈ acc.contentids, Y.HasId c x) ↔ Y.HasId acc.mergedContentIds x

theorem Merging.IdsOk.add (hY : Y.Lawful) (h : acc.IdsOk) (u : Update β) : (acc.add u).IdsOk := by
  intro x
  rw [hasId_add hY, ← h x]
  constructor
  · rintro ⟨c, hc, hx⟩
    rcases List.mem_append.mp hc with hc | hc
    · exact Or.inl ⟨c, hc, hx⟩
    · rw [List.mem_singleton.mp hc, hY.createContentIds, hY.exclude_key] at hx
      exact Or.inr hx.1
  · rintro (⟨c, hc, hx⟩ | hx)
    · exact ⟨c, List.mem_append_left _ hc, hx⟩
    · by_cases hk : Y.HasId acc.mergedContentIds x
      · obtain ⟨c, hc, hx⟩ := (h x).mpr hk
        exact ⟨c, List.mem_append_left _ hc, hx⟩
      · refine ⟨_, List.mem_append_right _ (List.mem_singleton.mpr rfl), ?_⟩
        rw [hY.createContentIds, hY.exclude_key]
        exact ⟨hx, hk⟩

theorem hasId_foldl_add (hY : Y.Lawful) (h : acc.IdsOk) :
    (∃ c ∈ (us.foldl Merging.add acc).contentids, Y.HasId c x) ↔
      Y.HasId acc.mergedContentIds x ∨ Keyed (Update.Carries Y) us x := by
  induction us generalizing acc with
  | nil => simp [h x]
  | cons u us ih => rw [List.foldl_cons, ih (h.add hY u), hasId_add hY, keyed_cons, or_assoc]

/-- **What the fold does to the content map**: the ids that are not known get the attributes of
the first update that carries them. -/
theorem contentmap_foldl_add (hY : Y.Lawful) {ms : List (Content Y.IdMap)}
    (hms : acc.contentmap = some ms) (us : List (Update β)) :
    ∃ ms', (us.foldl Merging.add acc).contentmap = some ms' ∧
      (∀ x, (∃ m ∈ ms', Y.HasKey m x) ↔ (∃ m ∈ ms, Y.HasKey m x) ∨
        ¬ Y.HasId acc.mergedContentIds x ∧ Keyed (Update.Carries Y) us x) ∧
      (∀ x a, (∃ m ∈ ms', Y.HasAttr m x a) ↔ (∃ m ∈ ms, Y.HasAttr m x a) ∨
        ¬ Y.HasId acc.mergedContentIds x ∧
          FirstAttr (Update.Carries Y) (Update.Gives Y) us x a) := by
  induction us generalizing acc ms with
  | nil => exact ⟨ms, hms, by simp, by simp [FirstAttr]⟩
  | cons u us ih =>
    have hms' : (acc.add u).contentmap = some (ms ++ [Y.excludeContentMap
        (Y.decodeContentMap u.contentmap) acc.mergedContentIds]) := by
      simp [Merging.add, hms]
    obtain ⟨ms', h, hkey, hattr⟩ := ih hms'
    refine ⟨ms', h, fun x => ?_, fun x a => ?_⟩
    · rw [hkey x, hasId_add hY, keyed_cons]
      simp only [List.mem_append, List.mem_singleton, or_and_right, exists_or, exists_eq_left,
        hY.exclude_key]
      by_cases hk : Y.HasId acc.mergedContentIds x <;>
        by_cases hc : u.Carries Y x <;> simp_all [Update.Carries]
    · rw [hattr x a, hasId_add hY, FirstAttr]
      simp only [List.mem_append, List.mem_singleton, or_and_right, exists_or, exists_eq_left,
        hY.exclude_attr]
      have hgk : u.Gives Y x a → u.Carries Y x := hY.key_of_attr _ x a
      by_cases hk : Y.HasId acc.mergedContentIds x <;>
        by_cases hc : u.Carries Y x <;> simp_all [Update.Gives]

end Fold

/-! ## What a document stands for -/

section Represents

open FirstWins SortedLog

/-- The updates of a log. -/
def updates (log : List (Entry (Message β))) : List (Update β) := updatesIn (messagesOf log)

/-- The updates of a log up to a stream id. -/
def updatesUpTo (log : List (Entry (Message β))) (t : StreamId) : List (Update β) :=
  upTo Update.id t (updates log)

theorem updatesUpTo_split {log : List (Entry (Message β))} {p l : StreamId}
    (hsorted : Sorted Update.id (updates log)) (hpl : p ≤ l) :
    updatesUpTo log l = updatesUpTo log p ++ between Update.id p l (updates log) :=
  upTo_split hsorted hpl

theorem updatesUpTo_prefix {log : List (Entry (Message β))} {t p : StreamId}
    (hsorted : Sorted Update.id (updates log)) (htp : t ≤ p) :
    ∃ r, updatesUpTo log p = updatesUpTo log t ++ r :=
  ⟨_, updatesUpTo_split hsorted htp⟩

/-- No prune directive has been added. -/
def NoPrune (log : List (Entry (Message β))) : Prop := prunesIn (messagesOf log) = []

variable [Preorder β]

/-- The documents that were asked for cover an update. -/
def DocTable.Covers (i : Include) (d : DocTable β) (v : β) : Prop :=
  (i.gc = true → ∃ g, d.gcDoc = some g ∧ v ≤ g) ∧
    (i.nongc = true → ∃ n, d.nongcDoc = some n ∧ v ≤ n)

/-- The document is the join of the updates. -/
def IsJoin (us : List (Update β)) (doc : β) : Prop := IsLUB {u | u ∈ us.map Update.update} doc

/-- **The asset of a column stands for the updates of the log up to `t`.** -/
def Represents (Y : Yjs β) (log : List (Entry (Message β))) (t : StreamId) :
    AssetColumn → Asset β → Prop
  | .gcdoc, .ydoc u => IsJoin (updatesUpTo log t) u
  | .nongcdoc, .ydoc u => IsJoin (updatesUpTo log t) u
  | .contentmap, .contentmap b => NoPrune log →
      (∀ x, Y.HasKey (Y.decodeContentMap b) x ↔ Keyed (Update.Carries Y) (updatesUpTo log t) x) ∧
      ∀ x a, Y.HasAttr (Y.decodeContentMap b) x a ↔
        FirstAttr (Update.Carries Y) (Update.Gives Y) (updatesUpTo log t) x a
  | .contentids, .contentids b => NoPrune log →
      ∀ x, Y.HasId (Y.decodeContentIds b) x ↔ Keyed (Update.Carries Y) (updatesUpTo log t) x
  | _, _ => False

/-- Retrieved assets of a room that stand for the log up to clocks that are at most `p`. -/
def RetrievedUpTo (Y : Yjs β) (log : List (Entry (Message β))) (room : Room) (p : StreamId)
    (retrieved : List (AssetId Clock × Asset β)) : Prop :=
  ∀ id a, (id, a) ∈ retrieved → ∃ (col : AssetColumn) (t : StreamId),
    id = col.assetId room (.id t) ∧ t ≤ p ∧ Represents Y log t col a

variable {Y : Yjs β} {log : List (Entry (Message β))} {room : Room} {p l t : StreamId}
  {retrieved : List (AssetId Clock × Asset β)}

/-! ### What was retrieved -/

theorem RetrievedUpTo.fitting (h : RetrievedUpTo Y log room p retrieved) :
    Fitting room retrieved := by
  intro id a hmem
  obtain ⟨col, t, hid, -, hr⟩ := h id a hmem
  refine ⟨col, .id t, hid, ?_⟩
  cases col <;> cases a <;> trivial

theorem represents_of_mem (h : RetrievedUpTo Y log room p retrieved) {col : AssetColumn}
    {c : Clock} {a : Asset β} (hmem : (col.assetId room c, a) ∈ retrieved) :
    ∃ t, c = .id t ∧ t ≤ p ∧ Represents Y log t col a := by
  obtain ⟨col', t, hid, hle, hr⟩ := h _ a hmem
  obtain ⟨rfl, rfl⟩ := AssetColumn.assetId_inj hid
  exact ⟨t, rfl, hle, hr⟩

/-! ### Merging the retrieved with what is newer -/

/-- Documents up to `p`, one of them up to `p` itself, and the updates that follow. -/
theorem isJoin_merge (hY : Y.Lawful) (hsorted : Sorted Update.id (updates log)) (hpl : p ≤ l)
    {docs : List β} (hdocs : ∀ d ∈ docs, ∃ t ≤ p, IsJoin (updatesUpTo log t) d)
    (hlast : updatesUpTo log p = [] ∨ ∃ d ∈ docs, IsJoin (updatesUpTo log p) d) (gc : Bool)
    (prune : Option β) :
    IsJoin (updatesUpTo log l) (Y.mergeUpdates gc
      (docs ++ (between Update.id p l (updates log)).map Update.update) prune) := by
  have hsplit := updatesUpTo_split hsorted hpl
  refine ⟨?_, fun v hv => hY.merge_le (fun d hd => ?_) gc prune⟩
  · rintro u hu
    have hu : u ∈ (updatesUpTo log l).map Update.update := hu
    rw [hsplit, List.map_append] at hu
    rcases List.mem_append.mp hu with hu | hu
    · rcases hlast with hnil | ⟨d, hd, hjoin⟩
      · rw [hnil] at hu
        exact absurd hu List.not_mem_nil
      · exact (hjoin.1 hu).trans (hY.le_merge (List.mem_append_left _ hd) gc prune)
    · exact hY.le_merge (List.mem_append_right _ hu) gc prune
  · rcases List.mem_append.mp hd with hd | hd
    · obtain ⟨t, htp, hjoin⟩ := hdocs d hd
      obtain ⟨r, hr⟩ := updatesUpTo_prefix hsorted (htp.trans hpl)
      refine hjoin.2 fun u hu => hv ?_
      show u ∈ (updatesUpTo log l).map Update.update
      rw [hr, List.map_append]
      exact List.mem_append_left _ hu
    · refine hv ?_
      show d ∈ (updatesUpTo log l).map Update.update
      rw [hsplit, List.map_append]
      exact List.mem_append_right _ hd

/-- What holds of an asset of the last row, or of nothing, holds of the retrieved assets together:
the smaller rows add nothing. -/
theorem exists_retrieved_iff {α : Type} {as : List α} {holds : α → Prop} (p : StreamId)
    (upTo : StreamId → Prop) (has : ∀ a ∈ as, ∃ t ≤ p, (holds a ↔ upTo t))
    (hmono : ∀ t ≤ p, upTo t → upTo p) (hlast : ¬ upTo p ∨ ∃ a ∈ as, (holds a ↔ upTo p)) :
    (∃ a ∈ as, holds a) ↔ upTo p := by
  constructor
  · rintro ⟨a, ha, hold⟩
    obtain ⟨t, htp, hiff⟩ := has a ha
    exact hmono t htp (hiff.mp hold)
  · intro hup
    rcases hlast with hn | ⟨a, ha, hiff⟩
    · exact absurd hup hn
    · exact ⟨a, ha, hiff.mpr hup⟩

/-! ### The document -/

variable {i : Include} {ra : RetrievedAssets β} {cached : Messages (Message β)}

/-- What the rows make known, as far as the retrieved assets stand for the log up to `p`, and the
last row is among them unless there is nothing up to `p`. -/
structure PersistedUpTo (Y : Yjs β) (log : List (Entry (Message β))) (room : Room) (p : StreamId)
    (i : Include) (retrieved : List (AssetId Clock × Asset β)) : Prop where
  upTo : RetrievedUpTo Y log room p retrieved
  last : updatesUpTo log p = [] ∨ ∀ col, AssetColumn.included i col = true →
    ∃ a, (col.assetId room (.id p), a) ∈ retrieved

theorem PersistedUpTo.docs (h : PersistedUpTo Y log room p i retrieved) (gc : Bool)
    (hi : (if gc then i.gc else i.nongc) = true) :
    (∀ d ∈ updatesOf gc retrieved, ∃ t ≤ p, IsJoin (updatesUpTo log t) d) ∧
      (updatesUpTo log p = [] ∨ ∃ d ∈ updatesOf gc retrieved, IsJoin (updatesUpTo log p) d) := by
  refine ⟨fun d hd => ?_, h.last.imp_right fun hlast => ?_⟩
  · obtain ⟨c, hmem⟩ := (mem_updatesOf h.upTo.fitting).mp hd
    obtain ⟨t, -, htp, hr⟩ := represents_of_mem h.upTo hmem
    cases gc <;> exact ⟨t, htp, hr⟩
  · obtain ⟨a, hmem⟩ := hlast (.doc gc) (by
      cases gc <;> simpa [AssetColumn.included, AssetColumn.doc] using hi)
    obtain ⟨t, ht, -, hr⟩ := represents_of_mem h.upTo hmem
    obtain rfl := Clock.id.inj ht
    cases gc <;> cases a <;> first
      | exact absurd hr id
      | exact ⟨_, (mem_updatesOf h.upTo.fitting).mpr ⟨_, hmem⟩, hr⟩

theorem PersistedUpTo.contentids (hY : Y.Lawful) (h : PersistedUpTo Y log room p i retrieved)
    (hsorted : Sorted Update.id (updates log)) (hprune : NoPrune log) (hi : i.contentids = true)
    (x : Y.ContentId) :
    Y.HasId (Y.mergeContentIds ((contentidsOf retrieved).map Y.decodeContentIds)) x ↔
      Keyed (Update.Carries Y) (updatesUpTo log p) x := by
  rw [hY.mergeContentIds]
  simp only [List.mem_map, exists_exists_and_eq_and]
  refine exists_retrieved_iff p
    (fun t => Keyed (Update.Carries Y) (updatesUpTo log t) x) (fun b hb => ?_)
    (fun t htp hk => ?_) ?_
  · obtain ⟨c, hmem⟩ := (mem_contentidsOf h.upTo.fitting).mp hb
    obtain ⟨t, -, htp, hr⟩ := represents_of_mem h.upTo hmem
    exact ⟨t, htp, hr hprune x⟩
  · obtain ⟨r, hr⟩ := updatesUpTo_prefix hsorted htp
    rw [hr, keyed_append]
    exact Or.inl hk
  · refine h.last.imp (fun hnil => by rw [hnil]; exact not_keyed_nil) fun hlast => ?_
    obtain ⟨a, hmem⟩ := hlast .contentids hi
    obtain ⟨t, ht, -, hr⟩ := represents_of_mem h.upTo hmem
    obtain rfl := Clock.id.inj ht
    cases a with
    | contentids b => exact ⟨b, (mem_contentidsOf h.upTo.fitting).mpr ⟨_, hmem⟩, hr hprune x⟩
    | _ => exact absurd hr id

theorem PersistedUpTo.contentmap_key (h : PersistedUpTo Y log room p i retrieved)
    (hsorted : Sorted Update.id (updates log)) (hprune : NoPrune log) (hi : i.contentmap = true)
    (x : Y.ContentId) :
    (∃ m ∈ (contentmapsOf retrieved).map Y.decodeContentMap, Y.HasKey m x) ↔
      Keyed (Update.Carries Y) (updatesUpTo log p) x := by
  simp only [List.mem_map, exists_exists_and_eq_and]
  refine exists_retrieved_iff p
    (fun t => Keyed (Update.Carries Y) (updatesUpTo log t) x) (fun b hb => ?_)
    (fun t htp hk => ?_) ?_
  · obtain ⟨c, hmem⟩ := (mem_contentmapsOf h.upTo.fitting).mp hb
    obtain ⟨t, -, htp, hr⟩ := represents_of_mem h.upTo hmem
    exact ⟨t, htp, (hr hprune).1 x⟩
  · obtain ⟨r, hr⟩ := updatesUpTo_prefix hsorted htp
    rw [hr, keyed_append]
    exact Or.inl hk
  · refine h.last.imp (fun hnil => by rw [hnil]; exact not_keyed_nil) fun hlast => ?_
    obtain ⟨a, hmem⟩ := hlast .contentmap hi
    obtain ⟨t, ht, -, hr⟩ := represents_of_mem h.upTo hmem
    obtain rfl := Clock.id.inj ht
    cases a with
    | contentmap b => exact ⟨b, (mem_contentmapsOf h.upTo.fitting).mpr ⟨_, hmem⟩, (hr hprune).1 x⟩
    | _ => exact absurd hr id

theorem PersistedUpTo.contentmap_attr (h : PersistedUpTo Y log room p i retrieved)
    (hsorted : Sorted Update.id (updates log)) (hprune : NoPrune log) (hi : i.contentmap = true)
    (x : Y.ContentId) (a : ContentAttribute) :
    (∃ m ∈ (contentmapsOf retrieved).map Y.decodeContentMap, Y.HasAttr m x a) ↔
      FirstAttr (Update.Carries Y) (Update.Gives Y) (updatesUpTo log p) x a := by
  simp only [List.mem_map, exists_exists_and_eq_and]
  refine exists_retrieved_iff p
    (fun t => FirstAttr (Update.Carries Y) (Update.Gives Y) (updatesUpTo log t) x a)
    (fun b hb => ?_) (fun t htp hk => ?_) ?_
  · obtain ⟨c, hmem⟩ := (mem_contentmapsOf h.upTo.fitting).mp hb
    obtain ⟨t, -, htp, hr⟩ := represents_of_mem h.upTo hmem
    exact ⟨t, htp, (hr hprune).2 x a⟩
  · obtain ⟨r, hr⟩ := updatesUpTo_prefix hsorted htp
    rw [hr]
    exact firstAttr_append_left hk
  · refine h.last.imp (fun hnil => by rw [hnil]; exact id) fun hlast => ?_
    obtain ⟨b, hmem⟩ := hlast .contentmap hi
    obtain ⟨t, ht, -, hr⟩ := represents_of_mem h.upTo hmem
    obtain rfl := Clock.id.inj ht
    cases b with
    | contentmap b => exact ⟨b, (mem_contentmapsOf h.upTo.fitting).mpr ⟨_, hmem⟩, (hr hprune).2 x a⟩
    | _ => exact absurd hr id

/-- **The document of `getDoc`.** With rows that stand for the log up to `p`, and the messages
newer than the last persisted clock being the updates of the log after `p` and up to `l`, each part
of the document stands for the log up to `l`. -/
theorem getDoc_represents (hY : Y.Lawful) (gcOnMerge : Bool)
    (h : PersistedUpTo Y log room p { i with contentids := true } retrieved)
    (hsorted : Sorted Update.id (updates log)) (hpl : p ≤ l)
    (hnew : (updatesIn cached.messages).filter (fun u => ra.lastClock.isSmaller (.id u.id)) =
      between Update.id p l (updates log))
    (hprune : NoPrune log → prunesIn cached.messages = []) {col : AssetColumn}
    (hcol : col.included i = true) :
    ∃ a, (getDoc Y i gcOnMerge (retrieveDoc { i with contentids := true } ra retrieved)
      cached).asset? col = some a ∧ Represents Y log l col a := by
  have hsplit := updatesUpTo_split hsorted hpl
  have hacc : merging Y (retrieveDoc { i with contentids := true } ra retrieved) cached.messages =
      (between Update.id p l (updates log)).foldl Merging.add
        (.start Y (retrieveDoc { i with contentids := true } ra retrieved)) := by
    unfold merging
    rw [← hnew]
    rfl
  -- the content ids known from the rows
  have hids : NoPrune log → ∀ x, Y.HasId (Merging.start Y
      (retrieveDoc { i with contentids := true } ra retrieved)).mergedContentIds x ↔
        Keyed (Update.Carries Y) (updatesUpTo log p) x :=
    fun hn x => h.contentids hY hsorted hn rfl x
  have hok : (Merging.start Y (retrieveDoc { i with contentids := true } ra retrieved)).IdsOk :=
    fun x => (hY.mergeContentIds _ x).symm
  have hnone : NoPrune log → pruneSet Y cached.messages = none :=
    fun hn => if_pos (hprune hn)
  cases col with
  | gcdoc =>
    have hi : i.gc = true := hcol
    obtain ⟨hdocs, hlast⟩ := h.docs true hi
    refine ⟨.ydoc _, ?_, isJoin_merge hY hsorted hpl hdocs hlast gcOnMerge none⟩
    simp only [DocTable.asset?, getDoc_gcDoc hi, newer, hnew, Option.map_some]
  | nongcdoc =>
    have hi : i.nongc = true := hcol
    obtain ⟨hdocs, hlast⟩ := h.docs false hi
    refine ⟨.ydoc _, ?_, isJoin_merge hY hsorted hpl hdocs hlast false
      ((pruneSet Y cached.messages).map Y.encodeIdSet)⟩
    simp only [DocTable.asset?, getDoc_nongcDoc hi, newer, hnew, Option.map_some]
  | contentmap =>
    have hi : i.contentmap = true := hcol
    have hms : (Merging.start Y
        (retrieveDoc { i with contentids := true } ra retrieved)).contentmap =
          some ((contentmapsOf retrieved).map Y.decodeContentMap) := by
      simp [Merging.start, retrieveDoc, hi]
    obtain ⟨ms', hms', hkey, hattr⟩ :=
      contentmap_foldl_add hY hms (between Update.id p l (updates log))
    refine ⟨.contentmap (Y.encodeContentMap ((Y.mergeContentMaps ms').without Y.diffIdMap
      (pruneSet Y cached.messages))), ?_, fun hn => ?_⟩
    · simp only [getDoc, DocTable.asset?, hacc, hms', Option.map_some]
    rw [hnone hn]
    refine ⟨fun x => ?_, fun x a => ?_⟩
    · rw [hY.decode_contentMap_key]
      simp only [Content.without]
      rw [hY.mergeContentMaps_key, hkey x, h.contentmap_key hsorted hn hi, hids hn, hsplit,
        keyed_append]
      by_cases hk : Keyed (Update.Carries Y) (updatesUpTo log p) x <;> simp [hk]
    · rw [hY.decode_contentMap_attr]
      simp only [Content.without]
      rw [hY.mergeContentMaps_attr, hattr x a, h.contentmap_attr hsorted hn hi, hids hn, hsplit,
        firstAttr_append]
  | contentids =>
    have hi : i.contentids = true := hcol
    refine ⟨.contentids (Y.encodeContentIds ((Y.mergeContentIds (merging Y (retrieveDoc
      { i with contentids := true } ra retrieved) cached.messages).contentids).without Y.diffIdSet
        (pruneSet Y cached.messages))), ?_, fun hn x => ?_⟩
    · simp only [getDoc, DocTable.asset?, hi, if_true, Option.map_some]
    rw [hnone hn, hY.decode_contentIds]
    simp only [Content.without]
    rw [hY.mergeContentIds, hacc, hasId_foldl_add hY hok, hids hn, hsplit, keyed_append]

end Represents

end YHub
