import Mathlib.Data.Finset.Filter
import Mathlib.Data.List.DropRight
import YHub.Lib.Glob
import YHub.Redis
import YHub.RoomKeys

/-!
# Scans for the keys of a room (`stream.js:455-467, 552-559, 693-732`)

`getQuarantineStreams` and `deleteCachedResponses` find the keys of a room by a pattern, with what
the keys begin with. The matcher of redis is a parameter, with the laws of `Glob.Lawful`.

* `scan_patterns`: a pattern matches the keys of its room, and a deletion leaves the keys of other
  rooms alone.
-/

namespace YHub

/-- `_cachePrefix` -/
def cachePrefix (prefix_ : String) (room : Room) : String :=
  prefix_ ++ ":cache:" ++ uriEncode room.org ++ ":" ++ uriEncode room.docid ++ ":" ++
    uriEncode room.branch ++ ":"

/-- The key of `cachedGet`. -/
def cacheKey (prefix_ : String) (room : Room) (endpoint : String) (args : List String) : String :=
  cachePrefix prefix_ room ++ uriEncode endpoint ++ ":" ++ join ':' (args.map uriEncode)

/-- The pattern of `getQuarantineStreams`. -/
def quarantinePattern (prefix_ : String) (room : Room) : String :=
  encodeQuarantineName room prefix_ "" ++ "*"

/-- The pattern of `deleteCachedResponses`. -/
def cachePattern (prefix_ : String) (room : Room) : String := cachePrefix prefix_ room ++ "*"

/-- What `scanIterator` gives: every key that matches, in batches, perhaps more than once. -/
def Scans (glob : List Char → List Char → Prop) (keys : Finset String) (pattern : String)
    (batches : List (List String)) : Prop :=
  ∀ k, k ∈ batches.flatten ↔ k ∈ keys ∧ glob pattern.toList k.toList

/-- `k.slice(k.lastIndexOf(':') + 1)` -/
def afterLastColon (k : String) : String := String.ofList (k.toList.rtakeWhile (· ≠ ':'))

def getQuarantineStreams (batches : List (List String)) : List String :=
  batches.flatten.map afterLastColon

/-- The keys that are left. -/
def deleteQuarantineStreamKeys (prefix_ : String) (room : Room) (batches : List (List String))
    (keys : Finset String) : Finset String :=
  keys.filter (· ∉ (getQuarantineStreams batches).map (encodeQuarantineName room prefix_))

/-- The keys that are left. -/
def deleteCachedResponses (batches : List (List String)) (keys : Finset String) : Finset String :=
  keys.filter (· ∉ batches.flatten)

/-- The keys of a room. -/
inductive KeyOf (prefix_ : String) (room : Room) : String → Prop
  | stream : KeyOf prefix_ room (encodeRoomName room prefix_)
  | quarantine (qid : String) : KeyOf prefix_ room (encodeQuarantineName room prefix_ qid)
  | cache (endpoint : String) (args : List String) :
    KeyOf prefix_ room (cacheKey prefix_ room endpoint args)

/-! ## What keys begin with -/

/-- The parts of a room, a colon after each. -/
def roomParts (room : Room) : List Char :=
  (uriEncode room.org).toList ++ ':' :: ((uriEncode room.docid).toList ++ ':' ::
    ((uriEncode room.branch).toList ++ [':']))

/-- The parts of a room, and the room, can be told from what follows. -/
theorem roomParts_append_inj {r1 r2 : Room} {rest rest' : List Char}
    (h : roomParts r1 ++ rest = roomParts r2 ++ rest') : r1 = r2 ∧ rest = rest' := by
  unfold roomParts at h
  simp only [List.append_assoc, List.cons_append, List.nil_append] at h
  rw [append_cons_inj (colon_notMem_uriEncode _) (colon_notMem_uriEncode _),
    append_cons_inj (colon_notMem_uriEncode _) (colon_notMem_uriEncode _),
    append_cons_inj (colon_notMem_uriEncode _) (colon_notMem_uriEncode _)] at h
  obtain ⟨horg, hdocid, hbranch, hrest⟩ := h
  have horg := uriEncode_injective (String.toList_inj.mp horg)
  have hdocid := uriEncode_injective (String.toList_inj.mp hdocid)
  have hbranch := uriEncode_injective (String.toList_inj.mp hbranch)
  cases r1
  cases r2
  exact ⟨by simp_all, hrest⟩

theorem roomParts_prefix_iff {r1 r2 : Room} {rest : List Char} :
    roomParts r1 <+: roomParts r2 ++ rest ↔ r1 = r2 := by
  constructor
  · rintro ⟨rest', h⟩
    exact (roomParts_append_inj h).1
  · rintro rfl
    exact List.prefix_append _ _

theorem toList_encodeQuarantineName_eq (room : Room) (prefix_ qid : String) :
    (encodeQuarantineName room prefix_ qid).toList =
      prefix_.toList ++ (":quarantine_room:".toList ++ (roomParts room ++ qid.toList)) := by
  unfold encodeQuarantineName roomParts
  simp [String.toList_append]

theorem toList_cachePrefix (prefix_ : String) (room : Room) :
    (cachePrefix prefix_ room).toList =
      prefix_.toList ++ (":cache:".toList ++ roomParts room) := by
  unfold cachePrefix roomParts
  simp [String.toList_append]

theorem toList_cacheKey (prefix_ : String) (room : Room) (endpoint : String) (args : List String) :
    (cacheKey prefix_ room endpoint args).toList =
      prefix_.toList ++ (":cache:".toList ++ (roomParts room ++
        ((uriEncode endpoint).toList ++ ':' :: (join ':' (args.map uriEncode)).toList))) := by
  unfold cacheKey
  rw [String.toList_append, String.toList_append, String.toList_append, toList_cachePrefix]
  simp

/-- The key of another room does not begin like a quarantine key or a cache key of the room. -/
theorem KeyOf.room_eq {prefix_ k : String} {r1 r2 : Room} (hk : KeyOf prefix_ r2 k)
    {kind : List Char} (hkind : kind = ":quarantine_room:".toList ∨ kind = ":cache:".toList)
    (h : prefix_.toList ++ (kind ++ roomParts r1) <+: k.toList) : r1 = r2 := by
  cases hk with
  | stream =>
    rw [toList_encodeRoomName, roomText_eq, List.prefix_append_right_inj] at h
    rcases hkind with rfl | rfl <;> exact absurd h (by simp [roomText])
  | quarantine qid =>
    rw [toList_encodeQuarantineName_eq, List.prefix_append_right_inj] at h
    rcases hkind with rfl | rfl
    · rw [List.prefix_append_right_inj] at h
      exact roomParts_prefix_iff.mp h
    · exact absurd h (by simp)
  | cache endpoint args =>
    rw [toList_cacheKey, List.prefix_append_right_inj] at h
    rcases hkind with rfl | rfl
    · exact absurd h (by simp)
    · rw [List.prefix_append_right_inj] at h
      exact roomParts_prefix_iff.mp h

theorem KeyOf.room_eq_of_quarantine {prefix_ k : String} {r1 r2 : Room} (hk : KeyOf prefix_ r2 k)
    (h : (encodeQuarantineName r1 prefix_ "").toList <+: k.toList) : r1 = r2 := by
  rw [toList_encodeQuarantineName_eq, String.toList_empty, List.append_nil] at h
  exact hk.room_eq (Or.inl rfl) h

theorem KeyOf.room_eq_of_cache {prefix_ k : String} {r1 r2 : Room} (hk : KeyOf prefix_ r2 k)
    (h : (cachePrefix prefix_ r1).toList <+: k.toList) : r1 = r2 := by
  rw [toList_cachePrefix] at h
  exact hk.room_eq (Or.inr rfl) h

theorem prefix_encodeQuarantineName (room : Room) (prefix_ qid : String) :
    (encodeQuarantineName room prefix_ "").toList <+:
      (encodeQuarantineName room prefix_ qid).toList := by
  refine ⟨qid.toList, ?_⟩
  rw [toList_encodeQuarantineName_eq, toList_encodeQuarantineName_eq]
  simp

theorem prefix_cacheKey (room : Room) (prefix_ endpoint : String) (args : List String) :
    (cachePrefix prefix_ room).toList <+: (cacheKey prefix_ room endpoint args).toList := by
  unfold cacheKey
  rw [String.append_assoc, String.append_assoc, String.toList_append]
  exact List.prefix_append _ _

/-! ## The patterns -/

theorem isMeta_of_uriSafe {c : Char} (h : uriSafe c = true) : Glob.isMeta c = false := by
  refine decide_eq_false fun hmem => ?_
  have hall : ∀ d ∈ ['*', '?', '[', '\\'], uriSafe d = false :=
    forall_mem_of_all (by decide)
  exact absurd ((hall c hmem).symm.trans h) Bool.false_ne_true

theorem isMeta_roomParts (room : Room) : ∀ c ∈ roomParts room, Glob.isMeta c = false := by
  have hcolon : Glob.isMeta ':' = false := by decide
  have hpart (str : String) : ∀ c ∈ (uriEncode str).toList, Glob.isMeta c = false :=
    fun c hc => isMeta_of_uriSafe (uriSafe_of_mem hc)
  unfold roomParts
  simp only [List.forall_mem_append, List.forall_mem_cons]
  exact ⟨hpart _, hcolon, hpart _, hcolon, hpart _, hcolon, fun _ h => absurd h List.not_mem_nil⟩

variable {glob : List Char → List Char → Prop} {prefix_ : String}

theorem glob_append_star (hglob : Glob.Lawful glob) {s : String}
    (hs : ∀ c ∈ s.toList, Glob.isMeta c = false) (k : List Char) :
    glob (s ++ "*").toList k ↔ s.toList <+: k := by
  rw [String.toList_append]
  exact hglob.literal_star_iff hs k

theorem glob_quarantinePattern (hglob : Glob.Lawful glob)
    (hmeta : ∀ c ∈ prefix_.toList, Glob.isMeta c = false) (room : Room) (k : List Char) :
    glob (quarantinePattern prefix_ room).toList k ↔
      (encodeQuarantineName room prefix_ "").toList <+: k := by
  have hkind : ∀ c ∈ ":quarantine_room:".toList, Glob.isMeta c = false :=
    forall_mem_of_all (by decide)
  refine glob_append_star hglob ?_ k
  rw [toList_encodeQuarantineName_eq, String.toList_empty, List.append_nil]
  simp only [List.forall_mem_append]
  exact ⟨hmeta, hkind, isMeta_roomParts room⟩

theorem glob_cachePattern (hglob : Glob.Lawful glob)
    (hmeta : ∀ c ∈ prefix_.toList, Glob.isMeta c = false) (room : Room) (k : List Char) :
    glob (cachePattern prefix_ room).toList k ↔ (cachePrefix prefix_ room).toList <+: k := by
  have hkind : ∀ c ∈ ":cache:".toList, Glob.isMeta c = false := forall_mem_of_all (by decide)
  refine glob_append_star hglob ?_ k
  rw [toList_cachePrefix]
  simp only [List.forall_mem_append]
  exact ⟨hmeta, hkind, isMeta_roomParts room⟩

/-! ## The deletions -/

theorem mem_deleteQuarantineStreamKeys {r1 r2 : Room} {k : String} (hk : KeyOf prefix_ r2 k)
    (hne : r1 ≠ r2) (keys : Finset String) (batches : List (List String)) :
    k ∈ deleteQuarantineStreamKeys prefix_ r1 batches keys ↔ k ∈ keys := by
  unfold deleteQuarantineStreamKeys
  rw [Finset.mem_filter, and_iff_left_iff_imp]
  intro _ hmem
  obtain ⟨qid, -, rfl⟩ := List.mem_map.mp hmem
  exact hne (hk.room_eq_of_quarantine (prefix_encodeQuarantineName r1 prefix_ qid))

theorem mem_deleteCachedResponses (hglob : Glob.Lawful glob)
    (hmeta : ∀ c ∈ prefix_.toList, Glob.isMeta c = false) {r1 r2 : Room} {k : String}
    (hk : KeyOf prefix_ r2 k) (hne : r1 ≠ r2) {keys : Finset String}
    {batches : List (List String)} (hscan : Scans glob keys (cachePattern prefix_ r1) batches) :
    k ∈ deleteCachedResponses batches keys ↔ k ∈ keys := by
  unfold deleteCachedResponses
  rw [Finset.mem_filter, and_iff_left_iff_imp]
  intro _ hmem
  have hbegin := (glob_cachePattern hglob hmeta r1 k.toList).mp ((hscan k).mp hmem).2
  exact hne (hk.room_eq_of_cache hbegin)

/-- **The patterns of a room match its own keys only**, so the deletions leave the keys of every
other room. -/
theorem scan_patterns (hglob : Glob.Lawful glob)
    (hmeta : ∀ c ∈ prefix_.toList, Glob.isMeta c = false) (r1 r2 : Room) :
    (∀ qid, glob (quarantinePattern prefix_ r1).toList
        (encodeQuarantineName r2 prefix_ qid).toList ↔ r1 = r2) ∧
      (∀ endpoint args, glob (cachePattern prefix_ r1).toList
        (cacheKey prefix_ r2 endpoint args).toList ↔ r1 = r2) ∧
      ∀ k, KeyOf prefix_ r2 k → r1 ≠ r2 → ∀ keys batches,
        (k ∈ deleteQuarantineStreamKeys prefix_ r1 batches keys ↔ k ∈ keys) ∧
        (Scans glob keys (cachePattern prefix_ r1) batches →
          (k ∈ deleteCachedResponses batches keys ↔ k ∈ keys)) := by
  refine ⟨fun qid => ?_, fun endpoint args => ?_, fun k hk hne keys batches =>
    ⟨mem_deleteQuarantineStreamKeys hk hne keys batches,
      fun hscan => mem_deleteCachedResponses hglob hmeta hk hne hscan⟩⟩
  · rw [glob_quarantinePattern hglob hmeta]
    constructor
    · exact (KeyOf.quarantine qid).room_eq_of_quarantine
    · rintro rfl
      exact prefix_encodeQuarantineName r1 prefix_ qid
  · rw [glob_cachePattern hglob hmeta]
    constructor
    · exact (KeyOf.cache endpoint args).room_eq_of_cache
    · rintro rfl
      exact prefix_cacheKey r1 prefix_ endpoint args

theorem isMeta_yhub : ∀ c ∈ "yhub".toList, Glob.isMeta c = false := forall_mem_of_all (by decide)

/-- A star in the name of a document matches nothing else. -/
theorem scan_patterns_of_star :
    ¬ Glob.matchGlob (quarantinePattern "yhub" ⟨"o", "draft*", "main"⟩).toList
      (encodeQuarantineName ⟨"o", "draft1", "main"⟩ "yhub" "q").toList := by
  rw [(scan_patterns Glob.lawful_matchGlob isMeta_yhub _ _).1 "q"]
  decide

end YHub
