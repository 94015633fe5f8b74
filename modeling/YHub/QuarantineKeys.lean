import YHub.Lib.Outcome
import YHub.Quarantine
import YHub.ScanPatterns

/-!
# Listing what is quarantined (`stream.js:455-491`)

`getAllQuarantineStreams` scans for the quarantine keys of all rooms and matches each of them
against `^.*:quarantine_room:([^:]+):([^:]+):([^:]+):([^:]+)$`; a key that does not match is an
error of the whole call. `getQuarantineStreams` scans for those of a room and takes what follows the
last colon.

* `quarantined_of_reach`: the quarantine keys of a run are those that `quarantine` was called for.
* `quarantine_listing_iff`: the listings are right if and only if no quarantined room has an empty
  part (and the prefix no line terminator). The part can be the branch: `?branch=` is an empty one.
* `empty_branch_not_listed`: a run with an empty branch.
-/

namespace YHub

variable {β μ : Type}

/-- `/^.*:quarantine_room:([^:]+):([^:]+):([^:]+):([^:]+)$/`; the text of `.*` is the first one
here, and no group there. -/
def quarantineItems : List Pattern.Item :=
  .rep true 0 notLineTerminator :: Pattern.literal ":quarantine_room:" ++
    .rep true 1 (· ≠ ':') :: Pattern.literal ":" ++
    .rep true 1 (· ≠ ':') :: Pattern.literal ":" ++
    .rep true 1 (· ≠ ':') :: Pattern.literal ":" ++
    [.rep true 1 (· ≠ ':')]

/-- A key, in the loop of `getAllQuarantineStreams`. -/
def decodeQuarantineName (k : String) : Except String (Room × String) :=
  match Pattern.exec quarantineItems k.toList with
  | some [_, m1, m2, m3, m4] => do
    return (⟨← uriDecodeOrThrow m1, ← uriDecodeOrThrow m2, ← uriDecodeOrThrow m3⟩,
      String.ofList m4)
  | _ => .error ("Malformed quarantine key: " ++ k)

def getAllQuarantineStreams (batches : List (List String)) :
    Except String (List (Room × String)) :=
  batches.flatten.mapM decodeQuarantineName

/-- The pattern of `getAllQuarantineStreams`. -/
def allQuarantinePattern (prefix_ : String) : String := prefix_ ++ ":quarantine_room:" ++ "*"

/-- `random.uuidv4()` -/
def Uuid (qid : String) : Prop :=
  qid.toList.length = 36 ∧ ∀ c ∈ qid.toList, c ∈ "0123456789abcdef-".toList

/-- The keys of a redis whose quarantine streams are those of `r`: one for each stream, and no other
key begins like one. -/
structure Keyspace (prefix_ : String) (r : Redis μ) (keys : Finset String) : Prop where
  quarantined : ∀ room qid, r.quarantined room qid ≠ none →
    encodeQuarantineName room prefix_ qid ∈ keys
  eq_of_prefix : ∀ k ∈ keys, (prefix_ ++ ":quarantine_room:").toList <+: k.toList →
    ∃ room qid, r.quarantined room qid ≠ none ∧ k = encodeQuarantineName room prefix_ qid

/-! ## What matches -/

theorem matches_quarantineItems {text : List Char} {groups : List (List Char)} :
    Pattern.Matches quarantineItems text groups ↔
      ∃ x m1 m2 m3 m4, groups = [x, m1, m2, m3, m4] ∧ text = quarantineText x m1 m2 m3 m4 ∧
        (∀ c ∈ x, notLineTerminator c = true) ∧
          ∀ m ∈ [m1, m2, m3, m4], ':' ∉ m ∧ m ≠ [] := by
  have hpart (m : List Char) :
      (∀ c ∈ m, decide (c ≠ ':') = true) ∧ 1 ≤ m.length ↔ ':' ∉ m ∧ m ≠ [] := by
    constructor
    · rintro ⟨hall, hpos⟩
      exact ⟨fun hmem => of_decide_eq_true (hall ':' hmem) rfl, List.ne_nil_of_length_pos hpos⟩
    · rintro ⟨hmem, hne⟩
      exact ⟨fun c hc => decide_eq_true fun h => hmem (h ▸ hc), List.length_pos_of_ne_nil hne⟩
  unfold quarantineItems
  simp only [List.cons_append, List.append_assoc, Pattern.matches_rep_iff,
    Pattern.matches_literal_iff, Pattern.matches_nil_iff]
  constructor
  · rintro ⟨x, _, _, rfl, rfl, hx, -, _, rfl, m1, _, _, rfl, rfl, h1, h1', _, rfl, m2, _, _, rfl,
      rfl, h2, h2', _, rfl, m3, _, _, rfl, rfl, h3, h3', _, rfl, m4, _, _, rfl, rfl, h4, h4', rfl,
      rfl⟩
    refine ⟨x, m1, m2, m3, m4, rfl, by simp [quarantineText], hx, ?_⟩
    simp only [List.forall_mem_cons]
    exact ⟨(hpart m1).mp ⟨h1, h1'⟩, (hpart m2).mp ⟨h2, h2'⟩, (hpart m3).mp ⟨h3, h3'⟩,
      (hpart m4).mp ⟨h4, h4'⟩, fun _ h => absurd h List.not_mem_nil⟩
  · rintro ⟨x, m1, m2, m3, m4, rfl, rfl, hx, hm⟩
    simp only [List.forall_mem_cons] at hm
    obtain ⟨h1, h2, h3, h4, -⟩ := hm
    obtain ⟨h1, h1'⟩ := (hpart m1).mpr h1
    obtain ⟨h2, h2'⟩ := (hpart m2).mpr h2
    obtain ⟨h3, h3'⟩ := (hpart m3).mpr h3
    obtain ⟨h4, h4'⟩ := (hpart m4).mpr h4
    exact ⟨x, _, _, by simp [quarantineText], rfl, hx, Nat.zero_le _, _, rfl, m1, _, _, rfl, rfl,
      h1, h1', _, rfl, m2, _, _, rfl, rfl, h2, h2', _, rfl, m3, _, _, rfl, rfl, h3, h3', _, rfl,
      m4, _, _, (List.append_nil m4).symm, rfl, h4, h4', rfl, rfl⟩

/-- There is one way to read the text of a quarantine key. -/
theorem quarantineText_inj {x a b c q x' a' b' c' q' : List Char}
    (hcolon : ∀ m ∈ [a, b, c, q, a', b', c', q'], ':' ∉ m)
    (h : quarantineText x a b c q = quarantineText x' a' b' c' q') :
    x' = x ∧ a' = a ∧ b' = b ∧ c' = c ∧ q' = q := by
  simp only [List.forall_mem_cons] at hcolon
  obtain ⟨ha, hb, hc, hq, ha', hb', hc', hq', -⟩ := hcolon
  have hparts := congrArg (List.splitOn ':') h
  rw [splitOn_quarantineText, splitOn_quarantineText, List.splitOn_eq_singleton ha,
    List.splitOn_eq_singleton hb, List.splitOn_eq_singleton hc, List.splitOn_eq_singleton hq,
    List.splitOn_eq_singleton ha', List.splitOn_eq_singleton hb', List.splitOn_eq_singleton hc',
    List.splitOn_eq_singleton hq'] at hparts
  obtain ⟨hx, hrest⟩ := List.append_inj' hparts rfl
  have hjoin (l : List Char) : [':'].intercalate (l.splitOn ':') = l := List.intercalate_splitOn ':'
  have hx : x = x' := by rw [← hjoin x, hx, hjoin]
  simp only [List.cons_append, List.nil_append, List.cons.injEq, true_and, and_true] at hrest
  obtain ⟨rfl, rfl, rfl, rfl⟩ := hrest
  exact ⟨hx.symm, rfl, rfl, rfl, rfl⟩

/-- The parts of a quarantined room, all of them, and the prefix, let its key match. -/
def Listable (prefix_ : String) (room : Room) : Prop :=
  room.org ≠ "" ∧ room.docid ≠ "" ∧ room.branch ≠ "" ∧
    ∀ c ∈ prefix_.toList, notLineTerminator c = true

theorem uriEncode_eq_nil {str : String} : (uriEncode str).toList = [] ↔ str = "" := by
  have hempty : uriEncode "" = "" := by decide
  constructor
  · intro h
    exact uriEncode_injective ((String.toList_eq_nil_iff.mp h).trans hempty.symm)
  · rintro rfl
    rw [hempty]
    rfl

theorem Uuid.colon_notMem {qid : String} (h : Uuid qid) : ':' ∉ qid.toList :=
  fun hmem => absurd (h.2 ':' hmem) (by decide)

theorem Uuid.toList_ne_nil {qid : String} (h : Uuid qid) : qid.toList ≠ [] := by
  intro hnil
  have hlen := h.1
  rw [hnil] at hlen
  exact absurd hlen (by decide)

variable {prefix_ qid : String} {room : Room}

/-- What the key of a quarantined room matches with. -/
theorem matches_encodeQuarantineName (hqid : Uuid qid) {groups : List (List Char)} :
    Pattern.Matches quarantineItems (encodeQuarantineName room prefix_ qid).toList groups ↔
      Listable prefix_ room ∧ groups = [prefix_.toList, (uriEncode room.org).toList,
        (uriEncode room.docid).toList, (uriEncode room.branch).toList, qid.toList] := by
  rw [matches_quarantineItems, toList_encodeQuarantineName]
  constructor
  · rintro ⟨x, m1, m2, m3, m4, rfl, htext, hx, hm⟩
    simp only [List.forall_mem_cons] at hm
    obtain ⟨⟨h1, h1'⟩, ⟨h2, h2'⟩, ⟨h3, h3'⟩, ⟨h4, h4'⟩, -⟩ := hm
    have hcolon : ∀ m ∈ [(uriEncode room.org).toList, (uriEncode room.docid).toList,
        (uriEncode room.branch).toList, qid.toList, m1, m2, m3, m4], ':' ∉ m := by
      simp only [List.forall_mem_cons]
      exact ⟨colon_notMem_uriEncode _, colon_notMem_uriEncode _, colon_notMem_uriEncode _,
        hqid.colon_notMem, h1, h2, h3, h4, fun _ h => absurd h List.not_mem_nil⟩
    obtain ⟨hx', hm1, hm2, hm3, hm4⟩ := quarantineText_inj hcolon htext
    rw [hx'] at hx
    rw [hm1] at h1'
    rw [hm2] at h2'
    rw [hm3] at h3'
    rw [hx', hm1, hm2, hm3, hm4]
    exact ⟨⟨mt uriEncode_eq_nil.mpr h1', mt uriEncode_eq_nil.mpr h2', mt uriEncode_eq_nil.mpr h3',
      hx⟩, rfl⟩
  · rintro ⟨⟨horg, hdocid, hbranch, hdots⟩, rfl⟩
    refine ⟨_, _, _, _, _, rfl, rfl, hdots, ?_⟩
    simp only [List.forall_mem_cons]
    exact ⟨⟨colon_notMem_uriEncode _, mt uriEncode_eq_nil.mp horg⟩,
      ⟨colon_notMem_uriEncode _, mt uriEncode_eq_nil.mp hdocid⟩,
      ⟨colon_notMem_uriEncode _, mt uriEncode_eq_nil.mp hbranch⟩,
      ⟨hqid.colon_notMem, hqid.toList_ne_nil⟩, fun _ h => absurd h List.not_mem_nil⟩

theorem decodeQuarantineName_of_listable (hqid : Uuid qid) (h : Listable prefix_ room) :
    decodeQuarantineName (encodeQuarantineName room prefix_ qid) = .ok (room, qid) := by
  obtain ⟨groups, hexec⟩ :=
    Pattern.exists_exec_of_matches ((matches_encodeQuarantineName hqid).mpr ⟨h, rfl⟩)
  have hgroups :=
    ((matches_encodeQuarantineName hqid).mp (Pattern.matches_of_exec hexec)).2
  rw [hgroups] at hexec
  unfold decodeQuarantineName
  simp only [hexec, uriDecodeOrThrow_uriEncode, String.ofList_toList]
  rfl

theorem decodeQuarantineName_of_not_listable (hqid : Uuid qid) (h : ¬ Listable prefix_ room) :
    decodeQuarantineName (encodeQuarantineName room prefix_ qid) =
      .error ("Malformed quarantine key: " ++ encodeQuarantineName room prefix_ qid) := by
  have hexec : Pattern.exec quarantineItems (encodeQuarantineName room prefix_ qid).toList =
      none := by
    rw [Option.eq_none_iff_forall_ne_some]
    intro groups hexec
    exact h ((matches_encodeQuarantineName hqid).mp (Pattern.matches_of_exec hexec)).1
  unfold decodeQuarantineName
  rw [hexec]

/-! ## The keys of a run -/

/-- What an operation quarantines. -/
theorem quarantined_exec {now : Nat} {o : Op β} {r : Redis (Message β)} {room : Room} {qid : String}
    (h : (o.exec now r).quarantined room qid ≠ none) :
    r.quarantined room qid ≠ none ∨ o = .quarantine room qid := by
  have hroom (room' : Room) : Key.quarantineRoom room qid ≠ Key.room room' := Key.noConfusion
  cases o with
  | addMessage room' m =>
    exact Or.inl fun hnone =>
      h ((addMessage_keys_of_ne now room' r m (hroom room')).trans hnone)
  | trimMessages room' minId maxAgeMs taskid =>
    exact Or.inl fun hnone => h ((trimMessages_keys_of_ne (hroom room')).trans hnone)
  | disableCompaction room' => exact Or.inl h
  | enableCompaction room' =>
    refine Or.inl ?_
    simp only [Op.exec, YHub.enableCompaction] at h
    split at h <;> exact h
  | clearMessages room' =>
    exact Or.inl fun hnone => h ((Redis.set_keys_of_ne (hroom room') _).trans hnone)
  | quarantine room' qid' =>
    by_cases hkey : Key.quarantineRoom room qid = Key.quarantineRoom room' qid'
    · obtain ⟨rfl, rfl⟩ := Key.quarantineRoom.inj hkey
      exact Or.inr rfl
    · exact Or.inl fun hnone =>
        h ((quarantineMulti_keys_of_ne (hroom room') hkey).trans hnone)
  | quarantineCleanup room' =>
    exact Or.inl fun hnone => h ((Redis.set_keys_of_ne (hroom room') _).trans hnone)
  | unquarantine room' qid' entries =>
    refine Or.inl fun hnone => h ?_
    by_cases hkey : Key.quarantineRoom room qid = Key.quarantineRoom room' qid'
    · show (unquarantineMulti now room' qid' entries r).keys (.quarantineRoom room qid) = none
      rw [hkey]
      exact Redis.set_keys_self ..
    · refine (Redis.set_keys_of_ne hkey _).trans ?_
      exact (foldl_addMessage_keys_of_ne (hroom room') _).trans hnone
  | deleteQuarantineStreams room' qids =>
    refine Or.inl fun hnone => h ?_
    simp only [Op.exec, Redis.quarantined, deleteQuarantineStreams_keys]
    split
    · rfl
    · exact hnone

/-- The quarantine keys of a run are those that `quarantine` was called for. -/
theorem quarantined_of_reach {P : Redis (Message β) → Nat → Op β → Prop}
    {Q : Room → String → Prop}
    (hQ : ∀ r now room qid, P r now (.quarantine room qid) → Q room qid) {r : Redis (Message β)}
    (hr : OpReach P r) : ∀ room qid, r.quarantined room qid ≠ none → Q room qid := by
  induction hr with
  | refl => exact fun _ _ h => absurd rfl h
  | tail _ hstep ih =>
    obtain ⟨now, o, hP⟩ := hstep
    intro room qid h
    rcases quarantined_exec h with h | rfl
    · exact ih room qid h
    · exact hQ _ _ _ _ hP

/-! ## The listings -/

theorem afterLastColon_encodeQuarantineName (hqid : Uuid qid) :
    afterLastColon (encodeQuarantineName room prefix_ qid) = qid := by
  have hall : ∀ c ∈ qid.toList.reverse, decide (c ≠ ':') = true := fun c hc =>
    decide_eq_true fun h => hqid.colon_notMem (h ▸ List.mem_reverse.mp hc)
  have hkey : (encodeQuarantineName room prefix_ qid).toList =
      (prefix_.toList ++ ":quarantine_room:".toList ++ (uriEncode room.org).toList ++ ':' ::
        (uriEncode room.docid).toList ++ ':' :: (uriEncode room.branch).toList) ++
          ':' :: qid.toList := by
    rw [toList_encodeQuarantineName]
    simp [quarantineText]
  unfold afterLastColon List.rtakeWhile
  rw [hkey, List.reverse_append, List.reverse_cons, List.append_assoc,
    List.takeWhile_append_of_pos hall, List.singleton_append,
    List.takeWhile_cons_of_neg (by decide), List.append_nil, List.reverse_reverse,
    String.ofList_toList]

variable {glob : List Char → List Char → Prop}

theorem glob_allQuarantinePattern (hglob : Glob.Lawful glob)
    (hmeta : ∀ c ∈ prefix_.toList, Glob.isMeta c = false) (k : List Char) :
    glob (allQuarantinePattern prefix_).toList k ↔
      (prefix_ ++ ":quarantine_room:").toList <+: k := by
  have hkind : ∀ c ∈ ":quarantine_room:".toList, Glob.isMeta c = false :=
    forall_mem_of_all (by decide)
  refine glob_append_star hglob ?_ k
  rw [String.toList_append]
  exact List.forall_mem_append.mpr ⟨hmeta, hkind⟩

/-- A quarantine key begins with the text that all of them begin with. -/
theorem allQuarantine_begins (room : Room) (prefix_ qid : String) :
    (prefix_ ++ ":quarantine_room:").toList <+:
      (encodeQuarantineName room prefix_ qid).toList := by
  rw [toList_encodeQuarantineName_eq, String.toList_append, List.prefix_append_right_inj]
  exact List.prefix_append _ _

section Listings

variable {r : Redis μ} {keys : Finset String} {batches : List (List String)}

/-- What the scan of all rooms finds. -/
theorem mem_scan_all (hglob : Glob.Lawful glob)
    (hmeta : ∀ c ∈ prefix_.toList, Glob.isMeta c = false) (hkeys : Keyspace prefix_ r keys)
    (hscan : Scans glob keys (allQuarantinePattern prefix_) batches) (k : String) :
    k ∈ batches.flatten ↔
      ∃ room qid, r.quarantined room qid ≠ none ∧ k = encodeQuarantineName room prefix_ qid := by
  rw [hscan, glob_allQuarantinePattern hglob hmeta]
  constructor
  · rintro ⟨hk, hbegins⟩
    exact hkeys.eq_of_prefix k hk hbegins
  · rintro ⟨room, qid, h, rfl⟩
    exact ⟨hkeys.quarantined room qid h, allQuarantine_begins room prefix_ qid⟩

/-- What the scan of a room finds. -/
theorem mem_scan_room (hglob : Glob.Lawful glob)
    (hmeta : ∀ c ∈ prefix_.toList, Glob.isMeta c = false) (hkeys : Keyspace prefix_ r keys)
    (hscan : Scans glob keys (quarantinePattern prefix_ room) batches) (k : String) :
    k ∈ batches.flatten ↔
      ∃ qid, r.quarantined room qid ≠ none ∧ k = encodeQuarantineName room prefix_ qid := by
  rw [hscan, glob_quarantinePattern hglob hmeta]
  constructor
  · rintro ⟨hk, hbegins⟩
    obtain ⟨room', qid, h, rfl⟩ :=
      hkeys.eq_of_prefix k hk ((allQuarantine_begins room prefix_ "").trans hbegins)
    obtain rfl := (KeyOf.quarantine qid).room_eq_of_quarantine hbegins
    exact ⟨qid, h, rfl⟩
  · rintro ⟨qid, h, rfl⟩
    exact ⟨hkeys.quarantined room qid h, prefix_encodeQuarantineName room prefix_ qid⟩

/-- `getQuarantineStreams` returns the qids of the room. -/
theorem mem_getQuarantineStreams (hglob : Glob.Lawful glob)
    (hmeta : ∀ c ∈ prefix_.toList, Glob.isMeta c = false) (hkeys : Keyspace prefix_ r keys)
    (huuid : ∀ room qid, r.quarantined room qid ≠ none → Uuid qid)
    (hscan : Scans glob keys (quarantinePattern prefix_ room) batches) :
    qid ∈ getQuarantineStreams batches ↔ r.quarantined room qid ≠ none := by
  unfold getQuarantineStreams
  rw [List.mem_map]
  constructor
  · rintro ⟨k, hk, rfl⟩
    obtain ⟨qid, h, rfl⟩ := (mem_scan_room hglob hmeta hkeys hscan k).mp hk
    rwa [afterLastColon_encodeQuarantineName (huuid room qid h)]
  · intro h
    exact ⟨_, (mem_scan_room hglob hmeta hkeys hscan _).mpr ⟨qid, h, rfl⟩,
      afterLastColon_encodeQuarantineName (huuid room qid h)⟩

/-- `getAllQuarantineStreams` returns what is quarantined if each key matches. -/
theorem mem_getAllQuarantineStreams (hglob : Glob.Lawful glob)
    (hmeta : ∀ c ∈ prefix_.toList, Glob.isMeta c = false) (hkeys : Keyspace prefix_ r keys)
    (huuid : ∀ room qid, r.quarantined room qid ≠ none → Uuid qid)
    (hscan : Scans glob keys (allQuarantinePattern prefix_) batches)
    (hlist : ∀ room qid, r.quarantined room qid ≠ none → Listable prefix_ room) :
    ∃ res, getAllQuarantineStreams batches = .ok res ∧
      ∀ room qid, (room, qid) ∈ res ↔ r.quarantined room qid ≠ none := by
  have hdecode (room : Room) (qid : String) (h : r.quarantined room qid ≠ none) :
      decodeQuarantineName (encodeQuarantineName room prefix_ qid) = .ok (room, qid) :=
    decodeQuarantineName_of_listable (huuid room qid h) (hlist room qid h)
  have hall : ∀ k ∈ batches.flatten, ∃ pair, decodeQuarantineName k = .ok pair := by
    intro k hk
    obtain ⟨room, qid, h, rfl⟩ := (mem_scan_all hglob hmeta hkeys hscan k).mp hk
    exact ⟨_, hdecode room qid h⟩
  obtain ⟨res, hres, hmem⟩ := Outcome.exists_mapM_eq_ok hall
  refine ⟨res, hres, fun room qid => (hmem _).trans ?_⟩
  constructor
  · rintro ⟨k, hk, hpair⟩
    obtain ⟨room', qid', h, rfl⟩ := (mem_scan_all hglob hmeta hkeys hscan k).mp hk
    rw [hdecode room' qid' h, Except.ok.injEq, Prod.mk.injEq] at hpair
    obtain ⟨rfl, rfl⟩ := hpair
    exact h
  · intro h
    exact ⟨_, (mem_scan_all hglob hmeta hkeys hscan _).mpr ⟨room, qid, h, rfl⟩,
      hdecode room qid h⟩

/-- One key that does not match fails the listing of all rooms. -/
theorem getAllQuarantineStreams_eq_error (hglob : Glob.Lawful glob)
    (hmeta : ∀ c ∈ prefix_.toList, Glob.isMeta c = false) (hkeys : Keyspace prefix_ r keys)
    (hscan : Scans glob keys (allQuarantinePattern prefix_) batches) (hqid : Uuid qid)
    (h : r.quarantined room qid ≠ none) (hlist : ¬ Listable prefix_ room) :
    ∃ message, getAllQuarantineStreams batches = .error message :=
  Outcome.exists_mapM_eq_error ((mem_scan_all hglob hmeta hkeys hscan _).mpr ⟨room, qid, h, rfl⟩)
    (decodeQuarantineName_of_not_listable hqid hlist)

end Listings

/-! ## A run -/

/-- A room gets a message and is quarantined. -/
def quarantineOne (x : Room × String) (r : Redis (Message Unit)) : Redis (Message Unit) :=
  (Op.quarantine x.1 x.2).exec 0 ((Op.addMessage x.1 (.awareness ())).exec 0 r)

theorem quarantined_quarantineOne {x : Room × String} {r : Redis (Message Unit)} {room : Room}
    {qid : String} : (quarantineOne x r).quarantined room qid ≠ none ↔
      r.quarantined room qid ≠ none ∨ (room, qid) = x := by
  obtain ⟨room', qid'⟩ := x
  have hnew : (quarantineOne (room', qid') r).quarantined room' qid' ≠ none := by
    have hlive : (addMessage 0 room' (Message.awareness ()) r).live room' ≠ none := by simp
    show (quarantineMulti 0 room' qid' _).1.quarantined room' qid' ≠ none
    rw [quarantined_quarantineMulti, if_pos ⟨rfl, hlive⟩]
    exact hlive
  constructor
  · intro h
    rcases quarantined_exec h with h | h
    · rcases quarantined_exec h with h | h
      · exact Or.inl h
      · cases h
    · obtain ⟨rfl, rfl⟩ := Op.quarantine.inj h
      exact Or.inr rfl
  · rintro (h | ⟨rfl, rfl⟩)
    · by_cases hkey : Key.quarantineRoom room qid = Key.quarantineRoom room' qid'
      · obtain ⟨rfl, rfl⟩ := Key.quarantineRoom.inj hkey
        exact hnew
      · intro hnone
        refine h (Eq.trans ?_ hnone)
        exact ((quarantineMulti_keys_of_ne Key.noConfusion hkey).trans
          (addMessage_keys_of_ne 0 room' r _ Key.noConfusion)).symm
    · exact hnew

/-- Rooms are quarantined one after the other. -/
def quarantineEach (xs : List (Room × String)) : Redis (Message Unit) :=
  xs.foldl (fun r x => quarantineOne x r) Redis.empty

theorem quarantined_quarantineEach {xs : List (Room × String)} {room : Room} {qid : String} :
    (quarantineEach xs).quarantined room qid ≠ none ↔ (room, qid) ∈ xs := by
  induction xs using List.reverseRecOn with
  | nil => simp [quarantineEach, Redis.quarantined, Redis.empty]
  | append_singleton xs x ih =>
    unfold quarantineEach at ih ⊢
    rw [List.foldl_append, List.foldl_cons, List.foldl_nil, quarantined_quarantineOne, ih,
      List.mem_append, List.mem_singleton]

theorem quarantineEach_reach {xs : List (Room × String)} (hxs : ∀ x ∈ xs, Uuid x.2) :
    OpReach (fun _ _ o => ∀ room qid, o = .quarantine room qid → Uuid qid)
      (quarantineEach xs) := by
  induction xs using List.reverseRecOn with
  | nil => exact Relation.ReflTransGen.refl
  | append_singleton xs x ih =>
    obtain ⟨hxs, hx⟩ := List.forall_mem_append.mp hxs
    have hquarantine : ∀ room qid, (.quarantine x.1 x.2 : Op Unit) = .quarantine room qid →
        Uuid qid := by
      rintro room qid h
      obtain ⟨rfl, rfl⟩ := Op.quarantine.inj h
      exact hx x List.mem_cons_self
    have hmessage : ∀ room qid, Op.addMessage x.1 (.awareness ()) = .quarantine room qid →
        Uuid qid := fun _ _ h => nomatch h
    unfold quarantineEach at ih ⊢
    rw [List.foldl_append]
    exact ((ih hxs).op hmessage).op hquarantine

/-- The keys of these rooms. -/
def quarantineNames (prefix_ : String) (xs : List (Room × String)) : List String :=
  xs.map fun x => encodeQuarantineName x.1 prefix_ x.2

theorem keyspace_quarantineNames (prefix_ : String) (xs : List (Room × String)) :
    Keyspace prefix_ (quarantineEach xs) (quarantineNames prefix_ xs).toFinset where
  quarantined room qid h :=
    List.mem_toFinset.mpr (List.mem_map.mpr ⟨_, quarantined_quarantineEach.mp h, rfl⟩)
  eq_of_prefix k hk _ := by
    obtain ⟨⟨room, qid⟩, hx, rfl⟩ := List.mem_map.mp (List.mem_toFinset.mp hk)
    exact ⟨room, qid, quarantined_quarantineEach.mpr hx, rfl⟩

/-- A document, on the empty branch and on `main`. -/
def draft : Room × String := (⟨"o", "d", ""⟩, "3f1c2b7e-8a4d-4c55-9e0f-6d2a1b3c4d5e")

def published : Room × String := (⟨"o", "d", "main"⟩, "9b7d1a40-52f6-4e0b-8c3d-0a1e2f3b4c5d")

theorem uuid_draft : Uuid draft.2 := ⟨by decide, forall_mem_of_all (by decide)⟩

theorem uuid_published : Uuid published.2 := ⟨by decide, forall_mem_of_all (by decide)⟩

/-- A scan in one batch. -/
def scanBatch (keys : List String) (pattern : String) : List (List String) :=
  [keys.filter fun k => Glob.matchTokens (Glob.parse none pattern.toList) k.toList]

theorem scans_scanBatch (keys : List String) (pattern : String) :
    Scans Glob.matchGlob keys.toFinset pattern (scanBatch keys pattern) := by
  intro k
  unfold scanBatch
  rw [List.flatten_singleton, List.mem_filter, List.mem_toFinset]
  rfl

/-- **The listings are exact if and only if each quarantined room can be listed**, in every state of
a run: those of all rooms, and those of each room. -/
theorem quarantine_listing_iff (hglob : Glob.Lawful glob)
    (hmeta : ∀ c ∈ prefix_.toList, Glob.isMeta c = false) {r : Redis (Message β)}
    (hr : OpReach (fun _ _ o => ∀ room qid, o = .quarantine room qid → Uuid qid) r)
    {keys : Finset String} (hkeys : Keyspace prefix_ r keys) {all : List (List String)}
    (hall : Scans glob keys (allQuarantinePattern prefix_) all)
    {each : Room → List (List String)}
    (heach : ∀ room, Scans glob keys (quarantinePattern prefix_ room) (each room)) :
    ((∃ res, getAllQuarantineStreams all = .ok res ∧
        ∀ room qid, (room, qid) ∈ res ↔ r.quarantined room qid ≠ none) ∧
      ∀ room qid, qid ∈ getQuarantineStreams (each room) ↔ r.quarantined room qid ≠ none) ↔
    ∀ room qid, r.quarantined room qid ≠ none → Listable prefix_ room := by
  have huuid : ∀ room qid, r.quarantined room qid ≠ none → Uuid qid :=
    quarantined_of_reach (fun _ _ room qid h => h room qid rfl) hr
  constructor
  · rintro ⟨⟨res, hres, -⟩, -⟩ room qid h
    by_contra hlist
    obtain ⟨message, herror⟩ :=
      getAllQuarantineStreams_eq_error hglob hmeta hkeys hall (huuid room qid h) h hlist
    cases hres.symm.trans herror
  · intro hlist
    exact ⟨mem_getAllQuarantineStreams hglob hmeta hkeys huuid hall hlist,
      fun room qid => mem_getQuarantineStreams hglob hmeta hkeys huuid (heach room)⟩

/-- A room with a branch. -/
theorem quarantine_listing_of_published :
    ∃ res, getAllQuarantineStreams
        (scanBatch (quarantineNames "yhub" [published]) (allQuarantinePattern "yhub")) = .ok res ∧
      ∀ room qid, (room, qid) ∈ res ↔
        (quarantineEach [published]).quarantined room qid ≠ none := by
  have huuid : ∀ x ∈ [published], Uuid x.2 := List.forall_mem_singleton.mpr uuid_published
  refine ((quarantine_listing_iff Glob.lawful_matchGlob isMeta_yhub (quarantineEach_reach huuid)
    (keyspace_quarantineNames "yhub" [published]) (scans_scanBatch _ _)
    fun room => scans_scanBatch _ _).mpr fun room qid h => ?_).1
  have hx := List.mem_singleton.mp (quarantined_quarantineEach.mp h)
  rw [show room = published.1 from congrArg Prod.fst hx]
  exact ⟨by decide, by decide, by decide, forall_mem_of_all (by decide)⟩

/-- The scan of the redis of a run, in one batch. -/
theorem scans_quarantineNames {xs : List (Room × String)} :
    Scans Glob.matchGlob (quarantineNames "yhub" xs).toFinset (allQuarantinePattern "yhub")
      [quarantineNames "yhub" xs] := by
  intro k
  rw [glob_allQuarantinePattern Glob.lawful_matchGlob isMeta_yhub, List.flatten_singleton,
    List.mem_toFinset, iff_self_and]
  intro hk
  obtain ⟨x, -, rfl⟩ := List.mem_map.mp hk
  exact allQuarantine_begins x.1 "yhub" x.2

/-- What is quarantined on the branch `main` cannot be listed, for a key of another branch. -/
theorem empty_branch_not_listed :
    OpReach (fun _ _ o => ∀ room qid, o = .quarantine room qid → Uuid qid)
      (quarantineEach [draft, published]) ∧
    Keyspace "yhub" (quarantineEach [draft, published])
      (quarantineNames "yhub" [draft, published]).toFinset ∧
    Scans Glob.matchGlob (quarantineNames "yhub" [draft, published]).toFinset
      (allQuarantinePattern "yhub") [quarantineNames "yhub" [draft, published]] ∧
    (quarantineEach [draft, published]).quarantined published.1 published.2 ≠ none ∧
    getAllQuarantineStreams [quarantineNames "yhub" [draft, published]] = .error
      ("Malformed quarantine key: " ++
        "yhub:quarantine_room:o:d::3f1c2b7e-8a4d-4c55-9e0f-6d2a1b3c4d5e") := by
  have hdraft : ¬ Listable "yhub" draft.1 := fun h => h.2.2.1 rfl
  have hname : encodeQuarantineName draft.1 "yhub" draft.2 =
      "yhub:quarantine_room:o:d::3f1c2b7e-8a4d-4c55-9e0f-6d2a1b3c4d5e" := by decide
  have herror := decodeQuarantineName_of_not_listable uuid_draft hdraft
  have huuid : ∀ x ∈ [draft, published], Uuid x.2 :=
    List.forall_mem_cons.mpr ⟨uuid_draft, List.forall_mem_singleton.mpr uuid_published⟩
  refine ⟨quarantineEach_reach huuid, keyspace_quarantineNames _ _,
    scans_quarantineNames, quarantined_quarantineEach.mpr (by decide), ?_⟩
  rw [hname] at herror
  unfold getAllQuarantineStreams quarantineNames
  rw [List.flatten_singleton, List.map_cons, List.mapM_cons, hname, herror]
  rfl

end YHub
