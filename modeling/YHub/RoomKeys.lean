import YHub.Types
import YHub.UriComponents
import YHub.Lib.Pattern
import YHub.Lib.Strings

/-!
# The keys of rooms (`stream.js:40-77`)

The stream of a room is stored under `encodeRoomName`, and a stream that is quarantined under
`encodeQuarantineName`. `decodeRoomName` matches a key against `^(.*):room:(.*):(.*):(.*?)$`, where
`.` is anything but a line terminator, and compares the first text with the prefix.

* `room_keys`: the key of a room decodes to the room, the key of a room of another prefix does not
  decode, and neither does a quarantine key, unless its prefix reads like a room of the prefix or
  the prefix like the quarantine of its prefix.
* `quarantine_key_decodes`: such a prefix.
-/

namespace YHub

def encodeRoomName (room : Room) (prefix_ : String) : String :=
  prefix_ ++ ":room:" ++ uriEncode room.org ++ ":" ++ uriEncode room.docid ++ ":" ++
    uriEncode room.branch

def encodeQuarantineName (room : Room) (prefix_ qid : String) : String :=
  prefix_ ++ ":quarantine_room:" ++ uriEncode room.org ++ ":" ++ uriEncode room.docid ++ ":" ++
    uriEncode room.branch ++ ":" ++ qid

/-- `.` matches the character. -/
def notLineTerminator (c : Char) : Bool := c ∉ ['\n', '\r', '\u2028', '\u2029']

/-- `/^(.*):room:(.*):(.*):(.*?)$/` -/
def roomPattern : List Pattern.Item :=
  .rep true 0 notLineTerminator :: Pattern.literal ":room:" ++
    .rep true 0 notLineTerminator :: Pattern.literal ":" ++
    .rep true 0 notLineTerminator :: Pattern.literal ":" ++
    [.rep false 0 notLineTerminator]

/-- The error of `decodeRoomName`. -/
def malformedStreamName (match1 expectedPrefix rediskey : String) : String :=
  "Malformed stream name! prefix=\"" ++ match1 ++ "\" expectedPrefix=\"" ++ expectedPrefix ++
    "\", rediskey=\"" ++ rediskey ++ "\""

/-- `uriDecode`, which throws. -/
def uriDecodeOrThrow (chars : List Char) : Except String String :=
  match uriDecode (String.ofList chars) with
  | some s => .ok s
  | none => .error "URI malformed"

def decodeRoomName (rediskey expectedPrefix : String) : Except String Room :=
  match Pattern.exec roomPattern rediskey.toList with
  | some [m1, m2, m3, m4] =>
    if String.ofList m1 = expectedPrefix then do
      return ⟨← uriDecodeOrThrow m2, ← uriDecodeOrThrow m3, ← uriDecodeOrThrow m4⟩
    else .error (malformedStreamName (String.ofList m1) expectedPrefix rediskey)
  | _ => .error (malformedStreamName "undefined" expectedPrefix rediskey)

/-! ## What matches -/

/-- The text of a room key with these parts. -/
def roomText (m1 m2 m3 m4 : List Char) : List Char :=
  m1 ++ ":room:".toList ++ m2 ++ ':' :: m3 ++ ':' :: m4

/-- The text of a quarantine key with these parts. -/
def quarantineText (m1 m2 m3 m4 qid : List Char) : List Char :=
  m1 ++ ":quarantine_room:".toList ++ m2 ++ ':' :: m3 ++ ':' :: m4 ++ ':' :: qid

theorem toList_encodeRoomName (room : Room) (prefix_ : String) :
    (encodeRoomName room prefix_).toList =
      roomText prefix_.toList (uriEncode room.org).toList (uriEncode room.docid).toList
        (uriEncode room.branch).toList := by
  unfold encodeRoomName roomText
  simp [String.toList_append]

theorem toList_encodeQuarantineName (room : Room) (prefix_ qid : String) :
    (encodeQuarantineName room prefix_ qid).toList =
      quarantineText prefix_.toList (uriEncode room.org).toList (uriEncode room.docid).toList
        (uriEncode room.branch).toList qid.toList := by
  unfold encodeQuarantineName quarantineText
  simp [String.toList_append]

theorem matches_roomPattern {text : List Char} {groups : List (List Char)} :
    Pattern.Matches roomPattern text groups ↔
      ∃ m1 m2 m3 m4, groups = [m1, m2, m3, m4] ∧ text = roomText m1 m2 m3 m4 ∧
        ∀ m ∈ groups, ∀ c ∈ m, notLineTerminator c = true := by
  unfold roomPattern
  simp only [List.cons_append, List.append_assoc, Pattern.matches_rep_iff,
    Pattern.matches_literal_iff, Pattern.matches_nil_iff]
  constructor
  · rintro ⟨m1, _, _, rfl, rfl, h1, -, _, rfl, m2, _, _, rfl, rfl, h2, -, _, rfl, m3, _, _, rfl,
      rfl, h3, -, _, rfl, m4, _, _, rfl, rfl, h4, -, rfl, rfl⟩
    refine ⟨m1, m2, m3, m4, rfl, by simp [roomText], ?_⟩
    simp only [List.forall_mem_cons]
    exact ⟨h1, h2, h3, h4, fun _ h => absurd h List.not_mem_nil⟩
  · rintro ⟨m1, m2, m3, m4, rfl, rfl, hdot⟩
    simp only [List.forall_mem_cons] at hdot
    obtain ⟨h1, h2, h3, h4, -⟩ := hdot
    exact ⟨m1, _, _, by simp [roomText], rfl, h1, Nat.zero_le _, _, rfl, m2, _, _, rfl, rfl, h2,
      Nat.zero_le _, _, rfl, m3, _, _, rfl, rfl, h3, Nat.zero_le _, _, rfl, m4, _, _,
      (List.append_nil m4).symm, rfl, h4, Nat.zero_le _, rfl, rfl⟩

/-! ## The parts between colons -/

theorem colon_notMem_uriEncode (str : String) : ':' ∉ (uriEncode str).toList :=
  fun h => absurd (uriSafe_of_mem h) (by decide)

theorem notLineTerminator_of_uriSafe {c : Char} (h : uriSafe c = true) :
    notLineTerminator c = true := by
  refine decide_eq_true fun hmem => ?_
  have hall : ∀ d ∈ ['\n', '\r', '\u2028', '\u2029'], uriSafe d = false :=
    forall_mem_of_all (by decide)
  exact absurd ((hall c hmem).symm.trans h) Bool.false_ne_true

/-- The parts after the prefix of a text that matches. -/
theorem splitOn_roomText (d m2 m3 m4 : List Char) :
    (roomText d m2 m3 m4).splitOn ':' =
      d.splitOn ':' ++ "room".toList :: (m2.splitOn ':' ++ (m3.splitOn ':' ++ m4.splitOn ':')) := by
  have htext : roomText d m2 m3 m4 =
      d ++ ':' :: ("room".toList ++ ':' :: (m2 ++ ':' :: (m3 ++ ':' :: m4))) := by
    simp [roomText]
  have hroom : "room".toList.splitOn ':' = ["room".toList] := by decide
  rw [htext]
  simp only [List.splitOn_append_cons_self, hroom, List.singleton_append]

theorem splitOn_quarantineText (d m2 m3 m4 qid : List Char) :
    (quarantineText d m2 m3 m4 qid).splitOn ':' =
      d.splitOn ':' ++ "quarantine_room".toList ::
        (m2.splitOn ':' ++ (m3.splitOn ':' ++ (m4.splitOn ':' ++ qid.splitOn ':'))) := by
  have htext : quarantineText d m2 m3 m4 qid =
      d ++ ':' :: ("quarantine_room".toList ++
        ':' :: (m2 ++ ':' :: (m3 ++ ':' :: (m4 ++ ':' :: qid)))) := by
    simp [quarantineText]
  have hroom : "quarantine_room".toList.splitOn ':' = ["quarantine_room".toList] := by decide
  rw [htext]
  simp only [List.splitOn_append_cons_self, hroom, List.singleton_append]

theorem length_splitOn_pos (l : List Char) : 0 < (l.splitOn ':').length :=
  List.length_pos_of_ne_nil (List.splitOn_ne_nil ':' l)

/-- A text with one part is this part. -/
theorem splitOn_eq_of_length {l : List Char} (h : (l.splitOn ':').length = 1) :
    l.splitOn ':' = [l] := by
  obtain ⟨part, hpart⟩ := List.length_eq_one_iff.mp h
  have hl : [':'].intercalate (l.splitOn ':') = l := List.intercalate_splitOn ':'
  rw [hpart] at hl ⊢
  exact congrArg (fun l => [l]) (by simpa using hl)

/-- Three texts that have three parts together. -/
theorem eq_of_splitOn_append {a b c x y z : List Char}
    (h : a.splitOn ':' ++ (b.splitOn ':' ++ c.splitOn ':') = [x, y, z]) :
    a = x ∧ b = y ∧ c = z := by
  have hlen := congrArg List.length h
  simp only [List.length_append, List.length_cons, List.length_nil] at hlen
  have ha := length_splitOn_pos a
  have hb := length_splitOn_pos b
  have hc := length_splitOn_pos c
  rw [splitOn_eq_of_length (l := a) (by omega), splitOn_eq_of_length (l := b) (by omega),
    splitOn_eq_of_length (l := c) (by omega)] at h
  simpa using h

theorem roomText_append (m d m2 m3 m4 : List Char) :
    roomText (m ++ d) m2 m3 m4 = m ++ roomText d m2 m3 m4 := by
  simp [roomText]

theorem quarantineText_append (m d m2 m3 m4 qid : List Char) :
    quarantineText (m ++ d) m2 m3 m4 qid = m ++ quarantineText d m2 m3 m4 qid := by
  simp [quarantineText]

theorem roomText_eq (m m2 m3 m4 : List Char) : roomText m m2 m3 m4 = m ++ roomText [] m2 m3 m4 := by
  simp [roomText]

theorem quarantineText_eq (m m2 m3 m4 qid : List Char) :
    quarantineText m m2 m3 m4 qid = m ++ quarantineText [] m2 m3 m4 qid := by
  simp [quarantineText]

/-- There is one way to read the text of a room key without shortening its prefix. -/
theorem roomText_inj {m1 a b c g1 g2 g3 g4 : List Char} (ha : ':' ∉ a) (hb : ':' ∉ b)
    (hc : ':' ∉ c) (h : roomText m1 a b c = roomText g1 g2 g3 g4) (hlen : m1.length ≤ g1.length) :
    g1 = m1 ∧ g2 = a ∧ g3 = b ∧ g4 = c := by
  have hm1 : m1 <+: roomText m1 a b c := ⟨_, (roomText_eq m1 a b c).symm⟩
  have hg1 : g1 <+: roomText m1 a b c := ⟨_, h ▸ (roomText_eq g1 g2 g3 g4).symm⟩
  obtain ⟨d, rfl⟩ := List.prefix_of_prefix_length_le hm1 hg1 hlen
  have hrest : roomText [] a b c = roomText d g2 g3 g4 := by
    rw [roomText_append, roomText_eq m1] at h
    exact List.append_cancel_left h
  have hparts := congrArg (List.splitOn ':') hrest
  rw [splitOn_roomText, splitOn_roomText, List.splitOn_eq_singleton ha,
    List.splitOn_eq_singleton hb, List.splitOn_eq_singleton hc, List.splitOn_nil] at hparts
  have hlen := congrArg List.length hparts
  simp only [List.length_append, List.length_cons, List.length_nil] at hlen
  have hd := length_splitOn_pos d
  have h2 := length_splitOn_pos g2
  have h3 := length_splitOn_pos g3
  have h4 := length_splitOn_pos g4
  rw [splitOn_eq_of_length (l := d) (by omega)] at hparts
  simp only [List.singleton_append, List.cons.injEq, true_and] at hparts
  obtain ⟨rfl, hparts⟩ := hparts
  exact ⟨List.append_nil m1, eq_of_splitOn_append hparts.symm⟩

/-! ## Decoding -/

/-- **The match of a room key.** -/
theorem exec_roomText {m1 a b c : List Char} (hm1 : ∀ d ∈ m1, notLineTerminator d = true)
    (ha : ∀ d ∈ a, uriSafe d = true) (hb : ∀ d ∈ b, uriSafe d = true)
    (hc : ∀ d ∈ c, uriSafe d = true) :
    Pattern.exec roomPattern (roomText m1 a b c) = some [m1, a, b, c] := by
  have hcolon {l : List Char} (hl : ∀ d ∈ l, uriSafe d = true) : ':' ∉ l :=
    fun h => absurd (hl ':' h) (by decide)
  have hmatch : Pattern.Matches roomPattern (roomText m1 a b c) [m1, a, b, c] := by
    refine matches_roomPattern.mpr ⟨m1, a, b, c, rfl, rfl, ?_⟩
    simp only [List.forall_mem_cons]
    exact ⟨hm1, fun d hd => notLineTerminator_of_uriSafe (ha d hd),
      fun d hd => notLineTerminator_of_uriSafe (hb d hd),
      fun d hd => notLineTerminator_of_uriSafe (hc d hd), fun _ h => absurd h List.not_mem_nil⟩
  obtain ⟨groups, hexec⟩ := Pattern.exists_exec_of_matches hmatch
  obtain ⟨g1, g2, g3, g4, rfl, htext, -⟩ :=
    matches_roomPattern.mp (Pattern.matches_of_exec hexec)
  have hlen : m1.length ≤ g1.length := Pattern.length_le_of_exec hexec hmatch
  obtain ⟨rfl, rfl, rfl, rfl⟩ := roomText_inj (hcolon ha) (hcolon hb) (hcolon hc) htext hlen
  exact hexec

/-- Another prefix is an error. -/
theorem decodeRoomName_eq_error {rediskey expectedPrefix : String}
    (h : ∀ m2 m3 m4,
      Pattern.exec roomPattern rediskey.toList ≠ some [expectedPrefix.toList, m2, m3, m4]) :
    ∃ message, decodeRoomName rediskey expectedPrefix = .error message := by
  unfold decodeRoomName
  split
  · rename_i m1 m2 m3 m4 hexec
    refine ⟨_, if_neg ?_⟩
    rintro rfl
    rw [String.toList_ofList] at h
    exact h m2 m3 m4 hexec
  · exact ⟨_, rfl⟩

theorem uriDecodeOrThrow_uriEncode (str : String) :
    uriDecodeOrThrow (uriEncode str).toList = .ok str := by
  unfold uriDecodeOrThrow
  rw [String.ofList_toList, uriDecode_uriEncode]

theorem exec_encodeRoomName {prefix_ : String}
    (hdots : ∀ c ∈ prefix_.toList, notLineTerminator c = true) (room : Room) :
    Pattern.exec roomPattern (encodeRoomName room prefix_).toList =
      some [prefix_.toList, (uriEncode room.org).toList, (uriEncode room.docid).toList,
        (uriEncode room.branch).toList] := by
  rw [toList_encodeRoomName]
  exact exec_roomText hdots (fun _ => uriSafe_of_mem) (fun _ => uriSafe_of_mem)
    fun _ => uriSafe_of_mem

theorem decodeRoomName_encodeRoomName {prefix_ : String}
    (hdots : ∀ c ∈ prefix_.toList, notLineTerminator c = true) (room : Room) :
    decodeRoomName (encodeRoomName room prefix_) prefix_ = .ok room := by
  unfold decodeRoomName
  simp only [exec_encodeRoomName hdots, String.ofList_toList, if_true,
    uriDecodeOrThrow_uriEncode]
  rfl

/-- A text that matches has no line terminators. -/
theorem notLineTerminator_of_matches {text : List Char} {groups : List (List Char)}
    (h : Pattern.Matches roomPattern text groups) : ∀ c ∈ text, notLineTerminator c = true := by
  obtain ⟨m1, m2, m3, m4, rfl, rfl, hdot⟩ := matches_roomPattern.mp h
  simp only [List.forall_mem_cons] at hdot
  obtain ⟨h1, h2, h3, h4, -⟩ := hdot
  have hcolon : notLineTerminator ':' = true := by decide
  have hroom : ∀ c ∈ ":room:".toList, notLineTerminator c = true :=
    forall_mem_of_all (by decide)
  unfold roomText
  simp only [List.forall_mem_append, List.forall_mem_cons]
  exact ⟨⟨⟨⟨h1, hroom⟩, h2⟩, hcolon, h3⟩, hcolon, h4⟩

/-- A room key of another prefix. -/
theorem decodeRoomName_of_ne {prefix_ prefix' : String} (hne : prefix' ≠ prefix_) (room : Room) :
    ∃ message, decodeRoomName (encodeRoomName room prefix') prefix_ = .error message := by
  refine decodeRoomName_eq_error fun m2 m3 m4 hexec => ?_
  have hdot := notLineTerminator_of_matches (Pattern.matches_of_exec hexec)
  have hdots : ∀ c ∈ prefix'.toList, notLineTerminator c = true := by
    intro c hc
    refine hdot c ?_
    rw [toList_encodeRoomName, roomText_eq]
    exact List.mem_append_left _ hc
  rw [exec_encodeRoomName hdots] at hexec
  exact hne (String.toList_inj.mp (List.cons.inj (Option.some.inj hexec)).1)

/-! ## Quarantine keys -/

/-- A quarantine key of the prefix `prefix'` can read like a room key of `prefix_`: its prefix
begins like a room key, or its prefix with `:quarantine_room` is `prefix_` and its organisation is
`room`. -/
def ReadsAsRoom (prefix_ prefix' : String) (room : Room) : Prop :=
  prefix' = prefix_ ++ ":room" ∨ (prefix_ ++ ":room:").toList <+: prefix'.toList ∨
    prefix_ = prefix' ++ ":quarantine_room" ∧ room.org = "room"

/-- What a room key can have between the prefix of a quarantine key and `:room:`. -/
theorem of_quarantineText_nil_eq {a b c qid d g2 g3 g4 : List Char} (ha : ':' ∉ a) (hb : ':' ∉ b)
    (hc : ':' ∉ c) (hqid : ':' ∉ qid) (h : quarantineText [] a b c qid = roomText d g2 g3 g4) :
    d = ":quarantine_room".toList ∧ a = "room".toList := by
  have hparts := congrArg (List.splitOn ':') h
  rw [splitOn_quarantineText, splitOn_roomText, List.splitOn_eq_singleton ha,
    List.splitOn_eq_singleton hb, List.splitOn_eq_singleton hc, List.splitOn_eq_singleton hqid,
    List.splitOn_nil] at hparts
  have hd : [':'].intercalate (d.splitOn ':') = d := List.intercalate_splitOn ':'
  rcases hsplit : d.splitOn ':' with _ | ⟨x, _ | ⟨y, _ | ⟨z, rest⟩⟩⟩
  · exact absurd hsplit (List.splitOn_ne_nil ':' d)
  · rw [hsplit] at hparts
    exact absurd (List.cons.inj (List.cons.inj hparts).2).1 (by decide)
  · rw [hsplit] at hparts hd
    simp only [List.cons_append, List.nil_append, List.cons.injEq] at hparts
    obtain ⟨rfl, rfl, rfl, -⟩ := hparts
    exact ⟨by rw [← hd]; simp, rfl⟩
  · -- there are too few parts for three
    have h2 := length_splitOn_pos g2
    have h3 := length_splitOn_pos g3
    have h4 := length_splitOn_pos g4
    rw [hsplit] at hparts
    have hlen := congrArg List.length hparts
    simp only [List.length_append, List.length_cons, List.length_nil] at hlen
    omega

/-- What a quarantine key can have between the prefix of a room key and `:quarantine_room:`. -/
theorem of_eq_roomText_nil {a b c qid d g2 g3 g4 : List Char}
    (h : quarantineText d a b c qid = roomText [] g2 g3 g4) :
    d = ":room".toList ∨ ":room:".toList <+: d := by
  have hparts := congrArg (List.splitOn ':') h
  rw [splitOn_quarantineText, splitOn_roomText, List.splitOn_nil] at hparts
  have hd : [':'].intercalate (d.splitOn ':') = d := List.intercalate_splitOn ':'
  rcases hsplit : d.splitOn ':' with _ | ⟨x, _ | ⟨y, rest⟩⟩
  · exact absurd hsplit (List.splitOn_ne_nil ':' d)
  · rw [hsplit] at hparts
    exact absurd (List.cons.inj (List.cons.inj hparts).2).1 (by decide)
  · rw [hsplit] at hparts hd
    simp only [List.cons_append, List.nil_append, List.cons.injEq] at hparts
    obtain ⟨rfl, rfl, -⟩ := hparts
    cases rest with
    | nil => exact Or.inl (by rw [← hd]; simp)
    | cons z rest =>
      refine Or.inr ?_
      rw [← hd]
      exact ⟨[':'].intercalate (z :: rest), by simp⟩

theorem of_quarantineText_eq_roomText {p a b c qid g1 g2 g3 g4 : List Char} (ha : ':' ∉ a)
    (hb : ':' ∉ b) (hc : ':' ∉ c) (hqid : ':' ∉ qid)
    (h : quarantineText p a b c qid = roomText g1 g2 g3 g4) :
    p = g1 ++ ":room".toList ∨ g1 ++ ":room:".toList <+: p ∨
      g1 = p ++ ":quarantine_room".toList ∧ a = "room".toList := by
  have hp : p <+: roomText g1 g2 g3 g4 := ⟨_, h ▸ (quarantineText_eq p a b c qid).symm⟩
  have hg1 : g1 <+: roomText g1 g2 g3 g4 := ⟨_, (roomText_eq g1 g2 g3 g4).symm⟩
  rcases Nat.le_total p.length g1.length with hle | hle
  · obtain ⟨d, rfl⟩ := List.prefix_of_prefix_length_le hp hg1 hle
    rw [roomText_append, quarantineText_eq] at h
    obtain ⟨rfl, rfl⟩ := of_quarantineText_nil_eq ha hb hc hqid (List.append_cancel_left h)
    exact Or.inr (Or.inr ⟨rfl, rfl⟩)
  · obtain ⟨d, rfl⟩ := List.prefix_of_prefix_length_le hg1 hp hle
    rw [quarantineText_append, roomText_eq] at h
    rcases of_eq_roomText_nil (List.append_cancel_left h) with rfl | hd
    · exact Or.inl rfl
    · exact Or.inr (Or.inl ((List.prefix_append_right_inj g1).mpr hd))

/-- **A quarantine key does not decode**, unless it reads like a room key. -/
theorem decodeRoomName_encodeQuarantineName {prefix_ prefix' qid : String} {room : Room}
    (hqid : ':' ∉ qid.toList) (h : ¬ ReadsAsRoom prefix_ prefix' room) :
    ∃ message, decodeRoomName (encodeQuarantineName room prefix' qid) prefix_ = .error message := by
  refine decodeRoomName_eq_error fun m2 m3 m4 hexec => h ?_
  obtain ⟨_, _, _, _, hgroups, htext, -⟩ :=
    matches_roomPattern.mp (Pattern.matches_of_exec hexec)
  simp only [List.cons.injEq, and_true] at hgroups
  obtain ⟨rfl, rfl, rfl, rfl⟩ := hgroups
  rw [toList_encodeQuarantineName] at htext
  have hroom : uriEncode "room" = "room" := by decide
  rcases of_quarantineText_eq_roomText (colon_notMem_uriEncode _) (colon_notMem_uriEncode _)
    (colon_notMem_uriEncode _) hqid htext with h | h | ⟨h, horg⟩
  · exact Or.inl (String.toList_inj.mp (h.trans String.toList_append.symm))
  · exact Or.inr (Or.inl (String.toList_append ▸ h))
  · refine Or.inr (Or.inr ⟨String.toList_inj.mp (h.trans String.toList_append.symm), ?_⟩)
    exact uriEncode_injective ((String.toList_inj.mp horg).trans hroom.symm)

theorem not_readsAsRoom_self (prefix_ : String) (room : Room) :
    ¬ ReadsAsRoom prefix_ prefix_ room := by
  have hlen {s : String} (hs : s.toList ≠ []) : prefix_.toList ≠ (prefix_ ++ s).toList := by
    intro h
    rw [String.toList_append] at h
    exact hs (List.self_eq_append_right.mp h)
  rintro (h | h | ⟨h, -⟩)
  · exact hlen (by decide) (congrArg String.toList h)
  · have hle := h.length_le
    rw [String.toList_append, List.length_append] at hle
    exact absurd hle (by simp)
  · exact hlen (by decide) (congrArg String.toList h)

/-- **Room keys are an exact code**, for every prefix without line terminators. The keys of other
prefixes do not decode, nor do quarantine keys, those of other prefixes as well unless they read
like a room key. -/
theorem room_keys {prefix_ : String}
    (hdots : ∀ c ∈ prefix_.toList, notLineTerminator c = true) :
    (∀ room, decodeRoomName (encodeRoomName room prefix_) prefix_ = .ok room) ∧
      (∀ room room', encodeRoomName room prefix_ = encodeRoomName room' prefix_ → room = room') ∧
      (∀ room prefix', prefix' ≠ prefix_ →
        ∃ message, decodeRoomName (encodeRoomName room prefix') prefix_ = .error message) ∧
      (∀ room qid, ':' ∉ qid.toList →
        ∃ message, decodeRoomName (encodeQuarantineName room prefix_ qid) prefix_ =
          .error message) ∧
      ∀ room prefix' qid, ':' ∉ qid.toList → ¬ ReadsAsRoom prefix_ prefix' room →
        ∃ message, decodeRoomName (encodeQuarantineName room prefix' qid) prefix_ =
          .error message := by
  refine ⟨decodeRoomName_encodeRoomName hdots, fun room room' h => ?_,
    fun room prefix' hne => decodeRoomName_of_ne hne room,
    fun room qid hqid =>
      decodeRoomName_encodeQuarantineName hqid (not_readsAsRoom_self prefix_ room),
    fun room prefix' qid hqid h => decodeRoomName_encodeQuarantineName hqid h⟩
  have hok := decodeRoomName_encodeRoomName hdots room
  rw [h, decodeRoomName_encodeRoomName hdots] at hok
  exact (Except.ok.inj hok).symm

/-- With the prefix `yhub`. -/
theorem room_keys_of_yhub :
    (∀ c ∈ "yhub".toList, notLineTerminator c = true) ∧
      decodeRoomName (encodeRoomName ⟨"o:*", "room", ""⟩ "yhub") "yhub" =
        .ok ⟨"o:*", "room", ""⟩ := by
  have hdots : ∀ c ∈ "yhub".toList, notLineTerminator c = true := forall_mem_of_all (by decide)
  exact ⟨hdots, (room_keys hdots).1 _⟩

/-- A quarantine key of `p` is a room key of `p:quarantine_room`. -/
theorem quarantine_key_decodes :
    decodeRoomName
      (encodeQuarantineName ⟨"room", "d", "b"⟩ "p" "3f1c2b7e-8a4d-4c55-9e0f-6d2a1b3c4d5e")
      "p:quarantine_room" = .ok ⟨"d", "b", "3f1c2b7e-8a4d-4c55-9e0f-6d2a1b3c4d5e"⟩ := by
  have hkey : encodeQuarantineName ⟨"room", "d", "b"⟩ "p" "3f1c2b7e-8a4d-4c55-9e0f-6d2a1b3c4d5e" =
      encodeRoomName ⟨"d", "b", "3f1c2b7e-8a4d-4c55-9e0f-6d2a1b3c4d5e"⟩ "p:quarantine_room" := by
    decide
  rw [hkey]
  exact decodeRoomName_encodeRoomName (forall_mem_of_all (by decide)) _

end YHub
