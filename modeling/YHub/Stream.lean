import YHub.Redis
import YHub.Lib.PrintedNumber
import Mathlib.Algebra.Ring.Int.Defs
import Mathlib.Algebra.Ring.Nat

/-!
# The stream operations (`stream.js`)

The four Lua scripts of `Stream`, the transactions of `quarantine` and `unquarantine`,
`clearMessages`, and the read `getMessages`, each as a function on the redis state of
`Redis.lean`. Every command of a script takes effect at once; a script that raises an error
keeps the effects of the commands it already ran, so `trimMessages` returns a state together
with its result.

`trimMessages` is the script with a way to fail. It acknowledges and deletes the task first and
computes the boundary of its `XTRIM` afterwards (`trimBoundary`): from the lifetime of messages
when `minId` is young enough, else from `minId` itself, which `incStreamId` takes apart with a
Lua pattern. `trimBoundary_text` says what comes of it for each form of a clock:
* an `'<ms>-I'` does not match the pattern, and concatenating the `nil` raises an error;
* Lua writes a number with 14 significant digits, from `10^14` on with an exponent, a negative one
  with a sign, and what is no integer with a point: redis rejects each of them as a stream id.

The lifetime is any number that the configuration gives; a fractional one leaves a fraction.

`trimMessages_keys` is the effect of the script on the live key alone (`trimStream`).
-/

namespace YHub

variable {μ β : Type}

/-! ## Lua -/

/-- Why a script stops. -/
inductive ScriptError where
  /-- redis rejects the task id handed to `XACK`. -/
  | invalidTaskId
  /-- Lua: a `nil` is concatenated, added to or compared. -/
  | nilValue
  /-- redis rejects the id handed to `XTRIM`. -/
  | invalidStreamId
  deriving DecidableEq, Repr

/-- `string.match(id, "^(%d+)-?(%d*)$")`: `ts` and `seq`. -/
def matchStreamId (id : List Char) : Option (List Char × List Char) :=
  let ts := id.takeWhile Char.isDigit
  let rest := id.dropWhile Char.isDigit
  let seq := if rest.head? = some '-' then rest.tail else rest
  if ts ≠ [] ∧ seq.all Char.isDigit = true then some (ts, seq) else none

/-- `string.match(minid, "^(%d+)")`. -/
def matchMs (id : List Char) : Option (List Char) :=
  let ts := id.takeWhile Char.isDigit
  if ts ≠ [] then some ts else none

/-- `tonumber` on digits. -/
def tonumber (ds : List Char) : Nat := Nat.ofDigitChars 10 ds 0

/-- `tostring`, which is also what `..` writes of a number. -/
def luaText (x : JsNumber) : List Char := x.format 14

/-- `incStreamId(id)`. A sequence number that a double does not hold has more than 14 digits,
rounded or not. -/
def incStreamId (id : List Char) : Except ScriptError (List Char) :=
  match matchStreamId id with
  | none => .error .nilValue
  | some (ts, seq) =>
    let seq := if seq = [] then ['0'] else seq
    .ok (ts ++ '-' :: luaText (.ofNat (tonumber seq + 1)))

/-- `redis.call("TIME")[1] * 1000 - tonumber(ARGV[2])`: the redis time in whole seconds, in
milliseconds, less the age, whose text is read back as the number it was. -/
def minidLifetime (maxAgeMs : JsNumber) (now : Nat) : JsNumber :=
  (JsNumber.numberValue (now / 1000 * 1000 : Nat)).sub maxAgeMs

/-- The `minidLifetime` that `trimMessages` hands to `XTRIM KEYS[1] MINID`. -/
def trimMinId (minid : List Char) (maxAgeMs : JsNumber) (now : Nat) :
    Except ScriptError (List Char) :=
  match matchMs minid with
  | none => .error .nilValue
  | some ts =>
    if (JsNumber.numberValue (tonumber ts)).lt (minidLifetime maxAgeMs now) then incStreamId minid
    else .ok (luaText (minidLifetime maxAgeMs now))

/-- A part of a stream id, as redis reads it: a number of 64 bits. -/
def streamIdPart (t : List Char) : Except ScriptError Nat :=
  match JsNumber.ofDigits? t with
  | some n => if n < 2 ^ 64 then .ok n else .error .invalidStreamId
  | none => .error .invalidStreamId

/-- A stream id, as redis reads it: `<ms>` or `<ms>-<seq>`. -/
def parseStreamId (t : List Char) : Except ScriptError StreamId :=
  let ms := t.takeWhile (· ≠ '-')
  match t.dropWhile (· ≠ '-') with
  | [] => (streamIdPart ms).map (⟨·, 0⟩)
  | _ :: seq => (streamIdPart ms).bind fun m => (streamIdPart seq).map (⟨m, ·⟩)

/-- The boundary of the `XTRIM`. -/
def trimBoundary (minid : List Char) (maxAgeMs : JsNumber) (now : Nat) :
    Except ScriptError StreamId :=
  (trimMinId minid maxAgeMs now).bind parseStreamId

/-! ## The scripts -/

/-- The `addMessage` script: a key that does not exist yet gets a compact task. -/
def addMessage (now : Nat) (room : Room) (message : μ) (r : Redis μ) : Redis μ :=
  let r := if r.live room = none ∧ room ∉ r.compactionDisabled then r.enqueue now room else r
  r.xadd now (.room room) (.m message)

/-- The last part of the `trimMessages` script: trim the live key, then either `DEL` it or
enqueue the successor task. -/
def trimTo (now : Nat) (room : Room) (minid : StreamId) (r : Redis μ) : Redis μ :=
  let r := r.set (.room room) (RedisStream.trimKey minid (r.live room))
  if RedisStream.entriesOf (r.live room) = [] then r else r.enqueue now room

/-- The `trimMessages` script. `taskid || ''` is passed for a missing task id, which `XACK`
rejects before anything happened. -/
def trimMessages (now : Nat) (room : Room) (minId : List Char) (maxAgeMs : JsNumber)
    (taskid : Option StreamId) (r : Redis μ) : Redis μ × Except ScriptError Unit :=
  match taskid with
  | none => (r, .error .invalidTaskId)
  | some id =>
    let acked := (r.worker.xack id).2
    let r := { r with worker := r.worker.remove id }
    -- acked == 0: another worker reclaimed the task and its trimMessages already ran
    if acked then
      match trimBoundary minId maxAgeMs now with
      | .error e => (r, .error e)
      | .ok minid => (trimTo now room minid r, .ok ())
    else (r, .ok ())

/-- The `disableCompaction` script. -/
def disableCompaction (room : Room) (r : Redis μ) : Redis μ :=
  let tasks := r.worker.entries.filter (·.compact = room)
  { r with
    compactionDisabled := insert room r.compactionDisabled
    worker := tasks.foldl (fun w t => w.remove t.id) r.worker }

/-- The `enableCompaction` script. -/
def enableCompaction (now : Nat) (room : Room) (r : Redis μ) : Redis μ :=
  let enqueues := room ∈ r.compactionDisabled ∧ r.live room ≠ none
  let r := { r with compactionDisabled := r.compactionDisabled.erase room }
  if enqueues then r.enqueue now room else r

/-- `clearMessages`: `XTRIM MAXLEN 0` keeps the key and its last id. -/
def clearMessages (room : Room) (r : Redis μ) : Redis μ :=
  r.set (.room room) ((r.live room).map RedisStream.xtrimAll)

/-! ## Quarantine -/

/-- The `MULTI` of `quarantine`: `RENAME live quar`, `XADD live * nop 1`. The second command runs
also when the first one fails, which the flag reports (`false`: no such key). -/
def quarantineMulti (now : Nat) (room : Room) (qid : String) (r : Redis μ) : Redis μ × Bool :=
  let (r, renamed) := r.rename (.room room) (.quarantineRoom room qid)
  (r.xadd now (.room room) .nop, renamed)

/-- The `DEL live` that `quarantine` sends when the rename failed. -/
def quarantineCleanup (room : Room) (r : Redis μ) : Redis μ := r.del (.room room)

/-- The `XRANGE quar - +` of `unquarantine`. -/
def unquarantineRead (room : Room) (qid : String) (r : Redis μ) : List (Entry μ) :=
  RedisStream.entriesOf (r.quarantined room qid)

/-- The messages `unquarantine` re-injects: `auth:check:v1` directives are dropped. -/
def reinjected (entries : List (Entry (Message β))) : List (Message β) :=
  (entries.filterMap Entry.message?).filter fun m => !m.isAuthCheck

/-- The `MULTI` of `unquarantine`: `addMessage` for every re-injected message, `DEL quar`. -/
def unquarantineMulti (now : Nat) (room : Room) (qid : String)
    (entries : List (Entry (Message β))) (r : Redis (Message β)) : Redis (Message β) :=
  ((reinjected entries).foldl (fun r m => addMessage now room m r) r).del
    (.quarantineRoom room qid)

/-- `deleteQuarantineStreams`, once it has listed the `qids`. -/
def deleteQuarantineStreams (room : Room) (qids : List String) (r : Redis μ) : Redis μ :=
  qids.foldl (fun r qid => r.del (.quarantineRoom room qid)) r

/-! ## Reading -/

/-- What `getMessages` returns for one room: the messages with their clock, and the id of the
last entry, message or not. -/
structure Messages (μ : Type) where
  messages : List (StreamId × μ)
  lastClock : Clock
  deriving DecidableEq, Repr

/-- `XREAD STREAMS key after`. -/
def xread (after : StreamId) (s : Option (RedisStream μ)) : List (Entry μ) :=
  (RedisStream.entriesOf s).filter (after < ·.id)

/-- The messages among entries, with their ids. -/
def messagesOf (entries : List (Entry μ)) : List (StreamId × μ) :=
  entries.filterMap fun e => e.message?.map fun m => (e.id, m)

/-- `getMessages([{ room, clock: '0' }]).then(ms => ms[0] || { messages: [], lastClock: '0' })`:
a stream without entries past the clock is not part of the reply. -/
def getMessages (s : Option (RedisStream μ)) : Messages μ :=
  let entries := xread .zero s
  ⟨messagesOf entries, (entries.getLast?.map fun e => Clock.id e.id).getD .zero⟩

/-! ## What the boundary is -/

theorem matchMs_text (c : Clock) : matchMs c.text = some (digits c.msPart) := by
  have h : c.text.takeWhile Char.isDigit = digits c.msPart := by
    cases c with
    | ms m => simpa [Clock.text, Clock.msPart] using @takeWhile_digits_append m [] (by simp)
    | id i => exact takeWhile_digits_append (by simp)
    | persist m => exact takeWhile_digits_append (by simp)
  simp only [matchMs, h, ne_eq, digits_ne_nil, not_false_eq_true, if_true]

theorem dropWhile_digits_append {n : Nat} {cs : List Char}
    (h : ∀ c ∈ cs.head?, c.isDigit = false) :
    (digits n ++ cs).dropWhile Char.isDigit = cs := by
  rw [List.dropWhile_append_of_pos fun c hc => isDigit_of_mem_digits hc]
  cases cs with
  | nil => rfl
  | cons c cs => rw [List.dropWhile_cons_of_neg (by simpa using h c rfl)]

theorem all_isDigit_digits (n : Nat) : (digits n).all Char.isDigit = true :=
  List.all_eq_true.mpr fun _ hc => isDigit_of_mem_digits hc

theorem matchStreamId_ms (m : Nat) : matchStreamId (Clock.ms m).text = some (digits m, []) := by
  have ht : (digits m).takeWhile Char.isDigit = digits m := by
    simpa using @takeWhile_digits_append m [] (by simp)
  have hd : (digits m).dropWhile Char.isDigit = [] := by
    simpa using @dropWhile_digits_append m [] (by simp)
  simp [matchStreamId, Clock.text, ht, hd]

theorem matchStreamId_id (i : StreamId) :
    matchStreamId (Clock.id i).text = some (digits i.ms, digits i.seq) := by
  have ht : (digits i.ms ++ '-' :: digits i.seq).takeWhile Char.isDigit = digits i.ms :=
    takeWhile_digits_append (by simp)
  have hd : (digits i.ms ++ '-' :: digits i.seq).dropWhile Char.isDigit = '-' :: digits i.seq :=
    dropWhile_digits_append (by simp)
  simp only [matchStreamId, Clock.text, ht, hd, List.head?_cons, if_true, List.tail_cons, ne_eq,
    digits_ne_nil, not_false_eq_true, all_isDigit_digits, and_self]

/-- The clock of `unsafePersistDoc` is not a stream id to the script. -/
theorem matchStreamId_persist (m : Nat) : matchStreamId (Clock.persist m).text = none := by
  have ht : (digits m ++ ['-', 'I']).takeWhile Char.isDigit = digits m :=
    takeWhile_digits_append (by simp)
  have hd : (digits m ++ ['-', 'I']).dropWhile Char.isDigit = ['-', 'I'] :=
    dropWhile_digits_append (by simp)
  simp only [matchStreamId, Clock.text, ht, hd, List.head?_cons, if_true, List.tail_cons]
  rw [if_neg]
  rintro ⟨-, h⟩
  exact absurd h (by decide)

theorem tonumber_digits (n : Nat) : tonumber (digits n) = n := ofDigitChars_digits n

theorem streamIdPart_of_digits {t : List Char} {n : Nat} (h : JsNumber.ofDigits? t = some n) :
    streamIdPart t = if n < 2 ^ 64 then .ok n else .error .invalidStreamId := by
  unfold streamIdPart
  rw [h]

theorem streamIdPart_digits (n : Nat) :
    streamIdPart (digits n) = if n < 2 ^ 64 then .ok n else .error .invalidStreamId :=
  streamIdPart_of_digits (JsNumber.ofDigits?_eq_some.mpr
    ⟨digits_ne_nil n, fun _ => isDigit_of_mem_digits, ofDigitChars_digits n⟩)

theorem ofDigits_of_streamIdPart {t : List Char} {m : Nat} (h : streamIdPart t = .ok m) :
    JsNumber.ofDigits? t = some m := by
  cases hdigits : JsNumber.ofDigits? t with
  | none =>
    unfold streamIdPart at h
    rw [hdigits] at h
    exact absurd h (by simp)
  | some n =>
    rw [streamIdPart_of_digits hdigits] at h
    split_ifs at h
    rw [Except.ok.inj h]

/-- Redis reads what Lua writes of a number if that is an integer of at most 14 digits. -/
theorem streamIdPart_luaText_eq_ok {x : JsNumber} {m : Nat} : streamIdPart (luaText x) = .ok m ↔
    x.toPrecision 14 = .ofNat m ∧ m < 10 ^ 14 := by
  have hiff : JsNumber.ofDigits? (luaText x) = some m ↔ x.toPrecision 14 = .ofNat m ∧ m < 10 ^ 14 :=
    JsNumber.ofDigits?_format_iff (by omega)
  refine ⟨fun h => hiff.mp (ofDigits_of_streamIdPart h), fun h => ?_⟩
  rw [streamIdPart_of_digits (hiff.mpr h), if_pos (by omega)]

theorem streamIdPart_luaText_ofNat (n : Nat) : streamIdPart (luaText (.ofNat n)) =
    if n < 10 ^ 14 then .ok n else .error .invalidStreamId := by
  have hdigits : JsNumber.ofDigits? (luaText (.ofNat n)) = if n < 10 ^ 14 then some n else none :=
    JsNumber.ofDigits?_format_ofNat (by omega)
  split_ifs at hdigits ⊢ with hlt
  · rw [streamIdPart_of_digits hdigits, if_pos (by omega)]
  · unfold streamIdPart
    rw [hdigits]

theorem parseStreamId_dash (m : Nat) (seq : List Char) : parseStreamId (digits m ++ '-' :: seq) =
    (streamIdPart (digits m)).bind fun m => (streamIdPart seq).map (⟨m, ·⟩) := by
  have hdash : ∀ c ∈ digits m, decide (c ≠ '-') = true :=
    JsNumber.ne_dash_of_mem fun _ => isDigit_of_mem_digits
  unfold parseStreamId
  simp only [List.takeWhile_append_of_pos hdash, List.dropWhile_append_of_pos hdash]
  simp

/-- The text of a number has no dash behind digits. -/
theorem parseStreamId_luaText_eq_ok {x : JsNumber} {b : StreamId} :
    parseStreamId (luaText x) = .ok b ↔
      x.toPrecision 14 = .ofNat b.ms ∧ b.ms < 10 ^ 14 ∧ b.seq = 0 := by
  have hsplit := List.takeWhile_append_dropWhile (p := (· ≠ '-')) (l := luaText x)
  rw [← and_assoc, ← streamIdPart_luaText_eq_ok]
  unfold parseStreamId
  cases hdrop : (luaText x).dropWhile (· ≠ '-') with
  | nil =>
    rw [hdrop, List.append_nil] at hsplit
    simp only [hsplit]
    obtain ⟨ms, seq⟩ := b
    cases streamIdPart (luaText x) with
    | error e => simp [Except.map]
    | ok m => simp [Except.map, eq_comm]
  | cons d seq =>
    -- neither the text is digits, nor what is in front of the dash
    constructor
    · intro h
      cases hpart : streamIdPart ((luaText x).takeWhile (· ≠ '-')) with
      | error e =>
        simp only [hpart] at h
        exact absurd h (by simp [Except.bind])
      | ok m =>
        have hnil := JsNumber.dash_notMem_format (ofDigits_of_streamIdPart hpart)
        exact absurd (hdrop.symm.trans hnil) (by simp)
    · rintro ⟨h, -⟩
      have hdigits := (JsNumber.ofDigits?_eq_some.mp (ofDigits_of_streamIdPart h)).2.1
      have hnil := List.dropWhile_eq_nil_iff.mpr (JsNumber.ne_dash_of_mem hdigits)
      exact absurd (hdrop.symm.trans hnil) (by simp)

/-- The bounds under which redis accepts the boundary taken from a clock: its millisecond is a
64-bit number, and Lua writes its incremented sequence number as digits. -/
def IncOk (c : Clock) : Prop := c.msPart < 2 ^ 64 ∧ ∃ s ∈ c.seqPart, s + 1 < 10 ^ 14

/-- Redis accepts the boundary taken from the lifetime of messages: to 14 digits it is an integer,
and not too large for them. -/
def LifetimeOk (maxAgeMs : JsNumber) (now : Nat) : Prop :=
  let x := (minidLifetime maxAgeMs now).toPrecision 14
  x.isInteger = true ∧ (JsNumber.ofNat 0).le x = true ∧ x.lt (.ofNat (10 ^ 14)) = true

instance (c : Clock) : Decidable (IncOk c) :=
  inferInstanceAs (Decidable (c.msPart < 2 ^ 64 ∧ ∃ s ∈ c.seqPart, s + 1 < 10 ^ 14))

instance (maxAgeMs : JsNumber) (now : Nat) : Decidable (LifetimeOk maxAgeMs now) :=
  inferInstanceAs (Decidable (((minidLifetime maxAgeMs now).toPrecision 14).isInteger = true ∧
    (JsNumber.ofNat 0).le ((minidLifetime maxAgeMs now).toPrecision 14) = true ∧
      ((minidLifetime maxAgeMs now).toPrecision 14).lt (.ofNat (10 ^ 14)) = true))

theorem lifetimeOk_iff {maxAgeMs : JsNumber} {now : Nat} : LifetimeOk maxAgeMs now ↔
    ∃ b, parseStreamId (luaText (minidLifetime maxAgeMs now)) = .ok b := by
  unfold LifetimeOk
  simp only [← JsNumber.exists_ofNat_iff, parseStreamId_luaText_eq_ok]
  constructor
  · rintro ⟨m, hm, hlt⟩
    exact ⟨⟨m, 0⟩, hm, hlt, rfl⟩
  · rintro ⟨b, hm, hlt, -⟩
    exact ⟨b.ms, hm, hlt⟩

theorem incStreamId_of_match {c : Clock} {ds : List Char} {s : Nat}
    (hm : matchStreamId c.text = some (digits c.msPart, ds))
    (hd : tonumber (if ds = [] then ['0'] else ds) = s) :
    (incStreamId c.text).bind parseStreamId =
      if c.msPart < 2 ^ 64 ∧ s + 1 < 10 ^ 14 then .ok ⟨c.msPart, s + 1⟩
      else .error .invalidStreamId := by
  unfold incStreamId
  rw [hm]
  simp only [hd]
  show parseStreamId (digits c.msPart ++ '-' :: luaText (.ofNat (s + 1))) = _
  rw [parseStreamId_dash, streamIdPart_digits, streamIdPart_luaText_ofNat]
  by_cases hms : c.msPart < 2 ^ 64
  · by_cases hsq : s + 1 < 10 ^ 14
    · rw [if_pos hms, if_pos hsq, if_pos ⟨hms, hsq⟩]
      rfl
    · rw [if_pos hms, if_neg hsq, if_neg (fun h : _ ∧ _ => hsq h.2)]
      rfl
  · rw [if_neg hms, if_neg (fun h : _ ∧ _ => hms h.1)]
    rfl

/-- `incStreamId` on the three forms of a clock. -/
theorem incStreamId_text (c : Clock) :
    (∃ s, c.seqPart = some s ∧ c.msPart < 2 ^ 64 ∧ s + 1 < 10 ^ 14 ∧
      (incStreamId c.text).bind parseStreamId = .ok ⟨c.msPart, s + 1⟩) ∨
    (¬ IncOk c ∧ ∃ e, (incStreamId c.text).bind parseStreamId = .error e) := by
  have key : ∀ s, c.seqPart = some s →
      (incStreamId c.text).bind parseStreamId =
        (if c.msPart < 2 ^ 64 ∧ s + 1 < 10 ^ 14 then .ok ⟨c.msPart, s + 1⟩
        else .error .invalidStreamId) →
      (∃ s, c.seqPart = some s ∧ c.msPart < 2 ^ 64 ∧ s + 1 < 10 ^ 14 ∧
        (incStreamId c.text).bind parseStreamId = .ok ⟨c.msPart, s + 1⟩) ∨
      (¬ IncOk c ∧ ∃ e, (incStreamId c.text).bind parseStreamId = .error e) := by
    intro s hs h
    by_cases hb : c.msPart < 2 ^ 64 ∧ s + 1 < 10 ^ 14
    · rw [if_pos hb] at h
      exact Or.inl ⟨s, hs, hb.1, hb.2, h⟩
    · rw [if_neg hb] at h
      refine Or.inr ⟨?_, _, h⟩
      rintro ⟨hms, s', hs', hlt⟩
      rw [hs] at hs'
      obtain rfl := Option.some.inj hs'
      exact hb ⟨hms, hlt⟩
  cases c with
  | ms m => exact key 0 rfl (incStreamId_of_match (matchStreamId_ms m) rfl)
  | id i =>
    refine key i.seq rfl (incStreamId_of_match (matchStreamId_id i) ?_)
    rw [if_neg (digits_ne_nil _), tonumber_digits]
  | persist m =>
    refine Or.inr ⟨?_, .nilValue, ?_⟩
    · rintro ⟨-, s, hs, -⟩
      exact absurd hs (by simp [Clock.seqPart])
    · unfold incStreamId
      rw [matchStreamId_persist]
      rfl

/-- The boundary of a trim with `minId` a clock: its millisecond against the lifetime decides
which of the two ways it is computed. -/
theorem trimBoundary_text (c : Clock) (maxAgeMs : JsNumber) (now : Nat) :
    trimBoundary c.text maxAgeMs now =
      if (JsNumber.numberValue c.msPart).lt (minidLifetime maxAgeMs now) then
        (incStreamId c.text).bind parseStreamId
      else parseStreamId (luaText (minidLifetime maxAgeMs now)) := by
  unfold trimBoundary trimMinId
  rw [matchMs_text]
  simp only [tonumber_digits]
  split_ifs
  · rfl
  · rfl

/-- The arguments for which the script computes a boundary that redis accepts. -/
def TrimOk (c : Clock) (maxAgeMs : JsNumber) (now : Nat) : Prop :=
  if (JsNumber.numberValue c.msPart).lt (minidLifetime maxAgeMs now) then IncOk c
  else LifetimeOk maxAgeMs now

instance (c : Clock) (maxAgeMs : JsNumber) (now : Nat) : Decidable (TrimOk c maxAgeMs now) :=
  inferInstanceAs (Decidable (if (JsNumber.numberValue c.msPart).lt (minidLifetime maxAgeMs now)
    then IncOk c else LifetimeOk maxAgeMs now))

/-- **The script computes a boundary exactly under `TrimOk`.** -/
theorem trimBoundary_isOk_iff (c : Clock) (maxAgeMs : JsNumber) (now : Nat) :
    (∃ b, trimBoundary c.text maxAgeMs now = .ok b) ↔ TrimOk c maxAgeMs now := by
  rw [trimBoundary_text]
  unfold TrimOk
  split
  · rcases incStreamId_text c with ⟨s, hs, hms, hsq, he⟩ | ⟨hn, e, he⟩
    · exact ⟨fun _ => ⟨hms, s, hs, hsq⟩, fun _ => ⟨_, he⟩⟩
    · rw [he]
      exact ⟨fun ⟨_, h⟩ => absurd h (by simp), fun h => absurd h hn⟩
  · exact lifetimeOk_iff.symm

/-- A boundary taken from the lifetime is not above a millisecond that the lifetime does not
exceed. -/
theorem le_msPart_of_parseStreamId {c : Clock} {maxAgeMs : JsNumber} {now : Nat} {b : StreamId}
    (hage : ¬ (JsNumber.numberValue c.msPart).lt (minidLifetime maxAgeMs now) = true)
    (hb : parseStreamId (luaText (minidLifetime maxAgeMs now)) = .ok b) :
    b.ms ≤ c.msPart ∧ b.seq = 0 := by
  obtain ⟨hm, hlt, hseq⟩ := parseStreamId_luaText_eq_ok.mp hb
  refine ⟨?_, hseq⟩
  rcases lt_or_ge c.msPart (2 ^ 53) with hsmall | hlarge
  · rw [JsNumber.numberValue_natCast_of_lt hsmall] at hage
    exact JsNumber.le_of_toPrecision_eq (by omega) hm hlt (Bool.not_eq_true _ ▸ hage)
  · omega

/-- **What a trim may remove.** An entry below the boundary is not above `minId`. -/
theorem not_isSmaller_of_lt_trimBoundary {c : Clock} {maxAgeMs : JsNumber} {now : Nat}
    {b i : StreamId} (hb : trimBoundary c.text maxAgeMs now = .ok b) (hi : i < b) :
    c.isSmaller (.id i) = false := by
  rw [trimBoundary_text] at hb
  rw [← Bool.not_eq_true, Clock.isSmaller_iff]
  split at hb
  · rcases incStreamId_text c with ⟨s, hs, -, -, he⟩ | ⟨-, e, he⟩
    · rw [he] at hb
      obtain rfl := Except.ok.inj hb
      rw [StreamId.lt_def] at hi
      rw [hs]
      simp only [Clock.msPart, Clock.seqPart, numLt, decide_eq_true_eq] at hi ⊢
      omega
    · rw [he] at hb
      exact absurd hb (by simp)
  · rename_i hage
    obtain ⟨hle, hseq⟩ := le_msPart_of_parseStreamId hage hb
    rw [StreamId.lt_def, hseq] at hi
    have hid : (Clock.id i).msPart = i.ms := rfl
    omega

/-! ## The live key under a trim -/

/-- What `trimMessages` does to the live key, given whether its task was still pending. -/
def trimStream (now : Nat) (minId : List Char) (maxAgeMs : JsNumber) (acked : Bool)
    (s : Option (RedisStream μ)) : Option (RedisStream μ) :=
  if acked then
    match trimBoundary minId maxAgeMs now with
    | .error _ => s
    | .ok minid => RedisStream.trimKey minid s
  else s

theorem trimTo_keys (now : Nat) (room : Room) (b : StreamId) (r : Redis μ) :
    (trimTo now room b r).keys =
      Function.update r.keys (.room room) (RedisStream.trimKey b (r.live room)) := by
  unfold trimTo
  simp only
  split <;> rfl

/-- **The script touches the live key as `trimStream` does**, and no other key of a room. -/
theorem trimMessages_keys (now : Nat) (room : Room) (minId : List Char) (maxAgeMs : JsNumber)
    (id : StreamId) (r : Redis μ) :
    (trimMessages now room minId maxAgeMs (some id) r).1.keys =
      Function.update r.keys (.room room)
        (trimStream now minId maxAgeMs (decide (id ∈ r.worker.pending)) (r.live room)) := by
  unfold trimMessages trimStream
  simp only [WorkerStream.xack]
  by_cases hid : id ∈ r.worker.pending
  · simp only [hid, decide_true, if_true]
    cases trimBoundary minId maxAgeMs now with
    | error e => simp [Redis.live]
    | ok b => exact trimTo_keys now room b _
  · simp [hid, Redis.live]

theorem trimMessages_live (now : Nat) (room : Room) (minId : List Char) (maxAgeMs : JsNumber)
    (id : StreamId) (r : Redis μ) :
    (trimMessages now room minId maxAgeMs (some id) r).1.live room =
      trimStream now minId maxAgeMs (decide (id ∈ r.worker.pending)) (r.live room) := by
  unfold Redis.live
  rw [trimMessages_keys, Function.update_self]
  rfl

/-- A trim leaves the key as it is, drops what is below a boundary, or deletes it. -/
theorem trimStream_cases (now : Nat) (minId : List Char) (maxAgeMs : JsNumber) (acked : Bool)
    (s : Option (RedisStream μ)) :
    trimStream now minId maxAgeMs acked s = s ∨
      ∃ b, trimStream now minId maxAgeMs acked s = RedisStream.trimKey b s := by
  unfold trimStream
  cases acked with
  | false => exact Or.inl rfl
  | true =>
    simp only [if_true]
    cases trimBoundary minId maxAgeMs now with
    | error e => exact Or.inl rfl
    | ok b => exact Or.inr ⟨b, rfl⟩

/-- A trim leaves a suffix of the stream. -/
theorem trimStream_suffix (now : Nat) (minId : List Char) (maxAgeMs : JsNumber) (acked : Bool)
    (s : Option (RedisStream μ)) :
    RedisStream.entriesOf (trimStream now minId maxAgeMs acked s) <:+ RedisStream.entriesOf s := by
  rcases trimStream_cases now minId maxAgeMs acked s with h | ⟨b, h⟩
  · rw [h]
  · rw [h, RedisStream.entriesOf_trimKey]
    exact List.dropWhile_suffix _

/-- A trim removes no entry above its `minId`. -/
theorem mem_trimStream {now : Nat} {c : Clock} {maxAgeMs : JsNumber} {acked : Bool}
    {s : Option (RedisStream μ)} {e : Entry μ} (he : e ∈ RedisStream.entriesOf s)
    (hc : c.isSmaller (.id e.id) = true) :
    e ∈ RedisStream.entriesOf (trimStream now c.text maxAgeMs acked s) := by
  unfold trimStream
  cases acked with
  | false => exact he
  | true =>
    simp only [if_true]
    cases hb : trimBoundary c.text maxAgeMs now with
    | error _ => exact he
    | ok b =>
      simp only [RedisStream.entriesOf_trimKey]
      have hnb : ¬ e.id < b := fun hlt => by
        rw [not_isSmaller_of_lt_trimBoundary hb hlt] at hc
        exact absurd hc (by simp)
      -- the eviction stops at the first entry that is not below the boundary, so before `e`
      have key : ∀ l : List (Entry μ), e ∈ l → e ∈ l.dropWhile (·.id < b) := by
        intro l hl
        induction l with
        | nil => exact absurd hl List.not_mem_nil
        | cons x l ih =>
          rw [List.dropWhile_cons]
          split
          · rename_i hx
            rcases List.mem_cons.mp hl with rfl | hl
            · exact absurd (by simpa using hx) hnb
            · exact ih hl
          · exact hl
      exact key _ he

end YHub
