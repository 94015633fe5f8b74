import YHub.GhostCursors
import YHub.ContentTasks
import YHub.Lib.Codec

/-!
# Frames (`protocol.js`, `server.js:442-489`)

What a connection and its client send each other, as bytes. The numbers and byte arrays in a frame
are written by `lib0`, and the updates of the awareness protocol by `@y/protocols`: a parameter
`Lib0`, of which `Lib0.Lawful` says what the hub relies on. Of an awareness update the hub reads how
many entries there are, and the client and the clock of the first one.

The hub sends four kinds of frames (`Frame`). A frame of a client is handled in one turn of the
event loop (`message`): it may add a message to the stream, change what the connection keeps of the
awareness of its client, or fail, which closes the connection (`messages`).

* `messages_ok`: whatever the client sends, what is added are updates that Yjs can read, attributed
  to the user of the connection, and awareness updates; and nothing without write access.
* `messages_frames`: of frames that are written as the protocol says, in any order, all updates are
  added as they are, in the same order, and the connection keeps of the awareness what it does of
  the entries (`WSUser.onFrames`).
-/

namespace YHub

/-- `Uint8Array` -/
abbrev Bytes : Type := List UInt8

/-- The largest number that `lib0` reads back: `number.MAX_SAFE_INTEGER`. -/
def maxUint : Nat := 2 ^ 53 - 1

/-- `lib0/encoding` with `lib0/decoding`, and `encodeAwarenessUpdate` of `@y/protocols`, with
awareness states in `σ`. -/
structure Lib0 (σ : Type) where
  varUint : Codec Nat
  writeVarString : String → Bytes
  encodeAwarenessUpdate : List (AwarenessEntry σ) → Bytes

namespace Lib0

variable {σ : Type} (L : Lib0 σ)

/-- `writeVarUint8Array`, `readVarUint8Array` -/
def varUint8Array : Codec Bytes := .bytes L.varUint

/-- What the hub relies on. -/
structure Lawful : Prop where
  varUint : L.varUint.Reads (· ≤ maxUint)
  /-- The number of entries, the client of the first one and its clock. -/
  awarenessUpdate : ∀ e rest, ∃ more, L.encodeAwarenessUpdate (e :: rest) =
    L.varUint.write (rest.length + 1) ++
      (L.varUint.write e.clientID ++ (L.varUint.write e.clock ++ more))
  /-- A removed client: its state is `null`. -/
  removal : ∀ clientID clock, L.encodeAwarenessUpdate [⟨clientID, clock, none⟩] =
    L.varUint.write 1 ++ (L.varUint.write clientID ++ (L.varUint.write clock ++
      L.writeVarString "null"))

theorem Lawful.varUint8Array {L : Lib0 σ} (hL : L.Lawful) :
    L.varUint8Array.Reads (·.length ≤ maxUint) := Codec.bytes_reads hL.varUint

end Lib0

/-! ## Constants -/

def messageSync : Nat := 0

def messageAwareness : Nat := 1

def messageSyncStep1 : Nat := 0

def messageSyncStep2 : Nat := 1

def messageSyncUpdate : Nat := 2

/-! ## Encoders -/

section Encoders

variable {σ : Type} (L : Lib0 σ)

def encodeSyncStep1 (sv : Bytes) : Bytes :=
  L.varUint.write messageSync ++ (L.varUint.write messageSyncStep1 ++ L.varUint8Array.write sv)

def encodeSyncStep2 (diff : Bytes) : Bytes :=
  L.varUint.write messageSync ++ (L.varUint.write messageSyncStep2 ++ L.varUint8Array.write diff)

def encodeSyncUpdate (update : Bytes) : Bytes :=
  L.varUint.write messageSync ++ (L.varUint.write messageSyncUpdate ++ L.varUint8Array.write update)

/-- `encodeAwareness`, of the entries of an update. -/
def encodeAwareness (entries : List (AwarenessEntry σ)) : Bytes :=
  L.varUint.write messageAwareness ++ L.varUint8Array.write (L.encodeAwarenessUpdate entries)

/-- `encodeAwarenessUserDisconnected`, as bytes. -/
def encodeUserDisconnected (clientid lastClock : Nat) : Bytes :=
  L.varUint.write 1 ++ (L.varUint.write clientid ++ (L.varUint.write (lastClock + 1) ++
    L.writeVarString "null"))

/-- A frame, by what it carries. -/
inductive Frame (σ : Type) where
  | syncStep1 (sv : Bytes)
  | syncStep2 (diff : Bytes)
  | syncUpdate (update : Bytes)
  | awareness (entries : List (AwarenessEntry σ))

namespace Frame

/-- The bytes of a frame. -/
def encode : Frame σ → Bytes
  | syncStep1 sv => encodeSyncStep1 L sv
  | syncStep2 diff => encodeSyncStep2 L diff
  | syncUpdate update => encodeSyncUpdate L update
  | awareness entries => encodeAwareness L entries

/-- The entries of an awareness frame. -/
def entries? : Frame σ → Option (List (AwarenessEntry σ))
  | awareness entries => some entries
  | _ => none

end Frame

end Encoders

/-! ## The handler of the frames of a client -/

/-- What is fixed for a connection and its hub: the dependencies, the payload that an array is,
which updates `Y.createContentIdsFromUpdate` can read (it throws on others), and the custom
attributions of the connection. -/
structure Session (σ : Type) {β : Type} (Y : Yjs β) where
  L : Lib0 σ
  payload : Bytes → β
  readable : Bytes → Bool
  customAttributions : List KV

/-- What comes of a frame: the user, what is added to the stream, and whether `handleErr` is
called. -/
structure Turn (β : Type) where
  user : WSUser
  added : List (Message β)
  failed : Bool

section Handler

variable {σ β : Type} {Y : Yjs β} (S : Session σ Y) (now : Nat) (u : WSUser)

/-- `createContentMapFromParams`: the same as `createContentMap` of the compute worker. -/
def createContentMapFromParams (Y : Yjs β) (now : Nat) (contentids : Content Y.IdSet)
    (userid : String) (customAttributions : List KV) : β :=
  createContentMap Y now contentids userid customAttributions

/-- The message that an update is added as. -/
def attributedUpdate (userid : String) (update : Bytes) : Message β :=
  .ydocUpdate (S.payload update) (createContentMapFromParams Y now
    (Y.createContentIdsFromUpdate (S.payload update)) userid S.customAttributions)

/-- A sync frame, without the type of the message. -/
def onSync (m : Bytes) : Turn β :=
  match S.L.varUint.read m with
  | none => ⟨u, [], true⟩
  | some (syncMessageType, m) =>
    if syncMessageType = messageSyncUpdate ∨ syncMessageType = messageSyncStep2 then
      match S.L.varUint8Array.read m with
      | none => ⟨u, [], true⟩
      | some (update, _) =>
        if 3 < update.length then
          if S.readable update then ⟨u, [attributedUpdate S now u.authInfo.userid update], false⟩
          else ⟨u, [], true⟩
        else ⟨u, [], false⟩
    -- the full initial state is sent at the beginning; other types are logged
    else ⟨u, [], false⟩

/-- The update of an awareness frame. -/
def onAwarenessUpdate (update : Bytes) : Turn β :=
  match S.L.varUint.read update with
  | none => ⟨u, [], true⟩
  | some (alen, aw) =>
    match S.L.varUint.read aw with
    | none => ⟨u, [], true⟩
    | some (awId, aw) =>
      if alen = 1 ∧ (u.awarenessId = none ∨ u.awarenessId = some awId) then
        -- the id is set before the clock is read
        match S.L.varUint.read aw with
        | none => ⟨{ u with awarenessId := some awId }, [], true⟩
        | some (clock, _) =>
          ⟨{ u with awarenessId := some awId, awarenessLastClock := clock },
            [.awareness (S.payload update)], false⟩
      else ⟨u, [.awareness (S.payload update)], false⟩

/-- `message` -/
def message (m : Bytes) : Turn β :=
  if u.hasWriteAccess = false then ⟨u, [], false⟩
  else
    match S.L.varUint.read m with
    | none => ⟨u, [], true⟩
    | some (0, m) => onSync S now u m
    | some (1, m) =>
      match S.L.varUint8Array.read m with
      | none => ⟨u, [], true⟩
      | some (update, _) => onAwarenessUpdate S u update
    | some _ => ⟨u, [], false⟩

/-- The frames of a connection, each with the time it is handled at. A failure closes the
connection. -/
def messages (S : Session σ Y) (u : WSUser) : List (Nat × Bytes) → Turn β
  | [] => ⟨u, [], false⟩
  | (now, m) :: ms =>
    let turn := message S now u m
    if turn.failed then turn
    else
      let rest := messages S turn.user ms
      ⟨rest.user, turn.added ++ rest.added, rest.failed⟩

end Handler

/-! ## Whatever a client sends -/

section Received

variable {σ β : Type} {Y : Yjs β} {S : Session σ Y} {now : Nat} {u : WSUser}

/-- What a connection may add to the stream: an update that Yjs can read and that has content,
attributed to the user, or an awareness update. -/
def Addable (S : Session σ Y) (userid : String) (m : Message β) : Prop :=
  (∃ now update, S.readable update = true ∧ 3 < update.length ∧
    m = attributedUpdate S now userid update) ∨ ∃ update, m = .awareness (S.payload update)

/-- What no frame changes. -/
structure SameUser (u v : WSUser) : Prop where
  hasWriteAccess : v.hasWriteAccess = u.hasWriteAccess
  authInfo : v.authInfo = u.authInfo
  room : v.room = u.room

/-- What comes of a frame is in order. -/
structure Turn.Ok (S : Session σ Y) (u : WSUser) (t : Turn β) : Prop where
  same : SameUser u t.user
  addable : ∀ m ∈ t.added, u.hasWriteAccess = true ∧ Addable S u.authInfo.userid m

namespace Turn.Ok

/-- Nothing is added. -/
theorem nothing {v : WSUser} (h : SameUser u v) (failed : Bool) :
    Turn.Ok S u ⟨v, [], failed⟩ := ⟨h, fun _ hm => absurd hm List.not_mem_nil⟩

theorem one {v : WSUser} {m : Message β} (h : SameUser u v) (hw : u.hasWriteAccess = true)
    (hm : Addable S u.authInfo.userid m) : Turn.Ok S u ⟨v, [m], false⟩ := by
  refine ⟨h, fun m' hm' => ?_⟩
  obtain rfl := List.mem_singleton.mp hm'
  exact ⟨hw, hm⟩

end Turn.Ok

theorem SameUser.refl (u : WSUser) : SameUser u u := ⟨rfl, rfl, rfl⟩

theorem onSync_ok (hw : u.hasWriteAccess = true) (m : Bytes) : (onSync S now u m).Ok S u := by
  unfold onSync
  cases S.L.varUint.read m with
  | none => exact .nothing (.refl u) true
  | some x =>
    simp only
    split_ifs with htype
    · cases S.L.varUint8Array.read x.2 with
      | none => exact .nothing (.refl u) true
      | some y =>
        simp only
        split_ifs with hlen hread
        · exact .one (.refl u) hw (.inl ⟨now, y.1, hread, hlen, rfl⟩)
        · exact .nothing (.refl u) true
        · exact .nothing (.refl u) false
    · exact .nothing (.refl u) false

theorem onAwarenessUpdate_ok (hw : u.hasWriteAccess = true) (update : Bytes) :
    (onAwarenessUpdate S u update).Ok S u := by
  have hadd : Addable S u.authInfo.userid (.awareness (S.payload update)) := .inr ⟨update, rfl⟩
  unfold onAwarenessUpdate
  cases S.L.varUint.read update with
  | none => exact .nothing (.refl u) true
  | some x =>
    simp only
    cases S.L.varUint.read x.2 with
    | none => exact .nothing (.refl u) true
    | some y =>
      simp only
      split_ifs with hsingle
      · have hid : SameUser u { u with awarenessId := some y.1 } := ⟨rfl, rfl, rfl⟩
        cases S.L.varUint.read y.2 with
        | none => exact .nothing hid true
        | some z =>
          have hboth : SameUser u { u with
              awarenessId := some y.1
              awarenessLastClock := z.1 } := ⟨rfl, rfl, rfl⟩
          exact .one hboth hw hadd
      · exact .one (.refl u) hw hadd

/-- The step lemma. -/
theorem message_ok (S : Session σ Y) (now : Nat) (u : WSUser) (m : Bytes) :
    (message S now u m).Ok S u := by
  unfold message
  split_ifs with hw
  · exact .nothing (.refl u) false
  · rw [Bool.not_eq_false] at hw
    split
    · exact .nothing (.refl u) true
    · exact onSync_ok hw _
    · split
      · exact .nothing (.refl u) true
      · exact onAwarenessUpdate_ok hw _
    · exact .nothing (.refl u) false

/-- **Whatever a client sends**: what is added to the stream are updates that Yjs can read,
attributed to the user of the connection, and awareness updates; without write access nothing is
added. -/
theorem messages_ok (S : Session σ Y) (u : WSUser) (ms : List (Nat × Bytes)) :
    (messages S u ms).Ok S u := by
  induction ms generalizing u with
  | nil => exact .nothing (.refl u) false
  | cons x ms ih =>
    have hturn := message_ok S x.1 u x.2
    have hrest := ih (message S x.1 u x.2).user
    unfold messages
    simp only
    split_ifs
    · exact hturn
    · obtain ⟨⟨hw, ha, hr⟩, hadd⟩ := hrest
      rw [hturn.same.hasWriteAccess, hturn.same.authInfo] at hadd
      refine ⟨⟨hw.trans hturn.same.hasWriteAccess, ha.trans hturn.same.authInfo,
        hr.trans hturn.same.room⟩, fun m hm => ?_⟩
      rcases List.mem_append.mp hm with hm | hm
      · exact hturn.addable m hm
      · exact hadd m hm

end Received

/-! ## Frames as the protocol has them -/

section Frames

variable {σ β : Type} {Y : Yjs β} {S : Session σ Y} {now : Nat} {u : WSUser} {f : Frame σ}

/-- Numbers that can be read back. -/
structure AwarenessEntry.Readable (e : AwarenessEntry σ) : Prop where
  clientID : e.clientID ≤ maxUint
  clock : e.clock ≤ maxUint

/-- A frame that a client may send: an array is not longer than a number can say, an update can be
read, and an awareness update has an entry. -/
def Frame.Sendable (S : Session σ Y) : Frame σ → Prop
  | .syncStep1 sv => sv.length ≤ maxUint
  | .syncStep2 update => update.length ≤ maxUint ∧ S.readable update = true
  | .syncUpdate update => update.length ≤ maxUint ∧ S.readable update = true
  | .awareness [] => False
  | .awareness (e :: rest) => (S.L.encodeAwarenessUpdate (e :: rest)).length ≤ maxUint ∧
      rest.length + 1 ≤ maxUint ∧ e.Readable

/-- What a frame adds to the stream. -/
def Frame.added (S : Session σ Y) (now : Nat) (userid : String) : Frame σ → List (Message β)
  | .syncStep1 _ => []
  | .syncStep2 update => if 3 < update.length then [attributedUpdate S now userid update] else []
  | .syncUpdate update => if 3 < update.length then [attributedUpdate S now userid update] else []
  | .awareness entries => [.awareness (S.payload (S.L.encodeAwarenessUpdate entries))]

theorem Lib0.Lawful.read_write {L : Lib0 σ} (hL : L.Lawful) {b : Bytes} (hb : b.length ≤ maxUint) :
    L.varUint8Array.read (L.varUint8Array.write b) = some (b, []) := by
  have h := hL.varUint8Array b hb []
  rwa [List.append_nil] at h

/-- A sync frame with an update. -/
theorem onSync_update (hL : S.L.Lawful) {syncMessageType : Nat} {update : Bytes}
    (htype : syncMessageType = messageSyncUpdate ∨ syncMessageType = messageSyncStep2)
    (hle : update.length ≤ maxUint) (hread : S.readable update = true) :
    onSync S now u (S.L.varUint.write syncMessageType ++ S.L.varUint8Array.write update) =
      ⟨u, if 3 < update.length then [attributedUpdate S now u.authInfo.userid update] else [],
        false⟩ := by
  have hmax : syncMessageType ≤ maxUint := by
    rcases htype with rfl | rfl <;> decide
  unfold onSync
  rw [hL.varUint _ hmax]
  simp only
  rw [if_pos htype, hL.read_write hle]
  simp only
  split_ifs <;> rfl

/-- The update of an awareness frame, as `onAwareness` has it. -/
theorem onAwarenessUpdate_entries (hL : S.L.Lawful) {e : AwarenessEntry σ}
    {rest : List (AwarenessEntry σ)} (hlen : rest.length + 1 ≤ maxUint) (he : e.Readable) :
    ∃ u', u.onAwareness (e :: rest) = some u' ∧
      onAwarenessUpdate S u (S.L.encodeAwarenessUpdate (e :: rest)) =
        ⟨u', [.awareness (S.payload (S.L.encodeAwarenessUpdate (e :: rest)))], false⟩ := by
  obtain ⟨more, hbytes⟩ := hL.awarenessUpdate e rest
  unfold WSUser.onAwareness onAwarenessUpdate
  generalize hupdate : S.L.encodeAwarenessUpdate (e :: rest) = update
  rw [hupdate] at hbytes
  rw [hbytes, hL.varUint _ hlen]
  simp only
  rw [hL.varUint _ he.clientID]
  simp only
  split_ifs
  · rw [hL.varUint _ he.clock]
    exact ⟨_, rfl, rfl⟩
  · exact ⟨_, rfl, rfl⟩

/-- **A frame that is written as the protocol says**: the step lemma. -/
theorem message_frame (now : Nat) (hL : S.L.Lawful) (hw : u.hasWriteAccess = true)
    (hf : f.Sendable S) :
    ∃ u', u.onFrames f.entries?.toList = some u' ∧
      message S now u (f.encode S.L) = ⟨u', f.added S now u.authInfo.userid, false⟩ := by
  have hsync : ∀ m, message S now u (S.L.varUint.write messageSync ++ m) = onSync S now u m := by
    intro m
    unfold message
    rw [if_neg (by simp [hw]), hL.varUint messageSync (by decide)]
    rfl
  cases f with
  | syncStep1 sv =>
    refine ⟨u, rfl, (hsync _).trans ?_⟩
    unfold onSync
    rw [hL.varUint messageSyncStep1 (by decide)]
    rfl
  | syncStep2 update => exact ⟨u, rfl, (hsync _).trans (onSync_update hL (.inr rfl) hf.1 hf.2)⟩
  | syncUpdate update => exact ⟨u, rfl, (hsync _).trans (onSync_update hL (.inl rfl) hf.1 hf.2)⟩
  | awareness entries =>
    cases entries with
    | nil => exact absurd hf id
    | cons e rest =>
      obtain ⟨hlen, hrest, he⟩ := hf
      obtain ⟨u', hu', hturn⟩ := onAwarenessUpdate_entries (S := S) (u := u) hL hrest he
      refine ⟨u', by simp [Frame.entries?, WSUser.onFrames, hu'], Eq.trans ?_ hturn⟩
      unfold message Frame.encode encodeAwareness
      rw [if_neg (by simp [hw]), hL.varUint messageAwareness (by decide)]
      simp only [messageAwareness]
      rw [hL.read_write hlen]

/-- What `destroy` publishes is the update of the entries. -/
theorem encode_disconnects (hL : S.L.Lawful) (u : WSUser) :
    u.disconnects.map S.L.encodeAwarenessUpdate =
      u.departure.map fun d => encodeUserDisconnected S.L d.2.1 d.2.2 := by
  rw [WSUser.disconnects, List.map_map]
  exact List.map_congr_left fun d _ => hL.removal d.2.1 (d.2.2 + 1)

/-- **What a client sends arrives**: of frames that are written as the protocol says, in any order,
every update with content and every awareness update is added to the stream, as it is and in the
order of the frames, and the connection keeps of the awareness what it does of the entries, and
publishes when it is destroyed what it does of them. -/
theorem messages_frames (hL : S.L.Lawful) (hw : u.hasWriteAccess = true)
    (fs : List (Nat × Frame σ)) (hfs : ∀ f ∈ fs, f.2.Sendable S) :
    ∃ u', u.onFrames (fs.filterMap fun f => f.2.entries?) = some u' ∧
      messages S u (fs.map fun f => (f.1, f.2.encode S.L)) =
        ⟨u', fs.flatMap fun f => f.2.added S f.1 u.authInfo.userid, false⟩ ∧
      u'.disconnects.map S.L.encodeAwarenessUpdate =
        u'.departure.map fun d => encodeUserDisconnected S.L d.2.1 d.2.2 := by
  induction fs generalizing u with
  | nil => exact ⟨u, rfl, rfl, encode_disconnects hL u⟩
  | cons f fs ih =>
    obtain ⟨hf, hfs⟩ := List.forall_mem_cons.mp hfs
    obtain ⟨v, hv, hturn⟩ := message_frame f.1 hL hw hf
    have hsame := (message_ok S f.1 u (f.2.encode S.L)).same
    rw [hturn] at hsame
    obtain ⟨u', hu', hrest, hgone⟩ := ih (hsame.hasWriteAccess.trans hw) hfs
    have hframes : u.onFrames ((f :: fs).filterMap fun f => f.2.entries?) = some u' := by
      rw [WSUser.onFrames, List.filterMap_cons]
      cases hentries : f.2.entries? with
      | none =>
        rw [hentries] at hv
        obtain rfl := Option.some.inj hv
        exact hu'
      | some entries =>
        rw [hentries] at hv
        rw [List.foldlM_cons]
        have hv : u.onAwareness entries = some v := by simpa [WSUser.onFrames] using hv
        rw [hv]
        exact hu'
    refine ⟨u', hframes, ?_, hgone⟩
    rw [List.map_cons, messages, hturn]
    simp only [Bool.false_eq_true, if_false]
    rw [hrest, List.flatMap_cons, hsame.authInfo]

end Frames

/-! ## An instance -/

/-- `writeVarString` -/
def writeVarStringRef (s : String) : Bytes :=
  (Codec.bytes (.leb128 maxUint)).write (s.toList.flatMap String.utf8EncodeChar)

/-- Bytes, as `lib0` writes them; awareness states are strings. -/
def lib0Ref : Lib0 String where
  varUint := .leb128 maxUint
  writeVarString := writeVarStringRef
  encodeAwarenessUpdate entries := Codec.writeNat entries.length ++ entries.flatMap fun e =>
    Codec.writeNat e.clientID ++ (Codec.writeNat e.clock ++ writeVarStringRef (e.state.getD "null"))

theorem lib0Ref_lawful : lib0Ref.Lawful where
  varUint := Codec.leb128_reads maxUint
  awarenessUpdate e rest := by
    simp only [lib0Ref, Codec.leb128, List.length_cons, List.flatMap_cons, List.append_assoc,
      List.append_cancel_left_eq]
    exact ⟨_, rfl⟩
  removal clientID clock := by
    simp only [lib0Ref, Codec.leb128, List.flatMap_cons, List.flatMap_nil, List.append_nil,
      List.length_singleton, Option.getD_none]

/-- A connection to the reference implementation. -/
def sessionRef : Session String yjsRef where
  L := lib0Ref
  payload b := .doc (b.map UInt8.toNat)
  readable _ := true
  customAttributions := []

/-- Alice sends a cursor and an update. -/
def aliceFrames : List (Nat × Frame String) :=
  [(5, .awareness [⟨7, 1, some "{}"⟩]), (6, .syncUpdate [1, 2, 3, 4])]

theorem messages_frames_of_alice : ∃ u',
    (WSUser.new Room.a true ⟨"alice", []⟩).onFrames (σ := String) [[⟨7, 1, some "{}"⟩]] = some u' ∧
      messages sessionRef (WSUser.new Room.a true ⟨"alice", []⟩)
        (aliceFrames.map fun f => (f.1, f.2.encode lib0Ref)) =
          ⟨u', aliceFrames.flatMap fun f => f.2.added sessionRef f.1 "alice", false⟩ ∧
      u'.disconnects.map lib0Ref.encodeAwarenessUpdate =
        u'.departure.map fun d => encodeUserDisconnected lib0Ref d.2.1 d.2.2 :=
  messages_frames lib0Ref_lawful rfl aliceFrames (by
    intro f hf
    simp only [aliceFrames, List.mem_cons, List.not_mem_nil, or_false] at hf
    rcases hf with rfl | rfl
    · have hupdate : lib0Ref.encodeAwarenessUpdate [⟨7, 1, some "{}"⟩] =
          [1, 7, 1, 2, 123, 125] := by
        simp only [lib0Ref, writeVarStringRef, Codec.bytes, Codec.leb128, List.flatMap_cons,
          List.flatMap_nil, List.length_singleton]
        rw [Codec.writeNat_of_lt (by decide), Codec.writeNat_of_lt (by decide),
          Codec.writeNat_of_lt (by decide)]
        decide
      exact ⟨by rw [sessionRef, hupdate]; decide, by decide, by decide, by decide⟩
    · exact ⟨by decide, rfl⟩)

end YHub
