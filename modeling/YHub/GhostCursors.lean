import YHub.Awareness
import YHub.WSUser

/-!
# The awareness of a connection (`server.js:308-319`, `server.js:473-484`, `protocol.js:94-100`)

Every awareness frame of a connection is published. The connection keeps one client id and one
clock: those of a frame with a single entry, as long as the id is the same; the clock is
overwritten. `destroy` publishes that the client with this id is gone, at the next clock, unless the
id is `0`.

* `no_ghost_iff`: a peer that has applied all of it has no state left for the id, if and only if the
  last it has heard of the id before is a removal, or the id is not `0` and that came with a clock
  which is at most one larger than the clock of the connection.
* `ghost_cursor`: a larger clock in a frame of two entries.
-/

namespace YHub

variable {σ : Type}

/-- `encodeAwarenessUserDisconnected` -/
def encodeAwarenessUserDisconnected (clientid lastClock : Nat) : List (AwarenessEntry σ) :=
  [⟨clientid, lastClock + 1, none⟩]

namespace WSUser

/-- The handler of an awareness message: the frame is published, and the user has changed. An empty
update ends before an id is read from it: it is not published, and the connection closes. -/
def onAwareness (u : WSUser) : List (AwarenessEntry σ) → Option WSUser
  | [] => none
  | e :: rest =>
    let alen := rest.length + 1
    if alen = 1 ∧ (u.awarenessId = none ∨ u.awarenessId = some e.clientID) then
      some { u with awarenessId := some e.clientID, awarenessLastClock := e.clock }
    else some u

/-- What `destroy` publishes. -/
def disconnects (u : WSUser) : List (List (AwarenessEntry σ)) :=
  u.departure.map fun d => encodeAwarenessUserDisconnected d.2.1 d.2.2

/-- The awareness messages of a connection. -/
def onFrames (u : WSUser) (frames : List (List (AwarenessEntry σ))) : Option WSUser :=
  frames.foldlM onAwareness u

end WSUser

/-- The entries of the frames that have only one. -/
def singles (frames : List (List (AwarenessEntry σ))) : List (AwarenessEntry σ) :=
  frames.filterMap fun
    | [e] => some e
    | _ => none

/-- The id that a connection with these frames keeps. -/
def trackedId (frames : List (List (AwarenessEntry σ))) : Option Nat :=
  (singles frames).head?.map AwarenessEntry.clientID

/-- The clock that it keeps with the id. -/
def trackedClock (frames : List (List (AwarenessEntry σ))) (id : Nat) : Nat :=
  (((singles frames).filter (·.clientID = id)).getLast?.map AwarenessEntry.clock).getD 0

/-- The newest that a peer has heard of a client, from the frames or before them. -/
def latest (peer : Awareness σ) (frames : List (List (AwarenessEntry σ))) (id : Nat) :
    Option (ClientAwareness σ) :=
  (Awareness.said id frames.flatten).foldl (LeftMax.join Awareness.rank) (peer.view id)

theorem singles_append_singleton (frames : List (List (AwarenessEntry σ)))
    (f : List (AwarenessEntry σ)) : singles (frames ++ [f]) = singles frames ++ singles [f] :=
  List.filterMap_append

theorem singles_of_ne {f : List (AwarenessEntry σ)} (h : ∀ e, f ≠ [e]) : singles [f] = [] := by
  unfold singles
  match f with
  | [] => rfl
  | [e] => exact absurd rfl (h e)
  | _ :: _ :: _ => rfl

theorem trackedId_append_singleton (frames : List (List (AwarenessEntry σ)))
    (f : List (AwarenessEntry σ)) :
    trackedId (frames ++ [f]) = (trackedId frames).or (trackedId [f]) := by
  unfold trackedId
  rw [singles_append_singleton, List.head?_append, Option.map_or]

theorem trackedClock_append_self (frames : List (List (AwarenessEntry σ)))
    (e : AwarenessEntry σ) : trackedClock (frames ++ [[e]]) e.clientID = e.clock := by
  have hsingles : singles (frames ++ [[e]]) = singles frames ++ [e] :=
    singles_append_singleton frames [e]
  unfold trackedClock
  rw [hsingles, List.filter_append, List.filter_cons_of_pos (by simp), List.filter_nil,
    List.getLast?_append]
  rfl

theorem trackedClock_append_of_ne (frames : List (List (AwarenessEntry σ)))
    {f : List (AwarenessEntry σ)} {id : Nat} (h : ∀ e, f = [e] → e.clientID ≠ id) :
    trackedClock (frames ++ [f]) id = trackedClock frames id := by
  have hnil : (singles [f]).filter (·.clientID = id) = [] := by
    by_cases hf : ∃ e, f = [e]
    · obtain ⟨e, rfl⟩ := hf
      exact List.filter_cons_of_neg (by simpa using h e rfl)
    · rw [singles_of_ne (not_exists.mp hf)]
      rfl
  unfold trackedClock
  rw [singles_append_singleton, List.filter_append, hnil, List.append_nil]

/-! ## What a connection keeps -/

/-- The id and the clock are those of the frames. -/
structure WSUser.Tracks (u : WSUser) (frames : List (List (AwarenessEntry σ))) : Prop where
  id : u.awarenessId = trackedId frames
  clock : ∀ id, trackedId frames = some id → u.awarenessLastClock = trackedClock frames id

/-- The step lemma. -/
theorem WSUser.Tracks.onAwareness {u : WSUser} {frames : List (List (AwarenessEntry σ))}
    (h : u.Tracks frames) {f : List (AwarenessEntry σ)} (hf : f ≠ []) :
    ∃ u', u.onAwareness f = some u' ∧ u'.Tracks (frames ++ [f]) := by
  obtain ⟨e, rest, rfl⟩ := List.exists_cons_of_ne_nil hf
  unfold WSUser.onAwareness
  simp only
  rw [h.id]
  split_ifs with hsingle
  · -- a single entry, of the id that is kept or the first one
    obtain ⟨hlen, hid⟩ := hsingle
    obtain rfl : rest = [] := List.length_eq_zero_iff.mp (by omega)
    have htracked : trackedId (frames ++ [[e]]) = some e.clientID := by
      rw [trackedId_append_singleton]
      rcases hid with hid | hid <;> rw [hid] <;> rfl
    refine ⟨_, rfl, htracked.symm, fun id hid' => ?_⟩
    obtain rfl := Option.some.inj (htracked.symm.trans hid')
    exact (trackedClock_append_self frames e).symm
  · -- the frame is not looked at
    have hother : ∀ e', e :: rest = [e'] →
        trackedId frames ≠ none ∧ trackedId frames ≠ some e'.clientID := by
      intro e' he
      obtain ⟨rfl, rfl⟩ := List.cons.inj he
      simpa using hsingle
    have htracked : trackedId (frames ++ [e :: rest]) = trackedId frames := by
      rw [trackedId_append_singleton]
      cases hid : trackedId frames with
      | some id => rfl
      | none =>
        have hnone : singles [e :: rest] = [] := singles_of_ne fun e' he => (hother e' he).1 hid
        rw [Option.none_or, trackedId, hnone]
        rfl
    refine ⟨u, rfl, h.id.trans htracked.symm, fun id hid => ?_⟩
    rw [htracked] at hid
    rw [h.clock id hid]
    exact (trackedClock_append_of_ne frames fun e' he heq =>
      (hother e' he).2 (heq ▸ hid)).symm

/-- The run lemma. -/
theorem WSUser.tracks_onFrames (room : Room) (authInfo : AuthInfo)
    {frames : List (List (AwarenessEntry σ))} (hframes : ∀ f ∈ frames, f ≠ []) :
    ∃ u, (WSUser.new room true authInfo).onFrames frames = some u ∧ u.Tracks frames := by
  unfold WSUser.onFrames
  induction frames using List.reverseRecOn with
  | nil => exact ⟨_, rfl, rfl, fun id hid => absurd hid (Option.some_ne_none id).symm⟩
  | append_singleton frames f ih =>
    obtain ⟨u, hu, htracks⟩ := ih fun f hf => hframes f (List.mem_append_left _ hf)
    obtain ⟨u', hu', htracks'⟩ :=
      htracks.onAwareness (hframes f (List.mem_append_right _ (List.mem_singleton_self f)))
    refine ⟨u', ?_, htracks'⟩
    rw [List.foldlM_append, hu]
    show (u.onAwareness f >>= pure) = _
    rw [hu']
    rfl

/-! ## What a peer is left with -/

section Peer

variable {own : ClientAwareness σ → AwarenessEntry σ → Option (ClientAwareness σ)}
  {peer : Awareness σ} {id : Nat}

theorem view_eq_latest (hid : id ≠ peer.clientID) (frames : List (List (AwarenessEntry σ))) :
    (frames.foldl (Awareness.applyAwarenessUpdate own) peer).view id = latest peer frames id := by
  rw [Awareness.foldl_applyAwarenessUpdate, Awareness.view_applyAwarenessUpdate _ (Or.inl hid)]
  rfl

/-- A client has no state exactly if what is known of it is a removal, or nothing. -/
theorem states_eq_none_iff {aw : Awareness σ} (hid : id ≠ aw.clientID) :
    aw.states.get id = none ↔ ∀ k s, aw.view id ≠ some ⟨k, some s⟩ := by
  unfold Awareness.view
  cases hk : aw.clocks.get id with
  | none => simp [Awareness.states_eq_none hid hk]
  | some k =>
    simp only [Option.map_some, ne_eq, Option.some.injEq, ClientAwareness.mk.injEq, not_and,
      Option.eq_none_iff_forall_ne_some]
    exact ⟨fun h _ s _ => h s, fun h s => h k s rfl⟩

/-- A removal is newer than a state of the same clock. -/
theorem rank_state_lt_removal {k n : Nat} {s : σ} :
    Awareness.rank (some ⟨k, some s⟩) < Awareness.rank (some (⟨n, none⟩ : ClientAwareness σ)) ↔
      k ≤ n := by
  show toLex (k, false) < toLex (n, true) ↔ k ≤ n
  rw [Prod.Lex.toLex_lt_toLex, Nat.le_iff_lt_or_eq]
  simp

/-- After the disconnect. -/
theorem states_disconnect_iff (hid : id ≠ peer.clientID) (lastClock : Nat) :
    (peer.applyAwarenessUpdate own (encodeAwarenessUserDisconnected id lastClock)).states.get id =
        none ↔ ∀ k s, peer.view id = some ⟨k, some s⟩ → k ≤ lastClock + 1 := by
  have hsaid : Awareness.said id (encodeAwarenessUserDisconnected id lastClock) =
      [some (⟨lastClock + 1, none⟩ : ClientAwareness σ)] := by
    unfold Awareness.said encodeAwarenessUserDisconnected
    rw [List.filter_cons_of_pos (by simp)]
    rfl
  rw [states_eq_none_iff (by rwa [Awareness.clientID_applyAwarenessUpdate]),
    Awareness.view_applyAwarenessUpdate _ (Or.inl hid), hsaid, List.foldl_cons, List.foldl_nil]
  rcases lt_or_ge (Awareness.rank (peer.view id))
    (Awareness.rank (some (⟨lastClock + 1, none⟩ : ClientAwareness σ))) with hlt | hge
  · rw [LeftMax.join_eq_right hlt]
    refine iff_of_true (by simp) fun k s hview => ?_
    rw [hview] at hlt
    exact rank_state_lt_removal.mp hlt
  · rw [LeftMax.join_eq_left hge]
    refine forall₂_congr fun k s => ⟨fun hne hview => absurd hview hne, fun hle hview => ?_⟩
    rw [hview] at hge
    exact absurd (rank_state_lt_removal.mpr (hle hview)) (not_lt.mpr hge)

end Peer

/-- **No ghost cursors**, of the id that the connection keeps, exactly if the newest that a peer has
heard of it is a removal, or the disconnect is published and its clock is not smaller. -/
theorem no_ghost_iff (own : ClientAwareness σ → AwarenessEntry σ → Option (ClientAwareness σ))
    (room : Room) (authInfo : AuthInfo) {frames : List (List (AwarenessEntry σ))}
    (hframes : ∀ f ∈ frames, f ≠ []) :
    ∃ u, (WSUser.new room true authInfo).onFrames frames = some u ∧
      u.awarenessId = trackedId frames ∧
      ∀ id, trackedId frames = some id → ∀ peer : Awareness σ, id ≠ peer.clientID →
        (((frames ++ u.disconnects).foldl (Awareness.applyAwarenessUpdate own) peer).states.get id =
            none ↔
          ∀ k s, latest peer frames id = some ⟨k, some s⟩ →
            id ≠ 0 ∧ k ≤ trackedClock frames id + 1) := by
  obtain ⟨u, hu, htracks⟩ := WSUser.tracks_onFrames room authInfo hframes
  refine ⟨u, hu, htracks.id, fun id hid peer hpeer => ?_⟩
  have hclient : id ≠ (frames.foldl (Awareness.applyAwarenessUpdate own) peer).clientID := by
    rwa [Awareness.foldl_applyAwarenessUpdate, Awareness.clientID_applyAwarenessUpdate]
  have hlatest : (frames.foldl (Awareness.applyAwarenessUpdate own) peer).view id =
      latest peer frames id := view_eq_latest hpeer frames
  rw [List.foldl_append, ← hlatest]
  unfold WSUser.disconnects WSUser.departure
  rw [htracks.id, hid]
  simp only
  split_ifs with hzero
  · -- the id `0` is falsy
    rw [List.map_nil, List.foldl_nil, states_eq_none_iff hclient]
    exact forall₂_congr fun k s =>
      ⟨fun hne hview => absurd hview hne, fun h hview => (h hview).1 hzero⟩
  · simp only [List.map_cons, List.map_nil, List.foldl_cons, List.foldl_nil]
    rw [htracks.clock id hid, states_disconnect_iff hclient]
    simp [hzero]

/-! ## A cursor that stays -/

/-- Client `7` appears. -/
def appears : List (List (AwarenessEntry String)) := [[⟨7, 1, some "{}"⟩]]

/-- A peer that has heard nothing. -/
theorem no_ghost_iff_of_alice : ∃ u,
    (WSUser.new Room.a true ⟨"alice", []⟩).onFrames appears = some u ∧
      ((appears ++ u.disconnects).foldl (Awareness.applyAwarenessUpdate keepOwn)
        (Awareness.new 6 "{}")).states.get 7 = none := by
  have hframes : ∀ f ∈ appears, f ≠ [] := by decide
  obtain ⟨u, hu, -, hiff⟩ := no_ghost_iff keepOwn Room.a ⟨"alice", []⟩ hframes
  refine ⟨u, hu, (hiff 7 rfl (Awareness.new 6 "{}") (by decide)).mpr fun k s hlatest => ?_⟩
  have hone : latest (Awareness.new 6 "{}") appears 7 = some ⟨1, some "{}"⟩ := by decide
  obtain ⟨rfl, -⟩ := ClientAwareness.mk.inj (Option.some.inj (hone.symm.trans hlatest))
  exact ⟨by decide, by decide⟩

/-- **A cursor that stays.** The clock is then raised in a frame with an entry of another client.
The disconnect has the clock `2`. -/
theorem ghost_cursor :
    ¬ ∀ (frames : List (List (AwarenessEntry String))) (peer : Awareness String) (u : WSUser)
      (id : Nat), (∀ f ∈ frames, f ≠ []) →
        (WSUser.new Room.a true ⟨"alice", []⟩).onFrames frames = some u →
        u.awarenessId = some id → id ≠ peer.clientID →
          ((frames ++ u.disconnects).foldl (Awareness.applyAwarenessUpdate keepOwn)
            peer).states.get id = none := by
  intro h
  have hnone := h (appears ++ [[⟨7, 5, some "{}"⟩, ⟨8, 1, some "{}"⟩]]) (Awareness.new 6 "{}") _ 7
    (by decide) rfl rfl (by decide)
  exact absurd hnone (by decide)

end YHub
