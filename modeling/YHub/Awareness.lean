import YHub.Lib.InsertionMap
import YHub.Lib.LeftMax
import Mathlib.Data.Prod.Lex

/-!
# Awareness updates (`protocol.js:24-38`, `protocol.js:86-88`)

An awareness instance keeps a clock and a state, or none, for every client it has heard of. An
update has entries, each of which gives a client a clock and a state or `null`. `@y/protocols` is a
dependency: an entry is accepted if its clock is larger than the known one, or if it is the same and
the entry removes a state (`ClientAwareness.accepts`). What an instance does about an entry of its
own client is a parameter (`own`), and so is the id that a new instance draws.

`mergeAwarenessUpdates` applies the updates to an instance of its own, without the client of that,
and encodes all clients that the instance has heard of, the removed ones too.

* `awareness_merged`: who applies the merged update has the same states and clocks as who
  applies the parts.
* `view_applyAwarenessUpdate`: the entries of a client are joined one after the other.
-/

namespace YHub

variable {σ : Type}

/-- The entry of a client in an awareness update; `state = none` is `null`. -/
structure AwarenessEntry (σ : Type) where
  clientID : Nat
  clock : Nat
  state : Option σ
  deriving DecidableEq, Repr

/-- What is known of a client. -/
structure ClientAwareness (σ : Type) where
  clock : Nat
  state : Option σ
  deriving DecidableEq, Repr

/-- An awareness instance. A state of another client came with a clock that is not `0`. -/
structure Awareness (σ : Type) where
  clientID : Nat
  states : InsertionMap Nat σ
  /-- The clocks of `meta`. -/
  clocks : InsertionMap Nat Nat
  clock_pos : ∀ c s, c ≠ clientID → states.get c = some s → ∃ k, clocks.get c = some k ∧ 0 < k

/-- `currClock < clock || (currClock === clock && state === null && states.has(clientID))` -/
def ClientAwareness.accepts (known : ClientAwareness σ) (e : AwarenessEntry σ) : Bool :=
  known.clock < e.clock || known.clock = e.clock && e.state.isNone && known.state.isSome

namespace Awareness

/-- `new Awareness(doc)`, where the document has drawn the id; `empty` is the state `{}`. -/
def new (clientID : Nat) (empty : σ) : Awareness σ where
  clientID := clientID
  states := InsertionMap.empty.set clientID empty
  clocks := InsertionMap.empty.set clientID 0
  clock_pos c s hc h := by
    rw [InsertionMap.get_set, if_neg hc] at h
    exact absurd h (by simp)

/-- `aw.states.delete(aw.clientID)`, `aw.meta.delete(aw.clientID)` -/
def strip (aw : Awareness σ) : Awareness σ where
  clientID := aw.clientID
  states := aw.states.delete aw.clientID
  clocks := aw.clocks.delete aw.clientID
  clock_pos c s hc h := by
    rw [InsertionMap.get_delete, if_neg hc] at h ⊢
    exact aw.clock_pos c s hc h

/-- What is known of a client; a client that is not known has the clock `0`. -/
def known (aw : Awareness σ) (c : Nat) : ClientAwareness σ :=
  ⟨(aw.clocks.get c).getD 0, aw.states.get c⟩

/-- The state of a client is set or deleted, and its clock is set. -/
def put (aw : Awareness σ) (c : Nat) (k : ClientAwareness σ)
    (hpos : c ≠ aw.clientID → 0 < k.clock) : Awareness σ where
  clientID := aw.clientID
  states := match k.state with
    | some s => aw.states.set c s
    | none => aw.states.delete c
  clocks := aw.clocks.set c k.clock
  clock_pos c' s hc h := by
    rw [InsertionMap.get_set]
    split_ifs with hcc
    · exact ⟨_, rfl, hpos (hcc ▸ hc)⟩
    · refine aw.clock_pos c' s hc ?_
      split at h
      · rwa [InsertionMap.get_set, if_neg hcc] at h
      · rwa [InsertionMap.get_delete, if_neg hcc] at h

/-- An entry that is accepted has a clock that is not `0`. -/
theorem clock_pos_of_accepts {aw : Awareness σ} {e : AwarenessEntry σ}
    (h : (aw.known e.clientID).accepts e = true) (hne : e.clientID ≠ aw.clientID) :
    0 < e.clock := by
  unfold ClientAwareness.accepts at h
  rcases (Bool.or_eq_true _ _).mp h with h | h
  · exact Nat.zero_lt_of_lt (of_decide_eq_true h)
  · obtain ⟨h, hstate⟩ := (Bool.and_eq_true _ _).mp h
    obtain ⟨hclock, -⟩ := (Bool.and_eq_true _ _).mp h
    obtain ⟨s, hs⟩ := Option.isSome_iff_exists.mp hstate
    obtain ⟨k, hk, hpos⟩ := aw.clock_pos e.clientID s hne hs
    have hclock : (aw.known e.clientID).clock = e.clock := of_decide_eq_true hclock
    simp only [known, hk, Option.getD_some] at hclock
    rwa [hclock] at hpos

variable (own : ClientAwareness σ → AwarenessEntry σ → Option (ClientAwareness σ))

/-- One turn of the loop of `applyAwarenessUpdate`. -/
def applyEntry (aw : Awareness σ) (e : AwarenessEntry σ) : Awareness σ :=
  if hown : e.clientID = aw.clientID then
    match own (aw.known e.clientID) e with
    | some k => aw.put e.clientID k fun hne => absurd hown hne
    | none => aw
  else if h : (aw.known e.clientID).accepts e = true then
    aw.put e.clientID ⟨e.clock, e.state⟩ fun hne => clock_pos_of_accepts h hne
  else aw

def applyAwarenessUpdate (aw : Awareness σ) (update : List (AwarenessEntry σ)) : Awareness σ :=
  update.foldl (applyEntry own) aw

/-- `encodeAwarenessUpdate`; it throws for a client that is not known. -/
def encodeAwarenessUpdate (aw : Awareness σ) (clients : List Nat) :
    Option (List (AwarenessEntry σ)) :=
  clients.mapM fun c => (aw.clocks.get c).map fun clock => ⟨c, clock, aw.states.get c⟩

end Awareness

/-- `mergeAwarenessUpdates`, the update inside. -/
def mergeAwarenessUpdates
    (own : ClientAwareness σ → AwarenessEntry σ → Option (ClientAwareness σ)) (empty : σ)
    (clientID : Nat) (ms : List (List (AwarenessEntry σ))) : Option (List (AwarenessEntry σ)) :=
  let aw := (Awareness.new clientID empty).strip
  let aw := ms.foldl (Awareness.applyAwarenessUpdate own) aw
  aw.encodeAwarenessUpdate aw.clocks.keys

/-! ## What an instance knows of a client -/

namespace Awareness

/-- What an instance has heard of a client, if anything. -/
def view (aw : Awareness σ) (c : Nat) : Option (ClientAwareness σ) :=
  (aw.clocks.get c).map (⟨·, aw.states.get c⟩)

/-- The order of clocks, where a removal comes after a state of the same clock. -/
def rank : Option (ClientAwareness σ) → Nat ×ₗ Bool
  | none => toLex (0, true)
  | some k => toLex (k.clock, k.state.isNone)

/-- What an entry says of its client. -/
def ofEntry (e : AwarenessEntry σ) : Option (ClientAwareness σ) := some ⟨e.clock, e.state⟩

/-- What an update says of a client. -/
def said (c : Nat) (update : List (AwarenessEntry σ)) : List (Option (ClientAwareness σ)) :=
  (update.filter (·.clientID = c)).map ofEntry

variable {aw : Awareness σ} {c : Nat}

/-- A client that has no clock has no state. -/
theorem states_eq_none (hc : c ≠ aw.clientID) (h : aw.clocks.get c = none) :
    aw.states.get c = none := by
  cases hs : aw.states.get c with
  | none => rfl
  | some s =>
    obtain ⟨k, hk, -⟩ := aw.clock_pos c s hc hs
    exact absurd (h.symm.trans hk) (by simp)

theorem rank_view (hc : c ≠ aw.clientID) :
    rank (aw.view c) = toLex ((aw.known c).clock, (aw.known c).state.isNone) := by
  unfold view known
  cases h : aw.clocks.get c with
  | none =>
    rw [states_eq_none hc h]
    rfl
  | some k => rfl

/-- **What is accepted** is what is strictly newer. -/
theorem accepts_iff (hc : c ≠ aw.clientID) (e : AwarenessEntry σ) :
    (aw.known c).accepts e = true ↔ rank (aw.view c) < rank (ofEntry e) := by
  rw [rank_view hc]
  show _ ↔ toLex _ < toLex (e.clock, e.state.isNone)
  rw [Prod.Lex.toLex_lt_toLex]
  unfold ClientAwareness.accepts
  cases e.state <;> cases (aw.known c).state <;> simp

/-- What is known of a client is never older than nothing. -/
theorem rank_none_le_view (hc : c ≠ aw.clientID) :
    rank (none : Option (ClientAwareness σ)) ≤ rank (aw.view c) := by
  unfold view
  cases h : aw.clocks.get c with
  | none => exact le_rfl
  | some k =>
    show toLex _ ≤ toLex (k, (aw.states.get c).isNone)
    rw [Prod.Lex.toLex_le_toLex]
    cases hs : aw.states.get c with
    | none => exact (Nat.eq_zero_or_pos k).symm.imp id fun hk => ⟨hk.symm, le_rfl⟩
    | some s =>
      obtain ⟨k', hk', hpos⟩ := aw.clock_pos c s hc hs
      obtain rfl := Option.some.inj (h.symm.trans hk')
      exact Or.inl hpos

theorem view_put (k : ClientAwareness σ) (hpos : c ≠ aw.clientID → 0 < k.clock) (c' : Nat) :
    (aw.put c k hpos).view c' = if c' = c then some k else aw.view c' := by
  obtain ⟨clock, state⟩ := k
  unfold view put
  simp only [InsertionMap.get_set]
  split_ifs with hc
  · cases state <;> simp [hc, InsertionMap.get_set, InsertionMap.get_delete]
  · cases state <;> simp [hc, InsertionMap.get_set, InsertionMap.get_delete]

variable {own : ClientAwareness σ → AwarenessEntry σ → Option (ClientAwareness σ)}

@[simp] theorem clientID_applyEntry (e : AwarenessEntry σ) :
    (aw.applyEntry own e).clientID = aw.clientID := by
  unfold applyEntry
  split_ifs
  · split <;> rfl
  · rfl
  · rfl

theorem view_applyEntry_of_ne {e : AwarenessEntry σ} (h : e.clientID ≠ c) :
    (aw.applyEntry own e).view c = aw.view c := by
  unfold applyEntry
  split_ifs
  · split
    · rw [view_put, if_neg h.symm]
    · rfl
  · rw [view_put, if_neg h.symm]
  · rfl

/-- An entry of another client is joined to what is known. -/
theorem view_applyEntry {e : AwarenessEntry σ} (hc : e.clientID ≠ aw.clientID) :
    (aw.applyEntry own e).view e.clientID = LeftMax.join rank (aw.view e.clientID) (ofEntry e) := by
  unfold applyEntry LeftMax.join
  rw [dif_neg hc]
  split_ifs with haccepts hlt hlt
  · rw [view_put, if_pos rfl]
    rfl
  · exact absurd ((accepts_iff hc e).mp haccepts) hlt
  · exact absurd ((accepts_iff hc e).mpr hlt) haccepts
  · rfl

/-- **The entries of a client are joined one after the other**, unless it is the own one. -/
theorem view_applyAwarenessUpdate (update : List (AwarenessEntry σ))
    (hc : c ≠ aw.clientID ∨ ∀ e ∈ update, e.clientID ≠ c) :
    (aw.applyAwarenessUpdate own update).view c =
      (said c update).foldl (LeftMax.join rank) (aw.view c) := by
  unfold applyAwarenessUpdate
  induction update generalizing aw with
  | nil => rfl
  | cons e update ih =>
    have hc' : c ≠ (aw.applyEntry own e).clientID ∨ ∀ e ∈ update, e.clientID ≠ c := by
      rw [clientID_applyEntry]
      exact hc.imp id fun h e he => h e (List.mem_cons_of_mem _ he)
    rw [List.foldl_cons, ih hc']
    unfold said
    by_cases he : e.clientID = c
    · subst he
      have hne : e.clientID ≠ aw.clientID :=
        hc.resolve_right fun h => h e List.mem_cons_self rfl
      rw [view_applyEntry hne, List.filter_cons_of_pos (by simp), List.map_cons, List.foldl_cons]
    · rw [view_applyEntry_of_ne he, List.filter_cons_of_neg (by simpa using he)]

theorem clientID_applyAwarenessUpdate (update : List (AwarenessEntry σ)) :
    (aw.applyAwarenessUpdate own update).clientID = aw.clientID := by
  unfold applyAwarenessUpdate
  induction update generalizing aw with
  | nil => rfl
  | cons e update ih => rw [List.foldl_cons, ih, clientID_applyEntry]

/-- Applying updates is applying their entries. -/
theorem foldl_applyAwarenessUpdate (ms : List (List (AwarenessEntry σ))) :
    ms.foldl (applyAwarenessUpdate own) aw = aw.applyAwarenessUpdate own ms.flatten := by
  unfold applyAwarenessUpdate
  rw [List.foldl_flatten]

/-- What an instance has heard of all clients is encoded. -/
theorem encodeAwarenessUpdate_keys (aw : Awareness σ) :
    aw.encodeAwarenessUpdate aw.clocks.keys =
      some (aw.clocks.entries.map fun e => ⟨e.1, e.2, aw.states.get e.1⟩) := by
  have hall (l : List (Nat × Nat)) (hl : ∀ e ∈ l, e ∈ aw.clocks.entries) :
      aw.encodeAwarenessUpdate (l.map Prod.fst) =
        some (l.map fun e => ⟨e.1, e.2, aw.states.get e.1⟩) := by
    unfold encodeAwarenessUpdate
    induction l with
    | nil => rfl
    | cons e l ih =>
      have hget : aw.clocks.get e.1 = some e.2 :=
        InsertionMap.get_eq_some.mpr (hl e List.mem_cons_self)
      rw [List.map_cons, List.mapM_cons, hget, ih fun e he => hl e (List.mem_cons_of_mem _ he)]
      rfl
  exact hall _ fun _ he => he

/-- What the encoded update says of a client. -/
theorem said_encoded (aw : Awareness σ) (c : Nat) :
    said c (aw.clocks.entries.map fun e => ⟨e.1, e.2, aw.states.get e.1⟩) =
      (aw.view c).toList.map some := by
  unfold said view
  rw [List.filter_map]
  show List.map _ (List.map _ (aw.clocks.entries.filter fun e => e.1 = c)) = _
  rw [InsertionMap.filter_entries]
  cases aw.clocks.get c <;> rfl

theorem view_strip_new (clientID : Nat) (empty : σ) (c : Nat) :
    (new clientID empty).strip.view c = none := by
  unfold view strip new
  simp only [InsertionMap.get_delete, InsertionMap.get_set]
  split_ifs <;> rfl

/-- What is known of another client determines its state and its clock. -/
theorem eq_of_view_eq {aw' : Awareness σ} (hc : c ≠ aw.clientID) (hc' : c ≠ aw'.clientID)
    (h : aw.view c = aw'.view c) :
    aw.states.get c = aw'.states.get c ∧ aw.clocks.get c = aw'.clocks.get c := by
  unfold view at h
  cases hk : aw.clocks.get c with
  | none =>
    rw [hk, Option.map_none, eq_comm, Option.map_eq_none_iff] at h
    exact ⟨(states_eq_none hc hk).trans (states_eq_none hc' h).symm, h.symm⟩
  | some k =>
    rw [hk, Option.map_some, eq_comm, Option.map_eq_some_iff] at h
    obtain ⟨k', hk', heq⟩ := h
    obtain ⟨rfl, hs⟩ := ClientAwareness.mk.inj heq
    exact ⟨hs.symm, hk'.symm⟩

end Awareness

/-- **Merged awareness updates.** The updates are merged, and who applies the merged update knows
the same states and clocks, of all clients but itself, as who applies the updates one after the
other. The id of the instance that they are merged in is new. -/
theorem awareness_merged (own : ClientAwareness σ → AwarenessEntry σ → Option (ClientAwareness σ))
    (empty : σ) {clientID : Nat} {ms : List (List (AwarenessEntry σ))}
    (hnew : ∀ m ∈ ms, ∀ e ∈ m, e.clientID ≠ clientID) (receiver : Awareness σ) :
    ∃ update, mergeAwarenessUpdates own empty clientID ms = some update ∧
      ∀ c ≠ receiver.clientID,
        let merged := receiver.applyAwarenessUpdate own update
        let parts := ms.foldl (Awareness.applyAwarenessUpdate own) receiver
        merged.states.get c = parts.states.get c ∧ merged.clocks.get c = parts.clocks.get c := by
  have hentries : ∀ e ∈ ms.flatten, e.clientID ≠ clientID := by
    intro e he
    obtain ⟨m, hm, he⟩ := List.mem_flatten.mp he
    exact hnew m hm e he
  refine ⟨_, Awareness.encodeAwarenessUpdate_keys _, fun c hc => ?_⟩
  simp only [Awareness.foldl_applyAwarenessUpdate]
  refine Awareness.eq_of_view_eq ?_ ?_ ?_
  · rwa [Awareness.clientID_applyAwarenessUpdate]
  · rwa [Awareness.clientID_applyAwarenessUpdate]
  -- the instance in between knows what the entries of the client come to
  have hview : (((Awareness.new clientID empty).strip).applyAwarenessUpdate own ms.flatten).view c =
      (Awareness.said c ms.flatten).foldl (LeftMax.join Awareness.rank) none := by
    rw [Awareness.view_applyAwarenessUpdate, Awareness.view_strip_new]
    by_cases hown : c = clientID
    · exact Or.inr (hown ▸ hentries)
    · exact Or.inl hown
  have hnone : LeftMax.join Awareness.rank (receiver.view c) none = receiver.view c :=
    LeftMax.join_eq_left (Awareness.rank_none_le_view hc)
  rw [Awareness.view_applyAwarenessUpdate _ (Or.inl hc),
    Awareness.view_applyAwarenessUpdate _ (Or.inl hc), Awareness.said_encoded, hview]
  calc ((Awareness.said c ms.flatten).foldl (LeftMax.join Awareness.rank) none).toList.map some
        |>.foldl (LeftMax.join Awareness.rank) (receiver.view c)
    _ = LeftMax.join Awareness.rank (receiver.view c)
          ((Awareness.said c ms.flatten).foldl (LeftMax.join Awareness.rank) none) := by
      cases (Awareness.said c ms.flatten).foldl (LeftMax.join Awareness.rank) none with
      | none => exact hnone.symm
      | some k => rfl
    _ = (Awareness.said c ms.flatten).foldl (LeftMax.join Awareness.rank)
          (LeftMax.join Awareness.rank (receiver.view c) none) :=
      (LeftMax.foldl_join _ _ _).symm
    _ = (Awareness.said c ms.flatten).foldl (LeftMax.join Awareness.rank) (receiver.view c) := by
      rw [hnone]

/-! ## A client that appears and disconnects -/

/-- The own client of an instance is never removed: its clock is raised. -/
def keepOwn (known : ClientAwareness String) (e : AwarenessEntry String) :
    Option (ClientAwareness String) :=
  if known.accepts e then
    match e.state, known.state with
    | none, some s => some ⟨e.clock + 1, some s⟩
    | state, _ => some ⟨e.clock, state⟩
  else none

/-- Client `7` appears and disconnects. Who is told at once knows that it is gone, at clock `2`. -/
theorem awareness_merged_of_disconnect : ∃ update,
    mergeAwarenessUpdates keepOwn "{}" 5 [[⟨7, 1, some "alice"⟩], [⟨7, 2, none⟩]] = some update ∧
      let merged := (Awareness.new 6 "{}").applyAwarenessUpdate keepOwn update
      merged.states.get 7 = none ∧ merged.clocks.get 7 = some 2 := by
  have hnew : ∀ m ∈ [[(⟨7, 1, some "alice"⟩ : AwarenessEntry String)], [⟨7, 2, none⟩]],
      ∀ e ∈ m, e.clientID ≠ 5 := by decide
  obtain ⟨update, hupdate, hsame⟩ := awareness_merged keepOwn "{}" hnew (Awareness.new 6 "{}")
  refine ⟨update, hupdate, ?_⟩
  obtain ⟨hstates, hclocks⟩ := hsame 7 (by decide)
  exact ⟨hstates.trans (by decide), hclocks.trans (by decide)⟩

end YHub
