import YHub.ReadYourWrites
import YHub.SameFilter

/-!
# `PATCH /ydoc` (`builtin-api.js:58-93`, `compute-worker.js:262-273`)

A client sends an update over HTTP. The handler reads the document, takes from the update what the
document does not have (`PatchYdoc.run`), attributes that to the user and adds it to the stream;
nothing is added when nothing is new. A deleted document refuses every request.

How Yjs takes content away from an update is a parameter (`Diffing`): what is left and the document
together have all of the update, and an update that is left without content has at most three bytes.

* `patch_acknowledged`: once the messages of a request are added, every later `getDoc` call covers
  the whole update that the client sent, not only what was added of it; and a request with the same
  update that begins after that adds no update.
-/

namespace YHub

variable {β : Type}

/-- What `patchYdoc` needs of Yjs besides. -/
structure Diffing (Y : Yjs β) where
  excludeContentIds : Content Y.IdSet → Content Y.IdSet → Content Y.IdSet
  byteLength : β → Nat

/-- The task `patchYdoc`. -/
structure PatchYdoc (β : Type) where
  update : β
  currentDoc : β
  userid : String
  customAttributions : List KV

namespace PatchYdoc

variable {Y : Yjs β} (A : Attributions Y) (D : Diffing Y) (msg : PatchYdoc β)

def newContentIds : Content Y.IdSet :=
  D.excludeContentIds (Y.createContentIdsFromUpdate msg.update)
    (Y.createContentIdsFromUpdate msg.currentDoc)

def diffedUpdate : β := A.intersectUpdateWithContentIds msg.update (msg.newContentIds D)

/-- The update and its content map. -/
def run (now : Nat) : Option (β × β) :=
  if 3 < D.byteLength (msg.diffedUpdate A D) then
    some (msg.diffedUpdate A D, createContentMap Y now
      (Y.createContentIdsFromUpdate (msg.diffedUpdate A D)) msg.userid msg.customAttributions)
  else none

end PatchYdoc

/-! ## The endpoint -/

/-- `req.body` -/
structure PatchBody (β : Type) where
  update : Option β
  awareness : Option β
  customAttributions : Option (List KV)

/-- What the handler asks `getDoc` for. -/
def patchInclude : Include := { gc := true }

section Endpoint

variable {Y : Yjs β} (A : Attributions Y) (D : Diffing Y) (emptyDoc : β) (now : Nat)
  (userid : String) (body : PatchBody β)

/-- The call of `computePool.patchYdoc`; `emptyDoc` is the update of a new document. -/
def patchTask (update : β) (doc : DocTable β) : PatchYdoc β where
  update := update
  currentDoc := (doc.gcDoc.or doc.nongcDoc).getD emptyDoc
  userid := userid
  customAttributions := body.customAttributions.getD []

/-- `patch`: the messages that it adds to the stream. `doc` is what `getDoc` returns, if there is an
update, and `tombstone` what `retrieveTombstone` does otherwise. -/
def patchEndpoint (doc : DocTable β) (tombstone : Option Tombstone) :
    Except ApiError (List (Message β)) :=
  let awareness := (body.awareness.map Message.awareness).toList
  match body.update with
  | some update =>
    match doc.tombstone with
    | some tombstone => .error (.docDeleted tombstone)
    | none =>
      let result := (patchTask emptyDoc userid body update doc).run A D now
      .ok ((result.map fun r => Message.ydocUpdate r.1 r.2).toList ++ awareness)
  | none =>
    match body.awareness, tombstone with
    | none, _ => .error (.error 400 "Invalid request body")
    | some _, some tombstone => .error (.docDeleted tombstone)
    | some _, none => .ok awareness

end Endpoint

/-! ## What a request comes to -/

variable [Preorder β] {Y : Yjs β}

/-- What is relied on when an update is taken apart. -/
structure Diffing.Lawful (A : Attributions Y) (D : Diffing Y) : Prop where
  /-- What is excluded is in the document. -/
  whole : ∀ u doc v, doc ≤ v → A.intersectUpdateWithContentIds u (D.excludeContentIds
    (Y.createContentIdsFromUpdate u) (Y.createContentIdsFromUpdate doc)) ≤ v → u ≤ v
  /-- An update of at most three bytes has no content. -/
  empty : ∀ u v, D.byteLength u ≤ 3 → u ≤ v
  excludeContentIds : ∀ c d x, Y.HasId (D.excludeContentIds c d) x ↔ Y.HasId c x ∧ ¬ Y.HasId d x
  /-- A document has the ids of what has been integrated. -/
  mono : ∀ u v x, u ≤ v → Y.HasId (Y.createContentIdsFromUpdate u) x →
    Y.HasId (Y.createContentIdsFromUpdate v) x
  byteLength : ∀ u c, (∀ x, ¬ Y.HasId c x) →
    D.byteLength (A.intersectUpdateWithContentIds u c) ≤ 3

variable {A : Attributions Y} {D : Diffing Y}

/-- **The document together with what is added has all of the update.** -/
theorem PatchYdoc.le_of_run (hD : D.Lawful A) (msg : PatchYdoc β) (now : Nat) {v : β}
    (hdoc : msg.currentDoc ≤ v) (hrun : ∀ r, msg.run A D now = some r → r.1 ≤ v) :
    msg.update ≤ v := by
  refine hD.whole msg.update msg.currentDoc v hdoc ?_
  by_cases hlen : 3 < D.byteLength (msg.diffedUpdate A D)
  · exact hrun _ (if_pos hlen)
  · exact hD.empty _ v (not_lt.mp hlen)

omit [Preorder β] in
theorem PatchYdoc.eq_of_run {msg : PatchYdoc β} {now : Nat} {r : β × β}
    (h : msg.run A D now = some r) : r.2 = createContentMap Y now
      (Y.createContentIdsFromUpdate r.1) msg.userid msg.customAttributions := by
  unfold PatchYdoc.run at h
  split_ifs at h
  obtain rfl := Option.some.inj h
  rfl

/-- An update that the document has adds nothing. -/
theorem PatchYdoc.run_eq_none (hD : D.Lawful A) (msg : PatchYdoc β) (now : Nat)
    (h : msg.update ≤ msg.currentDoc) : msg.run A D now = none := by
  refine if_neg (not_lt.mpr (hD.byteLength _ _ fun x hx => ?_))
  obtain ⟨hx, hn⟩ := (hD.excludeContentIds _ _ x).mp hx
  exact hn (hD.mono _ _ x h hx)

omit [Preorder β] in
/-- The messages of a request with an update. -/
theorem of_patchEndpoint {emptyDoc : β} {now : Nat} {userid : String} {body : PatchBody β}
    {update : β} (hbody : body.update = some update) {doc : DocTable β}
    {tombstone : Option Tombstone} {ms : List (Message β)}
    (h : patchEndpoint A D emptyDoc now userid body doc tombstone = .ok ms) :
    ms = (((patchTask emptyDoc userid body update doc).run A D now).map
        fun r => Message.ydocUpdate r.1 r.2).toList ++
      (body.awareness.map Message.awareness).toList := by
  unfold patchEndpoint at h
  rw [hbody] at h
  cases ht : doc.tombstone with
  | some t =>
    rw [ht] at h
    exact absurd h (by simp)
  | none =>
    rw [ht] at h
    exact (Except.ok.inj h).symm

omit [Preorder β] in
/-- Every other message of a request is its awareness. -/
theorem of_mem_patchEndpoint {emptyDoc : β} {now : Nat} {userid : String} {body : PatchBody β}
    {doc : DocTable β} {tombstone : Option Tombstone} {ms : List (Message β)}
    (h : patchEndpoint A D emptyDoc now userid body doc tombstone = .ok ms) {m : Message β}
    (hm : m ∈ ms) : (∃ update r, (patchTask emptyDoc userid body update doc).run A D now = some r ∧
      m = .ydocUpdate r.1 r.2) ∨ ∃ awareness, m = .awareness awareness := by
  have hawareness : m ∈ (body.awareness.map Message.awareness).toList →
      ∃ awareness, m = .awareness awareness := by
    intro hm
    obtain ⟨a, -, he⟩ := Option.map_eq_some_iff.mp (Option.mem_toList.mp hm)
    exact ⟨a, he.symm⟩
  cases hbody : body.update with
  | some update =>
    rw [of_patchEndpoint hbody h] at hm
    rcases List.mem_append.mp hm with hm | hm
    · obtain ⟨r, hr, he⟩ := Option.map_eq_some_iff.mp (Option.mem_toList.mp hm)
      exact .inl ⟨update, r, hr, he.symm⟩
    · exact .inr (hawareness hm)
  | none =>
    unfold patchEndpoint at h
    rw [hbody] at h
    simp only at h
    split at h
    · exact absurd h (by simp)
    · exact absurd h (by simp)
    · obtain rfl := Except.ok.inj h
      exact .inr (hawareness hm)

section Runs

variable {C : Conf β} {room : Room} {admits : Message β → Prop}
  {fires : Interleave.State (Hub β) Nat (Proc β) → ObjectId → Prop}
  {reads : Hub β → Retrieval β → Prop} {x₁ x₀ x : Interleave.State (Hub β) Nat (Proc β)}
  {A : Attributions C.Y} {D : Diffing C.Y} {emptyDoc : β} {now : Nat} {userid : String}
  {body : PatchBody β} {update : β} {doc doc' : DocTable β} {ms : List (Message β)}
  {tombstone : Option Tombstone} {i : Include} {j k : Nat}

/-- No update of the log is lost. -/
theorem mem_updates_of_run (hY : C.Y.Lawful) (hsort : SortSpec C.sort)
    (hfires : ∀ x o, fires x o → Unreferenced room x o)
    (hreads : ∀ s g, reads s g → ReadsSafely room s g)
    (hx₀ : HubReach C room admits fires reads x₀) (hx : HubRun C room admits fires reads x₀ x)
    {u : Update β} (hu : u ∈ updates x₀.1.log) : u ∈ updates x.1.log := by
  induction hx with
  | refl => exact hu
  | tail hrun hstep ih =>
    obtain ⟨hs, hps⟩ := hub_invariant hY hsort hfires hreads (hx₀.trans hrun)
    cases hstep with
    | env s ps s' hw => exact (world_remembers hs hfires hw).mem_updates ih
    | proc s ps i s' p' hp => exact (proc_remembers hY hsort hreads hs (hps i) hp).mem_updates ih

/-- Every document of a later call covers the update of a request whose messages have been added. -/
theorem patch_le (hY : C.Y.Lawful) (hsort : SortSpec C.sort) (hD : D.Lawful A)
    (hfires : ∀ x o, fires x o → Unreferenced room x o)
    (hreads : ∀ s g, reads s g → ReadsFresh room s g)
    (hx₁ : HubReach C room admits fires reads x₁) (hj : x₁.2 j = .returned patchInclude doc)
    (hbody : body.update = some update)
    (hms : patchEndpoint A D emptyDoc now userid body doc tombstone = .ok ms)
    (hx₀ : HubRun C room admits fires reads x₁ x₀)
    (hadded : ∀ m ∈ ms, ∃ e ∈ x₀.1.log, e.field = .m m) (hk : x₀.2 k = .idle)
    (hx : HubRun C room admits fires reads x₀ x) (hd : x.2 k = .returned i doc') {v : β}
    (hv : doc'.Doc i v) : update ≤ v := by
  have hsafe : ∀ s g, reads s g → ReadsSafely room s g := fun s g h => (hreads s g h).readsSafely
  obtain ⟨l', hret', hall⟩ :=
    mem_updatesUpTo_of_run hY hsort hfires hreads (hx₁.trans hx₀) hx hk hd
  have hcovers : ∀ u ∈ updates x₀.1.log, u.update ≤ v := fun u hu =>
    (hret'.isJoin hv).1 (List.mem_map_of_mem (hall u hu))
  obtain ⟨l, hret⟩ := returnedOk_of_reach hY hsort hfires hsafe hx₁ hj
  obtain ⟨g, hg, hjoin⟩ := hret.docs.1 rfl
  have hcurrent : (patchTask emptyDoc userid body update doc).currentDoc = g := by
    rw [patchTask, hg]
    rfl
  refine PatchYdoc.le_of_run hD (patchTask emptyDoc userid body update doc) now ?_ fun r hr => ?_
  · rw [hcurrent]
    refine hjoin.2 fun w hw => ?_
    obtain ⟨u, hu, rfl⟩ := List.mem_map.mp hw
    exact hcovers u (mem_updates_of_run hY hsort hfires hsafe hx₁ hx₀ (SortedLog.mem_upTo.mp hu).1)
  · have hmem : Message.ydocUpdate r.1 r.2 ∈ ms := by
      rw [of_patchEndpoint hbody hms, hr]
      exact List.mem_append_left _ (List.mem_singleton.mpr rfl)
    obtain ⟨⟨id, field⟩, he, rfl⟩ := hadded _ hmem
    exact hcovers ⟨id, r.1, r.2⟩ (mem_updates.mpr he)

/-- **An acknowledged request**: every later call covers the whole update that was sent, and when
the same update is sent again after that, no update is added. -/
theorem patch_acknowledged (hY : C.Y.Lawful) (hsort : SortSpec C.sort) (hD : D.Lawful A)
    (hfires : ∀ x o, fires x o → Unreferenced room x o)
    (hreads : ∀ s g, reads s g → ReadsFresh room s g)
    (hx₁ : HubReach C room admits fires reads x₁) (hj : x₁.2 j = .returned patchInclude doc)
    (hbody : body.update = some update)
    (hms : patchEndpoint A D emptyDoc now userid body doc tombstone = .ok ms)
    (hx₀ : HubRun C room admits fires reads x₁ x₀)
    (hadded : ∀ m ∈ ms, ∃ e ∈ x₀.1.log, e.field = .m m) (hk : x₀.2 k = .idle)
    (hx : HubRun C room admits fires reads x₀ x) (hd : x.2 k = .returned i doc') :
    doc'.Covers i update ∧ (i = patchInclude → ∀ now' userid' body' tombstone' ms',
      body'.update = some update →
      patchEndpoint A D emptyDoc now' userid' body' doc' tombstone' = .ok ms' →
        ∀ m ∈ ms', m.isUpdate = false) := by
  have hle : ∀ v, doc'.Doc i v → update ≤ v := fun v hv =>
    patch_le hY hsort hD hfires hreads hx₁ hj hbody hms hx₀ hadded hk hx hd hv
  obtain ⟨l, hret⟩ := returnedOk_of_reach hY hsort hfires
    (fun s g h => (hreads s g h).readsSafely) ((hx₁.trans hx₀).trans hx) hd
  refine ⟨⟨fun hi => ?_, fun hi => ?_⟩, ?_⟩
  · obtain ⟨g, hg, -⟩ := hret.docs.1 hi
    exact ⟨g, hg, hle g (.inl ⟨hi, hg⟩)⟩
  · obtain ⟨n, hn, -⟩ := hret.docs.2 hi
    exact ⟨n, hn, hle n (.inr ⟨hi, hn⟩)⟩
  · rintro rfl now' userid' body' tombstone' ms' hbody' hms' m hm
    obtain ⟨g, hg, -⟩ := hret.docs.1 rfl
    have hnone : (patchTask emptyDoc userid' body' update doc').run A D now' = none := by
      refine PatchYdoc.run_eq_none hD _ now' ?_
      rw [patchTask, hg]
      exact hle g (.inl ⟨rfl, hg⟩)
    rw [of_patchEndpoint hbody' hms', hnone] at hm
    -- what is left is awareness
    cases ha : body'.awareness with
    | none =>
      rw [ha] at hm
      exact absurd hm List.not_mem_nil
    | some a =>
      rw [ha] at hm
      obtain rfl := List.mem_singleton.mp hm
      rfl

end Runs

/-! ## A request -/

/-- Taking updates apart, in the reference implementation. -/
def refDiffing : Diffing yjsRef where
  excludeContentIds (c d : Content (List Nat)) :=
    ⟨c.inserts.filter (· ∉ d.inserts), c.deletes.filter (· ∉ d.deletes)⟩
  byteLength u := 2 + 2 * u.ops.length

theorem refDiffing_lawful : refDiffing.Lawful refAttributions where
  whole u doc v hdoc hdiff o ho := by
    by_cases hmem : o ∈ doc.ops
    · exact hdoc o hmem
    · refine hdiff o (List.mem_filter.mpr ⟨ho, decide_eq_true_eq.mpr ?_⟩)
      exact List.mem_filter.mpr ⟨ho, decide_eq_true_eq.mpr hmem⟩
  empty u v h o ho := by
    have hlen : 2 + 2 * u.ops.length ≤ 3 := h
    have hnil : u.ops = [] := List.length_eq_zero_iff.mp (by omega)
    rw [hnil] at ho
    exact absurd ho List.not_mem_nil
  excludeContentIds := by
    rintro (c : Content (List Nat)) (d : Content (List Nat)) ⟨_ | _, (i : Nat)⟩
    · show i ∈ c.inserts.filter (· ∉ d.inserts) ↔ i ∈ c.inserts ∧ i ∉ d.inserts
      rw [List.mem_filter, decide_eq_true_eq]
    · show i ∈ c.deletes.filter (· ∉ d.deletes) ↔ i ∈ c.deletes ∧ i ∉ d.deletes
      rw [List.mem_filter, decide_eq_true_eq]
  mono := by
    rintro u v ⟨_ | _, (i : Nat)⟩ h hi
    · exact h i hi
    · exact hi
  byteLength := by
    rintro u (c : Content (List Nat)) hc
    have hnil : u.ops.filter (fun o => decide (o ∈ c.inserts)) = [] :=
      List.filter_eq_nil_iff.mpr fun o _ ho =>
        hc (.inserts, o) (show o ∈ c.inserts from of_decide_eq_true ho)
    show 2 + 2 * (u.ops.filter (fun o => decide (o ∈ c.inserts))).length ≤ 3
    rw [hnil]
    decide

/-- Bob sends an update, of which the document has a part already. -/
def bobPatch : PatchBody RefPayload := ⟨some (.doc [7, 8]), none, none⟩

/-- What is added of it. -/
def bobMessage : Message RefPayload :=
  .ydocUpdate (.doc [8]) (createContentMap yjsRef 5 (⟨[8], []⟩ : Content (List Nat)) "bob" [])

/-- The hub when it has been added. -/
def patched : Hub RefPayload := oneUpdate.addMessage Room.a 200000 bobMessage

/-- Bob reads the document afterwards, and sends the update again. -/
theorem patch_acknowledged_of_bob :
    (patched.getDoc (.ref []) Room.a askGc true).Covers askGc (.doc [7, 8]) ∧ ∀ ms,
      patchEndpoint refAttributions refDiffing (.doc []) 6 "bob" bobPatch
        (patched.getDoc (.ref []) Room.a askGc true) none = .ok ms →
      ∀ m ∈ ms, m.isUpdate = false := by
  have h := patch_acknowledged (A := refAttributions) (D := refDiffing) (k := 1) (j := 0)
    yjsRef_lawful insertionSort_spec refDiffing_lawful
    (fun x o (h : Unreferenced Room.a x o) => h) (fun _ _ h => h)
    (oneUpdate_reach.trans (undisturbed_call askGc oneUpdate (fun _ => .idle) 0 rfl)) rfl
    (rfl : bobPatch.update = _)
    (rfl : patchEndpoint refAttributions refDiffing (.doc []) 5 "bob" bobPatch oneUpdateDoc none =
      .ok [bobMessage])
    (Relation.ReflTransGen.single (Interleave.Step.env _ _ _
      (World.addMessage _ _ 200000 bobMessage trivial (by decide))))
    (fun m hm => ⟨_, List.mem_append_right _ (List.mem_singleton.mpr rfl),
      congrArg Field.m (List.mem_singleton.mp hm).symm⟩) rfl
    (undisturbed_call askGc patched _ 1 rfl) rfl
  exact ⟨h.1, fun ms hms => h.2 rfl 6 "bob" bobPatch none ms rfl hms⟩

end YHub
