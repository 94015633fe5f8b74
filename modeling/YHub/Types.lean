import YHub.Clock

/-!
# Rooms, messages, assets (`types.js`)

The values the hub stores and distributes. `β` is the type of the binary payloads
(`Uint8Array`): updates, content maps, content ids, id sets.
-/

namespace YHub

/-- `$room`. -/
structure Room where
  org : String
  docid : String
  branch : String
  deriving DecidableEq, Repr

/-- Two rooms for the runs that show what goes wrong. -/
def Room.a : Room := ⟨"org", "a", "main"⟩

@[inherit_doc Room.a] def Room.b : Room := ⟨"org", "b", "main"⟩

/-- A matcher of `recheckAuth`: a userid, or an object whose properties (as serialized values)
have to be those of the connection's `authInfo`. -/
inductive AuthMatcher where
  | userid (userid : String)
  | props (props : List (String × String))
  deriving DecidableEq, Repr

/-- `$message`: what an entry of a room's stream carries in its field `m`. -/
inductive Message (β : Type) where
  /-- `ydoc:update:v1` -/
  | ydocUpdate (update contentmap : β)
  /-- `awareness:v1` -/
  | awareness (update : β)
  /-- `prune:v1` -/
  | prune (prune : β)
  /-- `auth:check:v1`; `users = none` matches every connection. -/
  | authCheck (users : Option (List AuthMatcher)) (forceDisconnect : Bool)
  /-- `ydoc:tombstone:v1` -/
  | tombstone
  deriving DecidableEq, Repr

namespace Message

variable {β : Type}

/-- `m.type === 'auth:check:v1'`. -/
def isAuthCheck : Message β → Bool
  | .authCheck .. => true
  | _ => false

/-- `m.type === 'ydoc:update:v1'`. -/
def isUpdate : Message β → Bool
  | .ydocUpdate .. => true
  | _ => false

/-- `m.type === 'ydoc:update:v1' || m.type === 'prune:v1'`: the messages that change the
document. -/
def changesDoc : Message β → Bool
  | .ydocUpdate .. => true
  | .prune _ => true
  | _ => false

theorem not_isAuthCheck_of_isUpdate {m : Message β} (h : m.isUpdate = true) :
    m.isAuthCheck = false := by
  cases m with
  | ydocUpdate => rfl
  | _ => exact absurd h (by simp [isUpdate])

end Message

/-- `$assetId`; `t` is the version the asset belongs to. -/
inductive AssetId (τ : Type) where
  /-- `id:ydoc:v1` -/
  | ydoc (room : Room) (t : τ) (gc : Bool)
  /-- `id:contentmap:v1` -/
  | contentmap (room : Room) (t : τ)
  /-- `id:contentids:v1` -/
  | contentids (room : Room) (t : τ)
  deriving DecidableEq, Repr

namespace AssetId

variable {τ : Type}

def room : AssetId τ → Room
  | .ydoc r _ _ => r
  | .contentmap r _ => r
  | .contentids r _ => r

def t : AssetId τ → τ
  | .ydoc _ t _ => t
  | .contentmap _ t => t
  | .contentids _ t => t

end AssetId

/-- `$asset`. -/
inductive Asset (β : Type) where
  /-- `asset:ydoc:v1` -/
  | ydoc (update : β)
  /-- `asset:contentmap:v1` -/
  | contentmap (contentmap : β)
  /-- `asset:contentids:v1` -/
  | contentids (contentids : β)
  /-- `asset:retrievable:v1` -/
  | retrievable (plugin : String)
  deriving DecidableEq, Repr

/-- `asset.type === 'asset:retrievable:v1'`. -/
def Asset.isReference {β : Type} : Asset β → Bool
  | .retrievable _ => true
  | _ => false

/-- The record of a deleted room. -/
structure Tombstone where
  room : Room
  deletedAt : Nat
  hard : Bool
  purgedAt : Option Nat
  by_ : Option String
  deriving DecidableEq, Repr

end YHub
