import YHub.Types
import YHub.UriComponents
import YHub.Lib.Strings

/-!
# The paths of assets (`types.js:96-135`)

The object store names an object by `assetIdToString` of its asset id: the type, the room, the `gc`
flag if there is one, and the version, with slashes between them. `assetIdFromString` reads the
parts by their positions; a part that is missing is the text `undefined` to `decodeURIComponent`.

* `asset_paths`: the round trip.
-/

namespace YHub

def assetIdToString : AssetId String → String
  | .ydoc room t gc => join '/' ["id:ydoc:v1", encodeURIComponent room.org,
      encodeURIComponent room.docid, encodeURIComponent room.branch, if gc then "1" else "0",
      encodeURIComponent t]
  | .contentmap room t => join '/' ["id:contentmap:v1", encodeURIComponent room.org,
      encodeURIComponent room.docid, encodeURIComponent room.branch, encodeURIComponent t]
  | .contentids room t => join '/' ["id:contentids:v1", encodeURIComponent room.org,
      encodeURIComponent room.docid, encodeURIComponent room.branch, encodeURIComponent t]

/-- `decodeURIComponent(parts[i])` -/
def decodePart (parts : List String) (i : Nat) : Except String String :=
  match decodeURIComponent (parts[i]?.getD "undefined") with
  | some s => .ok s
  | none => .error "URI malformed"

/-- The room of the parts. -/
def decodeParts (parts : List String) : Except String Room := do
  return ⟨← decodePart parts 1, ← decodePart parts 2, ← decodePart parts 3⟩

def assetIdFromString (assetIdString : String) : Except String (AssetId String) := do
  let parts := split '/' assetIdString
  let type := parts[0]?.getD "undefined"
  if type = "id:ydoc:v1" then
    return .ydoc (← decodeParts parts) (← decodePart parts 5) (parts[4]? = some "1")
  else if type = "id:contentmap:v1" then
    return .contentmap (← decodeParts parts) (← decodePart parts 4)
  else if type = "id:contentids:v1" then
    return .contentids (← decodeParts parts) (← decodePart parts 4)
  else
    throw ("Unknown asset type: " ++ type)

theorem notMem_slash_encodeURIComponent (str : String) :
    '/' ∉ (encodeURIComponent str).toList :=
  notMem_encodeURIComponent (by decide) (by decide) (by decide) str

theorem decodePart_encoded {parts : List String} {i : Nat} {str : String}
    (h : parts[i]? = some (encodeURIComponent str)) : decodePart parts i = .ok str := by
  unfold decodePart
  rw [h, Option.getD_some, decodeURIComponent_encodeURIComponent]

theorem decodeParts_encoded (room : Room) (type : String) (rest : List String) :
    decodeParts (type :: encodeURIComponent room.org :: encodeURIComponent room.docid ::
      encodeURIComponent room.branch :: rest) = .ok room := by
  have horg := decodeURIComponent_encodeURIComponent room.org
  have hdocid := decodeURIComponent_encodeURIComponent room.docid
  have hbranch := decodeURIComponent_encodeURIComponent room.branch
  unfold decodeParts decodePart
  simp only [List.getElem?_cons_succ, List.getElem?_cons_zero, Option.getD_some, horg, hdocid,
    hbranch]
  rfl

/-- The version of a path without a `gc` flag. -/
theorem decodePart_version (room : Room) (type t : String) :
    decodePart (type :: encodeURIComponent room.org :: encodeURIComponent room.docid ::
      encodeURIComponent room.branch :: [encodeURIComponent t]) 4 = .ok t :=
  decodePart_encoded rfl

/-- The parts of a path. -/
theorem split_path {type : String} {rest : List String} (room : Room) (htype : '/' ∉ type.toList)
    (hrest : ∀ p ∈ rest, '/' ∉ p.toList) :
    split '/' (join '/' (type :: encodeURIComponent room.org :: encodeURIComponent room.docid ::
      encodeURIComponent room.branch :: rest)) =
    type :: encodeURIComponent room.org :: encodeURIComponent room.docid ::
      encodeURIComponent room.branch :: rest := by
  refine split_join ?_ (List.cons_ne_nil _ _)
  simp only [List.forall_mem_cons]
  exact ⟨htype, notMem_slash_encodeURIComponent _, notMem_slash_encodeURIComponent _,
    notMem_slash_encodeURIComponent _, hrest⟩

theorem assetIdFromString_assetIdToString (assetId : AssetId String) :
    assetIdFromString (assetIdToString assetId) = .ok assetId := by
  have hversion (t : String) : ∀ p ∈ [encodeURIComponent t], '/' ∉ p.toList :=
    List.forall_mem_singleton.mpr (notMem_slash_encodeURIComponent t)
  cases assetId with
  | ydoc room t gc =>
    have hgc : ∀ p ∈ [if gc then "1" else "0", encodeURIComponent t], '/' ∉ p.toList := by
      refine List.forall_mem_cons.mpr ⟨?_, hversion t⟩
      cases gc <;> decide
    have ht : decodePart ("id:ydoc:v1" :: encodeURIComponent room.org ::
        encodeURIComponent room.docid :: encodeURIComponent room.branch ::
          [if gc then "1" else "0", encodeURIComponent t]) 5 = .ok t := decodePart_encoded rfl
    unfold assetIdToString assetIdFromString
    rw [split_path room (by decide) hgc]
    simp only [List.getElem?_cons_zero, Option.getD_some, if_true, decodeParts_encoded, ht]
    cases gc <;> rfl
  | contentmap room t =>
    unfold assetIdToString assetIdFromString
    rw [split_path room (by decide) (hversion t)]
    simp only [List.getElem?_cons_zero, Option.getD_some, decodeParts_encoded, decodePart_version]
    rfl
  | contentids room t =>
    unfold assetIdToString assetIdFromString
    rw [split_path room (by decide) (hversion t)]
    simp only [List.getElem?_cons_zero, Option.getD_some, decodeParts_encoded, decodePart_version]
    rfl

/-- **Asset ids are an exact code**, for assets of every type; so no two of them have one path. -/
theorem asset_paths :
    (∀ assetId, assetIdFromString (assetIdToString assetId) = .ok assetId) ∧
      ∀ assetId assetId', assetIdToString assetId = assetIdToString assetId' →
        assetId = assetId' := by
  refine ⟨assetIdFromString_assetIdToString, fun assetId assetId' h => ?_⟩
  have hok := assetIdFromString_assetIdToString assetId
  rw [h, assetIdFromString_assetIdToString] at hok
  exact (Except.ok.inj hok).symm

end YHub
