import YHub.Lib.NumberText
import YHub.ResponseCache
import YHub.SameFilter
import YHub.ScanPatterns

/-!
# What a cached response is keyed by (`builtin-api.js:128-217`, `stream.js:693-750`)

`changeset` and `activity` put what they make of the query into the key under which `cachedGet`
looks for a response: numbers and booleans as text, an absent author as the empty string, the custom
attributions and the content ids as the query has them. All of it is encoded, with colons between.

* `CacheKey.text_inj`: a key in redis determines the room, the endpoint and the arguments.
* `cached_response_of_same_task`: requests with one key are for one room and call the compute pool
  with the same message.
-/

namespace YHub

variable {β : Type}

/-! ## The endpoints -/

inductive ActivityOrder where
  | asc
  | desc
  deriving DecidableEq, Repr

structure ActivityQuery where
  by_ : Option String
  from_ : Option JsNumber
  to_ : Option JsNumber
  delta : Option Bool
  ydoc : Option Bool
  attributions : Option Bool
  limit : Option JsNumber
  order : Option ActivityOrder
  group : Option Bool
  groupMaxGap : Option JsNumber
  groupMaxDuration : Option JsNumber
  customAttributions : Option Bool
  withCustomAttributions : Option String
  contentIds : Option String

/-- `number.MAX_SAFE_INTEGER` -/
def maxSafeInteger : JsNumber := .ofNat (2 ^ 53 - 1)

/-- The call of `computePool.activity`. -/
def activityTask (fromBase64 : String → β) (query : ActivityQuery) (doc : History β) :
    Except ApiError (ActivityTask β) :=
  match doc.tombstone with
  | some tombstone => .error (.docDeleted tombstone)
  | none => .ok
    { nongcDoc := doc.nongcDoc
      contentmapBin := doc.contentmap
      from_ := query.from_.getD (.ofNat 0)
      to_ := query.to_.getD maxSafeInteger
      by_ := query.by_.getD ""
      contentIds := (orUndefined (query.contentIds.getD "")).map fromBase64
      withCustomAttributions :=
        (orUndefined (query.withCustomAttributions.getD "")).map fun param =>
          parseCustomAttributionsParam (some param)
      includeCustomAttributions := query.customAttributions.getD false
      includeDelta := query.delta.getD false
      includeYdoc := query.ydoc.getD false
      includeAttributions := query.attributions.getD false
      limit := query.limit.getD maxSafeInteger
      reverse := query.order = some .desc
      group := query.group.getD true
      groupMaxGap := query.groupMaxGap.getD (.ofNat 1000)
      groupMaxDuration := query.groupMaxDuration.getD maxSafeInteger }

/-- What a request to one of the two endpoints asks for. -/
inductive CachedQuery where
  | changeset (query : ChangesetQuery)
  | activity (query : ActivityQuery)

/-- The endpoint, and the message to the compute pool. -/
def CachedQuery.task (fromBase64 : String → β) (doc : History β) :
    CachedQuery → Except ApiError (Changeset β) ⊕ Except ApiError (ActivityTask β)
  | .changeset query => .inl (changesetTask query doc)
  | .activity query => .inr (activityTask fromBase64 query doc)

/-! ## The keys -/

/-- `String(x)` of a number or `null`. -/
def NullableText : Option JsNumber → String → Prop
  | none, t => t = "null"
  | some x, t => x.NumberText t

/-- The `cacheArgs` of `changeset`. -/
def ChangesetQuery.CacheArgs (query : ChangesetQuery) (args : List String) : Prop :=
  ∃ from_ to_, NullableText query.from_ from_ ∧ NullableText query.to_ to_ ∧
    args = [from_, to_, query.by_.getD "", toString (query.ydoc.getD false),
      toString (query.delta.getD false), toString (query.attributions.getD false),
      query.withCustomAttributions.getD ""]

/-- The `cacheArgs` of `activity`. -/
def ActivityQuery.CacheArgs (query : ActivityQuery) (args : List String) : Prop :=
  ∃ from_ to_ limit groupMaxGap groupMaxDuration,
    (query.from_.getD (.ofNat 0)).NumberText from_ ∧
    (query.to_.getD maxSafeInteger).NumberText to_ ∧
    (query.limit.getD maxSafeInteger).NumberText limit ∧
    (query.groupMaxGap.getD (.ofNat 1000)).NumberText groupMaxGap ∧
    (query.groupMaxDuration.getD maxSafeInteger).NumberText groupMaxDuration ∧
    args = [from_, to_, query.by_.getD "", toString (query.delta.getD false),
      toString (query.ydoc.getD false), toString (query.attributions.getD false), limit,
      if query.order = some .desc then "desc" else "asc", toString (query.group.getD true),
      groupMaxGap, groupMaxDuration, query.withCustomAttributions.getD "",
      toString (query.customAttributions.getD false), query.contentIds.getD ""]

/-- What the key is made of behind the room. -/
inductive CachedQuery.Key : CachedQuery → CacheKey → Prop
  | changeset {query : ChangesetQuery} {args : List String} (h : query.CacheArgs args) :
    Key (.changeset query) ⟨.changeset, args⟩
  | activity {query : ActivityQuery} {args : List String} (h : query.CacheArgs args) :
    Key (.activity query) ⟨.activity, args⟩

def CachedEndpoint.name : CachedEndpoint → String
  | .changeset => "changeset"
  | .activity => "activity"

/-- The key that `cachedGet` uses. -/
def CacheKey.text (prefix_ : String) (room : Room) (k : CacheKey) : String :=
  cacheKey prefix_ room k.endpoint.name k.args

theorem CachedEndpoint.name_injective : Function.Injective CachedEndpoint.name := by
  intro e e' h
  cases e <;> cases e' <;> first | rfl | exact absurd h (by decide)

/-- Encoded parts can be told apart. -/
theorem join_uriEncode_inj {args args' : List String} (h : args ≠ []) (h' : args' ≠ [])
    (hjoin : join ':' (args.map uriEncode) = join ':' (args'.map uriEncode)) : args = args' := by
  have hcolon (l : List String) : ∀ p ∈ l.map uriEncode, ':' ∉ p.toList := by
    intro p hp
    obtain ⟨s, -, rfl⟩ := List.mem_map.mp hp
    exact colon_notMem_uriEncode s
  have hsplit := congrArg (split ':') hjoin
  rw [split_join (hcolon _) (by simpa using h), split_join (hcolon _) (by simpa using h')] at hsplit
  exact uriEncode_injective.list_map hsplit

/-- **A key in redis determines the room, the endpoint and the arguments.** -/
theorem CacheKey.text_inj {prefix_ : String} {room room' : Room} {k k' : CacheKey}
    (h : k.args ≠ []) (h' : k'.args ≠ []) (htext : k.text prefix_ room = k'.text prefix_ room') :
    room = room' ∧ k = k' := by
  have hlist := congrArg String.toList htext
  unfold CacheKey.text at hlist
  rw [toList_cacheKey, toList_cacheKey] at hlist
  obtain ⟨hroom, hrest⟩ :=
    roomParts_append_inj (List.append_cancel_left (List.append_cancel_left hlist))
  obtain ⟨hendpoint, hargs⟩ :=
    (append_cons_inj (colon_notMem_uriEncode _) (colon_notMem_uriEncode _)).mp hrest
  have hendpoint := uriEncode_injective (String.toList_inj.mp hendpoint)
  have hargs := join_uriEncode_inj h h' (String.toList_inj.mp hargs)
  obtain ⟨e, args⟩ := k
  obtain ⟨e', args'⟩ := k'
  exact ⟨hroom, congrArg₂ CacheKey.mk (CachedEndpoint.name_injective hendpoint) hargs⟩

/-! ## The arguments -/

theorem NullableText.unique {x y : Option JsNumber} {t : String} (hx : NullableText x t)
    (hy : NullableText y t) : x = y := by
  cases x with
  | none =>
    cases y with
    | none => rfl
    | some y => exact absurd hx (JsNumber.NumberText.ne_null hy)
  | some x =>
    cases y with
    | none => exact absurd hy (JsNumber.NumberText.ne_null hx)
    | some y => exact congrArg some (JsNumber.NumberText.unique hx hy)

theorem toString_bool_injective : Function.Injective (toString : Bool → String) := by
  intro b b' h
  cases b <;> cases b' <;> first | rfl | exact absurd h (by decide)

theorem ChangesetQuery.CacheArgs.ne_nil {query : ChangesetQuery} {args : List String}
    (h : query.CacheArgs args) : args ≠ [] := by
  obtain ⟨_, _, -, -, rfl⟩ := h
  exact List.cons_ne_nil _ _

theorem ActivityQuery.CacheArgs.ne_nil {query : ActivityQuery} {args : List String}
    (h : query.CacheArgs args) : args ≠ [] := by
  obtain ⟨_, _, _, _, _, -, -, -, -, -, rfl⟩ := h
  exact List.cons_ne_nil _ _

theorem CachedQuery.Key.args_ne_nil {query : CachedQuery} {k : CacheKey} (h : query.Key k) :
    k.args ≠ [] := by
  cases h with
  | changeset h => exact h.ne_nil
  | activity h => exact h.ne_nil

/-- The arguments of `changeset` determine the message. -/
theorem changesetTask_eq_of_args {query query' : ChangesetQuery} {args : List String}
    (h : query.CacheArgs args) (h' : query'.CacheArgs args) (doc : History β) :
    changesetTask query doc = changesetTask query' doc := by
  obtain ⟨from_, to_, hfrom, hto, rfl⟩ := h
  obtain ⟨from', to', hfrom', hto', hargs⟩ := h'
  simp only [List.cons.injEq, and_true] at hargs
  obtain ⟨rfl, rfl, hby, hydoc, hdelta, hattributions, hcustom⟩ := hargs
  unfold changesetTask
  rw [hfrom.unique hfrom', hto.unique hto', hby, toString_bool_injective hydoc,
    toString_bool_injective hdelta, toString_bool_injective hattributions, hcustom]

/-- The arguments of `activity` determine the message. -/
theorem activityTask_eq_of_args {query query' : ActivityQuery} {args : List String}
    (h : query.CacheArgs args) (h' : query'.CacheArgs args) (fromBase64 : String → β)
    (doc : History β) : activityTask fromBase64 query doc = activityTask fromBase64 query' doc := by
  obtain ⟨from_, to_, limit, gap, duration, hfrom, hto, hlimit, hgap, hduration, rfl⟩ := h
  obtain ⟨from', to', limit', gap', duration', hfrom', hto', hlimit', hgap', hduration', hargs⟩ :=
    h'
  simp only [List.cons.injEq, and_true] at hargs
  obtain ⟨rfl, rfl, hby, hdelta, hydoc, hattributions, rfl, horder, hgroup, rfl, rfl, hcustom,
    hinclude, hids⟩ := hargs
  have hreverse : query.order = some .desc ↔ query'.order = some .desc := by
    by_cases hq : query.order = some .desc <;> by_cases hq' : query'.order = some .desc
    · exact iff_of_true hq hq'
    · rw [if_pos hq, if_neg hq'] at horder
      exact absurd horder (by decide)
    · rw [if_neg hq, if_pos hq'] at horder
      exact absurd horder (by decide)
    · exact iff_of_false hq hq'
  unfold activityTask
  simp only [hfrom.unique hfrom', hto.unique hto', hby, toString_bool_injective hdelta,
    toString_bool_injective hydoc, toString_bool_injective hattributions, hlimit.unique hlimit',
    hreverse, toString_bool_injective hgroup, hgap.unique hgap', hduration.unique hduration',
    hcustom, toString_bool_injective hinclude, hids]

/-- **Requests with one key are for one room and one endpoint, and compute the same** from every
document. -/
theorem cached_response_of_same_task {prefix_ : String} {room room' : Room}
    {query query' : CachedQuery} {k k' : CacheKey} (hk : query.Key k) (hk' : query'.Key k')
    (htext : k.text prefix_ room = k'.text prefix_ room') :
    room = room' ∧ k.endpoint = k'.endpoint ∧
      ∀ (β : Type) (fromBase64 : String → β) (doc : History β),
        query.task fromBase64 doc = query'.task fromBase64 doc := by
  obtain ⟨hroom, rfl⟩ := CacheKey.text_inj hk.args_ne_nil hk'.args_ne_nil htext
  refine ⟨hroom, rfl, fun β fromBase64 doc => ?_⟩
  cases hk with
  | changeset h =>
    cases hk' with
    | changeset h' => exact congrArg Sum.inl (changesetTask_eq_of_args h h' doc)
  | activity h =>
    cases hk' with
    | activity h' => exact congrArg Sum.inr (activityTask_eq_of_args h h' fromBase64 doc)

/-- An absent author is an empty one, here and in the key. -/
theorem cached_response_of_empty_author :
    changesetTask (sinceOneQuery none) aliceHistory =
      changesetTask (sinceOneQuery (some "")) aliceHistory := by
  have hone : (JsNumber.ofNat 1).NumberText "1" := JsNumber.numberText_digit (by omega) (by omega)
  have hkey (by_ : Option String) : (CachedQuery.changeset (sinceOneQuery by_)).Key
      ⟨.changeset, ["1", "null", by_.getD "", "false", "false", "true", ""]⟩ :=
    .changeset ⟨"1", "null", hone, rfl, rfl⟩
  have htext : CacheKey.text "yhub" Room.a
        ⟨.changeset, ["1", "null", (none : Option String).getD "", "false", "false", "true", ""]⟩ =
      CacheKey.text "yhub" Room.a
        ⟨.changeset, ["1", "null", (some "").getD "", "false", "false", "true", ""]⟩ := rfl
  have htask := (cached_response_of_same_task (hkey none) (hkey (some "")) htext).2.2
    RefPayload (fun _ => .doc []) aliceHistory
  exact Sum.inl.inj htask

end YHub
