import Mathlib.Data.List.DropRight

/-!
# What a browser and a cache make of the headers of a response

The headers are lines of a name and a value, in their order. A name is compared without its case,
and the lines of one name are one list, whose members stand between commas.

* `corsCheck`: a page of an origin may read the response.
* `preflightCheck`: the response to a preflight grants a request.
* `Reusable`: by `Vary`, a cache may answer a request with a response that is stored for another.
* `members_intercalate`, `tokens?_intercalate`: tokens that are joined with `", "` are read back.
* `tokens?_of_mem`: a value with a character of no token is no list of them.
-/

namespace Fetch

abbrev Headers := List (String × String)

/-- A name without its case. -/
def lower (name : String) : List Char := name.toList.map Char.toLower

/-! ## Lists in a value -/

def isBlank (c : Char) : Bool := c = ' ' || c = '\t'

/-- Without the blanks around it. -/
def trim (s : List Char) : List Char := (s.dropWhile isBlank).rdropWhile isBlank

/-- The members between the commas. -/
def members (value : String) : List (List Char) := (value.toList.splitOn ',').map trim

/-- A character of a token. -/
def isTokenChar (c : Char) : Bool := c.isAlphanum || "!#$%&'*+-.^_\x60|~".toList.contains c

/-- A token, as the name of a header and a method are. -/
def IsToken (s : List Char) : Prop := s ≠ [] ∧ s.all isTokenChar = true

instance : DecidablePred IsToken := fun _ => inferInstanceAs (Decidable (_ ∧ _))

/-- The tokens of a list, without the members that are empty; `none` if another one is no token. -/
def tokens? (value : String) : Option (List (List Char)) :=
  let present := (members value).filter (· ≠ [])
  if present.all (·.all isTokenChar) then some present else none

theorem IsToken.char {s : List Char} (h : IsToken s) {c : Char} (hc : c ∈ s) :
    c ≠ ',' ∧ isBlank c = false := by
  have hchar := List.all_eq_true.mp h.2 c hc
  constructor
  · rintro rfl
    exact absurd hchar (by decide)
  · rw [Bool.eq_false_iff]
    intro hblank
    rcases Bool.or_eq_true _ _ ▸ hblank with hblank | hblank
    · rw [of_decide_eq_true hblank] at hchar
      exact absurd hchar (by decide)
    · rw [of_decide_eq_true hblank] at hchar
      exact absurd hchar (by decide)

theorem IsToken.trim {s : List Char} (h : IsToken s) :
    trim s = s ∧ Fetch.trim (' ' :: s) = s := by
  obtain ⟨c, l, rfl⟩ := List.exists_cons_of_ne_nil h.1
  have hfront : (c :: l).dropWhile isBlank = c :: l := by
    rw [List.dropWhile_cons_of_neg]
    rw [(h.char List.mem_cons_self).2]
    exact Bool.false_ne_true
  have hback : (c :: l).rdropWhile isBlank = c :: l := by
    rw [List.rdropWhile_eq_self_iff]
    intro hne
    rw [(h.char (List.getLast_mem hne)).2]
    exact Bool.false_ne_true
  have hblank : (' ' :: c :: l).dropWhile isBlank = (c :: l).dropWhile isBlank :=
    List.dropWhile_cons_of_pos rfl
  unfold Fetch.trim
  rw [hblank, hfront, hback]
  exact ⟨rfl, rfl⟩

/-- A blank follows each comma. -/
theorem intercalate_comma_blank (first : List Char) (rest : List (List Char)) :
    [',', ' '].intercalate (first :: rest) =
      [','].intercalate (first :: rest.map (' ' :: ·)) := by
  induction rest generalizing first with
  | nil => rfl
  | cons next rest ih =>
    rw [List.intercalate_cons_cons, ih, List.map_cons, List.intercalate_cons_cons,
      List.append_assoc, List.append_assoc]
    cases rest with
    | nil => rfl
    | cons _ rest => rfl

/-- **A joined list is read back.** -/
theorem members_intercalate {names : List String} (hne : names ≠ [])
    (h : ∀ name ∈ names, IsToken name.toList) :
    members (", ".intercalate names) = names.map String.toList := by
  obtain ⟨first, rest, rfl⟩ := List.exists_cons_of_ne_nil hne
  obtain ⟨hfirst, hrest⟩ := List.forall_mem_cons.mp h
  have hcomma : ∀ part ∈ first.toList :: (rest.map String.toList).map (' ' :: ·), ',' ∉ part := by
    intro part hpart
    rcases List.mem_cons.mp hpart with rfl | hpart
    · exact fun hc => (hfirst.char hc).1 rfl
    · rw [List.map_map] at hpart
      obtain ⟨name, hname, rfl⟩ := List.mem_map.mp hpart
      exact List.not_mem_cons_of_ne_of_not_mem (by decide)
        fun hc => ((hrest name hname).char hc).1 rfl
  have hsplit : (", ".intercalate (first :: rest)).toList.splitOn ',' =
      first.toList :: (rest.map String.toList).map (' ' :: ·) := by
    rw [String.toList_intercalate, List.map_cons]
    exact (congrArg _ (intercalate_comma_blank _ _)).trans
      (List.splitOn_intercalate ',' hcomma (List.cons_ne_nil _ _))
  unfold members
  rw [hsplit, List.map_cons, hfirst.trim.1, List.map_cons, List.map_map, List.map_map]
  exact congrArg _ (List.map_congr_left fun name hname => (hrest name hname).trim.2)

theorem tokens?_intercalate {names : List String} (h : ∀ name ∈ names, IsToken name.toList) :
    tokens? (", ".intercalate names) = some (names.map String.toList) := by
  have hpresent : (members (", ".intercalate names)).filter (· ≠ []) = names.map String.toList := by
    cases names with
    | nil => rfl
    | cons first rest =>
      rw [members_intercalate (List.cons_ne_nil _ _) h]
      refine List.filter_eq_self.mpr fun token htoken => ?_
      obtain ⟨name, hname, rfl⟩ := List.mem_map.mp htoken
      exact decide_eq_true (h name hname).1
  have hall : (names.map String.toList).all (·.all isTokenChar) = true := by
    rw [List.all_map, List.all_eq_true]
    exact fun name hname => (h name hname).2
  unfold tokens?
  rw [hpresent]
  exact if_pos hall

/-- Only blanks are trimmed. -/
theorem mem_trim {s : List Char} {c : Char} (hc : c ∈ s) (hblank : isBlank c = false) :
    c ∈ trim s := by
  have hfront (l : List Char) (hl : c ∈ l) : c ∈ l.dropWhile isBlank := by
    rw [← List.takeWhile_append_dropWhile (p := isBlank) (l := l), List.mem_append] at hl
    rcases hl with hl | hl
    · exact absurd (List.mem_takeWhile_imp hl) (by rw [hblank]; exact Bool.false_ne_true)
    · exact hl
  exact List.mem_reverse.mpr (hfront _ (List.mem_reverse.mpr (hfront s hc)))

theorem mem_of_mem_intercalate {sep : List Char} {parts : List (List Char)} {c : Char}
    (h : c ∈ sep.intercalate parts) : c ∈ sep ∨ ∃ part ∈ parts, c ∈ part := by
  induction parts with
  | nil => exact absurd h List.not_mem_nil
  | cons first rest ih =>
    cases rest with
    | nil =>
      rw [List.intercalate_singleton] at h
      exact .inr ⟨first, List.mem_cons_self, h⟩
    | cons next rest =>
      rw [List.intercalate_cons_cons, List.mem_append, List.mem_append] at h
      rcases h with (h | h) | h
      · exact .inr ⟨first, List.mem_cons_self, h⟩
      · exact .inl h
      · obtain hsep | ⟨part, hpart, hc⟩ := ih h
        · exact .inl hsep
        · exact .inr ⟨part, List.mem_cons_of_mem _ hpart, hc⟩

theorem mem_intercalate_of_mem {sep part : List Char} {parts : List (List Char)} {c : Char}
    (hpart : part ∈ parts) (hc : c ∈ part) : c ∈ sep.intercalate parts := by
  induction parts with
  | nil => exact absurd hpart List.not_mem_nil
  | cons first rest ih =>
    cases rest with
    | nil =>
      rw [List.intercalate_singleton]
      exact List.mem_singleton.mp hpart ▸ hc
    | cons next rest =>
      rw [List.intercalate_cons_cons, List.mem_append, List.mem_append]
      rcases List.mem_cons.mp hpart with rfl | hpart
      · exact .inl (.inl hc)
      · exact .inr (ih hpart)

/-- A character of a value is one of a member. -/
theorem exists_members_of_mem {value : String} {c : Char} (hc : c ∈ value.toList)
    (hcomma : c ≠ ',') (hblank : isBlank c = false) : ∃ s ∈ members value, c ∈ s := by
  have hjoin : [','].intercalate (value.toList.splitOn ',') = value.toList :=
    List.intercalate_splitOn ','
  rw [← hjoin] at hc
  rcases mem_of_mem_intercalate hc with hsep | ⟨part, hpart, hmem⟩
  · exact absurd (List.mem_singleton.mp hsep) hcomma
  · exact ⟨trim part, List.mem_map_of_mem hpart, mem_trim hmem hblank⟩

/-- **A character of no token.** -/
theorem tokens?_of_mem {value : String} {c : Char} (hc : c ∈ value.toList) (hcomma : c ≠ ',')
    (hblank : isBlank c = false) (htoken : isTokenChar c = false) : tokens? value = none := by
  obtain ⟨s, hs, hmem⟩ := exists_members_of_mem hc hcomma hblank
  unfold tokens?
  refine if_neg fun hall => ?_
  have hpresent : s ∈ (members value).filter (· ≠ []) :=
    List.mem_filter.mpr ⟨hs, decide_eq_true (List.ne_nil_of_mem hmem)⟩
  have hchar := List.all_eq_true.mp (List.all_eq_true.mp hall s hpresent) c hmem
  exact absurd hchar (by rw [htoken]; exact Bool.false_ne_true)

example : tokens? "X-A,, X-B " = some ["X-A".toList, "X-B".toList] ∧
    tokens? "X:Y, Authorization" = none := by decide

/-! ## Headers -/

namespace Headers

/-- The values of the lines with a name. -/
def values (headers : Headers) (name : String) : List String :=
  (headers.filter fun h => lower h.1 = lower name).map Prod.snd

/-- The value of a header, `none` without a line of it. -/
def get (headers : Headers) (name : String) : Option String :=
  if headers.values name = [] then none else some (", ".intercalate (headers.values name))

/-- The members of a header that is a list. -/
def list (headers : Headers) (name : String) : List (List Char) :=
  (headers.values name).flatMap members

/-- The tokens of a header that is a list of them, `none` if a line of it is no such list. -/
def tokens? (headers : Headers) (name : String) : Option (List (List Char)) :=
  ((headers.values name).mapM Fetch.tokens?).map List.flatten

variable {headers : Headers} {name : String}

theorem values_append (headers headers' : Headers) (name : String) :
    values (headers ++ headers') name = headers.values name ++ headers'.values name := by
  unfold values
  rw [List.filter_append, List.map_append]

/-- Lines of one name. -/
theorem values_map (key name : String) (l : List String) :
    values (l.map (key, ·)) name = if lower key = lower name then l else [] := by
  unfold values
  split_ifs with h
  · rw [List.filter_eq_self.mpr (by simp [h]), List.map_map]
    exact List.map_id l
  · rw [List.filter_eq_nil_iff.mpr (by simp [h]), List.map_nil]

theorem values_eq_nil : headers.values name = [] ↔ ∀ h ∈ headers, lower h.1 ≠ lower name := by
  unfold values
  rw [List.map_eq_nil_iff, List.filter_eq_nil_iff]
  simp

theorem get_of_nil (h : headers.values name = []) : headers.get name = none := if_pos h

theorem get_of_singleton {value : String} (h : headers.values name = [value]) :
    headers.get name = some value := by
  unfold get
  rw [h, if_neg (List.cons_ne_nil _ _), String.intercalate_singleton]

end Headers

/-! ## Cors -/

/-- The cors check, of a page of an origin; `credentials` is the credentials mode `include`. -/
def corsCheck (headers : Headers) (origin : String) (credentials : Bool) : Bool :=
  match headers.get "access-control-allow-origin" with
  | none => false
  | some allowed =>
    (allowed = "*" && !credentials) ||
      (allowed = origin &&
        (!credentials || headers.get "access-control-allow-credentials" = some "true"))

/-- A method that needs no preflight. -/
def isSafelistedMethod (method : String) : Bool := ["GET", "HEAD", "POST"].contains method

/-- Whether a preflight grants a request with a method and the headers `names`, those which are not
safelisted; `ok` is a status from 200 to 299. -/
def preflightCheck (headers : Headers) (ok : Bool) (origin : String) (credentials : Bool)
    (method : String) (names : List String) : Bool :=
  corsCheck headers origin credentials && ok &&
    match headers.tokens? "access-control-allow-methods",
        headers.tokens? "access-control-allow-headers" with
    | some methods, some allowed =>
      (methods.contains method.toList || isSafelistedMethod method ||
        (!credentials && methods.contains ['*'])) &&
      names.all fun name =>
        allowed.any (fun a => a.map Char.toLower = lower name) ||
          (!credentials && allowed.contains ['*'] && lower name ≠ "authorization".toList)
    -- a header that is no list of tokens is a network error
    | _, _ => false

/-- What is allowed decides. -/
theorem corsCheck_of_allowed {headers : Headers} {origin allowed : String} {credentials : Bool}
    (hallowed : headers.values "access-control-allow-origin" = [allowed]) :
    corsCheck headers origin credentials = true ↔
      (allowed = origin ∨ allowed = "*" ∧ credentials = false) ∧
        (credentials = true → headers.get "access-control-allow-credentials" = some "true") := by
  unfold corsCheck
  rw [Headers.get_of_singleton hallowed]
  cases credentials with
  | false => simp [or_comm]
  | true => simp

theorem corsCheck_of_nil {headers : Headers} {origin : String} {credentials : Bool}
    (h : headers.values "access-control-allow-origin" = []) :
    corsCheck headers origin credentials = false := by
  unfold corsCheck
  rw [Headers.get_of_nil h]

/-- What is checked of a preflight. -/
theorem preflightCheck_eq_true {headers : Headers} {ok : Bool} {origin method : String}
    {credentials : Bool} {names : List String} {methods allowed : List (List Char)}
    (hmethods : headers.tokens? "access-control-allow-methods" = some methods)
    (hallowed : headers.tokens? "access-control-allow-headers" = some allowed) :
    preflightCheck headers ok origin credentials method names = true ↔
      corsCheck headers origin credentials = true ∧ ok = true ∧
        (method.toList ∈ methods ∨ isSafelistedMethod method = true ∨
          credentials = false ∧ ['*'] ∈ methods) ∧
        ∀ name ∈ names, (∃ a ∈ allowed, a.map Char.toLower = lower name) ∨
          credentials = false ∧ ['*'] ∈ allowed ∧ lower name ≠ "authorization".toList := by
  unfold preflightCheck
  rw [hmethods, hallowed]
  simp only [Bool.and_eq_true, Bool.or_eq_true, Bool.not_eq_true', List.contains_iff_mem,
    List.all_eq_true, List.any_eq_true, decide_eq_true_eq, and_assoc, or_assoc]

theorem preflightCheck_of_corsCheck {headers : Headers} {ok : Bool} {origin method : String}
    {credentials : Bool} {names : List String} (h : corsCheck headers origin credentials = false) :
    preflightCheck headers ok origin credentials method names = false := by
  unfold preflightCheck
  rw [h, Bool.false_and, Bool.false_and]

theorem preflightCheck_of_none {headers : Headers} {ok : Bool} {origin method : String}
    {credentials : Bool} {names : List String}
    (h : headers.tokens? "access-control-allow-headers" = none) :
    preflightCheck headers ok origin credentials method names = false := by
  unfold preflightCheck
  rw [h]
  cases headers.tokens? "access-control-allow-methods" with
  | none => exact Bool.and_false _
  | some methods => exact Bool.and_false _

/-! ## Caches -/

/-- A response that is stored for a request with the fields `stored` may answer one with the fields
`fields`; names are in lower case. -/
def Reusable (headers : Headers) (stored fields : List Char → Option String) : Prop :=
  ∀ name ∈ headers.list "vary", name ≠ ['*'] ∧
    stored (name.map Char.toLower) = fields (name.map Char.toLower)

/-- A header that a response varies on is the same. -/
theorem Reusable.eq {headers : Headers} {stored fields : List Char → Option String}
    (h : Reusable headers stored fields) {name : String} (hname : IsToken name.toList)
    (hvary : name ∈ headers.values "vary") : stored (lower name) = fields (lower name) := by
  have hmem : name.toList ∈ headers.list "vary" := by
    refine List.mem_flatMap.mpr ⟨name, hvary, ?_⟩
    have hself := members_intercalate (List.cons_ne_nil name []) (by simpa using hname)
    rw [String.intercalate_singleton] at hself
    rw [hself]
    exact List.mem_singleton_self _
  exact (h name.toList hmem).2

end Fetch
