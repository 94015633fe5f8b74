import YHub.Cors

/-!
# The origins that the gate admits (`cors.js:63-248`, `API.md`)

A browser serialises the origin of a page as `scheme://host[:port]`. Against such an origin, the
comparison of `originAllowed` on texts is one of schemes, hosts and ports.

* `covers_text_iff`: a pattern covers the origins of its scheme and port with a longer host.
* `originAllowed_iff`: the gate admits the origins that the merged configuration declares, and those
  of the same host that it trusts.
-/

namespace YHub

/-- An origin as a browser serialises it; the port is there if it is not the default one. -/
structure BrowserOrigin where
  scheme : List Char
  host : List Char
  port : Option (List Char)
  scheme_ne : scheme ≠ []
  scheme_chars : ∀ c ∈ scheme, isSchemeChar c = true
  host_ne : host ≠ []
  host_chars : ∀ c ∈ host, isHostChar [':'] c = true
  port_chars : ∀ digits ∈ port, digits ≠ [] ∧ ∀ c ∈ digits, c.isDigit = true

/-- `[:port]` -/
def portText : Option (List Char) → List Char
  | none => []
  | some digits => ':' :: digits

namespace BrowserOrigin

variable (o : BrowserOrigin)

/-- `host[:port]` -/
def authority : List Char := o.host ++ portText o.port

def text : List Char := o.scheme ++ ':' :: '/' :: '/' :: o.authority

end BrowserOrigin

/-- The entry is `scheme://*.domain[:port]`, with the scheme and the port of the origin, whose host
is in the domain. -/
def WildcardAdmits (t : CaseTable) (entry : String) (o : BrowserOrigin) : Prop :=
  ∃ domain L, L ≠ [] ∧ t.toLowerCase o.host = L ++ '.' :: domain ∧
    t.toLowerCase entry.toList =
      t.toLowerCase o.scheme ++ ':' :: '/' :: '/' :: '*' :: '.' :: (domain ++ portText o.port)

variable {t : CaseTable}

/-! ## Lower case of origins -/

theorem caseless_colon : CaseTable.Caseless ':' := by decide

theorem caseless_star : CaseTable.Caseless '*' := by decide

theorem toLowerCase_scheme (scheme s : List Char) :
    t.toLowerCase (scheme ++ ':' :: '/' :: '/' :: s) =
      t.toLowerCase scheme ++ ':' :: '/' :: '/' :: t.toLowerCase s := by
  have hfront : ∀ c ∈ [':', '/'], CaseTable.Caseless c := forall_mem_of_all rfl
  have hslash : CaseTable.Caseless '/' := hfront '/' (.tail _ (.head _))
  calc t.lowerFrom false (scheme ++ ':' :: '/' :: '/' :: s)
      = t.lowerFrom false ((scheme ++ [':', '/']) ++ '/' :: s) := by
        rw [List.append_assoc, List.cons_append, List.cons_append, List.nil_append]
    _ = t.lowerFrom false (scheme ++ [':', '/']) ++ '/' :: t.lowerFrom false s :=
        CaseTable.lowerFrom_append_cons hslash (t.ignorable_ascii '/' hslash.1)
    _ = t.lowerFrom false scheme ++ ':' :: '/' :: '/' :: t.lowerFrom false s := by
        rw [CaseTable.lowerFrom_append_of_caseless hfront, List.append_assoc, List.cons_append,
          List.cons_append, List.nil_append]

theorem toLowerCase_star (s : List Char) :
    t.toLowerCase ('*' :: '.' :: s) = '*' :: '.' :: t.toLowerCase s := by
  have hstar : t.ignorable '*' = false := t.ignorable_ascii '*' caseless_star.1
  unfold CaseTable.toLowerCase
  rw [CaseTable.lowerFrom_cons_of_caseless caseless_star, hstar, Bool.false_and,
    CaseTable.lowerFrom_cons_of_caseless (by decide), Bool.and_false]

theorem isSchemeChar_ascii {c : Char} (h : isSchemeChar c = true) : c.toNat < 128 := by
  rcases Bool.or_eq_true_iff.mp h with h | h
  · exact CaseTable.toNat_lt_of_isAlphanum h
  · have hmore : ∀ c ∈ ['+', '.', '-'], c.toNat < 128 := forall_mem_of_all rfl
    exact hmore c (List.contains_iff_mem.mp h)

theorem length_toLowerCase_scheme {scheme : List Char}
    (h : ∀ c ∈ scheme, isSchemeChar c = true) :
    (t.toLowerCase scheme).length = scheme.length := by
  unfold CaseTable.toLowerCase
  rw [CaseTable.lowerFrom_of_ascii fun c hc => isSchemeChar_ascii (h c hc), List.length_map]

/-- A character that is no letter is not in the lower case of a text if it is not in the text. -/
theorem notMem_toLowerCase {c : Char} {s : List Char} (hc : CaseTable.Caseless c) (h : c ∉ s) :
    c ∉ t.toLowerCase s :=
  fun hmem => h (CaseTable.mem_of_mem_lowerFrom hc hmem)

theorem caseless_portText (o : BrowserOrigin) : ∀ c ∈ portText o.port, CaseTable.Caseless c := by
  intro c hc
  cases hport : o.port with
  | none =>
    rw [hport] at hc
    exact absurd hc List.not_mem_nil
  | some digits =>
    rw [hport] at hc
    rcases List.mem_cons.mp hc with rfl | hc
    · exact caseless_colon
    · exact CaseTable.caseless_of_isDigit ((o.port_chars digits hport).2 c hc)

theorem toLowerCase_authority (o : BrowserOrigin) :
    t.toLowerCase o.authority = t.toLowerCase o.host ++ portText o.port :=
  CaseTable.lowerFrom_append_of_caseless (caseless_portText o)

theorem toLowerCase_text (o : BrowserOrigin) : t.toLowerCase o.text =
    t.toLowerCase o.scheme ++ ':' :: '/' :: '/' :: (t.toLowerCase o.host ++ portText o.port) := by
  unfold BrowserOrigin.text
  rw [toLowerCase_scheme, toLowerCase_authority]

theorem colon_notMem_scheme {scheme : List Char} (h : ∀ c ∈ scheme, isSchemeChar c = true) :
    ':' ∉ scheme :=
  fun hc => absurd (h ':' hc) Bool.false_ne_true

theorem colon_notMem_toLowerCase_scheme {scheme : List Char}
    (h : ∀ c ∈ scheme, isSchemeChar c = true) : ':' ∉ t.toLowerCase scheme :=
  notMem_toLowerCase caseless_colon (colon_notMem_scheme h)

theorem colon_notMem_host (o : BrowserOrigin) : ':' ∉ t.toLowerCase o.host :=
  notMem_toLowerCase caseless_colon fun hc => absurd (o.host_chars ':' hc) Bool.false_ne_true

/-! ## What a pattern covers -/

/-- **The star stands for the text between.** -/
theorem OriginPattern.covers_iff_append {pattern : OriginPattern} {s : List Char} :
    pattern.covers s = true ↔
      ∃ L, L ≠ [] ∧ s = pattern.prefix_ ++ (L ++ pattern.suffix) := by
  unfold OriginPattern.covers
  rw [Bool.and_eq_true, Bool.and_eq_true, decide_eq_true_eq, List.isPrefixOf_iff_prefix,
    List.isSuffixOf_iff_suffix]
  constructor
  · rintro ⟨⟨hlen, x, rfl⟩, hsuffix⟩
    have hle : pattern.suffix.length ≤ x.length := by
      rw [List.length_append] at hlen
      omega
    obtain ⟨L, rfl⟩ := List.suffix_of_suffix_length_le hsuffix (List.suffix_append _ x) hle
    refine ⟨L, ?_, rfl⟩
    rintro rfl
    simp at hlen
  · rintro ⟨L, hL, rfl⟩
    have hpos : 0 < L.length := List.length_pos_of_ne_nil hL
    refine ⟨⟨?_, List.prefix_append _ _⟩, ?_⟩
    · rw [List.length_append, List.length_append]
      omega
    · rw [← List.append_assoc]
      exact List.suffix_append _ _

theorem portText_inj {x x' : List Char} {port port' : Option (List Char)} (hx : ':' ∉ x)
    (hx' : ':' ∉ x') (h : x ++ portText port = x' ++ portText port') : x = x' ∧ port = port' := by
  cases port with
  | none =>
    cases port' with
    | none => simpa [portText] using h
    | some digits' =>
      have hmem : ':' ∈ x ++ portText none := h ▸ List.mem_append_right _ List.mem_cons_self
      exact absurd (by simpa [portText] using hmem) hx
  | some digits =>
    cases port' with
    | none =>
      have hmem : ':' ∈ x' ++ portText none := h ▸ List.mem_append_right _ List.mem_cons_self
      exact absurd (by simpa [portText] using hmem) hx'
    | some digits' =>
      obtain ⟨rfl, rfl⟩ := (append_cons_inj hx hx').mp h
      exact ⟨rfl, rfl⟩

/-- What the star stands for is a part of the host: after a port there is no dot. -/
theorem colon_notMem_of_authority {o : BrowserOrigin} {L s : List Char}
    (h : t.toLowerCase o.host ++ portText o.port = L ++ '.' :: s) : ':' ∉ L := by
  intro hL
  obtain ⟨x, y, rfl, hx⟩ := List.eq_append_cons_of_mem hL
  cases hport : o.port with
  | none =>
    rw [hport] at h
    have hmem : ':' ∈ t.toLowerCase o.host ++ portText none := by
      rw [h]
      simp
    exact colon_notMem_host o (by simpa [portText] using hmem)
  | some digits =>
    rw [hport, List.append_assoc, List.cons_append] at h
    obtain ⟨-, hdigits⟩ := (append_cons_inj (colon_notMem_host o) hx).mp h
    have hdot : '.' ∈ digits := by
      rw [hdigits]
      simp
    exact absurd ((o.port_chars digits hport).2 '.' hdot) Bool.false_ne_true

/-- **A pattern covers the origins of its scheme and port with a host in its domain.** -/
theorem OriginPattern.covers_text_iff {o : BrowserOrigin} {scheme domain : List Char}
    {port : Option (List Char)} (hscheme : ':' ∉ scheme) (hdomain : ':' ∉ domain) :
    OriginPattern.covers ⟨scheme ++ [':', '/', '/'], '.' :: (domain ++ portText port)⟩
        (t.toLowerCase o.text) = true ↔
      t.toLowerCase o.scheme = scheme ∧ o.port = port ∧
        ∃ L, L ≠ [] ∧ t.toLowerCase o.host = L ++ '.' :: domain := by
  have hcolon : ':' ∉ t.toLowerCase o.scheme := colon_notMem_toLowerCase_scheme o.scheme_chars
  rw [covers_iff_append, toLowerCase_text]
  constructor
  · rintro ⟨L, hL, h⟩
    rw [List.append_assoc] at h
    obtain ⟨hsame, hrest⟩ := (append_cons_inj hcolon hscheme).mp h
    have hauthority : t.toLowerCase o.host ++ portText o.port =
        L ++ '.' :: (domain ++ portText port) := (List.cons.inj (List.cons.inj hrest).2).2
    have hL' : ':' ∉ L ++ '.' :: domain := by
      simp [colon_notMem_of_authority hauthority, hdomain]
    have hparts : t.toLowerCase o.host ++ portText o.port =
        (L ++ '.' :: domain) ++ portText port := by
      rw [hauthority, List.append_assoc, List.cons_append]
    obtain ⟨hhost, hport⟩ := portText_inj (colon_notMem_host o) hL' hparts
    exact ⟨hsame, hport, L, hL, hhost⟩
  · rintro ⟨rfl, rfl, L, hL, hhost⟩
    refine ⟨L, hL, ?_⟩
    rw [hhost]
    simp

/-! ## Accepted entries -/

theorem exists_of_schemeRegex {items : List Pattern.Item} {s : List Char}
    (h : schemeRegex items s = true) :
    ∃ scheme rest groups, s = scheme ++ rest ∧ (∀ c ∈ scheme, isSchemeChar c = true) ∧
      Pattern.Matches items rest groups := by
  cases s with
  | nil => exact absurd h (by simp [schemeRegex])
  | cons c s =>
    obtain ⟨hc, hexec⟩ := Bool.and_eq_true_iff.mp h
    obtain ⟨groups, hgroups⟩ := Option.isSome_iff_exists.mp hexec
    obtain ⟨g, rest, groups', rfl, rfl, hg, -, hrest⟩ :=
      Pattern.matches_rep_iff.mp (Pattern.matches_of_exec hgroups)
    refine ⟨c :: g, rest, groups', rfl, ?_, hrest⟩
    refine List.forall_mem_cons.mpr ⟨?_, hg⟩
    simp [isSchemeChar, Char.isAlphanum, hc]

/-- **A wildcard entry that is accepted** is split at its star. -/
theorem wildcardPattern_of_checked {entry : String} {pattern : OriginPattern}
    (hchecked : checkOrigin entry = .ok ()) (h : wildcardPattern t entry = some pattern) :
    ∃ scheme rest, (∀ c ∈ scheme, isSchemeChar c = true) ∧
      t.toLowerCase entry.toList =
        t.toLowerCase scheme ++ ':' :: '/' :: '/' :: '*' :: '.' :: t.toLowerCase rest ∧
      pattern = ⟨t.toLowerCase scheme ++ [':', '/', '/'], '.' :: t.toLowerCase rest⟩ := by
  obtain ⟨star, hstar, rfl⟩ := Option.map_eq_some_iff.mp h
  have hregex : wildcardRegex entry.toList = true := by
    unfold checkOrigin at hchecked
    rw [hstar] at hchecked
    split_ifs at hchecked with _ _ _ hwild
    simpa using hwild
  obtain ⟨scheme, rest, groups, hentry, hscheme, hrest⟩ := exists_of_schemeRegex hregex
  obtain ⟨rest, rfl, -⟩ := Pattern.matches_literal_iff.mp hrest
  have hshape : entry.toList = (scheme ++ [':', '/', '/']) ++ (['*'] ++ '.' :: rest) := by
    rw [hentry, List.append_assoc]
    rfl
  have hnot : '*' ∉ scheme ++ [':', '/', '/'] := by
    rw [List.mem_append, not_or]
    exact ⟨fun hc => absurd (hscheme '*' hc) Bool.false_ne_true, by simp⟩
  have hlower : t.toLowerCase entry.toList =
      t.toLowerCase scheme ++ ':' :: '/' :: '/' :: '*' :: '.' :: t.toLowerCase rest := by
    rw [hentry, ← toLowerCase_star, ← toLowerCase_scheme]
    rfl
  have hindex : star = (t.toLowerCase scheme ++ [':', '/', '/']).length := by
    rw [hshape, indexOf_append hnot] at hstar
    obtain rfl := Option.some.inj hstar
    rw [List.length_append, List.length_append, length_toLowerCase_scheme hscheme]
  have hsplit : t.toLowerCase entry.toList =
      (t.toLowerCase scheme ++ [':', '/', '/']) ++ '*' :: '.' :: t.toLowerCase rest := by
    rw [hlower, List.append_assoc]
    rfl
  refine ⟨scheme, rest, hscheme, hlower, ?_⟩
  rw [hsplit, hindex, List.take_left, List.drop_append]
  simp

theorem exists_portText (s : List Char) :
    ∃ domain port, ':' ∉ domain ∧ s = domain ++ portText port := by
  by_cases h : ':' ∈ s
  · obtain ⟨domain, digits, rfl, hdomain⟩ := List.eq_append_cons_of_mem h
    exact ⟨domain, some digits, hdomain, rfl⟩
  · exact ⟨s, none, h, (List.append_nil s).symm⟩

/-- **The pattern of an accepted entry** has a scheme, a domain and maybe a port. -/
theorem exists_domain_of_checked {entry : String} {pattern : OriginPattern}
    (hchecked : checkOrigin entry = .ok ()) (h : wildcardPattern t entry = some pattern) :
    ∃ scheme domain port, ':' ∉ scheme ∧ ':' ∉ domain ∧
      t.toLowerCase entry.toList =
        scheme ++ ':' :: '/' :: '/' :: '*' :: '.' :: (domain ++ portText port) ∧
      pattern = ⟨scheme ++ [':', '/', '/'], '.' :: (domain ++ portText port)⟩ := by
  obtain ⟨scheme, rest, hscheme, hlower, hpattern⟩ := wildcardPattern_of_checked hchecked h
  obtain ⟨domain, port, hdomain, hrest⟩ := exists_portText (t.toLowerCase rest)
  rw [hrest] at hlower hpattern
  exact ⟨t.toLowerCase scheme, domain, port, colon_notMem_toLowerCase_scheme hscheme, hdomain,
    hlower, hpattern⟩

theorem exists_wildcardPattern {entry : String} {o : BrowserOrigin}
    (h : WildcardAdmits t entry o) : ∃ pattern, wildcardPattern t entry = some pattern := by
  obtain ⟨domain, L, -, -, hentry⟩ := h
  have hstar : '*' ∈ entry.toList := by
    refine CaseTable.mem_of_mem_lowerFrom (t := t) (p := false) caseless_star ?_
    show '*' ∈ t.toLowerCase entry.toList
    rw [hentry]
    simp
  refine Option.isSome_iff_exists.mp ?_
  unfold wildcardPattern
  rw [Option.isSome_map, Option.isSome_iff_ne_none]
  exact fun hnone => indexOf_eq_none.mp hnone hstar

/-- **What an allowlist admits.** -/
theorem Allowlist.admits_iff {entries : List String}
    {acc : List (List Char) × List OriginPattern} (h : Allowlist t entries acc)
    (o : BrowserOrigin) :
    (t.toLowerCase o.text ∈ acc.1 ∨
        ∃ pattern ∈ acc.2, pattern.covers (t.toLowerCase o.text) = true) ↔
      (∃ entry ∈ entries, t.toLowerCase entry.toList = t.toLowerCase o.text) ∨
        ∃ entry ∈ entries, WildcardAdmits t entry o := by
  constructor
  · rintro (hmem | ⟨pattern, hmem, hcovers⟩)
    · obtain ⟨entry, hentry, -, heq⟩ := (h.origins _).mp hmem
      exact .inl ⟨entry, hentry, heq⟩
    · obtain ⟨entry, hentry, hpattern⟩ := (h.patterns _).mp hmem
      obtain ⟨scheme, domain, port, hscheme, hdomain, hlower, rfl⟩ :=
        exists_domain_of_checked (h.checked entry hentry) hpattern
      obtain ⟨rfl, rfl, L, hL, hhost⟩ :=
        (OriginPattern.covers_text_iff hscheme hdomain).mp hcovers
      exact .inr ⟨entry, hentry, domain, L, hL, hhost, hlower⟩
  · rintro (⟨entry, hentry, heq⟩ | ⟨entry, hentry, hadmits⟩)
    · cases hpattern : wildcardPattern t entry with
      | none => exact .inl ((h.origins _).mpr ⟨entry, hentry, hpattern, heq⟩)
      | some pattern =>
        -- an origin that is written like the entry has a star where the entry has it
        obtain ⟨scheme, domain, port, -, -, hlower, rfl⟩ :=
          exists_domain_of_checked (h.checked entry hentry) hpattern
        refine .inr ⟨_, (h.patterns _).mpr ⟨entry, hentry, hpattern⟩, ?_⟩
        refine OriginPattern.covers_iff_append.mpr ⟨['*'], List.cons_ne_nil _ _, ?_⟩
        rw [← heq, hlower, List.append_assoc]
        rfl
    · obtain ⟨pattern, hpattern⟩ := exists_wildcardPattern hadmits
      obtain ⟨domain', L, hL, hhost, hentry'⟩ := hadmits
      obtain ⟨scheme, domain, port, hscheme, hdomain, hlower, rfl⟩ :=
        exists_domain_of_checked (h.checked entry hentry) hpattern
      have hcolon : ':' ∉ t.toLowerCase o.scheme :=
        colon_notMem_toLowerCase_scheme o.scheme_chars
      obtain ⟨rfl, hrest⟩ := (append_cons_inj hscheme hcolon).mp (hlower.symm.trans hentry')
      have hdomain' : ':' ∉ domain' := by
        intro hc
        refine colon_notMem_host (t := t) o ?_
        rw [hhost]
        simp [hc]
      have hparts : domain ++ portText port = domain' ++ portText o.port := by simpa using hrest
      obtain ⟨rfl, rfl⟩ := portText_inj hdomain hdomain' hparts
      refine .inr ⟨_, (h.patterns _).mpr ⟨entry, hentry, hpattern⟩, ?_⟩
      exact (OriginPattern.covers_text_iff hcolon hdomain).mpr ⟨rfl, rfl, L, hL, hhost⟩

/-! ## The gate -/

/-- An exact entry, or one that a wildcard covers. -/
theorem allowedOrigin_isSome {cors : ResolvedCors} {origin : String} (horigin : origin ≠ "") :
    (allowedOrigin t cors origin).isSome = true ↔
      cors.originAll = true ∨ t.toLowerCase origin.toList ∈ cors.origins.getD [] ∨
        ∃ pattern ∈ cors.originPatterns.getD [],
          pattern.covers (t.toLowerCase origin.toList) = true := by
  unfold allowedOrigin
  rw [if_neg horigin]
  cases cors.originAll with
  | true => simp
  | false => simp

theorem text_ne_empty (o : BrowserOrigin) : String.ofList o.text ≠ "" := by
  intro h
  have hnil := congrArg String.toList h
  rw [String.toList_ofList] at hnil
  exact o.scheme_ne (List.append_eq_nil_iff.mp hnil).1

theorem indexOf_text (o : BrowserOrigin) :
    indexOf "://".toList (String.ofList o.text).toList = some o.scheme.length := by
  have hfirst : indexOf [':', '/', '/'] o.text = some o.scheme.length :=
    indexOf_append (colon_notMem_scheme o.scheme_chars)
  exact (congrArg (indexOf _) String.toList_ofList).trans hfirst

theorem secFetchSite_iff (secFetchSite : String) (b : Bool) :
    (if (secFetchSite ≠ "" && secFetchSite ≠ "same-origin" && secFetchSite ≠ "none" : Bool)
      then false else b) = true ↔ secFetchSite ∈ ["", "same-origin", "none"] ∧ b = true := by
  simp only [Bool.and_eq_true, decide_eq_true_eq, List.mem_cons, List.not_mem_nil, or_false]
  split_ifs with hsite
  · tauto
  · tauto

/-- **The allowlist, or else the trust in the same host.** -/
theorem originAllowed_text {cors : Option ResolvedCors} {o : BrowserOrigin}
    {host secFetchSite : String} :
    originAllowed t cors (String.ofList o.text) host secFetchSite = true ↔
      (∃ r, cors = some r ∧ (allowedOrigin t r (String.ofList o.text)).isSome = true) ∨
        (∀ r, cors = some r → r.trustSameOrigin = true) ∧
          secFetchSite ∈ ["", "same-origin", "none"] ∧
            t.toLowerCase o.authority = t.toLowerCase host.toList := by
  have hpos : 0 < o.scheme.length := List.length_pos_of_ne_nil o.scheme_ne
  have hdrop : (String.ofList o.text).toList.drop (o.scheme.length + 3) = o.authority := by
    rw [String.toList_ofList]
    unfold BrowserOrigin.text
    rw [List.drop_append]
    simp
  -- without a host there is no authority
  have hhost : t.toLowerCase o.authority = t.toLowerCase host.toList → host ≠ "" := by
    rintro h rfl
    have hnil := CaseTable.lowerFrom_eq_nil h
    exact o.host_ne (List.append_eq_nil_iff.mp hnil).1
  have hsame : (0 < o.scheme.length && host ≠ "" &&
      t.toLowerCase o.authority = t.toLowerCase host.toList : Bool) = true ↔
      t.toLowerCase o.authority = t.toLowerCase host.toList := by
    simpa [hpos] using hhost
  unfold originAllowed
  rw [if_neg (text_ne_empty o), indexOf_text]
  simp only [hdrop]
  have hrest := (secFetchSite_iff secFetchSite _).trans (and_congr_right' hsame)
  cases cors with
  | none => simpa using hrest
  | some r =>
    cases hr : (allowedOrigin t r (String.ofList o.text)).isSome with
    | true => simp [hr]
    | false =>
      cases htrust : r.trustSameOrigin with
      | true => simpa [hr, htrust] using hrest
      | false => simp [hr, htrust]

/-- A pattern covers neither the apex of its domain, nor a host that only ends like the domain, nor
another port. -/
theorem exists_domain_of_allowlist {entries : List String}
    {acc : List (List Char) × List OriginPattern} {pattern : OriginPattern}
    (h : Allowlist t entries acc) (hpattern : pattern ∈ acc.2) :
    ∃ entry ∈ entries, ∃ scheme domain port, ':' ∉ domain ∧
      t.toLowerCase entry.toList =
        scheme ++ ':' :: '/' :: '/' :: '*' :: '.' :: (domain ++ portText port) ∧
      ∀ o : BrowserOrigin, pattern.covers (t.toLowerCase o.text) = true →
        t.toLowerCase o.scheme = scheme ∧ o.port = port ∧ t.toLowerCase o.host ≠ domain ∧
          '.' :: domain <:+ t.toLowerCase o.host := by
  obtain ⟨entry, hentry, hpattern⟩ := (h.patterns _).mp hpattern
  obtain ⟨scheme, domain, port, hscheme, hdomain, hlower, rfl⟩ :=
    exists_domain_of_checked (h.checked entry hentry) hpattern
  refine ⟨entry, hentry, scheme, domain, port, hdomain, hlower, fun o hcovers => ?_⟩
  obtain ⟨hsame, hport, L, -, hhost⟩ := (OriginPattern.covers_text_iff hscheme hdomain).mp hcovers
  refine ⟨hsame, hport, fun hapex => ?_, L, hhost.symm⟩
  have hlen := congrArg List.length (hapex.symm.trans hhost)
  rw [List.length_append, List.length_cons] at hlen
  omega

/-- **The gate admits what is declared**: every origin, an entry, a host in the domain of a wildcard
entry, or the host of the request itself. -/
theorem originAllowed_iff {schemaErr : CorsFields → String} {serverCors : Option CorsFields}
    {endpointCors : EndpointCors} {resolved : Option ResolvedCors}
    (h : resolveCors t schemaErr serverCors endpointCors = .ok resolved) :
    (∀ (o : BrowserOrigin) (host secFetchSite : String),
      originAllowed t resolved (String.ofList o.text) host secFetchSite = true ↔
        mergedField serverCors endpointCors "origin" = .string "*" ∨
        (∃ entry ∈ (mergedField serverCors endpointCors "origin").originList,
          t.toLowerCase entry.toList = t.toLowerCase o.text) ∨
        (∃ entry ∈ (mergedField serverCors endpointCors "origin").originList,
          WildcardAdmits t entry o) ∨
        (mergedField serverCors endpointCors "trustSameOrigin" ≠ .bool false ∧
          secFetchSite ∈ ["", "same-origin", "none"] ∧
          t.toLowerCase o.authority = t.toLowerCase host.toList)) ∧
    ∀ r pattern, resolved = some r → pattern ∈ r.originPatterns.getD [] →
      ∃ entry ∈ (mergedField serverCors endpointCors "origin").originList,
        ∃ scheme domain port, ':' ∉ domain ∧
          t.toLowerCase entry.toList =
            scheme ++ ':' :: '/' :: '/' :: '*' :: '.' :: (domain ++ portText port) ∧
          ∀ o : BrowserOrigin, pattern.covers (t.toLowerCase o.text) = true →
            t.toLowerCase o.scheme = scheme ∧ o.port = port ∧ t.toLowerCase o.host ≠ domain ∧
              '.' :: domain <:+ t.toLowerCase o.host := by
  rcases resolveCors_eq_ok h with ⟨rfl, hfield⟩ | ⟨r, rfl, horigins, htrust⟩
  · refine ⟨fun o host secFetchSite => ?_, fun r _ hr => absurd hr (by simp)⟩
    rw [originAllowed_text, hfield, hfield]
    simp [CorsValue.originList]
  · have hgate : ∀ (o : BrowserOrigin) (host secFetchSite : String),
        originAllowed t (some r) (String.ofList o.text) host secFetchSite = true ↔
          (allowedOrigin t r (String.ofList o.text)).isSome = true ∨
            (mergedField serverCors endpointCors "trustSameOrigin" ≠ .bool false ∧
              secFetchSite ∈ ["", "same-origin", "none"] ∧
              t.toLowerCase o.authority = t.toLowerCase host.toList) := by
      intro o host secFetchSite
      rw [originAllowed_text]
      simp [htrust]
    unfold ResolvedCors.HasOrigins at horigins
    split_ifs at horigins with hall
    · obtain ⟨hoAll, hpatterns⟩ := horigins
      refine ⟨fun o host secFetchSite => ?_, fun r' pattern hr hpattern => ?_⟩
      · rw [hgate, allowedOrigin_isSome (text_ne_empty o)]
        simp [hoAll, hall]
      · obtain rfl := Option.some.inj hr
        rw [hpatterns] at hpattern
        exact absurd hpattern List.not_mem_nil
    · obtain ⟨hoAll, origins, patterns, hlist, rfl, rfl⟩ := horigins
      have hallow := allowlist_of_resolveOrigins hlist
      refine ⟨fun o host secFetchSite => ?_, fun r' pattern hr hpattern => ?_⟩
      · rw [hgate, allowedOrigin_isSome (text_ne_empty o), String.toList_ofList,
          hallow.admits_iff o]
        simp [hoAll, hall, or_assoc]
      · obtain rfl := Option.some.inj hr
        exact exists_domain_of_allowlist hallow hpattern

/-- An allowlist with a wildcard. -/
def previewCors : CorsFields :=
  InsertionMap.empty.set "origin"
    (.array [some "https://app.example.com", some "https://*.Preview.example.com"])

/-- An endpoint that trusts no host. -/
def strictCors : EndpointCors :=
  .fields (InsertionMap.empty.set "trustSameOrigin" (.bool false))

def previewOrigin : BrowserOrigin where
  scheme := "https".toList
  host := "x.preview.example.com".toList
  port := none
  scheme_ne := List.cons_ne_nil _ _
  scheme_chars := List.all_eq_true.mp rfl
  host_ne := List.cons_ne_nil _ _
  host_chars := List.all_eq_true.mp rfl
  port_chars := by simp

theorem originAllowed_preview :
    ∃ resolved, resolveCors .ascii (fun _ => "") (some previewCors) strictCors = .ok resolved ∧
      originAllowed .ascii resolved "https://x.preview.example.com" "" "cross-site" = true := by
  refine ⟨_, rfl, ?_⟩
  have hok : resolveCors .ascii (fun _ => "") (some previewCors) strictCors = .ok _ := rfl
  refine ((originAllowed_iff hok).1 previewOrigin "" "cross-site").mpr (.inr (.inr (.inl ?_)))
  exact ⟨"https://*.Preview.example.com", .tail _ (.head _), "preview.example.com".toList, ['x'],
    List.cons_ne_nil _ _, rfl, rfl⟩

end YHub
