import YHub.Lib.Strings

/-!
# Url templates

A template is the path of an url with parameters: each part of it is a literal or `:name`. An url is
of the template if it has the literals, and a part that is not empty for each parameter.

* `parse_text`: a template is read back from its text.
* `matchUrl_literals`, `matchUrl_params`: which urls are of a template that has its literals first,
  and what is taken from them.
-/

namespace YHub

/-- A part of a template. -/
inductive UrlPart where
  | literal (text : String)
  | param (name : String)
  deriving DecidableEq, Repr

namespace UrlPart

/-- The characters of a part. -/
def chars : UrlPart → List Char
  | literal text => text.toList
  | param name => ':' :: name.toList

/-- A part that begins with `:` is a parameter. -/
def parse (text : String) : UrlPart :=
  match text.toList with
  | ':' :: name => param (String.ofList name)
  | _ => literal text

/-- A part that is read back. -/
def Plain : UrlPart → Prop
  | literal text => '/' ∉ text.toList ∧ text.toList.head? ≠ some ':'
  | param name => '/' ∉ name.toList

theorem parse_chars {part : UrlPart} (h : part.Plain) :
    parse (String.ofList part.chars) = part := by
  cases part with
  | literal text =>
    show parse (String.ofList text.toList) = _
    rw [String.ofList_toList]
    unfold parse
    split
    · rename_i name htext
      exact absurd (congrArg List.head? htext) h.2
    · rfl
  | param name =>
    unfold parse
    rw [String.toList_ofList]
    exact congrArg param String.ofList_toList

theorem Plain.slash_notMem {part : UrlPart} (h : part.Plain) : '/' ∉ part.chars := by
  cases part with
  | literal text => exact h.1
  | param name => exact List.not_mem_cons_of_ne_of_not_mem (by decide) h

end UrlPart

abbrev UrlTemplate := List UrlPart

/-- Parts of a path, each after a slash. -/
def slashed (parts : List (List Char)) : List Char := parts.flatMap ('/' :: ·)

theorem slashed_append (parts parts' : List (List Char)) :
    slashed (parts ++ parts') = slashed parts ++ slashed parts' := List.flatMap_append

theorem intercalate_nil_cons (parts : List (List Char)) :
    ['/'].intercalate ([] :: parts) = slashed parts := by
  induction parts with
  | nil => rfl
  | cons part parts ih =>
    rw [List.intercalate_cons_cons, List.nil_append]
    cases parts with
    | nil => simp [slashed]
    | cons part' parts =>
      rw [List.intercalate_cons_cons, List.nil_append] at ih
      rw [List.intercalate_cons_cons, List.append_assoc, ih]
      rfl

/-- The parts of a path that begins with a slash. -/
theorem slashed_splitOn (s : List Char) : slashed (s.splitOn '/') = '/' :: s := by
  obtain ⟨part, parts, hs⟩ := List.exists_cons_of_ne_nil (List.splitOn_ne_nil '/' s)
  rw [← intercalate_nil_cons, hs, List.intercalate_cons_cons, ← hs, List.intercalate_splitOn]
  rfl

theorem splitOn_slashed {parts : List (List Char)} (h : ∀ part ∈ parts, '/' ∉ part) :
    (slashed parts).splitOn '/' = [] :: parts := by
  rw [← intercalate_nil_cons]
  exact List.splitOn_intercalate '/' (List.forall_mem_cons.mpr ⟨List.not_mem_nil, h⟩)
    (List.cons_ne_nil _ _)

namespace UrlTemplate

/-- The text of a template. -/
def text (template : UrlTemplate) : String := String.ofList (slashed (template.map UrlPart.chars))

/-- The parts between the slashes. -/
def parse (path : String) : UrlTemplate := ((split '/' path).drop 1).map UrlPart.parse

/-- **A template is read back from its text.** -/
theorem parse_text {template : UrlTemplate} (h : ∀ part ∈ template, part.Plain) :
    parse template.text = template := by
  have hslash : ∀ part ∈ template.map UrlPart.chars, '/' ∉ part := by
    intro part hpart
    obtain ⟨p, hp, rfl⟩ := List.mem_map.mp hpart
    exact (h p hp).slash_notMem
  unfold parse text split
  rw [String.toList_ofList, splitOn_slashed hslash, List.map_cons, List.drop_one, List.tail_cons,
    List.map_map, List.map_map]
  exact (List.map_congr_left fun part hpart => UrlPart.parse_chars (h part hpart)).trans
    (List.map_id _)

/-- The values of the parameters, `none` where the url is not of the template. -/
def matchUrl : UrlTemplate → List String → Option (List String)
  | [], [] => some []
  | .literal text :: template, part :: url => if part = text then matchUrl template url else none
  | .param _ :: template, part :: url =>
    if part = "" then none else (matchUrl template url).map (part :: ·)
  | _, _ => none

/-- The literals come first. -/
theorem matchUrl_literals {literals : List String} {template : UrlTemplate} {url values} :
    matchUrl (literals.map .literal ++ template) url = some values ↔
      ∃ rest, url = literals ++ rest ∧ matchUrl template rest = some values := by
  induction literals generalizing url with
  | nil => exact ⟨fun h => ⟨url, rfl, h⟩, by rintro ⟨rest, rfl, h⟩; exact h⟩
  | cons text literals ih =>
    cases url with
    | nil => exact ⟨fun h => absurd h (by simp [matchUrl]), by rintro ⟨rest, h, -⟩; cases h⟩
    | cons part url =>
      show (if part = text then matchUrl (literals.map .literal ++ template) url else none) = _ ↔ _
      by_cases hpart : part = text
      · rw [if_pos hpart, ih]
        simp [hpart]
      · rw [if_neg hpart]
        exact ⟨fun h => absurd h (by simp),
          by rintro ⟨rest, h, -⟩; exact absurd (List.cons.inj h).1 hpart⟩

/-- Each part is the value of a parameter. -/
theorem matchUrl_params {names : List String} {url values} :
    matchUrl (names.map .param) url = some values ↔
      url = values ∧ values.length = names.length ∧ "" ∉ values := by
  induction names generalizing url values with
  | nil =>
    cases url with
    | nil =>
      refine ⟨fun h => ?_, ?_⟩
      · obtain rfl := Option.some.inj h
        exact ⟨rfl, rfl, List.not_mem_nil⟩
      · rintro ⟨rfl, -, -⟩
        rfl
    | cons part url =>
      refine ⟨fun h => absurd h (by simp [matchUrl]), ?_⟩
      rintro ⟨rfl, hlen, -⟩
      exact absurd hlen (Nat.succ_ne_zero _)
  | cons name names ih =>
    cases url with
    | nil =>
      refine ⟨fun h => absurd h (by simp [matchUrl]), ?_⟩
      rintro ⟨rfl, hlen, -⟩
      exact absurd hlen.symm (Nat.succ_ne_zero _)
    | cons part url =>
      show (if part = "" then none else (matchUrl (names.map .param) url).map (part :: ·)) = _ ↔ _
      by_cases hpart : part = ""
      · rw [if_pos hpart]
        refine ⟨fun h => absurd h (by simp), ?_⟩
        rintro ⟨rfl, -, hempty⟩
        exact absurd (hpart ▸ List.mem_cons_self) hempty
      · rw [if_neg hpart, Option.map_eq_some_iff]
        refine ⟨?_, ?_⟩
        · rintro ⟨rest, hrest, rfl⟩
          obtain ⟨rfl, hlen, hempty⟩ := ih.mp hrest
          exact ⟨rfl, congrArg (· + 1) hlen,
            List.not_mem_cons_of_ne_of_not_mem (Ne.symm hpart) hempty⟩
        · rintro ⟨rfl, hlen, hempty⟩
          exact ⟨url, ih.mpr ⟨rfl, Nat.succ.inj hlen, List.not_mem_of_not_mem_cons hempty⟩, rfl⟩

end UrlTemplate

end YHub
