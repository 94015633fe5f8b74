import YHub.Lib.PercentEncoding
import YHub.Lib.Strings

/-!
# URI components (`stream.js:29-53`)

`encodeURIComponent` keeps letters, digits and `-_.!~*'()`, and `uriEncode` replaces `!'()*` of what
it gives as well: `*` is a metacharacter of redis, and `:` separates the parts of a key. Both are
undone by `decodeURIComponent`. Strings are well-formed: every character is one of Unicode.

* `uriDecode_uriEncode`, `decodeURIComponent_encodeURIComponent`: the round trips.
* `uriSafe_of_mem`: what an encoded component is made of.
-/

namespace YHub

/-- The characters that `encodeURIComponent` keeps. -/
def uriUnescaped (c : Char) : Bool := c.isAlphanum || c ∈ "-_.!~*'()".toList

def encodeURIComponent (str : String) : String := Percent.encode uriUnescaped str

/-- It throws for what is not an encoded string. -/
def decodeURIComponent (str : String) : Option String := Percent.decode str

/-- `.replace(/[!'()*]/g, …)` -/
def escapeMarks (c : Char) : List Char :=
  if c ∈ "!'()*".toList then
    ['%', Percent.hexDigit (c.toNat / 16), Percent.hexDigit (c.toNat % 16)]
  else [c]

def uriEncode (str : String) : String :=
  String.ofList ((encodeURIComponent str).toList.flatMap escapeMarks)

def uriDecode (str : String) : Option String := decodeURIComponent str

theorem decodeURIComponent_encodeURIComponent (str : String) :
    decodeURIComponent (encodeURIComponent str) = some str :=
  Percent.decode_encode rfl str

/-- An encoded component has no separator. -/
theorem notMem_encodeURIComponent {c : Char} (hc : uriUnescaped c = false) (hpercent : c ≠ '%')
    (hdigit : c ∉ "0123456789ABCDEF".toList) (str : String) :
    c ∉ (encodeURIComponent str).toList := by
  intro h
  rcases Percent.mem_encode h with h | h | h
  · exact absurd (hc.symm.trans h) Bool.false_ne_true
  · exact hpercent h
  · exact hdigit h

/-! ## `uriEncode` -/

/-- The characters that `uriEncode` keeps. -/
def uriKept (c : Char) : Bool := uriUnescaped c && c ∉ "!'()*".toList

theorem escapeMarks_of_notMem {c : Char} (h : c ∉ "!'()*".toList) : escapeMarks c = [c] := if_neg h

theorem flatMap_escapeMarks {l : List Char} (h : ∀ c ∈ l, c ∉ "!'()*".toList) :
    l.flatMap escapeMarks = l := by
  induction l with
  | nil => rfl
  | cons c l ih =>
    rw [List.flatMap_cons, escapeMarks_of_notMem (h c List.mem_cons_self),
      ih fun d hd => h d (List.mem_cons_of_mem _ hd), List.singleton_append]

/-- Escaping in two steps is escaping in one. -/
theorem encodeChar_escapeMarks (c : Char) :
    (Percent.encodeChar uriUnescaped c).flatMap escapeMarks = Percent.encodeChar uriKept c := by
  by_cases hmark : c ∈ "!'()*".toList
  · have hall : ∀ c ∈ "!'()*".toList,
        (Percent.encodeChar uriUnescaped c).flatMap escapeMarks =
          Percent.encodeChar uriKept c := forall_mem_of_all (by decide)
    exact hall c hmark
  · have hkept : uriKept c = uriUnescaped c := by
      unfold uriKept
      rw [decide_eq_true hmark, Bool.and_true]
    unfold Percent.encodeChar
    rw [hkept]
    split_ifs
    · exact (List.flatMap_singleton escapeMarks c).trans (escapeMarks_of_notMem hmark)
    · refine flatMap_escapeMarks fun d hd => ?_
      obtain ⟨b, -, hb⟩ := List.mem_flatMap.mp hd
      have hall : ∀ d ∈ '%' :: "0123456789ABCDEF".toList, d ∉ "!'()*".toList :=
        forall_mem_of_all (by decide)
      exact hall d (List.mem_cons.mpr (Percent.mem_encodeByte hb))

theorem uriEncode_eq (str : String) : uriEncode str = Percent.encode uriKept str := by
  unfold uriEncode encodeURIComponent Percent.encode Percent.encodeList
  rw [String.toList_ofList, List.flatMap_assoc]
  simp only [encodeChar_escapeMarks]

theorem uriDecode_uriEncode (str : String) : uriDecode (uriEncode str) = some str := by
  rw [uriEncode_eq]
  exact Percent.decode_encode rfl str

theorem uriEncode_injective : Function.Injective uriEncode := by
  intro s t h
  rw [uriEncode_eq, uriEncode_eq] at h
  exact Percent.encode_injective rfl h

/-- The characters of an encoded component. -/
def uriSafe (c : Char) : Bool := c.isAlphanum || c ∈ "-_.~%".toList

theorem uriSafe_of_mem {str : String} {c : Char} (h : c ∈ (uriEncode str).toList) :
    uriSafe c = true := by
  rw [uriEncode_eq] at h
  rcases Percent.mem_encode h with h | rfl | h
  · obtain ⟨h, hmark⟩ := (Bool.and_eq_true _ _).mp h
    rcases (Bool.or_eq_true _ _).mp h with halnum | hlist
    · unfold uriSafe
      rw [halnum, Bool.true_or]
    · have hall : ∀ d ∈ "-_.!~*'()".toList, d ∉ "!'()*".toList → uriSafe d = true :=
        forall_mem_of_all (by decide)
      exact hall c (of_decide_eq_true hlist) (of_decide_eq_true hmark)
  · decide
  · have hall : ∀ d ∈ "0123456789ABCDEF".toList, uriSafe d = true := forall_mem_of_all (by decide)
    exact hall c h

end YHub
