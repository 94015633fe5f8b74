import Mathlib.Data.List.Basic
import Mathlib.Tactic.IntervalCases

/-!
# Percent-encoding

A text is encoded character by character: one that is not kept is replaced by the bytes of its
UTF-8, each written as `%` and two hexadecimal digits. Decoding reads the bytes back, those of
characters that stand for themselves as well, and decodes the UTF-8 of all of them. (Such a
character never begins with a continuation byte, so it does not complete what bytes before it have
begun.)

* `decode_encode`: decoding undoes encoding if `%` is not kept; so encoding is injective.
* `mem_encode`: what characters an encoded text has.
-/

namespace Percent

def hexDigit (n : Nat) : Char := if n < 10 then Char.ofNat (48 + n) else Char.ofNat (55 + n)

def hexValue (c : Char) : Option Nat :=
  if '0' ≤ c ∧ c ≤ '9' then some (c.toNat - 48)
  else if 'A' ≤ c ∧ c ≤ 'F' then some (c.toNat - 55)
  else if 'a' ≤ c ∧ c ≤ 'f' then some (c.toNat - 87)
  else none

def encodeByte (b : UInt8) : List Char := ['%', hexDigit (b.toNat / 16), hexDigit (b.toNat % 16)]

variable (keep : Char → Bool)

def encodeChar (c : Char) : List Char :=
  if keep c then [c] else (String.utf8EncodeChar c).flatMap encodeByte

def encodeList (l : List Char) : List Char := l.flatMap (encodeChar keep)

def encode (s : String) : String := String.ofList (encodeList keep s.toList)

/-- The bytes that a text stands for. -/
def decodeBytes : List Char → Option (List UInt8)
  | [] => some []
  | c :: s =>
    if c = '%' then
      match s with
      | a :: b :: s =>
        (hexValue a).bind fun h => (hexValue b).bind fun l =>
          (decodeBytes s).map (UInt8.ofNat (16 * h + l) :: ·)
      | _ => none
    else (decodeBytes s).map (String.utf8EncodeChar c ++ ·)

def decode (s : String) : Option String :=
  (decodeBytes s.toList).bind fun bytes =>
    bytes.toByteArray.utf8Decode?.map fun chars => String.ofList chars.toList

theorem hexValue_hexDigit {n : Nat} (h : n < 16) : hexValue (hexDigit n) = some n := by
  interval_cases n <;> decide

theorem hexDigit_mem {n : Nat} (h : n < 16) : hexDigit n ∈ "0123456789ABCDEF".toList := by
  interval_cases n <;> decide

theorem decodeBytes_cons_of_ne {c : Char} (h : c ≠ '%') (s : List Char) :
    decodeBytes (c :: s) = (decodeBytes s).map (String.utf8EncodeChar c ++ ·) := by
  rw [decodeBytes.eq_def]
  exact if_neg h

theorem decodeBytes_encodeByte (b : UInt8) (s : List Char) :
    decodeBytes (encodeByte b ++ s) = (decodeBytes s).map (b :: ·) := by
  have hb : b.toNat < 256 := b.toNat_lt
  have hvalue : UInt8.ofNat (16 * (b.toNat / 16) + b.toNat % 16) = b := by
    rw [Nat.div_add_mod, UInt8.ofNat_toNat]
  show decodeBytes ('%' :: _ :: _ :: s) = _
  rw [decodeBytes, if_pos rfl]
  simp only [hexValue_hexDigit (show b.toNat / 16 < 16 by omega),
    hexValue_hexDigit (show b.toNat % 16 < 16 by omega), Option.bind_some, hvalue]

theorem decodeBytes_encodeBytes (bytes : List UInt8) (s : List Char) :
    decodeBytes (bytes.flatMap encodeByte ++ s) = (decodeBytes s).map (bytes ++ ·) := by
  induction bytes with
  | nil => simp
  | cons b bytes ih =>
    rw [List.flatMap_cons, List.append_assoc, decodeBytes_encodeByte, ih, Option.map_map]
    rfl

theorem mem_encodeByte {b : UInt8} {c : Char} (h : c ∈ encodeByte b) :
    c = '%' ∨ c ∈ "0123456789ABCDEF".toList := by
  have hlt : b.toNat < 256 := b.toNat_lt
  simp only [encodeByte, List.mem_cons, List.not_mem_nil, or_false] at h
  rcases h with rfl | rfl | rfl
  · exact Or.inl rfl
  · exact Or.inr (hexDigit_mem (by omega))
  · exact Or.inr (hexDigit_mem (by omega))

variable {keep}

theorem decodeBytes_encodeChar (hkeep : keep '%' = false) (c : Char) (s : List Char) :
    decodeBytes (encodeChar keep c ++ s) = (decodeBytes s).map (String.utf8EncodeChar c ++ ·) := by
  unfold encodeChar
  split_ifs with hc
  · have hne : c ≠ '%' := by
      rintro rfl
      exact absurd hc (by simp [hkeep])
    exact decodeBytes_cons_of_ne hne s
  · exact decodeBytes_encodeBytes _ s

theorem decodeBytes_encodeList (hkeep : keep '%' = false) (l : List Char) :
    decodeBytes (encodeList keep l) = some (l.flatMap String.utf8EncodeChar) := by
  unfold encodeList
  induction l with
  | nil => rfl
  | cons c l ih => rw [List.flatMap_cons, decodeBytes_encodeChar hkeep, ih, List.flatMap_cons]; rfl

/-- **Decoding undoes encoding.** -/
theorem decode_encode (hkeep : keep '%' = false) (s : String) :
    decode (encode keep s) = some s := by
  have hutf8 : (s.toList.flatMap String.utf8EncodeChar).toByteArray.utf8Decode? =
      some s.toList.toArray := List.utf8Decode?_utf8Encode
  unfold decode encode
  rw [String.toList_ofList, decodeBytes_encodeList hkeep, Option.bind_some, hutf8, Option.map_some,
    List.toList_toArray, String.ofList_toList]

theorem encode_injective (hkeep : keep '%' = false) : Function.Injective (encode keep) := by
  intro s t h
  have h := congrArg decode h
  rw [decode_encode hkeep, decode_encode hkeep] at h
  exact Option.some.inj h

/-- An encoded text has characters that are kept, `%`, and digits. -/
theorem mem_encode {s : String} {c : Char} (h : c ∈ (encode keep s).toList) :
    keep c = true ∨ c = '%' ∨ c ∈ "0123456789ABCDEF".toList := by
  unfold encode encodeList at h
  rw [String.toList_ofList] at h
  obtain ⟨d, -, hd⟩ := List.mem_flatMap.mp h
  unfold encodeChar at hd
  split_ifs at hd with hkeep
  · exact Or.inl (List.mem_singleton.mp hd ▸ hkeep)
  · obtain ⟨b, -, hb⟩ := List.mem_flatMap.mp hd
    exact Or.inr (mem_encodeByte hb)

end Percent
