import Mathlib.Data.List.Basic
import Mathlib.Tactic.Ring

/-!
# Codecs

A codec writes values as bytes, one after the other, and reads a value from the front of bytes.

* `Codec.Reads`: what was written is read back, whatever comes after it.
* `Codec.bytes`: bytes after their length; `bytes_reads`.
* `leb128`: natural numbers in groups of seven bits, the low ones first, each but the last with the
  top bit set, up to a limit.
-/

/-- A way to write a value, and to read one from the front of bytes. -/
structure Codec (α : Type) where
  write : α → List UInt8
  read : List UInt8 → Option (α × List UInt8)

namespace Codec

variable {α : Type} {c : Codec α} {P : α → Prop}

/-- The values in `P` are read back, and what follows them is left. -/
def Reads (c : Codec α) (P : α → Prop) : Prop :=
  ∀ a, P a → ∀ rest, c.read (c.write a ++ rest) = some (a, rest)

theorem Reads.mono {Q : α → Prop} (h : c.Reads P) (hPQ : ∀ a, Q a → P a) : c.Reads Q :=
  fun a ha => h a (hPQ a ha)

/-! ## Bytes after their length -/

/-- Bytes, after their length. -/
def bytes (n : Codec Nat) : Codec (List UInt8) where
  write b := n.write b.length ++ b
  read bs := (n.read bs).bind fun x =>
    if x.1 ≤ x.2.length then some (x.2.take x.1, x.2.drop x.1) else none

variable {n : Codec Nat}

theorem bytes_reads {P : Nat → Prop} (h : n.Reads P) : (bytes n).Reads fun b => P b.length := by
  intro b hb rest
  unfold bytes
  simp only
  rw [List.append_assoc, h b.length hb (b ++ rest), Option.bind_some]
  simp

/-! ## Natural numbers -/

/-- Groups of seven bits, the low ones first. -/
def writeNat (m : Nat) : List UInt8 :=
  if m < 128 then [UInt8.ofNat m] else UInt8.ofNat (128 + m % 128) :: writeNat (m / 128)
termination_by m

theorem writeNat_of_lt {m : Nat} (h : m < 128) : writeNat m = [UInt8.ofNat m] := by
  rw [writeNat, if_pos h]

/-- `acc` is what has been read, `mult` the weight of the next group. -/
def readNat (limit acc mult : Nat) : List UInt8 → Option (Nat × List UInt8)
  | [] => none
  | b :: bs =>
    let acc := acc + b.toNat % 128 * mult
    if b.toNat < 128 then some (acc, bs)
    else if limit < acc then none
    else readNat limit acc (mult * 128) bs

/-- Natural numbers; what is larger than the limit may be refused. -/
def leb128 (limit : Nat) : Codec Nat := ⟨writeNat, readNat limit 0 1⟩

theorem readNat_writeNat {limit m : Nat} (acc mult : Nat) (rest : List UInt8)
    (h : acc + m * mult ≤ limit) :
    readNat limit acc mult (writeNat m ++ rest) = some (acc + m * mult, rest) := by
  induction m using writeNat.induct generalizing acc mult with
  | case1 m hm =>
    have hb : (UInt8.ofNat m).toNat = m := by
      rw [UInt8.toNat_ofNat']
      omega
    rw [writeNat_of_lt hm, List.singleton_append]
    unfold readNat
    simp only [hb]
    rw [if_pos hm, Nat.mod_eq_of_lt hm]
  | case2 m hm ih =>
    have hb : (UInt8.ofNat (128 + m % 128)).toNat = 128 + m % 128 := by
      rw [UInt8.toNat_ofNat']
      omega
    -- the group that is read, and the weight of the rest
    have hsplit : m * mult = m % 128 * mult + m / 128 * (mult * 128) := by
      conv_lhs => rw [← Nat.mod_add_div m 128]
      ring
    unfold writeNat
    rw [if_neg hm, List.cons_append]
    unfold readNat
    simp only [hb]
    rw [if_neg (by omega), Nat.add_mod_left, Nat.mod_mod]
    have hle : acc + m % 128 * mult ≤ limit := by omega
    rw [if_neg (not_lt.mpr hle), ih (acc + m % 128 * mult) (mult * 128) (by omega), hsplit]
    congr 2
    omega

theorem leb128_reads (limit : Nat) : (leb128 limit).Reads (· ≤ limit) := by
  intro m hm rest
  have h : readNat limit 0 1 (writeNat m ++ rest) = some (0 + m * 1, rest) :=
    readNat_writeNat 0 1 rest (by omega)
  simpa [leb128] using h

end Codec
