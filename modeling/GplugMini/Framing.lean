import Mathlib.Tactic.Common
import GplugMini.Library.ByteText

/- Where a received buffer is trimmed before it is decoded, and whether it shows framing. -/
namespace GplugFraming
open ByteText

def flag : UInt8 := 0x7E

def formatByte (b : UInt8) : Bool := b &&& 0xF0 == 0xA0

def leadingFlags : Bytes → Nat
  | b :: c :: rest => if b = flag ∧ formatByte c = false then leadingFlags (c :: rest) + 1 else 0
  | _ => 0

/-- The same as the loop over an index: each byte is read where it is known to lie inside. -/
def flagsFrom (bytes : Bytes) (i : Nat) : Nat :=
  if inside : i + 1 < bytes.length then
    if bytes[i] = flag ∧ formatByte bytes[i + 1] = false then flagsFrom bytes (i + 1) else i
  else i
termination_by bytes.length - i

/-- Some flag in the buffer is directly followed by a format byte. -/
def framed : Bytes → Bool
  | b :: c :: rest => (b == flag && formatByte c) || framed (c :: rest)
  | _ => false

theorem drop_two {bytes : Bytes} {i : Nat} (inside : i + 1 < bytes.length) :
    bytes.drop i = bytes[i] :: bytes[i + 1] :: bytes.drop (i + 2) := by
  rw [List.drop_eq_getElem_cons (by omega), List.drop_eq_getElem_cons inside]

theorem flags_from_drop (bytes : Bytes) (i : Nat) :
    flagsFrom bytes i = i + leadingFlags (bytes.drop i) := by
  induction i using flagsFrom.induct bytes with
  | case1 i inside bare ih =>
    rw [flagsFrom, dif_pos inside, if_pos bare, ih, drop_two inside, leadingFlags, if_pos bare,
      ← List.drop_eq_getElem_cons inside]
    omega
  | case2 i inside other =>
    rw [flagsFrom, dif_pos inside, if_neg other, drop_two inside, leadingFlags, if_neg other]
    rfl
  | case3 i ended =>
    have short : (bytes.drop i).length ≤ 1 := by
      rw [List.length_drop]
      omega
    have none : leadingFlags (bytes.drop i) = 0 := by
      cases behind : bytes.drop i with
      | nil => rfl
      | cons b rest =>
        rw [behind, List.length_cons] at short
        have last : rest = [] := List.length_eq_zero_iff.mp (by omega)
        rw [last]
        rfl
    rw [flagsFrom, dif_neg ended, none]
    rfl

theorem leading_flags_loop (bytes : Bytes) : leadingFlags bytes = flagsFrom bytes 0 := by
  rw [flags_from_drop, List.drop_zero, Nat.zero_add]

end GplugFraming
