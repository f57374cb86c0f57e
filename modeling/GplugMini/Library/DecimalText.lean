import Mathlib.Algebra.Ring.Nat
import Mathlib.Tactic.Common
import GplugMini.Library.ByteText

/- The texts printf produces for an unsigned integer and for %.3f, and the reading of a
   decimal text back. A double is its sign, an integer mantissa and a binary exponent;
   %.3f rounds the exact value half to even, as the C library does. -/
namespace DecimalText
open ByteText

def charByte (c : Char) : UInt8 := UInt8.ofNat c.toNat

def decimal (n : Nat) : Bytes := (Nat.toDigits 10 n).map charByte

def IsDigit (b : UInt8) : Prop := 48 ≤ b.toNat ∧ b.toNat ≤ 57

instance (b : UInt8) : Decidable (IsDigit b) :=
  inferInstanceAs (Decidable (48 ≤ b.toNat ∧ b.toNat ≤ 57))

def decimalValue (text : Bytes) : Option Nat :=
  if text ≠ [] ∧ ∀ b ∈ text, IsDigit b then
    some (text.foldl (fun sum b => 10 * sum + (b.toNat - 48)) 0)
  else none

inductive Double where
  | finite (negative : Bool) (mantissa : Nat) (exponent : Int)
  | infinite (negative : Bool)
  | nan (negative : Bool)
  deriving DecidableEq, Repr

def divHalfEven (n d : Nat) : Nat :=
  if 2 * (n % d) < d ∨ (2 * (n % d) = d ∧ n / d % 2 = 0) then n / d else n / d + 1

def thousandths (mantissa : Nat) (exponent : Int) : Nat :=
  if 0 ≤ exponent then mantissa * 1000 * 2 ^ exponent.toNat
  else divHalfEven (mantissa * 1000) (2 ^ (-exponent).toNat)

def threeDigits (n : Nat) : Bytes :=
  [UInt8.ofNat (48 + n / 100 % 10), UInt8.ofNat (48 + n / 10 % 10), UInt8.ofNat (48 + n % 10)]

def sign (negative : Bool) : Bytes := if negative then ascii "-" else []

def fixed3 : Double → Bytes
  | .finite negative mantissa exponent =>
      let n := thousandths mantissa exponent
      sign negative ++ decimal (n / 1000) ++ ascii "." ++ threeDigits (n % 1000)
  | .infinite negative => sign negative ++ ascii "inf"
  | .nan negative => sign negative ++ ascii "nan"

/-- No NUL, quote, comma or closing brace: a byte that cannot end a member of an object. -/
def Bare (b : UInt8) : Prop := b ≠ 0 ∧ b ≠ 34 ∧ b ≠ 44 ∧ b ≠ 125

instance (b : UInt8) : Decidable (Bare b) :=
  inferInstanceAs (Decidable (b ≠ 0 ∧ b ≠ 34 ∧ b ≠ 44 ∧ b ≠ 125))

theorem bare_of_digit {b : UInt8} (digit : IsDigit b) : Bare b := by
  refine ⟨?_, ?_, ?_, ?_⟩ <;> rintro rfl <;> exact absurd digit (by decide)

theorem bare_nul_free {text : Bytes} (bare : ∀ b ∈ text, Bare b) : NulFree text :=
  fun b member => (bare b member).1

theorem char_byte_digit {c : Char} (digit : c.isDigit = true) :
    (charByte c).toNat = c.toNat ∧ IsDigit (charByte c) := by
  have bounds : 48 ≤ c.toNat ∧ c.toNat ≤ 57 := by
    simp only [Char.isDigit, Bool.and_eq_true, decide_eq_true_eq, UInt32.le_iff_toNat_le] at digit
    exact ⟨digit.1, digit.2⟩
  have same : (charByte c).toNat = c.toNat := by
    simp only [charByte, UInt8.toNat_ofNat']
    omega
  exact ⟨same, by rw [IsDigit, same]; exact bounds⟩

theorem decimal_digits (n : Nat) : ∀ b ∈ decimal n, IsDigit b := by
  intro b member
  obtain ⟨c, digit, rfl⟩ := List.mem_map.mp member
  exact (char_byte_digit (Nat.isDigit_of_mem_toDigits (by omega) (by omega) digit)).2

theorem decimal_ne_nil (n : Nat) : decimal n ≠ [] := by
  simp [decimal, Nat.toDigits_ne_nil]

theorem decimal_length_le {n k : Nat} (positive : 0 < k) (bound : n < 10 ^ k) :
    (decimal n).length ≤ k := by
  rw [decimal, List.length_map]
  exact (Nat.length_toDigits_le_iff (by omega) positive).mpr bound

theorem fold_digits (cs : List Char) (digits : ∀ c ∈ cs, c.isDigit = true) (start : Nat) :
    (cs.map charByte).foldl (fun sum b => 10 * sum + (b.toNat - 48)) start =
      Nat.ofDigitChars 10 cs start := by
  induction cs generalizing start with
  | nil => rfl
  | cons c cs ih =>
    have byte := (char_byte_digit (digits c (by simp))).1
    rw [List.map_cons, List.foldl_cons, byte, Nat.ofDigitChars_cons,
      ih (fun d member => digits d (by simp [member]))]
    rfl

theorem decimal_value (n : Nat) : decimalValue (decimal n) = some n := by
  rw [decimalValue, if_pos ⟨decimal_ne_nil n, decimal_digits n⟩, decimal, fold_digits]
  · rw [Nat.ofDigitChars_ten_toDigits]
  · intro c member
    exact Nat.isDigit_of_mem_toDigits (by omega) (by omega) member

theorem decimal_bare (n : Nat) : ∀ b ∈ decimal n, Bare b :=
  fun b member => bare_of_digit (decimal_digits n b member)

theorem three_digits_bare (n : Nat) : ∀ b ∈ threeDigits n, Bare b := by
  have digit (d : Nat) (small : d < 10) : Bare (UInt8.ofNat (48 + d)) := by
    apply bare_of_digit
    simp only [IsDigit, UInt8.toNat_ofNat']
    omega
  intro b member
  simp only [threeDigits, List.mem_cons, List.not_mem_nil, or_false] at member
  rcases member with rfl | rfl | rfl <;> exact digit _ (Nat.mod_lt _ (by omega))

theorem sign_bare (negative : Bool) : ∀ b ∈ sign negative, Bare b := by
  cases negative <;> decide

theorem fixed3_bare (v : Double) : ∀ b ∈ fixed3 v, Bare b := by
  have literal (s : String) (plain : ∀ b ∈ ascii s, Bare b) (negative : Bool) :
      ∀ b ∈ sign negative ++ ascii s, Bare b := by
    intro b member
    rcases List.mem_append.mp member with first | last
    · exact sign_bare negative b first
    · exact plain b last
  cases v with
  | finite negative mantissa exponent =>
    intro b member
    simp only [fixed3, List.mem_append] at member
    rcases member with ((first | whole) | point) | fraction
    · exact sign_bare negative b first
    · exact decimal_bare _ b whole
    · exact (by decide : ∀ b ∈ ascii ".", Bare b) b point
    · exact three_digits_bare _ b fraction
  | infinite negative => exact literal "inf" (by decide) negative
  | nan negative => exact literal "nan" (by decide) negative

example : fixed3 (.finite true 12345 (-4)) = ascii "-771.562" := by decide

end DecimalText
