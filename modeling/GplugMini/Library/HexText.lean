import Mathlib.Tactic.Common
import GplugMini.Library.FormCoding

/- Bytes as hexadecimal text: two digits each, in either case, and anything that is no digit
   between them, before and behind. -/
namespace HexText
open ByteText FormCoding

def digits (text : Bytes) : List UInt8 := text.filterMap hexValue

def pairs : List UInt8 → Bytes
  | high :: low :: rest => (high * 16 + low) :: pairs rest
  | _ => []

def readHex (text : Bytes) : Bytes := pairs (digits text)

def halves (b : UInt8) : List UInt8 := [b / 16, b % 16]

def hexUpper (b : UInt8) : Bytes := [hexDigit (b / 16), hexDigit (b % 16)]

def Blank (text : Bytes) : Prop := ∀ b ∈ text, hexValue b = none

instance (text : Bytes) : Decidable (Blank text) :=
  inferInstanceAs (Decidable (∀ b ∈ text, hexValue b = none))

theorem digits_append (front back : Bytes) : digits (front ++ back) = digits front ++ digits back :=
  List.filterMap_append

theorem digits_blank {text : Bytes} (blank : Blank text) : digits text = [] :=
  List.filterMap_eq_nil_iff.mpr blank

theorem digits_hex_upper (b : UInt8) : digits (hexUpper b) = halves b := by
  obtain ⟨high, low⟩ := nibbles_small b
  simp [digits, hexUpper, halves, hex_value_digit high, hex_value_digit low]

theorem digits_hex {text : Bytes} {d : UInt8} (digit : d ∈ digits text) : d < 16 := by
  obtain ⟨c, _, value⟩ := List.mem_filterMap.mp digit
  unfold hexValue at value
  simp only [Bool.and_eq_true, decide_eq_true_eq] at value
  have upper (a b : UInt8) : a ≤ b ↔ a.toNat ≤ b.toNat := UInt8.le_iff_toNat_le
  split_ifs at value with number lower capital
  all_goals
    obtain rfl := Option.some.inj value
    simp only [upper] at *
    simp only [UInt8.lt_iff_toNat_lt, UInt8.toNat_add, UInt8.toNat_sub]
    have small := c.toNat_lt
    simp at *
    omega

theorem pairs_iff {ds : List UInt8} (small : ∀ d ∈ ds, d < 16) (bytes : Bytes) :
    pairs ds = bytes ↔ ∃ odd, ds = bytes.flatMap halves ++ odd ∧ odd.length ≤ 1 := by
  induction ds using pairs.induct generalizing bytes with
  | case1 high low rest ih =>
    obtain ⟨top, next, others⟩ : high < 16 ∧ low < 16 ∧ ∀ d ∈ rest, d < 16 := by
      simpa using small
    have split : halves (high * 16 + low) = [high, low] := by
      rw [UInt8.lt_iff_toNat_lt] at top next
      change high.toNat < 16 at top
      change low.toNat < 16 at next
      have whole : (high * 16 + low).toNat = high.toNat * 16 + low.toNat := by
        simp only [UInt8.toNat_add, UInt8.toNat_mul]
        change (high.toNat * 16 % 256 + low.toNat) % 256 = _
        omega
      simp only [halves, List.cons.injEq, ← UInt8.toNat_inj, UInt8.toNat_div, UInt8.toNat_mod,
        whole, and_true]
      change (high.toNat * 16 + low.toNat) / 16 = high.toNat ∧
        (high.toNat * 16 + low.toNat) % 16 = low.toNat
      omega
    rw [pairs]
    constructor
    · intro read
      subst read
      obtain ⟨odd, shape, short⟩ := (ih others _).mp rfl
      refine ⟨odd, ?_, short⟩
      rw [List.flatMap_cons, split]
      exact congrArg (high :: low :: ·) shape
    · intro shown
      obtain ⟨odd, shape, short⟩ := shown
      cases bytes with
      | nil =>
        have length := congrArg List.length shape
        simp only [List.length_cons, List.flatMap_nil, List.nil_append] at length
        omega
      | cons b bytes =>
        rw [List.flatMap_cons, halves] at shape
        simp only [List.cons_append, List.nil_append, List.cons.injEq] at shape
        obtain ⟨rfl, rfl, remaining⟩ := shape
        rw [FormCoding.nibbles, (ih others _).mpr ⟨odd, remaining, short⟩]
  | case2 ds fewer =>
    have few : ds.length ≤ 1 := by
      match ds, fewer with
      | [], _ => simp
      | [_], _ => simp
      | high :: low :: rest, longer => exact absurd rfl (longer high low rest)
    have nothing : pairs ds = [] := by
      match ds, few with
      | [], _ => rfl
      | [_], _ => rfl
    rw [nothing]
    constructor
    · intro empty
      subst empty
      exact ⟨ds, rfl, few⟩
    · intro shown
      obtain ⟨odd, shape, _⟩ := shown
      cases bytes with
      | nil => rfl
      | cons b bytes =>
        have length := congrArg List.length shape
        simp only [List.flatMap_cons, halves, List.length_append, List.length_cons] at length
        omega

theorem read_hex_iff (text bytes : Bytes) :
    readHex text = bytes ↔ ∃ odd, digits text = bytes.flatMap halves ++ odd ∧ odd.length ≤ 1 :=
  pairs_iff (fun _ => digits_hex) bytes

theorem digits_spaced {blank : Bytes} (separates : Blank blank) (bytes : Bytes) :
    digits (bytes.flatMap fun b => hexUpper b ++ blank) = bytes.flatMap halves := by
  induction bytes with
  | nil => rfl
  | cons b bytes ih =>
    rw [List.flatMap_cons, List.flatMap_cons, digits_append, digits_append, ih, digits_hex_upper,
      digits_blank separates, List.append_nil]

theorem read_hex_spaced {blank : Bytes} (separates : Blank blank) (bytes : Bytes) :
    readHex (bytes.flatMap fun b => hexUpper b ++ blank) = bytes := by
  rw [read_hex_iff]
  exact ⟨[], by rw [digits_spaced separates, List.append_nil], by simp⟩

end HexText
