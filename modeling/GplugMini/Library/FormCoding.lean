import Mathlib.Tactic.Common
import GplugMini.Library.ByteText

/- Percent coding of form values: encoding over an alphabet of the bytes it leaves alone,
   decoding, and the first value under a name in a body of such values. -/
namespace FormCoding
open ByteText

def percent : UInt8 := 37
def plus : UInt8 := 43
def space : UInt8 := 32
def ampersand : UInt8 := 38
def equalsSign : UInt8 := 61

def hexValue (c : UInt8) : Option UInt8 :=
  if 48 ≤ c && c ≤ 57 then some (c - 48)
  else if 97 ≤ c && c ≤ 102 then some (c - 97 + 10)
  else if 65 ≤ c && c ≤ 70 then some (c - 65 + 10)
  else none

def hexDigit (d : UInt8) : UInt8 := if d < 10 then 48 + d else 55 + d

def formDecode : Bytes → Bytes
  | [] => []
  | [b] => [if b = plus then space else b]
  | [b, c] => (if b = plus then space else b) :: formDecode [c]
  | b :: h :: l :: rest =>
      if b = plus then space :: formDecode (h :: l :: rest)
      else if b = percent then
        match hexValue h, hexValue l with
        | some hi, some lo => (hi * 16 + lo) :: formDecode rest
        | _, _ => b :: formDecode (h :: l :: rest)
      else b :: formDecode (h :: l :: rest)

/-- The bytes an encoder leaves alone: none of them means anything to a decoder. -/
structure Alphabet where
  plain : UInt8 → Bool
  separate : ∀ b, plain b = true → b ∉ [0, percent, plus, ampersand, equalsSign]

variable (alphabet : Alphabet)

def encodeByte (b : UInt8) : Bytes :=
  if b = space then [plus]
  else if alphabet.plain b then [b]
  else [percent, hexDigit (b / 16), hexDigit (b % 16)]

def formEncode (text : Bytes) : Bytes := text.flatMap (encodeByte alphabet)

@[simp] theorem form_encode_nil : formEncode alphabet [] = [] := rfl

@[simp] theorem form_encode_cons (b : UInt8) (text : Bytes) :
    formEncode alphabet (b :: text) = encodeByte alphabet b ++ formEncode alphabet text := rfl

theorem form_decode_plain {b : UInt8} (noPlus : b ≠ plus) (noPercent : b ≠ percent)
    (rest : Bytes) : formDecode (b :: rest) = b :: formDecode rest := by
  match rest with
  | [] => simp [formDecode, noPlus]
  | [_] => simp [formDecode, noPlus]
  | _ :: _ :: _ => simp [formDecode, noPlus, noPercent]

theorem form_decode_plus (rest : Bytes) :
    formDecode (plus :: rest) = space :: formDecode rest := by
  match rest with
  | [] => rfl
  | [_] => rfl
  | _ :: _ :: _ => simp [formDecode]

theorem form_decode_escape {h l hi lo : UInt8} (high : hexValue h = some hi)
    (low : hexValue l = some lo) (rest : Bytes) :
    formDecode (percent :: h :: l :: rest) = (hi * 16 + lo) :: formDecode rest := by
  rw [formDecode, if_neg (by decide), if_pos rfl, high, low]

theorem hex_value_digit {d : UInt8} (small : d < 16) : hexValue (hexDigit d) = some d := by
  have every : ∀ n < 16, hexValue (hexDigit (UInt8.ofNat n)) = some (UInt8.ofNat n) := by decide
  have := every d.toNat (UInt8.lt_iff_toNat_lt.mp small)
  rwa [UInt8.ofNat_toNat] at this

theorem nibbles (b : UInt8) : b / 16 * 16 + b % 16 = b := by
  apply UInt8.toNat_inj.mp
  have := b.toNat_lt
  simp
  omega

theorem nibbles_small (b : UInt8) : b / 16 < 16 ∧ b % 16 < 16 := by
  have := b.toNat_lt
  constructor
  · rw [UInt8.lt_iff_toNat_lt]
    simp
    omega
  · rw [UInt8.lt_iff_toNat_lt]
    simp
    omega

theorem form_decode_byte (b : UInt8) (rest : Bytes) :
    formDecode (encodeByte alphabet b ++ rest) = b :: formDecode rest := by
  unfold encodeByte
  split
  · rename_i blank
    rw [List.singleton_append, form_decode_plus, blank]
  · split
    · rename_i plain
      have separate := alphabet.separate b plain
      simp only [List.mem_cons, not_or] at separate
      exact form_decode_plain separate.2.2.1 separate.2.1 rest
    · obtain ⟨high, low⟩ := nibbles_small b
      rw [List.cons_append, List.cons_append, List.singleton_append,
        form_decode_escape (hex_value_digit high) (hex_value_digit low), nibbles]

/-- Decoding undoes encoding, whatever follows. -/
theorem form_decode_encode (text rest : Bytes) :
    formDecode (formEncode alphabet text ++ rest) = text ++ formDecode rest := by
  induction text with
  | nil => rfl
  | cons b text ih =>
    rw [form_encode_cons, List.append_assoc, form_decode_byte, ih, List.cons_append]

theorem hex_digit_separate {d : UInt8} (small : d < 16) :
    hexDigit d ∉ [0, percent, plus, ampersand, equalsSign] := by
  have every : ∀ n < 16,
      hexDigit (UInt8.ofNat n) ∉ [0, percent, plus, ampersand, equalsSign] := by decide
  have := every d.toNat (UInt8.lt_iff_toNat_lt.mp small)
  rwa [UInt8.ofNat_toNat] at this

theorem encode_byte_separate (b : UInt8) :
    ∀ c ∈ encodeByte alphabet b, c ≠ 0 ∧ c ≠ ampersand ∧ c ≠ equalsSign := by
  unfold encodeByte
  split
  · decide
  · split
    · rename_i plain
      have separate := alphabet.separate b plain
      simp only [List.mem_cons, not_or] at separate
      simp only [List.mem_singleton, forall_eq]
      exact ⟨separate.1, separate.2.2.2.1, separate.2.2.2.2.1⟩
    · have high := hex_digit_separate (nibbles_small b).1
      have low := hex_digit_separate (nibbles_small b).2
      simp only [List.mem_cons, not_or] at high low
      simp only [List.forall_mem_cons, List.not_mem_nil, false_imp_iff, implies_true, and_true]
      exact ⟨by decide, ⟨high.1, high.2.2.2.1, high.2.2.2.2.1⟩, low.1, low.2.2.2.1, low.2.2.2.2.1⟩

theorem form_encode_separate (text : Bytes) :
    ∀ c ∈ formEncode alphabet text, c ≠ 0 ∧ c ≠ ampersand ∧ c ≠ equalsSign := by
  intro c member
  obtain ⟨b, _, inside⟩ := List.mem_flatMap.mp member
  exact encode_byte_separate alphabet b c inside

theorem form_encode_plain {text : Bytes}
    (plain : ∀ b ∈ text, b ≠ space ∧ alphabet.plain b = true) :
    formEncode alphabet text = text := by
  induction text with
  | nil => rfl
  | cons b text ih =>
    obtain ⟨⟨visible, kept⟩, rest⟩ := List.forall_mem_cons.mp plain
    rw [form_encode_cons, ih rest, encodeByte, if_neg visible, if_pos kept, List.singleton_append]

theorem form_encode_length_le (text : Bytes) :
    text.length ≤ (formEncode alphabet text).length ∧
      (formEncode alphabet text).length ≤ 3 * text.length := by
  induction text with
  | nil => simp
  | cons b text ih =>
    have byte : 1 ≤ (encodeByte alphabet b).length ∧ (encodeByte alphabet b).length ≤ 3 := by
      unfold encodeByte
      split
      · simp
      · split <;> simp
    rw [form_encode_cons, List.length_append, List.length_cons]
    omega

def Digit (c : UInt8) (d : Nat) : Prop :=
  (ascii "0123456789abcdef")[d]? = some c ∨ (ascii "0123456789ABCDEF")[d]? = some c

instance (c : UInt8) (d : Nat) : Decidable (Digit c d) := inferInstanceAs (Decidable (_ ∨ _))

def Escape (h l b : UInt8) : Prop :=
  ∃ hi lo, Digit h hi ∧ Digit l lo ∧ b = UInt8.ofNat (16 * hi + lo)

theorem digit_value {c : UInt8} {d : Nat} (digit : Digit c d) :
    hexValue c = some (UInt8.ofNat d) := by
  have every : ∀ n < 16,
      hexValue ((ascii "0123456789abcdef").getD n 0) = some (UInt8.ofNat n) ∧
      hexValue ((ascii "0123456789ABCDEF").getD n 0) = some (UInt8.ofNat n) := by decide
  rcases digit with lower | upper
  · have bound := (List.getElem?_eq_some_iff.mp lower).1
    have value := (every d bound).1
    rwa [List.getD_eq_getElem?_getD, lower] at value
  · have bound := (List.getElem?_eq_some_iff.mp upper).1
    have value := (every d bound).2
    rwa [List.getD_eq_getElem?_getD, upper] at value

theorem value_digit {c v : UInt8} (value : hexValue c = some v) : Digit c v.toNat := by
  have every : ∀ n < 256, ∀ v ∈ hexValue (UInt8.ofNat n), Digit (UInt8.ofNat n) v.toNat := by
    decide +kernel
  have := every c.toNat c.toNat_lt v
  rw [UInt8.ofNat_toNat] at this
  exact this value

theorem escape_iff {h l b : UInt8} :
    Escape h l b ↔
      ∃ hi lo, hexValue h = some hi ∧ hexValue l = some lo ∧ b = hi * 16 + lo := by
  constructor
  · rintro ⟨hi, lo, high, low, rfl⟩
    refine ⟨_, _, digit_value high, digit_value low, ?_⟩
    simp [UInt8.ofNat_add, UInt8.ofNat_mul, UInt8.mul_comm]
  · rintro ⟨hi, lo, high, low, rfl⟩
    refine ⟨hi.toNat, lo.toNat, value_digit high, value_digit low, ?_⟩
    simp [UInt8.ofNat_add, UInt8.ofNat_mul, UInt8.mul_comm]

/-- Left to right: a '+' is a blank, a '%' with two digits their byte, and the rest itself. -/
inductive Decodes : Bytes → Bytes → Prop
  | nil : Decodes [] []
  | blank {rest out : Bytes} : Decodes rest out → Decodes (plus :: rest) (space :: out)
  | escape {h l b : UInt8} {rest out : Bytes} :
      Escape h l b → Decodes rest out → Decodes (percent :: h :: l :: rest) (b :: out)
  | stray {rest out : Bytes} :
      (∀ h l more, rest = h :: l :: more → ∀ b, ¬ Escape h l b) →
      Decodes rest out → Decodes (percent :: rest) (percent :: out)
  | plain {b : UInt8} {rest out : Bytes} :
      b ≠ plus → b ≠ percent → Decodes rest out → Decodes (b :: rest) (b :: out)

/-- An encoder may escape any byte, and must escape a '+' or a '%'. -/
inductive Encodes : Bytes → Bytes → Prop
  | nil : Encodes [] []
  | blank {text rest : Bytes} : Encodes text rest → Encodes (space :: text) (plus :: rest)
  | escape {h l b : UInt8} {text rest : Bytes} :
      Escape h l b → Encodes text rest → Encodes (b :: text) (percent :: h :: l :: rest)
  | plain {b : UInt8} {text rest : Bytes} :
      b ≠ plus → b ≠ percent → Encodes text rest → Encodes (b :: text) (b :: rest)

theorem form_decode_stray {rest : Bytes}
    (stray : ∀ h l more, rest = h :: l :: more → ∀ b, ¬ Escape h l b) :
    formDecode (percent :: rest) = percent :: formDecode rest := by
  match rest with
  | [] => rfl
  | [_] => rfl
  | h :: l :: more =>
    have never := stray h l more rfl
    rw [formDecode, if_neg (by decide), if_pos rfl]
    cases high : hexValue h with
    | none => rfl
    | some hi =>
      cases low : hexValue l with
      | none => rfl
      | some lo => exact absurd (escape_iff.mpr ⟨hi, lo, high, low, rfl⟩) (never _)

theorem decodes_form_decode {text out : Bytes} (decodes : Decodes text out) :
    formDecode text = out := by
  induction decodes with
  | nil => rfl
  | blank _ ih => rw [form_decode_plus, ih]
  | escape escape _ ih =>
    obtain ⟨hi, lo, high, low, rfl⟩ := escape_iff.mp escape
    rw [form_decode_escape high low, ih]
  | stray stray _ ih => rw [form_decode_stray stray, ih]
  | plain noPlus noPercent _ ih => rw [form_decode_plain noPlus noPercent, ih]

theorem form_decode_decodes (text : Bytes) : Decodes text (formDecode text) := by
  induction size : text.length using Nat.strong_induction_on generalizing text with
  | _ n ih =>
    match text with
    | [] => exact .nil
    | b :: rest =>
      simp only [List.length_cons] at size
      by_cases blank : b = plus
      · rw [blank, form_decode_plus]
        exact .blank (ih _ (by omega) rest rfl)
      · by_cases sign : b = percent
        · by_cases found : ∃ h l more, rest = h :: l :: more ∧ ∃ v, Escape h l v
          · obtain ⟨h, l, more, rfl, v, escape⟩ := found
            simp only [List.length_cons] at size
            have step := Decodes.escape escape (ih _ (by omega) more rfl)
            rw [sign, decodes_form_decode step]
            exact step
          · have stray : ∀ h l more, rest = h :: l :: more → ∀ v, ¬ Escape h l v := by
              intro h l more split v escape
              exact found ⟨h, l, more, split, v, escape⟩
            rw [sign, form_decode_stray stray]
            exact .stray stray (ih _ (by omega) rest rfl)
        · rw [form_decode_plain blank sign]
          exact .plain blank sign (ih _ (by omega) rest rfl)

theorem encodes_decodes {text coded : Bytes} (encodes : Encodes text coded) :
    Decodes coded text := by
  induction encodes with
  | nil => exact .nil
  | blank _ ih => exact .blank ih
  | escape escape _ ih => exact .escape escape ih
  | plain noPlus noPercent _ ih => exact .plain noPlus noPercent ih

theorem form_encode_encodes (text : Bytes) : Encodes text (formEncode alphabet text) := by
  induction text with
  | nil => exact .nil
  | cons b text ih =>
    rw [form_encode_cons]
    unfold encodeByte
    split
    · rename_i blank
      rw [blank]
      exact .blank ih
    · split
      · rename_i plain
        have separate := alphabet.separate b plain
        simp only [List.mem_cons, not_or] at separate
        exact .plain separate.2.2.1 separate.2.1 ih
      · obtain ⟨high, low⟩ := nibbles_small b
        have escape : Escape (hexDigit (b / 16)) (hexDigit (b % 16)) b :=
          escape_iff.mpr ⟨_, _, hex_value_digit high, hex_value_digit low, (nibbles b).symm⟩
        exact .escape escape ih

theorem digit_not_nul {c : UInt8} {d : Nat} (digit : Digit c d) : c ≠ 0 := by
  rintro rfl
  exact absurd (digit_value digit) (by simp [hexValue])

theorem encodes_nul_free {text coded : Bytes} (encodes : Encodes text coded)
    (free : NulFree text) : NulFree coded := by
  induction encodes with
  | nil => exact free
  | blank _ ih =>
    rw [nul_free_cons] at free ⊢
    exact ⟨by decide, ih free.2⟩
  | escape escape _ ih =>
    obtain ⟨hi, lo, high, low, _⟩ := escape
    simp only [nul_free_cons] at free ⊢
    exact ⟨by decide, digit_not_nul high, digit_not_nul low, ih free.2⟩
  | plain _ _ _ ih =>
    rw [nul_free_cons] at free ⊢
    exact ⟨free.1, ih free.2⟩

def segments (body : Bytes) : List Bytes := body.splitOn ampersand

def valueIn (name segment : Bytes) : Option Bytes :=
  if (name ++ [equalsSign]).isPrefixOf segment then some (segment.drop (name.length + 1)) else none

def firstValue (name body : Bytes) : Option Bytes := (segments body).findSome? (valueIn name)

theorem first_value_single (name : Bytes) {segment : Bytes} (separate : ampersand ∉ segment) :
    firstValue name segment = valueIn name segment := by
  rw [firstValue, segments, List.splitOn_eq_singleton separate]
  cases found : valueIn name segment <;> simp [found]

theorem first_value_cons (name : Bytes) {segment : Bytes} (separate : ampersand ∉ segment)
    (rest : Bytes) :
    firstValue name (segment ++ ampersand :: rest) =
      (valueIn name segment).or (firstValue name rest) := by
  rw [firstValue, segments, List.splitOn_append_cons_self_of_not_mem separate, List.findSome?_cons]
  cases valueIn name segment <;> rfl

theorem intercalate_ended (separator : UInt8) {pieces : List Bytes} (pieced : pieces ≠ []) :
    [separator].intercalate pieces ++ [separator] = pieces.flatMap (· ++ [separator]) := by
  induction pieces with
  | nil => exact absurd rfl pieced
  | cons piece pieces ih =>
    cases pieces with
    | nil => simp
    | cons next rest =>
      rw [List.intercalate_cons_cons, List.append_assoc, ih (by simp)]
      simp only [List.flatMap_cons, List.append_assoc]

theorem first_value_swap {name s t : Bytes}
    (different : valueIn name s = none ∨ valueIn name t = none) {before after : List Bytes}
    (separate : ∀ x ∈ before ++ s :: t :: after, ampersand ∉ x) :
    firstValue name ([ampersand].intercalate (before ++ s :: t :: after)) =
      firstValue name ([ampersand].intercalate (before ++ t :: s :: after)) := by
  have swapped : ∀ x ∈ before ++ t :: s :: after, ampersand ∉ x := by
    intro x member
    apply separate
    simp only [List.mem_append, List.mem_cons] at member ⊢
    tauto
  rw [firstValue, segments, List.splitOn_intercalate _ separate (by simp), firstValue, segments,
    List.splitOn_intercalate _ swapped (by simp)]
  simp only [List.findSome?_append, List.findSome?_cons]
  rcases different with none | none <;> simp [none]

end FormCoding
