import Mathlib.Tactic.Common
import GplugMini.Library.ByteText

/- UTF-8: the encodings of single scalar values, texts made of them, and the value a text
   begins with. -/
namespace Utf8Text
open ByteText

def Tail (b : UInt8) : Prop := 0x80 ≤ b ∧ b ≤ 0xBF

instance (b : UInt8) : Decidable (Tail b) := inferInstanceAs (Decidable (_ ∧ _))

def IsScalar : Bytes → Prop
  | [a] => a ≤ 0x7F
  | [a, b] => 0xC2 ≤ a ∧ a ≤ 0xDF ∧ Tail b
  | [a, b, c] =>
      Tail c ∧ ((a = 0xE0 ∧ 0xA0 ≤ b ∧ b ≤ 0xBF) ∨ (a = 0xED ∧ 0x80 ≤ b ∧ b ≤ 0x9F) ∨
        ((0xE1 ≤ a ∧ a ≤ 0xEC ∨ 0xEE ≤ a ∧ a ≤ 0xEF) ∧ Tail b))
  | [a, b, c, d] =>
      Tail c ∧ Tail d ∧ ((a = 0xF0 ∧ 0x90 ≤ b ∧ b ≤ 0xBF) ∨ (a = 0xF4 ∧ 0x80 ≤ b ∧ b ≤ 0x8F) ∨
        (0xF1 ≤ a ∧ a ≤ 0xF3 ∧ Tail b))
  | _ => False

instance (raw : Bytes) : Decidable (IsScalar raw) := by
  unfold IsScalar
  split <;> infer_instance

inductive Utf8 : Bytes → Prop
  | nil : Utf8 []
  | cons {raw rest : Bytes} : IsScalar raw → Utf8 rest → Utf8 (raw ++ rest)

def lead (b : UInt8) : Nat :=
  if b ≤ 0x7F then 1 else if b ≤ 0xDF then 2 else if b ≤ 0xEF then 3 else 4

def scalar (input : Bytes) : Option (Bytes × Bytes) :=
  if IsScalar (input.take (lead (input.headD 0))) then
    some (input.take (lead (input.headD 0)), input.drop (lead (input.headD 0)))
  else none

theorem scalar_parts {raw : Bytes} (one : IsScalar raw) :
    ∃ a tail, raw = a :: tail ∧ raw.length = lead a ∧ ∀ b ∈ tail, 0x80 ≤ b := by
  match raw with
  | [] => exact one.elim
  | [a] =>
    refine ⟨a, [], rfl, ?_, by simp⟩
    simp only [IsScalar] at one
    simp [lead, one]
  | [a, b] =>
    simp only [IsScalar, Tail, UInt8.le_iff_toNat_le] at one
    refine ⟨a, [b], rfl, ?_, by simpa [UInt8.le_iff_toNat_le] using one.2.2.1⟩
    simp only [lead, UInt8.le_iff_toNat_le]
    grind
  | [a, b, c] =>
    simp only [IsScalar, Tail, UInt8.le_iff_toNat_le, ← UInt8.toNat_inj] at one
    refine ⟨a, [b, c], rfl, ?_, ?_⟩
    · simp only [lead, UInt8.le_iff_toNat_le]
      grind
    · simp only [List.mem_cons, List.not_mem_nil, or_false, forall_eq_or_imp, forall_eq,
        UInt8.le_iff_toNat_le]
      grind
  | [a, b, c, d] =>
    simp only [IsScalar, Tail, UInt8.le_iff_toNat_le, ← UInt8.toNat_inj] at one
    refine ⟨a, [b, c, d], rfl, ?_, ?_⟩
    · simp only [lead, UInt8.le_iff_toNat_le]
      grind
    · simp only [List.mem_cons, List.not_mem_nil, or_false, forall_eq_or_imp, forall_eq,
        UInt8.le_iff_toNat_le]
      grind
  | _ :: _ :: _ :: _ :: _ :: _ => exact one.elim

theorem scalar_append {raw : Bytes} (one : IsScalar raw) (rest : Bytes) :
    scalar (raw ++ rest) = some (raw, rest) := by
  obtain ⟨a, tail, shape, length, _⟩ := scalar_parts one
  have head : (raw ++ rest).headD 0 = a := by rw [shape]; rfl
  rw [scalar, head, ← length, List.take_left, List.drop_left]
  exact if_pos one

theorem scalar_some {input raw rest : Bytes} (found : scalar input = some (raw, rest)) :
    IsScalar raw ∧ input = raw ++ rest := by
  unfold scalar at found
  split at found
  · rename_i one
    obtain ⟨rfl, rfl⟩ := Prod.mk.inj (Option.some.inj found)
    exact ⟨one, (List.take_append_drop _ _).symm⟩
  · cases found

theorem utf8_append {left right : Bytes} (first : Utf8 left) (second : Utf8 right) :
    Utf8 (left ++ right) := by
  induction first with
  | nil => exact second
  | cons one _ ih =>
    rw [List.append_assoc]
    exact .cons one ih

theorem utf8_of_ascii {text : Bytes} (low : ∀ b ∈ text, b ≤ 0x7F) : Utf8 text := by
  induction text with
  | nil => exact .nil
  | cons b text ih =>
    obtain ⟨here, later⟩ := List.forall_mem_cons.mp low
    exact @Utf8.cons [b] text here (ih later)

/-- A text that ends before a byte below 0x80 ends between two values. -/
theorem utf8_before {left right : Bytes} {a : UInt8} (low : a ≤ 0x7F)
    (whole : Utf8 (left ++ a :: right)) : Utf8 left := by
  generalize split : left ++ a :: right = text at whole
  induction whole generalizing left with
  | nil => simp at split
  | @cons raw rest one _ ih =>
    rcases List.append_eq_append_iff.mp split with ⟨longer, shape, behind⟩ | ⟨rest', shape, behind⟩
    · cases longer with
      | nil =>
        rw [List.append_nil] at shape
        rw [← shape, ← List.append_nil raw]
        exact .cons one .nil
      | cons b longer =>
        obtain ⟨rfl, _⟩ := List.cons.inj behind
        cases left with
        | nil => exact .nil
        | cons c left =>
          obtain ⟨d, tail, start, _, high⟩ := scalar_parts one
          rw [shape, List.cons_append] at start
          have inside : a ∈ tail := by
            rw [← (List.cons.inj start).2]
            simp
          exact absurd (high a inside) (by
            rw [UInt8.le_iff_toNat_le] at low ⊢
            simp at low ⊢
            omega)
    · rw [shape]
      exact .cons one (ih behind.symm)

end Utf8Text
