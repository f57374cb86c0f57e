import Mathlib.Order.Bounds.Basic
import Mathlib.Tactic.Common
import GplugMini.ParseSpans

/- What the trim before the parse loop is for: the shortest one that leaves no bare flag at the
   start of the buffer. -/
namespace GplugLeastTrim
open ByteText GplugFraming GplugParseSpans

def FrameStart (bytes : Bytes) : Prop :=
  ∃ b rest, bytes = flag :: b :: rest ∧ formatByte b = true

structure LeastTrim (bytes : Bytes) (n : Nat) : Prop where
  within : n < bytes.length ∨ bytes = [] ∧ n = 0
  flags : ∀ b ∈ bytes.take n, b = flag
  least : IsLeast {k | ¬ BareFlag (bytes.drop k)} n

def trimmed (bytes : Bytes) : Bytes := bytes.drop (leadingFlags bytes)

theorem least_trim_unique {bytes : Bytes} {m n : Nat} (first : LeastTrim bytes m)
    (second : LeastTrim bytes n) : m = n := first.least.unique second.least

theorem leading_flags_succ {b c : UInt8} {rest : Bytes} (bare : BareFlag (b :: c :: rest)) :
    b = flag ∧ leadingFlags (b :: c :: rest) = leadingFlags (c :: rest) + 1 := by
  obtain ⟨d, behind, shape, plain⟩ := bare
  obtain ⟨rfl, tail⟩ := List.cons.inj shape
  obtain ⟨rfl, _⟩ := List.cons.inj tail
  exact ⟨rfl, by rw [leadingFlags, if_pos ⟨rfl, plain⟩]⟩

theorem bare_flag_two {b : UInt8} {rest : Bytes} (bare : BareFlag (b :: rest)) :
    ∃ c behind, rest = c :: behind := by
  obtain ⟨c, behind, shape, _⟩ := bare
  exact ⟨c, behind, (List.cons.inj shape).2⟩

theorem leading_flags_within (bytes : Bytes) :
    leadingFlags bytes < bytes.length ∨ bytes = [] ∧ leadingFlags bytes = 0 := by
  induction bytes with
  | nil => exact .inr ⟨rfl, rfl⟩
  | cons b rest ih =>
    left
    by_cases bare : BareFlag (b :: rest)
    · obtain ⟨c, behind, rfl⟩ := bare_flag_two bare
      have shorter : leadingFlags (c :: behind) < (c :: behind).length := by simpa using ih
      rw [(leading_flags_succ bare).2, List.length_cons]
      omega
    · rw [leading_flags_none bare]
      exact Nat.succ_pos rest.length

theorem leading_flags_flags (bytes : Bytes) :
    ∀ b ∈ bytes.take (leadingFlags bytes), b = flag := by
  induction bytes with
  | nil => simp
  | cons b rest ih =>
    by_cases bare : BareFlag (b :: rest)
    · obtain ⟨c, behind, rfl⟩ := bare_flag_two bare
      obtain ⟨first, more⟩ := leading_flags_succ bare
      rw [more, List.take_succ_cons, List.forall_mem_cons]
      exact ⟨first, ih⟩
    · rw [leading_flags_none bare]
      simp

theorem leading_flags_shorter {bytes : Bytes} {k : Nat} (shorter : k < leadingFlags bytes) :
    BareFlag (bytes.drop k) := by
  induction bytes generalizing k with
  | nil => exact absurd shorter (Nat.not_lt_zero k)
  | cons b rest ih =>
    by_cases bare : BareFlag (b :: rest)
    · cases k with
      | zero => exact bare
      | succ k =>
        obtain ⟨c, behind, rfl⟩ := bare_flag_two bare
        rw [(leading_flags_succ bare).2] at shorter
        exact ih (Nat.lt_of_succ_lt_succ shorter)
    · rw [leading_flags_none bare] at shorter
      exact absurd shorter (Nat.not_lt_zero k)

theorem leading_flags_least (bytes : Bytes) :
    IsLeast {k | ¬ BareFlag (bytes.drop k)} (leadingFlags bytes) := by
  constructor
  · exact leading_flags_bare bytes
  · intro k clear
    by_contra fewer
    exact clear (leading_flags_shorter (Nat.lt_of_not_le fewer))

theorem least_trim_iff {bytes : Bytes} {n : Nat} :
    LeastTrim bytes n ↔ n = leadingFlags bytes := by
  have trims : LeastTrim bytes (leadingFlags bytes) :=
    ⟨leading_flags_within bytes, leading_flags_flags bytes, leading_flags_least bytes⟩
  constructor
  · intro other
    exact least_trim_unique other trims
  · intro same
    rw [same]
    exact trims

theorem frame_start_clear {bytes : Bytes} (starts : FrameStart bytes) : ¬ BareFlag bytes := by
  obtain ⟨b, rest, rfl, format⟩ := starts
  intro bare
  obtain ⟨c, behind, shape, plain⟩ := bare
  obtain ⟨rfl, _⟩ := List.cons.inj (List.cons.inj shape).2
  rw [format] at plain
  exact Bool.noConfusion plain

theorem leading_flags_before {bytes : Bytes} (starts : FrameStart bytes) (n : Nat) :
    leadingFlags (List.replicate n flag ++ bytes) = n := by
  induction n with
  | zero => exact leading_flags_none (frame_start_clear starts)
  | succ n ih =>
    obtain ⟨more, opens⟩ : ∃ more, List.replicate n flag ++ bytes = flag :: more := by
      cases n with
      | zero =>
        obtain ⟨b, rest, rfl, _⟩ := starts
        exact ⟨b :: rest, rfl⟩
      | succ n => exact ⟨List.replicate n flag ++ bytes, rfl⟩
    have bare : BareFlag (flag :: flag :: more) := ⟨flag, more, rfl, rfl⟩
    rw [List.replicate_succ, List.cons_append, opens, (leading_flags_succ bare).2, ← opens, ih]

theorem leading_flags_trims :
    (∀ bytes, LeastTrim bytes (leadingFlags bytes) ∧ leadingFlags (trimmed bytes) = 0) ∧
      ∀ bytes, FrameStart bytes → ∀ n, trimmed (List.replicate n flag ++ bytes) = bytes := by
  constructor
  · intro bytes
    exact ⟨least_trim_iff.mpr rfl, leading_flags_none (leading_flags_bare bytes)⟩
  · intro bytes starts n
    have size : (List.replicate n flag).length = n := List.length_replicate
    rw [trimmed, leading_flags_before starts]
    exact List.drop_left' size

theorem three_flags_trimmed :
    FrameStart [0x7E, 0xA0, 0x01] ∧
      trimmed [0x7E, 0x7E, 0x7E, 0x7E, 0xA0, 0x01] = [0x7E, 0xA0, 0x01] := by
  have starts : FrameStart [0x7E, 0xA0, 0x01] := ⟨0xA0, [0x01], rfl, rfl⟩
  exact ⟨starts, leading_flags_trims.2 _ starts 3⟩

end GplugLeastTrim
