import Mathlib.Data.List.Basic
import Mathlib.Data.List.TakeWhile
import Mathlib.Tactic.Common

/- Byte strings, NUL-terminated texts inside fixed arrays, and bounded formatting
   into them. Arrays are lists whose length never changes. -/
namespace ByteText

abbrev Bytes := List UInt8

def ascii (s : String) : Bytes := s.toList.map fun c => UInt8.ofNat c.toNat

/-- The C string an array holds: everything before its first NUL. -/
def cstr (array : Bytes) : Bytes := array.takeWhile (· != 0)

def NulFree (text : Bytes) : Prop := ∀ b ∈ text, b ≠ 0

-- Along the text: another instance at hand decides this for every byte there is.
instance (p : UInt8 → Prop) [DecidablePred p] (text : Bytes) : Decidable (∀ b ∈ text, p b) :=
  List.decidableBAll p text

instance (text : Bytes) : Decidable (NulFree text) :=
  inferInstanceAs (Decidable (∀ b ∈ text, b ≠ 0))

def poke (array : Bytes) (offset : Nat) (data : Bytes) : Bytes :=
  array.take offset ++ data ++ array.drop (offset + data.length)

/-- What snprintf(array + offset, sizeof array - offset, ...) leaves behind: the text,
    cut so that its NUL still fits. A zero size writes nothing. -/
def formatAt (array : Bytes) (offset : Nat) (text : Bytes) : Bytes :=
  if offset < array.length then
    poke array offset (text.take (array.length - offset - 1) ++ [0])
  else array

/-- The array begins with exactly this text and its terminator. -/
def Shows (array text : Bytes) : Prop := NulFree text ∧ ∃ rest, array = text ++ 0 :: rest

@[simp] theorem nul_free_nil : NulFree [] := by simp [NulFree]

@[simp] theorem nul_free_cons (b : UInt8) (text : Bytes) :
    NulFree (b :: text) ↔ b ≠ 0 ∧ NulFree text := by simp [NulFree]

@[simp] theorem nul_free_append (left right : Bytes) :
    NulFree (left ++ right) ↔ NulFree left ∧ NulFree right := by
  simp [NulFree, or_imp, forall_and]

theorem nul_free_take {text : Bytes} (free : NulFree text) (n : Nat) : NulFree (text.take n) :=
  fun b member => free b (List.mem_of_mem_take member)

theorem cstr_nul_free (array : Bytes) : NulFree (cstr array) := by
  intro b member
  have := List.mem_takeWhile_imp member
  simpa using this

theorem cstr_length_le (array : Bytes) : (cstr array).length ≤ array.length :=
  (List.takeWhile_sublist _).length_le

theorem cstr_of_nul_free {text : Bytes} (free : NulFree text) : cstr text = text := by
  unfold cstr
  apply List.takeWhile_eq_self_iff.mpr
  intro b member
  simpa using free b member

theorem cstr_before_nul (text rest : Bytes) : cstr (text ++ 0 :: rest) = cstr text := by
  induction text with
  | nil => simp [cstr]
  | cons b text ih =>
    unfold cstr at ih ⊢
    rw [List.cons_append, List.takeWhile_cons, List.takeWhile_cons, ih]

theorem cstr_append_nul {text : Bytes} (free : NulFree text) (rest : Bytes) :
    cstr (text ++ 0 :: rest) = text := by
  rw [cstr_before_nul, cstr_of_nul_free free]

theorem poke_terminated (array text : Bytes) :
    poke (poke array 0 text) text.length [0] = text ++ 0 :: array.drop (text.length + 1) := by
  have front : poke array 0 text = text ++ array.drop text.length := by simp [poke]
  rw [front, poke, List.take_left, List.append_assoc, List.singleton_append, List.length_singleton,
    List.drop_append, List.drop_of_length_le (by omega), List.nil_append, List.drop_drop]
  congr 3
  omega

theorem cstr_copied (array text : Bytes) :
    cstr (poke (poke array 0 text) text.length [0]) = cstr text := by
  rw [poke_terminated, cstr_before_nul]

theorem cstr_eq_nil_iff (array : Bytes) : cstr array = [] ↔ array.headD 0 = 0 := by
  cases array with
  | nil => simp [cstr]
  | cons b rest =>
    by_cases zero : b = 0
    · simp [cstr, zero]
    · simp [cstr, zero]

theorem cstr_ended {array : Bytes} (ended : 0 ∈ array) :
    ∃ rest, array = cstr array ++ 0 :: rest := by
  obtain ⟨before, after, split⟩ := List.append_of_mem ended
  induction before generalizing array with
  | nil => exact ⟨after, by rw [split, List.nil_append]; simp [cstr]⟩
  | cons b before ih =>
    subst split
    by_cases zero : b = 0
    · exact ⟨before ++ 0 :: after, by simp [cstr, zero]⟩
    · obtain ⟨rest, whole⟩ := ih (show 0 ∈ before ++ 0 :: after by simp) rfl
      refine ⟨rest, ?_⟩
      rw [List.cons_append, cstr, List.takeWhile_cons_of_pos (by simpa using zero),
        List.cons_append, ← cstr, ← whole]

theorem poke_length {array data : Bytes} {offset : Nat}
    (room : offset + data.length ≤ array.length) :
    (poke array offset data).length = array.length := by
  simp [poke]
  omega

theorem format_at_length (array : Bytes) (offset : Nat) (text : Bytes) :
    (formatAt array offset text).length = array.length := by
  unfold formatAt
  split
  · apply poke_length
    simp
    omega
  · rfl

theorem poke_behind (front tail data : Bytes) :
    poke (front ++ tail) front.length data = front ++ data ++ tail.drop data.length := by
  rw [poke, List.take_left, List.drop_append, List.drop_of_length_le (by omega), List.nil_append]
  congr 2
  omega

theorem poke_drop {array data : Bytes} {offset : Nat} (inside : offset ≤ array.length) :
    (poke array offset data).drop offset = poke (array.drop offset) 0 data := by
  have front : (array.take offset).length = offset := by
    rw [List.length_take]
    omega
  rw [poke, List.append_assoc, List.drop_append, front, Nat.sub_self, List.drop_zero,
    List.drop_of_length_le (by rw [front]), List.nil_append]
  simp [poke]

theorem poke_elsewhere {array data : Bytes} {offset i : Nat} (inside : offset ≤ array.length)
    (elsewhere : i < offset ∨ offset + data.length ≤ i) :
    (poke array offset data)[i]? = array[i]? := by
  have front : (array.take offset).length = offset := by
    rw [List.length_take]
    omega
  rw [poke, List.append_assoc]
  rcases elsewhere with before | behind
  · rw [List.getElem?_append_left (by omega), List.getElem?_take_of_lt before]
  · rw [List.getElem?_append_right (by omega), List.getElem?_append_right (by omega),
      List.getElem?_drop, front]
    congr 1
    omega

theorem poke_head_later (array data : Bytes) {offset : Nat} (later : offset ≠ 0)
    (inside : offset < array.length) : (poke array offset data).headD 0 = array.headD 0 := by
  obtain ⟨n, rfl⟩ := Nat.exists_eq_succ_of_ne_zero later
  cases array with
  | nil => exact absurd inside (Nat.not_lt_zero _)
  | cons b array => rfl

theorem format_front {array : Bytes} {offset : Nat} (inside : offset < array.length)
    (more : Bytes) : (formatAt array offset more).take offset = array.take offset := by
  have front : (array.take offset).length = offset := by
    rw [List.length_take]
    omega
  rw [formatAt, if_pos inside, poke, List.append_assoc, List.take_append_of_le_length (by omega),
    List.take_of_length_le (by omega)]

theorem format_takes {array : Bytes} {offset : Nat} (inside : offset < array.length)
    (more : Bytes) :
    ∃ rest, formatAt array offset more =
      array.take offset ++ more.take (array.length - offset - 1) ++ 0 :: rest := by
  rw [formatAt, if_pos inside, poke]
  exact ⟨array.drop (offset + (more.take (array.length - offset - 1) ++ [0]).length), by simp⟩

theorem shows_cstr {array text : Bytes} (shown : Shows array text) : cstr array = text := by
  obtain ⟨free, rest, rfl⟩ := shown
  exact cstr_append_nul free rest

theorem shows_take {array text : Bytes} (shown : Shows array text) :
    array.take text.length = text := by
  obtain ⟨_, rest, rfl⟩ := shown
  simp

theorem shows_format_at {array text more : Bytes} (shown : Shows array text)
    (free : NulFree more) (fits : text.length + more.length < array.length) :
    Shows (formatAt array text.length more) (text ++ more) := by
  have prior := shows_take shown
  refine ⟨by simp [shown.1, free], array.drop (text.length + (more ++ [0]).length), ?_⟩
  rw [formatAt, if_pos (by omega), List.take_of_length_le (by omega), poke, prior]
  simp

end ByteText
