import Mathlib.Algebra.BigOperators.Group.List.Basic
import Mathlib.Tactic.Common
import GplugMini.Library.FlatObject
import GplugMini.Library.JsonText

/- Flat objects of numbers as a reader of the whole JSON grammar sees them: which printed
   numbers are numbers there, and what one that is not does to its object. -/
namespace FlatJson
open ByteText DecimalText JsonText
open FlatObject (quote comma colon openBrace closeBrace)

def EndsNumber (b : UInt8) : Prop := isDigit b = false ∧ b ≠ 46 ∧ b ≠ 101 ∧ b ≠ 69

/-- A text that begins as a number and is read as one, up to the byte that ends it. -/
structure NumberText (text : Bytes) : Prop where
  begins : ∃ b more, text = b :: more ∧ (b = 45 ∨ isDigit b = true)
  reads : ∀ stop rest, EndsNumber stop →
    number (text ++ stop :: rest) = some (.number text, stop :: rest)

def NoValue (text : Bytes) : Prop := ∀ fuel rest, value fuel (skip (text ++ rest)) = none

theorem is_digit_iff (b : UInt8) : isDigit b = true ↔ IsDigit b := by
  simp [isDigit, IsDigit, UInt8.le_iff_toNat_le]

theorem digits_stop {text : Bytes} (all : ∀ b ∈ text, isDigit b = true) (nonempty : text ≠ [])
    {stop : UInt8} (ends : isDigit stop = false) (rest : Bytes) :
    digits (text ++ stop :: rest) = some (stop :: rest) := by
  obtain ⟨b, more, rfl⟩ := List.exists_cons_of_ne_nil nonempty
  have first : isDigit b = true := all b List.mem_cons_self
  rw [digits, if_pos (by simpa using first), List.dropWhile_append_of_pos all]
  simp [ends]

theorem to_digits_head (n : Nat) (positive : n ≠ 0) :
    (Nat.toDigits 10 n).head? ≠ some '0' := by
  induction n using Nat.strongRecOn with
  | ind n ih =>
    by_cases small : n < 10
    · rw [Nat.toDigits_of_lt_base small]
      have : n = 1 ∨ n = 2 ∨ n = 3 ∨ n = 4 ∨ n = 5 ∨ n = 6 ∨ n = 7 ∨ n = 8 ∨ n = 9 := by omega
      rcases this with rfl | rfl | rfl | rfl | rfl | rfl | rfl | rfl | rfl <;> decide
    · rw [Nat.toDigits_of_base_le (by omega) (by omega),
        List.head?_append_of_ne_nil _ Nat.toDigits_ne_nil]
      exact ih (n / 10) (by omega) (by omega)

theorem decimal_head {n : Nat} (positive : n ≠ 0) : (decimal n).headD 0 ≠ 48 := by
  have first := to_digits_head n positive
  have digit := decimal_digits n
  unfold decimal at digit ⊢
  cases shape : Nat.toDigits 10 n with
  | nil => exact absurd shape Nat.toDigits_ne_nil
  | cons c cs =>
    rw [shape] at first digit
    have isDigit : c.isDigit = true :=
      Nat.isDigit_of_mem_toDigits (by omega) (by omega) (shape ▸ List.mem_cons_self)
    intro zero
    have same : (charByte c).toNat = 48 := by simpa using congrArg UInt8.toNat zero
    rw [(char_byte_digit isDigit).1] at same
    apply first
    rw [List.head?_cons, Option.some.injEq]
    exact Char.toNat_inj.mp same

theorem integer_part_decimal (n : Nat) {stop : UInt8} (ends : isDigit stop = false) (rest : Bytes) :
    integerPart (decimal n ++ stop :: rest) = some (stop :: rest) := by
  by_cases zero : n = 0
  · subst zero
    rfl
  · have nonempty := decimal_ne_nil n
    have head : (decimal n ++ stop :: rest).headD 0 = (decimal n).headD 0 := by
      cases shape : decimal n with
      | nil => exact absurd shape nonempty
      | cons b more => rfl
    rw [integerPart, head, if_neg (decimal_head zero)]
    apply digits_stop _ nonempty ends
    intro b member
    exact (is_digit_iff b).mpr (decimal_digits n b member)

theorem decimal_begins (n : Nat) : ∃ b more, decimal n = b :: more ∧ isDigit b = true := by
  obtain ⟨b, more, shape⟩ := List.exists_cons_of_ne_nil (decimal_ne_nil n)
  refine ⟨b, more, shape, (is_digit_iff b).mpr (decimal_digits n b ?_)⟩
  rw [shape]
  exact List.mem_cons_self

theorem taken_of_rest (text rest : Bytes) :
    (text ++ rest).take ((text ++ rest).length - rest.length) = text := by
  rw [List.length_append, Nat.add_sub_cancel, List.take_left']
  rfl

theorem decimal_number (n : Nat) : NumberText (decimal n) := by
  obtain ⟨b, more, shape, digit⟩ := decimal_begins n
  refine ⟨⟨b, more, shape, .inr digit⟩, ?_⟩
  intro stop rest ends
  obtain ⟨notDigit, notPoint, notSmall, notLarge⟩ := ends
  have signless : (decimal n ++ stop :: rest).headD 0 ≠ 45 := by
    rw [shape]
    rintro rfl
    exact absurd digit (by decide)
  have whole := integer_part_decimal n notDigit rest
  have plain : fraction (stop :: rest) = some (stop :: rest) := if_neg notPoint
  have bare : exponent (stop :: rest) = some (stop :: rest) :=
    if_neg (not_or.mpr ⟨notSmall, notLarge⟩)
  simp only [number, if_neg signless, whole, plain, bare, Option.bind_eq_bind, Option.bind_some]
  rw [taken_of_rest]

theorem fixed3_number (negative : Bool) (mantissa : Nat) (exp : Int) :
    NumberText (fixed3 (.finite negative mantissa exp)) := by
  let n := thousandths mantissa exp
  obtain ⟨b, more, shape, digit⟩ := decimal_begins (n / 1000)
  have text : fixed3 (.finite negative mantissa exp) =
      sign negative ++ (decimal (n / 1000) ++ 46 :: threeDigits (n % 1000)) := by
    simp [fixed3, n, ascii]
  have three : ∀ d ∈ threeDigits (n % 1000), isDigit d = true := by
    have small (d : Nat) (less : d < 10) : isDigit (UInt8.ofNat (48 + d)) = true := by
      rw [is_digit_iff, IsDigit, UInt8.toNat_ofNat']
      omega
    intro d member
    simp only [threeDigits, List.mem_cons, List.not_mem_nil, or_false] at member
    rcases member with rfl | rfl | rfl <;> exact small _ (Nat.mod_lt _ (by omega))
  refine ⟨?_, ?_⟩
  · rw [text, shape]
    cases negative with
    | true => exact ⟨45, _, rfl, .inl rfl⟩
    | false => exact ⟨b, _, rfl, .inr digit⟩
  · intro stop rest ends
    obtain ⟨notDigit, _, notSmall, notLarge⟩ := ends
    let tail := stop :: rest
    have unsigned : (if (sign negative ++ (decimal (n / 1000) ++ 46 :: threeDigits (n % 1000)) ++
        tail).headD 0 = 45 then (sign negative ++ (decimal (n / 1000) ++
          46 :: threeDigits (n % 1000)) ++ tail).tail else sign negative ++
            (decimal (n / 1000) ++ 46 :: threeDigits (n % 1000)) ++ tail) =
        decimal (n / 1000) ++ 46 :: (threeDigits (n % 1000) ++ tail) := by
      cases negative with
      | true => simp [sign, ascii]
      | false =>
        have signless : b ≠ 45 := by
          rintro rfl
          exact absurd digit (by decide)
        simp [sign, shape, signless]
    have whole := integer_part_decimal (n / 1000) (by decide : isDigit 46 = false)
      (threeDigits (n % 1000) ++ tail)
    have part : fraction (46 :: (threeDigits (n % 1000) ++ tail)) = some tail :=
      (if_pos rfl).trans (digits_stop three (by simp [threeDigits]) notDigit rest)
    have bare : exponent tail = some tail := if_neg (not_or.mpr ⟨notSmall, notLarge⟩)
    rw [text]
    simp only [number]
    rw [unsigned]
    simp only [whole, part, bare, Option.bind_eq_bind, Option.bind_some]
    rw [taken_of_rest]

theorem value_number {text : Bytes} (read : NumberText text) {stop : UInt8}
    (ends : EndsNumber stop) (rest : Bytes) (fuel : Nat) :
    value (fuel + 1) (skip (text ++ stop :: rest)) = some (.number text, stop :: rest) := by
  have reads := read.reads stop rest ends
  obtain ⟨b, more, shape, begins⟩ := read.begins
  have codes : b = 45 ∨ 48 ≤ b.toNat ∧ b.toNat ≤ 57 := by
    rcases begins with sign | digit
    · exact .inl sign
    · exact .inr ((is_digit_iff b).mp digit)
  have other (c : UInt8) (free : c ≠ 45 ∧ ¬ (48 ≤ c.toNat ∧ c.toNat ≤ 57)) : b ≠ c := by
    rintro rfl
    rcases codes with sign | digit
    · exact free.1 sign
    · exact free.2 digit
  have visible : isBlank b = false := by
    simp only [isBlank, Bool.or_eq_false_iff, beq_eq_false_iff_ne]
    exact ⟨⟨⟨other _ (by decide), other _ (by decide)⟩, other _ (by decide)⟩, other _ (by decide)⟩
  have wordless (w : Bytes) (c : UInt8) (tail : Bytes) (letter : w = c :: tail) (free : b ≠ c) :
      ¬ w <+: b :: (more ++ stop :: rest) := by
    rw [letter, List.cons_prefix_cons]
    exact fun found => free found.1.symm
  rw [shape, List.cons_append] at reads ⊢
  have whole : skip (b :: (more ++ stop :: rest)) = b :: (more ++ stop :: rest) := by
    simp [skip, visible]
  rw [whole, value, if_neg (other quote (by decide)), if_neg (other openBracket (by decide)),
    if_neg (other openBrace (by decide)), word,
    if_neg (wordless (ascii "null") 110 _ rfl (other _ (by decide))),
    if_neg (wordless (ascii "true") 116 _ rfl (other _ (by decide))),
    if_neg (wordless (ascii "false") 102 _ rfl (other _ (by decide)))]
  exact reads

theorem no_value_word {text : Bytes} {b : UInt8} {more : Bytes} (shape : text = b :: more)
    (letter : b = 45 ∨ b = 105 ∨ b = 110) (unread : ∀ rest, word (text ++ rest) = none) :
    NoValue text := by
  intro fuel rest
  subst shape
  have unreadable := unread rest
  rw [List.cons_append] at unreadable ⊢
  have visible : isBlank b = false ∧ b ≠ quote ∧ b ≠ openBracket ∧ b ≠ openBrace := by
    rcases letter with rfl | rfl | rfl <;> decide
  have whole : skip (b :: (more ++ rest)) = b :: (more ++ rest) := by
    simp [skip, visible.1]
  cases fuel with
  | zero => rw [value]
  | succ fuel =>
    rw [whole, value, if_neg visible.2.1, if_neg visible.2.2.1, if_neg visible.2.2.2, unreadable]

theorem fixed3_no_value (negative : Bool) :
    NoValue (fixed3 (.infinite negative)) ∧ NoValue (fixed3 (.nan negative)) := by
  cases negative with
  | false =>
    exact ⟨no_value_word rfl (.inr (.inl rfl)) fun _ => rfl,
      no_value_word rfl (.inr (.inr rfl)) fun _ => rfl⟩
  | true =>
    exact ⟨no_value_word rfl (.inl rfl) fun _ => rfl, no_value_word rfl (.inl rfl) fun _ => rfl⟩

/- The reader at the members of a flat object. -/

def numberMembers : List FlatObject.Member → Members
  | [] => .nil
  | m :: rest => .cons m.1 (.number m.2) (numberMembers rest)

theorem get_number_members (members : List FlatObject.Member) (key : Bytes) :
    (numberMembers members).get key =
      (members.filter fun m => m.1 = key).map fun m => .number m.2 := by
  induction members with
  | nil => rfl
  | cons m members ih =>
    rw [numberMembers, Members.get, ih, List.filter_cons]
    by_cases same : m.1 = key <;> simp [same]

def inside (members : List FlatObject.Member) : Bytes :=
  [comma].intercalate (members.map FlatObject.memberText)

theorem inside_cons (m : FlatObject.Member) (members : List FlatObject.Member) (rest : Bytes) :
    ∃ stop behind, (stop = comma ∨ stop = closeBrace) ∧
      inside (m :: members) ++ closeBrace :: rest =
        quote :: (m.1 ++ quote :: colon :: (m.2 ++ stop :: behind)) ∧
      (members = [] → stop = closeBrace ∧ behind = rest) ∧
      (members ≠ [] → stop = comma ∧ behind = inside members ++ closeBrace :: rest) := by
  have text : FlatObject.memberText m = quote :: (m.1 ++ [quote, colon]) ++ m.2 := rfl
  cases members with
  | nil =>
    refine ⟨closeBrace, rest, .inr rfl, ?_, fun _ => ⟨rfl, rfl⟩, fun more => absurd rfl more⟩
    simp [inside, text]
  | cons next members =>
    refine ⟨comma, inside (next :: members) ++ closeBrace :: rest, .inl rfl, ?_, nofun,
      fun _ => ⟨rfl, rfl⟩⟩
    simp [inside, text]

theorem skip_inside (m : FlatObject.Member) (members : List FlatObject.Member) (rest : Bytes) :
    skip (inside (m :: members) ++ closeBrace :: rest) =
        inside (m :: members) ++ closeBrace :: rest ∧
      after closeBrace (inside (m :: members) ++ closeBrace :: rest) = none := by
  obtain ⟨stop, behind, _, shape, _⟩ := inside_cons m members rest
  rw [shape]
  exact ⟨by simp [skip, isBlank, quote], after_other _ _ (by decide) (by decide) _⟩

theorem ends_members {stop : UInt8} (ends : stop = comma ∨ stop = closeBrace) :
    EndsNumber stop := by
  rcases ends with rfl | rfl <;> exact ⟨by decide, by decide, by decide, by decide⟩

variable {fields : List FlatObject.Member} (plain : ∀ m ∈ fields, Plain m.1)
include plain

theorem members_numbers (numbers : ∀ m ∈ fields, NumberText m.2) (nonempty : fields ≠ [])
    (fuel : Nat) (enough : fields.length < fuel) (rest : Bytes) :
    members fuel (inside fields ++ closeBrace :: rest) = some (numberMembers fields, rest) := by
  induction fields generalizing fuel with
  | nil => exact absurd rfl nonempty
  | cons m later ih =>
    obtain ⟨fuel, rfl⟩ : ∃ n, fuel = n + 2 :=
      ⟨fuel - 2, by simp only [List.length_cons] at enough; omega⟩
    obtain ⟨stop, behind, ends, shape, alone, followed⟩ := inside_cons m later rest
    have read := value_number (numbers m List.mem_cons_self) (ends_members ends) behind fuel
    have signed := after_sign colon (by decide) (m.2 ++ stop :: behind)
    rw [shape, members, string_text_plain (plain m List.mem_cons_self)]
    simp only [Option.bind_eq_bind, Option.bind_some, signed, read]
    by_cases last : later = []
    · obtain ⟨rfl, rfl⟩ := alone last
      subst last
      have other := after_other comma closeBrace (by decide) (by decide) behind
      have closed := after_sign closeBrace (by decide) behind
      simp only [other, closed, Option.map_some, numberMembers]
    · obtain ⟨rfl, rfl⟩ := followed last
      obtain ⟨next, more, rfl⟩ := List.exists_cons_of_ne_nil last
      have goes := after_sign comma (by decide) (inside (next :: more) ++ closeBrace :: rest)
      have start := (skip_inside next more rest).1
      have tail := ih (fun d member => plain d (List.mem_cons_of_mem _ member))
        (fun d member => numbers d (List.mem_cons_of_mem _ member)) last (fuel + 1)
        (by simp only [List.length_cons] at enough ⊢; omega)
      simp only [goes, start, tail, Option.map_some]
      rfl

/-- A member that is no value stops the reader, however many numbers stand before it. -/
theorem members_no_value (each : ∀ m ∈ fields, NumberText m.2 ∨ NoValue m.2)
    (bad : ∃ m ∈ fields, NoValue m.2) (fuel : Nat) (rest : Bytes) :
    members fuel (inside fields ++ closeBrace :: rest) = none := by
  induction fields generalizing fuel with
  | nil =>
    obtain ⟨_, member, _⟩ := bad
    exact absurd member List.not_mem_nil
  | cons m later ih =>
    obtain ⟨stop, behind, ends, shape, alone, followed⟩ := inside_cons m later rest
    have signed := after_sign colon (by decide) (m.2 ++ stop :: behind)
    cases fuel with
    | zero => rw [members]
    | succ fuel =>
      rw [shape, members, string_text_plain (plain m List.mem_cons_self)]
      simp only [Option.bind_eq_bind, Option.bind_some, signed]
      rcases each m List.mem_cons_self with number | novalue
      · cases fuel with
        | zero => simp [value]
        | succ fuel =>
          rw [value_number number (ends_members ends) behind fuel]
          obtain ⟨d, member, unread⟩ := bad
          have further : d ∈ later := by
            rcases List.mem_cons.mp member with rfl | further
            · have read := value_number number (ends_members ends) behind 0
              exact absurd read (by rw [unread]; simp)
            · exact further
          have nonempty : later ≠ [] := List.ne_nil_of_mem further
          obtain ⟨rfl, rfl⟩ := followed nonempty
          obtain ⟨next, more, rfl⟩ := List.exists_cons_of_ne_nil nonempty
          have goes := after_sign comma (by decide) (inside (next :: more) ++ closeBrace :: rest)
          have start := (skip_inside next more rest).1
          have tail := ih (fun d member => plain d (List.mem_cons_of_mem _ member))
            (fun d member => each d (List.mem_cons_of_mem _ member)) ⟨d, further, unread⟩ (fuel + 1)
          simp only [Option.bind_some, goes, start, tail, Option.map_none]
      · rw [novalue]
        rfl

omit plain in
theorem value_object (fuel : Nat) (m : FlatObject.Member) (later : List FlatObject.Member) :
    value (fuel + 1) (FlatObject.objectText (m :: later)) =
      (members fuel (inside (m :: later) ++ [closeBrace])).map fun (found, more) =>
        (.object found, more) := by
  have shape : FlatObject.objectText (m :: later) =
      openBrace :: (inside (m :: later) ++ [closeBrace]) := rfl
  obtain ⟨start, brace⟩ := skip_inside m later []
  rw [shape, value, if_neg (by decide), if_neg (by decide), if_pos rfl, brace, start]

omit plain in
theorem object_text_room (members : List FlatObject.Member) :
    members.length < 2 * (FlatObject.objectText members).length + 1 := by
  cases members with
  | nil => simp
  | cons m later =>
    have size := FlatObject.object_text_length (List.cons_ne_nil m later)
    have long : (m :: later).length ≤
        ((m :: later).map fun m => m.1.length + 4 + m.2.length).sum := by
      have each := List.length_le_sum_of_one_le
        ((m :: later).map fun m => m.1.length + 4 + m.2.length) (by
          intro n member
          obtain ⟨d, _, rfl⟩ := List.mem_map.mp member
          omega)
      simpa using each
    rw [FlatObject.open_text_length] at size
    omega

theorem parse_numbers (numbers : ∀ m ∈ fields, NumberText m.2) :
    parse (FlatObject.objectText fields) = some (.object (numberMembers fields)) := by
  have start : skip (FlatObject.objectText fields) = FlatObject.objectText fields := rfl
  have room := object_text_room fields
  rw [parse, start]
  cases fields with
  | nil => rfl
  | cons m later =>
    rw [value_object, members_numbers plain numbers (by simp) _ room]
    rfl

theorem parse_no_value (each : ∀ m ∈ fields, NumberText m.2 ∨ NoValue m.2)
    (bad : ∃ m ∈ fields, NoValue m.2) : parse (FlatObject.objectText fields) = none := by
  have start : skip (FlatObject.objectText fields) = FlatObject.objectText fields := rfl
  rw [parse, start]
  cases fields with
  | nil =>
    obtain ⟨_, member, _⟩ := bad
    exact absurd member List.not_mem_nil
  | cons m later =>
    rw [value_object, members_no_value plain each bad]
    rfl

end FlatJson
