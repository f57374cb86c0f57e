import Mathlib.Tactic.Common
import GplugMini.Library.FlatObject
import GplugMini.Library.FormCoding
import GplugMini.Library.Utf8Text

/- JSON texts in bytes: a reader of the whole grammar, what a string between quotes can mean,
   and the texts of strings, arrays and objects written without blanks. -/
namespace JsonText
open ByteText Utf8Text FormCoding
open FlatObject (quote comma colon openBrace closeBrace)

mutual
inductive Json where
  | null
  | bool (value : Bool)
  | number (digits : Bytes)
  | string (text : Bytes)
  | array (items : Items)
  | object (members : Members)

inductive Items where
  | nil
  | cons (item : Json) (rest : Items)

inductive Members where
  | nil
  | cons (key : Bytes) (value : Json) (rest : Members)
end

def Members.get (key : Bytes) : Members → List Json
  | .nil => []
  | .cons k v rest => if k = key then v :: rest.get key else rest.get key

def backslash : UInt8 := 92
def openBracket : UInt8 := 91
def closeBracket : UInt8 := 93

def isBlank (b : UInt8) : Bool := b == 32 || b == 9 || b == 10 || b == 13

def skip (input : Bytes) : Bytes := input.dropWhile isBlank

def encode (n : Nat) : Bytes :=
  if n < 0x80 then [UInt8.ofNat n]
  else if n < 0x800 then [UInt8.ofNat (0xC0 + n / 0x40), UInt8.ofNat (0x80 + n % 0x40)]
  else if n < 0x10000 then
    [UInt8.ofNat (0xE0 + n / 0x1000), UInt8.ofNat (0x80 + n / 0x40 % 0x40),
      UInt8.ofNat (0x80 + n % 0x40)]
  else
    [UInt8.ofNat (0xF0 + n / 0x40000), UInt8.ofNat (0x80 + n / 0x1000 % 0x40),
      UInt8.ofNat (0x80 + n / 0x40 % 0x40), UInt8.ofNat (0x80 + n % 0x40)]

def hex4 : Bytes → Option (Nat × Bytes)
  | a :: b :: c :: d :: rest => do
      let a ← hexValue a
      let b ← hexValue b
      let c ← hexValue c
      let d ← hexValue d
      some (((a.toNat * 16 + b.toNat) * 16 + c.toNat) * 16 + d.toNat, rest)
  | _ => none

def unicode (input : Bytes) : Option (Bytes × Bytes) := do
  let (high, rest) ← hex4 input
  if 0xD800 ≤ high ∧ high < 0xDC00 then
    match rest with
    | b :: u :: more =>
        if b = backslash ∧ u = 117 then do
          let (low, rest) ← hex4 more
          if 0xDC00 ≤ low ∧ low < 0xE000 then
            some (encode (0x10000 + (high - 0xD800) * 0x400 + (low - 0xDC00)), rest)
          else none
        else none
    | _ => none
  else if 0xDC00 ≤ high ∧ high < 0xE000 then none
  else some (encode high, rest)

def simpleEscapes : List (UInt8 × UInt8) :=
  [(quote, quote), (backslash, backslash), (47, 47), (98, 8), (102, 12), (110, 10), (114, 13),
    (116, 9)]

def escaped : Bytes → Option (Bytes × Bytes)
  | [] => none
  | c :: rest =>
      if c = 117 then unicode rest
      else (simpleEscapes.lookup c).map fun v => ([v], rest)

def chunk : Bytes → Option (Bytes × Bytes)
  | [] => none
  | b :: rest =>
      if b = backslash then escaped rest
      else if b < 0x20 ∨ b = quote then none
      else scalar (b :: rest)

def content : Nat → Bytes → Option (Bytes × Bytes)
  | 0, _ => none
  | _ + 1, [] => none
  | fuel + 1, b :: rest =>
      if b = quote then some ([], rest)
      else do
        let (meant, rest) ← chunk (b :: rest)
        let (text, rest) ← content fuel rest
        some (meant ++ text, rest)

def isDigit (b : UInt8) : Bool := 48 ≤ b && b ≤ 57

def digits (input : Bytes) : Option Bytes :=
  if (input.headD 0 |> isDigit) = true then some (input.dropWhile isDigit) else none

def integerPart (input : Bytes) : Option Bytes :=
  if input.headD 0 = 48 then some input.tail else digits input

def fraction (input : Bytes) : Option Bytes :=
  if input.headD 0 = 46 then digits input.tail else some input

def exponent (input : Bytes) : Option Bytes :=
  if input.headD 0 = 101 ∨ input.headD 0 = 69 then
    if input.tail.headD 0 = 43 ∨ input.tail.headD 0 = 45 then digits input.tail.tail
    else digits input.tail
  else some input

def number (input : Bytes) : Option (Json × Bytes) := do
  let rest ← integerPart (if input.headD 0 = 45 then input.tail else input)
  let rest ← fraction rest
  let rest ← exponent rest
  some (.number (input.take (input.length - rest.length)), rest)

def word (input : Bytes) : Option (Json × Bytes) :=
  if ascii "null" <+: input then some (.null, input.drop 4)
  else if ascii "true" <+: input then some (.bool true, input.drop 4)
  else if ascii "false" <+: input then some (.bool false, input.drop 5)
  else number input

def stringText : Bytes → Option (Bytes × Bytes)
  | [] => none
  | b :: rest => if b = quote then content (rest.length + 1) rest else none

def after (sign : UInt8) (input : Bytes) : Option Bytes :=
  if (skip input).head? = some sign then some (skip input).tail else none

-- The three readers share their fuel; a call that recurs has read a byte, or its caller had.
mutual
def value : Nat → Bytes → Option (Json × Bytes)
  | 0, _ => none
  | _ + 1, [] => none
  | fuel + 1, b :: rest =>
      if b = quote then (stringText (b :: rest)).map fun (text, more) => (.string text, more)
      else if b = openBracket then
        match after closeBracket rest with
        | some more => some (.array .nil, more)
        | none => (items fuel (skip rest)).map fun (found, more) => (.array found, more)
      else if b = openBrace then
        match after closeBrace rest with
        | some more => some (.object .nil, more)
        | none => (members fuel (skip rest)).map fun (found, more) => (.object found, more)
      else word (b :: rest)

def items : Nat → Bytes → Option (Items × Bytes)
  | 0, _ => none
  | fuel + 1, input => do
      let (item, rest) ← value fuel input
      match after comma rest with
      | some more => (items fuel (skip more)).map fun (found, behind) => (.cons item found, behind)
      | none => (after closeBracket rest).map fun behind => (.cons item .nil, behind)

def members : Nat → Bytes → Option (Members × Bytes)
  | 0, _ => none
  | fuel + 1, input => do
      let (key, rest) ← stringText input
      let rest ← after colon rest
      let (item, rest) ← value fuel (skip rest)
      match after comma rest with
      | some more =>
          (members fuel (skip more)).map fun (found, behind) => (.cons key item found, behind)
      | none => (after closeBrace rest).map fun behind => (.cons key item .nil, behind)
end

def parse (input : Bytes) : Option Json :=
  match value (2 * input.length + 2) (skip input) with
  | some (found, rest) => if skip rest = [] then some found else none
  | none => none

def PlainByte (b : UInt8) : Prop := 0x20 ≤ b ∧ b ≠ quote ∧ b ≠ backslash

instance (b : UInt8) : Decidable (PlainByte b) := inferInstanceAs (Decidable (_ ∧ _))

def Plain (text : Bytes) : Prop := Utf8 text ∧ ∀ b ∈ text, PlainByte b

theorem plain_append {left right : Bytes} (first : Plain left) (second : Plain right) :
    Plain (left ++ right) := by
  refine ⟨utf8_append first.1 second.1, ?_⟩
  intro b member
  rcases List.mem_append.mp member with here | there
  · exact first.2 b here
  · exact second.2 b there

theorem plain_of_ascii {text : Bytes} (low : ∀ b ∈ text, b ≤ 0x7F ∧ PlainByte b) : Plain text :=
  ⟨utf8_of_ascii fun b member => (low b member).1, fun b member => (low b member).2⟩

theorem high_plain {b : UInt8} (high : 0x80 ≤ b) : PlainByte b := by
  have : 128 ≤ b.toNat := UInt8.le_iff_toNat_le.mp high
  refine ⟨UInt8.le_iff_toNat_le.mpr (by simp; omega), ?_, ?_⟩
  · rintro rfl
    exact absurd this (by decide)
  · rintro rfl
    exact absurd this (by decide)

theorem chunk_plain {raw : Bytes} (one : IsScalar raw) (plain : ∀ b ∈ raw, PlainByte b)
    (rest : Bytes) : chunk (raw ++ rest) = some (raw, rest) := by
  have found := scalar_append one rest
  obtain ⟨b, tail, rfl, _⟩ := scalar_parts one
  obtain ⟨visible, closing, sign⟩ := plain b List.mem_cons_self
  rw [List.cons_append, chunk, if_neg sign, if_neg]
  · exact found
  · rintro (control | same)
    · exact absurd visible (UInt8.not_le.mpr control)
    · exact closing same

theorem content_plain {text : Bytes} (plain : Plain text) (rest : Bytes) {fuel : Nat}
    (enough : text.length < fuel) : content fuel (text ++ quote :: rest) = some (text, rest) := by
  obtain ⟨utf8, bytes⟩ := plain
  induction utf8 generalizing fuel with
  | nil =>
    obtain ⟨fuel, rfl⟩ := Nat.exists_eq_add_of_lt enough
    simp [content]
  | @cons raw text one _ ih =>
    have first := chunk_plain one (fun b member => bytes b (List.mem_append_left _ member))
      (text ++ quote :: rest)
    obtain ⟨b, tail, rfl, _⟩ := scalar_parts one
    obtain ⟨_, closing, _⟩ := bytes b (by simp)
    cases fuel with
    | zero => exact absurd enough (Nat.not_lt_zero _)
    | succ fuel =>
      have later : content fuel (text ++ quote :: rest) = some (text, rest) := by
        apply ih
        · simp only [List.length_append, List.length_cons] at enough
          omega
        · intro b member
          exact bytes b (List.mem_append_right _ member)
      rw [List.append_assoc, List.cons_append, content, if_neg closing, ← List.cons_append, first]
      simp [later]

theorem hex4_some {input rest : Bytes} {n : Nat} (found : hex4 input = some (n, rest)) :
    ∃ raw, input = raw ++ rest ∧ raw.length = 4 ∧ quote ∉ raw := by
  match input with
  | [] | [_] | [_, _] | [_, _, _] => cases found
  | a :: b :: c :: d :: more =>
    simp only [hex4, Option.bind_eq_bind, Option.bind_eq_some_iff] at found
    obtain ⟨_, first, _, second, _, third, _, fourth, same⟩ := found
    obtain ⟨_, rfl⟩ := Prod.mk.inj (Option.some.inj same)
    refine ⟨[a, b, c, d], rfl, rfl, ?_⟩
    have never : hexValue quote = none := by decide
    simp only [List.mem_cons, List.not_mem_nil, or_false, not_or]
    refine ⟨?_, ?_, ?_, ?_⟩ <;> rintro rfl
    · exact absurd first (by simp [never])
    · exact absurd second (by simp [never])
    · exact absurd third (by simp [never])
    · exact absurd fourth (by simp [never])

theorem encode_length (n : Nat) : (encode n).length ≤ 4 := by
  unfold encode
  split
  · simp
  · split
    · simp
    · split <;> simp

theorem unicode_some {input meant rest : Bytes} (found : unicode input = some (meant, rest)) :
    ∃ raw, input = raw ++ rest ∧ quote ∉ raw ∧ meant.length ≤ raw.length := by
  simp only [unicode, Option.bind_eq_bind, Option.bind_eq_some_iff] at found
  obtain ⟨⟨high, behind⟩, digits, found⟩ := found
  obtain ⟨raw, rfl, size, free⟩ := hex4_some digits
  split at found
  · split at found
    · rename_i b u more behind'
      change behind = _ at behind'
      subst behind'
      split at found
      · rename_i signs
        simp only [Option.bind_eq_some_iff] at found
        obtain ⟨⟨low, last⟩, digits, found⟩ := found
        obtain ⟨raw', rfl, size', free'⟩ := hex4_some digits
        split at found
        · obtain ⟨rfl, rfl⟩ := Prod.mk.inj (Option.some.inj found)
          refine ⟨raw ++ (b :: u :: raw'), by simp, ?_, ?_⟩
          · simp only [List.mem_append, List.mem_cons, not_or, signs.1, signs.2]
            exact ⟨free, by decide, by decide, free'⟩
          · have := encode_length (0x10000 + (high - 0xD800) * 0x400 + (low - 0xDC00))
            simp only [List.length_append, List.length_cons]
            omega
        · cases found
      · cases found
    · cases found
  · split at found
    · cases found
    · obtain ⟨rfl, rfl⟩ := Prod.mk.inj (Option.some.inj found)
      exact ⟨raw, rfl, free, by rw [size]; exact encode_length high⟩

theorem chunk_some {input meant rest : Bytes} (found : chunk input = some (meant, rest)) :
    ∃ raw, input = raw ++ rest ∧ (quote ∈ raw → raw = [backslash, quote]) ∧
      ((meant = raw ∧ IsScalar raw ∧ ∀ b ∈ raw, PlainByte b) ∨ meant.length < raw.length) := by
  match input with
  | [] => cases found
  | b :: input =>
    rw [chunk] at found
    split at found
    · rename_i sign
      match input with
      | [] => cases found
      | c :: input =>
        rw [escaped] at found
        split at found
        · rename_i u
          obtain ⟨raw, rfl, free, size⟩ := unicode_some found
          refine ⟨b :: c :: raw, rfl, ?_, .inr ?_⟩
          · intro member
            simp only [List.mem_cons, sign, u] at member
            rcases member with same | same | inside
            · exact absurd same (by decide)
            · exact absurd same (by decide)
            · exact absurd inside free
          · simp only [List.length_cons]
            omega
        · obtain ⟨v, _, same⟩ := Option.map_eq_some_iff.mp found
          obtain ⟨rfl, rfl⟩ := Prod.mk.inj same
          refine ⟨[b, c], rfl, ?_, .inr (by simp)⟩
          intro member
          simp only [List.mem_cons, List.not_mem_nil, or_false, sign] at member
          rcases member with same | same
          · exact absurd same (by decide)
          · rw [sign, ← same]
    · rename_i sign
      split at found
      · cases found
      · rename_i visible
        simp only [not_or, UInt8.not_lt] at visible
        obtain ⟨one, split⟩ := scalar_some found
        obtain ⟨a, tail, rfl, _, high⟩ := scalar_parts one
        have same := (List.cons.inj split).1
        have plain : ∀ x ∈ a :: tail, PlainByte x := by
          intro x member
          rcases List.mem_cons.mp member with rfl | behind
          · rw [← same]
            exact ⟨visible.1, visible.2, sign⟩
          · exact high_plain (high x behind)
        exact ⟨a :: tail, split, fun inside => absurd rfl (plain _ inside).2.1,
          .inl ⟨rfl, one, plain⟩⟩

theorem chunk_before {b : UInt8} {u rest raw behind : Bytes}
    (split : b :: (u ++ quote :: rest) = raw ++ behind)
    (inside : quote ∈ raw → raw = [backslash, quote])
    (closed : (b :: u).getLast? ≠ some backslash) :
    ∃ u', b :: u = raw ++ u' ∧ behind = u' ++ quote :: rest := by
  rw [← List.cons_append] at split
  rcases List.append_eq_append_iff.mp split with ⟨longer, shape, passed⟩ | ⟨u', shape, left⟩
  · cases longer with
    | nil => exact ⟨[], by simpa using shape.symm, passed.symm⟩
    | cons c longer =>
      have sign : c = quote := (List.cons.inj passed).1.symm
      have pair := inside (by simp [shape, sign])
      have ends : (b :: u).getLast? = some backslash := by
        have length := congrArg List.length (shape.symm.trans pair)
        simp only [List.length_append, List.length_cons, List.length_nil] at length
        have none : u = [] := List.length_eq_zero_iff.mp (by omega)
        have head := congrArg List.head? (shape.symm.trans pair)
        simp only [List.cons_append, List.head?_cons, Option.some.injEq] at head
        rw [none, head]
        rfl
      exact absurd ends closed
  · exact ⟨u', shape, left⟩

/-- A text before a quote that is not escaped means no more bytes than it has, and means
    itself only if it is plain. -/
theorem content_within {fuel : Nat} {u rest text more : Bytes}
    (found : content fuel (u ++ quote :: rest) = some (text, more))
    (closed : u.getLast? ≠ some backslash) :
    text.length ≤ u.length ∧ (text = u → Plain u) := by
  induction fuel generalizing u text with
  | zero => cases found
  | succ fuel ih =>
    match u with
    | [] =>
      simp only [List.nil_append, content, ↓reduceIte, Option.some.injEq, Prod.mk.injEq] at found
      obtain ⟨rfl, _⟩ := found
      exact ⟨Nat.le_refl 0, fun _ => ⟨.nil, by simp⟩⟩
    | b :: u =>
      rw [List.cons_append, content] at found
      split at found
      · obtain ⟨rfl, _⟩ := Prod.mk.inj (Option.some.inj found)
        exact ⟨Nat.zero_le _, fun same => absurd same (List.cons_ne_nil b u).symm⟩
      · simp only [Option.bind_eq_bind, Option.bind_eq_some_iff] at found
        obtain ⟨⟨meant, behind⟩, first, ⟨later, last⟩, following, same⟩ := found
        obtain ⟨rfl, rfl⟩ : meant ++ later = text ∧ last = more :=
          Prod.mk.inj (Option.some.inj same)
        obtain ⟨raw, split, inside, size⟩ := chunk_some first
        obtain ⟨u', whole, rfl⟩ := chunk_before split inside closed
        have closed' : u'.getLast? ≠ some backslash := by
          intro ends
          apply closed
          rw [whole, List.getLast?_append, ends]
          rfl
        obtain ⟨short, plain⟩ := ih following closed'
        rw [whole]
        constructor
        · rw [List.length_append, List.length_append]
          rcases size with ⟨rfl, _, _⟩ | less <;> omega
        · intro same
          have length := congrArg List.length same
          rw [List.length_append, List.length_append] at length
          rcases size with ⟨rfl, one, bytes⟩ | less
          · obtain ⟨utf8, visible⟩ := plain (List.append_cancel_left same)
            refine ⟨.cons one utf8, ?_⟩
            intro x member
            rcases List.mem_append.mp member with here | there
            · exact bytes x here
            · exact visible x there
          · omega

theorem after_sign (sign : UInt8) (visible : isBlank sign = false) (rest : Bytes) :
    after sign (sign :: rest) = some rest := by
  simp [after, skip, visible]

theorem after_other (sign b : UInt8) (visible : isBlank b = false) (other : b ≠ sign)
    (rest : Bytes) : after sign (b :: rest) = none := by
  simp [after, skip, visible, other]

theorem members_string {fuel : Nat} {key input more : Bytes} {found : Members} (plain : Plain key)
    (read : members fuel (quote :: (key ++ (quote :: colon :: quote :: input))) =
      some (found, more)) :
    ∃ text rest last, content (input.length + 1) input = some (text, rest) ∧
      found = .cons key (.string text) last ∧
      ∀ behind, rest = comma :: behind →
        ∃ fuel', members fuel' (skip behind) = some (last, more) := by
  cases fuel with
  | zero => cases read
  | succ fuel =>
    have keyed : stringText (quote :: (key ++ (quote :: colon :: quote :: input))) =
        some (key, colon :: quote :: input) := by
      rw [stringText, if_pos rfl]
      apply content_plain plain
      rw [List.length_append]
      omega
    have signed : after colon (colon :: quote :: input) = some (quote :: input) :=
      after_sign _ (by decide) _
    have next : skip (quote :: input) = quote :: input := by simp [skip, isBlank, quote]
    simp only [members, keyed, signed, next, Option.bind_eq_bind, Option.bind_some,
      Option.bind_eq_some_iff] at read
    obtain ⟨⟨item, rest⟩, valued, read⟩ := read
    cases fuel with
    | zero => cases valued
    | succ fuel =>
      rw [value, if_pos rfl, stringText, if_pos rfl] at valued
      obtain ⟨⟨text, behind⟩, string, same⟩ := Option.map_eq_some_iff.mp valued
      obtain ⟨rfl, rfl⟩ := Prod.mk.inj same
      cases sign : after comma behind with
      | some behind' =>
        rw [sign] at read
        obtain ⟨⟨last, end'⟩, following, same⟩ := Option.map_eq_some_iff.mp read
        obtain ⟨rfl, rfl⟩ := Prod.mk.inj same
        refine ⟨text, behind, last, string, rfl, ?_⟩
        rintro tail rfl
        rw [after_sign _ (by decide)] at sign
        exact ⟨fuel + 1, (Option.some.inj sign) ▸ following⟩
      | none =>
        rw [sign] at read
        obtain ⟨end', _, same⟩ := Option.map_eq_some_iff.mp read
        obtain ⟨rfl, rfl⟩ := Prod.mk.inj same
        refine ⟨text, behind, .nil, string, rfl, ?_⟩
        rintro tail rfl
        rw [after_sign _ (by decide)] at sign
        cases sign

theorem parse_object {input : Bytes} {j : Json}
    (parsed : parse (openBrace :: quote :: input) = some j) :
    ∃ fuel found more, j = .object found ∧ members fuel (quote :: input) = some (found, more) := by
  unfold parse at parsed
  split at parsed
  · rename_i found more read
    have opening : skip (openBrace :: quote :: input) = openBrace :: quote :: input := by
      simp [skip, isBlank, openBrace]
    have other : after closeBrace (quote :: input) = none :=
      after_other _ _ (by decide) (by decide) input
    have next : skip (quote :: input) = quote :: input := by simp [skip, isBlank, quote]
    rw [opening, value, if_neg (by decide), if_neg (by decide), if_pos rfl, other, next] at read
    change Option.map _ (members _ (quote :: input)) = _ at read
    obtain ⟨⟨inside, behind⟩, inner, same⟩ := Option.map_eq_some_iff.mp read
    obtain ⟨rfl, rfl⟩ := Prod.mk.inj same
    split at parsed
    · exact ⟨_, inside, behind, (Option.some.inj parsed).symm, inner⟩
    · cases parsed
  · cases parsed

/- The text without blanks, of values built of strings, arrays and objects. -/
mutual
def Json.text : Json → Bytes
  | .string text => quote :: (text ++ [quote])
  | .array found => openBracket :: found.text
  | .object found => openBrace :: found.text
  | .null => ascii "null"
  | .bool value => if value then ascii "true" else ascii "false"
  | .number digits => digits

def Items.text : Items → Bytes
  | .nil => [closeBracket]
  | .cons item .nil => item.text ++ [closeBracket]
  | .cons item rest => item.text ++ comma :: rest.text

def Members.text : Members → Bytes
  | .nil => [closeBrace]
  | .cons key item .nil => quote :: (key ++ quote :: colon :: (item.text ++ [closeBrace]))
  | .cons key item rest => quote :: (key ++ quote :: colon :: (item.text ++ comma :: rest.text))
end

mutual
def Json.Compact : Json → Prop
  | .string text => Plain text
  | .array found => found.Compact
  | .object found => found.Compact
  | _ => False

def Items.Compact : Items → Prop
  | .nil => True
  | .cons item rest => item.Compact ∧ rest.Compact

def Members.Compact : Members → Prop
  | .nil => True
  | .cons key item rest => Plain key ∧ item.Compact ∧ rest.Compact
end

theorem compact_begins {j : Json} (compact : j.Compact) (rest : Bytes) :
    ∃ b more, j.text ++ rest = b :: more ∧ isBlank b = false ∧ b ≠ closeBracket ∧
      b ≠ closeBrace := by
  cases j with
  | string text => exact ⟨quote, _, rfl, by decide, by decide, by decide⟩
  | array found => exact ⟨openBracket, _, rfl, by decide, by decide, by decide⟩
  | object found => exact ⟨openBrace, _, rfl, by decide, by decide, by decide⟩
  | null => exact compact.elim
  | bool value => exact compact.elim
  | number digits => exact compact.elim

theorem skip_compact {j : Json} (compact : j.Compact) (rest : Bytes) :
    skip (j.text ++ rest) = j.text ++ rest := by
  obtain ⟨b, more, split, visible, _⟩ := compact_begins compact rest
  simp [split, skip, visible]

theorem items_text_begins {item : Json} (compact : item.Compact) (more : Items) (rest : Bytes) :
    skip ((Items.cons item more).text ++ rest) = (Items.cons item more).text ++ rest ∧
      after closeBracket ((Items.cons item more).text ++ rest) = none := by
  have shape : ∃ behind, (Items.cons item more).text ++ rest = item.text ++ behind := by
    cases more with
    | nil => exact ⟨_, by rw [Items.text, List.append_assoc]⟩
    | cons next more => exact ⟨_, by rw [Items.text, List.append_assoc]; simp⟩
  obtain ⟨behind, shape⟩ := shape
  rw [shape, skip_compact compact]
  obtain ⟨b, more, split, visible, other, _⟩ := compact_begins compact behind
  rw [split]
  exact ⟨rfl, after_other _ _ visible other more⟩

theorem members_text_begins (key : Bytes) (item : Json) (more : Members) (rest : Bytes) :
    skip ((Members.cons key item more).text ++ rest) = (Members.cons key item more).text ++ rest ∧
      after closeBrace ((Members.cons key item more).text ++ rest) = none := by
  obtain ⟨behind, shape⟩ :
      ∃ behind, (Members.cons key item more).text ++ rest = quote :: behind := by
    cases more <;> exact ⟨_, rfl⟩
  rw [shape]
  exact ⟨by simp [skip, isBlank, quote], after_other _ _ (by decide) (by decide) behind⟩

theorem string_text_plain {text : Bytes} (plain : Plain text) (rest : Bytes) :
    stringText (quote :: (text ++ quote :: rest)) = some (text, rest) := by
  rw [stringText, if_pos rfl]
  apply content_plain plain
  rw [List.length_append]
  omega

mutual
theorem value_text : ∀ (j : Json), j.Compact → ∀ (fuel : Nat) (rest : Bytes),
    2 * j.text.length ≤ fuel → value fuel (j.text ++ rest) = some (j, rest)
  | .null, compact, _, _, _ | .bool _, compact, _, _, _ | .number _, compact, _, _, _ =>
    compact.elim
  | .string text, compact, fuel, rest, enough => by
    cases fuel with
    | zero => simp [Json.text] at enough
    | succ fuel =>
      have shape : (Json.string text).text ++ rest = quote :: (text ++ quote :: rest) := by
        simp [Json.text]
      rw [shape, value, if_pos rfl, string_text_plain compact]
      rfl
  | .array found, compact, fuel, rest, enough => by
    cases fuel with
    | zero => simp [Json.text] at enough
    | succ fuel =>
      have inner := items_text found compact fuel rest
      cases found with
      | nil => rfl
      | cons item more =>
        have begins := items_text_begins compact.1 more rest
        have read := inner (by simp only [Json.text, List.length_cons] at enough; omega) nofun
        rw [Json.text, List.cons_append, value, if_neg (by decide), if_pos rfl, begins.2, begins.1,
          read]
        rfl
  | .object found, compact, fuel, rest, enough => by
    cases fuel with
    | zero => simp [Json.text] at enough
    | succ fuel =>
      have inner := members_text found compact fuel rest
      cases found with
      | nil => rfl
      | cons key item more =>
        have begins := members_text_begins key item more rest
        have read := inner (by simp only [Json.text, List.length_cons] at enough; omega) nofun
        rw [Json.text, List.cons_append, value, if_neg (by decide), if_neg (by decide), if_pos rfl,
          begins.2, begins.1, read]
        rfl

theorem items_text : ∀ (found : Items), found.Compact → ∀ (fuel : Nat) (rest : Bytes),
    2 * found.text.length ≤ fuel → found ≠ .nil →
      items fuel (found.text ++ rest) = some (found, rest)
  | .nil, _, _, _, _, nonempty => absurd rfl nonempty
  | .cons item more, compact, fuel, rest, enough, _ => by
    cases fuel with
    | zero => cases more <;> simp [Items.text] at enough
    | succ fuel =>
      have here := value_text item compact.1 fuel
      have later := items_text more compact.2 fuel rest
      cases more with
      | nil =>
        simp only [Items.text, List.length_append, List.length_singleton] at enough
        have ends := after_other comma closeBracket (by decide) (by decide) rest
        have closed := after_sign closeBracket (by decide) rest
        rw [Items.text, List.append_assoc, List.singleton_append, items, here _ (by omega)]
        simp only [Option.bind_eq_bind, Option.bind_some, ends, closed, Option.map_some]
      | cons next more =>
        have shape : (Items.cons item (.cons next more)).text =
            item.text ++ comma :: (Items.cons next more).text := by
          rw [Items.text]
          exact nofun
        rw [shape, List.length_append, List.length_cons] at enough
        have begins := items_text_begins compact.2.1 more rest
        have goes := after_sign comma (by decide) ((Items.cons next more).text ++ rest)
        rw [shape, List.append_assoc, List.cons_append, items, here _ (by omega)]
        simp only [Option.bind_eq_bind, Option.bind_some, goes, begins.1]
        rw [later (by omega) nofun]
        rfl

theorem members_text : ∀ (found : Members), found.Compact → ∀ (fuel : Nat) (rest : Bytes),
    2 * found.text.length ≤ fuel → found ≠ .nil →
      members fuel (found.text ++ rest) = some (found, rest)
  | .nil, _, _, _, _, nonempty => absurd rfl nonempty
  | .cons key item more, compact, fuel, rest, enough, _ => by
    cases fuel with
    | zero => cases more <;> simp [Members.text] at enough
    | succ fuel =>
      have here := value_text item compact.2.1 fuel
      have later := members_text more compact.2.2 fuel rest
      cases more with
      | nil =>
        simp only [Members.text, List.length_append, List.length_cons, List.length_nil] at enough
        have shape : (Members.cons key item .nil).text ++ rest =
            quote :: (key ++ quote :: colon :: (item.text ++ closeBrace :: rest)) := by
          simp [Members.text]
        have signed := after_sign colon (by decide) (item.text ++ closeBrace :: rest)
        have ends := after_other comma closeBrace (by decide) (by decide) rest
        have closed := after_sign closeBrace (by decide) rest
        rw [shape, members, string_text_plain compact.1]
        simp only [Option.bind_eq_bind, Option.bind_some, signed, skip_compact compact.2.1]
        rw [here _ (by omega)]
        simp only [Option.bind_some, ends, closed, Option.map_some]
      | cons next following more =>
        have whole : (Members.cons key item (.cons next following more)).text =
            quote :: (key ++ quote :: colon ::
              (item.text ++ comma :: (Members.cons next following more).text)) := by
          rw [Members.text]
          exact nofun
        rw [whole] at enough
        simp only [List.length_append, List.length_cons] at enough
        have begins := members_text_begins next following more rest
        have goes := after_sign comma (by decide)
          ((Members.cons next following more).text ++ rest)
        have shape : (Members.cons key item (.cons next following more)).text ++ rest =
            quote :: (key ++ quote :: colon :: (item.text ++
              comma :: ((Members.cons next following more).text ++ rest))) := by
          rw [whole]
          simp
        have signed := after_sign colon (by decide)
          (item.text ++ comma :: ((Members.cons next following more).text ++ rest))
        rw [shape, members, string_text_plain compact.1]
        simp only [Option.bind_eq_bind, Option.bind_some, signed, skip_compact compact.2.1]
        rw [here _ (by omega)]
        simp only [Option.bind_some, goes, begins.1]
        rw [later (by omega) nofun]
        rfl
end

theorem parse_text {j : Json} (compact : j.Compact) : parse j.text = some j := by
  have start : skip j.text = j.text := by simpa using skip_compact compact []
  have read : value (2 * j.text.length + 2) j.text = some (j, []) := by
    simpa using value_text j compact (2 * j.text.length + 2) [] (by omega)
  rw [parse, start, read]
  rfl

end JsonText
