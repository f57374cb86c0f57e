import Mathlib.Data.List.Induction
import Mathlib.Tactic.Common
import GplugMini.Library.DecimalText

/- The text of a JSON object whose members are labels with bare values, built member by
   member, and a reader of such texts. -/
namespace FlatObject
open ByteText DecimalText

abbrev Member := Bytes × Bytes

def quote : UInt8 := 34
def comma : UInt8 := 44
def colon : UInt8 := 58
def openBrace : UInt8 := 123
def closeBrace : UInt8 := 125

def keyText (label : Bytes) : Bytes := quote :: label ++ [quote, colon]

def memberText (m : Member) : Bytes := keyText m.1 ++ m.2

def objectText (members : List Member) : Bytes :=
  openBrace :: [comma].intercalate (members.map memberText) ++ [closeBrace]

/-- The object so far, before its closing brace; nothing at all while it has no member. -/
def openText (members : List Member) : Bytes :=
  if members = [] then [] else openBrace :: [comma].intercalate (members.map memberText)

def lead (members : List Member) : UInt8 := if members = [] then openBrace else comma

def BareMember (m : Member) : Prop := (∀ b ∈ m.1, Bare b) ∧ ∀ b ∈ m.2, Bare b

theorem open_text_snoc (members : List Member) (m : Member) :
    openText (members ++ [m]) = openText members ++ lead members :: memberText m := by
  cases members with
  | nil => simp [openText, lead]
  | cons first rest =>
    simp only [openText, lead, List.cons_append, List.map_cons, List.map_append, List.map_nil,
      reduceCtorEq, ↓reduceIte]
    induction rest generalizing first with
    | nil => simp
    | cons second rest ih =>
      have tail := ih second
      simp only [List.cons_append, List.cons.injEq, true_and, List.map_cons,
        List.intercalate_cons_cons, List.append_assoc] at tail ⊢
      rw [tail]

theorem object_text_eq {members : List Member} (nonempty : members ≠ []) :
    objectText members = openText members ++ [closeBrace] := by
  simp [objectText, openText, nonempty]

theorem object_text_length {members : List Member} (nonempty : members ≠ []) :
    (objectText members).length = (openText members).length + 1 := by
  simp [object_text_eq nonempty]

theorem member_text_length (m : Member) : (memberText m).length = m.1.length + 3 + m.2.length := by
  simp [memberText, keyText]
  omega

theorem open_text_length (members : List Member) :
    (openText members).length = (members.map fun m => m.1.length + 4 + m.2.length).sum := by
  induction members using List.reverseRecOn with
  | nil => simp [openText]
  | append_singleton members m ih =>
    rw [open_text_snoc]
    simp [ih, member_text_length]
    omega

theorem open_text_append {first : List Member} (nonempty : first ≠ []) (rest : List Member) :
    ∃ more, openText (first ++ rest) = openText first ++ more ∧
      (more = [] ∨ ∃ tail, more = comma :: tail) := by
  induction rest using List.reverseRecOn with
  | nil => exact ⟨[], by simp, Or.inl rfl⟩
  | append_singleton rest m ih =>
    obtain ⟨more, grown, starts⟩ := ih
    have separator : lead (first ++ rest) = comma := if_neg (by simp [nonempty])
    refine ⟨more ++ comma :: memberText m, ?_, Or.inr ?_⟩
    · rw [← List.append_assoc, open_text_snoc, separator, grown, List.append_assoc]
    · rcases starts with rfl | ⟨tail, rfl⟩
      · exact ⟨memberText m, rfl⟩
      · exact ⟨tail ++ comma :: memberText m, rfl⟩

theorem object_text_append {first : List Member} (nonempty : first ≠ []) (rest : List Member) :
    ∃ stop more, (stop = comma ∨ stop = closeBrace) ∧
      objectText (first ++ rest) = openText first ++ stop :: more := by
  obtain ⟨more, grown, starts⟩ := open_text_append nonempty rest
  rw [object_text_eq (by simp [nonempty]), grown, List.append_assoc]
  rcases starts with rfl | ⟨tail, rfl⟩
  · exact ⟨closeBrace, [], Or.inr rfl, rfl⟩
  · exact ⟨comma, tail ++ [closeBrace], Or.inl rfl, rfl⟩

theorem object_text_grows {first : List Member} (nonempty : first ≠ []) (rest : List Member) :
    (objectText first).length ≤ (objectText (first ++ rest)).length := by
  obtain ⟨more, grown, _⟩ := open_text_append nonempty rest
  rw [object_text_eq nonempty, object_text_eq (by simp [nonempty]), grown]
  simp only [List.length_append]
  omega

theorem key_text_nul_free {label : Bytes} (free : NulFree label) : NulFree (keyText label) := by
  simp [keyText, free, quote, colon]

def inText (b : UInt8) : Bool := b != comma && b != closeBrace

def readMember : Bytes → Option (Member × Bytes)
  | [] => none
  | b :: rest =>
      if b = quote then
        match rest.dropWhile (· != quote) with
        | _ :: c :: tail =>
            if c = colon then
              some ((rest.takeWhile (· != quote), tail.takeWhile inText), tail.dropWhile inText)
            else none
        | _ => none
      else none

def readMembers : Nat → Bytes → Option (List Member)
  | 0, _ => none
  | fuel + 1, raw =>
      match readMember raw with
      | none => none
      | some (_, []) => none
      | some (m, b :: rest) =>
          if b = comma then (readMembers fuel rest).map (m :: ·)
          else if b = closeBrace ∧ rest = [] then some [m]
          else none

def readObject : Bytes → Option (List Member)
  | [] => none
  | b :: rest => if b = openBrace then readMembers rest.length rest else none

theorem read_member {m : Member} (bare : BareMember m) {stop : UInt8}
    (ends : inText stop = false) (rest : Bytes) :
    readMember (memberText m ++ stop :: rest) = some (m, stop :: rest) := by
  obtain ⟨label, text⟩ := m
  have labelled : ∀ b ∈ label, (b != quote) = true := by
    intro b member
    simpa [quote] using (bare.1 b member).2.1
  have valued : ∀ b ∈ text, inText b = true := by
    intro b member
    have := bare.2 b member
    simp [inText, comma, closeBrace, this.2.2.1, this.2.2.2]
  have shape : memberText (label, text) ++ stop :: rest =
      quote :: (label ++ quote :: colon :: (text ++ stop :: rest)) := by
    simp [memberText, keyText]
  rw [shape, readMember, if_pos rfl, List.dropWhile_append_of_pos labelled,
    List.takeWhile_append_of_pos labelled]
  simp [List.takeWhile_append_of_pos valued, List.dropWhile_append_of_pos valued, ends]

theorem read_members (first : Member) (rest : List Member)
    (bare : ∀ m ∈ first :: rest, BareMember m) (fuel : Nat) (budget : rest.length < fuel) :
    readMembers fuel ([comma].intercalate ((first :: rest).map memberText) ++ [closeBrace]) =
      some (first :: rest) := by
  induction rest generalizing first fuel with
  | nil =>
    obtain ⟨fuel, rfl⟩ : ∃ n, fuel = n + 1 := ⟨fuel - 1, by omega⟩
    have head := read_member (bare first (by simp)) (by decide : inText closeBrace = false) []
    rw [List.map_cons, List.map_nil, List.intercalate_singleton, readMembers, head]
    simp [comma, closeBrace]
  | cons second rest ih =>
    obtain ⟨fuel, rfl⟩ : ∃ n, fuel = n + 1 := ⟨fuel - 1, by omega⟩
    have tail := ih second (fun m member => bare m (by simp [member])) fuel
      (by simp only [List.length_cons] at budget; omega)
    have head := read_member (bare first (by simp)) (by decide : inText comma = false)
      ([comma].intercalate ((second :: rest).map memberText) ++ [closeBrace])
    have shape : [comma].intercalate ((first :: second :: rest).map memberText) ++ [closeBrace] =
        memberText first ++
          comma :: ([comma].intercalate ((second :: rest).map memberText) ++ [closeBrace]) := by
      simp
    rw [shape, readMembers, head]
    simp only [↓reduceIte, tail, Option.map_some]

theorem read_object {members : List Member} (nonempty : members ≠ [])
    (bare : ∀ m ∈ members, BareMember m) : readObject (objectText members) = some members := by
  obtain ⟨first, rest, rfl⟩ := List.exists_cons_of_ne_nil nonempty
  have longer : rest.length <
      ([comma].intercalate ((first :: rest).map memberText) ++ [closeBrace]).length := by
    have counted := open_text_length (first :: rest)
    have least : rest.length ≤ (rest.map fun m => m.1.length + 4 + m.2.length).sum := by
      clear counted bare nonempty
      induction rest with
      | nil => simp
      | cons m rest ih => simp; omega
    simp only [openText, reduceCtorEq, ↓reduceIte, List.length_cons, List.map_cons,
      List.sum_cons] at counted
    simp only [List.length_append, List.map_cons, List.length_singleton]
    omega
  exact read_members first rest bare _ longer

end FlatObject
