import Mathlib.Algebra.Ring.Nat
import Mathlib.Tactic.Common
import GplugMini.Library.ByteText

/- DNS messages: names with compression, questions, resource records, and a reader of whole
   messages that leaves no byte over. -/
namespace DnsMessage
open ByteText
variable {α : Type}

structure Question where
  name : List Bytes
  type : Nat
  cls : Nat
  deriving DecidableEq, Repr

structure Resource where
  name : List Bytes
  type : Nat
  cls : Nat
  ttl : Nat
  data : Bytes
  deriving DecidableEq, Repr

structure Message where
  id : Nat
  flags : Nat
  questions : List Question
  answers : List Resource
  authority : List Resource
  additional : List Resource
  deriving DecidableEq, Repr

def Message.isResponse (message : Message) : Bool := 0x8000 ≤ message.flags

def headerSize : Nat := 12

def u16 (m : Bytes) (pos : Nat) : Option Nat := do
  let high ← m[pos]?
  let low ← m[pos + 1]?
  some (high.toNat * 256 + low.toNat)

def slice (m : Bytes) (pos len : Nat) : Option Bytes :=
  if pos + len ≤ m.length then some ((m.drop pos).take len) else none

def pointer (high low : UInt8) : Nat := (high.toNat - 192) * 256 + low.toNat

/-- The labels of a name that is read at pos in a run begun at start. A pointer leads behind the
    header and before the run it ends, so every run begins before the last. -/
def labels : Nat → Bytes → Nat → Nat → Option (List Bytes × Nat)
  | 0, _, _, _ => none
  | fuel + 1, m, start, pos => do
      let size ← m[pos]?
      if size = 0 then some ([], pos + 1)
      else if size < 64 then do
        let label ← slice m (pos + 1) size.toNat
        let (rest, next) ← labels fuel m start (pos + 1 + size.toNat)
        some (label :: rest, next)
      else if 192 ≤ size then do
        let low ← m[pos + 1]?
        if headerSize ≤ pointer size low ∧ pointer size low < start then do
          let (rest, _) ← labels fuel m (pointer size low) (pointer size low)
          some (rest, pos + 2)
        else none
      else none

def nameSize (name : List Bytes) : Nat := (name.map fun label => label.length + 1).sum + 1

def name (m : Bytes) (pos : Nat) : Option (List Bytes × Nat) := do
  let (found, next) ← labels (m.length + 256) m pos pos
  if nameSize found ≤ 255 then some (found, next) else none

def question (m : Bytes) (pos : Nat) : Option (Question × Nat) := do
  let (found, next) ← name m pos
  let type ← u16 m next
  let cls ← u16 m (next + 2)
  some (⟨found, type, cls⟩, next + 4)

def resource (m : Bytes) (pos : Nat) : Option (Resource × Nat) := do
  let (found, next) ← name m pos
  let type ← u16 m next
  let cls ← u16 m (next + 2)
  let high ← u16 m (next + 4)
  let low ← u16 m (next + 6)
  let len ← u16 m (next + 8)
  let data ← slice m (next + 10) len
  some (⟨found, type, cls, high * 65536 + low, data⟩, next + 10 + len)

def many (read : Bytes → Nat → Option (α × Nat)) : Nat → Bytes → Nat → Option (List α × Nat)
  | 0, _, pos => some ([], pos)
  | n + 1, m, pos => do
      let (first, next) ← read m pos
      let (rest, last) ← many read n m next
      some (first :: rest, last)

def parse (m : Bytes) : Option Message := do
  let id ← u16 m 0
  let flags ← u16 m 2
  let asked ← u16 m 4
  let answered ← u16 m 6
  let named ← u16 m 8
  let added ← u16 m 10
  let (questions, pos) ← many question asked m headerSize
  let (answers, pos) ← many resource answered m pos
  let (authority, pos) ← many resource named m pos
  let (additional, pos) ← many resource added m pos
  if pos = m.length then some ⟨id, flags, questions, answers, authority, additional⟩ else none

structure Extends (m m' : Bytes) : Prop where
  longer : m.length ≤ m'.length
  same : ∀ i, headerSize ≤ i → i < m.length → m'[i]? = m[i]?

/-- What a reader found behind the header it finds in every longer message, and it ends inside
    the message it read. -/
def Local (read : Bytes → Nat → Option (α × Nat)) : Prop :=
  ∀ m m' pos found next, Extends m m' → headerSize ≤ pos → pos ≤ m.length →
    read m pos = some (found, next) →
      read m' pos = some (found, next) ∧ pos ≤ next ∧ next ≤ m.length

variable {m m' : Bytes} {pos : Nat}

theorem byte_extends (ext : Extends m m') (behind : headerSize ≤ pos) {b : UInt8}
    (found : m[pos]? = some b) : m'[pos]? = some b ∧ pos < m.length := by
  have inside := (List.getElem?_eq_some_iff.mp found).1
  exact ⟨by rw [ext.same pos behind inside, found], inside⟩

theorem u16_extends (ext : Extends m m') (behind : headerSize ≤ pos) {n : Nat}
    (found : u16 m pos = some n) : u16 m' pos = some n ∧ pos + 2 ≤ m.length := by
  simp only [u16, Option.bind_eq_bind, Option.bind_eq_some_iff] at found ⊢
  obtain ⟨high, first, low, second, value⟩ := found
  obtain ⟨first', _⟩ := byte_extends ext behind first
  obtain ⟨second', inside⟩ := byte_extends ext (Nat.le_succ_of_le behind) second
  exact ⟨⟨high, first', low, second', value⟩, inside⟩

theorem slice_extends (ext : Extends m m') (behind : headerSize ≤ pos) {len : Nat} {data : Bytes}
    (found : slice m pos len = some data) :
    slice m' pos len = some data ∧ pos + len ≤ m.length := by
  have longer := ext.longer
  unfold slice at found ⊢
  split at found
  · rename_i inside
    refine ⟨?_, inside⟩
    rw [if_pos (by omega), ← Option.some.inj found]
    congr 1
    apply List.ext_getElem?
    intro i
    by_cases within : i < len
    · rw [List.getElem?_take_of_lt within, List.getElem?_take_of_lt within, List.getElem?_drop,
        List.getElem?_drop, ext.same _ (by omega) (by omega)]
    · rw [List.getElem?_take_eq_none (by omega), List.getElem?_take_eq_none (by omega)]
  · cases found

theorem labels_extends (ext : Extends m m') (more : Nat) {fuel start next : Nat}
    {found : List Bytes} (behind : headerSize ≤ pos)
    (read : labels fuel m start pos = some (found, next)) :
    labels (fuel + more) m' start pos = some (found, next) ∧ pos ≤ next ∧ next ≤ m.length := by
  induction fuel generalizing start pos found next with
  | zero => cases read
  | succ fuel ih =>
    have count : fuel + 1 + more = (fuel + more) + 1 := by omega
    rw [labels] at read
    rw [count, labels]
    simp only [Option.bind_eq_bind, Option.bind_eq_some_iff] at read ⊢
    obtain ⟨size, byte, read⟩ := read
    obtain ⟨byte', inside⟩ := byte_extends ext behind byte
    by_cases root : size = 0
    · rw [if_pos root] at read
      obtain ⟨rfl, rfl⟩ := Prod.mk.inj (Option.some.inj read)
      exact ⟨⟨size, byte', by rw [if_pos root]⟩, by omega, inside⟩
    · rw [if_neg root] at read
      by_cases plain : size < 64
      · rw [if_pos plain] at read
        simp only [Option.bind_eq_some_iff] at read
        obtain ⟨label, taken, ⟨rest, last⟩, later, same⟩ := read
        obtain ⟨rfl, rfl⟩ := Prod.mk.inj (Option.some.inj same)
        obtain ⟨taken', _⟩ := slice_extends ext (Nat.le_succ_of_le behind) taken
        obtain ⟨later', forward, ends⟩ := ih (by omega) later
        refine ⟨⟨size, byte', ?_⟩, by omega, ends⟩
        rw [if_neg root, if_pos plain]
        simp only [Option.bind_eq_some_iff]
        exact ⟨label, taken', (rest, last), later', rfl⟩
      · rw [if_neg plain] at read
        split at read
        · rename_i compressed
          simp only [Option.bind_eq_some_iff] at read
          obtain ⟨low, byteLow, read⟩ := read
          obtain ⟨byteLow', insideLow⟩ := byte_extends ext (Nat.le_succ_of_le behind) byteLow
          split at read
          · rename_i backward
            simp only [Option.bind_eq_some_iff] at read
            obtain ⟨⟨rest, last⟩, later, same⟩ := read
            obtain ⟨rfl, rfl⟩ := Prod.mk.inj (Option.some.inj same)
            obtain ⟨later', _, _⟩ := ih backward.1 later
            refine ⟨⟨size, byte', ?_⟩, by omega, insideLow⟩
            rw [if_neg root, if_neg plain, if_pos compressed]
            simp only [Option.bind_eq_some_iff]
            exact ⟨low, byteLow', by rw [if_pos backward, later']; rfl⟩
          · cases read
        · cases read

theorem name_local : Local name := by
  intro m m' pos found next ext behind inside read
  simp only [name, Option.bind_eq_bind, Option.bind_eq_some_iff] at read ⊢
  obtain ⟨⟨labels', last⟩, run, read⟩ := read
  split at read
  · rename_i short
    obtain ⟨rfl, rfl⟩ := Prod.mk.inj (Option.some.inj read)
    have longer := ext.longer
    obtain ⟨more, fuel⟩ : ∃ more, m'.length + 256 = m.length + 256 + more :=
      ⟨m'.length - m.length, by omega⟩
    obtain ⟨run', forward, ends⟩ := labels_extends ext more behind run
    refine ⟨⟨(labels', last), ?_, by rw [if_pos short]⟩, forward, ends⟩
    rw [fuel]
    exact run'
  · cases read

theorem question_local : Local question := by
  intro m m' pos found next ext behind inside read
  simp only [question, Option.bind_eq_bind, Option.bind_eq_some_iff] at read ⊢
  obtain ⟨⟨labels', last⟩, named, type, first, cls, second, same⟩ := read
  obtain ⟨rfl, rfl⟩ := Prod.mk.inj (Option.some.inj same)
  obtain ⟨named', forward, _⟩ := name_local m m' pos labels' last ext behind inside named
  obtain ⟨first', _⟩ := u16_extends ext (by omega) first
  obtain ⟨second', ends⟩ := u16_extends ext (by omega) second
  refine ⟨⟨(labels', last), named', type, first', cls, second', rfl⟩, ?_, ?_⟩
  · exact Nat.le_add_right_of_le forward
  · exact ends

theorem resource_local : Local resource := by
  intro m m' pos found next ext behind inside read
  simp only [resource, Option.bind_eq_bind, Option.bind_eq_some_iff] at read ⊢
  obtain ⟨⟨labels', last⟩, named, type, first, cls, second, high, third, low, fourth, len, fifth,
    data, sixth, same⟩ := read
  obtain ⟨rfl, rfl⟩ := Prod.mk.inj (Option.some.inj same)
  obtain ⟨named', forward, _⟩ := name_local m m' pos labels' last ext behind inside named
  obtain ⟨first', _⟩ := u16_extends ext (by omega) first
  obtain ⟨second', _⟩ := u16_extends ext (by omega) second
  obtain ⟨third', _⟩ := u16_extends ext (by omega) third
  obtain ⟨fourth', _⟩ := u16_extends ext (by omega) fourth
  obtain ⟨fifth', _⟩ := u16_extends ext (by omega) fifth
  obtain ⟨sixth', ends⟩ := slice_extends ext (by omega) sixth
  refine ⟨⟨(labels', last), named', type, first', cls, second', high, third', low, fourth', len,
    fifth', data, sixth', rfl⟩, ?_, ends⟩
  exact Nat.le_trans forward (by simp only; omega)

theorem many_local {read : Bytes → Nat → Option (α × Nat)} (one : Local read) (n : Nat) :
    Local (many read n) := by
  induction n with
  | zero =>
    intro m m' pos found next ext behind inside taken
    obtain ⟨rfl, rfl⟩ := Prod.mk.inj (Option.some.inj taken)
    exact ⟨rfl, Nat.le_refl pos, inside⟩
  | succ n ih =>
    intro m m' pos found next ext behind inside taken
    simp only [many, Option.bind_eq_bind, Option.bind_eq_some_iff] at taken ⊢
    obtain ⟨⟨first, middle⟩, here, ⟨rest, last⟩, later, same⟩ := taken
    obtain ⟨rfl, rfl⟩ := Prod.mk.inj (Option.some.inj same)
    obtain ⟨here', forward, ends⟩ := one m m' pos first middle ext behind inside here
    obtain ⟨later', onward, last'⟩ := ih m m' middle rest last ext (by omega) ends later
    exact ⟨⟨(first, middle), here', (rest, last), later', rfl⟩, by simp only; omega, last'⟩

/-- What a message that parses is made of, section by section. -/
structure Sections (m : Bytes) (message : Message) (asked answered named added : Nat)
    (first second third : Nat) : Prop where
  id : u16 m 0 = some message.id
  flags : u16 m 2 = some message.flags
  counts : u16 m 4 = some asked ∧ u16 m 6 = some answered ∧ u16 m 8 = some named ∧
    u16 m 10 = some added
  questions : many question asked m headerSize = some (message.questions, first)
  answers : many resource answered m first = some (message.answers, second)
  authority : many resource named m second = some (message.authority, third)
  additional : many resource added m third = some (message.additional, m.length)

theorem parse_some {message : Message} (parsed : parse m = some message) :
    ∃ asked answered named added first second third,
      Sections m message asked answered named added first second third := by
  simp only [parse, Option.bind_eq_bind, Option.bind_eq_some_iff] at parsed
  obtain ⟨id, h0, flags, h2, asked, h4, answered, h6, named, h8, added, h10,
    ⟨questions, first⟩, hq, ⟨answers, second⟩, ha, ⟨authority, third⟩, hn,
    ⟨additional, last⟩, hr, parsed⟩ := parsed
  split at parsed
  · rename_i whole
    obtain rfl := Option.some.inj parsed
    exact ⟨asked, answered, named, added, first, second, third, h0, h2, ⟨h4, h6, h8, h10⟩, hq, ha,
      hn, by rw [← whole]; exact hr⟩
  · cases parsed

theorem sections_parse {message : Message} {asked answered named added first second third : Nat}
    (sections : Sections m message asked answered named added first second third) :
    parse m = some message := by
  obtain ⟨id, flags, ⟨h4, h6, h8, h10⟩, questions, answers, authority, additional⟩ := sections
  simp only [parse, id, flags, h4, h6, h8, h10, questions, answers, authority, additional,
    Option.bind_eq_bind, Option.bind_some, ↓reduceIte]

theorem many_length {read : Bytes → Nat → Option (α × Nat)} {n next : Nat} {found : List α}
    (taken : many read n m pos = some (found, next)) : found.length = n := by
  induction n generalizing pos found next with
  | zero =>
    obtain ⟨rfl, _⟩ := Prod.mk.inj (Option.some.inj taken)
    rfl
  | succ n ih =>
    simp only [many, Option.bind_eq_bind, Option.bind_eq_some_iff] at taken
    obtain ⟨_, _, ⟨rest, last⟩, later, same⟩ := taken
    obtain ⟨rfl, rfl⟩ := Prod.mk.inj (Option.some.inj same)
    rw [List.length_cons, ih later]

end DnsMessage
