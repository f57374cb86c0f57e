import Mathlib.Data.List.DropRight
import Mathlib.Data.List.TakeWhile
import Mathlib.Tactic.Common

/- What the results runner reads of one line of a verbose pytest log. Texts are their
   characters; a line is one element of read_text().splitlines(). -/
namespace GplugResultLines

abbrev Text := List Char

def isSpace (c : Char) : Bool :=
  let n := c.toNat
  decide ((9 ≤ n ∧ n ≤ 13) ∨ (28 ≤ n ∧ n ≤ 32) ∨ n = 0x85 ∨ n = 0xA0 ∨ n = 0x1680 ∨
    (0x2000 ≤ n ∧ n ≤ 0x200A) ∨ n = 0x2028 ∨ n = 0x2029 ∨ n = 0x202F ∨ n = 0x205F ∨ n = 0x3000)

def isInk (c : Char) : Bool := !isSpace c

/-- The pattern's word characters and digits, of which there are many beyond ASCII. -/
structure CharClasses where
  word : Char → Bool
  digit : Char → Bool
  space_apart : ∀ c, isSpace c = true → word c = false

def strip (text : Text) : Text := (text.dropWhile isSpace).rdropWhile isSpace

inductive Outcome where
  | passed | failed | error | skipped | xfail | xpass
  deriving DecidableEq, Repr

def Outcome.text : Outcome → Text
  | .passed => ['P', 'A', 'S', 'S', 'E', 'D']
  | .failed => ['F', 'A', 'I', 'L', 'E', 'D']
  | .error => ['E', 'R', 'R', 'O', 'R']
  | .skipped => ['S', 'K', 'I', 'P', 'P', 'E', 'D']
  | .xfail => ['X', 'F', 'A', 'I', 'L']
  | .xpass => ['X', 'P', 'A', 'S', 'S']

def outcomes : List Outcome := [.passed, .failed, .error, .skipped, .xfail, .xpass]

def benchPath : Text := ['t', 'e', 's', 't', 'i', 'n', 'g', '/', 'b', 'e', 'n', 'c', 'h', '/']

def afterColons : Text → Option Text
  | [] => none
  | c :: rest =>
      if c = ':' ∧ rest.head? = some ':' ∧ rest.tail ≠ [] then some rest.tail else afterColons rest

def outcomeAt (cls : CharClasses) (text : Text) : Option Outcome :=
  outcomes.find? fun o =>
    o.text.isPrefixOf text && (text.drop o.text.length).head?.all fun c => !cls.word c

/-- RESULT_LINE.match(line.strip()): the node and the outcome. The path takes at least one
    character and as few as it can; the node takes the rest of the ink. -/
def resultLine (cls : CharClasses) (line : Text) : Option (Text × Outcome) := do
  let line := strip line
  if benchPath.isPrefixOf line then
    let rest := line.drop benchPath.length
    let node ← afterColons (rest.takeWhile isInk).tail
    let outcome ← outcomeAt cls ((rest.dropWhile isInk).dropWhile isSpace)
    some (node, outcome)
  else none

-- re.I lets one letter beyond ASCII stand for an s.
def caseAt (cls : CharClasses) : Text → Option Text
  | u :: a :: b :: x :: y :: z :: _ =>
      if u = '_' ∧ cls.digit x ∧ cls.digit y ∧ cls.digit z then
        if (a = 't' ∨ a = 'T') ∧ (b = 's' ∨ b = 'S' ∨ b = 'ſ') then some ['T', 'S', '-', x, y, z]
        else if (a = 'w' ∨ a = 'W') ∧ (b = 'f' ∨ b = 'F') then some ['W', 'F', '-', x, y, z]
        else none
      else none
  | _ => none

/-- CASE_IN_NODE.search: the first place in the node that carries a case id. -/
def caseInNode (cls : CharClasses) : Text → Option Text
  | [] => none
  | c :: rest => (caseAt cls (c :: rest)).or (caseInNode cls rest)

structure Found where
  caseId : Option Text
  outcome : Outcome
  node : Text
  deriving DecidableEq, Repr

def parseLine (cls : CharClasses) (line : Text) : Option Found :=
  (resultLine cls line).map fun (node, outcome) => ⟨caseInNode cls node, outcome, node⟩

def parse (cls : CharClasses) (lines : List Text) : List Found := lines.filterMap (parseLine cls)

/-- The result of one test, as pytest prints it. The node may hold anything: the ids of
    parameters are free text. -/
structure Report where
  file : Text
  node : Text
  outcome : Outcome
  tail : Text
  filed : file ≠ []
  named : node ≠ []
  plainFile : ∀ c ∈ file, isSpace c = false ∧ c ≠ ':'
  apart : tail = [] ∨ ∃ rest, tail = ' ' :: rest

def Report.text (r : Report) : Text :=
  benchPath ++ (r.file ++ ':' :: ':' :: (r.node ++ ' ' :: (r.outcome.text ++ r.tail)))

def Report.ink (r : Report) : Text := r.node.takeWhile isInk

def Report.shown (r : Report) : Text := r.outcome.text ++ r.tail.rdropWhile isSpace

theorem outcome_text_ends (o : Outcome) : ∃ front c, o.text = front ++ [c] ∧ isSpace c = false := by
  cases o with
  | passed => exact ⟨['P', 'A', 'S', 'S', 'E'], 'D', rfl, rfl⟩
  | failed => exact ⟨['F', 'A', 'I', 'L', 'E'], 'D', rfl, rfl⟩
  | error => exact ⟨['E', 'R', 'R', 'O'], 'R', rfl, rfl⟩
  | skipped => exact ⟨['S', 'K', 'I', 'P', 'P', 'E'], 'D', rfl, rfl⟩
  | xfail => exact ⟨['X', 'F', 'A', 'I'], 'L', rfl, rfl⟩
  | xpass => exact ⟨['X', 'P', 'A', 'S'], 'S', rfl, rfl⟩

theorem rstrip_append {front : Text} {c : Char} (ink : isSpace c = false) (rest : Text) :
    (front ++ c :: rest).rdropWhile isSpace = front ++ c :: rest.rdropWhile isSpace := by
  induction rest using List.reverseRecOn with
  | nil => exact List.rdropWhile_concat_neg _ _ _ (by simp [ink])
  | append_singleton rest d ih =>
    rw [← List.cons_append, ← List.append_assoc]
    by_cases blank : isSpace d = true
    · rw [List.rdropWhile_concat_pos _ _ _ blank, List.rdropWhile_concat_pos _ _ _ blank]
      exact ih
    · rw [List.rdropWhile_concat_neg _ _ _ blank, List.rdropWhile_concat_neg _ _ _ blank,
        List.append_assoc, List.cons_append]

theorem take_ink (text rest : Text) :
    (text ++ ' ' :: rest).takeWhile isInk = text.takeWhile isInk := by
  induction text with
  | nil => rfl
  | cons c text ih =>
    rw [List.cons_append, List.takeWhile_cons, List.takeWhile_cons, ih]

theorem after_colons_file {file : Text} (plain : ∀ c ∈ file, c ≠ ':') (node : Text) :
    afterColons (file ++ ':' :: ':' :: node) = if node = [] then none else some node := by
  induction file with
  | nil =>
    by_cases empty : node = []
    · simp [afterColons, empty]
    · simp [afterColons, empty]
  | cons c file ih =>
    have other : c ≠ ':' := plain c List.mem_cons_self
    have others : ∀ d ∈ file, d ≠ ':' := fun d member => plain d (List.mem_cons_of_mem _ member)
    rw [List.cons_append, afterColons, if_neg fun colons => other colons.1, ih others]

theorem strip_report (r : Report) :
    strip r.text = benchPath ++ (r.file ++ ':' :: ':' :: (r.node ++ ' ' :: r.shown)) := by
  obtain ⟨front, c, shape, ink⟩ := outcome_text_ends r.outcome
  have left : r.text.dropWhile isSpace = r.text := rfl
  have split : r.text =
      (benchPath ++ (r.file ++ ':' :: ':' :: (r.node ++ ' ' :: front))) ++ c :: r.tail := by
    simp [Report.text, shape]
  rw [strip, left, split, rstrip_append ink]
  simp [Report.shown, shape]

def Report.behind (r : Report) : Text :=
  ((r.node ++ ' ' :: r.shown).dropWhile isInk).dropWhile isSpace

theorem result_line_text (cls : CharClasses) (r : Report) :
    resultLine cls r.text =
      if r.ink = [] then none else (outcomeAt cls r.behind).map fun o => (r.ink, o) := by
  have inked : ∀ c ∈ r.file ++ [':', ':'], isInk c = true := by
    intro c member
    rcases List.mem_append.mp member with inFile | colon
    · simp [isInk, (r.plainFile c inFile).1]
    · have : c = ':' := by simpa using colon
      subst this
      rfl
  obtain ⟨f, file, shape⟩ := List.exists_cons_of_ne_nil r.filed
  have plain : ∀ c ∈ file, c ≠ ':' := by
    intro c member
    exact (r.plainFile c (by simp [shape, member])).2
  have rest : r.file ++ ':' :: ':' :: (r.node ++ ' ' :: r.shown) =
      (r.file ++ [':', ':']) ++ (r.node ++ ' ' :: r.shown) := by simp
  have run : ((r.file ++ ':' :: ':' :: (r.node ++ ' ' :: r.shown)).takeWhile isInk).tail =
      file ++ ':' :: ':' :: r.ink := by
    rw [rest, List.takeWhile_append_of_pos inked, take_ink, shape]
    simp [Report.ink]
  have after : (r.file ++ ':' :: ':' :: (r.node ++ ' ' :: r.shown)).dropWhile isInk =
      (r.node ++ ' ' :: r.shown).dropWhile isInk := by
    rw [rest, List.dropWhile_append_of_pos inked]
  have found : benchPath.isPrefixOf
      (benchPath ++ (r.file ++ ':' :: ':' :: (r.node ++ ' ' :: r.shown))) = true := by simp
  have behind : ((r.node ++ ' ' :: r.shown).dropWhile isInk).dropWhile isSpace = r.behind := rfl
  simp only [resultLine, strip_report, found, ↓reduceIte, List.drop_left, run, after, behind,
    after_colons_file plain]
  by_cases bare : r.ink = []
  · simp [bare]
  · cases read : outcomeAt cls r.behind with
    | none => simp [bare]
    | some o => simp [bare]

theorem outcome_at_shown (cls : CharClasses) (r : Report) :
    outcomeAt cls r.shown = some r.outcome := by
  have ends : (r.tail.rdropWhile isSpace).head?.all (fun c => !cls.word c) = true := by
    rcases r.apart with none | ⟨rest, some⟩
    · simp [none]
    · cases shape : r.tail.rdropWhile isSpace with
      | nil => rfl
      | cons c left =>
        have start : c :: left <+: ' ' :: rest := by
          rw [← shape, ← some]
          exact List.rdropWhile_prefix _ _
        have same : c = ' ' := by
          obtain ⟨more, whole⟩ := start
          exact (List.cons.inj whole).1
        simp [same, cls.space_apart ' ' rfl]
  rw [List.head?_eq_getElem?] at ends
  unfold Report.shown outcomeAt
  cases r.outcome <;> simp [outcomes, Outcome.text, ends]

theorem result_line_plain (cls : CharClasses) {r : Report}
    (plain : ∀ c ∈ r.node, isSpace c = false) :
    resultLine cls r.text = some (r.node, r.outcome) := by
  have inked : ∀ c ∈ r.node, isInk c = true := by
    intro c member
    simp [isInk, plain c member]
  have whole : r.ink = r.node := List.takeWhile_eq_self_iff.mpr inked
  have behind : r.behind = r.shown := by
    rw [Report.behind, List.dropWhile_append_of_pos inked]
    unfold Report.shown
    cases r.outcome <;> rfl
  rw [result_line_text, whole, if_neg r.named, behind, outcome_at_shown]
  rfl

theorem case_at_length {cls : CharClasses} {text id : Text} (found : caseAt cls text = some id) :
    6 ≤ text.length := by
  unfold caseAt at found
  split at found
  · simp
  · exact absurd found (by simp)

theorem case_at_append (cls : CharClasses) {text : Text} (long : 6 ≤ text.length) (more : Text) :
    caseAt cls (text ++ more) = caseAt cls text := by
  match text, long with
  | u :: a :: b :: x :: y :: z :: rest, _ => rfl

theorem case_in_node_length {cls : CharClasses} {node id : Text}
    (found : caseInNode cls node = some id) : 6 ≤ node.length := by
  induction node with
  | nil => simp [caseInNode] at found
  | cons c rest ih =>
    rw [caseInNode] at found
    cases here : caseAt cls (c :: rest) with
    | some other => exact case_at_length here
    | none =>
      rw [here, Option.none_or] at found
      exact Nat.le_succ_of_le (ih found)

theorem case_in_node_append {cls : CharClasses} {start id : Text}
    (found : caseInNode cls start = some id) (more : Text) :
    caseInNode cls (start ++ more) = some id := by
  have long := case_in_node_length found
  induction start with
  | nil => simp [caseInNode] at found
  | cons c rest ih =>
    rw [caseInNode] at found
    rw [List.cons_append, caseInNode, ← List.cons_append, case_at_append cls long]
    cases here : caseAt cls (c :: rest) with
    | some other => rwa [here] at found
    | none =>
      rw [here, Option.none_or] at found
      rw [Option.none_or]
      exact ih found (case_in_node_length found)

theorem parse_line_plain (cls : CharClasses) {r : Report}
    (plain : ∀ c ∈ r.node, isSpace c = false) :
    parseLine cls r.text = some ⟨caseInNode cls r.node, r.outcome, r.node⟩ := by
  rw [parseLine, result_line_plain cls plain]
  rfl

/-- However a result line is read, the node is that up to its first blank. -/
theorem parse_line_text {cls : CharClasses} {r : Report} {f : Found}
    (read : parseLine cls r.text = some f) :
    f.node = r.ink ∧ f.caseId = caseInNode cls r.ink ∧ outcomeAt cls r.behind = some f.outcome := by
  rw [parseLine, result_line_text] at read
  by_cases bare : r.ink = []
  · simp [bare] at read
  · rw [if_neg bare] at read
    cases seen : outcomeAt cls r.behind with
    | none => simp [seen] at read
    | some o =>
      have shape : ⟨caseInNode cls r.ink, o, r.ink⟩ = f := by simpa [seen] using read
      subst shape
      exact ⟨rfl, rfl, rfl⟩

theorem parse_line_named {cls : CharClasses} {r : Report} {id : Text} {o : Outcome}
    (named : caseInNode cls r.ink = some id) (seen : outcomeAt cls r.behind = some o) :
    parseLine cls r.text = some ⟨some id, o, r.ink⟩ := by
  have ink : r.ink ≠ [] := by
    intro bare
    rw [bare] at named
    exact Option.some_ne_none _ named.symm
  rw [parseLine, result_line_text, if_neg ink, seen]
  simp [named]

theorem ink_names {cls : CharClasses} {r : Report} {id : Text}
    (found : caseInNode cls r.ink = some id) : caseInNode cls r.node = some id := by
  have whole : r.ink ++ r.node.dropWhile isInk = r.node := List.takeWhile_append_dropWhile
  rw [← whole]
  exact case_in_node_append found _

end GplugResultLines
