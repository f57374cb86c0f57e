import Mathlib.Data.List.Basic
import Mathlib.Tactic.Common
import GplugMini.MainLoop

/- The spans the parse loop hands to the parser. A parser that keeps a log of its calls is a
   parser like any other, so what the loop hands out is read from the loop itself. -/
namespace GplugParseSpans
open ByteText GplugDecode GplugFraming GplugMainLoop

/-- A flag that opens nothing: the byte behind it is no format byte. -/
def BareFlag (span : Bytes) : Prop := ∃ b rest, span = flag :: b :: rest ∧ formatByte b = false

structure Call where
  span : Bytes
  written : Bytes
  consumed : Nat
  deriving DecidableEq, Repr

def Call.left (c : Call) : Bytes := poke c.span 0 c.written

def Call.unread (c : Call) : Bytes := c.left.drop c.consumed

/-- The buffer and where its unread part begins, after one more call. -/
def Call.advance (c : Call) (buffer : Bytes × Nat) : Bytes × Nat :=
  (poke buffer.1 buffer.2 c.written, buffer.2 + c.consumed)

def HandedFrom : Bytes × Nat → List Call → Prop
  | _, [] => True
  | buffer, c :: rest =>
      c.span = buffer.1.drop buffer.2 ∧ c.span ≠ [] ∧ HandedFrom (c.advance buffer) rest

section
variable {Parser Heard : Type} (parse : Parser → Bytes → ParseOut Parser)

def callOf (parser : Parser) (span : Bytes) : Call where
  span := span
  written := (parse parser span).span.take span.length
  consumed := (parse parser span).bytesConsumed

def logged (s : Parser × List Call) (span : Bytes) : ParseOut (Parser × List Call) where
  captures := (parse s.1 span).captures
  count := (parse s.1 span).count
  bytesConsumed := (parse s.1 span).bytesConsumed
  span := (parse s.1 span).span
  parser := ((parse s.1 span).parser, s.2 ++ [callOf parse s.1 span])

/-- The parser alone, called again and again on what it has left unread. -/
inductive Reads : Parser → Bytes → List Call → Prop
  | used {parser : Parser} : Reads parser [] []
  | stuck {parser : Parser} {span : Bytes} (some : span ≠ [])
      (stays : (callOf parse parser span).consumed = 0) :
      Reads parser span [callOf parse parser span]
  | onward {parser : Parser} {span : Bytes} {rest : List Call} (some : span ≠ [])
      (moves : (callOf parse parser span).consumed ≠ 0)
      (tail : Reads (parse parser span).parser (callOf parse parser span).unread rest) :
      Reads parser span (callOf parse parser span :: rest)

/-- The parser never stops, having consumed something, in front of a bare flag. -/
def StopsClear (parser : Parser) (span : Bytes) : Prop :=
  ∀ calls, Reads parse parser span calls → ∀ c ∈ calls, c.consumed ≠ 0 → ¬ BareFlag c.unread

variable (callback : Heard → AxdrCapture → Heard)

def calls (parser : Parser) (cycle : Bytes) (heard : Heard) : List Call :=
  (decodeBuffer (logged parse) callback (parser, []) cycle heard).parser.2

structure HandsTrimmed (parser : Parser) (cycle : Bytes) (heard : Heard) : Prop where
  ends : ∀ more, parseLoop parse callback (cycle.length + more)
      ⟨cycle, leadingFlags cycle, 0, parser, heard⟩ =
    decodeBuffer parse callback parser cycle heard
  suffixes : HandedFrom (cycle, leadingFlags cycle) (calls parse callback parser cycle heard)
  trimmed : ∀ c ∈ calls parse callback parser cycle heard, ¬ BareFlag c.span

end

theorem leading_flags_bare (cycle : Bytes) : ¬ BareFlag (cycle.drop (leadingFlags cycle)) := by
  induction cycle with
  | nil => simp [BareFlag]
  | cons b rest ih =>
    cases rest with
    | nil => simp [BareFlag, leadingFlags]
    | cons c rest =>
      by_cases bare : b = flag ∧ formatByte c = false
      · rw [leadingFlags, if_pos bare, List.drop_succ_cons]
        exact ih
      · rw [leadingFlags, if_neg bare, List.drop_zero]
        intro opens
        obtain ⟨d, behind, shape, plain⟩ := opens
        obtain ⟨rfl, tail⟩ := List.cons.inj shape
        obtain ⟨rfl, _⟩ := List.cons.inj tail
        exact bare ⟨rfl, plain⟩

theorem leading_flags_none {span : Bytes} (clear : ¬ BareFlag span) : leadingFlags span = 0 := by
  cases span with
  | nil => rfl
  | cons b rest =>
    cases rest with
    | nil => rfl
    | cons c rest =>
      rw [leadingFlags, if_neg]
      rintro ⟨rfl, plain⟩
      exact clear ⟨c, rest, rfl, plain⟩

section
variable {Parser Heard : Type} {parse : Parser → Bytes → ParseOut Parser}
  {callback : Heard → AxdrCapture → Heard}

def unlogged (p : Parsing (Parser × List Call) Heard) : Parsing Parser Heard :=
  ⟨p.cycle, p.offset, p.objects, p.parser.1, p.heard⟩

theorem decode_buffer_unlogged (parser : Parser) (cycle : Bytes) (heard : Heard) :
    decodeBuffer parse callback parser cycle heard =
      unlogged (decodeBuffer (logged parse) callback (parser, []) cycle heard) :=
  parse_loop_view unlogged (fun _ => ⟨rfl, rfl⟩) (fun _ => rfl) _
    ⟨cycle, leadingFlags cycle, 0, (parser, []), heard⟩

variable (parse callback) in
/-- What the loop hands out and logs from here on is what the parser reads of the rest. -/
theorem loop_reads (fuel : Nat) (p : Parsing (Parser × List Call) Heard)
    (enough : p.cycle.length - p.offset ≤ fuel) :
    ∃ handed, (parseLoop (logged parse) callback fuel p).parser.2 = p.parser.2 ++ handed ∧
      Reads parse p.parser.1 (p.cycle.drop p.offset) handed ∧
      HandedFrom (p.cycle, p.offset) handed := by
  induction fuel generalizing p with
  | zero =>
    have used : p.cycle.drop p.offset = [] := List.drop_of_length_le (by omega)
    rw [used]
    exact ⟨[], by simp [parseLoop], .used, trivial⟩
  | succ fuel ih =>
    by_cases more : p.offset < p.cycle.length
    · have some : p.cycle.drop p.offset ≠ [] := by simpa using more
      have room : p.offset ≤ p.cycle.length := Nat.le_of_lt more
      let c := callOf parse p.parser.1 (p.cycle.drop p.offset)
      let next := (parseStep (logged parse) callback p).1
      have written : c.written = (parse p.parser.1 (p.cycle.drop p.offset)).span.take
          (p.cycle.length - p.offset) := by simp [c, callOf]
      have size : next.cycle.length = p.cycle.length := parse_step_cycle_length room
      have answered : (parseStep (logged parse) callback p).2 = c.consumed := rfl
      have moved : next.offset = p.offset + c.consumed := rfl
      have buffer : next.cycle = poke p.cycle p.offset c.written := by rw [written]; rfl
      by_cases stays : c.consumed = 0
      · refine ⟨[c], ?_, .stuck some stays, rfl, some, trivial⟩
        rw [parse_loop_more more, answered, if_pos stays]
        rfl
      · obtain ⟨handed, log, reads, spans⟩ := ih next (by omega)
        have rest : next.cycle.drop next.offset = c.unread := by
          rw [buffer, moved, ← List.drop_drop, poke_drop room]
          rfl
        refine ⟨c :: handed, ?_, .onward some stays (rest ▸ reads), rfl, some, ?_⟩
        · rw [parse_loop_more more, answered, if_neg stays, log, ← List.singleton_append,
            ← List.append_assoc]
          rfl
        · rw [Call.advance, ← buffer, ← moved]
          exact spans
    · have used : p.cycle.drop p.offset = [] := List.drop_of_length_le (by omega)
      rw [used, parse_loop_used more]
      exact ⟨[], by simp, .used, trivial⟩

variable (parse callback) in
theorem calls_read (parser : Parser) (cycle : Bytes) (heard : Heard) :
    Reads parse parser (cycle.drop (leadingFlags cycle)) (calls parse callback parser cycle heard) ∧
      HandedFrom (cycle, leadingFlags cycle) (calls parse callback parser cycle heard) := by
  obtain ⟨handed, log, reads, spans⟩ := loop_reads parse callback
    cycle.length ⟨cycle, leadingFlags cycle, 0, (parser, []), heard⟩ (Nat.sub_le _ _)
  have same : calls parse callback parser cycle heard = handed := log
  rw [same]
  exact ⟨reads, spans⟩

theorem reads_unique {parser : Parser} {span : Bytes} {first second : List Call}
    (one : Reads parse parser span first) (other : Reads parse parser span second) :
    first = second := by
  induction one generalizing second with
  | used =>
    cases other with
    | used => rfl
    | stuck some => exact absurd rfl some
    | onward some => exact absurd rfl some
  | stuck some stays =>
    cases other with
    | used => exact absurd rfl some
    | stuck => rfl
    | onward _ moves => exact absurd stays moves
  | onward some moves tail ih =>
    cases other with
    | used => exact absurd rfl some
    | stuck _ stays => exact absurd stays moves
    | onward _ _ rest => rw [ih rest]

theorem reads_first {parser : Parser} {span : Bytes} {handed : List Call}
    (reads : Reads parse parser span handed) (bare : BareFlag span) :
    ∃ c ∈ handed, BareFlag c.span := by
  cases reads with
  | used => simp [BareFlag] at bare
  | stuck => exact ⟨_, List.mem_singleton_self _, bare⟩
  | onward => exact ⟨_, List.mem_cons_self, bare⟩

theorem reads_trimmed_iff {parser : Parser} {span : Bytes} {handed : List Call}
    (reads : Reads parse parser span handed) (first : ¬ BareFlag span) :
    (∀ c ∈ handed, ¬ BareFlag c.span) ↔
      ∀ c ∈ handed, c.consumed ≠ 0 → ¬ BareFlag c.unread := by
  induction reads with
  | used => simp
  | @stuck parser span some stays =>
    have clear : ¬ BareFlag (callOf parse parser span).span := first
    simp [clear, stays]
  | @onward parser span rest some moves tail ih =>
    have clear : ¬ BareFlag (callOf parse parser span).span := first
    by_cases stop : BareFlag (callOf parse parser span).unread
    · have opened : ∃ c ∈ rest, BareFlag c.span := reads_first tail stop
      obtain ⟨c, member, bare⟩ := opened
      constructor
      · intro trimmed
        exact absurd bare (trimmed c (List.mem_cons_of_mem _ member))
      · intro stops
        exact absurd stop (stops _ List.mem_cons_self moves)
    · simp only [List.forall_mem_cons, clear, stop, not_false_eq_true, true_and, implies_true]
      exact ih stop

theorem stops_clear_iff {parser : Parser} {span : Bytes} {handed : List Call}
    (reads : Reads parse parser span handed) :
    StopsClear parse parser span ↔ ∀ c ∈ handed, c.consumed ≠ 0 → ¬ BareFlag c.unread := by
  constructor
  · intro clear
    exact clear handed reads
  · intro clear others reading
    rw [reads_unique reading reads]
    exact clear

theorem decode_buffer_ends (parser : Parser) (cycle : Bytes) (heard : Heard) (more : Nat) :
    parseLoop parse callback (cycle.length + more) ⟨cycle, leadingFlags cycle, 0, parser, heard⟩ =
      decodeBuffer parse callback parser cycle heard := by
  induction more with
  | zero => rfl
  | succ more ih =>
    have enough : cycle.length - leadingFlags cycle ≤ cycle.length + more := by omega
    rw [← Nat.add_assoc, parse_loop_enough (cycle.length + more) _ enough]
    exact ih

variable (parse callback) in
theorem hands_trimmed_iff (parser : Parser) (cycle : Bytes) (heard : Heard) :
    HandsTrimmed parse callback parser cycle heard ↔
      StopsClear parse parser (cycle.drop (leadingFlags cycle)) := by
  obtain ⟨reads, spans⟩ := calls_read parse callback parser cycle heard
  have clear : ¬ BareFlag (cycle.drop (leadingFlags cycle)) := leading_flags_bare cycle
  rw [stops_clear_iff reads, ← reads_trimmed_iff reads clear]
  constructor
  · intro hands
    exact hands.trimmed
  · intro trimmed
    exact ⟨decode_buffer_ends parser cycle heard, spans, trimmed⟩

theorem reads_stops {parser : Parser} {span : Bytes} {handed : List Call}
    (reads : Reads parse parser span handed) (first : ¬ BareFlag span)
    (keeps : ∀ parser span, ¬ BareFlag span → (callOf parse parser span).consumed ≠ 0 →
      ¬ BareFlag (callOf parse parser span).unread) :
    ∀ c ∈ handed, c.consumed ≠ 0 → ¬ BareFlag c.unread := by
  induction reads with
  | used => simp
  | stuck some stays => simp [stays]
  | onward some moves tail ih =>
    have next := keeps _ _ first moves
    simp only [List.forall_mem_cons]
    exact ⟨fun _ => next, ih next⟩

/-- Every buffer is handed out trimmed exactly when the parser, given a span that begins with
    no bare flag, never leaves one. -/
theorem hands_trimmed_always_iff (heard : Heard) :
    (∀ parser cycle, HandsTrimmed parse callback parser cycle heard) ↔
      ∀ parser span, ¬ BareFlag span → (callOf parse parser span).consumed ≠ 0 →
        ¬ BareFlag (callOf parse parser span).unread := by
  simp only [hands_trimmed_iff]
  constructor
  · intro clear parser span first moves
    have stops := clear parser span
    have reads := (calls_read parse callback parser span heard).1
    rw [leading_flags_none first, List.drop_zero] at stops reads
    generalize calls parse callback parser span heard = handed at reads
    cases reads with
    | used => simp [Call.unread, Call.left, callOf, BareFlag, poke]
    | stuck _ stays => exact absurd stays moves
    | onward some moves tail => exact stops _ (.onward some moves tail) _ List.mem_cons_self moves
  · intro keeps parser cycle handed reads
    exact reads_stops reads (leading_flags_bare cycle) keeps

end

def takeFrame (parser : Unit) (span : Bytes) : ParseOut Unit where
  captures := []
  count := 1
  bytesConsumed := min span.length ((span.tail.takeWhile (· ≠ flag)).length + 2)
  span := span
  parser := parser

def idleBetween : Bytes := [0x7E, 0xA0, 0x01, 0x7E, 0x7E, 0x7E, 0xA0, 0x02, 0x7E]

/-- The first frame taken, the parser is handed `7E 7E A0`. -/
theorem bare_flag_handed_out : ¬ HandsTrimmed takeFrame record () idleBetween [] := by
  intro hands
  have handed : ⟨[0x7E, 0x7E, 0xA0, 0x02, 0x7E], [0x7E, 0x7E, 0xA0, 0x02, 0x7E], 2⟩ ∈
      calls takeFrame record () idleBetween [] := by decide
  exact hands.trimmed _ handed ⟨0x7E, [0xA0, 0x02, 0x7E], rfl, by decide⟩

end GplugParseSpans
