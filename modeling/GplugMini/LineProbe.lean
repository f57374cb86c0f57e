import Mathlib.Data.List.Basic
import Mathlib.Tactic.Common
import GplugMini.MainLoop

/- When the line settings are moved on, cycle by cycle. A run is watched at its cycle
   boundaries: what was received, what the parser left of it, and what the probe did. -/
namespace GplugLineProbe
open ByteText CallTree EmittingRun GplugDecode GplugFraming GplugMainLoop GplugPublishCycle
open GplugReceive

structure Boundary where
  received : Bytes
  left : Bytes
  objects : Nat
  moves : Nat
  deriving DecidableEq, Repr

def Boundary.Silent (b : Boundary) : Prop := b.objects = 0 ∧ framed b.received = false

/-- The parser's writing neither makes nor breaks the only framing of a cycle in which it
    decodes nothing. -/
def Boundary.FramingKept (b : Boundary) : Prop := b.objects = 0 → framed b.left = framed b.received

instance (b : Boundary) : Decidable b.FramingKept :=
  inferInstanceAs (Decidable (b.objects = 0 → framed b.left = framed b.received))

/-- A silent cycle that did not itself move the settings on. -/
def Counted (prev : Option Boundary) : Prop := ∃ b ∈ prev, b.Silent ∧ b.moves = 0

def LawfulFrom : Option Boundary → List Boundary → Prop
  | _, [] => True
  | prev, b :: rest =>
      b.moves ≤ 1 ∧ (b.moves = 1 ↔ b.Silent ∧ Counted prev) ∧ LawfulFrom (some b) rest

def AtBoundary {Parser : Type} (s : LoopState Parser) (p : Pass) : Prop :=
  p.read.bytes = [] ∧ s.rx.ended p.read = true

instance {Parser : Type} (s : LoopState Parser) (p : Pass) : Decidable (AtBoundary s p) :=
  inferInstanceAs (Decidable (_ ∧ _))

section
variable {Parser : Type} (parse : Parser → Bytes → ParseOut Parser) (mac : Bytes)

def LoopState.parsed (s : LoopState Parser) : Parsing Parser DecodeState :=
  decodeBuffer parse onValue s.parser s.rx.cycle s.decode.startCycle

def boundary (s : LoopState Parser) (p : Pass) : Boundary where
  received := s.rx.cycle
  left := (LoopState.parsed parse s).cycle
  objects := (LoopState.parsed parse s).objects
  moves := (pass parse mac s p).2.count .nextLine

def watch (s : LoopState Parser) (p : Pass) : LoopState Parser × List Boundary :=
  ((pass parse mac s p).1, if AtBoundary s p then [boundary parse mac s p] else [])

def boundaries (micros : Nat) (parser : Parser) (passes : List Pass) : List Boundary :=
  emitted (watch parse mac) (.boot micros parser) passes

structure LawfulProbe (micros : Nat) (parser : Parser) (passes : List Pass) : Prop where
  elsewhere : ∀ before p after, passes = before ++ p :: after →
    ¬ AtBoundary (final (pass parse mac) (.boot micros parser) before) p →
    .nextLine ∉ (pass parse mac (final (pass parse mac) (.boot micros parser) before) p).2
  lawful : LawfulFrom none (boundaries parse mac micros parser passes)

end

section
variable {Parser : Type} {parse : Parser → Bytes → ParseOut Parser} {mac : Bytes}

theorem answers_move_nothing (p : Pass) (program : Calls α) (s : UInt32 × List Output) :
    (program.run (answer p) s).2.2.count .nextLine = s.2.count .nextLine := by
  have keeps : ∀ t op, t.2.count Output.nextLine = s.2.count .nextLine →
      (answer p t op).2.2.count .nextLine = s.2.count .nextLine := by
    intro t op same
    cases op <;> simp [answer, same]
  exact run_keeps keeps program rfl

theorem end_cycle_moves (s : LoopState Parser) (p : Pass) :
    (endCycle parse mac s p).2.count .nextLine =
      (probe s.undecoded (LoopState.parsed parse s).objects
        (LoopState.parsed parse s).cycle).2.count .nextLine :=
  answers_move_nothing p _ _

theorem pass_at_boundary {s : LoopState Parser} {p : Pass} (ends : AtBoundary s p) :
    pass parse mac s p = endCycle parse mac s p := by
  rw [GplugMainLoop.pass, if_neg (by simp [ends.1]), if_pos ends.2]

theorem pass_elsewhere {s : LoopState Parser} {p : Pass} (goes : ¬ AtBoundary s p) :
    (pass parse mac s p).2 = [] ∧ (pass parse mac s p).1.undecoded = s.undecoded := by
  unfold GplugMainLoop.pass
  by_cases returned : p.read.bytes ≠ []
  · simp [returned]
  · have quiet : p.read.bytes = [] := by simpa using returned
    have waits : ¬ s.rx.ended p.read = true := fun ended => goes ⟨quiet, ended⟩
    simp [returned, waits]

variable (parse mac) in
theorem pass_receives (s : LoopState Parser) (p : Pass) :
    (pass parse mac s p).1.rx = (s.rx.pass p.read).1 ∧
      (if AtBoundary s p then [s.rx.cycle] else []) = (s.rx.pass p.read).2 := by
  by_cases ends : AtBoundary s p
  · rw [pass_at_boundary ends, if_pos ends, Receiver.pass, if_neg (by simp [ends.1]),
      if_pos ends.2]
    exact ⟨rfl, rfl⟩
  · rw [if_neg ends, GplugMainLoop.pass, Receiver.pass]
    by_cases returned : p.read.bytes ≠ []
    · simp [returned]
    · have quiet : p.read.bytes = [] := by simpa using returned
      have waits : ¬ s.rx.ended p.read = true := fun ended => ends ⟨quiet, ended⟩
      simp [returned, waits]

theorem probe_cases (undecoded objects : Nat) (cycle : Bytes) :
    (¬ (objects = 0 ∧ framed cycle = false) ∧ probe undecoded objects cycle = (0, [])) ∨
      ((objects = 0 ∧ framed cycle = false) ∧
        ((undecoded = 0 ∧ probe undecoded objects cycle = (1, [])) ∨
          (undecoded ≠ 0 ∧ probe undecoded objects cycle = (0, [.nextLine])))) := by
  unfold probe
  by_cases decoded : objects ≠ 0
  · exact .inl ⟨fun silent => decoded silent.1, if_pos decoded⟩
  · rw [if_neg decoded]
    have none : objects = 0 := by simpa using decoded
    cases shows : framed cycle with
    | true => exact .inl (by simp)
    | false =>
      refine .inr ⟨⟨none, rfl⟩, ?_⟩
      rw [if_neg Bool.false_ne_true]
      by_cases first : undecoded = 0
      · exact .inl ⟨first, by simp [first]⟩
      · exact .inr ⟨first, if_pos (by omega)⟩

/-- The count stands at one exactly after a silent cycle that did not move the settings. -/
def Follows (prev : Option Boundary) (s : LoopState Parser) : Prop :=
  s.undecoded ≠ 0 ↔ Counted prev

theorem boundary_follows {prev : Option Boundary} {s : LoopState Parser} {p : Pass}
    (follows : Follows prev s) (ends : AtBoundary s p)
    (kept : (boundary parse mac s p).FramingKept) :
    (boundary parse mac s p).moves ≤ 1 ∧
      ((boundary parse mac s p).moves = 1 ↔ (boundary parse mac s p).Silent ∧ Counted prev) ∧
      Follows (some (boundary parse mac s p)) (pass parse mac s p).1 := by
  let parsed := LoopState.parsed parse s
  have moved : (boundary parse mac s p).moves =
      (probe s.undecoded parsed.objects parsed.cycle).2.count .nextLine := by
    have sent : (endCycle parse mac s p).2.count .nextLine = _ := end_cycle_moves s p
    rw [← sent, ← pass_at_boundary ends]
    rfl
  have next : (pass parse mac s p).1.undecoded =
      (probe s.undecoded parsed.objects parsed.cycle).1 := by
    rw [pass_at_boundary ends]
    rfl
  have silent : (boundary parse mac s p).Silent ↔
      parsed.objects = 0 ∧ framed parsed.cycle = false := by
    constructor
    · intro none
      exact ⟨none.1, (kept none.1).trans none.2⟩
    · intro none
      exact ⟨none.1, (kept none.1).symm.trans none.2⟩
  rw [Follows] at follows ⊢
  rcases probe_cases s.undecoded parsed.objects parsed.cycle with
    ⟨shows, did⟩ | ⟨none, ⟨first, did⟩ | ⟨second, did⟩⟩
  · rw [did] at moved next
    have heard : ¬ Counted (some (boundary parse mac s p)) := by simp [Counted, silent, shows]
    simp [moved, next, silent, shows, heard]
  · rw [did] at moved next
    have quiet : ¬ Counted prev := fun counted => follows.mpr counted first
    have counts : Counted (some (boundary parse mac s p)) := by
      simp [Counted, silent, none, moved]
    simp [moved, next, quiet, counts]
  · rw [did] at moved next
    have counted : Counted prev := follows.mp second
    have heard : ¬ Counted (some (boundary parse mac s p)) := by simp [Counted, moved]
    simp [moved, next, silent, none, counted, heard]

theorem run_lawful {passes : List Pass} {prev : Option Boundary} {s : LoopState Parser}
    (follows : Follows prev s) (kept : ∀ b ∈ emitted (watch parse mac) s passes, b.FramingKept) :
    LawfulFrom prev (emitted (watch parse mac) s passes) := by
  induction passes generalizing prev s with
  | nil => trivial
  | cons p passes ih =>
    rw [emitted, watch] at kept ⊢
    by_cases ends : AtBoundary s p
    · rw [if_pos ends, List.singleton_append] at kept ⊢
      obtain ⟨now, later⟩ := List.forall_mem_cons.mp kept
      obtain ⟨few, moved, next⟩ := boundary_follows follows ends now
      exact ⟨few, moved, ih next later⟩
    · rw [if_neg ends, List.nil_append] at kept ⊢
      have same : (pass parse mac s p).1.undecoded = s.undecoded := (pass_elsewhere ends).2
      have next : Follows prev (pass parse mac s p).1 := by rwa [Follows, same]
      exact ih next kept

theorem probe_lawful (micros : Nat) (parser : Parser) (passes : List Pass)
    (kept : ∀ b ∈ boundaries parse mac micros parser passes, b.FramingKept) :
    LawfulProbe parse mac micros parser passes := by
  constructor
  · intro before p after _ goes
    simp [(pass_elsewhere goes).1]
  · have start : Follows none (LoopState.boot micros parser) := by
      simp [Follows, Counted, LoopState.boot]
    exact run_lawful start kept

theorem parse_loop_untouched {Heard : Type} {callback : Heard → AxdrCapture → Heard}
    (untouched : ∀ parser span, (parse parser span).span = span) (fuel : Nat)
    (p : Parsing Parser Heard) : (parseLoop parse callback fuel p).cycle = p.cycle := by
  have step : ∀ q : Parsing Parser Heard, q.offset < q.cycle.length → q.cycle = p.cycle →
      (parseStep parse callback q).1.cycle = p.cycle := by
    intro q more same
    rw [← same]
    simp only [parseStep, untouched, ← List.length_drop, List.take_length, poke]
    rw [List.length_drop, Nat.add_sub_cancel' (Nat.le_of_lt more), List.drop_length,
      List.append_nil, List.take_append_drop]
  exact parse_loop_keeps step fuel rfl

theorem framing_kept_untouched (untouched : ∀ parser span, (parse parser span).span = span)
    (passes : List Pass) (s : LoopState Parser) :
    ∀ b ∈ emitted (watch parse mac) s passes, b.FramingKept := by
  induction passes generalizing s with
  | nil => simp
  | cons p passes ih =>
    rw [emitted, watch]
    intro b member
    rcases List.mem_append.mp member with now | later
    · obtain ⟨_, rfl⟩ : AtBoundary s p ∧ b = boundary parse mac s p := by simpa using now
      intro _
      exact congrArg framed (parse_loop_untouched untouched _ _)
    · exact ih _ b later

end

def closeUp (parser : Unit) (span : Bytes) : ParseOut Unit where
  captures := []
  count := 0
  bytesConsumed := span.length
  span := span.drop 2
  parser := parser

def quietAt (micros : Nat) : Pass := ⟨⟨[], micros⟩, false, 0, 0⟩

def burstAt (bytes : Bytes) (micros : Nat) : Pass := ⟨⟨bytes, micros⟩, false, 0, 0⟩

def cutShort : List Pass :=
  [burstAt [0x7E, 0xA0, 0x01, 0x02] 0, quietAt 3000000,
    burstAt [0x7E, 0xA0, 0x01, 0x02] 4000000, quietAt 7000000]

def noise : List Pass :=
  [burstAt [0x01, 0x02] 0, quietAt 3000000, burstAt [0x7E, 0x02] 4000000, quietAt 7000000]

theorem probe_lawful_noise :
    (boundaries closeUp [] 0 () noise).map Boundary.moves = [0, 1] ∧
      LawfulProbe closeUp [] 0 () noise :=
  ⟨by decide, probe_lawful 0 () noise (by decide)⟩

theorem framed_moved_on : ¬ LawfulProbe closeUp [] 0 () cutShort := by
  intro law
  have seen : boundaries closeUp [] 0 () cutShort =
      [⟨[0x7E, 0xA0, 0x01, 0x02], [0x01, 0x02, 0x01, 0x02], 0, 0⟩,
        ⟨[0x7E, 0xA0, 0x01, 0x02], [0x01, 0x02, 0x01, 0x02], 0, 1⟩] := by decide
  have lawful := law.lawful
  rw [seen] at lawful
  obtain ⟨_, _, _, moved, _⟩ := lawful
  have silent := (moved.mp rfl).1.2
  exact absurd silent (by decide)

end GplugLineProbe
