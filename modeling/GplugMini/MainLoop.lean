import Mathlib.Tactic.Common
import Mathlib.Tactic.SplitIfs
import GplugMini.Framing
import GplugMini.PublishCycle
import GplugMini.MeterSerial
import GplugMini.Receive

/- The main loop pass by pass. The parser is a parameter: whatever it hands to its callback,
   counts, consumes or rewrites, and whatever it keeps for its next call. -/
namespace GplugMainLoop
open ByteText CallTree EmittingRun GplugAggregator GplugDecode GplugFraming GplugMeterSerial
open GplugHaDiscovery GplugPublishCycle GplugReceive

structure ParseOut (Parser : Type) where
  captures : List AxdrCapture
  count : Nat
  bytesConsumed : Nat
  span : Bytes
  parser : Parser

structure Parsing (Parser Heard : Type) where
  cycle : Bytes
  offset : Nat
  objects : Nat
  parser : Parser
  heard : Heard

section
variable {Parser Heard : Type} (parse : Parser → Bytes → ParseOut Parser)
  (callback : Heard → AxdrCapture → Heard)

def parseStep (p : Parsing Parser Heard) : Parsing Parser Heard × Nat :=
  let out := parse p.parser (p.cycle.drop p.offset)
  ({ cycle := poke p.cycle p.offset (out.span.take (p.cycle.length - p.offset))
     offset := p.offset + out.bytesConsumed
     objects := p.objects + out.count
     parser := out.parser
     heard := out.captures.foldl callback p.heard }, out.bytesConsumed)

def parseLoop : Nat → Parsing Parser Heard → Parsing Parser Heard
  | 0, p => p
  | fuel + 1, p =>
      if p.offset < p.cycle.length then
        let (next, consumed) := parseStep parse callback p
        if consumed = 0 then next else parseLoop fuel next
      else p

def decodeBuffer (parser : Parser) (cycle : Bytes) (heard : Heard) : Parsing Parser Heard :=
  parseLoop parse callback cycle.length ⟨cycle, leadingFlags cycle, 0, parser, heard⟩

end

structure LoopState (Parser : Type) where
  rx : Receiver
  parser : Parser
  decode : DecodeState
  undecoded : Nat
  discoverySession : UInt32

structure Pass where
  read : Read
  connected : Bool
  compared : UInt32
  latched : UInt32

inductive Output where
  | discovery (topic payload : Bytes)
  | state (payload : Bytes)
  | pulse
  | nextLine
  deriving DecidableEq, Repr

def answer (p : Pass) (s : UInt32 × List Output) : (op : LoopOp) → op.Answer × UInt32 × List Output
  | .mqttConnected => (p.connected, s)
  | .sessionDiffers => (s.1 != p.compared, s)
  | .publishDiscovery topic payload => ((), s.1, s.2 ++ [.discovery topic payload])
  | .latchSession => ((), p.latched, s.2)
  | .publishState payload => ((), s.1, s.2 ++ [.state payload])
  | .indicatePublish => ((), s.1, s.2 ++ [.pulse])

/-- Two cycles in a row without an object and without framing move the line settings on. -/
def probe (undecoded objects : Nat) (cycle : Bytes) : Nat × List Output :=
  if objects ≠ 0 then (0, [])
  else if framed cycle then (0, [])
  else if 2 ≤ undecoded + 1 then (0, [.nextLine])
  else (undecoded + 1, [])

section
variable {Parser : Type} (parse : Parser → Bytes → ParseOut Parser) (mac : Bytes)

def LoopState.boot (micros : Nat) (parser : Parser) : LoopState Parser where
  rx := .boot micros
  parser := parser
  decode := .boot
  undecoded := 0
  discoverySession := 0

def endCycle (s : LoopState Parser) (p : Pass) : LoopState Parser × List Output :=
  let parsed := decodeBuffer parse onValue s.parser s.rx.cycle s.decode.startCycle
  let probed := probe s.undecoded parsed.objects parsed.cycle
  let decoded := parsed.heard
  let (set, session, sent) :=
    (publishCycle mac decoded.meterSerial decoded.cycleSet).run (answer p)
      (s.discoverySession, probed.2)
  ({ rx := s.rx.clear
     parser := parsed.parser
     decode := { decoded with cycleSet := set }
     undecoded := probed.1
     discoverySession := session }, sent)

def pass (s : LoopState Parser) (p : Pass) : LoopState Parser × List Output :=
  if p.read.bytes ≠ [] then ({ s with rx := s.rx.insert p.read }, [])
  else if s.rx.ended p.read then endCycle parse mac s p
  else (s, [])

end

section
variable {Parser Heard : Type} {parse : Parser → Bytes → ParseOut Parser}
  {callback : Heard → AxdrCapture → Heard}

theorem parse_step_cycle_length {p : Parsing Parser Heard} (inside : p.offset ≤ p.cycle.length) :
    (parseStep parse callback p).1.cycle.length = p.cycle.length := by
  apply poke_length
  rw [List.length_take]
  omega

theorem parse_loop_more {p : Parsing Parser Heard} (more : p.offset < p.cycle.length) (fuel : Nat) :
    parseLoop parse callback (fuel + 1) p =
      if (parseStep parse callback p).2 = 0 then (parseStep parse callback p).1
      else parseLoop parse callback fuel (parseStep parse callback p).1 := by
  rw [parseLoop, if_pos more]

theorem parse_loop_used {p : Parsing Parser Heard} (used : ¬ p.offset < p.cycle.length)
    (fuel : Nat) : parseLoop parse callback fuel p = p := by
  cases fuel with
  | zero => rfl
  | succ fuel => rw [parseLoop, if_neg used]

theorem parse_loop_keeps {Kept : Parsing Parser Heard → Prop}
    (step : ∀ p, p.offset < p.cycle.length → Kept p → Kept (parseStep parse callback p).1)
    (fuel : Nat) {p : Parsing Parser Heard} (held : Kept p) :
    Kept (parseLoop parse callback fuel p) := by
  induction fuel generalizing p with
  | zero => exact held
  | succ fuel ih =>
    by_cases more : p.offset < p.cycle.length
    · have next := step p more held
      rw [parse_loop_more more]
      by_cases stuck : (parseStep parse callback p).2 = 0
      · rw [if_pos stuck]
        exact next
      · rw [if_neg stuck]
        exact ih next
    · rw [parse_loop_used more]
      exact held

/-- The buffer's length is fuel enough: more of it changes nothing. -/
theorem parse_loop_enough (fuel : Nat) (p : Parsing Parser Heard)
    (enough : p.cycle.length - p.offset ≤ fuel) :
    parseLoop parse callback (fuel + 1) p = parseLoop parse callback fuel p := by
  induction fuel generalizing p with
  | zero =>
    have used : ¬ p.offset < p.cycle.length := by omega
    rw [parse_loop_used used, parse_loop_used used]
  | succ fuel ih =>
    by_cases more : p.offset < p.cycle.length
    · rw [parse_loop_more more, parse_loop_more more]
      have size : (parseStep parse callback p).1.cycle.length = p.cycle.length :=
        parse_step_cycle_length (Nat.le_of_lt more)
      by_cases stuck : (parseStep parse callback p).2 = 0
      · simp [stuck]
      · have moved : (parseStep parse callback p).1.offset =
            p.offset + (parseStep parse callback p).2 := rfl
        simp only [stuck, ↓reduceIte]
        exact ih _ (by omega)
    · rw [parse_loop_used more, parse_loop_used more]

def record (heard : List AxdrCapture) (c : AxdrCapture) : List AxdrCapture := heard ++ [c]

def Parsing.replay (callback : Heard → AxdrCapture → Heard) (first : Heard)
    (p : Parsing Parser (List AxdrCapture)) : Parsing Parser Heard :=
  { p with heard := p.heard.foldl callback first }

theorem record_all (heard captures : List AxdrCapture) :
    captures.foldl record heard = heard ++ captures := by
  induction captures generalizing heard with
  | nil => simp
  | cons c captures ih => simp [record, ih]

theorem parse_step_replay (first : Heard) (p : Parsing Parser (List AxdrCapture)) :
    parseStep parse callback (p.replay callback first) =
      ((parseStep parse record p).1.replay callback first, (parseStep parse record p).2) := by
  simp [parseStep, Parsing.replay, record_all]

/-- A view of the parse loop's variables that each step respects is respected by the loop. -/
theorem parse_loop_view {Parser' Heard' : Type} {parse' : Parser' → Bytes → ParseOut Parser'}
    {callback' : Heard' → AxdrCapture → Heard'}
    (view : Parsing Parser' Heard' → Parsing Parser Heard)
    (buffer : ∀ p, (view p).cycle = p.cycle ∧ (view p).offset = p.offset)
    (step : ∀ p, parseStep parse callback (view p) =
      (view (parseStep parse' callback' p).1, (parseStep parse' callback' p).2))
    (fuel : Nat) (p : Parsing Parser' Heard') :
    parseLoop parse callback fuel (view p) = view (parseLoop parse' callback' fuel p) := by
  induction fuel generalizing p with
  | zero => rfl
  | succ fuel ih =>
    obtain ⟨cycle, offset⟩ := buffer p
    by_cases more : p.offset < p.cycle.length
    · have seen : (view p).offset < (view p).cycle.length := by rwa [cycle, offset]
      rw [parse_loop_more seen, parse_loop_more more, step]
      by_cases stuck : (parseStep parse' callback' p).2 = 0
      · simp [stuck]
      · simp [stuck, ih]
    · have seen : ¬ (view p).offset < (view p).cycle.length := by rwa [cycle, offset]
      rw [parse_loop_used seen, parse_loop_used more]

/-- The parser does not see its callback: it delivers the same captures to any. -/
theorem parse_loop_replay (first : Heard) (fuel : Nat) (p : Parsing Parser (List AxdrCapture)) :
    parseLoop parse callback fuel (p.replay callback first) =
      (parseLoop parse record fuel p).replay callback first :=
  parse_loop_view (Parsing.replay callback first) (fun _ => ⟨rfl, rfl⟩) (parse_step_replay first)
    fuel p

theorem decode_buffer_replay (parser : Parser) (cycle : Bytes) (first : Heard) :
    decodeBuffer parse callback parser cycle first =
      (decodeBuffer parse record parser cycle []).replay callback first :=
  parse_loop_replay first _ ⟨cycle, leadingFlags cycle, 0, parser, []⟩

theorem decode_buffer_heard (parser : Parser) (cycle : Bytes) (first : Heard) :
    (decodeBuffer parse callback parser cycle first).heard =
      (decodeBuffer parse record parser cycle []).heard.foldl callback first := by
  rw [decode_buffer_replay]
  rfl

theorem decode_buffer_parser_left (parser : Parser) (cycle : Bytes) (first : Heard) :
    (decodeBuffer parse callback parser cycle first).parser =
      (decodeBuffer parse record parser cycle []).parser := by
  rw [decode_buffer_replay]
  rfl

end

/- What publish_cycle sends in one pass. -/

def stateText : Output → Option Bytes
  | .state payload => some payload
  | _ => none

theorem announce_run (mac serial : Bytes) (p : Pass) (codes : List Bytes)
    (s : UInt32 × List Output) :
    (announce mac serial codes).run (answer p) s = ((), s.1, s.2 ++
      (codes.filterMap (config mac serial)).map fun c => .discovery c.1 c.2) := by
  induction codes generalizing s with
  | nil => simp [announce]
  | cons obis rest ih =>
    rw [announce]
    cases found : config mac serial obis with
    | none => simp [found, ih]
    | some built => simp [found, ih, answer]

theorem probe_states (undecoded objects : Nat) (cycle : Bytes) :
    (probe undecoded objects cycle).2.filterMap stateText = [] := by
  unfold probe
  split_ifs <;> rfl

/-- The cycle's set goes out when the broker is connected, the serial known and something
    was decoded. -/
def GoesOut (p : Pass) (meterSerial : Bytes) (set : CycleSet) : Prop :=
  p.connected = true ∧ meterSerial.headD 0 ≠ 0 ∧ set.empty = false

instance (p : Pass) (meterSerial : Bytes) (set : CycleSet) :
    Decidable (GoesOut p meterSerial set) :=
  inferInstanceAs (Decidable (_ ∧ _ ∧ _))

theorem publish_set_run (set : CycleSet) (p : Pass) (s : UInt32 × List Output) :
    (publishSet set).run (answer p) s =
      if set.empty then (set, s)
      else (set.json.1, s.1, s.2 ++ [.state set.json.2] ++ [.pulse]) := by
  unfold publishSet
  split <;> simp [answer]

theorem publish_set_states (set : CycleSet) (p : Pass) (s : UInt32 × List Output) :
    ((publishSet set).run (answer p) s).2.2.filterMap stateText = s.2.filterMap stateText ++
        (if set.empty = false then [set.json.2] else []) ∧
      (((publishSet set).run (answer p) s).1 = set ∨
        ((publishSet set).run (answer p) s).1 = set.json.1) := by
  rw [publish_set_run]
  cases set.empty <;> simp [stateText]

theorem announced_states (configs : List (Bytes × Bytes)) :
    (configs.map fun c => Output.discovery c.1 c.2).filterMap stateText = [] := by
  simp [List.filterMap_map, Function.comp_def, stateText]

theorem publish_cycle_states (mac meterSerial : Bytes) (set : CycleSet) (p : Pass)
    (s : UInt32 × List Output) :
    ((publishCycle mac meterSerial set).run (answer p) s).2.2.filterMap stateText =
        s.2.filterMap stateText ++ (if GoesOut p meterSerial set then [set.json.2] else []) ∧
      (((publishCycle mac meterSerial set).run (answer p) s).1 = set ∨
        ((publishCycle mac meterSerial set).run (answer p) s).1 = set.json.1) := by
  unfold publishCycle
  simp only [bind_eq, perform_bind, run_call, answer]
  by_cases up : p.connected = true
  · by_cases unknown : meterSerial.headD 0 = 0
    · have kept : ¬ GoesOut p meterSerial set := fun out => out.2.1 unknown
      simp only [up, unknown, kept, Bool.not_true, Bool.false_eq_true, ↓reduceIte, pure_eq_ret,
        run_ret, List.append_nil, true_or, and_self]
    · have out : GoesOut p meterSerial set ↔ set.empty = false :=
        ⟨fun out => out.2.2, fun some => ⟨up, unknown, some⟩⟩
      simp only [up, Bool.not_true, Bool.false_eq_true, ↓reduceIte, unknown, run_call, answer, out]
      by_cases differs : (s.1 != p.compared) = true
      · simp only [differs, ↓reduceIte, run_bind, announce_run, run_call, answer]
        have after := publish_set_states set p (p.latched, s.2 ++
          (promoted.filterMap (config mac (cstr meterSerial))).map fun c => .discovery c.1 c.2)
        rwa [List.filterMap_append, announced_states, List.append_nil] at after
      · simp only [differs, Bool.false_eq_true, ↓reduceIte]
        exact publish_set_states set p s
  · have kept : ¬ GoesOut p meterSerial set := fun out => up out.1
    simp only [up, kept, Bool.not_false, ↓reduceIte, pure_eq_ret, run_ret, List.append_nil,
      true_or, and_self]

end GplugMainLoop
