import Mathlib.Data.List.Basic
import Mathlib.Tactic.Common
import GplugMini.LineProbe

/- The line settings of the meter's UART, tried in turn while nothing is heard. -/
namespace GplugLineSettings
open ByteText EmittingRun GplugDecode GplugFraming GplugMainLoop GplugLineProbe

inductive Parity where
  | even
  | disable
  deriving DecidableEq, Repr

structure LineConfig where
  parity : Parity
  invert : Bool
  name : Bytes
  deriving DecidableEq, Repr

def candidates : List LineConfig :=
  [⟨.even, true, ascii "8E1 inverted (interface spec)"⟩, ⟨.even, false, ascii "8E1 normal"⟩,
    ⟨.disable, true, ascii "8N1 inverted"⟩, ⟨.disable, false, ascii "8N1 normal"⟩]

/-- The settings in force, beside the variables of meter_uart.cpp. -/
structure Uart where
  candidate : Nat
  driverInstalled : Bool
  line : Option LineConfig
  deriving DecidableEq, Repr

def Uart.apply (u : Uart) (c : Option LineConfig) : Uart :=
  { u with driverInstalled := true, line := c }

def Uart.start : Uart := Uart.apply ⟨0, false, none⟩ candidates[0]?

def Uart.tryNextLine (u : Uart) : Uart :=
  let candidate := (u.candidate + 1) % candidates.length
  Uart.apply { u with candidate } candidates[candidate]?

def Uart.heed (u : Uart) : Output → Uart
  | .nextLine => u.tryNextLine
  | _ => u

structure Tuning where
  line : Option LineConfig
  cycle : Boundary
  deriving DecidableEq, Repr

def Tuning.Unheard (t : Tuning) : Prop := t.cycle.objects = 0 ∧ framed t.cycle.left = false

instance (t : Tuning) : Decidable t.Unheard := inferInstanceAs (Decidable (_ ∧ _))

section
variable {Parser : Type} (parse : Parser → Bytes → ParseOut Parser) (mac : Bytes)

def tune (s : LoopState Parser × Uart) (p : Pass) : (LoopState Parser × Uart) × List Tuning :=
  (((pass parse mac s.1 p).1, (pass parse mac s.1 p).2.foldl Uart.heed s.2),
    if AtBoundary s.1 p then [⟨s.2.line, boundary parse mac s.1 p⟩] else [])

def tunings (micros : Nat) (parser : Parser) (passes : List Pass) : List Tuning :=
  emitted (tune parse mac) (.boot micros parser, .start) passes

end

/-- Wrong settings, so many of them left to try and so many unheard cycles counted, and the
    right ones from then on. Each wrong one takes two cycles, and two more for each cycle in
    which something is heard on it. -/
structure Settled (right left pending : Nat) (wrong locked : List Tuning) : Prop where
  tried : ∀ t ∈ wrong, ∃ i < right, t.line = candidates[i]?
  stays : ∀ t ∈ locked, t.line = candidates[right]?
  bound : wrong.length + pending ≤ 2 * left + 2 * wrong.countP fun t => ¬ t.Unheard
  unheard : (∀ t ∈ wrong, t.Unheard) → locked ≠ [] → wrong.length + pending = 2 * left

def Settles (right left pending : Nat) (tunings : List Tuning) : Prop :=
  ∃ wrong locked, tunings = wrong ++ locked ∧ Settled right left pending wrong locked

section
variable {right left pending : Nat} {t : Tuning} {tunings : List Tuning}

end

section
variable {Parser : Type} {parse : Parser → Bytes → ParseOut Parser} {mac : Bytes}

end

end GplugLineSettings
