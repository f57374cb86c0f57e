import Mathlib.Data.List.Induction
import Mathlib.Tactic.Common
import GplugMini.BrokerSession
import GplugMini.Device

/- The supervisor's states as the handled events define them, the row of the indication
   table for each, and whether the indication in force is that row. -/
namespace GplugSupervisor
open ByteText EmittingRun GplugBrokerSession GplugDevice GplugMainLoop GplugNet GplugOta
open GplugIndicator (Indication)

inductive SupervisorState where
  | boot
  | provisioning
  | connecting
  | linked
  | operational
  | updating
  deriving DecidableEq, Repr

def row : SupervisorState → Indication
  | .boot => .boot
  | .provisioning => .provisioning
  | .connecting => .connecting
  | .linked => .linked
  | .operational => .operational
  | .updating => .updating

/-- The task of the download is past its first lines, where it indicates Updating. -/
def Past (d : Download) : Prop := d.phase ≠ .created ∧ d.phase ≠ .flagged

instance (d : Download) : Decidable (Past d) := inferInstanceAs (Decidable (_ ∧ _))

/-- A download is in progress from the first lines of its task to the last one of a task whose
    download failed, or to the restart. -/
def begun (s : Ota) : Bool := s.downloads.any (Past ·) || s.failed ≠ 0

def Ends (s : Ota) (h : Happening) : Prop := h = .ends ∧ s.failed ≠ 0

def EndsBeside (s : Ota) (h : Happening) : Prop :=
  Ends s h ∧ ((∃ d ∈ s.downloads, Past d) ∨ 2 ≤ s.failed)

section
variable {Parser : Type} (parse : Parser → Bytes → ParseOut Parser) (mac : Bytes)

/-- app_main past its boot section: whatever happened in it, it ends with an indication. -/
def leftBoot (boot : Device Parser) (prior : List Happening) : Device Parser :=
  let d := final (Device.step parse mac) boot prior
  { d with ota := { d.ota with indication := .operational } }

abbrev after (boot : Device Parser) (prior run : List Happening) : Device Parser :=
  final (Device.step parse mac) (leftBoot parse mac boot prior) run

end

/-- Two indications are ever shown, by whether a download has begun. -/
def Shows (s : Ota) : Prop := s.indication = if begun s then .updating else .operational

/-- What a step does to the indication: nothing, or raise it with a download that begins, or
    take it down at the end of one that failed. -/
inductive Shown (s : Ota) (h : Happening) (t : Ota) : Prop where
  | kept (other : ¬ Ends s h) (indication : t.indication = s.indication)
      (downloads : begun t = begun s)
  | raised (other : ¬ Ends s h) (indication : t.indication = .updating)
      (downloads : begun t = true)
  | lowered (ends : Ends s h) (indication : t.indication = .operational)
      (downloads : begun t = true ↔ EndsBeside s h)

section
variable {Parser : Type} (parse : Parser → Bytes → ParseOut Parser) (mac : Bytes)

end

section
variable {Parser : Type} (parse : Parser → Bytes → ParseOut Parser) (mac : Bytes)
variable {boot : Device Parser} {prior : List Happening}

end

def joined : List Happening :=
  [.event .staStart true works, .event .gotIp true works]

def lost : List Happening := [.event .staDisconnected true works]

end GplugSupervisor
