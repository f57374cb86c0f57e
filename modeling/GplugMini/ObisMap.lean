import Mathlib.Data.List.Dedup
import Mathlib.Tactic.Common
import GplugMini.Library.DecimalText

/- The OBIS table: which codes the build publishes, under which label, unit and kind. -/
namespace GplugObisMap
open ByteText DecimalText

inductive Kind where
  | unknown
  | identity
  | instant
  | cumulative
  | timestamp
  deriving DecidableEq, Repr

structure ObisEntry where
  obis : Bytes
  label : Bytes
  unit : Bytes
  kind : Kind
  deriving DecidableEq, Repr

def logicalDeviceName : Bytes := ascii "0.0.42.0.0.255"
def deviceId1 : Bytes := ascii "0.0.96.1.0.255"
def deviceId2 : Bytes := ascii "0.0.96.1.1.255"

def table : List ObisEntry := [
  ⟨logicalDeviceName, ascii "meter_serial", ascii "", .identity⟩,
  ⟨deviceId1, ascii "meter_serial", ascii "", .identity⟩,
  ⟨deviceId2, ascii "device_id_2", ascii "", .identity⟩,
  ⟨ascii "0.0.1.0.0.255", ascii "meter_clock", ascii "", .timestamp⟩,
  ⟨ascii "1.0.1.7.0.255", ascii "active_power_plus", ascii "W", .instant⟩,
  ⟨ascii "1.0.2.7.0.255", ascii "active_power_minus", ascii "W", .instant⟩,
  ⟨ascii "1.0.3.7.0.255", ascii "reactive_power_plus", ascii "var", .instant⟩,
  ⟨ascii "1.0.4.7.0.255", ascii "reactive_power_minus", ascii "var", .instant⟩,
  ⟨ascii "1.0.13.7.0.255", ascii "power_factor", ascii "", .instant⟩,
  ⟨ascii "1.1.1.8.0.255", ascii "active_energy_plus", ascii "Wh", .cumulative⟩,
  ⟨ascii "1.1.2.8.0.255", ascii "active_energy_minus", ascii "Wh", .cumulative⟩,
  ⟨ascii "1.1.5.8.0.255", ascii "reactive_energy_q1", ascii "varh", .cumulative⟩,
  ⟨ascii "1.1.6.8.0.255", ascii "reactive_energy_q2", ascii "varh", .cumulative⟩,
  ⟨ascii "1.1.7.8.0.255", ascii "reactive_energy_q3", ascii "varh", .cumulative⟩,
  ⟨ascii "1.1.8.8.0.255", ascii "reactive_energy_q4", ascii "varh", .cumulative⟩]

/-- The first entry whose code is the same string, as strcmp sees it. -/
def obisLookup (obis : Bytes) : Option ObisEntry := table.find? fun e => e.obis = obis

def obisIsIdentity (obis : Bytes) : Bool :=
  match obisLookup obis with
  | some e => e.kind = .identity
  | none => false

def labels : List Bytes := (table.map ObisEntry.label).dedup

theorem lookup_mem {obis : Bytes} {e : ObisEntry} (found : obisLookup obis = some e) : e ∈ table :=
  List.mem_of_find?_eq_some found

theorem lookup_obis {obis : Bytes} {e : ObisEntry} (found : obisLookup obis = some e) :
    e.obis = obis := by
  have := List.find?_some found
  simpa using this

theorem label_mem {e : ObisEntry} (member : e ∈ table) : e.label ∈ labels :=
  List.mem_dedup.mpr (List.mem_map_of_mem member)

theorem labels_bare : ∀ label ∈ labels, label.length < 28 ∧ ∀ b ∈ label, Bare b := by decide

theorem labels_count : labels.length = 14 := by decide

theorem label_kind : ∀ d ∈ table, ∀ e ∈ table, d.label = e.label → d.kind = e.kind := by decide

/-- The table calls three codes an identity, one more than obisIsIdentity is declared for. -/
theorem identity_codes (obis : Bytes) :
    obisIsIdentity obis = true ↔
      obis = logicalDeviceName ∨ obis = deviceId1 ∨ obis = deviceId2 := by
  constructor
  · intro identity
    unfold obisIsIdentity at identity
    split at identity
    · rename_i e found
      have listed : ∀ e ∈ table, e.kind = .identity →
          e.obis = logicalDeviceName ∨ e.obis = deviceId1 ∨ e.obis = deviceId2 := by decide
      have := listed e (lookup_mem found) (by simpa using identity)
      rwa [lookup_obis found] at this
    · simp at identity
  · rintro (rfl | rfl | rfl) <;> decide

end GplugObisMap
