import Mathlib.Algebra.Order.Field.Basic
import Mathlib.Data.Rat.Cast.Order
import Mathlib.Tactic.Common
import GplugMini.PublicationTrace

/- What number a state message carries for a cumulative register. -/
namespace GplugPublishedTotals
open ByteText DecimalText FlatObject FirstOccurrence EmittingRun
open GplugObisMap GplugAggregator GplugDecode GplugMeterSerial GplugNet GplugReceive
open GplugMainLoop GplugPublicationTrace

def carried (message label : Bytes) : Option Nat := do
  let members ← readObject message
  let text ← members.lookup label
  decimalValue text

def scalerOf (c : AxdrCapture) : Int := if c.hasScalerUnit then c.scaler else 0

/-- The message carries the register's total: its integer times ten to its scaler. -/
def CarriesTotal (message label : Bytes) (c : AxdrCapture) : Prop :=
  ∃ n, carried message label = some n ∧ (n : ℚ) = bigEndian c.value * 10 ^ scalerOf c

/-- The first mapped numeric capture under its label in its cycle. -/
structure FirstTotal (captures : List AxdrCapture) (c : AxdrCapture) (entry : ObisEntry) :
    Prop where
  found : c.entry = some entry
  numeric : c.isNumeric = true
  total : entry.kind = .cumulative
  bytes : 1 ≤ c.value.length ∧ c.value.length ≤ 8
  first : ∃ before after, captures = before ++ c :: after ∧
    ∀ d ∈ before, ∀ m, offered d = some m → m.1 ≠ entry.label

def messageAfter {Parser : Type} (parse : Parser → Bytes → ParseOut Parser) (mac : Bytes)
    (boot : Nat) (parser : Parser) (passes : List Pass) (captures : List AxdrCapture) : Bytes :=
  (captures.foldl onValue
    (final (pass parse mac) (.boot boot parser) passes).decode.startCycle).cycleSet.json.2

theorem first_total_offers {captures : List AxdrCapture} {c : AxdrCapture} {entry : ObisEntry}
    (first : FirstTotal captures c entry) :
    (cycleMembers captures).lookup entry.label = some (decimal (bigEndian c.value)) := by
  obtain ⟨before, after, rfl, earlier⟩ := first.first
  have offer : offered c = some (entry.label, decimal (bigEndian c.value)) := by
    simp [offered, first.found, first.numeric, rendered_total first.total first.bytes.2]
  have absent : (before.filterMap offered).lookup entry.label = none := by
    rw [List.lookup_eq_none_iff]
    intro m member
    obtain ⟨d, arrived, same⟩ := List.mem_filterMap.mp member
    simpa using Ne.symm (earlier d arrived m same)
  rw [cycleMembers, first_wins_lookup, List.filterMap_append, List.lookup_append, absent]
  simp [offer]

theorem carried_total {s : DecodeState} (sound : Sound s.cycleSet) {captures : List AxdrCapture}
    {c : AxdrCapture} {entry : ObisEntry} (first : FirstTotal captures c entry)
    (whole : (objectText (cycleMembers captures)).length ≤ 510) :
    carried (captures.foldl onValue s.startCycle).cycleSet.json.2 entry.label =
      some (bigEndian c.value) := by
  have listed := first_total_offers first
  have nonempty : cycleMembers captures ≠ [] := by
    intro none
    rw [none] at listed
    simp at listed
  have tracked := on_values_track (s := s.startCycle) (clear_tracks sound) captures
  have message := (tracks_json tracked nonempty).mpr (by simp only [jsonSize]; omega)
  have members := read_object nonempty fun m member => (cycle_members_label member).2
  simp [carried, message, members, listed, decimal_value]

theorem scaled_iff (v : Nat) (s : Int) : (v : ℚ) = v * 10 ^ s ↔ v = 0 ∨ s = 0 := by
  by_cases zero : v = 0
  · simp [zero]
  · have nonzero : (v : ℚ) ≠ 0 := by exact_mod_cast zero
    rw [left_eq_mul₀ nonzero, zpow_eq_one_iff_right₀ (by norm_num) (by norm_num)]
    simp [zero]

/-- The published total is the meter's exactly when the scaler changes nothing. -/
theorem carries_total_iff {Parser : Type} (parse : Parser → Bytes → ParseOut Parser) (mac : Bytes)
    (boot : Nat) (parser : Parser) (passes : List Pass) {captures : List AxdrCapture}
    {c : AxdrCapture} {entry : ObisEntry} (first : FirstTotal captures c entry)
    (whole : (objectText (cycleMembers captures)).length ≤ 510) :
    CarriesTotal (messageAfter parse mac boot parser passes captures) entry.label c ↔
      bigEndian c.value = 0 ∨ scalerOf c = 0 := by
  have sound := (published_renders parse mac boot parser passes).2.sound
  have carries := carried_total sound first whole
  rw [← scaled_iff, CarriesTotal, messageAfter, carries]
  simp

def kilowattHours (hasScalerUnit : Bool) : AxdrCapture :=
  { register "1.1.1.8.0.255" [0x04, 0xD2] (.finite false 1234000 0) with
    hasScalerUnit, scaler := 3 }

def energyPlus : ObisEntry :=
  ⟨ascii "1.1.1.8.0.255", ascii "active_energy_plus", ascii "Wh", .cumulative⟩

theorem kilowatt_hours_first (hasScalerUnit : Bool) :
    FirstTotal [nameplate, kilowattHours hasScalerUnit] (kilowattHours hasScalerUnit)
      energyPlus where
  found := by cases hasScalerUnit <;> decide
  numeric := rfl
  total := rfl
  bytes := by cases hasScalerUnit <;> decide
  first := ⟨[nameplate], [], rfl, by
    intro d member m offer
    rw [List.mem_singleton.mp member] at offer
    exact absurd offer (by rw [show offered nameplate = none by decide]; simp)⟩

theorem carries_total_unscaled :
    CarriesTotal (messageAfter (replies []) (macText fun _ => 0) 0 () oneCycle
      [nameplate, kilowattHours false]) energyPlus.label (kilowattHours false) :=
  (carries_total_iff (replies []) (macText fun _ => 0) 0 () oneCycle (kilowatt_hours_first false)
    (by decide +kernel)).mpr (Or.inr rfl)

/-- 1234 with scaler 3 is 1234000 Wh, and is carried as 1234. -/
theorem scaler_ignored :
    carried (messageAfter (replies []) (macText fun _ => 0) 0 () oneCycle
        [nameplate, kilowattHours true]) energyPlus.label = some 1234 ∧
      ¬ CarriesTotal (messageAfter (replies []) (macText fun _ => 0) 0 () oneCycle
        [nameplate, kilowattHours true]) energyPlus.label (kilowattHours true) := by
  have read := carried_total
    (published_renders (replies []) (macText fun _ => 0) 0 () oneCycle).2.sound
    (kilowatt_hours_first true) (by decide +kernel)
  refine ⟨read.trans (by decide), ?_⟩
  intro carrying
  obtain ⟨n, carries, scaled⟩ := carrying
  obtain rfl := Option.some.inj (read.symm.trans carries)
  rcases (scaled_iff _ _).mp scaled with zero | unscaled
  · exact absurd zero (by decide)
  · exact absurd unscaled (by decide)

end GplugPublishedTotals
