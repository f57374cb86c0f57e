import Mathlib.Data.List.Perm.Basic
import Mathlib.Tactic.Common
import GplugMini.Decode

/- The serial on_value latches, and which objects' texts can become it. -/
namespace GplugMeterSerial
open ByteText GplugDecode GplugObisMap

def textCapture (obis text : Bytes) : AxdrCapture :=
  { obis, isNumeric := false, value := text, hasScalerUnit := false, scaler := 0,
    valueAsString := text, valueAsFloatWithScalerApplied := .finite false 0 0 }

def nameplate : AxdrCapture := textCapture logicalDeviceName (ascii "LGZ1030655933512")

def identityText (c : AxdrCapture) : Option Bytes :=
  match c.entry with
  | some e =>
      if e.kind = .identity ∧ c.isNumeric = false ∧ c.valueAsString ≠ [] then some c.valueAsString
      else none
  | none => none

def stored (text : Bytes) : Bytes := cstr (text.take (serialSize - 1))

def marks (captures : List AxdrCapture) : List Bytes :=
  ((captures.filterMap identityText).map stored).filter (· ≠ [])

def decodeCycles (cycles : List (List AxdrCapture)) : DecodeState :=
  cycles.foldl (fun s captures => captures.foldl onValue s.startCycle) .boot

/-- The buffer keeps its size, and reads as the first text that set it. -/
structure Latched (captures : List AxdrCapture) (s : DecodeState) : Prop where
  sized : s.meterSerial.length = serialSize
  text : cstr s.meterSerial = (marks captures).headD []

theorem on_value_serial (s : DecodeState) (c : AxdrCapture) :
    (onValue s c).meterSerial = match identityText c with
      | some text =>
          if s.meterSerial.headD 0 = 0 then storeSerial s.meterSerial text else s.meterSerial
      | none => s.meterSerial := by
  unfold onValue identityText
  cases c.entry with
  | none => rfl
  | some e =>
    cases numeric : c.isNumeric with
    | true =>
      simp only [Bool.not_true, Bool.false_eq_true, ↓reduceIte, reduceCtorEq, false_and, and_false]
      split <;> rfl
    | false =>
      by_cases identity : e.kind = .identity
      · by_cases empty : c.valueAsString = []
        · simp [identity, empty]
        · by_cases unset : s.meterSerial.headD 0 = 0
          · simp only [identity, empty, unset, Bool.not_false, ↓reduceIte, ne_eq,
              not_false_eq_true, and_self]
          · simp only [identity, empty, unset, Bool.not_false, ↓reduceIte, ne_eq,
              not_false_eq_true, and_self, false_and, and_false]
      · simp only [identity, Bool.not_false, ↓reduceIte, false_and]

theorem store_serial_length {serial : Bytes} (sized : serial.length = serialSize) (text : Bytes) :
    (storeSerial serial text).length = serialSize := by
  have cut : (text.take (min text.length (serialSize - 1))).length ≤ serialSize - 1 := by
    simp
  have copied : (poke serial 0 (text.take (min text.length (serialSize - 1)))).length =
      serialSize := by
    rw [poke_length (by simp only [serialSize] at *; omega), sized]
  rw [storeSerial, poke_length, copied]
  rw [copied]
  simp only [serialSize, List.length_singleton]
  omega

theorem store_serial_text (serial text : Bytes) :
    cstr (storeSerial serial text) = stored text := by
  have cut : text.take (min text.length (serialSize - 1)) = text.take (serialSize - 1) := by
    rw [Nat.min_comm, ← List.take_eq_take_min]
  have size : min text.length (serialSize - 1) = (text.take (serialSize - 1)).length := by
    rw [List.length_take, Nat.min_comm]
  simp only [storeSerial, cut]
  rw [size]
  exact cstr_copied serial _

theorem boot_latched : Latched [] .boot := ⟨by simp [DecodeState.boot], by decide⟩

theorem marks_snoc (captures : List AxdrCapture) (c : AxdrCapture) :
    marks (captures ++ [c]) = marks captures ++ marks [c] := by
  simp [marks]

theorem marks_single (c : AxdrCapture) :
    marks [c] = match identityText c with
      | some text => if stored text ≠ [] then [stored text] else []
      | none => [] := by
  cases offer : identityText c with
  | none => simp [marks, offer]
  | some text => by_cases kept : stored text = [] <;> simp [marks, offer, kept]

theorem marks_unset {captures : List AxdrCapture} (unset : (marks captures).headD [] = []) :
    marks captures = [] := by
  cases before : marks captures with
  | nil => rfl
  | cons m rest =>
    have kept : m ∈ marks captures := by simp [before]
    have some := (List.mem_filter.mp kept).2
    simp only [before, List.headD_cons] at unset
    simp [unset] at some

/-- A capture sets the serial only while no earlier one has. -/
theorem on_value_latched {captures : List AxdrCapture} {s : DecodeState}
    (latched : Latched captures s) (c : AxdrCapture) :
    Latched (captures ++ [c]) (onValue s c) := by
  have serial := on_value_serial s c
  have unset := cstr_eq_nil_iff s.meterSerial
  rw [latched.text] at unset
  have mark := marks_single c
  cases offer : identityText c with
  | none =>
    rw [offer] at serial mark
    constructor
    · rw [serial]
      exact latched.sized
    · rw [serial, latched.text, marks_snoc, mark]
      simp
  | some text =>
    rw [offer] at serial mark
    by_cases first : s.meterSerial.headD 0 = 0
    · have none := marks_unset (unset.mpr first)
      simp only [first, ↓reduceIte] at serial
      refine ⟨by rw [serial]; exact store_serial_length latched.sized text, ?_⟩
      rw [serial, store_serial_text, marks_snoc, none, mark]
      by_cases kept : stored text = [] <;> simp [kept]
    · have held : marks captures ≠ [] := by
        intro none
        exact first (unset.mp (by rw [none]; rfl))
      simp only [first, ↓reduceIte] at serial
      refine ⟨by rw [serial]; exact latched.sized, ?_⟩
      rw [serial, latched.text, marks_snoc]
      obtain ⟨m, rest, shape⟩ := List.exists_cons_of_ne_nil held
      simp [shape]

theorem on_values_latched {before : List AxdrCapture} {s : DecodeState}
    (latched : Latched before s) (captures : List AxdrCapture) :
    Latched (before ++ captures) (captures.foldl onValue s) := by
  induction captures generalizing before s with
  | nil => simpa using latched
  | cons c captures ih =>
    have next := ih (on_value_latched latched c)
    simpa using next

theorem latched_frame {captures : List AxdrCapture} {s t : DecodeState}
    (latched : Latched captures s) (serial : t.meterSerial = s.meterSerial) :
    Latched captures t := by
  constructor
  · rw [serial]
    exact latched.sized
  · rw [serial]
    exact latched.text

theorem cycle_latched {before : List AxdrCapture} {s : DecodeState} (latched : Latched before s)
    (captures : List AxdrCapture) :
    Latched (before ++ captures) (captures.foldl onValue s.startCycle) := by
  have started : Latched before s.startCycle := latched_frame latched rfl
  exact on_values_latched started captures

theorem latched_serial_length {captures : List AxdrCapture} {s : DecodeState}
    (latched : Latched captures s) : (cstr s.meterSerial).length ≤ 31 := by
  rw [latched.text]
  cases shape : marks captures with
  | nil => simp
  | cons mark rest =>
    have kept : mark ∈ marks captures := by simp [shape]
    obtain ⟨text, _, rfl⟩ := List.mem_map.mp (List.mem_filter.mp kept).1
    exact (cstr_length_le _).trans (List.length_take_le _ _)

theorem serial_kept {s : DecodeState} (set : s.meterSerial.headD 0 ≠ 0)
    (captures : List AxdrCapture) : (captures.foldl onValue s).meterSerial = s.meterSerial := by
  induction captures generalizing s with
  | nil => rfl
  | cons c captures ih =>
    have same : (onValue s c).meterSerial = s.meterSerial := by
      rw [on_value_serial]
      split
      · rw [if_neg set]
      · rfl
    rw [List.foldl_cons, ih (by rw [same]; exact set), same]

theorem decode_cycles_latched (cycles : List (List AxdrCapture)) :
    Latched cycles.flatten (decodeCycles cycles) := by
  induction cycles using List.reverseRecOn with
  | nil => exact boot_latched
  | append_singleton cycles captures ih =>
    have decoded := cycle_latched ih captures
    simpa [decodeCycles] using decoded

end GplugMeterSerial
