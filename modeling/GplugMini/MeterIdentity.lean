import Mathlib.Data.List.Perm.Basic
import Mathlib.Tactic.Common
import GplugMini.MeterSerial

/- Whether the serial that keys every entity depends on the meter alone, or also on the
   order in which its identity objects arrive. -/
namespace GplugMeterIdentity
open ByteText GplugDecode GplugObisMap GplugMeterSerial

def textsOf (code : Bytes) (captures : List AxdrCapture) : List Bytes :=
  captures.filterMap fun c =>
    if c.code = code ∧ c.isNumeric = false ∧ c.valueAsString ≠ [] then some c.valueAsString
    else none

def expectedSerial (captures : List AxdrCapture) : Bytes :=
  ((textsOf logicalDeviceName captures).head?.or (textsOf deviceId1 captures).head?).getD []

def serial (cycles : List (List AxdrCapture)) : Bytes := cstr (decodeCycles cycles).meterSerial

/-- The serial is the expected one, whatever the order and for good. -/
def FixedByMeter (cycles : List (List AxdrCapture)) : Prop :=
  serial cycles = expectedSerial cycles.flatten ∧
    (∀ other : List (List AxdrCapture), other.flatten.Perm cycles.flatten →
      serial other = serial cycles) ∧
    ∀ later, serial cycles ≠ [] → serial (cycles ++ later) = serial cycles

/-- Every identity text delivered, of device ID 2 too, is kept as the expected text or as
    nothing, and the expected text itself is kept whole. -/
def OneName (captures : List AxdrCapture) : Prop :=
  stored (expectedSerial captures) = expectedSerial captures ∧
    ∀ code ∈ [logicalDeviceName, deviceId1, deviceId2], ∀ text ∈ textsOf code captures,
      stored text = expectedSerial captures ∨ stored text = []

theorem serial_eq (cycles : List (List AxdrCapture)) :
    serial cycles = (marks cycles.flatten).headD [] := (decode_cycles_latched cycles).text

theorem stored_stored (text : Bytes) : stored (stored text) = stored text := by
  have short : (stored text).length ≤ serialSize - 1 :=
    (cstr_length_le _).trans (List.length_take_le _ _)
  rw [stored, List.take_of_length_le short]
  exact cstr_of_nul_free (cstr_nul_free _)

theorem mem_texts_of {code text : Bytes} {captures : List AxdrCapture} :
    text ∈ textsOf code captures ↔ ∃ c ∈ captures,
      (c.code = code ∧ c.isNumeric = false ∧ c.valueAsString ≠ []) ∧ c.valueAsString = text := by
  simp only [textsOf, List.mem_filterMap, Option.ite_none_right_eq_some, Option.some.injEq]

theorem identity_text_iff {c : AxdrCapture} {text : Bytes} :
    identityText c = some text ↔ c.code ∈ [logicalDeviceName, deviceId1, deviceId2] ∧
      c.isNumeric = false ∧ c.valueAsString ≠ [] ∧ c.valueAsString = text := by
  have codes := identity_codes c.code
  rw [obisIsIdentity] at codes
  simp only [List.mem_cons, List.not_mem_nil, or_false, ← codes]
  rw [identityText, AxdrCapture.entry]
  cases obisLookup c.code with
  | none => simp
  | some e => simp [and_assoc]

theorem mem_marks {captures : List AxdrCapture} {mark : Bytes} :
    mark ∈ marks captures ↔ mark ≠ [] ∧
      ∃ code ∈ [logicalDeviceName, deviceId1, deviceId2], ∃ text ∈ textsOf code captures,
        stored text = mark := by
  simp only [marks, List.mem_filter, List.mem_map, List.mem_filterMap, decide_eq_true_eq,
    identity_text_iff, mem_texts_of]
  constructor
  · intro marked
    obtain ⟨⟨text, ⟨c, arrived, listed, plain, some, same⟩, kept⟩, nonempty⟩ := marked
    exact ⟨nonempty, c.code, listed, text, ⟨c, arrived, ⟨rfl, plain, some⟩, same⟩, kept⟩
  · intro delivered
    obtain ⟨nonempty, code, listed, text, ⟨c, arrived, ⟨rfl, plain, some⟩, same⟩, kept⟩ := delivered
    exact ⟨⟨text, ⟨c, arrived, listed, plain, some, same⟩, kept⟩, nonempty⟩

theorem expected_delivered {captures : List AxdrCapture} (some : expectedSerial captures ≠ []) :
    ∃ code ∈ [logicalDeviceName, deviceId1, deviceId2],
      expectedSerial captures ∈ textsOf code captures := by
  unfold expectedSerial at some ⊢
  cases first : textsOf logicalDeviceName captures with
  | cons text rest =>
    exact ⟨logicalDeviceName, by simp, by simp [first]⟩
  | nil =>
    rw [first] at some
    cases second : textsOf deviceId1 captures with
    | cons text rest => exact ⟨deviceId1, by simp, by simp [second]⟩
    | nil =>
      rw [second] at some
      exact absurd rfl some

theorem marks_perm {one two : List AxdrCapture} (perm : one.Perm two) :
    (marks one).Perm (marks two) := ((perm.filterMap _).map _).filter _

theorem one_name_serial {captures : List AxdrCapture} (name : OneName captures)
    {cycles : List (List AxdrCapture)} (perm : cycles.flatten.Perm captures) :
    serial cycles = expectedSerial captures := by
  obtain ⟨whole, covered⟩ := name
  rw [serial_eq]
  cases shape : marks cycles.flatten with
  | nil =>
    by_contra differs
    have some : expectedSerial captures ≠ [] := fun none => differs (by rw [none]; rfl)
    obtain ⟨code, listed, delivered⟩ := expected_delivered some
    have mark := mem_marks.mpr ⟨some, code, listed, _, delivered, whole⟩
    rw [← (marks_perm perm).mem_iff, shape] at mark
    simp at mark
  | cons mark rest =>
    have held : mark ∈ marks captures := by
      rw [← (marks_perm perm).mem_iff, shape]
      simp
    obtain ⟨nonempty, code, listed, text, delivered, rfl⟩ := mem_marks.mp held
    rcases covered code listed text delivered with same | none
    · exact same
    · exact absurd none nonempty

theorem mark_can_win {cycles : List (List AxdrCapture)} {mark : Bytes}
    (held : mark ∈ marks cycles.flatten) :
    ∃ other : List (List AxdrCapture), other.flatten.Perm cycles.flatten ∧ serial other = mark := by
  obtain ⟨nonempty, code, listed, text, delivered, kept⟩ := mem_marks.mp held
  obtain ⟨c, arrived, ⟨rfl, plain, given⟩, same⟩ := mem_texts_of.mp delivered
  refine ⟨[c :: cycles.flatten.erase c], ?_, ?_⟩
  · simpa using (List.perm_cons_erase arrived).symm
  · have offer : identityText c = some text :=
      identity_text_iff.mpr ⟨listed, plain, given, same⟩
    rw [serial_eq]
    simp [marks, offer, kept, nonempty]

theorem serial_stays (cycles later : List (List AxdrCapture)) (set : serial cycles ≠ []) :
    serial (cycles ++ later) = serial cycles := by
  rw [serial_eq] at set ⊢
  have grown : marks (cycles ++ later).flatten = marks cycles.flatten ++ marks later.flatten := by
    simp [marks]
  cases shape : marks cycles.flatten with
  | nil => simp [shape] at set
  | cons mark rest => rw [serial_eq, grown, shape]; rfl

/-- The serial is the meter's own exactly when one name covers every identity text. -/
theorem fixed_by_meter_iff (cycles : List (List AxdrCapture)) :
    FixedByMeter cycles ↔ OneName cycles.flatten := by
  constructor
  · intro fixed
    obtain ⟨expected, orders, _⟩ := fixed
    constructor
    · rw [← expected, serial_eq]
      cases shape : marks cycles.flatten with
      | nil => rfl
      | cons mark rest =>
        obtain ⟨_, _, _, text, _, rfl⟩ := mem_marks.mp (shape ▸ List.mem_cons_self : mark ∈ marks _)
        exact stored_stored text
    · intro code listed text delivered
      by_cases none : stored text = []
      · exact Or.inr none
      · have held := mem_marks.mpr ⟨none, code, listed, text, delivered, rfl⟩
        obtain ⟨other, perm, won⟩ := mark_can_win held
        exact Or.inl (by rw [← won, orders other perm, expected])
  · intro name
    have whole := one_name_serial name (List.Perm.refl _)
    refine ⟨whole, ?_, serial_stays cycles⟩
    intro other perm
    rw [one_name_serial name perm, whole]

/-- Device ID 2 and the logical device name in one cycle: whichever comes first wins. -/
theorem device_id_2_wins :
    let second := textCapture deviceId2 (ascii "00000001")
    let name := textCapture logicalDeviceName (ascii "LGZ1030655933512")
    serial [[second, name]] = ascii "00000001" ∧
      serial [[name, second]] = ascii "LGZ1030655933512" ∧
      ¬ FixedByMeter [[second, name]] := by
  have first : serial [[textCapture deviceId2 (ascii "00000001"),
      textCapture logicalDeviceName (ascii "LGZ1030655933512")]] = ascii "00000001" := by decide
  refine ⟨first, by decide, ?_⟩
  intro fixed
  obtain ⟨expected, _⟩ := fixed
  rw [first] at expected
  exact absurd expected (by decide)

end GplugMeterIdentity
