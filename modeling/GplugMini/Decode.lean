import Mathlib.Tactic.Common
import Mathlib.Tactic.Linarith
import GplugMini.Aggregator
import GplugMini.ObisMap

/- on_value: what one decoded capture does to the globals of the decode path. A capture is
   what the decoder's accessors report of it; the decoder itself is not modelled. -/
namespace GplugDecode
open ByteText DecimalText FlatObject FirstOccurrence GplugAggregator GplugObisMap

structure AxdrCapture where
  obis : Bytes
  isNumeric : Bool
  value : Bytes
  hasScalerUnit : Bool
  scaler : Int
  valueAsString : Bytes
  valueAsFloatWithScalerApplied : Double
  deriving DecidableEq, Repr

structure DecodeState where
  valuesThisCycle : Nat
  cycleSet : CycleSet
  meterSerial : Bytes
  deriving DecidableEq, Repr

def serialSize : Nat := 32

def DecodeState.boot : DecodeState where
  valuesThisCycle := 0
  cycleSet := .fresh
  meterSerial := List.replicate serialSize 0

/-- The code as on_value looks it up: a C string of at most 39 characters. -/
def AxdrCapture.code (c : AxdrCapture) : Bytes := cstr (c.obis.take 39)

def AxdrCapture.entry (c : AxdrCapture) : Option ObisEntry := obisLookup c.code

def rawValue (value : Bytes) : UInt64 := value.foldl (fun raw b => raw <<< 8 ||| b.toUInt64) 0

def storeSerial (serial text : Bytes) : Bytes :=
  let k := min text.length (serialSize - 1)
  poke (poke serial 0 (text.take k)) k [0]

def onValue (s : DecodeState) (c : AxdrCapture) : DecodeState :=
  let s := { s with valuesThisCycle := s.valuesThisCycle + 1 }
  match c.entry with
  | none => s
  | some entry =>
      if !c.isNumeric then
        if entry.kind = .identity ∧ s.meterSerial.headD 0 = 0 ∧ c.valueAsString ≠ [] then
          { s with meterSerial := storeSerial s.meterSerial c.valueAsString }
        else s
      else if entry.kind = .cumulative then
        { s with cycleSet := (s.cycleSet.addInteger entry.label (rawValue c.value)).1 }
      else
        { s with cycleSet := (s.cycleSet.addReal entry.label c.valueAsFloatWithScalerApplied).1 }

def DecodeState.startCycle (s : DecodeState) : DecodeState :=
  { s with valuesThisCycle := 0, cycleSet := s.cycleSet.clear }

/-- The unsigned integer the bytes denote, most significant first. -/
def bigEndian (value : Bytes) : Nat := value.foldl (fun n b => n * 256 + b.toNat) 0

theorem big_endian_snoc (value : Bytes) (b : UInt8) :
    bigEndian (value ++ [b]) = bigEndian value * 256 + b.toNat := by
  simp [bigEndian]

theorem big_endian_lt (value : Bytes) : bigEndian value < 256 ^ value.length := by
  induction value using List.reverseRecOn with
  | nil => simp [bigEndian]
  | append_singleton value b ih =>
    have := b.toNat_lt
    rw [big_endian_snoc, List.length_append, List.length_singleton, Nat.pow_succ]
    omega

theorem raw_value_mod (value : Bytes) : (rawValue value).toNat = bigEndian value % 2 ^ 64 := by
  induction value using List.reverseRecOn with
  | nil => rfl
  | append_singleton value b ih =>
    have byte : b.toNat < 2 ^ 8 := b.toNat_lt
    have step : rawValue (value ++ [b]) = rawValue value <<< 8 ||| b.toUInt64 := by
      simp [rawValue]
    have wide : (rawValue value).toNat <<< 8 % 2 ^ 64 =
        ((rawValue value).toNat % 2 ^ 56) <<< 8 := by
      simp only [Nat.shiftLeft_eq]
      omega
    rw [step, big_endian_snoc, UInt64.toNat_or, UInt64.toNat_shiftLeft, UInt8.toNat_toUInt64]
    change (rawValue value).toNat <<< 8 % 2 ^ 64 ||| b.toNat = _
    rw [wide, ← Nat.shiftLeft_add_eq_or_of_lt byte, ih, Nat.shiftLeft_eq]
    omega

theorem big_endian_exact {value : Bytes} (short : value.length ≤ 8) :
    bigEndian value % 2 ^ 64 = bigEndian value := by
  apply Nat.mod_eq_of_lt
  calc bigEndian value < 256 ^ value.length := big_endian_lt value
    _ ≤ 256 ^ 8 := Nat.pow_le_pow_right (by omega) short
    _ = 2 ^ 64 := by norm_num

def rendered (entry : ObisEntry) (c : AxdrCapture) : Bytes :=
  if entry.kind = .cumulative then decimal (bigEndian c.value % 2 ^ 64)
  else fixed3 c.valueAsFloatWithScalerApplied

theorem rendered_total {entry : ObisEntry} {c : AxdrCapture} (total : entry.kind = .cumulative)
    (short : c.value.length ≤ 8) : rendered entry c = decimal (bigEndian c.value) := by
  rw [rendered, if_pos total, big_endian_exact short]

def offered (c : AxdrCapture) : Option Member :=
  match c.entry with
  | none => none
  | some entry => if c.isNumeric then some (entry.label, rendered entry c) else none

/-- The members of one cycle: of each label the first capture, in order of arrival. -/
def cycleMembers (captures : List AxdrCapture) : List Member :=
  firstWins (captures.filterMap offered)

theorem offered_label {c : AxdrCapture} {m : Member} (offer : offered c = some m) :
    m.1 ∈ labels ∧ BareMember m := by
  unfold offered at offer
  split at offer
  · simp at offer
  · rename_i entry found
    split at offer
    · cases Option.some.inj offer
      have listed := label_mem (lookup_mem found)
      refine ⟨listed, (labels_bare _ listed).2, ?_⟩
      simp only [rendered]
      split
      · exact decimal_bare _
      · exact fixed3_bare _
    · simp at offer

theorem cycle_members_label {captures : List AxdrCapture} {m : Member}
    (member : m ∈ cycleMembers captures) : m.1 ∈ labels ∧ BareMember m := by
  obtain ⟨c, _, offer⟩ := List.mem_filterMap.mp (mem_of_first_wins member)
  exact offered_label offer

theorem cycle_members_short {captures : List AxdrCapture} {m : Member}
    (member : m ∈ cycleMembers captures) : ShortLabel m.1 :=
  labels_bare _ (cycle_members_label member).1

theorem cycle_members_room (captures : List AxdrCapture) :
    (cycleMembers captures).length ≤ 14 := by
  have nodup : (keys (cycleMembers captures)).Nodup := first_wins_nodup _
  have listed : keys (cycleMembers captures) ⊆ labels := by
    intro label held
    obtain ⟨m, member, rfl⟩ := List.mem_map.mp held
    exact (cycle_members_label member).1
  have := nodup.length_le_of_subset listed
  rwa [labels_count, keys, List.length_map] at this

theorem offered_add (s : DecodeState) (c : AxdrCapture) :
    (onValue s c).cycleSet = match offered c with
      | none => s.cycleSet
      | some m => (s.cycleSet.add m.1 m.2).1 := by
  unfold onValue offered
  cases c.entry with
  | none => rfl
  | some entry =>
    by_cases numeric : c.isNumeric = true
    · simp only [numeric, Bool.not_true, Bool.false_eq_true, ↓reduceIte, rendered]
      by_cases total : entry.kind = .cumulative
      · simp only [total, ↓reduceIte, CycleSet.addInteger, raw_value_mod]
      · simp only [total, ↓reduceIte, CycleSet.addReal]
    · simp only [numeric, Bool.not_false, ↓reduceIte, Bool.false_eq_true]
      split <;> rfl

theorem on_value_tracks {s : DecodeState} {before : List AxdrCapture}
    (tracked : Tracks s.cycleSet (cycleMembers before)) (c : AxdrCapture) :
    Tracks (onValue s c).cycleSet (cycleMembers (before ++ [c])) := by
  have short : ∀ m ∈ cycleMembers before, ShortLabel m.1 := fun m member =>
    cycle_members_short member
  rw [offered_add]
  cases offer : offered c with
  | none => simpa [cycleMembers, offer] using tracked
  | some m =>
    have grown : cycleMembers (before ++ [c]) = keep (cycleMembers before) m := by
      simp [cycleMembers, offer, first_wins_snoc]
    obtain ⟨listed, bare⟩ := offered_label offer
    rw [grown, keep]
    by_cases held : m.1 ∈ keys (cycleMembers before)
    · rw [if_pos held]
      simpa [tracks_add_repeated tracked short held] using tracked
    · rw [if_neg held]
      have room := cycle_members_room before
      exact (tracks_add_fresh tracked short (by simp only [maxValues]; omega)
        (labels_bare _ listed) bare held).1

theorem on_values_track {s : DecodeState} (empty : Tracks s.cycleSet [])
    (captures : List AxdrCapture) :
    Tracks (captures.foldl onValue s).cycleSet (cycleMembers captures) := by
  induction captures using List.reverseRecOn with
  | nil => exact empty
  | append_singleton captures c ih =>
    rw [List.foldl_append, List.foldl_cons, List.foldl_nil]
    exact on_value_tracks ih c

end GplugDecode
