import Mathlib.Algebra.Order.BigOperators.Group.List
import Mathlib.Data.List.Perm.Subperm
import Mathlib.Tactic.Common
import GplugMini.MainLoop
import GplugMini.Net

/- Which messages a run of the main loop publishes, and for which cycles. The cycles of a
   run are read off its bytes and its parser alone: what was heard of each, and whether the
   broker was connected at its end. -/
namespace GplugPublicationTrace
open ByteText DecimalText FlatObject FirstOccurrence EmittingRun
open GplugObisMap GplugAggregator GplugDecode GplugMeterSerial GplugNet GplugReceive GplugMainLoop

structure Cycle where
  captures : List AxdrCapture
  connected : Bool

section
variable {Parser : Type} (parse : Parser → Bytes → ParseOut Parser)

/-- One pass as a listener to the parser hears it. -/
def hear (s : Receiver × Parser) (p : Pass) : (Receiver × Parser) × List Cycle :=
  if p.read.bytes ≠ [] then ((s.1.insert p.read, s.2), [])
  else if s.1.ended p.read then
    let heard := decodeBuffer parse record s.2 s.1.cycle []
    ((s.1.clear, heard.parser), [⟨heard.heard, p.connected⟩])
  else (s, [])

def cyclesHeard (boot : Nat) (parser : Parser) (passes : List Pass) : List Cycle :=
  emitted (hear parse) (.boot boot, parser) passes

def published (mac : Bytes) (boot : Nat) (parser : Parser) (passes : List Pass) : List Bytes :=
  (emitted (pass parse mac) (.boot boot parser) passes).filterMap stateText

end

/-- The object a cycle owes: connected at its end, a serial known by then, and something
    mapped and numeric in it. -/
def owed (earlier : List AxdrCapture) (c : Cycle) : Option (List Member) :=
  if c.connected = true ∧ marks (earlier ++ c.captures) ≠ [] ∧ cycleMembers c.captures ≠ [] then
    some (cycleMembers c.captures)
  else none

def owedBy (earlier : List AxdrCapture) : List Cycle → List (List Member)
  | [] => []
  | c :: rest => (owed earlier c).toList ++ owedBy (earlier ++ c.captures) rest

theorem owed_by_append (earlier : List AxdrCapture) (first rest : List Cycle) :
    owedBy earlier (first ++ rest) =
      owedBy earlier first ++ owedBy (earlier ++ first.flatMap Cycle.captures) rest := by
  induction first generalizing earlier with
  | nil => simp [owedBy]
  | cons c first ih => simp [owedBy, ih]

/-- A text is the object's exactly when the object fits the set's buffer. -/
def Renders (text : Bytes) (members : List Member) : Prop :=
  text = objectText members ↔ (objectText members).length + 2 ≤ jsonSize

/-- The loop is where the listener is, its serial is that of everything heard, and its set
    is sound. -/
structure Traced {Parser : Type} (cycles : List Cycle) (s : LoopState Parser)
    (t : Receiver × Parser) : Prop where
  rx : s.rx = t.1
  parser : s.parser = t.2
  latched : Latched (cycles.flatMap Cycle.captures) s.decode
  sound : Sound s.decode.cycleSet

theorem goes_out_iff {captures heard : List AxdrCapture} {s : DecodeState} (p : Pass)
    (tracked : Tracks s.cycleSet (cycleMembers captures)) (latched : Latched heard s) :
    GoesOut p s.meterSerial s.cycleSet ↔
      p.connected = true ∧ marks heard ≠ [] ∧ cycleMembers captures ≠ [] := by
  have serial : s.meterSerial.headD 0 = 0 ↔ marks heard = [] := by
    rw [← cstr_eq_nil_iff, latched.text]
    cases shape : marks heard with
    | nil => simp
    | cons mark rest =>
      have kept : mark ∈ marks heard := by simp [shape]
      have nonempty : mark ≠ [] := by simpa using (List.mem_filter.mp kept).2
      simp [nonempty]
  have empty : s.cycleSet.empty = false ↔ cycleMembers captures ≠ [] := by
    simp [CycleSet.empty, tracked.counted]
  rw [GoesOut, ne_eq, serial, empty]

theorem end_cycle_traced {Parser : Type} (parse : Parser → Bytes → ParseOut Parser) (mac : Bytes)
    {cycles : List Cycle} {s : LoopState Parser} {t : Receiver × Parser}
    (traced : Traced cycles s t) (p : Pass) (captures : List AxdrCapture)
    (heard : captures = (decodeBuffer parse record t.2 t.1.cycle []).heard) :
    List.Forall₂ Renders ((endCycle parse mac s p).2.filterMap stateText)
        (owed (cycles.flatMap Cycle.captures) ⟨captures, p.connected⟩).toList ∧
      Traced (cycles ++ [⟨captures, p.connected⟩]) (endCycle parse mac s p).1
        (t.1.clear, (decodeBuffer parse record t.2 t.1.cycle []).parser) := by
  have cleared := clear_tracks traced.sound
  have tracked := on_values_track (s := s.decode.startCycle) cleared captures
  have latched := cycle_latched traced.latched captures
  have decoded : (decodeBuffer parse onValue t.2 t.1.cycle s.decode.startCycle).heard =
      captures.foldl onValue s.decode.startCycle := by
    rw [decode_buffer_heard, heard]
  have parser : (decodeBuffer parse onValue t.2 t.1.cycle s.decode.startCycle).parser =
      (decodeBuffer parse record t.2 t.1.cycle []).parser := by
    rw [decode_buffer_parser_left]
  have sent := publish_cycle_states mac (captures.foldl onValue s.decode.startCycle).meterSerial
    (captures.foldl onValue s.decode.startCycle).cycleSet p
  simp only [endCycle, traced.rx, traced.parser, decoded, parser]
  obtain ⟨states, set⟩ := sent (s.discoverySession, (probe s.undecoded
    (decodeBuffer parse onValue t.2 t.1.cycle s.decode.startCycle).objects
    (decodeBuffer parse onValue t.2 t.1.cycle s.decode.startCycle).cycle).2)
  rw [probe_states, List.nil_append] at states
  constructor
  · rw [states, owed]
    have out := goes_out_iff p tracked latched
    by_cases owes : p.connected = true ∧ marks (cycles.flatMap Cycle.captures ++ captures) ≠ [] ∧
        cycleMembers captures ≠ []
    · rw [if_pos (out.mpr owes), if_pos owes]
      exact .cons (tracks_json tracked owes.2.2) .nil
    · rw [if_neg fun goes => owes (out.mp goes), if_neg owes]
      exact .nil
  · refine ⟨rfl, rfl, ⟨latched.sized, ?_⟩, ?_⟩
    · rw [List.flatMap_append]
      simpa using latched.text
    · rcases set with same | read
      · rw [same]
        exact tracked.toSound
      · rw [read]
        exact json_sound tracked.toSound

theorem pass_traced {Parser : Type} (parse : Parser → Bytes → ParseOut Parser) (mac : Bytes)
    {cycles : List Cycle} {s : LoopState Parser} {t : Receiver × Parser}
    (traced : Traced cycles s t) (p : Pass) :
    List.Forall₂ Renders ((pass parse mac s p).2.filterMap stateText)
        (owedBy (cycles.flatMap Cycle.captures) (hear parse t p).2) ∧
      Traced (cycles ++ (hear parse t p).2) (pass parse mac s p).1 (hear parse t p).1 := by
  unfold hear GplugMainLoop.pass
  rw [traced.rx]
  by_cases returned : p.read.bytes ≠ []
  · simp only [if_pos returned, List.append_nil]
    exact ⟨.nil, rfl, traced.parser, traced.latched, traced.sound⟩
  · by_cases ended : t.1.ended p.read = true
    · simp only [if_neg returned, if_pos ended]
      obtain ⟨now, next⟩ := end_cycle_traced parse mac traced p _ rfl
      rw [owedBy, owedBy, List.append_nil]
      exact ⟨now, next⟩
    · simp only [if_neg returned, if_neg ended, List.append_nil]
      exact ⟨.nil, traced⟩

theorem published_renders {Parser : Type} (parse : Parser → Bytes → ParseOut Parser) (mac : Bytes)
    (boot : Nat) (parser : Parser) (passes : List Pass) :
    List.Forall₂ Renders (published parse mac boot parser passes)
        (owedBy [] (cyclesHeard parse boot parser passes)) ∧
      Traced (cyclesHeard parse boot parser passes)
        (final (pass parse mac) (.boot boot parser) passes)
        (final (hear parse) (.boot boot, parser) passes) := by
  induction passes using List.reverseRecOn with
  | nil => exact ⟨.nil, rfl, rfl, boot_latched, fresh_sound⟩
  | append_singleton passes p ih =>
    obtain ⟨rendered, traced⟩ := ih
    obtain ⟨now, next⟩ := pass_traced parse mac traced p
    rw [cyclesHeard, emitted_snoc, final_snoc, final_snoc, published, emitted_snoc,
      List.filterMap_append, owed_by_append, List.nil_append]
    exact ⟨List.rel_append rendered now, next⟩

theorem renders_all {texts : List Bytes} {objects : List (List Member)}
    (rendered : List.Forall₂ Renders texts objects) :
    texts = objects.map objectText ↔
      ∀ members ∈ objects, (objectText members).length + 2 ≤ jsonSize := by
  induction rendered with
  | nil => simp
  | cons first _ ih =>
    rw [List.map_cons, List.cons.injEq, ih, List.forall_mem_cons]
    exact and_congr_left fun _ => first

/- The capacity of the buffer against the table. -/

/-- What is assumed of the meter and its decoder: only totals and instantaneous values
    are numeric, and a value has at most eight bytes. -/
def Decodable (c : AxdrCapture) : Prop :=
  ∀ entry, c.entry = some entry → c.isNumeric = true →
    (entry.kind = .cumulative ∨ entry.kind = .instant) ∧ c.value.length ≤ 8

def memberRoom (label : Bytes) : Nat :=
  label.length + 4 + if table.any (fun e => e.label = label ∧ e.kind = .cumulative) then 20 else 30

def measured : List Bytes :=
  (table.filter fun e => e.kind = .cumulative ∨ e.kind = .instant).map ObisEntry.label

theorem measured_room : (measured.map memberRoom).sum = 509 := by decide

/-- The %.3f text of an instantaneous value leaves room for all the others. -/
def ShortInstant (c : AxdrCapture) : Prop :=
  ∀ entry, c.entry = some entry → c.isNumeric = true → entry.kind = .instant →
    (fixed3 c.valueAsFloatWithScalerApplied).length ≤ 30

theorem offered_room {c : AxdrCapture} {m : Member} (decodable : Decodable c)
    (short : ShortInstant c) (offer : offered c = some m) :
    m.1 ∈ measured ∧ m.1.length + 4 + m.2.length ≤ memberRoom m.1 := by
  unfold offered at offer
  cases found : c.entry with
  | none => simp [found] at offer
  | some e =>
    cases numeric : c.isNumeric with
    | false => simp [found, numeric] at offer
    | true =>
      obtain rfl : (e.label, rendered e c) = m := by simpa [found, numeric] using offer
      have kind := (decodable e found numeric).1
      have listed := lookup_mem found
      refine ⟨List.mem_map.mpr ⟨e, List.mem_filter.mpr ⟨listed, by simpa using kind⟩, rfl⟩, ?_⟩
      have text : (rendered e c).length ≤
          if table.any (fun d => d.label = e.label ∧ d.kind = .cumulative) then 20 else 30 := by
        rcases kind with total | instant
        · have known : table.any (fun d => d.label = e.label ∧ d.kind = .cumulative) = true :=
            List.any_eq_true.mpr ⟨e, listed, by simp [total]⟩
          rw [if_pos known, rendered, if_pos total]
          apply decimal_length_le (by omega)
          calc bigEndian c.value % 2 ^ 64 < 2 ^ 64 := Nat.mod_lt _ (by decide)
            _ ≤ 10 ^ 20 := by decide
        · have other : ¬ table.any (fun d => d.label = e.label ∧ d.kind = .cumulative) = true := by
            rw [List.any_eq_true]
            intro present
            obtain ⟨d, member, same⟩ := present
            obtain ⟨label, total⟩ := of_decide_eq_true same
            have clash := label_kind d member e listed label
            rw [total, instant] at clash
            cases clash
          rw [if_neg other, rendered, if_neg (by rw [instant]; simp)]
          exact short e found numeric instant
      simp only [memberRoom]
      omega

theorem sum_le_of_nodup {labels all : List Bytes} (nodup : labels.Nodup) (listed : labels ⊆ all)
    (room : Bytes → Nat) : (labels.map room).sum ≤ (all.map room).sum := by
  obtain ⟨same, perm, sub⟩ := List.subperm_of_subset nodup listed
  rw [← (perm.map room).sum_eq]
  exact (sub.map room).sum_le_sum fun _ _ => Nat.zero_le _

theorem cycle_members_fit {captures : List AxdrCapture}
    (decodable : ∀ c ∈ captures, Decodable c) (short : ∀ c ∈ captures, ShortInstant c)
    (nonempty : cycleMembers captures ≠ []) :
    (objectText (cycleMembers captures)).length + 2 ≤ jsonSize := by
  have room : ∀ m ∈ cycleMembers captures,
      m.1 ∈ measured ∧ m.1.length + 4 + m.2.length ≤ memberRoom m.1 := by
    intro m member
    obtain ⟨c, arrived, offer⟩ := List.mem_filterMap.mp (mem_of_first_wins member)
    exact offered_room (decodable c arrived) (short c arrived) offer
  have listed : keys (cycleMembers captures) ⊆ measured := by
    intro label held
    obtain ⟨m, member, rfl⟩ := List.mem_map.mp held
    exact (room m member).1
  have each : ((cycleMembers captures).map fun m => m.1.length + 4 + m.2.length).sum ≤
      ((keys (cycleMembers captures)).map memberRoom).sum := by
    rw [keys, List.map_map]
    exact List.sum_le_sum fun m member => (room m member).2
  have whole := sum_le_of_nodup (first_wins_nodup _) listed memberRoom
  have size := object_text_length nonempty
  rw [open_text_length] at size
  rw [measured_room] at whole
  simp only [cycleMembers, jsonSize] at *
  omega

theorem owed_members {earlier : List AxdrCapture} {cycles : List Cycle} {members : List Member}
    (due : members ∈ owedBy earlier cycles) :
    ∃ c ∈ cycles, cycleMembers c.captures ≠ [] ∧ members = cycleMembers c.captures := by
  induction cycles generalizing earlier with
  | nil => simp [owedBy] at due
  | cons c cycles ih =>
    rcases List.mem_append.mp due with first | later
    · rw [Option.mem_toList, owed] at first
      split at first
      · rename_i owes
        exact ⟨c, by simp, owes.2.2, by simpa using first.symm⟩
      · simp at first
    · obtain ⟨d, member, found⟩ := ih later
      exact ⟨d, by simp [member], found⟩

/-- The messages of a run are exactly the owed objects when each of them has at most 510
    bytes, and only then; short instantaneous texts are enough for that. -/
theorem publication_trace {Parser : Type} (parse : Parser → Bytes → ParseOut Parser) (mac : Bytes)
    (boot : Nat) (parser : Parser) (passes : List Pass) :
    (published parse mac boot parser passes =
        (owedBy [] (cyclesHeard parse boot parser passes)).map objectText ↔
      ∀ members ∈ owedBy [] (cyclesHeard parse boot parser passes),
        (objectText members).length ≤ 510) ∧
    ((∀ cycle ∈ cyclesHeard parse boot parser passes,
        ∀ c ∈ cycle.captures, Decodable c ∧ ShortInstant c) →
      published parse mac boot parser passes =
        (owedBy [] (cyclesHeard parse boot parser passes)).map objectText) := by
  have rendered := (published_renders parse mac boot parser passes).1
  constructor
  · rw [renders_all rendered]
    simp only [jsonSize, Nat.reduceLeDiff]
  · intro usual
    rw [renders_all rendered]
    intro members due
    obtain ⟨c, member, nonempty, rfl⟩ := owed_members due
    exact cycle_members_fit (fun d arrived => (usual c member d arrived).1)
      (fun d arrived => (usual c member d arrived).2) nonempty

def replies (captures : List AxdrCapture) (_ : Unit) (span : Bytes) : ParseOut Unit :=
  ⟨captures, captures.length, span.length, span, ()⟩

def oneCycle : List Pass :=
  [⟨⟨[0x7E], 0⟩, true, 1, 1⟩, ⟨⟨[], 2000000⟩, true, 1, 1⟩]

def register (obis : String) (value : Bytes) (reading : Double) : AxdrCapture :=
  { obis := ascii obis, isNumeric := true, value, hasScalerUnit := false, scaler := 0,
    valueAsString := [], valueAsFloatWithScalerApplied := reading }

def plainSet : List AxdrCapture :=
  [nameplate, register "1.1.1.8.0.255" [0x01, 0x00] (.finite false 256 0),
    register "1.0.1.7.0.255" [0x02] (.finite false 2 0)]

instance (c : AxdrCapture) : Decidable (Decodable c) := by unfold Decodable; infer_instance

instance (c : AxdrCapture) : Decidable (ShortInstant c) := by unfold ShortInstant; infer_instance

theorem publication_trace_plain :
    published (replies plainSet) (macText fun _ => 0) 0 () oneCycle =
      [ascii "\x7b\"active_energy_plus\":256,\"active_power_plus\":2.000\x7d"] := by
  have heard : cyclesHeard (replies plainSet) 0 () oneCycle = [⟨plainSet, true⟩] := rfl
  have messages := (publication_trace (replies plainSet) (macText fun _ => 0) 0 () oneCycle).2
    (by rw [heard]; simp only [List.mem_singleton, forall_eq]; decide)
  rw [heard] at messages
  exact messages.trans (by decide +kernel)

/-- Every register the table measures: full 64-bit totals, and instantaneous readings near
    the end of a 32-bit float's range. -/
def wideSet : List AxdrCapture :=
  nameplate ::
    (["1.1.1.8.0.255", "1.1.2.8.0.255", "1.1.5.8.0.255", "1.1.6.8.0.255", "1.1.7.8.0.255",
      "1.1.8.8.0.255"].map fun obis =>
        register obis (List.replicate 8 0xFF) (.finite false 1 64)) ++
    ["1.0.1.7.0.255", "1.0.2.7.0.255", "1.0.3.7.0.255", "1.0.4.7.0.255", "1.0.13.7.0.255"].map
      fun obis => register obis [0x33, 0xEC, 0x47] (.finite false 16777213 104)

/-- Their object would have 575 bytes; what is published is not that object. -/
theorem wide_set_cut :
    (∀ cycle ∈ cyclesHeard (replies wideSet) 0 () oneCycle, ∀ c ∈ cycle.captures, Decodable c) ∧
      published (replies wideSet) (macText fun _ => 0) 0 () oneCycle ≠
        (owedBy [] (cyclesHeard (replies wideSet) 0 () oneCycle)).map objectText := by
  have heard : cyclesHeard (replies wideSet) 0 () oneCycle = [⟨wideSet, true⟩] := rfl
  have decodable : ∀ cycle ∈ cyclesHeard (replies wideSet) 0 () oneCycle,
      ∀ c ∈ cycle.captures, Decodable c := by
    rw [heard]
    simp only [List.mem_singleton, forall_eq]
    decide
  refine ⟨decodable, ?_⟩
  rw [ne_eq, renders_all (published_renders _ _ 0 () oneCycle).1, heard]
  decide +kernel

end GplugPublicationTrace
