import Mathlib.Tactic.Common
import GplugMini.DiscoveryTexts
import GplugMini.PublicationTrace
import GplugMini.Library.FlatJson

/- What a home that hears the device makes of it: an entity out of each config announced, and
   out of each state message the number the entity shows. -/
namespace GplugHomeReadings
open ByteText DecimalText FlatObject FirstOccurrence EmittingRun CallTree FlatJson
open GplugObisMap GplugHaDiscovery GplugAggregator GplugDecode GplugMeterSerial GplugNet
open GplugPublishCycle GplugMainLoop GplugDiscoveryNames GplugDiscoveryTexts GplugPublicationTrace
open JsonText (Json Members Plain parse isDigit)

/-- An entity as a config describes it, and the key its value template reads. -/
structure Entity where
  uniqueId : Bytes
  stateTopic : Bytes
  availabilityTopic : Bytes
  available : Bytes
  notAvailable : Bytes
  key : Bytes
  deriving DecidableEq, Repr

def templateOpens : Bytes := ascii "\x7b\x7b value_json."
def templateCloses : Bytes := ascii " \x7d\x7d"

def templateKey (template : Bytes) : Option Bytes :=
  let key := (template.drop templateOpens.length).take
    (template.length - templateOpens.length - templateCloses.length)
  if template = templateOpens ++ key ++ templateCloses then some key else none

def textUnder (key : Bytes) (found : Members) : Option Bytes :=
  match found.get key with
  | [.string text] => some text
  | _ => none

def entityOf (payload : Bytes) : Option Entity :=
  match parse payload with
  | some (.object found) => do
      let uniqueId ← textUnder (ascii "unique_id") found
      let stateTopic ← textUnder (ascii "state_topic") found
      let availabilityTopic ← textUnder (ascii "availability_topic") found
      let available ← textUnder (ascii "payload_available") found
      let notAvailable ← textUnder (ascii "payload_not_available") found
      let template ← textUnder (ascii "value_template") found
      let key ← templateKey template
      pure ⟨uniqueId, stateTopic, availabilityTopic, available, notAvailable, key⟩
  | _ => none

def Entity.reads (e : Entity) (message : Bytes) : Option Bytes :=
  match parse message with
  | some (.object found) =>
      match found.get e.key with
      | [.number digits] => some digits
      | _ => none
  | _ => none

def Numbers (members : List Member) : Prop := ∀ m ∈ members, m.2.getLast?.any isDigit = true

instance (members : List Member) : Decidable (Numbers members) := by
  unfold Numbers
  infer_instance

/-- The entity of a register reads each message as the reading of its cycle, or as nothing
    when that has none, or when another member of the message is no number. -/
structure ReadsRun (mac : Bytes) (messages : List Bytes) (cycles : List (List Member))
    (label : Bytes) (entity : Entity) : Prop where
  state : entity.stateTopic = (Topics.start mac).stateTop
  online : ∀ s, .publish entity.availabilityTopic entity.available 1 true ∈
    (onMqtt (.start mac) s .connected).2
  offline : lastWill (.start mac) =
    .publish entity.availabilityTopic entity.notAvailable 1 true
  reads : List.Forall₂ (fun message members => entity.reads message =
    if Numbers members then members.lookup label else none) messages cycles

/- The printed values, in the terms of the two libraries. -/

theorem ends_digit {text : Bytes} (nonempty : text ≠ []) (digits : ∀ b ∈ text, isDigit b = true)
    (front : Bytes) : (front ++ text).getLast?.any isDigit = true := by
  rw [List.getLast?_append_of_ne_nil _ nonempty, List.getLast?_eq_some_getLast nonempty]
  exact digits _ (List.getLast_mem nonempty)

theorem fixed3_cases (v : Double) :
    (NumberText (fixed3 v) ∧ (fixed3 v).getLast?.any isDigit = true) ∨
      (NoValue (fixed3 v) ∧ (fixed3 v).getLast?.any isDigit = false) := by
  cases v with
  | finite negative mantissa exponent =>
    refine .inl ⟨fixed3_number negative mantissa exponent, ends_digit (by simp [threeDigits]) ?_ _⟩
    intro b member
    have small (d : Nat) (less : d < 10) : isDigit (UInt8.ofNat (48 + d)) = true := by
      rw [is_digit_iff, IsDigit, UInt8.toNat_ofNat']
      omega
    simp only [threeDigits, List.mem_cons, List.not_mem_nil, or_false] at member
    rcases member with rfl | rfl | rfl <;> exact small _ (Nat.mod_lt _ (by omega))
  | infinite negative => exact .inr ⟨(fixed3_no_value negative).1, by cases negative <;> decide⟩
  | nan negative => exact .inr ⟨(fixed3_no_value negative).2, by cases negative <;> decide⟩

theorem member_cases {captures : List AxdrCapture} {m : Member}
    (member : m ∈ cycleMembers captures) :
    (NumberText m.2 ∧ m.2.getLast?.any isDigit = true) ∨
      (NoValue m.2 ∧ m.2.getLast?.any isDigit = false) := by
  obtain ⟨c, _, offer⟩ := List.mem_filterMap.mp (mem_of_first_wins member)
  unfold offered at offer
  cases found : c.entry with
  | none => simp [found] at offer
  | some e =>
    cases numeric : c.isNumeric with
    | false => simp [found, numeric] at offer
    | true =>
      obtain rfl : (e.label, rendered e c) = m := by simpa [found, numeric] using offer
      rw [rendered]
      split
      · refine .inl ⟨decimal_number _, ?_⟩
        have digits := decimal_digits (bigEndian c.value % 2 ^ 64)
        have last := ends_digit (decimal_ne_nil (bigEndian c.value % 2 ^ 64))
          fun b inside => (is_digit_iff b).mpr (digits b inside)
        simpa using last []
      · exact fixed3_cases _

theorem labels_plain : ∀ label ∈ labels, Plain label := by
  have low : ∀ label ∈ labels, ∀ b ∈ label, b ≤ 0x7F ∧ JsonText.PlainByte b := by decide
  intro label listed
  exact JsonText.plain_of_ascii (low label listed)

theorem message_read (captures : List AxdrCapture) :
    parse (objectText (cycleMembers captures)) =
      if Numbers (cycleMembers captures) then some (.object (numberMembers (cycleMembers captures)))
      else none := by
  have plain : ∀ m ∈ cycleMembers captures, Plain m.1 := fun m member =>
    labels_plain _ (cycle_members_label member).1
  by_cases numbers : Numbers (cycleMembers captures)
  · rw [if_pos numbers]
    apply parse_numbers plain
    intro m member
    rcases member_cases member with ⟨number, _⟩ | ⟨_, other⟩
    · exact number
    · rw [numbers m member] at other
      cases other
  · rw [if_neg numbers]
    simp only [Numbers, not_forall] at numbers
    obtain ⟨m, member, other⟩ := numbers
    apply parse_no_value plain
    · intro d member
      rcases member_cases member with ⟨number, _⟩ | ⟨unread, _⟩
      · exact .inl number
      · exact .inr unread
    · refine ⟨m, member, ?_⟩
      rcases member_cases member with ⟨_, digit⟩ | ⟨unread, _⟩
      · exact absurd digit other
      · exact unread

theorem lookup_of_filter {members : List Member} (nodup : (keys members).Nodup) (key : Bytes) :
    (members.filter fun m => m.1 = key) =
      match members.lookup key with
      | some text => [(key, text)]
      | none => [] := by
  induction members with
  | nil => rfl
  | cons m members ih =>
    obtain ⟨label, text⟩ := m
    obtain ⟨fresh, rest⟩ := List.nodup_cons.mp nodup
    rw [List.filter_cons, List.lookup_cons]
    by_cases same : label = key
    · subst same
      have absent : members.filter (fun m => m.1 = label) = [] := by
        rw [List.filter_eq_nil_iff]
        intro d member shares
        have named : d.1 = label := by simpa using shares
        exact fresh (List.mem_map.mpr ⟨d, member, named⟩)
      simp [absent]
    · have other : (key == label) = false := by simpa using Ne.symm same
      simp [same, other, ih rest]

theorem entity_reads (entity : Entity) (captures : List AxdrCapture) :
    entity.reads (objectText (cycleMembers captures)) =
      if Numbers (cycleMembers captures) then (cycleMembers captures).lookup entity.key
      else none := by
  have once := lookup_of_filter (first_wins_nodup (captures.filterMap offered)) entity.key
  rw [Entity.reads, message_read]
  by_cases numbers : Numbers (cycleMembers captures)
  · simp only [if_pos numbers, get_number_members]
    rw [cycleMembers, once]
    cases (firstWins (captures.filterMap offered)).lookup entity.key <;> rfl
  · simp only [if_neg numbers]

theorem template_key (label : Bytes) :
    templateKey (templateOpens ++ label ++ templateCloses) = some label := by
  have key : ((templateOpens ++ label ++ templateCloses).drop templateOpens.length).take
      ((templateOpens ++ label ++ templateCloses).length - templateOpens.length -
        templateCloses.length) = label := by
    rw [List.append_assoc, List.drop_left' rfl]
    apply List.take_left'
    simp only [List.length_append]
    omega
  rw [templateKey, key, if_pos rfl]

theorem payload_texts (e : ObisEntry) (c : Classes) (serial mac state status : Bytes) :
    let found := payloadMembers e c serial mac state status
    textUnder (ascii "unique_id") found = some (uniqueId serial e.label) ∧
      textUnder (ascii "state_topic") found = some state ∧
      textUnder (ascii "availability_topic") found = some status ∧
      textUnder (ascii "payload_available") found = some (ascii "online") ∧
      textUnder (ascii "payload_not_available") found = some (ascii "offline") ∧
      textUnder (ascii "value_template") found =
        some (templateOpens ++ e.label ++ templateCloses) := by
  simp [payloadMembers, textUnder, Members.get, ascii, templateOpens, templateCloses]

theorem config_entity {octets : Fin 6 → UInt8} {serial obis topic payload : Bytes}
    (listed : obis ∈ promoted) (short : serial.length ≤ 31) (readable : Readable serial)
    (built : config (macText octets) serial obis = some (topic, payload)) :
    ∃ e, obisLookup obis = some e ∧ entityOf payload = some
      ⟨uniqueId serial e.label, stateOf (macText octets), statusOf (macText octets),
        ascii "online", ascii "offline", e.label⟩ := by
  obtain ⟨e, c, found, classes, topicText, payloadBuilt⟩ :=
    promoted_texts listed short (Nat.le_of_eq (mac_text_length octets))
  obtain ⟨_, same⟩ : topic = topicOf serial e.label ∧ payload = payloadText e c serial
      (macText octets) (stateOf (macText octets)) (statusOf (macText octets)) := by
    simpa [config, found, topicText, payloadBuilt, eq_comm] using built
  have clear := found_clear listed found
  have compact := payload_compact readable.plain (clear_label clear).1
    (JsonText.plain_of_ascii clear.2.2.2) (classes_plain classes) octets
  have parsed := JsonText.parse_text compact
  rw [← payload_text_members, ← same] at parsed
  obtain ⟨id, state, availability, available, notAvailable, template⟩ :=
    payload_texts e c serial (macText octets) (stateOf (macText octets)) (statusOf (macText octets))
  refine ⟨e, found, ?_⟩
  rw [entityOf, parsed]
  simp only [id, state, availability, available, notAvailable, template, template_key,
    Option.bind_eq_bind, Option.bind_some, Option.pure_def]

/- Which configs a run announces. -/

def discoveryText : Output → Option (Bytes × Bytes)
  | .discovery topic payload => some (topic, payload)
  | _ => none

theorem publish_set_configs (set : CycleSet) (p : Pass) (s : UInt32 × List Output) :
    ((publishSet set).run (answer p) s).2.2.filterMap discoveryText =
      s.2.filterMap discoveryText := by
  rw [publish_set_run]
  cases set.empty <;> simp [discoveryText]

theorem publish_cycle_configs (mac meterSerial : Bytes) (set : CycleSet) (p : Pass)
    (s : UInt32 × List Output) {c : Bytes × Bytes}
    (sent : c ∈ ((publishCycle mac meterSerial set).run (answer p) s).2.2.filterMap
      discoveryText) :
    c ∈ s.2.filterMap discoveryText ∨
      meterSerial.headD 0 ≠ 0 ∧ ∃ obis ∈ promoted, config mac (cstr meterSerial) obis = some c := by
  unfold publishCycle at sent
  simp only [bind_eq, perform_bind, run_call, answer] at sent
  by_cases up : p.connected = true
  · by_cases unknown : meterSerial.headD 0 = 0
    · simp only [up, unknown, Bool.not_true, Bool.false_eq_true, ↓reduceIte, pure_eq_ret,
        run_ret] at sent
      exact .inl sent
    · simp only [up, Bool.not_true, Bool.false_eq_true, ↓reduceIte, unknown, run_call,
        answer] at sent
      by_cases differs : (s.1 != p.compared) = true
      · simp only [differs, ↓reduceIte, run_bind, announce_run, run_call, answer,
          publish_set_configs, List.filterMap_append, List.mem_append] at sent
        rcases sent with earlier | now
        · exact .inl earlier
        · right
          obtain ⟨_, listed, same⟩ := List.mem_filterMap.mp now
          obtain ⟨built, made, rfl⟩ := List.mem_map.mp listed
          obtain rfl : built = c := by simpa [discoveryText] using same
          obtain ⟨obis, among, found⟩ := List.mem_filterMap.mp made
          exact ⟨unknown, obis, among, found⟩
      · simp only [differs, Bool.false_eq_true, ↓reduceIte, publish_set_configs] at sent
        exact .inl sent
  · simp only [up, Bool.not_false, ↓reduceIte, pure_eq_ret, run_ret] at sent
    exact .inl sent

theorem probe_configs (undecoded objects : Nat) (cycle : Bytes) :
    (probe undecoded objects cycle).2.filterMap discoveryText = [] := by
  unfold probe
  split_ifs <;> rfl

section
variable {Parser : Type} (parse : Parser → Bytes → ParseOut Parser) (mac : Bytes)

theorem end_cycle_configs (s : LoopState Parser) (p : Pass) {c : Bytes × Bytes}
    (sent : c ∈ (endCycle parse mac s p).2.filterMap discoveryText) :
    (endCycle parse mac s p).1.decode.meterSerial.headD 0 ≠ 0 ∧ ∃ obis ∈ promoted,
      config mac (cstr (endCycle parse mac s p).1.decode.meterSerial) obis = some c := by
  let parsed := decodeBuffer parse onValue s.parser s.rx.cycle s.decode.startCycle
  have kept : (endCycle parse mac s p).1.decode.meterSerial = parsed.heard.meterSerial := rfl
  rw [kept]
  rcases publish_cycle_configs mac parsed.heard.meterSerial parsed.heard.cycleSet p
    (s.discoverySession, (probe s.undecoded parsed.objects parsed.cycle).2) sent with
    earlier | now
  · rw [probe_configs] at earlier
    exact absurd earlier List.not_mem_nil
  · exact now

theorem pass_configs (s : LoopState Parser) (p : Pass) {c : Bytes × Bytes}
    (sent : c ∈ (pass parse mac s p).2.filterMap discoveryText) :
    (pass parse mac s p).1.decode.meterSerial.headD 0 ≠ 0 ∧ ∃ obis ∈ promoted,
      config mac (cstr (pass parse mac s p).1.decode.meterSerial) obis = some c := by
  unfold GplugMainLoop.pass at sent ⊢
  by_cases returned : p.read.bytes ≠ []
  · rw [if_pos returned] at sent
    exact absurd sent List.not_mem_nil
  · rw [if_neg returned] at sent ⊢
    by_cases ended : s.rx.ended p.read = true
    · rw [if_pos ended] at sent ⊢
      exact end_cycle_configs parse mac s p sent
    · rw [if_neg ended] at sent
      exact absurd sent List.not_mem_nil

theorem marks_append (earlier later : List AxdrCapture) :
    marks (earlier ++ later) = marks earlier ++ marks later := by
  simp [marks]

theorem run_configs (boot : Nat) (parser : Parser) (passes : List Pass) {c : Bytes × Bytes}
    (sent : c ∈ (emitted (pass parse mac) (.boot boot parser) passes).filterMap discoveryText) :
    let heard := (cyclesHeard parse boot parser passes).flatMap Cycle.captures
    marks heard ≠ [] ∧ ∃ obis ∈ promoted, config mac ((marks heard).headD []) obis = some c := by
  induction passes using List.reverseRecOn with
  | nil => simp at sent
  | append_singleton passes p ih =>
    have traced := (published_renders parse mac boot parser (passes ++ [p])).2
    rw [emitted_snoc, List.filterMap_append, List.mem_append] at sent
    rcases sent with earlier | now
    · obtain ⟨marked, listed⟩ := ih earlier
      simp only [cyclesHeard, emitted_snoc, List.flatMap_append, marks_append]
      obtain ⟨mark, rest, shape⟩ := List.exists_cons_of_ne_nil marked
      simp only [cyclesHeard] at shape listed
      simp only [shape, List.cons_append, List.headD_cons] at listed ⊢
      exact ⟨by simp, listed⟩
    · have named := pass_configs parse mac _ p now
      have text := traced.latched.text
      rw [final_snoc] at text
      rw [text] at named
      refine ⟨?_, named.2⟩
      intro unmarked
      have unset := (cstr_eq_nil_iff _).mp (text.trans (by rw [unmarked]; rfl))
      exact named.1 unset

end

/-- Every entity a run announces makes of every message of the run the reading of its cycle,
    when the meter's name stands for itself and the messages are whole. -/
theorem run_readings {Parser : Type} (parse : Parser → Bytes → ParseOut Parser)
    (octets : Fin 6 → UInt8) (boot : Nat) (parser : Parser) (passes : List Pass)
    (usual : ∀ cycle ∈ cyclesHeard parse boot parser passes,
      ∀ c ∈ cycle.captures, Decodable c ∧ ShortInstant c)
    (readable : Readable ((marks ((cyclesHeard parse boot parser passes).flatMap
      Cycle.captures)).headD []))
    {topic payload : Bytes} (announced : .discovery topic payload ∈
      emitted (pass parse (macText octets)) (.boot boot parser) passes) :
    ∃ obis ∈ promoted, ∃ e entity, obisLookup obis = some e ∧
      config (macText octets) ((marks ((cyclesHeard parse boot parser passes).flatMap
        Cycle.captures)).headD []) obis = some (topic, payload) ∧
      entityOf payload = some entity ∧
      ReadsRun (macText octets) (published parse (macText octets) boot parser passes)
        (owedBy [] (cyclesHeard parse boot parser passes)) e.label entity := by
  have sent := List.mem_filterMap.mpr ⟨_, announced, (rfl : discoveryText _ = some _)⟩
  obtain ⟨_, obis, listed, built⟩ := run_configs parse (macText octets) boot parser passes sent
  have traced := (published_renders parse (macText octets) boot parser passes).2
  have short := latched_serial_length traced.latched
  rw [traced.latched.text] at short
  obtain ⟨e, found, made⟩ := config_entity listed short readable built
  refine ⟨obis, listed, e, _, found, built, made, ?_⟩
  have length := mac_text_length octets
  have state : (stateOf (macText octets)).length ≤ 95 := by simp [stateOf, ascii, length]
  have status : (statusOf (macText octets)).length ≤ 95 := by simp [statusOf, ascii, length]
  refine ⟨?_, ?_, ?_, ?_⟩
  · exact (List.take_of_length_le state).symm
  · intro s
    have whole : (Topics.start (macText octets)).statusTop = statusOf (macText octets) :=
      List.take_of_length_le status
    rw [onMqtt, whole]
    exact List.mem_cons_self
  · have whole : (Topics.start (macText octets)).statusTop = statusOf (macText octets) :=
      List.take_of_length_le status
    rw [lastWill, whole]
  · have rendered := (published_renders parse (macText octets) boot parser passes).1
    have messages := (renders_all rendered).mpr (by
      intro members due
      obtain ⟨c, member, nonempty, rfl⟩ := owed_members due
      exact cycle_members_fit (fun d arrived => (usual c member d arrived).1)
        (fun d arrived => (usual c member d arrived).2) nonempty)
    rw [messages, List.forall₂_map_left_iff, List.forall₂_same]
    intro members due
    obtain ⟨c, _, _, rfl⟩ := owed_members due
    exact entity_reads _ c.captures

def scripted (sets : List (List AxdrCapture)) (span : Bytes) : ParseOut (List (List AxdrCapture)) :=
  ⟨sets.headD [], (sets.headD []).length, span.length, span, sets.tail⟩

def overflowing : List (List AxdrCapture) :=
  [plainSet, [register "1.1.1.8.0.255" [0x02] (.finite false 2 0),
    register "1.0.1.7.0.255" [0xFF] (.infinite false)]]

def twoCycles : List Pass :=
  oneCycle ++ [⟨⟨[0x7E], 3000000⟩, true, 1, 1⟩, ⟨⟨[], 5000000⟩, true, 1, 1⟩]

theorem run_readings_overflow :
    ∃ obis ∈ promoted, ∃ e entity, obisLookup obis = some e ∧
      ReadsRun (macText fun _ => 0)
        (published scripted (macText fun _ => 0) 0 overflowing twoCycles)
        (overflowing.map cycleMembers) e.label entity ∧
      overflowing.map (fun captures => decide (Numbers (cycleMembers captures))) =
        [true, false] := by
  have heard : cyclesHeard scripted 0 overflowing twoCycles =
      overflowing.map fun captures => ⟨captures, true⟩ := rfl
  have owes : owedBy [] (overflowing.map fun captures => ⟨captures, true⟩) =
      overflowing.map cycleMembers := by decide +kernel
  have name : (marks ((overflowing.map fun captures => (⟨captures, true⟩ : Cycle)).flatMap
      Cycle.captures)).headD [] = ascii "LGZ1030655933512" := by decide +kernel
  have sent : (emitted (pass scripted (macText fun _ => 0)) (.boot 0 overflowing) twoCycles).any
      (fun o => (discoveryText o).isSome) = true := by decide +kernel
  obtain ⟨o, announced, text⟩ := List.any_eq_true.mp sent
  cases o with
  | discovery topic payload =>
    obtain ⟨obis, listed, e, entity, found, _, _, reads⟩ :=
      run_readings scripted (fun _ => 0) 0 overflowing twoCycles
        (by rw [heard]; simp only [overflowing]; decide)
        (by rw [heard, name]; exact ⟨JsonText.plain_of_ascii (by decide), by decide⟩) announced
    rw [heard, owes] at reads
    exact ⟨obis, listed, e, entity, found, reads, by decide +kernel⟩
  | _ => cases text

end GplugHomeReadings
