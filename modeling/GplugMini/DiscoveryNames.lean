import Mathlib.Data.List.Infix
import Mathlib.Tactic.Common
import GplugMini.MeterSerial
import GplugMini.Net

/- The names under which a register is announced: that they are always written whole, and
   that no two registers and no two meters share one. -/
namespace GplugDiscoveryNames
open ByteText GplugObisMap GplugHaDiscovery GplugDecode GplugMeterSerial GplugNet

/-- What on_value can have stored of an identity. -/
structure Serial where
  text : Bytes
  free : NulFree text
  fits : 1 ≤ text.length ∧ text.length ≤ 31

structure Mac where
  text : Bytes
  free : NulFree text
  fits : text.length = 17

def Serial.latched {captures : List AxdrCapture} {s : DecodeState} (latched : Latched captures s)
    (set : cstr s.meterSerial ≠ []) : Serial where
  text := cstr s.meterSerial
  free := cstr_nul_free _
  fits := ⟨List.length_pos_of_ne_nil set, latched_serial_length latched⟩

def Mac.octets (octets : Fin 6 → UInt8) : Mac :=
  ⟨macText octets, mac_text_nul_free octets, mac_text_length octets⟩

def uniqueId (serial label : Bytes) : Bytes := serial ++ ascii "_" ++ label

theorem joined_injective {s t l m : Bytes} (left : ¬ ascii "_" ++ l <:+ m)
    (right : ¬ ascii "_" ++ m <:+ l) (same : uniqueId s l = uniqueId t m) : s = t ∧ l = m := by
  have first : ascii "_" ++ l <:+ uniqueId s l := ⟨s, by rw [uniqueId, List.append_assoc]⟩
  have second : ascii "_" ++ m <:+ uniqueId s l := ⟨t, by rw [same, uniqueId, List.append_assoc]⟩
  have sign : (ascii "_").length = 1 := rfl
  have equal : l.length = m.length := by
    by_contra different
    rcases Nat.lt_or_gt_of_ne different with shorter | longer
    · apply left
      refine List.suffix_of_suffix_length_le first ((List.suffix_append _ m).trans second) ?_
      rw [List.length_append]
      omega
    · apply right
      refine List.suffix_of_suffix_length_le second ((List.suffix_append _ l).trans first) ?_
      rw [List.length_append]
      omega
  obtain ⟨front, label⟩ := List.append_inj' same equal
  exact ⟨(List.append_inj' front rfl).1, label⟩

theorem labels_apart : ∀ l ∈ labels, ∀ m ∈ labels, ¬ ascii "_" ++ l <:+ m := by decide

theorem unique_id_injective {s t l m : Bytes} (left : l ∈ labels) (right : m ∈ labels)
    (same : uniqueId s l = uniqueId t m) : s = t ∧ l = m :=
  joined_injective (labels_apart l left m right) (labels_apart m right l left) same

theorem topic_of_unique_id (serial label : Bytes) :
    topicOf serial label =
      ascii "homeassistant/sensor/" ++ (uniqueId serial label ++ ascii "/config") := by
  simp only [topicOf, uniqueId, List.append_assoc]

theorem topic_same_id {s t l m : Bytes} (same : topicOf s l = topicOf t m) :
    uniqueId s l = uniqueId t m := by
  rw [topic_of_unique_id, topic_of_unique_id, List.append_cancel_left_eq,
    List.append_cancel_right_eq] at same
  exact same

theorem topic_whole {cap : Nat} {serial label topic : Bytes}
    (built : discoveryTopic cap serial label = some topic) : topic = topicOf serial label := by
  unfold discoveryTopic written at built
  split at built
  · exact (Option.some.inj built).symm
  · cases built

theorem payload_unique_id (e : ObisEntry) (c : Classes) (serial mac state status : Bytes) :
    ∃ rest, payloadText e c serial mac state status =
      ascii "\x7b" ++ (ascii "\"name\":\"" ++ (e.label ++ (ascii "\"," ++
        (ascii "\"unique_id\":\"" ++ (uniqueId serial e.label ++ (ascii "\"," ++ rest)))))) := by
  unfold payloadText uniqueId
  simp only [List.append_assoc]
  exact ⟨_, rfl⟩

theorem topic_some (serial label : Bytes) : topicOf serial label ≠ [] := by
  rw [topicOf]
  simp [ascii]

theorem payload_some (e : ObisEntry) (c : Classes) (serial mac state status : Bytes) :
    payloadText e c serial mac state status ≠ [] := by
  obtain ⟨rest, text⟩ := payload_unique_id e c serial mac state status
  rw [text]
  simp [ascii]

/-- The two texts announced for a register are written, each of them whole. -/
structure Announced (serial mac obis : Bytes) (e : ObisEntry) (c : Classes) : Prop where
  found : obisLookup obis = some e
  classes : classesFor e.kind = some c
  topic : discoveryTopic 128 serial e.label = some (topicOf serial e.label)
  topicSome : 0 < (topicOf serial e.label).length
  payload : discoveryPayload 768 e serial mac =
    some (payloadText e c serial mac (stateOf mac) (statusOf mac))
  payloadSome : 0 < (payloadText e c serial mac (stateOf mac) (statusOf mac)).length
  named : ∃ rest, payloadText e c serial mac (stateOf mac) (statusOf mac) =
    ascii "\x7b" ++ (ascii "\"name\":\"" ++ (e.label ++ (ascii "\"," ++
      (ascii "\"unique_id\":\"" ++ (uniqueId serial e.label ++ (ascii "\"," ++ rest))))))

theorem announced_texts (serial : Serial) (mac : Mac) {obis : Bytes} (listed : obis ∈ promoted) :
    ∃ e c, Announced serial.text mac.text obis e c := by
  obtain ⟨e, c, found, classes, topic, payload⟩ :=
    promoted_texts listed serial.fits.2 (Nat.le_of_eq mac.fits)
  exact ⟨e, c, found, classes, topic, List.length_pos_of_ne_nil (topic_some _ _), payload,
    List.length_pos_of_ne_nil (payload_some e c _ _ _ _), payload_unique_id e c _ _ _ _⟩

theorem latched_announced {captures : List AxdrCapture} {s : DecodeState}
    (latched : Latched captures s) (set : cstr s.meterSerial ≠ []) (octets : Fin 6 → UInt8)
    {obis : Bytes} (listed : obis ∈ promoted) :
    ∃ e c, Announced (cstr s.meterSerial) (macText octets) obis e c :=
  announced_texts (.latched latched set) (.octets octets) listed

theorem discovery_keeps_every_entity :
    (∀ (serial : Serial) (mac : Mac), ∀ obis ∈ promoted, ∃ e c,
      Announced serial.text mac.text obis e c) ∧
    (∀ (s t : Bytes), ∀ l ∈ labels, ∀ m ∈ labels,
      (∀ cap topic, discoveryTopic cap s l = some topic → discoveryTopic cap t m = some topic →
        s = t ∧ l = m) ∧
      (uniqueId s l = uniqueId t m → s = t ∧ l = m)) := by
  constructor
  · intro serial mac obis listed
    exact announced_texts serial mac listed
  · intro s t l left m right
    refine ⟨?_, unique_id_injective left right⟩
    intro cap topic first second
    apply unique_id_injective left right
    apply topic_same_id
    rw [← topic_whole first, ← topic_whole second]

end GplugDiscoveryNames
