import Mathlib.Tactic.Common
import GplugMini.ObisMap

/- The Home Assistant discovery topics and payloads. A text that does not fit the caller's
   buffer is a failure, never a shortened text. -/
namespace GplugHaDiscovery
open ByteText GplugObisMap

/-- What snprintf into cap bytes wrote, when it wrote all of it. -/
def written (cap : Nat) (text : Bytes) : Option Bytes :=
  if text.length < cap then some text else none

structure Classes where
  deviceClass : Bytes
  stateClass : Bytes
  deriving DecidableEq, Repr

def classesFor : Kind → Option Classes
  | .cumulative => some ⟨ascii "energy", ascii "total_increasing"⟩
  | .instant => some ⟨ascii "power", ascii "measurement"⟩
  | _ => none

def discoveryTopic (cap : Nat) (serial label : Bytes) : Option Bytes :=
  written cap (ascii "homeassistant/sensor/" ++ serial ++ ascii "_" ++ label ++ ascii "/config")

def stateTopic (cap : Nat) (mac : Bytes) : Option Bytes :=
  written cap (ascii "gplug/" ++ mac ++ ascii "/state")

def statusTopic (cap : Nat) (mac : Bytes) : Option Bytes :=
  written cap (ascii "gplug/" ++ mac ++ ascii "/status")

def payloadText (entry : ObisEntry) (c : Classes) (serial mac state status : Bytes) : Bytes :=
  ascii "\x7b" ++
  ascii "\"name\":\"" ++ entry.label ++ ascii "\"," ++
  ascii "\"unique_id\":\"" ++ serial ++ ascii "_" ++ entry.label ++ ascii "\"," ++
  ascii "\"state_topic\":\"" ++ state ++ ascii "\"," ++
  ascii "\"availability_topic\":\"" ++ status ++ ascii "\"," ++
  ascii "\"payload_available\":\"online\"," ++
  ascii "\"payload_not_available\":\"offline\"," ++
  ascii "\"value_template\":\"\x7b\x7b value_json." ++ entry.label ++ ascii " \x7d\x7d\"," ++
  ascii "\"unit_of_measurement\":\"" ++ entry.unit ++ ascii "\"," ++
  ascii "\"device_class\":\"" ++ c.deviceClass ++ ascii "\"," ++
  ascii "\"state_class\":\"" ++ c.stateClass ++ ascii "\"," ++
  ascii "\"device\":\x7b" ++
  ascii "\"identifiers\":[\"gplug_" ++ serial ++ ascii "\"]," ++
  ascii "\"name\":\"gPlug-mini " ++ serial ++ ascii "\"," ++
  ascii "\"manufacturer\":\"Landis+Gyr\"," ++
  ascii "\"model\":\"E450\"," ++
  ascii "\"connections\":[[\"mac\",\"" ++ mac ++ ascii "\"]]" ++
  ascii "\x7d" ++
  ascii "\x7d"

def discoveryPayload (cap : Nat) (entry : ObisEntry) (serial mac : Bytes) : Option Bytes := do
  let c ← classesFor entry.kind
  let state ← stateTopic 96 mac
  let status ← statusTopic 96 mac
  written cap (payloadText entry c serial mac state status)

def promoted : List Bytes := [
  ascii "1.1.1.8.0.255", ascii "1.1.2.8.0.255", ascii "1.1.5.8.0.255", ascii "1.1.6.8.0.255",
  ascii "1.1.7.8.0.255", ascii "1.1.8.8.0.255", ascii "1.0.1.7.0.255", ascii "1.0.2.7.0.255"]

def config (mac serial obis : Bytes) : Option (Bytes × Bytes) := do
  let e ← obisLookup obis
  let topic ← discoveryTopic 128 serial e.label
  let payload ← discoveryPayload 768 e serial mac
  pure (topic, payload)

theorem written_fits {cap : Nat} {text : Bytes} (fits : text.length < cap) :
    written cap text = some text := if_pos fits

theorem payload_text_length (entry : ObisEntry) (c : Classes)
    (serial mac state status : Bytes) :
    (payloadText entry c serial mac state status).length =
      355 + 3 * entry.label.length + 3 * serial.length + mac.length + state.length +
        status.length + entry.unit.length + c.deviceClass.length + c.stateClass.length := by
  unfold payloadText
  simp only [List.length_append]
  simp only [ascii, String.reduceToList, List.map_cons, List.map_nil, List.length_cons,
    List.length_nil]
  omega

theorem promoted_listed : ∀ obis ∈ promoted, (obisLookup obis).any fun e =>
    e.label.length ≤ 19 ∧ e.unit.length ≤ 4 ∧ (e.kind = .cumulative ∨ e.kind = .instant) := by
  decide

theorem promoted_entry {obis : Bytes} (listed : obis ∈ promoted) :
    ∃ e, obisLookup obis = some e ∧ e.label.length ≤ 19 ∧ e.unit.length ≤ 4 ∧
      (e.kind = .cumulative ∨ e.kind = .instant) := by
  obtain ⟨e, found, texts⟩ := (Option.any_eq_true _ _).mp (promoted_listed obis listed)
  exact ⟨e, found, of_decide_eq_true texts⟩

def topicOf (serial label : Bytes) : Bytes :=
  ascii "homeassistant/sensor/" ++ serial ++ ascii "_" ++ label ++ ascii "/config"

def stateOf (mac : Bytes) : Bytes := ascii "gplug/" ++ mac ++ ascii "/state"

def statusOf (mac : Bytes) : Bytes := ascii "gplug/" ++ mac ++ ascii "/status"

theorem promoted_texts {mac serial obis : Bytes} (listed : obis ∈ promoted)
    (shortSerial : serial.length ≤ 31) (shortMac : mac.length ≤ 17) :
    ∃ e c, obisLookup obis = some e ∧ classesFor e.kind = some c ∧
      discoveryTopic 128 serial e.label = some (topicOf serial e.label) ∧
      discoveryPayload 768 e serial mac =
        some (payloadText e c serial mac (stateOf mac) (statusOf mac)) := by
  obtain ⟨e, found, label, unit, kind⟩ := promoted_entry listed
  obtain ⟨c, classes, device, state⟩ : ∃ c, classesFor e.kind = some c ∧
      c.deviceClass.length ≤ 6 ∧ c.stateClass.length ≤ 16 := by
    rcases kind with kind | kind <;> rw [kind] <;> exact ⟨_, rfl, by decide, by decide⟩
  have topicFits : (topicOf serial e.label).length < 128 := by
    simp [topicOf, ascii]
    omega
  have stateFits : (stateOf mac).length ≤ 29 := by
    simp [stateOf, ascii]
    omega
  have statusFits : (statusOf mac).length ≤ 30 := by
    simp [statusOf, ascii]
    omega
  have payloadFits := payload_text_length e c serial mac (stateOf mac) (statusOf mac)
  have stateText : stateTopic 96 mac = some (stateOf mac) :=
    written_fits (Nat.lt_of_le_of_lt stateFits (by decide))
  have statusText : statusTopic 96 mac = some (statusOf mac) :=
    written_fits (Nat.lt_of_le_of_lt statusFits (by decide))
  refine ⟨e, c, found, classes, written_fits topicFits, ?_⟩
  simp only [discoveryPayload, classes, stateText, statusText, Option.bind_eq_bind,
    Option.bind_some]
  exact written_fits (by omega)

theorem promoted_config {mac serial obis : Bytes} (listed : obis ∈ promoted)
    (shortSerial : serial.length ≤ 31) (shortMac : mac.length ≤ 17) :
    (config mac serial obis).isSome = true := by
  obtain ⟨e, c, found, _, topic, payload⟩ := promoted_texts listed shortSerial shortMac
  simp [config, found, topic, payload]

theorem topic_text {mac serial obis topic payload : Bytes}
    (built : config mac serial obis = some (topic, payload)) :
    ∃ e, obisLookup obis = some e ∧ topic =
      ascii "homeassistant/sensor/" ++ serial ++ ascii "_" ++ e.label ++ ascii "/config" := by
  simp only [config, discoveryTopic, written, Option.bind_eq_bind, Option.bind_eq_some_iff] at built
  obtain ⟨e, found, topic', made, payload', _, same⟩ := built
  obtain ⟨rfl, _⟩ := Prod.mk.inj (Option.some.inj same)
  split at made
  · exact ⟨e, found, (Option.some.inj made).symm⟩
  · cases made

theorem promoted_labels : ∀ a ∈ promoted, ∀ b ∈ promoted,
    (obisLookup a).map (·.label) = (obisLookup b).map (·.label) → a = b := by decide

theorem promoted_nodup : promoted.Nodup := by decide

theorem config_injective {mac serial a b : Bytes} {built : Bytes × Bytes} (left : a ∈ promoted)
    (right : b ∈ promoted) (first : config mac serial a = some built)
    (second : config mac serial b = some built) : a = b := by
  obtain ⟨d, here, topic⟩ := topic_text first
  obtain ⟨e, there, same⟩ := topic_text second
  rw [topic] at same
  have label : d.label = e.label := by simpa using same
  exact promoted_labels a left b right (by rw [here, there]; simp [label])

end GplugHaDiscovery
