import Mathlib.Tactic.Common
import GplugMini.DiscoveryNames
import GplugMini.MeterSerial
import GplugMini.Net
import GplugMini.Library.JsonText

/- What a receiver reads from the two texts announced for a register, whatever the meter
   calls itself. -/
namespace GplugDiscoveryTexts
open ByteText Utf8Text JsonText GplugObisMap GplugHaDiscovery GplugDecode GplugMeterSerial
open GplugNet GplugDiscoveryNames
open FlatObject (quote comma colon openBrace closeBrace)

def slash : UInt8 := 47

/-- A text the decoder may return for an identity object. -/
structure Identity where
  obis : Bytes
  text : Bytes
  identity : obisIsIdentity obis = true
  free : NulFree text
  short : text.length ≤ 128

def meterSerial (i : Identity) : Bytes :=
  cstr (onValue .boot (textCapture i.obis i.text)).meterSerial

def device (serial mac : Bytes) : Members :=
  .cons (ascii "identifiers") (.array (.cons (.string (ascii "gplug_" ++ serial)) .nil)) <|
  .cons (ascii "name") (.string (ascii "gPlug-mini " ++ serial)) <|
  .cons (ascii "manufacturer") (.string (ascii "Landis+Gyr")) <|
  .cons (ascii "model") (.string (ascii "E450")) <|
  .cons (ascii "connections") (.array (.cons (.array (.cons (.string (ascii "mac"))
    (.cons (.string mac) .nil))) .nil)) .nil

def payloadMembers (e : ObisEntry) (c : Classes) (serial mac state status : Bytes) : Members :=
  .cons (ascii "name") (.string e.label) <|
  .cons (ascii "unique_id") (.string (uniqueId serial e.label)) <|
  .cons (ascii "state_topic") (.string state) <|
  .cons (ascii "availability_topic") (.string status) <|
  .cons (ascii "payload_available") (.string (ascii "online")) <|
  .cons (ascii "payload_not_available") (.string (ascii "offline")) <|
  .cons (ascii "value_template")
    (.string (ascii "\x7b\x7b value_json." ++ e.label ++ ascii " \x7d\x7d")) <|
  .cons (ascii "unit_of_measurement") (.string e.unit) <|
  .cons (ascii "device_class") (.string c.deviceClass) <|
  .cons (ascii "state_class") (.string c.stateClass) <|
  .cons (ascii "device") (.object (device serial mac)) .nil

structure LegalTopic (topic : Bytes) : Prop where
  utf8 : Utf8 topic
  plain : ∀ b ∈ topic, b ≠ 0 ∧ b ≠ FormCoding.plus ∧ b ≠ 35
  size : 1 ≤ topic.length ∧ topic.length ≤ 65535

def levels (topic : Bytes) : List Bytes := topic.splitOn slash

/-- A receiver of the two texts reads the names that were meant. -/
structure ReadRight (serial label topic payload : Bytes) : Prop where
  object : ∃ found gadget, parse payload = some (.object found) ∧
    found.get (ascii "unique_id") = [.string (uniqueId serial label)] ∧
    found.get (ascii "device") = [.object gadget] ∧
    gadget.get (ascii "identifiers") =
      [.array (.cons (.string (ascii "gplug_" ++ serial)) .nil)]
  legal : LegalTopic topic
  four : (levels topic).length = 4

def Announces (mac serial obis : Bytes) : Prop :=
  ∃ e topic payload, obisLookup obis = some e ∧
    config mac serial obis = some (topic, payload) ∧ ReadRight serial e.label topic payload

theorem meter_serial_eq (i : Identity) : meterSerial i = i.text.take 31 := by
  have kept := on_value_serial .boot (textCapture i.obis i.text)
  have entry : identityText (textCapture i.obis i.text) =
      if i.text = [] then none else some i.text := by
    have code : (textCapture i.obis i.text).code = i.obis := by
      rcases (identity_codes i.obis).mp i.identity with obis | obis | obis <;> rw [obis] <;> rfl
    have identity := i.identity
    unfold obisIsIdentity at identity
    split at identity
    · rename_i e found
      have kind : e.kind = .identity := by simpa using identity
      rw [identityText, AxdrCapture.entry, code, found]
      by_cases empty : i.text = []
      · simp [textCapture, empty]
      · simp [textCapture, empty, kind]
    · cases identity
  rw [entry] at kept
  rw [meterSerial, kept]
  by_cases empty : i.text = []
  · simp only [empty, ↓reduceIte, List.take_nil]
    decide
  · rw [if_neg empty]
    simp only
    rw [if_pos (by decide), store_serial_text, stored,
      cstr_of_nul_free (nul_free_take i.free _)]
    rfl

set_option maxRecDepth 8000 in
theorem payload_text_members (e : ObisEntry) (c : Classes) (serial mac state status : Bytes) :
    payloadText e c serial mac state status =
      (Json.object (payloadMembers e c serial mac state status)).text := by
  unfold payloadText payloadMembers device uniqueId
  simp [Json.text, Members.text, Items.text, ascii, quote, colon, comma, openBrace,
    closeBrace, openBracket, closeBracket]

/-- The serials that stand for themselves in both texts. -/
structure Readable (serial : Bytes) : Prop where
  plain : Plain serial
  separate : ∀ b ∈ serial, b ≠ slash ∧ b ≠ FormCoding.plus ∧ b ≠ 35

def Clear (e : ObisEntry) : Prop :=
  e.label.getLast? ≠ some backslash ∧ e.label ≠ [] ∧
    (∀ b ∈ e.label, b ≤ 0x7F ∧ PlainByte b ∧ b ≠ slash ∧ b ≠ FormCoding.plus ∧ b ≠ 35) ∧
    ∀ b ∈ e.unit, b ≤ 0x7F ∧ PlainByte b

instance (e : ObisEntry) : Decidable (Clear e) := inferInstanceAs (Decidable (_ ∧ _))

theorem promoted_clear : ∀ obis ∈ promoted, (obisLookup obis).any (Clear ·) := by decide

theorem found_clear {obis : Bytes} (listed : obis ∈ promoted) {e : ObisEntry}
    (found : obisLookup obis = some e) : Clear e := by
  have clear := promoted_clear obis listed
  rw [found] at clear
  exact of_decide_eq_true clear

theorem classes_plain {kind : Kind} {c : Classes} (found : classesFor kind = some c) :
    Plain c.deviceClass ∧ Plain c.stateClass := by
  cases kind with
  | cumulative =>
    obtain rfl := Option.some.inj found
    exact ⟨plain_of_ascii (by decide), plain_of_ascii (by decide)⟩
  | instant =>
    obtain rfl := Option.some.inj found
    exact ⟨plain_of_ascii (by decide), plain_of_ascii (by decide)⟩
  | unknown | identity | timestamp => cases found

theorem mac_plain (octets : Fin 6 → UInt8) : Plain (macText octets) := by
  have digit : ∀ n < 16, hexDigit n ≤ 0x7F ∧ PlainByte (hexDigit n) := by decide
  have pair (o : UInt8) : Plain (hexByte o) := by
    have := o.toNat_lt
    apply plain_of_ascii
    intro b member
    simp only [hexByte, List.mem_cons, List.not_mem_nil, or_false] at member
    rcases member with rfl | rfl
    · exact digit _ (by omega)
    · exact digit _ (by omega)
  have sign : Plain [58] := plain_of_ascii (by decide)
  have next {rest : Bytes} (plain : Plain rest) : Plain (58 :: rest) := plain_append sign plain
  have shape : macText octets = hexByte (octets 0) ++ 58 :: (hexByte (octets 1) ++
      58 :: (hexByte (octets 2) ++ 58 :: (hexByte (octets 3) ++
        58 :: (hexByte (octets 4) ++ 58 :: hexByte (octets 5))))) := by
    simp [macText, List.finRange_succ, List.intercalate]
  rw [shape]
  exact plain_append (pair _) (next (plain_append (pair _) (next (plain_append (pair _)
    (next (plain_append (pair _) (next (plain_append (pair _) (next (pair _))))))))))

def payloadWords : List Bytes := [
  ascii "name", ascii "unique_id", ascii "state_topic", ascii "availability_topic",
  ascii "payload_available", ascii "online", ascii "payload_not_available", ascii "offline",
  ascii "value_template", ascii "unit_of_measurement", ascii "device_class",
  ascii "state_class", ascii "device", ascii "identifiers", ascii "manufacturer",
  ascii "Landis+Gyr", ascii "model", ascii "E450", ascii "connections", ascii "mac"]

theorem payload_words_plain : ∀ text ∈ payloadWords, Plain text := by
  have every : ∀ text ∈ payloadWords, ∀ b ∈ text, b ≤ 0x7F ∧ PlainByte b := by decide
  intro text member
  exact plain_of_ascii (every text member)

theorem payload_compact {e : ObisEntry} {c : Classes} {serial : Bytes} (readable : Plain serial)
    (label : Plain e.label) (unit : Plain e.unit)
    (classes : Plain c.deviceClass ∧ Plain c.stateClass) (octets : Fin 6 → UInt8) :
    (Json.object (payloadMembers e c serial (macText octets) (stateOf (macText octets))
      (statusOf (macText octets)))).Compact := by
  have mac := mac_plain octets
  have front : Plain (ascii "gplug/") := plain_of_ascii (by decide)
  have state : Plain (stateOf (macText octets)) :=
    plain_append (plain_append front mac) (plain_of_ascii (by decide))
  have status : Plain (statusOf (macText octets)) :=
    plain_append (plain_append front mac) (plain_of_ascii (by decide))
  have name : Plain (uniqueId serial e.label) :=
    plain_append (plain_append readable (plain_of_ascii (by decide))) label
  have template : Plain (ascii "\x7b\x7b value_json." ++ e.label ++ ascii " \x7d\x7d") :=
    plain_append (plain_append (plain_of_ascii (by decide)) label) (plain_of_ascii (by decide))
  have identifier : Plain (ascii "gplug_" ++ serial) :=
    plain_append (plain_of_ascii (by decide)) readable
  have shown : Plain (ascii "gPlug-mini " ++ serial) :=
    plain_append (plain_of_ascii (by decide)) readable
  have fixed := payload_words_plain
  simp only [payloadWords, List.forall_mem_cons] at fixed
  simp [-List.append_assoc, payloadMembers, device, Json.Compact, Members.Compact, Items.Compact,
    fixed, label, name, state, status, template, unit, classes, identifier, shown, mac]

theorem levels_length (topic : Bytes) : (levels topic).length = topic.count slash + 1 := by
  unfold levels
  induction topic with
  | nil => rfl
  | cons b topic ih =>
    rw [List.splitOn_cons_eq_if_modifyHead, List.count_cons]
    split
    · simp [ih]
    · simp [ih]

theorem topic_levels {serial label : Bytes} (separate : slash ∉ label) :
    (levels (topicOf serial label)).length = 4 ↔ slash ∉ serial := by
  have counts : (ascii "homeassistant/sensor/").count slash = 2 ∧ (ascii "_").count slash = 0 ∧
      (ascii "/config").count slash = 1 := by decide
  rw [levels_length, topicOf, List.count_append, List.count_append, List.count_append,
    List.count_append, counts.1, counts.2.1, counts.2.2, List.count_eq_zero.mpr separate,
    ← List.count_eq_zero]
  omega

theorem payload_opens (e : ObisEntry) (c : Classes) (serial mac state status : Bytes) :
    ∃ rest, payloadText e c serial mac state status =
      openBrace :: quote :: (ascii "name" ++ (quote :: colon :: quote :: (e.label ++
        (quote :: comma :: quote :: (ascii "unique_id" ++ (quote :: colon :: quote ::
          (uniqueId serial e.label ++ (quote :: rest)))))))) := by
  obtain ⟨rest, text⟩ := payload_unique_id e c serial mac state status
  refine ⟨comma :: rest, ?_⟩
  rw [text]
  simp [ascii, quote, colon, comma, openBrace]

theorem unique_id_plain {e : ObisEntry} {c : Classes} {serial mac state status : Bytes}
    {found : Members} (label : Plain e.label) (closed : e.label.getLast? ≠ some backslash)
    (named : e.label ≠ [])
    (parsed : parse (payloadText e c serial mac state status) = some (.object found))
    (read : found.get (ascii "unique_id") = [.string (uniqueId serial e.label)]) :
    Plain (uniqueId serial e.label) := by
  obtain ⟨rest, text⟩ := payload_opens e c serial mac state status
  rw [text] at parsed
  obtain ⟨fuel, found', more, same, first⟩ := parse_object parsed
  obtain rfl := Json.object.inj same
  have words := payload_words_plain
  obtain ⟨name, behind, last, meant, rfl, next⟩ :=
    members_string (words _ (by decide)) first
  rw [content_plain label _ (by rw [List.length_append]; omega)] at meant
  obtain ⟨rfl, rfl⟩ := Prod.mk.inj (Option.some.inj meant)
  obtain ⟨fuel', second⟩ := next _ rfl
  have start (input : Bytes) : skip (quote :: input) = quote :: input := by
    simp [skip, isBlank, quote]
  rw [start] at second
  obtain ⟨id, behind, last, meant, rfl, _⟩ := members_string (words _ (by decide)) second
  have value : id = uniqueId serial e.label := by
    rw [Members.get, if_neg (by decide), Members.get, if_pos rfl] at read
    exact Json.string.inj (List.cons.inj read).1
  have ending : (uniqueId serial e.label).getLast? ≠ some backslash := by
    rw [uniqueId, List.getLast?_append]
    rw [List.getLast?_eq_some_getLast named] at closed ⊢
    exact closed
  exact (content_within meant ending).2 value

theorem payload_members_named (e : ObisEntry) (c : Classes) (serial mac state status : Bytes) :
    (payloadMembers e c serial mac state status).get (ascii "unique_id") =
        [.string (uniqueId serial e.label)] ∧
      (payloadMembers e c serial mac state status).get (ascii "device") =
        [.object (device serial mac)] := by
  simp [payloadMembers, Members.get, ascii]

theorem device_named (serial mac : Bytes) : (device serial mac).get (ascii "identifiers") =
    [.array (.cons (.string (ascii "gplug_" ++ serial)) .nil)] := by
  simp [device, Members.get, ascii]

theorem topic_fits {cap : Nat} {serial label topic : Bytes}
    (built : discoveryTopic cap serial label = some topic) : topic.length < cap := by
  unfold discoveryTopic written at built
  split at built
  · rename_i fits
    rwa [← Option.some.inj built]
  · cases built

theorem plain_not_nul {b : UInt8} (plain : PlainByte b) : b ≠ 0 := by
  rintro rfl
  exact absurd plain.1 (by decide)

def TopicByte (b : UInt8) : Prop := b ≠ 0 ∧ b ≠ FormCoding.plus ∧ b ≠ 35

instance (b : UInt8) : Decidable (TopicByte b) := inferInstanceAs (Decidable (_ ∧ _))

theorem topic_legal {serial label : Bytes} (readable : Readable serial)
    (fits : (topicOf serial label).length < 128) (utf8 : Utf8 label)
    (texts : ∀ b ∈ label, TopicByte b) : LegalTopic (topicOf serial label) := by
  have low : ∀ text ∈ [ascii "homeassistant/sensor/", ascii "_", ascii "/config"],
      ∀ b ∈ text, b ≤ 0x7F ∧ TopicByte b := by decide
  have fixed (text : Bytes) (member : text ∈ _) := low text member
  have front := fixed _ (List.mem_cons_self)
  have middle := fixed _ (List.mem_cons_of_mem _ List.mem_cons_self)
  have back := fixed _ (List.mem_cons_of_mem _ (List.mem_cons_of_mem _ List.mem_cons_self))
  have own : ∀ b ∈ serial, TopicByte b := by
    intro b member
    exact ⟨plain_not_nul (readable.plain.2 b member), (readable.separate b member).2⟩
  refine ⟨?_, ?_, ?_, by omega⟩
  · exact utf8_append (utf8_append (utf8_append (utf8_append
      (utf8_of_ascii fun b member => (front b member).1) readable.plain.1)
      (utf8_of_ascii fun b member => (middle b member).1)) utf8)
      (utf8_of_ascii fun b member => (back b member).1)
  · intro b member
    simp only [topicOf, List.mem_append] at member
    rcases member with (((first | second) | third) | fourth) | fifth
    · exact (front b first).2
    · exact own b second
    · exact (middle b third).2
    · exact texts b fourth
    · exact (back b fifth).2
  · exact List.length_pos_of_ne_nil (topic_some serial label)

theorem clear_label {e : ObisEntry} (clear : Clear e) : Plain e.label ∧ slash ∉ e.label := by
  obtain ⟨_, _, label, _⟩ := clear
  constructor
  · exact plain_of_ascii fun b member => ⟨(label b member).1, (label b member).2.1⟩
  · exact fun inside => (label slash inside).2.2.1 rfl

theorem read_right_readable {e : ObisEntry} {c : Classes} {serial mac state status : Bytes}
    (clear : Clear e) (right : ReadRight serial e.label (topicOf serial e.label)
      (payloadText e c serial mac state status)) : Readable serial := by
  obtain ⟨plainLabel, separate⟩ := clear_label clear
  obtain ⟨closed, named, _, _⟩ := clear
  obtain ⟨members, _, parsed, read, _⟩ := right.object
  have plainId := unique_id_plain plainLabel closed named parsed read
  have sign : uniqueId serial e.label = serial ++ 95 :: e.label := by
    simp [uniqueId, ascii]
  have inTopic : ∀ b ∈ serial, b ∈ topicOf serial e.label := by
    intro b member
    simp [topicOf, member]
  rw [sign] at plainId
  refine ⟨⟨utf8_before (by decide) plainId.1, ?_⟩, ?_⟩
  · intro b member
    exact plainId.2 b (List.mem_append_left _ member)
  · intro b member
    have noSlash : slash ∉ serial := (topic_levels separate).mp right.four
    have plain := right.legal.plain b (inTopic b member)
    exact ⟨fun same => noSlash (same ▸ member), plain.2.1, plain.2.2⟩

theorem readable_read_right {e : ObisEntry} {c : Classes} {serial : Bytes}
    (octets : Fin 6 → UInt8) (clear : Clear e) (classes : classesFor e.kind = some c)
    (fits : (topicOf serial e.label).length < 128) (readable : Readable serial) :
    ReadRight serial e.label (topicOf serial e.label) (payloadText e c serial (macText octets)
      (stateOf (macText octets)) (statusOf (macText octets))) := by
  obtain ⟨plainLabel, separate⟩ := clear_label clear
  obtain ⟨_, _, label, unit⟩ := clear
  have noSlash : slash ∉ serial := fun inside => (readable.separate slash inside).1 rfl
  refine ⟨?_, ?_, (topic_levels separate).mpr noSlash⟩
  · have compact := payload_compact readable.plain plainLabel (plain_of_ascii unit)
      (classes_plain classes) octets
    refine ⟨payloadMembers e c serial (macText octets) (stateOf (macText octets))
      (statusOf (macText octets)), device serial (macText octets), ?_, ?_, ?_, ?_⟩
    · rw [payload_text_members]
      exact parse_text compact
    · exact (payload_members_named e c serial _ _ _).1
    · exact (payload_members_named e c serial _ _ _).2
    · exact device_named serial _
  · apply topic_legal readable fits plainLabel.1
    intro b member
    exact ⟨plain_not_nul (plainLabel.2 b member), (label b member).2.2.2⟩

/-- With a text for the serial that fits, a receiver reads what was meant exactly if the serial
    stands for itself. -/
theorem announces_iff {obis serial : Bytes} (octets : Fin 6 → UInt8) (listed : obis ∈ promoted)
    (fits : serial.length ≤ 31) :
    Announces (macText octets) serial obis ↔ Readable serial := by
  obtain ⟨e, c, found, classes, topic, payload⟩ :=
    promoted_texts listed fits (Nat.le_of_eq (mac_text_length octets))
  have clear := found_clear listed found
  have built : config (macText octets) serial obis = some (topicOf serial e.label,
      payloadText e c serial (macText octets) (stateOf (macText octets))
        (statusOf (macText octets))) := by
    simp [config, found, topic, payload]
  constructor
  · rintro ⟨e', topic', payload', found', made, right⟩
    obtain rfl := Option.some.inj (found.symm.trans found')
    have both := made.symm.trans built
    simp only [Option.some.injEq, Prod.mk.injEq] at both
    obtain ⟨topicSame, payloadSame⟩ := both
    rw [topicSame, payloadSame] at right
    exact read_right_readable clear right
  · intro readable
    exact ⟨e, _, _, found, built,
      readable_read_right octets clear classes (topic_fits topic) readable⟩

/-- What is announced under an identity is read as it was meant, and nothing under another
    text has the same unique_id. -/
structure WellAnnounced (octets : Fin 6 → UInt8) (i j : Identity) : Prop where
  announces : ∀ obis ∈ promoted, Announces (macText octets) (meterSerial i) obis
  apart : i.text ≠ j.text → ∀ a ∈ promoted, ∀ b ∈ promoted, ∀ d e, obisLookup a = some d →
    obisLookup b = some e → uniqueId (meterSerial i) d.label ≠ uniqueId (meterSerial j) e.label

theorem serial_announces (octets : Fin 6 → UInt8) (i : Identity) {obis : Bytes}
    (listed : obis ∈ promoted) :
    Announces (macText octets) (meterSerial i) obis ↔ Readable (i.text.take 31) := by
  rw [← meter_serial_eq]
  apply announces_iff octets listed
  rw [meter_serial_eq, List.length_take]
  omega

theorem same_serial_same_id {i j : Identity} (same : i.text.take 31 = j.text.take 31)
    (label : Bytes) : uniqueId (meterSerial i) label = uniqueId (meterSerial j) label := by
  rw [meter_serial_eq, meter_serial_eq, same]

theorem well_announced_iff (octets : Fin 6 → UInt8) (i j : Identity) :
    WellAnnounced octets i j ↔
      Readable (i.text.take 31) ∧ (i.text ≠ j.text → i.text.take 31 ≠ j.text.take 31) := by
  have first : ascii "1.1.1.8.0.255" ∈ promoted := List.mem_cons_self
  constructor
  · intro well
    refine ⟨(serial_announces octets i first).mp (well.announces _ first), ?_⟩
    intro different same
    obtain ⟨e, found, _⟩ := promoted_entry first
    exact well.apart different _ first _ first e e found found (same_serial_same_id same e.label)
  · rintro ⟨readable, apart⟩
    refine ⟨fun obis listed => (serial_announces octets i listed).mpr readable, ?_⟩
    intro different a _ b _ d e here there same
    have left := label_mem (lookup_mem here)
    have right := label_mem (lookup_mem there)
    have serials := (unique_id_injective left right same).1
    rw [meter_serial_eq, meter_serial_eq] at serials
    exact apart different serials

def quoted : Identity where
  obis := logicalDeviceName
  text := ascii "LGZ\"1"
  identity := (identity_codes _).mpr (.inl rfl)
  free := by decide
  short := by decide

def long (last : UInt8) (visible : last ≠ 0) : Identity where
  obis := logicalDeviceName
  text := List.replicate 31 65 ++ [last]
  identity := (identity_codes _).mpr (.inl rfl)
  free := by
    rw [nul_free_append, nul_free_cons]
    exact ⟨by decide, visible, nul_free_nil⟩
  short := by simp

/-- A quote in an identity breaks every payload, and two long ones are announced as one. -/
theorem identity_breaks_discovery :
    (∀ obis ∈ promoted, ¬ Announces (macText fun _ => 0) (meterSerial quoted) obis) ∧
      ¬ WellAnnounced (fun _ => 0) quoted quoted ∧
      (long 66 (by decide)).text ≠ (long 67 (by decide)).text ∧
      ∀ label, uniqueId (meterSerial (long 66 (by decide))) label =
        uniqueId (meterSerial (long 67 (by decide))) label := by
  have broken : ¬ Readable (quoted.text.take 31) := by
    intro readable
    have quoteInside : quote ∈ quoted.text.take 31 := by decide
    exact (readable.plain.2 quote quoteInside).2.1 rfl
  have never : ∀ obis ∈ promoted, ¬ Announces (macText fun _ => 0) (meterSerial quoted) obis := by
    intro obis listed announces
    exact broken ((serial_announces _ quoted listed).mp announces)
  refine ⟨never, ?_, by simp [long], ?_⟩
  · intro well
    exact never _ List.mem_cons_self (well.announces _ List.mem_cons_self)
  · exact same_serial_same_id (by simp [long])

end GplugDiscoveryTexts
