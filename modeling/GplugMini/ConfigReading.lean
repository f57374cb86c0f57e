import Mathlib.Tactic.Common
import GplugMini.BootDecision

/- Which contents of the configuration namespace are taken for a usable record. -/
namespace GplugConfigReading
open ByteText CallTree GplugConfig GplugConfigStore GplugBootDecision

/-- The key is absent, or its text is in the record from its first byte to its last. -/
def InFull (flash : Flash) (c : Config) (k : Key) : Prop :=
  flash k = .absent ∨ ∃ text free, flash k = .str text free ∧ (c.get k).text = text

/-- There, and not a text nvs_get_str can return into the key's field. -/
def Unreadable (flash : Flash) (k : Key) : Prop :=
  flash k ≠ .absent ∧ ∀ text free, flash k = .str text free → k.cap ≤ text.length

/-- No fault is reported of a record that was not read in full, and no network is tried as an
    open one for want of a passphrase that is there. -/
structure NeverTaken (flash : Flash) : Prop where
  full : (boots flash).1 = .none → ∀ k, InFull flash (boots flash).2 k
  secret : Unreadable flash .pass →
    ¬ (configUsable (boots flash).2 = true ∧ (wifiStation (boots flash).2).authmode = .open)

def Holds (flash : Flash) (k : Key) (p : Bytes → Prop) : Prop :=
  ∃ text free, flash k = .str text free ∧ text.length < k.cap ∧ p text

/-- What is required can be read and is in order, and nothing readable speaks against it. -/
structure Promising (flash : Flash) : Prop where
  ssid : Holds flash .ssid (· ≠ [])
  broker : Holds flash .broker (ascii "://" <:+: ·)
  hostname : ∀ text free, flash .host = .str text free → text.length < Key.host.cap →
    validHostname text = true

theorem field_of_str {flash : Flash} {k : Key} {text : Bytes} {free : NulFree text}
    (entry : flash k = .str text free) (fits : text.length < k.cap) :
    flash.field k = ⟨text, free, fits⟩ := by
  rw [Flash.field, entry, NvsEntry.read, dif_pos fits]
  rfl

theorem field_of_unreadable {flash : Flash} {k : Key}
    (unread : ∀ text free, flash k = .str text free → k.cap ≤ text.length) :
    (flash.field k).text = [] := by
  have none : (flash k).read k.cap = none := by
    cases entry : flash k with
    | absent => rfl
    | unreadable => rfl
    | str text free =>
      have long := unread text free entry
      exact dif_neg (by omega)
  rw [Flash.field, none]
  rfl

theorem held_of_field {flash : Flash} {k : Key} (some : (flash.field k).text ≠ []) :
    Holds flash k (· = (flash.field k).text) := by
  by_contra absent
  apply some
  apply field_of_unreadable
  intro text free entry
  by_contra fits
  refine absent ⟨text, free, entry, by omega, ?_⟩
  rw [field_of_str entry (by omega)]

theorem in_full_iff (flash : Flash) (k : Key) :
    InFull flash flash.config k ↔ ¬ Unreadable flash k := by
  rw [InFull, Unreadable, flash_config_get]
  constructor
  · intro full unreadable
    rcases full with absent | ⟨text, free, entry, same⟩
    · exact unreadable.1 absent
    · have long := unreadable.2 text free entry
      have fits := (flash.field k).fits
      rw [same] at fits
      omega
  · intro readable
    by_cases absent : flash k = .absent
    · exact Or.inl absent
    · apply Or.inr
      by_contra unread
      refine readable ⟨absent, fun text free entry => ?_⟩
      by_contra fits
      refine unread ⟨text, free, entry, ?_⟩
      rw [field_of_str entry (by omega)]

theorem holds_field {flash : Flash} {k : Key} {p : Bytes → Prop} (holds : Holds flash k p) :
    p (flash.field k).text := by
  obtain ⟨text, free, entry, fits, held⟩ := holds
  rwa [field_of_str entry fits]

theorem promising_iff (flash : Flash) :
    Promising flash ↔ configUsable flash.config = true := by
  rw [config_usable_iff]
  constructor
  · intro promising
    refine ⟨holds_field promising.ssid, holds_field promising.broker, ?_⟩
    by_cases empty : (flash.field .host).text = []
    · rw [show flash.config.hostname = flash.field .host from rfl, empty]
      rfl
    · obtain ⟨text, free, entry, fits, same⟩ := held_of_field empty
      rw [show flash.config.hostname = flash.field .host from rfl, ← same]
      exact promising.hostname text free entry fits
  · intro usable
    obtain ⟨ssid, broker, hostname⟩ := usable
    have broken : (flash.field .broker).text ≠ [] := by
      intro empty
      rw [show flash.config.broker = flash.field .broker from rfl, empty] at broker
      exact absurd broker (by decide)
    obtain ⟨text, free, entry, fits, same⟩ := held_of_field ssid
    obtain ⟨uri, clean, stored, short, equal⟩ := held_of_field broken
    refine ⟨⟨text, free, entry, fits, same ▸ ssid⟩, ⟨uri, clean, stored, short, equal ▸ broker⟩, ?_⟩
    intro name free entry fits
    have read := field_of_str entry fits
    rwa [show flash.config.hostname = flash.field .host from rfl, read] at hostname

/-- An unreadable record is refused exactly when the two fields that may be empty can be read
    or are not there, or something else is wrong with the record. -/
theorem never_taken_iff (flash : Flash) :
    NeverTaken flash ↔
      (Promising flash → ¬ Unreadable flash .pass ∧ ¬ Unreadable flash .host) := by
  rw [promising_iff]
  have accepted : (boots flash).1 = .none ↔ configUsable flash.config = true := by
    simp [boots_eq, configUsable]
  have loaded : (boots flash).2 = flash.config := by rw [boots_eq]
  constructor
  · intro taken usable
    have full := taken.full (accepted.mpr usable)
    rw [loaded] at full
    exact ⟨(in_full_iff flash .pass).mp (full .pass), (in_full_iff flash .host).mp (full .host)⟩
  · intro readable
    constructor
    · intro fine k
      have usable := accepted.mp fine
      have promising := (promising_iff flash).mpr usable
      rw [loaded, in_full_iff]
      cases k with
      | ssid =>
        obtain ⟨text, free, entry, fits, _⟩ := promising.ssid
        intro unreadable
        exact absurd (unreadable.2 text free entry) (by omega)
      | broker =>
        obtain ⟨text, free, entry, fits, _⟩ := promising.broker
        intro unreadable
        exact absurd (unreadable.2 text free entry) (by omega)
      | pass => exact (readable usable).1
      | host => exact (readable usable).2
    · intro unreadable attempted
      rw [loaded] at attempted
      exact (readable attempted.1).1 unreadable

def damaged : Flash := fun k =>
  if k = .ssid then .str (ascii "workshop") (by decide)
  else if k = .broker then .str (ascii "mqtt://shelf") (by decide)
  else if k = .pass then .unreadable
  else .absent

/-- A passphrase that cannot be read is taken for none: the record is usable, and its network
    is tried as an open one. -/
theorem damaged_taken :
    (boots damaged).1 = .none ∧ (wifiStation (boots damaged).2).authmode = .open ∧
      ¬ NeverTaken damaged := by
  have loaded : (boots damaged).1 = .none ∧
      (wifiStation (boots damaged).2).authmode = .open := by
    rw [boots_eq]
    decide
  refine ⟨loaded.1, loaded.2, ?_⟩
  intro taken
  rcases taken.full loaded.1 .pass with absent | ⟨text, free, entry, _⟩
  · cases absent
  · cases entry

end GplugConfigReading
