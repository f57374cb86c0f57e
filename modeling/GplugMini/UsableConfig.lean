import Mathlib.Data.List.Infix
import Mathlib.Tactic.Common
import GplugMini.Provisioning

/- Which of the configurations judged usable a device can attempt: what the network, the
   broker and the name each ask of their text. -/
namespace GplugUsableConfig
open ByteText GplugConfig
open GplugProvisioning (wpa2MinPassphrase)

/-- What stands before the first "://" of a text, and what stands behind it. -/
structure Parted (text scheme rest : Bytes) : Prop where
  whole : text = scheme ++ (ascii "://" ++ rest)
  first : ¬ ascii "://" <:+: scheme

def LabelByte (b : UInt8) : Prop :=
  b ∈ ascii "abcdefghijklmnopqrstuvwxyz" ∨ b ∈ ascii "ABCDEFGHIJKLMNOPQRSTUVWXYZ" ∨
    b ∈ ascii "0123456789" ∨ b ∈ ascii "-"

instance (b : UInt8) : Decidable (LabelByte b) := inferInstanceAs (Decidable (_ ∨ _))

structure Attemptable (c : Config) : Prop where
  ssid : 1 ≤ c.ssid.text.length ∧ c.ssid.text.length ≤ 32
  passphrase : c.passphrase.text = [] ∨
    wpa2MinPassphrase ≤ c.passphrase.text.length ∧ c.passphrase.text.length ≤ 63
  broker : ∃ scheme rest, Parted c.broker.text scheme rest ∧ scheme ≠ [] ∧ rest ≠ []
  hostname : c.hostname.text = [] ∨
    c.hostname.text.length ≤ 32 ∧ (∀ b ∈ c.hostname.text, LabelByte b) ∧
      ¬ ascii "-" <+: c.hostname.text ∧ ¬ ascii "-" <:+ c.hostname.text

def JudgedRight (c : Config) : Prop := configFault c = .none ↔ Attemptable c

def OneSided (text : Bytes) : Prop :=
  Parted text [] (text.drop 3) ∨ Parted text (text.take (text.length - 3)) []

/-- The record is refused for another field, or has neither of the two faults that pass: a
    passphrase too short for WPA2, a broker with nothing on one side of its "://". -/
def Covered (c : Config) : Prop :=
  c.ssid.text = [] ∨ ¬ ascii "://" <:+: c.broker.text ∨ validHostname c.hostname.text = false ∨
    ¬ (1 ≤ c.passphrase.text.length ∧ c.passphrase.text.length < wpa2MinPassphrase) ∧
      ¬ OneSided c.broker.text

theorem parted_exists {text : Bytes} (held : ascii "://" <:+: text) :
    ∃ scheme rest, Parted text scheme rest := by
  induction text with
  | nil => exact absurd held (by decide)
  | cons b text ih =>
    rcases List.infix_cons_iff.mp held with start | later
    · obtain ⟨rest, whole⟩ := start
      exact ⟨[], rest, whole.symm, by decide⟩
    · by_cases start : ascii "://" <+: b :: text
      · obtain ⟨rest, whole⟩ := start
        exact ⟨[], rest, whole.symm, by decide⟩
      · obtain ⟨scheme, rest, whole, first⟩ := ih later
        refine ⟨b :: scheme, rest, by rw [whole, List.cons_append], ?_⟩
        intro inside
        rcases List.infix_cons_iff.mp inside with front | deep
        · apply start
          rw [whole, ← List.cons_append]
          exact front.trans (List.prefix_append _ _)
        · exact first deep

/-- The three characters differ from those before them, so two of them cannot overlap. -/
theorem parted_le {text s r s' r' : Bytes} (one : Parted text s r) (two : Parted text s' r')
    (shorter : s.length ≤ s'.length) : s = s' := by
  have both := one.whole.symm.trans two.whole
  obtain ⟨between, rfl⟩ := List.prefix_of_prefix_length_le (List.prefix_append s _)
    (both ▸ List.prefix_append s' _) shorter
  rw [List.append_assoc, List.append_cancel_left_eq] at both
  match between with
  | [] => rw [List.append_nil]
  | [_] => exact absurd both (by simp [ascii])
  | [_, _] => exact absurd both (by simp [ascii])
  | x :: y :: z :: more =>
    refine absurd ?_ two.first
    have front : ascii "://" = [x, y, z] := by
      have := congrArg (List.take 3) both
      simpa [ascii] using this
    rw [front]
    exact ⟨s, more, by simp⟩

theorem parted_unique {text s r s' r' : Bytes} (one : Parted text s r)
    (two : Parted text s' r') : s = s' ∧ r = r' := by
  have same : s = s' := by
    rcases Nat.le_total s.length s'.length with shorter | longer
    · exact parted_le one two shorter
    · exact (parted_le two one longer).symm
  refine ⟨same, ?_⟩
  have both := one.whole.symm.trans two.whole
  rw [same, List.append_cancel_left_eq, List.append_cancel_left_eq] at both
  exact both

theorem broker_iff (text : Bytes) :
    (∃ scheme rest, Parted text scheme rest ∧ scheme ≠ [] ∧ rest ≠ []) ↔
      ascii "://" <:+: text ∧ ¬ OneSided text := by
  constructor
  · rintro ⟨scheme, rest, parted, before, behind⟩
    refine ⟨⟨scheme, rest, by rw [parted.whole, List.append_assoc]⟩, ?_⟩
    rintro (left | right)
    · exact before (parted_unique parted left).1
    · exact behind (parted_unique parted right).2
  · rintro ⟨held, sided⟩
    obtain ⟨scheme, rest, parted⟩ := parted_exists held
    refine ⟨scheme, rest, parted, ?_, ?_⟩
    · rintro rfl
      apply sided
      left
      have := parted.whole
      rw [List.nil_append] at this
      have dropped : text.drop 3 = rest := by rw [this]; rfl
      rwa [dropped]
    · rintro rfl
      apply sided
      right
      have := parted.whole
      have taken : text.take (text.length - 3) = scheme := by
        rw [this, List.append_nil]
        exact List.take_left' (by simp [ascii])
      rwa [taken]

theorem label_byte_iff (b : UInt8) : hostnameByte b = true ↔ LabelByte b := by
  have every : ∀ n < 256, hostnameByte (UInt8.ofNat n) = true ↔ LabelByte (UInt8.ofNat n) := by
    decide +kernel
  have := every b.toNat b.toNat_lt
  rwa [UInt8.ofNat_toNat] at this

theorem starts_with_hyphen {h : Bytes} (some : h ≠ []) :
    h.headD 0 = hyphen ↔ ascii "-" <+: h := by
  obtain ⟨b, rest, rfl⟩ := List.exists_cons_of_ne_nil some
  simp [ascii, hyphen, List.cons_prefix_cons, eq_comm]

theorem ends_with_hyphen {h : Bytes} (some : h ≠ []) :
    h.getLastD 0 = hyphen ↔ ascii "-" <:+ h := by
  obtain ⟨before, b, rfl⟩ := List.eq_nil_or_concat h |>.resolve_left some
  simp [ascii, hyphen, eq_comm]

theorem hostname_iff (h : Bytes) :
    validHostname h = true ↔ h = [] ∨
      h.length ≤ 32 ∧ (∀ b ∈ h, LabelByte b) ∧ ¬ ascii "-" <+: h ∧ ¬ ascii "-" <:+ h := by
  by_cases none : h = []
  · simp [validHostname, none]
  · rw [validHostname, if_neg none, ← starts_with_hyphen none, ← ends_with_hyphen none]
    have bytes : h.all hostnameByte = true ↔ ∀ b ∈ h, LabelByte b := by
      simp only [List.all_eq_true, label_byte_iff]
    rw [← bytes]
    simp only [hostnameMax]
    grind

theorem attemptable_iff (c : Config) :
    Attemptable c ↔ c.ssid.text ≠ [] ∧
      ¬ (1 ≤ c.passphrase.text.length ∧ c.passphrase.text.length < wpa2MinPassphrase) ∧
      (ascii "://" <:+: c.broker.text ∧ ¬ OneSided c.broker.text) ∧
      validHostname c.hostname.text = true := by
  have ssid := c.ssid.fits
  have passphrase := c.passphrase.fits
  simp only [Key.cap, ssidMax, passphraseMax] at ssid passphrase
  rw [hostname_iff, ← broker_iff, ← List.length_pos_iff]
  constructor
  · intro attemptable
    refine ⟨attemptable.ssid.1, ?_, attemptable.broker, attemptable.hostname⟩
    rcases attemptable.passphrase with none | long
    · simp [none]
    · omega
  · rintro ⟨some, long, broker, hostname⟩
    refine ⟨⟨some, by omega⟩, ?_, broker, hostname⟩
    rw [← List.length_eq_zero_iff]
    simp only [wpa2MinPassphrase] at *
    omega

theorem judged_right_iff (c : Config) : JudgedRight c ↔ Covered c := by
  have usable := config_usable_iff c
  rw [configUsable, decide_eq_true_eq] at usable
  rw [JudgedRight, usable, attemptable_iff, Covered]
  cases validHostname c.hostname.text with
  | false => simp
  | true => tauto

def shortPassphrase : Config where
  ssid := ⟨ascii "home", by decide, by decide⟩
  passphrase := ⟨ascii "seven77", by decide, by decide⟩
  broker := ⟨ascii "mqtt://b", by decide, by decide⟩
  hostname := Config.blank.hostname

theorem short_passphrase_passes :
    configFault shortPassphrase = .none ∧ ¬ Attemptable shortPassphrase ∧
      ¬ JudgedRight shortPassphrase := by
  have passes : configFault shortPassphrase = .none := by decide
  have cannot : ¬ Attemptable shortPassphrase := by
    intro attemptable
    rcases attemptable.passphrase with none | long
    · exact absurd none (by decide)
    · exact absurd long.1 (by decide)
  exact ⟨passes, cannot, fun right => cannot (right.mp passes)⟩

end GplugUsableConfig
