import Mathlib.Data.List.Infix
import Mathlib.Tactic.Common
import GplugMini.Library.ByteText

/- The configuration record and the rules that decide whether it can be used. A field is
   the C string its array holds: no NUL in it, and room for one behind it. -/
namespace GplugConfig
open ByteText

def ssidMax : Nat := 32
def passphraseMax : Nat := 63
def brokerMax : Nat := 127
def hostnameMax : Nat := 32

structure Field (cap : Nat) where
  text : Bytes
  free : NulFree text
  fits : text.length < cap
  deriving DecidableEq, Repr

def Field.empty {cap : Nat} (room : 0 < cap) : Field cap := ⟨[], nul_free_nil, room⟩

/-- The four keys of the record, by the size of the array each is read into. -/
inductive Key where
  | ssid
  | pass
  | broker
  | host
  deriving DecidableEq, Repr

abbrev Key.cap : Key → Nat
  | .ssid => ssidMax + 1
  | .pass => passphraseMax + 1
  | .broker => brokerMax + 1
  | .host => hostnameMax + 1

theorem cap_positive (k : Key) : 0 < k.cap := by cases k <;> decide

structure Config where
  ssid : Field Key.ssid.cap
  passphrase : Field Key.pass.cap
  broker : Field Key.broker.cap
  hostname : Field Key.host.cap
  deriving DecidableEq, Repr

def Config.get (c : Config) : (k : Key) → Field k.cap
  | .ssid => c.ssid
  | .pass => c.passphrase
  | .broker => c.broker
  | .host => c.hostname

def Config.blank : Config :=
  ⟨.empty (by decide), .empty (by decide), .empty (by decide), .empty (by decide)⟩

inductive ConfigFault where
  | none
  | unparseable
  | noSsid
  | ssidTooLong
  | passphraseTooLong
  | noBroker
  | brokerMalformed
  | hostnameInvalid
  deriving DecidableEq, Repr

def describe : ConfigFault → Bytes
  | .none => ascii "valid"
  | .unparseable => ascii "the submission could not be read as a form"
  | .noSsid => ascii "no SSID stored"
  | .ssidTooLong => ascii "SSID longer than 802.11 permits"
  | .passphraseTooLong => ascii "passphrase longer than WPA2 permits"
  | .noBroker => ascii "no broker URI stored"
  | .brokerMalformed => ascii "broker URI has no scheme"
  | .hostnameInvalid => ascii "hostname is not a valid DNS label"

def hyphen : UInt8 := 45

def hostnameByte (c : UInt8) : Bool :=
  (97 ≤ c && c ≤ 122) || (65 ≤ c && c ≤ 90) || (48 ≤ c && c ≤ 57) || c == hyphen

def validHostname (h : Bytes) : Bool :=
  if h = [] then true
  else if hostnameMax < h.length then false
  else if h.headD 0 = hyphen ∨ h.getLastD 0 = hyphen then false
  else h.all hostnameByte

def configFault (c : Config) : ConfigFault :=
  if c.ssid.text = [] then .noSsid
  else if ssidMax < c.ssid.text.length then .ssidTooLong
  else if passphraseMax < c.passphrase.text.length then .passphraseTooLong
  else if c.broker.text = [] then .noBroker
  else if ¬ ascii "://" <:+: c.broker.text then .brokerMalformed
  else if !validHostname c.hostname.text then .hostnameInvalid
  else .none

def configUsable (c : Config) : Bool := configFault c = .none

@[ext] theorem field_ext {cap : Nat} {f g : Field cap} (same : f.text = g.text) : f = g := by
  cases f
  cases g
  simpa using same

theorem config_ext {c d : Config} (same : ∀ k, c.get k = d.get k) : c = d := by
  cases c
  cases d
  simp only [Config.mk.injEq]
  exact ⟨same .ssid, same .pass, same .broker, same .host⟩

theorem config_usable_iff (c : Config) :
    configUsable c = true ↔ c.ssid.text ≠ [] ∧ ascii "://" <:+: c.broker.text ∧
      validHostname c.hostname.text = true := by
  have ssid := c.ssid.fits
  have passphrase := c.passphrase.fits
  have scheme (absent : c.broker.text = []) : ¬ ascii "://" <:+: c.broker.text := by
    rw [absent]
    decide
  simp only [Key.cap] at ssid passphrase
  simp only [configUsable, configFault]
  grind

end GplugConfig
