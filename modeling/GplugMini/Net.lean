import Mathlib.Tactic.Common
import GplugMini.HaDiscovery
import GplugMini.Library.EmittingRun

/- The two event handlers of the network module and the flags they share. A handler's calls
   into WiFi, the MQTT client and the update module are what it emits. -/
namespace GplugNet
open ByteText EmittingRun GplugHaDiscovery

def hexDigit (n : Nat) : UInt8 := UInt8.ofNat (if n < 10 then 48 + n else 87 + n)

def hexByte (b : UInt8) : Bytes := [hexDigit (b.toNat / 16), hexDigit (b.toNat % 16)]

/-- mac_str: six octets in lower case, separated by colons. -/
def macText (mac : Fin 6 → UInt8) : Bytes :=
  [58].intercalate ((List.finRange 6).map fun i => hexByte (mac i))

structure Topics where
  statusTop : Bytes
  otaTop : Bytes
  stateTop : Bytes
  deriving DecidableEq, Repr

def Topics.start (mac : Bytes) : Topics where
  statusTop := (ascii "gplug/" ++ mac ++ ascii "/status").take 95
  otaTop := (ascii "gplug/" ++ mac ++ ascii "/cmd/ota").take 95
  stateTop := (ascii "gplug/" ++ mac ++ ascii "/state").take 95

inductive Event where
  | staStart
  | staDisconnected
  | gotIp
  | connected
  | disconnected
  | data (topic payload : Bytes)
  | error
  deriving DecidableEq, Repr

inductive Action where
  | wifiConnect
  | wait (ms : Nat)
  | publish (topic payload : Bytes) (qos : Nat) (retain : Bool)
  | subscribe (topic : Bytes) (qos : Nat)
  | markValidOnSession
  | handleCommand (payload : Bytes)
  deriving DecidableEq, Repr

/-- The will mqtt_start registers, which the broker publishes when a session breaks off. -/
def lastWill (tops : Topics) : Action := .publish tops.statusTop (ascii "offline") 1 true

structure NetState where
  connected : Bool
  sessionId : UInt32
  gotIp : Bool
  deriving DecidableEq, Repr

def NetState.boot : NetState := ⟨false, 0, false⟩

/-- strncmp(topic, text, length of topic) == 0, with topic not terminated. -/
def topicMatches (topic text : Bytes) : Bool := cstr topic == cstr (text.take topic.length)

def onWifi (s : NetState) : Event → NetState × List Action
  | .staStart => (s, [.wifiConnect])
  | .staDisconnected => ({ s with connected := false }, [.wait 2000, .wifiConnect])
  | .gotIp => ({ s with gotIp := true }, [])
  | _ => (s, [])

def onMqtt (tops : Topics) (s : NetState) : Event → NetState × List Action
  | .connected =>
      ({ s with connected := true, sessionId := s.sessionId + 1 },
        [.publish tops.statusTop (ascii "online") 1 true, .subscribe tops.otaTop 1,
          .markValidOnSession])
  | .disconnected => ({ s with connected := false }, [])
  | .data topic payload =>
      (s, if topic ≠ [] ∧ topicMatches topic tops.otaTop then [.handleCommand payload] else [])
  | _ => (s, [])

def handle (tops : Topics) (s : NetState) (e : Event) : NetState × List Action :=
  match e with
  | .staStart | .staDisconnected | .gotIp => onWifi s e
  | .connected | .disconnected | .data _ _ | .error => onMqtt tops s e

abbrev run (tops : Topics) (events : List Event) : NetState := final (handle tops) .boot events

theorem mac_text_length (mac : Fin 6 → UInt8) : (macText mac).length = 17 := by
  simp [macText, hexByte, List.finRange_succ]

theorem hex_digit_visible (n : Nat) (small : n < 16) : hexDigit n ≠ 0 := by
  have every : ∀ n < 16, hexDigit n ≠ 0 := by decide
  exact every n small

theorem mac_text_nul_free (octets : Fin 6 → UInt8) : NulFree (macText octets) := by
  have byte (b : UInt8) : NulFree (hexByte b) := by
    have small := b.toNat_lt
    simp only [hexByte, nul_free_cons, nul_free_nil, and_true]
    exact ⟨hex_digit_visible _ (by omega), hex_digit_visible _ (by omega)⟩
  simp [macText, List.finRange_succ, byte]

end GplugNet
