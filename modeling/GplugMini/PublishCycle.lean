import Mathlib.Tactic.Common
import GplugMini.Aggregator
import GplugMini.HaDiscovery
import GplugMini.Library.CallTree

/- publish_cycle as the calls it makes: on the network module and on the discovery session,
   which the MQTT task's events change the meaning of. -/
namespace GplugPublishCycle
open ByteText CallTree GplugAggregator GplugHaDiscovery

inductive LoopOp where
  | mqttConnected
  /-- discovery_session != mqtt_session() -/
  | sessionDiffers
  | publishDiscovery (topic payload : Bytes)
  /-- discovery_session = mqtt_session() -/
  | latchSession
  | publishState (payload : Bytes)
  | indicatePublish

abbrev LoopOp.Answer : LoopOp → Type
  | .mqttConnected | .sessionDiffers => Bool
  | .publishDiscovery _ _ | .latchSession | .publishState _ | .indicatePublish => Unit

abbrev Calls := Prog LoopOp LoopOp.Answer

/-- The loop over the promoted registers: one that has no config is passed over. -/
def announce (mac serial : Bytes) : List Bytes → Calls Unit
  | [] => pure ()
  | obis :: rest => do
      match config mac serial obis with
      | some (topic, payload) => perform (LoopOp.publishDiscovery topic payload)
      | none => pure ()
      announce mac serial rest

def publishSet (set : CycleSet) : Calls CycleSet :=
  if set.empty then pure set
  else do
    perform (LoopOp.publishState set.json.2)
    perform LoopOp.indicatePublish
    pure set.json.1

def publishCycle (mac meterSerial : Bytes) (set : CycleSet) : Calls CycleSet := do
  let connected ← perform LoopOp.mqttConnected
  if !connected then pure set
  else if meterSerial.headD 0 = 0 then pure set
  else do
    let differs ← perform LoopOp.sessionDiffers
    if differs then do
      announce mac (cstr meterSerial) promoted
      perform LoopOp.latchSession
      publishSet set
    else publishSet set

end GplugPublishCycle
