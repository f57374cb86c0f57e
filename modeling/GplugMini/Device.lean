import Mathlib.Tactic.Common
import GplugMini.MainLoop
import GplugMini.Net
import GplugMini.Ota

/- One boot of the device with a usable configuration: what the event handlers, the download
   tasks and the main loop share, from mqtt_start to the restart that ends it. -/
namespace GplugDevice
open ByteText EmittingRun GplugMainLoop GplugNet GplugOta

structure Device (Parser : Type) where
  net : NetState
  ota : Ota
  image : Image
  loop : LoopState Parser

/-- An event handled, with what xTaskCreate and the image calls answer should its handler
    come to them; a step of a download task; a pass of the main loop. -/
inductive Happening where
  | event (e : Event) (created : Bool) (api : ImageApi)
  | starts (i : Nat)
  | indicates (i : Nat)
  | fetches (i : Nat)
  | returns (i : Nat) (ok : Bool)
  | ends
  | meter (p : Pass)

inductive Report where
  | commandReturned (ok : Bool)
  | imageCall (call : ImageCall)
  deriving DecidableEq, Repr

section
variable {Parser : Type} (parse : Parser → Bytes → ParseOut Parser) (mac : Bytes)

def Device.start (net : NetState) (image : ImageState) (loop : LoopState Parser) :
    Device Parser := ⟨net, .boot, ⟨image, false⟩, loop⟩

/-- The part of an action that is the update module's. -/
def Device.act (created : Bool) (api : ImageApi) (d : Device Parser) :
    Action → Device Parser × List Report
  | .handleCommand payload =>
      let (ota, ok) := otaHandleCommand d.ota payload created
      ({ d with ota := ota }, [.commandReturned ok])
  | .markValidOnSession =>
      let (image, calls) := otaMarkValidOnSession d.image api
      ({ d with image := image }, calls.map .imageCall)
  | _ => (d, [])

def Device.event (d : Device Parser) (e : Event) (created : Bool) (api : ImageApi) :
    Device Parser × List Report :=
  let (net, actions) := handle (.start mac) d.net e
  let handled : Device Parser := { d with net := net }
  (final (Device.act created api) handled actions, emitted (Device.act created api) handled actions)

def Device.step (d : Device Parser) : Happening → Device Parser × List Report
  | .event e created api => d.event mac e created api
  | .starts i => ({ d with ota := d.ota.step (.starts i) }, [])
  | .indicates i => ({ d with ota := d.ota.step (.indicates i) }, [])
  | .fetches i => ({ d with ota := d.ota.step (.fetches i) }, [])
  | .returns i ok => ({ d with ota := d.ota.step (.returns i ok) }, [])
  | .ends => ({ d with ota := d.ota.step .ends }, [])
  | .meter p => ({ d with loop := (pass parse mac d.loop p).1 }, [])

end

/- What one event does, handler by handler. -/

section
variable {Parser : Type} (mac : Bytes) (d : Device Parser)

theorem event_connected (created : Bool) (api : ImageApi) :
    d.event mac .connected created api =
      ({ d with net := (handle (.start mac) d.net .connected).1
                image := (otaMarkValidOnSession d.image api).1 },
        (otaMarkValidOnSession d.image api).2.map .imageCall) := by
  simp [Device.event, handle, onMqtt, Device.act, emitted]

theorem event_data (topic payload : Bytes) (created : Bool) (api : ImageApi) :
    d.event mac (.data topic payload) created api =
      if topic ≠ [] ∧ topicMatches topic (Topics.start mac).otaTop then
        ({ d with ota := (otaHandleCommand d.ota payload created).1 },
          [.commandReturned (otaHandleCommand d.ota payload created).2])
      else (d, []) := by
  by_cases matched : topic ≠ [] ∧ topicMatches topic (Topics.start mac).otaTop
  · simp [Device.event, handle, onMqtt, Device.act, emitted, matched]
  · simp [Device.event, handle, onMqtt, matched]

theorem event_other {e : Event} (session : e ≠ .connected)
    (message : ∀ topic payload, e ≠ .data topic payload) (created : Bool) (api : ImageApi) :
    d.event mac e created api = ({ d with net := (handle (.start mac) d.net e).1 }, []) := by
  cases e with
  | connected => exact absurd rfl session
  | data topic payload => exact absurd rfl (message topic payload)
  | _ => rfl

end

def silent : Unit → Bytes → ParseOut Unit := fun _ _ => ⟨[], 0, 0, [], ()⟩

def bench : Device Unit := .start .boot .valid (.boot 0 ())

def works : ImageApi := ⟨true, true, true⟩

end GplugDevice
