import Mathlib.Tactic.Common
import GplugMini.Net

/- Whether the connected flag and the session counter say what the client's events say. -/
namespace GplugBrokerSession
open EmittingRun GplugNet

def lastOf (p : Event → Bool) (events : List Event) : Option Event := (events.filter p).getLast?

def sessionUp (events : List Event) : Bool :=
  lastOf (fun e => e = .connected ∨ e = .disconnected) events = some .connected

def hasAddress (events : List Event) : Bool :=
  lastOf (fun e => e = .gotIp ∨ e = .staDisconnected) events = some .gotIp

def droppedSince (events : List Event) : Bool :=
  lastOf (fun e => e = .connected ∨ e = .staDisconnected) events = some .staDisconnected

/-- With an address, the flag says whether a session stands and the counter which one. -/
def TracksSession (tops : Topics) (events : List Event) : Prop :=
  hasAddress events = true →
    (run tops events).connected = sessionUp events ∧
      (run tops events).sessionId = UInt32.ofNat (events.count .connected)

theorem last_of_snoc (p : Event → Bool) (events : List Event) (e : Event) :
    lastOf p (events ++ [e]) = if p e then some e else lastOf p events := by
  unfold lastOf
  rw [List.filter_append, List.filter_singleton]
  cases p e <;> simp

theorem session_counter (tops : Topics) (events : List Event) :
    (run tops events).sessionId = UInt32.ofNat (events.count .connected) := by
  induction events using List.reverseRecOn with
  | nil => rfl
  | append_singleton events e ih =>
    rw [run, final_snoc, List.count_append]
    cases e with
    | connected =>
      change (run tops events).sessionId + 1 = _
      rw [ih, List.count_singleton_self, UInt32.ofNat_add]
      rfl
    | _ => exact ih

theorem connected_flag (tops : Topics) (events : List Event) :
    (run tops events).connected = (sessionUp events && !droppedSince events) := by
  induction events using List.reverseRecOn with
  | nil => rfl
  | append_singleton events e ih =>
    rw [run, final_snoc]
    simp only [sessionUp, droppedSince, last_of_snoc] at ih ⊢
    cases e with
    | connected => rfl
    | disconnected => rfl
    | staDisconnected => simp [handle, onWifi]
    | _ => exact ih

/-- The flag tracks the session exactly while no WiFi drop falls into a standing one. -/
theorem tracks_session_iff (tops : Topics) (events : List Event) :
    TracksSession tops events ↔
      (hasAddress events = true → sessionUp events = true → droppedSince events = false) := by
  simp only [TracksSession, session_counter, and_true, connected_flag]
  cases sessionUp events <;> cases droppedSince events <;> simp

/-- A session outlives a WiFi drop: the station has its address again, the client has no
    event to raise, and the flag stays down. -/
theorem session_outlives_drop :
    let tops := Topics.start (macText fun _ => 0)
    let events := [.staStart, .gotIp, .connected, .staDisconnected, .gotIp]
    hasAddress events = true ∧ sessionUp events = true ∧ (run tops events).connected = false ∧
      ¬ TracksSession tops events := by
  refine ⟨by decide, by decide, by decide, ?_⟩
  intro tracks
  exact absurd (tracks (by decide)).1 (by decide)

end GplugBrokerSession
