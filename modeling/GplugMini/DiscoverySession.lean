import Mathlib.Tactic.Common
import GplugMini.MeterSerial
import GplugMini.Net
import GplugMini.PublishCycle

/- publish_cycle against the events of the MQTT task: whether the session it latches is the
   one it announced the meter on. -/
namespace GplugDiscoverySession
open ByteText CallTree GplugAggregator GplugDecode GplugHaDiscovery GplugMeterSerial GplugNet
open GplugPublishCycle

/-- The globals of both tasks, and beside them how many CONNECTED there were. -/
structure Globals where
  net : NetState
  discoverySession : UInt32
  decode : DecodeState
  connects : Nat

def Globals.boot : Globals := ⟨.boot, 0, .boot, 0⟩

def Globals.event (tops : Topics) (s : Globals) (e : Event) : Globals :=
  { s with
    net := (handle tops s.net e).1
    connects := if e = .connected then s.connects + 1 else s.connects }

def Globals.differs (s : Globals) : Bool := s.discoverySession != s.net.sessionId

def Globals.latch (s : Globals) : Globals := { s with discoverySession := s.net.sessionId }

/-- Every config handed to the client with the count of its CONNECTED, and whether a round of
    them is unfinished. -/
structure Link extends Globals where
  handed : List (Nat × Bytes × Bytes)
  announcing : Bool

def Link.boot : Link := ⟨.boot, [], false⟩

def Link.event (tops : Topics) (s : Link) (e : Event) : Link :=
  { s with toGlobals := s.toGlobals.event tops e }

def Link.hand (s : Link) (topic payload : Bytes) : Link :=
  { s with handed := (s.connects, topic, payload) :: s.handed, announcing := true }

def Link.latch (s : Link) : Link :=
  { s with toGlobals := s.toGlobals.latch, announcing := false }

def Link.answer (s : Link) : (op : LoopOp) → op.Answer × Link
  | .mqttConnected => (s.net.connected, s)
  | .sessionDiffers => (s.differs, s)
  | .publishDiscovery topic payload => ((), s.hand topic payload)
  | .latchSession => ((), s.latch)
  | .publishState _ => ((), s)
  | .indicatePublish => ((), s)

/-- Events of the MQTT and WiFi tasks between any two calls, as far as they are admitted. -/
def surroundings (tops : Topics) (admits : Link → Event → Prop) :
    Surroundings LoopOp LoopOp.Answer Link where
  answer s op r t := (r, t) = s.answer op
  move s t := ∃ e, admits s e ∧ t = s.event tops e

/-- A cycle ends: whatever it delivered is decoded, and publish_cycle begins. -/
def Begins (mac : Bytes) (s : Link) (p : Calls CycleSet) (t : Link) : Prop :=
  ∃ captures : List AxdrCapture,
    t = { s with decode := captures.foldl onValue s.decode.startCycle } ∧
      p = publishCycle mac t.decode.meterSerial t.decode.cycleSet

def Ends (set : CycleSet) (s t : Link) : Prop :=
  t = { s with decode := { s.decode with cycleSet := set } }

abbrev Run (mac : Bytes) (admits : Link → Event → Prop) (s : Link) : Prop :=
  TaskReaches (surroundings (.start mac) admits) (Begins mac) Ends (.boot, none) (s, none)

def HandedNow (mac : Bytes) (s : Link) (obis : Bytes) : Prop :=
  ∃ topic payload, config mac (cstr s.decode.meterSerial) obis = some (topic, payload) ∧
    (s.connects, topic, payload) ∈ s.handed

/-- What is latched as announced has been announced, in full, since its own CONNECTED. -/
def Complete (mac : Bytes) (s : Link) : Prop :=
  s.discoverySession = s.net.sessionId → s.discoverySession ≠ 0 →
    ∀ obis ∈ promoted, HandedNow mac s obis

/-- No CONNECTED while a round is unfinished, and none that brings the 32-bit counter back
    to the session latched. -/
def Orderly (s : Link) (e : Event) : Prop :=
  e = .connected → s.announcing = false ∧
    (s.discoverySession ≠ 0 → s.net.sessionId + 1 ≠ s.discoverySession)

def Known (s : Link) : Prop := ∃ heard, Latched heard s.decode

structure Settled (mac : Bytes) (s : Link) : Prop where
  known : Known s
  finished : s.announcing = false
  named : s.discoverySession ≠ 0 → s.decode.meterSerial.headD 0 ≠ 0
  complete : Complete mac s

structure Announcing (mac serial : Bytes) (passed : List Bytes) (s : Link) : Prop where
  known : Known s
  text : cstr s.decode.meterSerial = serial
  named : s.decode.meterSerial.headD 0 ≠ 0
  begun : passed ≠ [] → s.announcing = true
  handed : ∀ obis ∈ passed, HandedNow mac s obis

variable {mac serial : Bytes} {s : Link}

theorem event_session (tops : Topics) (s : Link) {e : Event} (other : e ≠ .connected) :
    (s.event tops e).net.sessionId = s.net.sessionId ∧
      (s.event tops e).connects = s.connects := by
  cases e <;> simp_all [Link.event, Globals.event, handle, onWifi, onMqtt]

theorem settled_stable (tops : Topics) :
    Stable (surroundings tops Orderly) (Settled mac) := by
  intro s t settled moved
  obtain ⟨e, orderly, rfl⟩ := moved
  refine ⟨settled.known, settled.finished, settled.named, ?_⟩
  by_cases connected : e = .connected
  · subst connected
    intro same latched
    exact absurd same.symm ((orderly rfl).2 latched)
  · obtain ⟨session, count⟩ := event_session tops s connected
    intro same latched obis listed
    rw [session] at same
    obtain ⟨topic, payload, built, handed⟩ := settled.complete same latched obis listed
    exact ⟨topic, payload, built, by rw [count]; exact handed⟩

theorem announcing_stable (tops : Topics) (passed : List Bytes) :
    Stable (surroundings tops Orderly) (Announcing mac serial passed) := by
  intro s t round moved
  obtain ⟨e, orderly, rfl⟩ := moved
  refine ⟨round.known, round.text, round.named, round.begun, ?_⟩
  intro obis member
  by_cases connected : e = .connected
  · have idle := (orderly connected).1
    rw [round.begun (List.ne_nil_of_mem member)] at idle
    cases idle
  · obtain ⟨topic, payload, built, handed⟩ := round.handed obis member
    exact ⟨topic, payload, built, by rw [(event_session tops s connected).2]; exact handed⟩

theorem known_serial_length (known : Known s) : (cstr s.decode.meterSerial).length ≤ 31 :=
  known.elim fun _ latched => latched_serial_length latched

theorem hand_announcing {passed : List Bytes} {obis topic payload : Bytes}
    (round : Announcing mac serial passed s)
    (built : config mac serial obis = some (topic, payload)) :
    Announcing mac serial (passed ++ [obis]) (s.hand topic payload) where
  known := round.known
  text := round.text
  named := round.named
  begun := fun _ => rfl
  handed := by
    intro code member
    rcases List.mem_append.mp member with earlier | now
    · obtain ⟨t, p, made, handed⟩ := round.handed code earlier
      exact ⟨t, p, made, List.mem_cons_of_mem _ handed⟩
    · rw [List.mem_singleton.mp now]
      have text := round.text
      exact ⟨topic, payload, by rw [← built, ← text]; rfl, List.mem_cons_self⟩

theorem latch_settled (round : Announcing mac serial promoted s) : Settled mac s.latch where
  known := round.known
  finished := rfl
  named := fun _ => round.named
  complete := fun _ _ => round.handed

theorem announce_outline (tops : Topics) (shortMac : mac.length ≤ 17)
    (passed codes : List Bytes) (listed : codes ⊆ promoted)
    (round : Announcing mac serial passed s) :
    Outline (surroundings tops Orderly) (fun _ => True)
      (fun _ t => Announcing mac serial (passed ++ codes) t) (announce mac serial codes) s := by
  induction codes generalizing passed s with
  | nil =>
    rw [announce, List.append_nil]
    exact outline_ret (announcing_stable tops passed) round (fun _ _ => trivial) fun _ held => held
  | cons obis codes ih =>
    have short : serial.length ≤ 31 := by
      have := known_serial_length round.known
      rwa [round.text] at this
    obtain ⟨⟨topic, payload⟩, built⟩ :=
      Option.isSome_iff_exists.mp (promoted_config (listed List.mem_cons_self) short shortMac)
    have first : announce mac serial (obis :: codes) =
        .call (.publishDiscovery topic payload) fun _ => announce mac serial codes := by
      rw [announce, built]
      rfl
    rw [first]
    apply outline_call (announcing_stable tops passed) round (fun _ _ => trivial)
    intro t r u held answered
    obtain ⟨_, rfl⟩ := Prod.mk.inj answered
    have next := ih (passed ++ [obis]) (fun code member => listed (by simp [member]))
      (hand_announcing held built)
    rwa [List.append_assoc] at next

abbrev SettledAfter (mac : Bytes) (set : CycleSet) (u : Link) : Prop :=
  ∀ v, Ends set u v → Settled mac v

theorem settled_after (settled : Settled mac s) (set : CycleSet) : SettledAfter mac set s := by
  intro v taken
  subst taken
  obtain ⟨heard, latched⟩ := settled.known
  exact ⟨⟨heard, latched_frame latched rfl⟩, settled.finished, settled.named, settled.complete⟩

theorem publish_set_outline (tops : Topics) (set : CycleSet) (settled : Settled mac s) :
    Outline (surroundings tops Orderly) (fun _ => True) (SettledAfter mac) (publishSet set) s := by
  have stable : Stable (surroundings tops Orderly) (Settled mac) := settled_stable tops
  have done (set : CycleSet) {t : Link} (held : Settled mac t) :
      Outline (surroundings tops Orderly) (fun _ => True) (SettledAfter mac) (.ret set) t :=
    outline_ret stable held (fun _ _ => trivial) fun _ held => settled_after held set
  unfold publishSet
  split
  · exact done set settled
  · apply outline_call stable settled (fun _ _ => trivial)
    intro t _ u held answered
    obtain ⟨_, rfl⟩ := Prod.mk.inj answered
    apply outline_call stable held (fun _ _ => trivial)
    intro t _ u held answered
    obtain ⟨_, rfl⟩ := Prod.mk.inj answered
    exact done _ held

theorem publish_cycle_outline (tops : Topics) (shortMac : mac.length ≤ 17) {meterSerial : Bytes}
    {set : CycleSet} (settled : Settled mac s) (same : s.decode.meterSerial = meterSerial) :
    Outline (surroundings tops Orderly) (fun _ => True) (SettledAfter mac)
      (publishCycle mac meterSerial set) s := by
  -- the serial is read at the start: no event of another task changes it
  have stable : Stable (surroundings tops Orderly) fun t =>
      Settled mac t ∧ t.decode.meterSerial = meterSerial := by
    intro t u named moved
    obtain ⟨held, text⟩ := named
    refine ⟨settled_stable tops t u held moved, ?_⟩
    obtain ⟨e, _, rfl⟩ := moved
    exact text
  have done {t : Link} (held : Settled mac t) :
      Outline (surroundings tops Orderly) (fun _ => True) (SettledAfter mac) (.ret set) t :=
    outline_ret (settled_stable tops) held (fun _ _ => trivial) fun _ held => settled_after held set
  unfold publishCycle
  simp only [bind_eq, perform_bind, pure_eq_ret]
  apply outline_call stable ⟨settled, same⟩ (fun _ _ => trivial)
  intro t connected u held answered
  obtain ⟨rfl, rfl⟩ := Prod.mk.inj answered
  split
  · exact done held.1
  · split
    · exact done held.1
    · rename_i _ named
      apply outline_call stable held (fun _ _ => trivial)
      intro t differs u held answered
      obtain ⟨_, rfl⟩ := Prod.mk.inj answered
      obtain ⟨settled, text⟩ := held
      split
      · have begun : Announcing mac (cstr meterSerial) [] u :=
          ⟨settled.known, by rw [text], by rw [text]; exact named, by simp, by simp⟩
        refine outline_bind (outline_mono (announce_outline tops shortMac [] promoted
          (List.Subset.refl _) begun) ?_)
        intro _ v round
        apply outline_call (announcing_stable tops promoted) round (fun _ _ => trivial)
        intro v _ w round answered
        obtain ⟨_, rfl⟩ := Prod.mk.inj answered
        exact publish_set_outline tops set (latch_settled round)
      · exact publish_set_outline tops set settled

theorem begins_settled {p : Calls CycleSet} {t : Link} (settled : Settled mac s)
    (begun : Begins mac s p t) : Settled mac t := by
  obtain ⟨captures, rfl, _⟩ := begun
  obtain ⟨heard, latched⟩ := settled.known
  have kept (set : s.decode.meterSerial.headD 0 ≠ 0) :
      (captures.foldl onValue s.decode.startCycle).meterSerial = s.decode.meterSerial :=
    serial_kept (s := s.decode.startCycle) set captures
  refine ⟨⟨_, cycle_latched latched captures⟩, settled.finished, ?_, ?_⟩
  · intro latched
    have set := settled.named latched
    rwa [← kept set] at set
  · intro same latched obis listed
    obtain ⟨topic, payload, built, handed⟩ := settled.complete same latched obis listed
    exact ⟨topic, payload, by rw [← built, ← kept (settled.named latched)], handed⟩

theorem boot_settled : Settled mac .boot :=
  ⟨⟨[], boot_latched⟩, rfl, fun latched => absurd rfl latched, fun _ latched => absurd rfl latched⟩

/-- In every run without a CONNECTED inside a round, every session latched between two
    cycles has been told of all eight registers since its own CONNECTED. -/
theorem discovery_complete (octets : Fin 6 → UInt8) (run : Run (macText octets) Orderly s) :
    Complete (macText octets) s := by
  have settled : Settled (macText octets) s := by
    refine task_between (settled_stable _) ?_ boot_settled run
    intro s p t settled begun
    have started := begins_settled settled begun
    obtain ⟨_, _, rfl⟩ := begun
    exact publish_cycle_outline _ (Nat.le_of_eq (mac_text_length octets)) started rfl
  exact settled.complete

def cycleBy (mac : Bytes) (answer : Link → (op : LoopOp) → op.Answer × Link) (s : Link)
    (captures : List AxdrCapture) : Link :=
  let decoded := { s with decode := captures.foldl onValue s.decode.startCycle }
  let r := (publishCycle mac decoded.decode.meterSerial decoded.decode.cycleSet).run answer decoded
  { r.2 with decode := { r.2.decode with cycleSet := r.1 } }

theorem run_cycle {admits : Link → Event → Prop}
    {answer : Link → (op : LoopOp) → op.Answer × Link}
    (answers : ∀ s op, ∃ t, (surroundings (.start mac) admits).answer s op (answer s op).1 t ∧
      Drift (surroundings (.start mac) admits) t (answer s op).2)
    (run : Run mac admits s) (captures : List AxdrCapture) :
    Run mac admits (cycleBy mac answer s captures) := by
  have begun := run.tail (.begin ⟨captures, rfl, rfl⟩)
  exact (begun.trans (task_reaches (run_reaches answers _ _))).tail (.finish rfl)

def connectedOnce : Link := Link.boot.event (.start (macText fun _ => 0)) .connected

def wholeRound : Link := cycleBy (macText fun _ => 0) Link.answer connectedOnce [nameplate]

theorem discovery_complete_once :
    Complete (macText fun _ => 0) wholeRound ∧ wholeRound.discoverySession = 1 ∧
      wholeRound.net.sessionId = 1 ∧ wholeRound.handed.length = 8 := by
  have started : Run (macText fun _ => 0) Orderly connectedOnce :=
    .single (.move ⟨.connected, fun _ => ⟨rfl, fun latched => absurd rfl latched⟩, rfl⟩)
  have cycled : Run (macText fun _ => 0) Orderly wholeRound :=
    run_cycle (fun s op => ⟨_, rfl, .refl⟩) started [nameplate]
  exact ⟨discovery_complete (fun _ => 0) cycled, by decide +kernel⟩

def Link.interrupted (tops : Topics) (s : Link) (op : LoopOp) : op.Answer × Link :=
  let t := (s.answer op).2
  ((s.answer op).1,
    if s.handed.length = 2 ∧ t.handed.length = 3 then
      (t.event tops .disconnected).event tops .connected
    else t)

def interruptedRound : Link :=
  cycleBy (macText fun _ => 0) (Link.interrupted (.start (macText fun _ => 0))) connectedOnce
    [nameplate]

theorem interrupted_run : Run (macText fun _ => 0) (fun _ _ => True) interruptedRound := by
  refine run_cycle ?_ (.single (.move ⟨.connected, trivial, rfl⟩)) [nameplate]
  intro s op
  refine ⟨(s.answer op).2, rfl, ?_⟩
  simp only [Link.interrupted]
  split
  · exact .tail (.single ⟨.disconnected, trivial, rfl⟩) ⟨.connected, trivial, rfl⟩
  · exact .refl

/-- The second session is latched though three of the eight were told to the first. -/
theorem round_interrupted :
    Run (macText fun _ => 0) (fun _ _ => True) interruptedRound ∧
      interruptedRound.discoverySession = 2 ∧ interruptedRound.net.sessionId = 2 ∧
      ¬ Complete (macText fun _ => 0) interruptedRound := by
  have ended : (interruptedRound.discoverySession = 2 ∧ interruptedRound.net.sessionId = 2) ∧
      (interruptedRound.handed.any fun h => h.1 == interruptedRound.connects &&
        some h.2 == config (macText fun _ => 0) (cstr interruptedRound.decode.meterSerial)
          (ascii "1.1.1.8.0.255")) = false := by decide +kernel
  obtain ⟨⟨latched, session⟩, absent⟩ := ended
  refine ⟨interrupted_run, latched, session, ?_⟩
  intro complete
  obtain ⟨topic, payload, built, handed⟩ := complete (by rw [latched, session])
    (by rw [latched]; decide) (ascii "1.1.1.8.0.255") (by decide)
  have present := List.any_eq_false.mp absent _ handed
  simp [built] at present

end GplugDiscoverySession
