import Mathlib.Data.List.TakeWhile
import Mathlib.Tactic.Common
import GplugMini.DiscoverySession

/- publish_cycle from boot on, with all it is exposed to: what was decoded, the events of the
   other tasks before each of its calls, and what the client refuses. Everything it publishes
   is recorded with the session it was published on. -/
namespace GplugDiscoveryRounds
open ByteText CallTree EmittingRun GplugAggregator GplugDecode GplugHaDiscovery GplugMeterSerial
open GplugNet GplugPublishCycle
open GplugDiscoverySession (Globals)

/-- One end of a cycle: its captures, the events handled before the n-th call, and whether
    the client takes the config it is offered with the n-th call. -/
structure Round where
  captures : List AxdrCapture
  during : Nat → List Event
  accepts : Nat → Bool

inductive Said where
  | compared
  | config (topic payload : Bytes) (accepted : Bool)
  | latched
  | state (payload : Bytes)
  deriving DecidableEq, Repr

structure Teller extends Globals where
  told : Nat

def Teller.boot : Teller := ⟨.boot, 0⟩

def Teller.event (tops : Topics) (s : Teller) (e : Event) : Teller :=
  { s with toGlobals := s.toGlobals.event tops e }

def Teller.events (tops : Topics) (s : Teller) (events : List Event) : Teller :=
  events.foldl (Teller.event tops) s

structure Talk where
  now : Teller
  said : List (Nat × Said)
  calls : Nat

def Talk.called (tops : Topics) (r : Round) (s : Talk) : Talk :=
  { s with now := s.now.events tops (r.during s.calls), calls := s.calls + 1 }

def Talk.say (s : Talk) (what : Said) : Talk :=
  { s with said := s.said ++ [(s.now.connects, what)] }

def Talk.latch (s : Talk) : Talk :=
  { s with now := { toGlobals := s.now.toGlobals.latch, told := s.now.connects } }

def Talk.answer (tops : Topics) (r : Round) (s : Talk) : (op : LoopOp) → op.Answer × Talk
  | .mqttConnected => ((s.called tops r).now.net.connected, s.called tops r)
  | .sessionDiffers =>
      ((s.called tops r).now.differs, (s.called tops r).say .compared)
  | .publishDiscovery topic payload =>
      ((), (s.called tops r).say (.config topic payload (r.accepts s.calls)))
  | .latchSession => ((), ((s.called tops r).say .latched).latch)
  | .publishState payload => ((), (s.called tops r).say (.state payload))
  | .indicatePublish => ((), s.called tops r)

def Teller.decoded (s : Teller) (r : Round) : Teller :=
  { s with decode := r.captures.foldl onValue s.decode.startCycle }

def Teller.round (mac : Bytes) (s : Teller) (r : Round) : Teller × List (Nat × Said) :=
  let d := s.decoded r
  let (set, talk) := (publishCycle mac d.decode.meterSerial d.decode.cycleSet).run
    (Talk.answer (.start mac) r) ⟨d, [], 0⟩
  ({ talk.now with decode := { talk.now.decode with cycleSet := set } }, talk.said)

inductive Occurrence where
  | event (e : Event)
  | round (r : Round)

def Teller.step (mac : Bytes) (s : Teller) : Occurrence → Teller × List (Nat × Said)
  | .event e => (s.event (.start mac) e, [])
  | .round r => s.round mac r

def Round.passed (r : Round) (n : Nat) : List Event := (List.range n).flatMap r.during

def netAt (tops : Topics) (s : Teller) (r : Round) (n : Nat) : NetState :=
  final (handle tops) s.net (r.passed (n + 1))

/-- The session during the n-th call, as the number of CONNECTED so far. -/
def connectsAt (s : Teller) (r : Round) (n : Nat) : Nat :=
  s.connects + (r.passed (n + 1)).count .connected

theorem passed_succ (r : Round) (n : Nat) : r.passed (n + 1) = r.passed n ++ r.during n := by
  simp [Round.passed, List.range_succ]

theorem events_eq (tops : Topics) (s : Teller) (events : List Event) :
    s.events tops events =
      { s with
        net := final (handle tops) s.net events
        connects := s.connects + events.count .connected } := by
  induction events using List.reverseRecOn with
  | nil => rfl
  | append_singleton events e ih =>
    rw [Teller.events, List.foldl_append] at *
    rw [ih, final_snoc, List.count_append]
    by_cases connected : e = .connected
    · simp [Teller.event, Globals.event, connected, Nat.add_assoc]
    · simp [Teller.event, Globals.event, connected]

structure Talking (tops : Topics) (d : Teller) (r : Round) (s : Talk) : Prop where
  net : s.now.net = final (handle tops) d.net (r.passed s.calls)
  connects : s.now.connects = d.connects + (r.passed s.calls).count .connected
  decode : s.now.decode = d.decode

variable {tops : Topics} {d : Teller} {r : Round} {s : Talk}

theorem talking_called (talking : Talking tops d r s) : Talking tops d r (s.called tops r) where
  net := by
    rw [Talk.called, events_eq, passed_succ, final_append, talking.net]
  connects := by
    rw [Talk.called, events_eq, passed_succ, List.count_append, talking.connects]
    exact Nat.add_assoc _ _ _
  decode := by
    rw [Talk.called, events_eq, talking.decode]

theorem called_connects (talking : Talking tops d r s) :
    (s.called tops r).now.connects = connectsAt d r s.calls :=
  (talking_called talking).connects

theorem called_net (talking : Talking tops d r s) :
    (s.called tops r).now.net = netAt tops d r s.calls :=
  (talking_called talking).net

/-- From s to t, this much was said in this many calls and no session was latched. -/
structure Continues (tops : Topics) (d : Teller) (r : Round) (s t : Talk)
    (more : List (Nat × Said)) (n : Nat) : Prop where
  talking : Talking tops d r t
  said : t.said = s.said ++ more
  calls : t.calls = s.calls + n
  session : t.now.discoverySession = s.now.discoverySession
  told : t.now.told = s.now.told

theorem continues_trans {t u : Talk} {more rest : List (Nat × Said)} {m n : Nat}
    (first : Continues tops d r s t more m) (second : Continues tops d r t u rest n) :
    Continues tops d r s u (more ++ rest) (m + n) where
  talking := second.talking
  said := by rw [second.said, first.said, List.append_assoc]
  calls := by rw [second.calls, first.calls, Nat.add_assoc]
  session := second.session.trans first.session
  told := second.told.trans first.told

theorem called_continues (talking : Talking tops d r s) :
    Continues tops d r s (s.called tops r) [] 1 where
  talking := talking_called talking
  said := (List.append_nil _).symm
  calls := rfl
  session := by rw [Talk.called, events_eq]
  told := by rw [Talk.called, events_eq]

theorem say_continues (talking : Talking tops d r s) (what : Said) :
    Continues tops d r s ((s.called tops r).say what) [(connectsAt d r s.calls, what)] 1 where
  talking := ⟨(talking_called talking).net, (talking_called talking).connects,
    (talking_called talking).decode⟩
  said := by
    rw [Talk.say, called_connects talking]
    rfl
  calls := rfl
  session := (called_continues talking).session
  told := (called_continues talking).told

def entries (mac serial : Bytes) (sessions : Nat → Nat) (accepts : Nat → Bool) :
    List Bytes → Nat → List (Nat × Said)
  | [], _ => []
  | obis :: rest, n =>
      match config mac serial obis with
      | some (topic, payload) =>
          (sessions n, .config topic payload (accepts n)) ::
            entries mac serial sessions accepts rest (n + 1)
      | none => entries mac serial sessions accepts rest n

theorem announce_talk {mac serial : Bytes} (codes : List Bytes)
    (built : ∀ obis ∈ codes, (config mac serial obis).isSome = true)
    (talking : Talking tops d r s) :
    Continues tops d r s ((announce mac serial codes).run (Talk.answer tops r) s).2
      (entries mac serial (connectsAt d r) r.accepts codes s.calls) codes.length := by
  induction codes generalizing s with
  | nil =>
    exact ⟨talking, (List.append_nil _).symm, rfl, rfl, rfl⟩
  | cons obis codes ih =>
    obtain ⟨⟨topic, payload⟩, found⟩ := Option.isSome_iff_exists.mp (built obis (by simp))
    have first := say_continues talking (.config topic payload (r.accepts s.calls))
    have rest := ih (fun code member => built code (by simp [member])) first.talking
    have whole := continues_trans first rest
    rw [announce, entries]
    simp only [found, bind_eq, perform_bind, run_call]
    rw [List.length_cons, Nat.add_comm codes.length]
    exact whole

def stateSaid (set : CycleSet) (d : Teller) (r : Round) (n : Nat) : List (Nat × Said) :=
  if set.empty then [] else [(connectsAt d r n, .state set.json.2)]

theorem publish_set_talk (set : CycleSet) (talking : Talking tops d r s) :
    ∃ n, Continues tops d r s ((publishSet set).run (Talk.answer tops r) s).2
      (stateSaid set d r s.calls) n := by
  unfold publishSet stateSaid
  split
  · exact ⟨0, talking, (List.append_nil _).symm, rfl, rfl, rfl⟩
  · have first := say_continues talking (.state set.json.2)
    exact ⟨2, continues_trans first (called_continues first.talking)⟩

def Effective (mac : Bytes) (s : Teller) (r : Round) : Prop :=
  (netAt (.start mac) s r 0).connected = true ∧ (s.decoded r).decode.meterSerial.headD 0 ≠ 0

def Differs (mac : Bytes) (s : Teller) (r : Round) : Prop :=
  s.discoverySession ≠ (netAt (.start mac) s r 1).sessionId

structure Says (mac : Bytes) (s : Teller) (r : Round) (said : List (Nat × Said))
    (session : UInt32) (told : Nat) : Prop where
  said : (s.round mac r).2 = said
  session : (s.round mac r).1.discoverySession = session
  told : (s.round mac r).1.told = told

theorem talking_start (tops : Topics) (d : Teller) (r : Round) : Talking tops d r ⟨d, [], 0⟩ :=
  ⟨rfl, rfl, rfl⟩

variable {mac : Bytes} {s : Teller} {r : Round}

theorem round_quiet (quiet : ¬ Effective mac s r) : Says mac s r [] s.discoverySession s.told := by
  have first := called_continues (talking_start (.start mac) (s.decoded r) r)
  have net := called_net (talking_start (.start mac) (s.decoded r) r)
  have ended : (publishCycle mac (s.decoded r).decode.meterSerial (s.decoded r).decode.cycleSet).run
      (Talk.answer (.start mac) r) ⟨s.decoded r, [], 0⟩ =
        ((s.decoded r).decode.cycleSet, (Talk.mk (s.decoded r) [] 0).called (.start mac) r) := by
    unfold publishCycle
    simp only [bind_eq, perform_bind, run_call, Talk.answer, net]
    by_cases up : (netAt (.start mac) (s.decoded r) r 0).connected = true
    · have unknown : (s.decoded r).decode.meterSerial.headD 0 = 0 := by
        by_contra known
        exact quiet ⟨up, known⟩
      simp only [up, unknown, Bool.not_true, Bool.false_eq_true, ↓reduceIte, pure_eq_ret, run_ret]
    · simp only [up, Bool.not_false, ↓reduceIte, pure_eq_ret, run_ret]
  constructor
  · rw [Teller.round, ended]
    rfl
  · rw [Teller.round, ended]
    exact first.session
  · rw [Teller.round, ended]
    exact first.told

theorem effective_round (effective : Effective mac s r) :
    ∃ t, Continues (.start mac) (s.decoded r) r ⟨s.decoded r, [], 0⟩ t
        [(connectsAt s r 1, .compared)] 2 ∧
      (publishCycle mac (s.decoded r).decode.meterSerial (s.decoded r).decode.cycleSet).run
        (Talk.answer (.start mac) r) ⟨s.decoded r, [], 0⟩ =
      (if s.discoverySession != (netAt (.start mac) s r 1).sessionId then
        (announce mac (cstr (s.decoded r).decode.meterSerial) promoted).bind fun _ =>
          (perform LoopOp.latchSession).bind fun _ => publishSet (s.decoded r).decode.cycleSet
      else publishSet (s.decoded r).decode.cycleSet).run (Talk.answer (.start mac) r) t := by
  have start := talking_start (.start mac) (s.decoded r) r
  have first := called_continues start
  have second := say_continues first.talking .compared
  have session : ((((Talk.mk (s.decoded r) [] 0).called (.start mac) r).called
      (.start mac) r).now.discoverySession) = s.discoverySession :=
    (called_continues first.talking).session.trans first.session
  refine ⟨_, continues_trans first second, ?_⟩
  unfold publishCycle
  simp only [bind_eq, perform_bind, run_call, Talk.answer, called_net start]
  obtain ⟨up, known⟩ := effective
  have reached : (netAt (.start mac) (s.decoded r) r 0).connected = true := up
  simp only [reached, known, Bool.not_true, Bool.false_eq_true, ↓reduceIte, run_call, Talk.answer,
    Globals.differs, called_net first.talking, session]
  rfl

theorem round_same (effective : Effective mac s r) (same : ¬ Differs mac s r) :
    Says mac s r ((connectsAt s r 1, .compared) :: stateSaid (s.decoded r).decode.cycleSet s r 2)
      s.discoverySession s.told := by
  obtain ⟨t, reached, ended⟩ := effective_round effective
  have equal : (s.discoverySession != (netAt (.start mac) s r 1).sessionId) = false := by
    simpa [Differs] using same
  rw [equal, if_neg Bool.false_ne_true] at ended
  obtain ⟨n, sent⟩ := publish_set_talk (s.decoded r).decode.cycleSet reached.talking
  have whole := continues_trans reached sent
  rw [reached.calls] at whole
  constructor
  · rw [Teller.round, ended]
    exact whole.said
  · rw [Teller.round, ended]
    exact whole.session
  · rw [Teller.round, ended]
    exact whole.told

theorem round_other (effective : Effective mac s r) (differs : Differs mac s r)
    (built : ∀ obis ∈ promoted,
      (config mac (cstr (s.decoded r).decode.meterSerial) obis).isSome = true) :
    Says mac s r
      ((connectsAt s r 1, .compared) ::
        entries mac (cstr (s.decoded r).decode.meterSerial) (connectsAt s r) r.accepts promoted 2 ++
        (connectsAt s r 10, .latched) :: stateSaid (s.decoded r).decode.cycleSet s r 11)
      (netAt (.start mac) s r 10).sessionId (connectsAt s r 10) := by
  obtain ⟨t, reached, ended⟩ := effective_round effective
  have other : (s.discoverySession != (netAt (.start mac) s r 1).sessionId) = true := by
    simpa [Differs] using differs
  rw [other, if_pos rfl, run_bind] at ended
  have told := continues_trans reached (announce_talk promoted built reached.talking)
  rw [reached.calls] at told
  generalize ((announce mac (cstr (s.decoded r).decode.meterSerial) promoted).run
    (Talk.answer (.start mac) r) t).2 = u at ended told
  simp only [perform_bind, run_call, Talk.answer] at ended
  have said := continues_trans told (say_continues told.talking .latched)
  have calls : u.calls = 10 := told.calls
  have latched : Talking (.start mac) (s.decoded r) r
      ((u.called (.start mac) r).say .latched).latch :=
    ⟨said.talking.net, said.talking.connects, said.talking.decode⟩
  obtain ⟨n, sent⟩ := publish_set_talk (s.decoded r).decode.cycleSet latched
  have next : ((u.called (.start mac) r).say .latched).latch.calls = 11 := congrArg (· + 1) calls
  rw [next] at sent
  have before : ((u.called (.start mac) r).say .latched).latch.said =
      (connectsAt s r 1, .compared) ::
        entries mac (cstr (s.decoded r).decode.meterSerial) (connectsAt s r) r.accepts promoted 2 ++
        [(connectsAt s r 10, .latched)] := by
    refine said.said.trans ?_
    rw [calls]
    rfl
  constructor
  · rw [Teller.round, ended]
    refine sent.said.trans ?_
    rw [before, List.append_assoc, List.singleton_append]
    rfl
  · rw [Teller.round, ended]
    have net := called_net told.talking
    rw [calls] at net
    exact sent.session.trans (congrArg NetState.sessionId net)
  · rw [Teller.round, ended]
    have connects := called_connects told.talking
    rw [calls] at connects
    exact sent.told.trans connects

/- The sessions a round is spread over, and what it says on each. -/

theorem connects_at_succ (s : Teller) (r : Round) (n : Nat) :
    connectsAt s r (n + 1) = connectsAt s r n + (r.during (n + 1)).count .connected := by
  rw [connectsAt, passed_succ, List.count_append, connectsAt, Nat.add_assoc]

theorem connects_at_le (s : Teller) (r : Round) {m n : Nat} (order : m ≤ n) :
    connectsAt s r m ≤ connectsAt s r n := by
  induction n, order using Nat.le_induction with
  | base => exact Nat.le_refl _
  | succ n order ih =>
    rw [connects_at_succ]
    exact Nat.le_add_right_of_le ih

theorem connects_le_at (s : Teller) (r : Round) (n : Nat) : s.connects ≤ connectsAt s r n :=
  Nat.le_add_right _ _

/-- Two calls of a round see one session when no CONNECTED is handled from the first on. -/
theorem connects_at_eq_iff (s : Teller) (r : Round) {m n : Nat} (order : m ≤ n) :
    connectsAt s r m = connectsAt s r n ↔
      ∀ k, m < k → k ≤ n → Event.connected ∉ r.during k := by
  induction n, order using Nat.le_induction with
  | base =>
    simp only [true_iff]
    intro k above below
    omega
  | succ n order ih =>
    have lower := connects_at_le s r order
    rw [connects_at_succ]
    constructor
    · intro same k above below
      rcases Nat.lt_or_eq_of_le below with earlier | rfl
      · exact ih.mp (by omega) k above (by omega)
      · exact List.count_eq_zero.mp (by omega)
    · intro none
      rw [List.count_eq_zero.mpr (none (n + 1) (by omega) (by omega))]
      exact ih.mpr fun k above below => none k above (by omega)

theorem mem_entries {mac serial : Bytes} {sessions : Nat → Nat} {accepts : Nat → Bool}
    {codes : List Bytes} (built : ∀ obis ∈ codes, (config mac serial obis).isSome = true)
    {n : Nat} {x : Nat × Said} :
    x ∈ entries mac serial sessions accepts codes n ↔
      ∃ i obis topic payload, codes[i]? = some obis ∧
        config mac serial obis = some (topic, payload) ∧
        x = (sessions (n + i), .config topic payload (accepts (n + i))) := by
  induction codes generalizing n with
  | nil => simp [entries]
  | cons first codes ih =>
    obtain ⟨⟨topic, payload⟩, found⟩ := Option.isSome_iff_exists.mp (built first (by simp))
    rw [entries, found]
    simp only [List.mem_cons]
    rw [ih fun obis member => built obis (by simp [member])]
    constructor
    · intro member
      rcases member with rfl | ⟨i, obis, t, p, listed, made, rfl⟩
      · exact ⟨0, first, topic, payload, rfl, found, rfl⟩
      · refine ⟨i + 1, obis, t, p, by simpa using listed, made, ?_⟩
        rw [Nat.add_right_comm, Nat.add_assoc]
    · intro member
      obtain ⟨i, obis, t, p, listed, made, rfl⟩ := member
      cases i with
      | zero =>
        obtain rfl : first = obis := by simpa using listed
        obtain ⟨rfl, rfl⟩ := Prod.mk.inj (Option.some.inj (found.symm.trans made))
        exact Or.inl rfl
      | succ i =>
        refine Or.inr ⟨i, obis, t, p, by simpa using listed, made, ?_⟩
        rw [Nat.add_right_comm, Nat.add_assoc]

/- What holds of the teller whatever happens to it. -/

structure Steady (s : Teller) : Prop where
  session : s.net.sessionId = UInt32.ofNat s.connects
  latched : s.discoverySession = UInt32.ofNat s.told
  earlier : s.told ≤ s.connects
  counted : s.net.connected = true → 1 ≤ s.connects
  known : ∃ heard, Latched heard s.decode

theorem boot_steady : Steady .boot :=
  ⟨rfl, rfl, Nat.le_refl 0, (nomatch ·), ⟨[], boot_latched⟩⟩

theorem event_net (tops : Topics) (n : NetState) (e : Event) :
    (handle tops n e).1.sessionId = (if e = .connected then n.sessionId + 1 else n.sessionId) ∧
      ((handle tops n e).1.connected = true → e = .connected ∨ n.connected = true) := by
  cases e <;> simp_all [handle, onWifi, onMqtt]

theorem event_steady (tops : Topics) (steady : Steady s) (e : Event) :
    Steady (s.event tops e) := by
  obtain ⟨session, up⟩ := event_net tops s.net e
  refine ⟨?_, steady.latched, ?_, ?_, steady.known⟩
  · change (handle tops s.net e).1.sessionId = _
    rw [session, Teller.event, Globals.event]
    split
    · rw [steady.session, UInt32.ofNat_add]
      rfl
    · exact steady.session
  · have := steady.earlier
    simp only [Teller.event, Globals.event]
    split <;> omega
  · intro connected
    simp only [Teller.event, Globals.event]
    split
    · omega
    · rename_i other
      exact steady.counted ((up connected).resolve_left other)

theorem events_steady (tops : Topics) (steady : Steady s) (events : List Event) :
    Steady (s.events tops events) := by
  induction events using List.reverseRecOn with
  | nil => exact steady
  | append_singleton events e ih =>
    rw [Teller.events, List.foldl_append]
    exact event_steady tops ih e

theorem answer_steady (tops : Topics) (r : Round) (serial : Bytes) (q : Talk) (op : LoopOp)
    (steady : Steady q.now ∧ q.now.decode.meterSerial = serial) :
    Steady (q.answer tops r op).2.now ∧ (q.answer tops r op).2.now.decode.meterSerial = serial := by
  have called : Steady (q.called tops r).now := events_steady tops steady.1 _
  have kept : (q.called tops r).now.decode.meterSerial = serial := by
    rw [Talk.called, events_eq]
    exact steady.2
  cases op with
  | latchSession =>
    exact ⟨⟨called.session, called.session, Nat.le_refl _, called.counted, called.known⟩, kept⟩
  | _ => exact ⟨called, kept⟩

theorem decoded_steady (steady : Steady s) (r : Round) : Steady (s.decoded r) := by
  obtain ⟨heard, latched⟩ := steady.known
  exact ⟨steady.session, steady.latched, steady.earlier, steady.counted, _,
    cycle_latched latched r.captures⟩

theorem round_steady (steady : Steady s) (r : Round) :
    Steady (s.round mac r).1 ∧
      (s.round mac r).1.decode.meterSerial = (s.decoded r).decode.meterSerial := by
  obtain ⟨kept, serial⟩ := run_keeps
    (P := fun q : Talk => Steady q.now ∧
      q.now.decode.meterSerial = (s.decoded r).decode.meterSerial)
    (answer_steady (.start mac) r _)
    (publishCycle mac (s.decoded r).decode.meterSerial (s.decoded r).decode.cycleSet)
    (s := ⟨s.decoded r, [], 0⟩) ⟨decoded_steady steady r, rfl⟩
  obtain ⟨heard, latched⟩ := kept.known
  exact ⟨⟨kept.session, kept.latched, kept.earlier, kept.counted, heard,
    latched_frame latched rfl⟩, serial⟩

theorem session_at (steady : Steady s) (r : Round) (n : Nat) :
    (netAt tops s r n).sessionId = UInt32.ofNat (connectsAt s r n) := by
  have later := (events_steady tops steady (r.passed (n + 1))).session
  rw [events_eq] at later
  exact later

theorem connected_at (steady : Steady s) {r : Round} {n : Nat}
    (up : (netAt tops s r n).connected = true) : 1 ≤ connectsAt s r n := by
  have later := (events_steady tops steady (r.passed (n + 1))).counted
  rw [events_eq] at later
  exact later up

theorem steady_built (steady : Steady s) (octets : Fin 6 → UInt8) :
    ∀ obis ∈ promoted,
      (config (macText octets) (cstr s.decode.meterSerial) obis).isSome = true := by
  intro obis listed
  obtain ⟨heard, latched⟩ := steady.known
  exact promoted_config listed (latched_serial_length latched)
    (Nat.le_of_eq (mac_text_length octets))

/- The round read off in one piece: which configs, which latch and which message are in it. -/

def serialAt (s : Teller) (r : Round) : Bytes := cstr (s.decoded r).decode.meterSerial

def Tells (mac : Bytes) (s : Teller) (r : Round) : Prop := Effective mac s r ∧ Differs mac s r

variable {octets : Fin 6 → UInt8}

theorem not_in_state {set : CycleSet} {n session : Nat} {what : Said}
    (other : ∀ payload, what ≠ .state payload) : (session, what) ∉ stateSaid set s r n := by
  unfold stateSaid
  split
  · exact List.not_mem_nil
  · intro member
    exact other _ (Prod.mk.inj (List.mem_singleton.mp member)).2

theorem built_at (steady : Steady s) (r : Round) : ∀ obis ∈ promoted,
    (config (macText octets) (serialAt s r) obis).isSome = true :=
  steady_built (decoded_steady steady r) octets

theorem other_behind (octets : Fin 6 → UInt8) (steady : Steady s) (r : Round) (what : Said)
    (compared : what ≠ .compared)
    (config : ∀ topic payload accepted, what ≠ .config topic payload accepted) :
    ∀ x ∈ (connectsAt s r 1, Said.compared) ::
      entries (macText octets) (serialAt s r) (connectsAt s r) r.accepts promoted 2,
      decide (x.2 ≠ what) = true := by
  intro x member
  rw [decide_eq_true_eq]
  rcases List.mem_cons.mp member with rfl | entry
  · exact compared.symm
  · obtain ⟨i, obis, topic, payload, _, _, rfl⟩ := (mem_entries (built_at steady r)).mp entry
    exact (config _ _ _).symm

theorem tells_said (steady : Steady s) (tells : Tells (macText octets) s r) :
    Says (macText octets) s r
      ((connectsAt s r 1, .compared) ::
        entries (macText octets) (serialAt s r) (connectsAt s r) r.accepts promoted 2 ++
        (connectsAt s r 10, .latched) :: stateSaid (s.decoded r).decode.cycleSet s r 11)
      (netAt (.start (macText octets)) s r 10).sessionId (connectsAt s r 10) :=
  round_other tells.1 tells.2 (built_at steady r)

theorem silent_said (silent : ¬ Tells mac s r) :
    ∃ said, Says mac s r said s.discoverySession s.told ∧
      ∀ x ∈ said, x.2 = .compared ∨ ∃ payload, x.2 = .state payload := by
  by_cases effective : Effective mac s r
  · refine ⟨_, round_same effective fun differs => silent ⟨effective, differs⟩, ?_⟩
    intro x member
    obtain ⟨session, what⟩ := x
    rcases List.mem_cons.mp member with first | sent
    · exact Or.inl (Prod.mk.inj first).2
    · apply Or.inr
      by_contra other
      exact not_in_state (fun payload same => other ⟨payload, same⟩) sent
  · exact ⟨_, round_quiet effective, by simp⟩

/-- Beside the comparison and its message a round says only the configs and the latch, and
    only in telling a session. -/
theorem told_cases (steady : Steady s) {session : Nat} {what : Said}
    (member : (session, what) ∈ (s.round (macText octets) r).2) (compared : what ≠ .compared)
    (message : ∀ payload, what ≠ .state payload) :
    Tells (macText octets) s r ∧
      ((session, what) ∈
          entries (macText octets) (serialAt s r) (connectsAt s r) r.accepts promoted 2 ∨
        session = connectsAt s r 10 ∧ what = .latched) := by
  by_cases tells : Tells (macText octets) s r
  · refine ⟨tells, ?_⟩
    rw [(tells_said steady tells).said] at member
    rcases List.mem_append.mp member with front | rest
    · rcases List.mem_cons.mp front with first | entry
      · exact absurd (Prod.mk.inj first).2 compared
      · exact Or.inl entry
    · rcases List.mem_cons.mp rest with latch | sent
      · exact Or.inr (Prod.mk.inj latch)
      · exact absurd sent (not_in_state message)
  · obtain ⟨said, outcome, quiet⟩ := silent_said tells
    rw [outcome.said] at member
    rcases quiet _ member with first | ⟨payload, sent⟩
    · exact absurd first compared
    · exact absurd sent (message payload)

theorem config_said_iff (steady : Steady s) {session : Nat} {topic payload : Bytes}
    {accepted : Bool} :
    (session, Said.config topic payload accepted) ∈ (s.round (macText octets) r).2 ↔
      Tells (macText octets) s r ∧ ∃ i obis, promoted[i]? = some obis ∧
        config (macText octets) (serialAt s r) obis = some (topic, payload) ∧
        session = connectsAt s r (2 + i) ∧ accepted = r.accepts (2 + i) := by
  constructor
  · intro member
    obtain ⟨tells, entry | latch⟩ := told_cases steady member (by simp) (by simp)
    · refine ⟨tells, ?_⟩
      obtain ⟨i, obis, t, p, here, made, same⟩ := (mem_entries (built_at steady r)).mp entry
      obtain ⟨now, what⟩ := Prod.mk.inj same
      obtain ⟨rfl, rfl, taken⟩ := Said.config.inj what
      exact ⟨i, obis, here, made, now, taken⟩
    · cases latch.2
  · intro told
    obtain ⟨tells, i, obis, here, made, rfl, rfl⟩ := told
    rw [(tells_said steady tells).said]
    apply List.mem_append_left
    apply List.mem_cons_of_mem
    exact (mem_entries (built_at steady r)).mpr ⟨i, obis, topic, payload, here, made, rfl⟩

theorem latched_said_iff (steady : Steady s) {session : Nat} :
    (session, Said.latched) ∈ (s.round (macText octets) r).2 ↔
      Tells (macText octets) s r ∧ session = connectsAt s r 10 := by
  constructor
  · intro member
    obtain ⟨tells, entry | latch⟩ := told_cases steady member (by simp) (by simp)
    · obtain ⟨i, obis, t, p, _, _, same⟩ := (mem_entries (built_at steady r)).mp entry
      cases (Prod.mk.inj same).2
    · exact ⟨tells, latch.1⟩
  · intro latched
    obtain ⟨tells, rfl⟩ := latched
    rw [(tells_said steady tells).said]
    simp

theorem told_after (steady : Steady s) (r : Round) :
    (Tells (macText octets) s r ∧ (s.round (macText octets) r).1.told = connectsAt s r 10) ∨
      (¬ Tells (macText octets) s r ∧ (s.round (macText octets) r).1.told = s.told) := by
  by_cases tells : Tells (macText octets) s r
  · exact Or.inl ⟨tells, (tells_said steady tells).told⟩
  · obtain ⟨_, outcome, _⟩ := silent_said tells
    exact Or.inr ⟨tells, outcome.told⟩

structure Named (s : Teller) : Prop extends Steady s where
  named : s.told ≠ 0 → s.decode.meterSerial.headD 0 ≠ 0

theorem serial_at_named (known : Named s) (r : Round) (latched : s.told ≠ 0) :
    (s.decoded r).decode.meterSerial = s.decode.meterSerial :=
  serial_kept (s := s.decode.startCycle) (known.named latched) r.captures

theorem round_named (known : Named s) (r : Round) : Named (s.round (macText octets) r).1 := by
  obtain ⟨steady, serial⟩ := round_steady known.toSteady r
  refine ⟨steady, ?_⟩
  intro latched
  rw [serial]
  rcases told_after known.toSteady r with ⟨tells, _⟩ | ⟨_, kept⟩
  · exact tells.1.2
  · rw [kept] at latched
    rw [serial_at_named known r latched]
    exact known.named latched

section
variable (octets : Fin 6 → UInt8)

abbrev saidBy (run : List Occurrence) : List (Nat × Said) :=
  emitted (Teller.step (macText octets)) .boot run

abbrev after (run : List Occurrence) : Teller := final (Teller.step (macText octets)) .boot run

/-- What every round keeps holds after every run: the events between two rounds change
    neither the log nor the meter. -/
theorem run_holds {P : List (Nat × Said) → Teller → Prop} (boot : P [] .boot)
    (event : ∀ log s e, P log s → P log (s.event (.start (macText octets)) e))
    {run : List Occurrence}
    (round : ∀ before r rest, run = before ++ .round r :: rest →
      P (saidBy octets before) (after octets before) →
        P (saidBy octets before ++ ((after octets before).round (macText octets) r).2)
          ((after octets before).round (macText octets) r).1) :
    P (saidBy octets run) (after octets run) := by
  induction run using List.reverseRecOn with
  | nil => exact boot
  | append_singleton run o ih =>
    have held := ih fun before r rest split => round before r (rest ++ [o]) (by simp [split])
    rw [saidBy, after, emitted_snoc, final_snoc]
    cases o with
    | event e =>
      rw [Teller.step, List.append_nil]
      exact event _ _ e held
    | round r => exact round run r [] rfl held

end

end GplugDiscoveryRounds
