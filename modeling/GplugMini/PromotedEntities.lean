import Mathlib.Tactic.Common
import GplugMini.DiscoveryRounds

/- Whether the registers announced are the registers the meter sends: the fixed list that
   drives discovery against the captures that drive the state messages. -/
namespace GplugPromotedEntities
open ByteText DecimalText EmittingRun FirstOccurrence FlatObject
open GplugAggregator GplugDecode GplugDiscoveryRounds GplugHaDiscovery
open GplugMeterSerial GplugNet GplugObisMap

def Heard (captures : List AxdrCapture) (label : Bytes) : Prop :=
  label ∈ keys (captures.filterMap offered)

instance (captures : List AxdrCapture) (label : Bytes) : Decidable (Heard captures label) := by
  unfold Heard
  infer_instance

def Published (mac serial : Bytes) (log : List (Nat × Said)) (session : Nat) (obis : Bytes) :
    Prop :=
  ∃ topic payload accepted, config mac serial obis = some (topic, payload) ∧
    (session, .config topic payload accepted) ∈ log

/-- One round after what was said and heard earlier: its configs are of registers heard by
    now, and the registers of its message have theirs on the message's session by then. -/
structure OnlySent (mac : Bytes) (earlier : List (Nat × Said)) (before : List AxdrCapture)
    (s : Teller) (r : Round) : Prop where
  heard : ∀ session topic payload accepted,
    (session, .config topic payload accepted) ∈ (s.round mac r).2 →
      ∃ obis ∈ promoted, ∃ e, obisLookup obis = some e ∧
        config mac (serialAt s r) obis = some (topic, payload) ∧
        Heard (before ++ r.captures) e.label
  announced : ∀ session payload, (session, .state payload) ∈ (s.round mac r).2 →
    ∀ obis ∈ promoted, ∀ e, obisLookup obis = some e → Heard r.captures e.label →
      Published mac (serialAt s r)
        (earlier ++ (s.round mac r).2.takeWhile (·.2 ≠ .state payload)) session obis

/-- When a session's configs go out all eight registers have been heard, and no CONNECTED
    falls between the first of them and the latch. A cycle with one of the eight in it sends
    its message on the session it has just told, or on the one latched last. -/
structure Orderly (mac : Bytes) (before : List AxdrCapture) (s : Teller) (r : Round) : Prop where
  heard : Tells mac s r → ∀ obis ∈ promoted, ∀ e, obisLookup obis = some e →
    Heard (before ++ r.captures) e.label
  told : Tells mac s r → ∀ k, 3 ≤ k → k ≤ 10 → Event.connected ∉ r.during k
  sends : ∀ obis ∈ promoted, ∀ e, obisLookup obis = some e → Heard r.captures e.label →
    (Tells mac s r → Event.connected ∉ r.during 11) ∧
      (Effective mac s r → ¬ Differs mac s r →
        s.told = connectsAt s r 1 ∧ Event.connected ∉ r.during 2)

def capturesOf (run : List Occurrence) : List AxdrCapture :=
  run.flatMap fun o => match o with
    | .event _ => []
    | .round r => r.captures

section
variable (octets : Fin 6 → UInt8)

def OnlySentRun (run : List Occurrence) : Prop :=
  ∀ before r rest, run = before ++ .round r :: rest →
    OnlySent (macText octets) (saidBy octets before) (capturesOf before) (after octets before) r

def OrderlyRun (run : List Occurrence) : Prop :=
  ∀ before r rest, run = before ++ .round r :: rest →
    Orderly (macText octets) (capturesOf before) (after octets before) r

end

/-- The session latched last has been told of every register. -/
structure Informed (mac : Bytes) (log : List (Nat × Said)) (s : Teller) : Prop extends
    Named s where
  every : s.told ≠ 0 → ∀ obis ∈ promoted, Published mac (cstr s.decode.meterSerial) log s.told obis

variable {octets : Fin 6 → UInt8} {log : List (Nat × Said)} {before : List AxdrCapture}
  {s : Teller} {r : Round}

theorem published_later {mac serial obis : Bytes} {session : Nat} {said : List (Nat × Said)}
    (published : Published mac serial log session obis) :
    Published mac serial (log ++ said) session obis := by
  obtain ⟨topic, payload, accepted, made, member⟩ := published
  exact ⟨topic, payload, accepted, made, List.mem_append_left _ member⟩

theorem state_said (steady : Steady s) {session : Nat} {payload : Bytes}
    (sent : (session, Said.state payload) ∈ (s.round (macText octets) r).2) :
    (Tells (macText octets) s r ∧ session = connectsAt s r 11 ∧
        entries (macText octets) (serialAt s r) (connectsAt s r) r.accepts promoted 2 ⊆
          (s.round (macText octets) r).2.takeWhile (·.2 ≠ .state payload)) ∨
      (Effective (macText octets) s r ∧ ¬ Differs (macText octets) s r ∧
        session = connectsAt s r 2) := by
  have last {n : Nat} {set : CycleSet} (member : (session, Said.state payload) ∈
      stateSaid set s r n) : session = connectsAt s r n := by
    unfold stateSaid at member
    split at member
    · exact absurd member List.not_mem_nil
    · exact (Prod.mk.inj (List.mem_singleton.mp member)).1
  by_cases effective : Effective (macText octets) s r
  · by_cases differs : Differs (macText octets) s r
    · apply Or.inl
      have tells : Tells (macText octets) s r := ⟨effective, differs⟩
      rw [(tells_said steady tells).said] at sent ⊢
      have front := other_behind octets steady r (.state payload) (by simp) (by simp)
      refine ⟨tells, ?_, ?_⟩
      · rcases List.mem_append.mp sent with earlier | rest
        · simpa using front _ earlier
        · rcases List.mem_cons.mp rest with latch | message
          · cases (Prod.mk.inj latch).2
          · exact last message
      · intro x entry
        rw [List.takeWhile_append_of_pos front]
        exact List.mem_append_left _ (List.mem_cons_of_mem _ entry)
    · apply Or.inr
      rw [(round_same effective differs).said] at sent
      rcases List.mem_cons.mp sent with compared | message
      · cases (Prod.mk.inj compared).2
      · exact ⟨effective, differs, last message⟩
  · rw [(round_quiet effective).said] at sent
    exact absurd sent List.not_mem_nil

theorem tells_publishes (octets : Fin 6 → UInt8) (steady : Steady s) (r : Round) {obis : Bytes}
    (listed : obis ∈ promoted) :
    ∃ i topic payload, i < 8 ∧ config (macText octets) (serialAt s r) obis = some (topic, payload) ∧
      (connectsAt s r (2 + i), Said.config topic payload (r.accepts (2 + i))) ∈
        entries (macText octets) (serialAt s r) (connectsAt s r) r.accepts promoted 2 := by
  obtain ⟨i, here⟩ := List.mem_iff_getElem?.mp listed
  obtain ⟨⟨topic, payload⟩, made⟩ := Option.isSome_iff_exists.mp (built_at steady r obis listed)
  have inside : i < 8 := (List.getElem?_eq_some_iff.mp here).1
  exact ⟨i, topic, payload, inside, made,
    (mem_entries (built_at steady r)).mpr ⟨i, obis, topic, payload, here, made, rfl⟩⟩

theorem only_sent_heard (steady : Steady s) (tells : Tells (macText octets) s r)
    (only : OnlySent (macText octets) log before s r) :
    ∀ obis ∈ promoted, ∀ e, obisLookup obis = some e → Heard (before ++ r.captures) e.label := by
  intro obis listed e found
  obtain ⟨i, topic, payload, _, made, entry⟩ :=
    tells_publishes octets steady r listed
  have said : (connectsAt s r (2 + i), Said.config topic payload (r.accepts (2 + i))) ∈
      (s.round (macText octets) r).2 := by
    rw [(tells_said steady tells).said]
    exact List.mem_append_left _ (List.mem_cons_of_mem _ entry)
  obtain ⟨other, member, d, here, same, heard⟩ := only.heard _ _ _ _ said
  obtain rfl := config_injective listed member made same
  obtain rfl : e = d := Option.some.inj (found.symm.trans here)
  exact heard

theorem orderly_only_sent (informed : Informed (macText octets) log s)
    (orderly : Orderly (macText octets) before s r) :
    OnlySent (macText octets) log before s r := by
  have steady := informed.toSteady
  constructor
  · intro session topic payload accepted member
    obtain ⟨tells, i, obis, here, made, _, _⟩ := (config_said_iff steady).mp member
    have listed := List.mem_of_getElem? here
    obtain ⟨e, found, _⟩ := topic_text made
    exact ⟨obis, listed, e, found, made, orderly.heard tells obis listed e found⟩
  · intro session payload sent obis listed e found heard
    obtain ⟨telling, sending⟩ := orderly.sends obis listed e found heard
    rcases state_said steady sent with ⟨tells, rfl, earlier⟩ | ⟨effective, same, rfl⟩
    · obtain ⟨i, topic, text, inside, made, entry⟩ :=
        tells_publishes octets steady r listed
      have session : connectsAt s r (2 + i) = connectsAt s r 11 := by
        rw [connects_at_eq_iff s r (show 2 + i ≤ 11 by omega)]
        intro k above below
        rcases Nat.lt_or_eq_of_le below with sooner | rfl
        · exact orderly.told tells k (by omega) (by omega)
        · exact telling tells
      rw [session] at entry
      exact ⟨topic, text, _, made, List.mem_append_right _ (earlier entry)⟩
    · obtain ⟨latched, still⟩ := sending effective same
      have session : connectsAt s r 1 = connectsAt s r 2 := by
        rw [connects_at_eq_iff s r (Nat.le_succ 1)]
        intro k above below
        obtain rfl : k = 2 := by omega
        exact still
      have known : s.told ≠ 0 := by
        have first := connected_at steady effective.1
        have later := connects_at_le s r (Nat.zero_le 1)
        omega
      rw [serialAt, serial_at_named informed.toNamed r known, ← session, ← latched]
      exact published_later (informed.every known obis listed)

/- From one round to the whole run. -/

theorem round_informed (informed : Informed (macText octets) log s)
    (orderly : Orderly (macText octets) before s r) :
    Informed (macText octets) (log ++ (s.round (macText octets) r).2)
      (s.round (macText octets) r).1 := by
  have steady := informed.toSteady
  refine ⟨round_named informed.toNamed r, ?_⟩
  intro latched obis listed
  rw [(round_steady steady r).2]
  rcases told_after steady r with ⟨tells, latch⟩ | ⟨_, kept⟩
  · obtain ⟨i, topic, text, inside, made, entry⟩ :=
      tells_publishes octets steady r listed
    have session : connectsAt s r (2 + i) = connectsAt s r 10 := by
      rw [connects_at_eq_iff s r (show 2 + i ≤ 10 by omega)]
      exact fun k above below => orderly.told tells k (by omega) below
    rw [latch, ← session]
    refine ⟨topic, text, r.accepts (2 + i), made, List.mem_append_right _ ?_⟩
    rw [(tells_said steady tells).said]
    exact List.mem_append_left _ (List.mem_cons_of_mem _ entry)
  · rw [kept] at latched ⊢
    rw [serial_at_named informed.toNamed r latched]
    exact published_later (informed.every latched obis listed)

theorem run_informed (octets : Fin 6 → UInt8) (run : List Occurrence)
    (orderly : OrderlyRun octets run) :
    Informed (macText octets) (saidBy octets run) (after octets run) :=
  run_holds octets (P := Informed (macText octets))
    ⟨⟨boot_steady, fun latched => absurd rfl latched⟩, fun latched => absurd rfl latched⟩
    (fun _ _ e informed =>
      ⟨⟨event_steady _ informed.toSteady e, informed.named⟩, informed.every⟩)
    fun before r rest split informed => round_informed informed (orderly before r rest split)

/-- Over every orderly run, only registers the meter sends become entities, and those it
    sends do. -/
theorem promoted_only_sent (octets : Fin 6 → UInt8) (run : List Occurrence)
    (orderly : OrderlyRun octets run) : OnlySentRun octets run := by
  intro before r rest split
  have informed := run_informed octets before fun earlier q more prior =>
    orderly earlier q (more ++ .round r :: rest) (by simp [split, prior])
  exact orderly_only_sent informed (orderly before r rest split)

def reading (obis : Bytes) (value : UInt8) : AxdrCapture :=
  { obis, isNumeric := true, value := [value], hasScalerUnit := false, scaler := 0,
    valueAsString := [], valueAsFloatWithScalerApplied := .finite false value.toNat 0 }

def calm (captures : List AxdrCapture) : Round := ⟨captures, fun _ => [], fun _ => true⟩

theorem calm_passed (captures : List AxdrCapture) (n : Nat) : (calm captures).passed n = [] := by
  simp [Round.passed, calm]

def fullList : Round := calm (nameplate :: promoted.map (reading · 7))

def fullMeter : List Occurrence :=
  [.event .connected, .round fullList, .round (calm [reading (ascii "1.1.1.8.0.255") 8])]

theorem full_meter_entities :
    OnlySentRun (fun _ => 0) fullMeter ∧ (saidBy (fun _ => 0) fullMeter).length = 13 := by
  have ran : (saidBy (fun _ => 0) fullMeter).length = 13 ∧
      (after (fun _ => 0) [.event .connected, .round fullList]).told = 1 ∧
      (after (fun _ => 0) [.event .connected, .round fullList]).connects = 1 ∧
      (after (fun _ => 0) [.event .connected, .round fullList]).discoverySession = 1 ∧
      (after (fun _ => 0) [.event .connected, .round fullList]).net.sessionId = 1 := by
    decide +kernel
  obtain ⟨said, told, connects, latched, session⟩ := ran
  have all : ∀ obis ∈ promoted, ∀ e, obisLookup obis = some e →
      Heard ([] ++ fullList.captures) e.label := by
    intro obis listed e found
    have covered : ∀ obis ∈ promoted, (obisLookup obis).all fun e =>
        decide (Heard ([] ++ fullList.captures) e.label) := by decide +kernel
    simpa [found] using covered obis listed
  refine ⟨promoted_only_sent _ _ ?_, said⟩
  intro before r rest split
  match before, split with
  | [_], rfl =>
    refine ⟨fun _ => all, fun _ k _ _ => List.not_mem_nil, fun _ _ _ _ _ => ?_⟩
    refine ⟨fun _ => List.not_mem_nil, fun _ same => absurd ?_ same⟩
    unfold Differs
    decide +kernel
  | [_, _], rfl =>
    have same : ¬ Differs (macText fun _ => 0)
        (after (fun _ => 0) [.event .connected, .round fullList])
        (calm [reading (ascii "1.1.1.8.0.255") 8]) := by
      rw [Differs, latched, not_not, netAt, calm_passed, final_nil, session]
    refine ⟨fun tells => absurd tells.2 same, fun tells => absurd tells.2 same,
      fun _ _ _ _ _ => ⟨fun tells => absurd tells.2 same, fun _ _ => ⟨?_, List.not_mem_nil⟩⟩⟩
    rw [told, connectsAt, connects, calm_passed]
    rfl
  | _ :: _ :: _ :: _, split => simp [fullMeter] at split

def leanMeter : List Occurrence :=
  [.event .connected, .round (calm [nameplate, reading (ascii "1.1.1.8.0.255") 7])]

/-- Eight entities go out, and the one message has a key for one of them. -/
theorem unsent_entities :
    let said := saidBy (fun _ => 0) leanMeter
    (said.filter fun x => match x.2 with
        | .config _ _ _ => true
        | _ => false).length = 8 ∧
      said.getLast? = some (1, .state (objectText [(ascii "active_energy_plus", ascii "7")])) ∧
      ¬ OnlySentRun (fun _ => 0) leanMeter := by
  have counted : ((saidBy (fun _ => 0) leanMeter).filter fun x => match x.2 with
        | .config _ _ _ => true
        | _ => false).length = 8 ∧
      (saidBy (fun _ => 0) leanMeter).getLast? =
        some (1, .state (objectText [(ascii "active_energy_plus", ascii "7")])) := by
    decide +kernel
  refine ⟨counted.1, counted.2, ?_⟩
  intro only
  have steady : Steady (after (fun _ => 0) [.event .connected]) :=
    event_steady _ boot_steady .connected
  have heard := only_sent_heard steady ⟨⟨by decide +kernel, by decide +kernel⟩, ?_⟩
    (only [.event .connected] _ _ rfl)
  · have silent : ¬ Heard [nameplate, reading (ascii "1.1.1.8.0.255") 7]
        (ascii "active_energy_minus") := by decide
    exact silent (heard (ascii "1.1.2.8.0.255") (by decide) _ rfl)
  · unfold Differs
    decide +kernel

end GplugPromotedEntities
