import Mathlib.Tactic.Common
import GplugMini.DiscoveryRounds

/- Whether a config the client did not take is published again, and a session latched only
   when it has them all. -/
namespace GplugDiscoveryRetry
open ByteText EmittingRun GplugDecode GplugDiscoveryRounds GplugHaDiscovery GplugMeterSerial
open GplugNet GplugObisMap

def Accepted (mac serial : Bytes) (log : List (Nat × Said)) (session : Nat) (obis : Bytes) :
    Prop :=
  ∃ topic payload, config mac serial obis = some (topic, payload) ∧
    (session, .config topic payload true) ∈ log

def Tried (mac serial : Bytes) (said : List (Nat × Said)) (obis : Bytes) : Prop :=
  ∃ session topic payload accepted, config mac serial obis = some (topic, payload) ∧
    (session, .config topic payload accepted) ∈ said

/-- One round after what was said earlier: it latches a session that has taken all eight, and
    publishes every one that the session it meets has not taken. -/
structure Retries (mac : Bytes) (earlier : List (Nat × Said)) (s : Teller) (r : Round) :
    Prop where
  latches : ∀ session, (session, .latched) ∈ (s.round mac r).2 → ∀ obis ∈ promoted,
    Accepted mac (serialAt s r)
      (earlier ++ (s.round mac r).2.takeWhile (·.2 ≠ .latched)) session obis
  retries : Effective mac s r → ∀ obis ∈ promoted,
    Accepted mac (serialAt s r) earlier (connectsAt s r 1) obis ∨
      Tried mac (serialAt s r) (s.round mac r).2 obis

/-- The round of a session not latched yet differs from the one that is, has all eight taken,
    and no CONNECTED falls between the first of them and the latch. -/
def Delivers (mac : Bytes) (s : Teller) (r : Round) : Prop :=
  Effective mac s r → s.told ≠ connectsAt s r 1 →
    Differs mac s r ∧
      ∀ n, 2 ≤ n → n < 10 → r.accepts n = true ∧ Event.connected ∉ r.during (n + 1)

section
variable (octets : Fin 6 → UInt8)

def RetriesRun (run : List Occurrence) : Prop :=
  ∀ before r rest, run = before ++ .round r :: rest →
    Retries (macText octets) (saidBy octets before) (after octets before) r

def DeliversRun (run : List Occurrence) : Prop :=
  ∀ before r rest, run = before ++ .round r :: rest →
    Delivers (macText octets) (after octets before) r

end

structure Told (log : List (Nat × Said)) (s : Teller) : Prop extends Named s where
  within : ∀ session topic payload accepted,
    (session, .config topic payload accepted) ∈ log → session ≤ s.told

def Complete (mac : Bytes) (log : List (Nat × Said)) (s : Teller) : Prop :=
  s.told ≠ 0 → ∀ obis ∈ promoted, Accepted mac (cstr s.decode.meterSerial) log s.told obis

variable {octets : Fin 6 → UInt8} {log : List (Nat × Said)} {s : Teller} {r : Round}

theorem quiet_retries (quiet : ¬ Effective (macText octets) s r) :
    Retries (macText octets) log s r where
  latches := by
    rw [(round_quiet quiet).said]
    simp
  retries := fun effective => absurd effective quiet

theorem same_retries (told : Told log s) (complete : Complete (macText octets) log s)
    (effective : Effective (macText octets) s r) (same : s.told = connectsAt s r 1) :
    Retries (macText octets) log s r := by
  have latched : s.told ≠ 0 := by
    have first := connected_at told.toSteady effective.1
    have later := connects_at_le s r (Nat.zero_le 1)
    omega
  have equal : ¬ Differs (macText octets) s r := by
    rw [Differs, session_at told.toSteady, told.toSteady.latched, same]
    simp
  constructor
  · intro session member
    exact absurd ((latched_said_iff told.toSteady).mp member).1.2 equal
  · intro _ obis listed
    apply Or.inl
    rw [serialAt, serial_at_named told.toNamed r latched, ← same]
    exact complete latched obis listed

theorem mistaken_not_retries (told : Told log s) (effective : Effective (macText octets) s r)
    (other : s.told ≠ connectsAt s r 1) (equal : ¬ Differs (macText octets) s r) :
    ¬ Retries (macText octets) log s r := by
  intro retries
  have listed : ascii "1.1.1.8.0.255" ∈ promoted := by decide
  rcases retries.retries effective _ listed with taken | tried
  · obtain ⟨topic, payload, _, earlier⟩ := taken
    have within := told.within _ _ _ _ earlier
    have before := told.toSteady.earlier
    have later := connects_le_at s r 1
    omega
  · obtain ⟨session, topic, payload, accepted, _, now⟩ := tried
    exact equal ((config_said_iff told.toSteady).mp now).1.2

theorem differs_other (told : Told log s) (differs : Differs (macText octets) s r) :
    s.told ≠ connectsAt s r 1 := by
  intro same
  apply differs
  rw [session_at told.toSteady, told.toSteady.latched, same]

section
variable (told : Told log s) (tells : Tells (macText octets) s r)
include told tells

theorem before_latch_iff {session : Nat} {topic payload : Bytes} {accepted : Bool} :
    (session, Said.config topic payload accepted) ∈
        (s.round (macText octets) r).2.takeWhile (·.2 ≠ .latched) ↔
      (session, Said.config topic payload accepted) ∈ (s.round (macText octets) r).2 := by
  have front := other_behind octets told.toSteady r .latched (by simp) (by simp)
  rw [(tells_said told.toSteady tells).said, List.takeWhile_append_of_pos front]
  simp only [ne_eq, decide_not, decide_true, Bool.not_true, Bool.false_eq_true, not_false_eq_true,
    List.takeWhile_cons_of_neg, List.append_nil]
  constructor
  · exact fun member => List.mem_append_left _ member
  · intro member
    rcases List.mem_append.mp member with here | rest
    · exact here
    · rcases List.mem_cons.mp rest with latch | sent
      · cases (Prod.mk.inj latch).2
      · exact absurd sent (not_in_state (by simp))

/-- What the session of the latch has taken, it has taken in this round. -/
theorem tells_accepted_iff {i : Nat} {obis : Bytes} (here : promoted[i]? = some obis) :
    Accepted (macText octets) (serialAt s r)
        (log ++ (s.round (macText octets) r).2.takeWhile (·.2 ≠ .latched)) (connectsAt s r 10)
        obis ↔
      r.accepts (2 + i) = true ∧ connectsAt s r (2 + i) = connectsAt s r 10 := by
  have listed := List.mem_of_getElem? here
  constructor
  · intro accepted
    obtain ⟨topic, payload, made, member⟩ := accepted
    rcases List.mem_append.mp member with earlier | now
    · have within := told.within _ _ _ _ earlier
      have before := told.toSteady.earlier
      have start := connects_le_at s r 1
      have later := connects_at_le s r (show 1 ≤ 10 by omega)
      exact absurd (by omega) (differs_other told tells.2)
    · obtain ⟨_, j, code, there, found, session, taken⟩ :=
        (config_said_iff told.toSteady).mp ((before_latch_iff told tells).mp now)
      obtain rfl := config_injective listed (List.mem_of_getElem? there) made found
      have inside := (List.getElem?_eq_some_iff.mp here).1
      obtain rfl := (List.getElem?_inj inside promoted_nodup).mp (here.trans there.symm)
      exact ⟨taken.symm, session.symm⟩
  · intro both
    obtain ⟨taken, session⟩ := both
    obtain ⟨⟨topic, payload⟩, made⟩ :=
      Option.isSome_iff_exists.mp (built_at told.toSteady r obis listed)
    refine ⟨topic, payload, made, List.mem_append_right _ ?_⟩
    rw [before_latch_iff told tells, config_said_iff told.toSteady]
    exact ⟨tells, i, obis, here, made, session.symm, taken.symm⟩

theorem tells_retries_iff :
    Retries (macText octets) log s r ↔
      ∀ n, 2 ≤ n → n < 10 → r.accepts n = true ∧ Event.connected ∉ r.during (n + 1) := by
  have eight : promoted.length = 8 := rfl
  constructor
  · intro retries
    have latched := (latched_said_iff told.toSteady).mpr ⟨tells, rfl⟩
    have each (i : Nat) (inside : i < 8) :
        r.accepts (2 + i) = true ∧ connectsAt s r (2 + i) = connectsAt s r 10 := by
      have here : promoted[i]? = some promoted[i] := List.getElem?_eq_getElem (by omega)
      exact (tells_accepted_iff told tells here).mp
        (retries.latches _ latched _ (List.getElem_mem _))
    have steady := (connects_at_eq_iff s r (show 2 ≤ 10 by omega)).mp (each 0 (by omega)).2
    intro n above below
    have taken := (each (n - 2) (by omega)).1
    rw [show 2 + (n - 2) = n by omega] at taken
    exact ⟨taken, steady (n + 1) (by omega) (by omega)⟩
  · intro delivers
    have steady := (connects_at_eq_iff s r (show 2 ≤ 10 by omega)).mpr fun k above below => by
      have := (delivers (k - 1) (by omega) (by omega)).2
      rwa [show k - 1 + 1 = k by omega] at this
    constructor
    · intro session member obis listed
      obtain ⟨i, here⟩ := List.mem_iff_getElem?.mp listed
      obtain ⟨inside, _⟩ := List.getElem?_eq_some_iff.mp here
      obtain ⟨_, rfl⟩ := (latched_said_iff told.toSteady).mp member
      rw [tells_accepted_iff told tells here]
      refine ⟨(delivers (2 + i) (by omega) (by omega)).1, ?_⟩
      have lower := connects_at_le s r (show 2 ≤ 2 + i by omega)
      have upper := connects_at_le s r (show 2 + i ≤ 10 by omega)
      omega
    · intro _ obis listed
      obtain ⟨i, here⟩ := List.mem_iff_getElem?.mp listed
      obtain ⟨⟨topic, payload⟩, made⟩ :=
        Option.isSome_iff_exists.mp (built_at told.toSteady r obis listed)
      refine Or.inr ⟨connectsAt s r (2 + i), topic, payload, r.accepts (2 + i), made, ?_⟩
      exact (config_said_iff told.toSteady).mpr ⟨tells, i, obis, here, made, rfl, rfl⟩

end

theorem round_retries_iff (told : Told log s) (complete : Complete (macText octets) log s) :
    Retries (macText octets) log s r ↔ Delivers (macText octets) s r := by
  by_cases effective : Effective (macText octets) s r
  · by_cases same : s.told = connectsAt s r 1
    · exact ⟨fun _ _ other => absurd same other,
        fun _ => same_retries told complete effective same⟩
    · by_cases differs : Differs (macText octets) s r
      · rw [tells_retries_iff told ⟨effective, differs⟩]
        exact ⟨fun delivers _ _ => ⟨differs, delivers⟩, fun delivers => (delivers effective same).2⟩
      · exact ⟨fun retries => absurd retries (mistaken_not_retries told effective same differs),
          fun delivers => absurd (delivers effective same).1 differs⟩
  · exact ⟨fun _ reached => absurd reached effective, fun _ => quiet_retries effective⟩

/- From one round to the whole run. -/

theorem round_told (told : Told log s) (r : Round) :
    Told (log ++ (s.round (macText octets) r).2) (s.round (macText octets) r).1 := by
  refine ⟨round_named told.toNamed r, ?_⟩
  intro session topic payload accepted member
  have before := told.toSteady.earlier
  rcases List.mem_append.mp member with earlier | now
  · have within := told.within _ _ _ _ earlier
    have later := connects_le_at s r 10
    rcases told_after told.toSteady r with ⟨_, latch⟩ | ⟨_, kept⟩
    · rw [latch]
      omega
    · rw [kept]
      exact within
  · obtain ⟨tells, i, obis, here, _, rfl, _⟩ := (config_said_iff told.toSteady).mp now
    have inside : i < 8 := (List.getElem?_eq_some_iff.mp here).1
    rw [(tells_said told.toSteady tells).told]
    exact connects_at_le s r (by omega)

theorem accepted_later {mac serial obis : Bytes} {session : Nat} {said : List (Nat × Said)}
    (accepted : Accepted mac serial log session obis) :
    Accepted mac serial (log ++ said) session obis := by
  obtain ⟨topic, payload, made, member⟩ := accepted
  exact ⟨topic, payload, made, List.mem_append_left _ member⟩

theorem round_complete (told : Told log s) (complete : Complete (macText octets) log s)
    (retries : Retries (macText octets) log s r) :
    Complete (macText octets) (log ++ (s.round (macText octets) r).2)
      (s.round (macText octets) r).1 := by
  obtain ⟨_, serial⟩ := round_steady told.toSteady r
  intro latched obis listed
  rw [serial]
  rcases told_after told.toSteady r with ⟨tells, latch⟩ | ⟨_, kept⟩
  · have said := (latched_said_iff told.toSteady).mpr ⟨tells, rfl⟩
    obtain ⟨topic, payload, made, member⟩ := retries.latches _ said obis listed
    rw [latch]
    refine ⟨topic, payload, made, ?_⟩
    rcases List.mem_append.mp member with earlier | now
    · exact List.mem_append_left _ earlier
    · exact List.mem_append_right _ ((before_latch_iff told tells).mp now)
  · rw [kept] at latched ⊢
    rw [serial_at_named told.toNamed r latched]
    exact accepted_later (complete latched obis listed)

theorem run_told (run : List Occurrence) : Told (saidBy octets run) (after octets run) :=
  run_holds octets (P := Told) ⟨⟨boot_steady, fun latched => absurd rfl latched⟩, by simp⟩
    (fun _ _ e told => ⟨⟨event_steady _ told.toSteady e, told.named⟩, told.within⟩)
    fun _ r _ _ told => round_told told r

/-- As long as the rounds keep to it, what is latched is complete. -/
theorem run_complete {run : List Occurrence}
    (keeps : ∀ before r rest, run = before ++ .round r :: rest →
      Complete (macText octets) (saidBy octets before) (after octets before) →
        Retries (macText octets) (saidBy octets before) (after octets before) r) :
    Complete (macText octets) (saidBy octets run) (after octets run) :=
  run_holds octets (P := Complete (macText octets)) (fun latched => absurd rfl latched)
    (fun _ _ _ complete => complete) fun before r rest split complete =>
      round_complete (run_told before) complete (keeps before r rest split complete)

/-- Every round of a run retries what is missing exactly when none leaves anything missing. -/
theorem retries_run_iff (octets : Fin 6 → UInt8) (run : List Occurrence) :
    RetriesRun octets run ↔ DeliversRun octets run := by
  constructor
  · intro retries before r rest split
    have complete : Complete (macText octets) (saidBy octets before) (after octets before) :=
      run_complete fun earlier q more prior _ =>
        retries earlier q (more ++ .round r :: rest) (by simp [split, prior])
    exact (round_retries_iff (run_told before) complete).mp (retries before r rest split)
  · intro delivers before r rest split
    have complete : Complete (macText octets) (saidBy octets before) (after octets before) :=
      run_complete fun earlier q more prior complete =>
        (round_retries_iff (run_told earlier) complete).mpr
          (delivers earlier q (more ++ .round r :: rest) (by simp [split, prior]))
    exact (round_retries_iff (run_told before) complete).mpr (delivers before r rest split)

def refusedOnce : List Occurrence :=
  [.event .connected, .round ⟨[nameplate], fun _ => [], fun n => n ≠ 4⟩,
    .round ⟨[nameplate], fun _ => [], fun _ => true⟩]

/-- The session is latched with seven configs, and the eighth is not published again. -/
theorem refused_config_lost :
    let said := saidBy (fun _ => 0) refusedOnce
    (said.filter fun x => match x.2 with
        | .config _ _ accepted => accepted
        | _ => false).length = 7 ∧
      (said.filter fun x => match x.2 with
        | .config _ _ _ => true
        | _ => false).length = 8 ∧
      (1, Said.latched) ∈ said ∧ ¬ RetriesRun (fun _ => 0) refusedOnce := by
  intro said
  have counted : (said.filter fun x => match x.2 with
        | .config _ _ accepted => accepted
        | _ => false).length = 7 ∧
      (said.filter fun x => match x.2 with
        | .config _ _ _ => true
        | _ => false).length = 8 ∧
      (1, Said.latched) ∈ said := by decide +kernel
  refine ⟨counted.1, counted.2.1, counted.2.2, ?_⟩
  intro retries
  have delivers := (retries_run_iff _ _).mp retries [.event .connected] _ _ rfl
  have effective : Effective (macText fun _ => 0)
      (after (fun _ => 0) [.event .connected])
      ⟨[nameplate], fun _ => [], fun n => n ≠ 4⟩ := ⟨by decide, by decide⟩
  exact absurd ((delivers effective (by decide)).2 4 (by omega) (by omega)).1 (by decide)

end GplugDiscoveryRetry
