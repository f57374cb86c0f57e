import Mathlib.Data.List.Chain
import Mathlib.Tactic.Common
import GplugMini.Indicator
import GplugMini.LineProbe
import GplugMini.PublicationTrace

/- One flash of the light for each set that was published. Publications are taken from runs of
   the main loop; the light is looked at by its own task, some time after each of them. -/
namespace GplugPublishPulses
open ByteText CallTree EmittingRun GplugAggregator GplugReceive GplugPublishCycle GplugMainLoop
open GplugHaDiscovery GplugDecode GplugIndicator GplugLineProbe GplugPublicationTrace GplugNet

/-- A pass of the main loop, and the clock when it published, if it did. -/
structure Stamped where
  pass : Pass
  micros : Nat

/-- The clock never steps back, nor ahead by 2^31 ms or more from one pass to the next. -/
def Clocked : Option Stamped → List Stamped → Prop
  | _, [] => True
  | before, q :: rest =>
      (∀ p ∈ before, p.micros ≤ q.pass.read.micros ∧
        q.pass.read.ms < p.pass.read.ms + 2 ^ 31) ∧
      q.pass.read.micros ≤ q.micros ∧ Clocked (some q) rest

instance decideClocked : ∀ before passes, Decidable (Clocked before passes)
  | _, [] => isTrue trivial
  | before, q :: rest =>
      have := decideClocked (some q) rest
      have : Decidable (∀ p ∈ before, p.micros ≤ q.pass.read.micros ∧
          q.pass.read.ms < p.pass.read.ms + 2 ^ 31) :=
        match before with
        | none => isTrue (by simp)
        | some p => decidable_of_iff (p.micros ≤ q.pass.read.micros ∧
            q.pass.read.ms < p.pass.read.ms + 2 ^ 31) (by simp)
      inferInstanceAs (Decidable (_ ∧ _ ∧ _))

section
variable {Parser : Type} (parse : Parser → Bytes → ParseOut Parser) (mac : Bytes)

def pulse (s : LoopState Parser) (p : Stamped) : LoopState Parser × List Nat :=
  ((pass parse mac s p.pass).1, .replicate ((pass parse mac s p.pass).2.count .pulse) p.micros)

def pulses (boot : Nat) (parser : Parser) (passes : List Stamped) : List Nat :=
  emitted (pulse parse mac) (.boot boot parser) passes

end

theorem publish_cycle_pulses (mac meterSerial : Bytes) (set : CycleSet) (p : Pass)
    (s : UInt32 × List Output) :
    ((publishCycle mac meterSerial set).run (answer p) s).2.2.count .pulse =
      s.2.count .pulse + if GoesOut p meterSerial set then 1 else 0 := by
  have setPulses (t : UInt32 × List Output) : ((publishSet set).run (answer p) t).2.2.count .pulse =
      t.2.count .pulse + if set.empty = false then 1 else 0 := by
    rw [publish_set_run]
    cases set.empty <;> simp
  unfold publishCycle
  simp only [bind_eq, perform_bind, run_call, answer]
  by_cases up : p.connected = true
  · by_cases unknown : meterSerial.headD 0 = 0
    · have kept : ¬ GoesOut p meterSerial set := fun out => out.2.1 unknown
      simp only [up, unknown, kept, Bool.not_true, Bool.false_eq_true, ↓reduceIte, pure_eq_ret,
        run_ret, Nat.add_zero]
    · have out : GoesOut p meterSerial set ↔ set.empty = false :=
        ⟨fun out => out.2.2, fun sent => ⟨up, unknown, sent⟩⟩
      simp only [up, Bool.not_true, Bool.false_eq_true, ↓reduceIte, unknown, run_call, answer, out]
      by_cases differs : (s.1 != p.compared) = true
      · simp only [differs, ↓reduceIte, run_bind, announce_run, run_call, answer, setPulses,
          List.count_append]
        have silent (configs : List (Bytes × Bytes)) :
            (configs.map fun c => Output.discovery c.1 c.2).count .pulse = 0 := by
          rw [List.count_eq_zero]
          simp
        rw [silent, Nat.add_zero]
      · simp only [differs, Bool.false_eq_true, ↓reduceIte]
        exact setPulses s
  · have kept : ¬ GoesOut p meterSerial set := fun out => up out.1
    simp only [up, kept, Bool.not_false, ↓reduceIte, pure_eq_ret, run_ret, Nat.add_zero]

theorem probe_pulses (undecoded objects : Nat) (cycle : Bytes) :
    (probe undecoded objects cycle).2.count .pulse = 0 := by
  unfold probe
  split_ifs <;> rfl

section
variable {Parser : Type} {parse : Parser → Bytes → ParseOut Parser} {mac : Bytes}

variable (parse mac) in
theorem pass_pulses (s : LoopState Parser) (p : Pass) :
    (pass parse mac s p).2.count .pulse = ((pass parse mac s p).2.filterMap stateText).length ∧
      (pass parse mac s p).2.count .pulse ≤ 1 ∧
      (¬ AtBoundary s p → (pass parse mac s p).2.count .pulse = 0) := by
  by_cases ends : AtBoundary s p
  · rw [pass_at_boundary ends]
    have counted := publish_cycle_pulses mac
      (LoopState.parsed parse s).heard.meterSerial (LoopState.parsed parse s).heard.cycleSet p
      (s.discoverySession,
        (probe s.undecoded (LoopState.parsed parse s).objects (LoopState.parsed parse s).cycle).2)
    have texts := (publish_cycle_states mac
      (LoopState.parsed parse s).heard.meterSerial (LoopState.parsed parse s).heard.cycleSet p
      (s.discoverySession,
        (probe s.undecoded (LoopState.parsed parse s).objects
          (LoopState.parsed parse s).cycle).2)).1
    rw [probe_pulses] at counted
    rw [probe_states] at texts
    have pulseCount : (endCycle parse mac s p).2.count .pulse = _ := counted
    have stateTexts : (endCycle parse mac s p).2.filterMap stateText = _ := texts
    rw [pulseCount, stateTexts]
    refine ⟨?_, ?_, fun goes => absurd ends goes⟩ <;> split <;> simp
  · have quiet : (pass parse mac s p).2 = [] := (pass_elsewhere ends).1
    simp [quiet]

structure Apart (pulsed : Option Nat) (before : Option Stamped) (s : LoopState Parser) : Prop where
  sane : ∀ p ∈ before, p.pass.read.micros ≤ p.micros
  early : ∀ t ∈ pulsed, ∃ p ∈ before, t ≤ p.micros
  held : s.rx.cycle ≠ [] → ∃ since, s.rx.lastByte = UInt32.ofNat since ∧
    (∀ t ∈ pulsed, t / 1000 ≤ since) ∧
    ∃ p ∈ before, since ≤ p.pass.read.ms ∧ p.pass.read.ms < since + 2000

section
variable {pulsed : Option Nat} {before : Option Stamped} {s : LoopState Parser} {q : Stamped}

theorem apart_data (apart : Apart pulsed before s)
    (clocked : ∀ p ∈ before, p.micros ≤ q.pass.read.micros) (later : q.pass.read.micros ≤ q.micros)
    {next : LoopState Parser} (stamp : next.rx.lastByte = nowMs q.pass.read.micros) :
    Apart pulsed (some q) next := by
  refine ⟨by simpa using later, ?_, ?_⟩
  · intro t last
    obtain ⟨p, prior, bound⟩ := apart.early t last
    have := clocked p prior
    exact ⟨q, rfl, by omega⟩
  · intro _
    refine ⟨q.pass.read.ms, stamp, ?_, q, rfl, Nat.le_refl _, by omega⟩
    intro t last
    obtain ⟨p, prior, bound⟩ := apart.early t last
    have := clocked p prior
    exact Nat.div_le_div_right (by omega)

variable (parse mac) in
theorem pulse_apart (apart : Apart pulsed before s)
    (clocked : ∀ p ∈ before, p.micros ≤ q.pass.read.micros ∧
      q.pass.read.ms < p.pass.read.ms + 2 ^ 31) (later : q.pass.read.micros ≤ q.micros) :
    (∀ u ∈ (pulse parse mac s q).2, ∀ t ∈ pulsed, t + 1999000 ≤ u) ∧
      Apart ((pulse parse mac s q).2.getLast?.or pulsed) (some q) (pulse parse mac s q).1 := by
  obtain ⟨few, quiet⟩ := (pass_pulses parse mac s q.pass).2
  have buffer := (pass_receives parse mac s q.pass).1
  by_cases ends : AtBoundary s q.pass
  · -- The last byte came after the last pulse, and this pass a whole gap after that.
    have held : s.rx.cycle ≠ [] := by
      intro empty
      have ended := ends.2
      simp [Receiver.ended, cycleEnded, empty] at ended
    obtain ⟨since, stamp, after, p, prior, low, high⟩ := apart.held held
    obtain ⟨forward, near⟩ := clocked p prior
    have sane := apart.sane p prior
    have passed : p.pass.read.ms ≤ q.pass.read.ms := Nat.div_le_div_right (by omega)
    have late := ((ended_iff stamp (by omega) (by omega)).mp ends.2).2
    have clear : (pulse parse mac s q).1.rx.cycle = [] := by
      rw [pulse, buffer, Receiver.pass, if_neg (by simp [ends.1]), if_pos ends.2]
      rfl
    have stamps : ∀ u ∈ (pulse parse mac s q).2, u = q.micros :=
      fun u member => List.eq_of_mem_replicate member
    refine ⟨?_, ⟨by simpa using later, ?_, fun nonempty => absurd clear nonempty⟩⟩
    · intro u member t last
      have earlier := after t last
      rw [stamps u member]
      simp only [Read.ms] at late
      omega
    · intro t last
      refine ⟨q, rfl, ?_⟩
      rcases Option.or_eq_some_iff.mp last with now | ⟨_, older⟩
      · rw [stamps t (List.mem_of_getLast? now)]
      · obtain ⟨r, same, bound⟩ := apart.early t older
        have := clocked r same
        omega
  · have noPulse : (pulse parse mac s q).2 = [] := by rw [pulse, quiet ends, List.replicate_zero]
    rw [noPulse, List.getLast?_nil, Option.none_or]
    refine ⟨by simp, ?_⟩
    by_cases returned : q.pass.read.bytes ≠ []
    · apply apart_data apart (fun p prior => (clocked p prior).1) later
      rw [pulse, buffer, Receiver.pass, if_pos returned, Receiver.insert]
    · have waits : ¬ s.rx.ended q.pass.read = true := fun ended =>
        ends ⟨by simpa using returned, ended⟩
      have same : (pulse parse mac s q).1.rx = s.rx := by
        rw [pulse, buffer, Receiver.pass, if_neg returned, if_neg waits]
      refine ⟨by simpa using later, ?_, ?_⟩
      · intro t last
        obtain ⟨p, prior, bound⟩ := apart.early t last
        have := clocked p prior
        exact ⟨q, rfl, by omega⟩
      · rw [same]
        intro held
        obtain ⟨since, stamp, after, p, prior, low, high⟩ := apart.held held
        obtain ⟨forward, near⟩ := clocked p prior
        have sane := apart.sane p prior
        have passed : p.pass.read.ms ≤ q.pass.read.ms := Nat.div_le_div_right (by omega)
        refine ⟨since, stamp, after, q, rfl, by omega, ?_⟩
        by_contra late
        exact waits ((ended_iff stamp (by omega) (by omega)).mpr ⟨held, by omega⟩)

end

theorem run_apart {pulsed : Option Nat} {before : Option Stamped} {s : LoopState Parser}
    {passes : List Stamped} (apart : Apart pulsed before s) (clocked : Clocked before passes) :
    (pulsed.toList ++ emitted (pulse parse mac) s passes).IsChain fun t u => t + 1999000 ≤ u := by
  induction passes generalizing pulsed before s with
  | nil => cases pulsed <;> simp
  | cons q passes ih =>
    obtain ⟨paced, later, rest⟩ := clocked
    obtain ⟨far, next⟩ := pulse_apart parse mac apart paced later
    have more := ih next rest
    obtain ⟨_, few, _⟩ := pass_pulses parse mac s q.pass
    have at_most : (pulse parse mac s q).2 = [] ∨ (pulse parse mac s q).2 = [q.micros] := by
      rw [pulse]
      rcases Nat.le_one_iff_eq_zero_or_eq_one.mp few with zero | one
      · exact .inl (by rw [zero, List.replicate_zero])
      · exact .inr (by rw [one, List.replicate_one])
    rw [emitted]
    rcases at_most with zero | one
    · rw [zero, List.getLast?_nil, Option.none_or] at more
      rwa [zero, List.nil_append]
    · rw [one] at more far ⊢
      cases pulsed with
      | none => exact more
      | some t => exact List.isChain_cons_cons.mpr ⟨far _ (by simp) t rfl, more⟩

variable (parse mac) in
theorem pulses_apart (boot : Nat) (parser : Parser) {passes : List Stamped}
    (clocked : Clocked none passes) :
    (pulses parse mac boot parser passes).IsChain fun t u => t + 1999000 ≤ u := by
  have start : Apart none none (LoopState.boot boot parser) :=
    ⟨by simp, by simp, fun held => absurd rfl held⟩
  exact run_apart start clocked

theorem pulses_published (boot : Nat) (parser : Parser) (passes : List Stamped) :
    (pulses parse mac boot parser passes).length =
      (published parse mac boot parser (passes.map Stamped.pass)).length := by
  unfold pulses published
  generalize LoopState.boot boot parser = s
  induction passes generalizing s with
  | nil => rfl
  | cons q passes ih =>
    rw [List.map_cons, emitted, emitted, List.length_append, List.filterMap_append,
      List.length_append, ← (pass_pulses parse mac s q.pass).1, ← ih]
    simp only [pulse, List.length_replicate]

end

/- What the light makes of them. -/

def publishTimes (acts : List Act) : List Nat :=
  acts.filterMap fun
    | .publish now => some now
    | .indicate _ => none

def Sample.publishes (x : Sample) : List Nat := publishTimes (x.before ++ x.within)

/-- The task looks more often than a pulse is long, and each pulse starts between two looks. -/
def Watched : Nat → List Sample → Prop
  | _, [] => True
  | prev, x :: xs =>
      prev ≤ x.now ∧ x.now < prev + publishPulseMs * 1000 ∧
        (∀ t ∈ Sample.publishes x, prev ≤ t ∧ t ≤ x.now) ∧ Watched x.now xs

instance decideWatched : ∀ prev xs, Decidable (Watched prev xs)
  | _, [] => isTrue trivial
  | _, x :: xs =>
      have := decideWatched x.now xs
      inferInstanceAs (Decidable (_ ∧ _ ∧ _ ∧ _))

/-- No update is under way: of all patterns only its has green. -/
def NoUpdate (xs : List Sample) : Prop := ∀ x ∈ xs, .indicate .updating ∉ x.before ++ x.within

instance (xs : List Sample) : Decidable (NoUpdate xs) :=
  inferInstanceAs (Decidable (∀ x ∈ xs, .indicate .updating ∉ x.before ++ x.within))

def flashes : Bool → List Colour → Nat
  | _, [] => 0
  | lit, c :: rest =>
      (if c = green ∧ lit = false then 1 else 0) + flashes (decide (c = green)) rest

theorem acts_publish (acts : List Act) (s : Led) :
    (acts.foldl Led.act s).pulseUntil =
      ((publishTimes acts).getLast?.map (· + publishPulseMs * 1000)).getD s.pulseUntil := by
  induction acts generalizing s with
  | nil => rfl
  | cons a acts ih =>
    rw [List.foldl_cons, ih]
    cases a with
    | indicate i => rfl
    | publish now =>
      have first : publishTimes (.publish now :: acts) = now :: publishTimes acts := rfl
      rw [first]
      cases later : publishTimes acts <;> simp [Led.act, List.getLast?_cons]

theorem acts_indicate {acts : List Act} {s : Led} (usual : s.current ≠ .updating)
    (unasked : .indicate .updating ∉ acts) : (acts.foldl Led.act s).current ≠ .updating := by
  induction acts generalizing s with
  | nil => exact usual
  | cons a acts ih =>
    obtain ⟨here, later⟩ := not_or.mp (mt List.mem_cons.mpr unasked)
    apply ih _ later
    cases a with
    | indicate i => exact fun same => here (by rw [← same]; rfl)
    | publish now => exact usual

theorem pattern_green {i : Indication} (usual : i ≠ .updating) :
    (patternFor i).a ≠ green ∧ (patternFor i).b ≠ green := by
  cases i with
  | updating => exact absurd rfl usual
  | _ => decide

theorem sample_green {s : Led} {x : Sample} (usual : s.current ≠ .updating)
    (unasked : .indicate .updating ∉ x.before ++ x.within) :
    ∃ c, (s.sample x).2 = [c] ∧ (c = green ↔ x.now < (s.sample x).1.pulseUntil) ∧
      (s.sample x).1.current ≠ .updating := by
  obtain ⟨first, second⟩ := not_or.mp (mt List.mem_append.mpr unasked)
  have between := acts_indicate usual first
  refine ⟨_, rfl, ?_, acts_indicate between second⟩
  obtain ⟨notA, notB⟩ := pattern_green between
  simp only [Led.sample, Led.show]
  by_cases pulsing : x.now < (x.within.foldl Led.act (x.before.foldl Led.act s)).pulseUntil
  · simp [pulsing]
  · rw [if_neg pulsing]
    split_ifs <;> simp [notA, notB, pulsing]

/-- Pulses that lie two pulse lengths apart each turn the light green once. -/
theorem flashes_run {s : Led} {prev : Nat} {xs : List Sample} (usual : s.current ≠ .updating)
    (noUpdate : NoUpdate xs) (watched : Watched prev xs)
    (apart : (xs.flatMap Sample.publishes).IsChain
      fun t u => t + publishPulseMs * 1000 + publishPulseMs * 1000 ≤ u)
    (first : ∀ t ∈ (xs.flatMap Sample.publishes).head?,
      s.pulseUntil + publishPulseMs * 1000 ≤ t) :
    flashes (decide (prev < s.pulseUntil)) (emitted Led.sample s xs) =
      (xs.flatMap Sample.publishes).length := by
  induction xs generalizing s prev with
  | nil => rfl
  | cons x xs ih =>
    obtain ⟨forward, often, inside, rest⟩ := watched
    obtain ⟨now, later⟩ := List.forall_mem_cons.mp noUpdate
    obtain ⟨c, shown, lit, next⟩ := sample_green usual now
    have window : (s.sample x).1.pulseUntil =
        ((Sample.publishes x).getLast?.map (· + publishPulseMs * 1000)).getD s.pulseUntil := by
      rw [Sample.publishes, ← acts_publish, List.foldl_append]
      rfl
    rw [List.flatMap_cons] at apart first ⊢
    rw [emitted, shown, List.singleton_append, flashes]
    have green_now : decide (c = green) = decide (x.now < (s.sample x).1.pulseUntil) :=
      decide_eq_decide.mpr lit
    rcases begun : Sample.publishes x with _ | ⟨t, _ | ⟨u, more⟩⟩
    · rw [begun] at window
      have same : (s.sample x).1.pulseUntil = s.pulseUntil := window
      rw [begun, List.nil_append] at apart first
      have unturned : ¬ (c = green ∧ decide (prev < s.pulseUntil) = false) := by
        rw [lit, same]
        simp only [decide_eq_false_iff_not]
        omega
      rw [if_neg unturned, green_now, Nat.zero_add, List.nil_append]
      exact ih next later rest apart (by rwa [same])
    · rw [begun] at window inside first apart
      rw [List.getLast?_singleton, Option.map_some, Option.getD_some] at window
      obtain ⟨after, before⟩ := inside t (by simp)
      have early := first t rfl
      have turns : c = green ∧ decide (prev < s.pulseUntil) = false := by
        rw [lit, window]
        simp only [decide_eq_false_iff_not]
        omega
      obtain ⟨far, chain⟩ := List.isChain_cons.mp apart
      rw [if_pos turns, green_now, List.singleton_append, List.length_cons, Nat.add_comm 1]
      congr 1
      apply ih next later rest chain
      intro u following
      have gap := far u following
      rw [window]
      omega
    · rw [begun] at inside apart
      obtain ⟨after, _⟩ := inside t (by simp)
      obtain ⟨_, before⟩ := inside u (by simp)
      have gap := (List.isChain_cons_cons.mp apart).1
      omega

theorem watched_after {prev : Nat} {xs : List Sample} (watched : Watched prev xs) :
    ∀ x ∈ xs, ∀ t ∈ Sample.publishes x, prev ≤ t := by
  induction xs generalizing prev with
  | nil => simp
  | cons x xs ih =>
    obtain ⟨forward, _, inside, rest⟩ := watched
    intro y member t begun
    rcases List.mem_cons.mp member with rfl | later
    · exact (inside t begun).1
    · exact Nat.le_trans forward (ih rest y later t begun)

/-- The pulses start at least 1999 ms apart, and the light turns green once for each message the
    run publishes. -/
theorem one_flash_each {Parser : Type} (parse : Parser → Bytes → ParseOut Parser) (mac : Bytes)
    (boot : Nat) (parser : Parser) {passes : List Stamped} (clocked : Clocked none passes)
    {prev : Nat} {xs : List Sample} (watched : Watched prev xs) (noUpdate : NoUpdate xs)
    (booted : publishPulseMs * 1000 ≤ prev)
    (seen : xs.flatMap Sample.publishes = pulses parse mac boot parser passes) :
    ((pulses parse mac boot parser passes).IsChain fun t u => t + 1999000 ≤ u) ∧
      flashes false (emitted Led.sample .start xs) =
        (published parse mac boot parser (passes.map Stamped.pass)).length := by
  have apart := pulses_apart parse mac boot parser clocked
  refine ⟨apart, ?_⟩
  rw [← pulses_published, ← seen]
  rw [← seen] at apart
  have gap : publishPulseMs * 1000 + publishPulseMs * 1000 ≤ 1999000 := by decide
  have usual : Led.start.current ≠ .updating := by decide
  refine flashes_run usual noUpdate watched ?_ ?_
  · apply apart.imp
    intro t u far
    rw [Nat.add_assoc]
    exact Nat.le_trans (Nat.add_le_add_left gap t) far
  · intro t first
    have member := List.mem_of_mem_head? first
    obtain ⟨x, listed, begun⟩ := List.mem_flatMap.mp member
    have after := watched_after watched x listed t begun
    exact Nat.le_trans (Nat.le_of_eq (Nat.zero_add _)) (Nat.le_trans booted after)

def stampedCycle : List Stamped := oneCycle.map fun p => ⟨p, p.read.micros + 500⟩

def looks : List Sample :=
  [⟨[.indicate .operational], [], 1990000⟩, ⟨[], [.publish 2000500], 2015000⟩, ⟨[], [], 2040000⟩,
    ⟨[], [], 2090000⟩, ⟨[], [], 2140000⟩]

theorem one_flash_each_cycle :
    flashes false (emitted Led.sample .start looks) = 1 ∧
      emitted Led.sample .start looks = [dark, green, green, green, dark] := by
  have seen : looks.flatMap Sample.publishes =
      pulses (replies plainSet) (macText fun _ => 0) 0 () stampedCycle := by decide +kernel
  have clocked : Clocked none stampedCycle := by decide
  have watched : Watched 1970000 looks := by decide
  have once := (one_flash_each (replies plainSet) (macText fun _ => 0) 0 () clocked watched
    (by decide) (by decide) seen).2
  rw [← pulses_published, ← seen] at once
  exact ⟨once, by decide⟩

end GplugPublishPulses
