import Mathlib.Tactic.Common
import GplugMini.SimSource

/- The task watchdog over the main loop: what watchdog_start leaves in effect, and what a
   pass of the loop may take of its period. -/
namespace GplugWatchdog
open ByteText EmittingRun GplugReceive GplugMainLoop GplugLineProbe GplugSimSource

structure WdtConfig where
  timeoutMs : Nat
  idleCoreMask : Nat
  triggerPanic : Bool
  deriving DecidableEq, Repr

def wdtConfig : WdtConfig := ⟨5000, 0, true⟩

inductive EspErr where
  | ok | invalidState | other
  deriving DecidableEq, Repr

/-- ESP-IDF's watchdog component: esp_task_wdt_init on the configuration that runs already, if
    one does, with the one that runs after it; and esp_task_wdt_add under that one. -/
structure TaskWdt where
  init : Option WdtConfig → WdtConfig → EspErr × Option WdtConfig
  add : Option WdtConfig → EspErr

/-- As ESP-IDF documents esp_task_wdt_init: a success puts what was asked for into effect, and
    any other answer, such as that of a watchdog that runs already, changes nothing. -/
structure TaskWdt.Documented (wdt : TaskWdt) : Prop where
  installs : ∀ running asked, (wdt.init running asked).1 = .ok →
    (wdt.init running asked).2 = some asked
  keeps : ∀ running asked, (wdt.init running asked).1 ≠ .ok →
    (wdt.init running asked).2 = running

def watchdogStart (wdt : TaskWdt) (running : Option WdtConfig) : Option WdtConfig :=
  let (init, config) := wdt.init running wdtConfig
  if init ≠ .ok ∧ init ≠ .invalidState then none
  else if wdt.add config ≠ .ok then none
  else config

structure FedPass where
  fed : Nat
  pass : Pass

/-- The device lives to stamp the pass: a watchdog that panics has not gone unfed for longer
    than its period. -/
def FedPass.Alive (watched : Option WdtConfig) (p : FedPass) : Prop :=
  ∀ config ∈ watched, config.triggerPanic = true →
    p.pass.read.micros ≤ p.fed + config.timeoutMs * 1000

/-- Every read sleeps as long as it was asked to, less one tick of the scheduler. -/
def Sleeps (tick : Nat) : SimSource → List FedPass → Prop
  | _, [] => True
  | s, p :: rest =>
      p.fed / 1000 + (s.next.slept - tick) ≤ p.pass.read.micros / 1000 ∧
        Sleeps tick s.next.source rest

instance decideSleeps (tick : Nat) : ∀ s passes, Decidable (Sleeps tick s passes)
  | _, [] => isTrue trivial
  | s, _ :: rest =>
      have := decideSleeps tick s.next.source rest
      inferInstanceAs (Decidable (_ ∧ _))

def Bites (tick : Nat) (config : WdtConfig) : Prop :=
  config.triggerPanic = true ∧ config.timeoutMs + tick < cycleGap

section
variable {tick i before : Nat} {config : WdtConfig} {capture : Bytes} {s : SimSource}
  {rx : Receiver}

/-- A replay that the watchdog cuts off is only ever read, never ended. -/
theorem bitten_run (bites : Bites tick config) (nonempty : capture ≠ []) {passes : List FedPass}
    (replaying : Replaying capture i before s rx) (sleeps : Sleeps tick s passes)
    (alive : ∀ p ∈ passes, p.Alive (some config)) :
    emitted Receiver.pass rx (simReads s (passes.map fun p => p.pass.read.micros)) = [] := by
  induction passes generalizing i before s rx with
  | nil => rfl
  | cons p rest ih =>
    obtain ⟨slept, later⟩ := sleeps
    rw [List.map_cons, simReads, emitted]
    by_cases early : i < chunksOf capture
    · obtain ⟨_, quiet, next⟩ := chunk_replays nonempty replaying early p.pass.read.micros
      rw [quiet, List.nil_append]
      exact ih next later fun q among => alive q (List.mem_cons_of_mem _ among)
    · obtain rfl : i = chunksOf capture := by have := replaying.inside; omega
      have asleep : s.next.slept = cycleGap := by
        rw [replaying.source, SimSource.next, SimSource.read, if_neg nonempty, if_pos (by simp)]
      have fed := alive p List.mem_cons_self config rfl bites.1
      have short := bites.2
      rw [asleep] at slept
      omega

end

section
variable {Parser : Type} (parse : Parser → Bytes → ParseOut Parser) (mac text : Bytes) {tick : Nat}
  (boot : Nat) (parser : Parser) {passes : List FedPass}

theorem bitten_boundaries {config : WdtConfig} (bites : Bites tick config)
    (fed : passes.map (fun p => p.pass.read) =
      simReads (.start text) (passes.map fun p => p.pass.read.micros))
    (sleeps : Sleeps tick (.start text) passes) (alive : ∀ p ∈ passes, p.Alive (some config)) :
    boundaries parse mac boot parser (passes.map FedPass.pass) = [] := by
  apply List.map_eq_nil_iff (f := Boundary.received).mp
  rw [boundaries, boundaries_received, List.map_map]
  change emitted Receiver.pass (.boot boot) (passes.map fun p => p.pass.read) = []
  rw [fed]
  by_cases empty : parseHex text = []
  · rw [SimSource.start, empty]
    exact silent_run 0 false _ rfl _
  · exact bitten_run bites empty (replay_starts empty boot) sleeps alive

theorem watchdog_cases {wdt : TaskWdt} (documented : wdt.Documented)
    {running : Option WdtConfig} {config : WdtConfig}
    (watched : watchdogStart wdt running = some config) :
    config = wdtConfig ∨ running = some config := by
  rw [watchdogStart] at watched
  dsimp only at watched
  split at watched
  · cases watched
  · split at watched
    · cases watched
    · by_cases installed : (wdt.init running wdtConfig).1 = .ok
      · rw [documented.installs _ _ installed] at watched
        exact .inl (Option.some.inj watched).symm
      · rw [documented.keeps _ _ installed] at watched
        exact .inr watched

/-- A simulated device that ever decodes a cycle is not watched as watchdog_start asks: either
    nothing watches the loop, or a watchdog that ran before does, and that one sits out the
    silence between two replays. -/
theorem decodes_unwatched (short : tick < 5000) {wdt : TaskWdt} (documented : wdt.Documented)
    {running : Option WdtConfig}
    (fed : passes.map (fun p => p.pass.read) =
      simReads (.start text) (passes.map fun p => p.pass.read.micros))
    (sleeps : Sleeps tick (.start text) passes)
    (alive : ∀ p ∈ passes, p.Alive (watchdogStart wdt running))
    (decoded : boundaries parse mac boot parser (passes.map FedPass.pass) ≠ []) :
    watchdogStart wdt running = none ∨
      ∃ config, watchdogStart wdt running = some config ∧ running = some config ∧
        (config.triggerPanic = false ∨ cycleGap ≤ config.timeoutMs + tick) := by
  cases watched : watchdogStart wdt running with
  | none => exact .inl rfl
  | some config =>
    rw [watched] at alive
    have sits : ¬ Bites tick config := fun bites =>
      decoded (bitten_boundaries parse mac text boot parser bites fed sleeps alive)
    have lenient : config.triggerPanic = false ∨ cycleGap ≤ config.timeoutMs + tick := by
      rw [Bites, not_and_or] at sits
      simpa using sits
    rcases watchdog_cases documented watched with rfl | same
    · exact absurd ⟨rfl, by simp only [wdtConfig, cycleGap]; omega⟩ sits
    · exact .inr ⟨config, rfl, same, lenient⟩

end

def fedTwice : List FedPass := (twice.zip [0, 5000, 9996000, 9996400]).map fun (p, fed) => ⟨fed, p⟩

def soundWdt : TaskWdt where
  init running asked :=
    match running with
    | some config => (.invalidState, some config)
    | none => (.ok, some asked)
  add _ := .ok

theorem sound_wdt_documented : soundWdt.Documented where
  installs := by
    intro running asked installed
    cases running with
    | none => rfl
    | some config => cases installed
  keeps := by
    intro running asked kept
    cases running with
    | none => exact absurd rfl kept
    | some config => rfl

def printing : WdtConfig := ⟨5000, 0, false⟩

theorem decodes_unwatched_twice :
    (boundaries closeUp [] 0 () (fedTwice.map FedPass.pass)).map Boundary.received =
        [[0x7E, 0xA0], [0x7E, 0xA0]] ∧
      (watchdogStart soundWdt (some printing) = none ∨
        ∃ config, watchdogStart soundWdt (some printing) = some config ∧
          some printing = some config ∧
            (config.triggerPanic = false ∨ cycleGap ≤ config.timeoutMs + 10)) := by
  have received : (boundaries closeUp [] 0 () (fedTwice.map FedPass.pass)).map
      Boundary.received = [[0x7E, 0xA0], [0x7E, 0xA0]] := by decide
  have decoded : boundaries closeUp [] 0 () (fedTwice.map FedPass.pass) ≠ [] := by
    intro nothing
    rw [nothing] at received
    cases received
  refine ⟨received, decodes_unwatched closeUp [] fixture 0 () (by decide) sound_wdt_documented
    (by decide) (by decide) ?_ decoded⟩
  intro p _ config watched panics
  obtain rfl := Option.some.inj watched
  cases panics

end GplugWatchdog
