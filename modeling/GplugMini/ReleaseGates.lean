import Mathlib.Data.List.Induction
import Mathlib.Tactic.Common
import GplugMini.BenchRun
import GplugMini.RecordedResults

/- What report.py says of the release gates once bench runs have been recorded: the run, its
   log, the plan and the report are connected by nothing but the texts of result lines. -/
namespace GplugReleaseGates
open GplugResultLines GplugRecordResults GplugRecordedResults GplugBenchRun

inductive Kind where
  | atomic | workflow
  deriving DecidableEq, Repr

/-- What the plan says of a case beside its results, which the runner carries along. -/
structure Entry where
  kind : Kind
  name : Text
  needs : List Text

/-- The capabilities by name, and which are available. -/
abbrev Capabilities := List (Text × Bool)

/-- A requirement's members that are lists, by name; an absent one is the empty one. -/
abbrev Requirement := List (Text × List Text)

structure GateDef where
  name : Text
  status : Option Text
  inherits : Option Text
  requires : Requirement
  additionallyRequires : Requirement

inductive Shown where
  | pass | fail | blocked | dash
  deriving DecidableEq, Repr

def blockedBy (caps : Capabilities) (needs : List Text) : List Text :=
  needs.filter fun n => caps.lookup n = some false

def given (reason : Option Text) : Option Text := reason.filter (· ≠ [])

def statusOf (caps : Capabilities) (e : Entry) (c : Case) : Shown × Text :=
  match c.status with
  | .successful => (.pass, [])
  | .failed => (.fail, (given c.reason).getD [])
  | _ =>
      let miss := blockedBy caps e.needs
      if miss ≠ [] then (.blocked, "needs ".toList ++ [',', ' '].intercalate miss)
      else (.dash, (given c.reason).getD "not written".toList)

/-- One workflow of a gate: unknown to the plan, or its status with what is shown beside it. -/
inductive Line where
  | unknown (wid : Text)
  | known (wid : Text) (shown : Shown) (name note : Text)
  deriving DecidableEq

structure GateReport where
  name : Text
  status : Text
  inherits : Option Text
  lines : List Line
  satisfied : Nat
  wanted : Nat
  blockers : List Text

def workflows : Text := "workflows".toList

def GateDef.wanted (g : GateDef) : List Text :=
  let required := if g.requires ≠ [] then g.requires else g.additionallyRequires
  (required.lookup workflows).getD []

section
variable (caps : Capabilities) (entries : Text → Entry) (plan : Plan)

def flow (wid : Text) : Option Case :=
  (plan.cases.filter fun c => (entries c.id).kind = .workflow).find? fun c => c.id = wid

def line (wid : Text) : Line :=
  match flow entries plan wid with
  | none => .unknown wid
  | some c =>
      let (shown, note) := statusOf caps (entries c.id) c
      .known wid shown ((entries c.id).name.take 40) (note.take 28)

def blocks (wid : Text) : Bool :=
  (flow entries plan wid).any fun c => (statusOf caps (entries c.id) c).1 ≠ .pass

def gateReport (g : GateDef) : GateReport :=
  let blockers := g.wanted.filter (blocks caps entries plan)
  { name := g.name
    status := g.status.getD ['?']
    inherits := g.inherits
    lines := g.wanted.map (line caps entries plan)
    satisfied := g.wanted.length - blockers.length
    wanted := g.wanted.length
    blockers := blockers }

end

/-- The word that pytest prints of a report; a stage around the call prints one only when it
    did not pass. -/
def word : When → Stage → Option Outcome
  | .call, .passed => some .passed
  | _, .passed => none
  | .call, .failed => some .failed
  | _, .failed => some .error
  | _, .skipped => some .skipped
  | _, .xfailed => some .xfail
  | _, .xpassed => some .xpass

def words (r : Ran) : List Outcome := r.reports.filterMap fun (when, stage) => word when stage

/-- A log holds the words of a run, each behind its test, and any other lines. -/
def Prints {cls : CharClasses} (run : List Ran) (log : List (LogLine cls)) : Prop :=
  (reports log).map (fun r => (r.file, r.node, r.outcome)) =
    run.flatMap fun r => (words r).map fun o => (r.item.file, r.item.name, o)

structure Bench (cls : CharClasses) where
  Rig : Type
  rig : Rig
  tests : Rig → Item → When → Stage × Rig
  items : List Item
  log : List (LogLine cls)
  printed : Prints (benchRun tests rig items) log
  stamp : Stamp

section
variable {cls : CharClasses}

def Bench.run (b : Bench cls) : List Ran := benchRun b.tests b.rig b.items

def recordAll (plan : Plan) (benches : List (Bench cls)) : Plan :=
  benches.foldl (fun plan b => recorded b.stamp plan b.log) plan

def lastRan (benches : List (Bench cls)) (id : Text) : Option Ran :=
  ((benches.flatMap Bench.run).filter fun r => caseInNode cls r.item.name = some id).getLast?

end

def clean (r : Ran) : Bool := decide (r.call = some .passed ∧ r.teardown = .passed)

def proven (before : Status) : Option Ran → Bool
  | none => decide (before = .successful)
  | some r => clean r

/- The words of a run's items, and what the runner makes of them. -/

theorem words_some {r : Ran} {gateFailed : GateFailed} (follows : r.Follows gateFailed) :
    words r ≠ [] := by
  cases call : r.call with
  | some stage => cases stage <;> simp [words, Ran.reports, call, word]
  | none =>
    have other : r.setup ≠ .passed := fun passed => follows.called.mpr passed call
    cases setup : r.setup with
    | passed => exact absurd setup other
    | _ => simp [words, Ran.reports, call, setup, word]

theorem words_status {r : Ran} {gateFailed : GateFailed} (follows : r.Follows gateFailed)
    (before : Status) :
    lastStatus before ((words r).map Outcome.status) = .successful ↔ clean r = true := by
  cases call : r.call with
  | some stage =>
    have passed : r.setup = .passed := follows.called.mp (by simp [call])
    cases stage <;> cases teardown : r.teardown <;>
      simp [words, Ran.reports, passed, call, teardown, word, lastStatus, clean, Outcome.status]
  | none =>
    have other : r.setup ≠ .passed := fun passed => follows.called.mpr passed call
    cases setup : r.setup with
    | passed => exact absurd setup other
    | _ =>
      cases teardown : r.teardown <;>
        simp [words, Ran.reports, setup, call, teardown, word, lastStatus, clean, Outcome.status]

theorem last_append (before : Status) (first rest : List Status) :
    lastStatus before (first ++ rest) = lastStatus (lastStatus before first) rest := by
  rw [lastStatus, lastStatus, lastStatus, List.getLast?_append]
  cases rest.getLast? <;> simp

theorem last_flat {α : Type} (before : Status) (f : α → List Status) {l : List α}
    (full : ∀ a ∈ l, f a ≠ []) :
    lastStatus before (l.flatMap f) =
      (l.getLast?).elim before fun a => lastStatus before (f a) := by
  induction l using List.reverseRecOn with
  | nil => rfl
  | append_singleton l a _ =>
    have nonempty : f a ≠ [] := full a (by simp)
    obtain ⟨last, shape⟩ := List.getLast?_isSome.mpr nonempty |> Option.isSome_iff_exists.mp
    simp [lastStatus, List.getLast?_append, shape]

section
variable {cls : CharClasses} {run : List Ran} {log : List (LogLine cls)}

theorem printed_statuses (prints : Prints run log) (id : Text) :
    namedStatuses log id =
      (run.filter fun r => caseInNode cls r.item.name = some id).flatMap
        fun r => (words r).map Outcome.status := by
  have named : namedStatuses log id =
      (((reports log).map fun r => (r.file, r.node, r.outcome)).filter
        fun t => caseInNode cls t.2.1 = some id).map fun t => Outcome.status t.2.2 := by
    simp [namedStatuses, List.filter_map, Function.comp_def]
  rw [named, prints]
  clear named prints
  induction run with
  | nil => rfl
  | cons r run ih =>
    by_cases here : caseInNode cls r.item.name = some id
    · simp [here, ih, List.filter_map, Function.comp_def]
    · simp [here, ih, List.filter_map, Function.comp_def]

theorem bench_printed (b : Bench cls) : Prints b.run b.log := b.printed

theorem judged_run (b : Bench cls) {r : Ran} (member : r ∈ b.run) :
    ∃ gateFailed, r.Follows gateFailed := by
  obtain ⟨before, after, split⟩ := List.append_of_mem member
  exact ⟨_, bench_follows b.tests b.rig b.items before r after split⟩

variable {plan : Plan} {benches : List (Bench cls)}

theorem record_all_cases
    (readable : ∀ b ∈ benches, ∀ r ∈ reports b.log, Readable cls plan r) :
    (recordAll plan benches).cases.map (fun c => (c.id, c.status)) = plan.cases.map fun c =>
      (c.id, lastStatus c.status (benches.flatMap fun b => namedStatuses b.log c.id)) := by
  induction benches using List.reverseRecOn with
  | nil => rfl
  | append_singleton benches b ih =>
    have first := ih fun e member => readable e (List.mem_append_left _ member)
    have now := readable b (by simp)
    have next : recordAll plan (benches ++ [b]) =
        recorded b.stamp (recordAll plan benches) b.log := by simp [recordAll]
    have told : (recordAll plan (benches ++ [b])).cases.map (fun c => (c.id, c.status)) =
        ((recordAll plan benches).cases.map fun c => (c.id, c.status)).map fun (id, status) =>
          (id, lastStatus status (namedStatuses b.log id)) := by
      rw [next, recorded_cases, List.map_map, List.map_map]
      apply List.map_congr_left
      intro c _
      simp [record_all_id, record_all_status, found_statuses now]
    rw [told, first, List.map_map]
    apply List.map_congr_left
    intro c _
    simp [last_append]

theorem last_proven (before : Status) (id : Text) :
    lastStatus before (benches.flatMap fun b => namedStatuses b.log id) = .successful ↔
      proven before (lastRan benches id) = true := by
  have all : (benches.flatMap fun b => namedStatuses b.log id) =
      ((benches.flatMap Bench.run).filter fun r => caseInNode cls r.item.name = some id).flatMap
        fun r => (words r).map Outcome.status := by
    induction benches with
    | nil => rfl
    | cons b benches ih =>
      rw [List.flatMap_cons, List.flatMap_cons, List.filter_append, List.flatMap_append, ih,
        printed_statuses (bench_printed b)]
  have judged : ∀ r ∈ (benches.flatMap Bench.run).filter
      (fun r => caseInNode cls r.item.name = some id), ∃ gateFailed, r.Follows gateFailed := by
    intro r member
    obtain ⟨b, _, ran⟩ := List.mem_flatMap.mp (List.mem_filter.mp member).1
    exact judged_run b ran
  rw [all, last_flat before _ fun r member => by
    obtain ⟨_, follows⟩ := judged r member
    simpa using words_some follows]
  unfold lastRan
  cases last : ((benches.flatMap Bench.run).filter
      fun r => caseInNode cls r.item.name = some id).getLast? with
  | none => simp [proven]
  | some r =>
    obtain ⟨_, follows⟩ := judged r (List.mem_of_getLast? last)
    exact words_status follows before

end

/-- What the report says of a gate, against what the benches did. -/
structure Released {cls : CharClasses} (entries : Text → Entry) (plan : Plan)
    (benches : List (Bench cls)) (g : GateDef) (report : GateReport) : Prop where
  blockers : report.blockers = g.wanted.filter fun wid => plan.cases.any fun c =>
    decide (c.id = wid ∧ (entries wid).kind = .workflow) &&
      !proven c.status (lastRan benches wid)
  count : report.satisfied + report.blockers.length = g.wanted.length
  shut : ∀ b ∈ benches, ∀ q ∈ b.run, ∀ r ∈ b.run, q.Broke → q.item.phase < r.item.phase →
    ∀ c ∈ plan.cases, c.id ∈ g.wanted → (entries c.id).kind = .workflow →
      lastRan benches c.id = some r → c.id ∈ report.blockers

theorem status_pass {caps : Capabilities} {e : Entry} {c : Case} :
    (statusOf caps e c).1 = .pass ↔ c.status = .successful := by
  unfold statusOf
  cases status : c.status with
  | successful => simp
  | failed => simp
  | _ =>
    dsimp only
    split <;> simp

/-- An id names one case, so the first the report finds is the one there is. -/
theorem blocks_iff {caps : Capabilities} {entries : Text → Entry} {plan : Plan} {wid : Text} :
    blocks caps entries plan wid = true ↔ (entries wid).kind = .workflow ∧
      ∃ status, (wid, status) ∈ plan.cases.map (fun c => (c.id, c.status)) ∧
        status ≠ .successful := by
  have one : ∀ c ∈ plan.cases, ∀ d ∈ plan.cases, c.id = d.id → c = d :=
    fun c first d second same => List.inj_on_of_nodup_map plan.distinct first second same
  simp only [blocks, flow, Option.any_eq_true, decide_eq_true_eq, List.mem_map, ne_eq,
    status_pass]
  constructor
  · intro blocked
    obtain ⟨c, found, status⟩ := blocked
    obtain ⟨member, kind⟩ := List.mem_filter.mp (List.mem_of_find?_eq_some found)
    obtain rfl : c.id = wid := by simpa using List.find?_some found
    exact ⟨by simpa using kind, c.status, ⟨c, member, rfl⟩, status⟩
  · intro blocked
    obtain ⟨kind, status, ⟨c, member, same⟩, unproven⟩ := blocked
    obtain ⟨rfl, rfl⟩ := Prod.mk.inj same
    cases found : (plan.cases.filter fun d => (entries d.id).kind = .workflow).find?
        fun d => d.id = c.id with
    | none =>
      have flows : c ∈ plan.cases.filter fun d => (entries d.id).kind = .workflow :=
        List.mem_filter.mpr ⟨member, by simpa using kind⟩
      simpa using List.find?_eq_none.mp found c flows
    | some d =>
      have there := (List.mem_filter.mp (List.mem_of_find?_eq_some found)).1
      have id : d.id = c.id := by simpa using List.find?_some found
      obtain rfl := one d there c member id
      exact ⟨d, rfl, unproven⟩

/-- Whatever was recorded of whatever runs: a gate counts against itself exactly the workflows
    of the plan whose last naming item was not clean, or, where none named it, that were not
    successful before; one that stood behind a broken gate is never clean. -/
theorem released_after {cls : CharClasses} (caps : Capabilities) (entries : Text → Entry)
    (plan : Plan) {benches : List (Bench cls)}
    (readable : ∀ b ∈ benches, ∀ r ∈ reports b.log, Readable cls plan r) (g : GateDef) :
    Released entries plan benches g (gateReport caps entries (recordAll plan benches) g) := by
  have judged : ∀ wid, blocks caps entries (recordAll plan benches) wid = true ↔
      ∃ c ∈ plan.cases, c.id = wid ∧ (entries wid).kind = .workflow ∧
        proven c.status (lastRan benches wid) = false := by
    intro wid
    rw [blocks_iff, record_all_cases readable]
    simp only [List.mem_map, Prod.mk.injEq]
    constructor
    · intro blocked
      obtain ⟨kind, status, ⟨c, member, rfl, rfl⟩, unproven⟩ := blocked
      rw [ne_eq, last_proven] at unproven
      exact ⟨c, member, rfl, kind, by simpa using unproven⟩
    · intro blocked
      obtain ⟨c, member, rfl, kind, unproven⟩ := blocked
      refine ⟨kind, _, ⟨c, member, rfl, rfl⟩, ?_⟩
      rw [ne_eq, last_proven]
      simp [unproven]
  have listed : ∀ wid, wid ∈ (gateReport caps entries (recordAll plan benches) g).blockers ↔
      wid ∈ g.wanted ∧ blocks caps entries (recordAll plan benches) wid = true := by
    simp [gateReport]
  constructor
  · apply List.filter_congr
    intro wid _
    rw [Bool.eq_iff_iff, judged]
    simp [and_assoc]
  · have fewer := List.length_filter_le (blocks caps entries (recordAll plan benches)) g.wanted
    simp only [gateReport]
    omega
  · intro b bench q among r member broke earlier c known wanted kind last
    rw [listed, judged]
    refine ⟨wanted, c, known, rfl, kind, ?_⟩
    have uncalled := behind_broken b.tests b.rig b.items among broke member earlier
    rw [last]
    simp [proven, clean, uncalled]

def portal : Item := ⟨['p', '.', 'p', 'y'], "test_ts054_the_portal".toList, [.provisioning]⟩

def journey : Item := ⟨['w', '.', 'p', 'y'], "test_wf002_the_journey".toList, [.workflow, .slow]⟩

def closedPortal (_ : Unit) (i : Item) (when : When) : Stage × Unit :=
  (if i.name = portal.name ∧ when = .call then .failed else .passed, ())

theorem closed_portal_run : benchRun closedPortal () [portal, journey] =
    [⟨portal, none, .passed, some .failed, .passed⟩,
      ⟨journey, some portal.name, .skipped, none, .passed⟩] := by
  have sorted : modifyItems [portal, journey] = [portal, journey] :=
    List.mergeSort_of_pairwise (by decide)
  rw [benchRun, sorted]
  decide

def portalLine : Report where
  file := portal.file
  node := portal.name
  outcome := .failed
  tail := []
  filed := by decide
  named := by decide
  plainFile := by simp [portal, isSpace]
  apart := .inl rfl

def journeyLine : Report where
  file := journey.file
  node := journey.name
  outcome := .skipped
  tail := []
  filed := by decide
  named := by decide
  plainFile := by simp [journey, isSpace]
  apart := .inl rfl

def closedPortalBench : Bench ascii where
  Rig := Unit
  rig := ()
  tests := closedPortal
  items := [portal, journey]
  log := [.result portalLine, .result journeyLine]
  printed := by
    rw [closed_portal_run]
    rfl
  stamp := ⟨"cb58a20".toList, "2026-08-06".toList⟩

def wf002 : Text := "WF-002".toList

def oneJourney : Plan := ⟨[⟨wf002, .successful, none, none, none⟩], by decide⟩

def firmwareRelease : GateDef where
  name := "firmware_release".toList
  status := some "proposed".toList
  inherits := none
  requires := [(workflows, [wf002, "WF-099".toList])]
  additionallyRequires := []

def journeys (_ : Text) : Entry := ⟨.workflow, "Journey".toList, []⟩

theorem released_after_closed :
    (gateReport [] journeys (recordAll oneJourney [closedPortalBench]) firmwareRelease).blockers =
        [wf002] ∧
      Released journeys oneJourney [closedPortalBench] firmwareRelease
        (gateReport [] journeys (recordAll oneJourney [closedPortalBench]) firmwareRelease) := by
  refine ⟨by decide, released_after [] journeys oneJourney ?_ firmwareRelease⟩
  intro b bench r printed
  obtain rfl := List.mem_singleton.mp bench
  have lines : r = portalLine ∨ r = journeyLine := by
    simpa [reports, closedPortalBench, LogLine.report] using printed
  rcases lines with rfl | rfl
  · exact .inl (by simp [portalLine, portal, isSpace])
  · exact .inl (by simp [journeyLine, journey, isSpace])

end GplugReleaseGates
