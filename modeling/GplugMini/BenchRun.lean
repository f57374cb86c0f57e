import Mathlib.Data.Char
import Mathlib.Data.List.Lex
import Mathlib.Data.List.Sort
import Mathlib.Data.Prod.Lex
import Mathlib.Tactic.Common
import GplugMini.Library.EmittingRun
import GplugMini.ResultLines

/- A bench run as conftest.py orders it and gates it. What a test does to the rig, and what
   the rig makes of the test, is a parameter: it may depend on everything run before. -/
namespace GplugBenchRun
open EmittingRun GplugResultLines

inductive Mark where
  | provisioning | breadandbutter | deviation | exception
  | fast | slow | disruptive | workflow | manual | skip
  | other (name : Text)
  deriving DecidableEq

def Mark.phase : Mark → Option Nat
  | .provisioning => some 0
  | .breadandbutter => some 1
  | .deviation => some 2
  | .exception => some 3
  | _ => none

def Mark.cost : Mark → Option Nat
  | .fast => some 0
  | .slow => some 1
  | _ => none

def deviationPhase : Nat := 2
def fastCost : Nat := 0

def gates : List Mark := [.provisioning, .breadandbutter]

/-- A collected test, its file named under testing/bench. Its node is its name: the bench has no
    test classes. -/
structure Item where
  file : Text
  name : Text
  marks : List Mark
  deriving DecidableEq

def Item.phase (i : Item) : Nat := (i.marks.filterMap Mark.phase).min?.getD deviationPhase

def Item.cost (i : Item) : Nat := (i.marks.filterMap Mark.cost).min?.getD fastCost

def Item.rank (i : Item) : Nat ×ₗ Nat ×ₗ Nat ×ₗ Text :=
  toLex (i.phase, toLex (i.cost, toLex (if .disruptive ∈ i.marks then 1 else 0, i.name)))

def modifyItems (items : List Item) : List Item :=
  items.mergeSort fun a b => decide (a.rank ≤ b.rank)

/-- What a report says of one stage; an expected failure is reported as skipped. -/
inductive Stage where
  | passed | failed | skipped | xfailed | xpassed
  deriving DecidableEq, Repr

inductive When where
  | setup | call | teardown
  deriving DecidableEq, Repr

abbrev GateFailed := Option (Text × Nat)

def Item.gate (i : Item) : Option Nat :=
  if .workflow ∈ i.marks then none else (gates.find? (· ∈ i.marks)).bind Mark.phase

def makereport (gateFailed : GateFailed) (i : Item) (when : When) (stage : Stage) : GateFailed :=
  match i.gate with
  | none => gateFailed
  | some phase =>
      if (when = .setup ∨ when = .call) ∧ stage = .failed then
        match gateFailed with
        | none => some (i.name, phase)
        | some prior => if phase < prior.2 then some (i.name, phase) else some prior
      else gateFailed

def runtestSetup (gateFailed : GateFailed) (i : Item) : Option Text :=
  match gateFailed with
  | none => none
  | some failed => if failed.2 < i.phase then some failed.1 else none

structure Ran where
  item : Item
  blamed : Option Text
  setup : Stage
  call : Option Stage
  teardown : Stage
  deriving DecidableEq

def Ran.reports (r : Ran) : List (When × Stage) :=
  (.setup, r.setup) ::
    ((r.call.map fun stage => (.call, stage)).toList ++ [(.teardown, r.teardown)])

section
variable {ω : Type} (tests : ω → Item → When → Stage × ω)

/-- pytest looks at the skip mark before it asks the bench's own setup hook. -/
def runSetup (rig : ω) (i : Item) (blamed : Option Text) : Stage × ω :=
  if .skip ∈ i.marks ∨ blamed ≠ none then (.skipped, rig) else tests rig i .setup

/-- The call is made only after a setup that passed. -/
def runCall (setup : Stage × ω) (i : Item) : Option Stage × ω :=
  if setup.1 = .passed then (tests setup.2 i .call).map some id else (none, setup.2)

def runtest (s : GateFailed × ω) (i : Item) : (GateFailed × ω) × List Ran :=
  let blamed := if .skip ∈ i.marks then none else runtestSetup s.1 i
  let setup := runSetup tests s.2 i blamed
  let call := runCall tests setup i
  let teardown := tests call.2 i .teardown
  let ran : Ran := ⟨i, blamed, setup.1, call.1, teardown.1⟩
  let failed := ran.reports.foldl (fun failed (when, stage) => makereport failed i when stage) s.1
  ((failed, teardown.2), [ran])

def benchRun (rig : ω) (items : List Item) : List Ran :=
  emitted (runtest tests) (none, rig) (modifyItems items)

end

def Ran.Broke (r : Ran) : Prop :=
  r.item.gate ≠ none ∧ (r.setup = .failed ∨ r.call = some .failed)

instance (r : Ran) : Decidable r.Broke := inferInstanceAs (Decidable (_ ∧ _))

theorem modified_phases (items : List Item) :
    (modifyItems items).Pairwise fun a b => a.phase ≤ b.phase := by
  have ranked : (modifyItems items).Pairwise fun a b => decide (a.rank ≤ b.rank) = true := by
    apply List.pairwise_mergeSort
    · intro a b c first second
      exact decide_eq_true (le_trans (of_decide_eq_true first) (of_decide_eq_true second))
    · intro a b
      simpa using le_total a.rank b.rank
  refine ranked.imp ?_
  intro a b before
  rcases Prod.Lex.le_iff.mp (of_decide_eq_true before) with less | ⟨same, _⟩
  · exact le_of_lt less
  · exact le_of_eq same

theorem gate_phase {i : Item} {phase : Nat} (gate : i.gate = some phase) : i.phase = phase := by
  have least : ∀ n, n ∈ i.marks.filterMap Mark.phase →
      (∀ m ∈ i.marks.filterMap Mark.phase, n ≤ m) → i.phase = n := by
    intro n member below
    rw [Item.phase, List.min?_eq_some_iff.mpr ⟨member, below⟩, Option.getD_some]
  unfold Item.gate at gate
  split at gate
  · cases gate
  · obtain ⟨mark, first, told⟩ := Option.bind_eq_some_iff.mp gate
    by_cases portal : .provisioning ∈ i.marks
    · have same : mark = .provisioning := by simpa [gates, portal] using first.symm
      subst same
      obtain rfl : 0 = phase := by simpa [Mark.phase] using told
      exact least 0 (List.mem_filterMap.mpr ⟨_, portal, rfl⟩) (fun m _ => Nat.zero_le m)
    · have same : .breadandbutter ∈ i.marks ∧ .breadandbutter = mark := by
        simpa [gates, portal] using first
      obtain ⟨here, rfl⟩ := same
      obtain rfl : 1 = phase := by simpa [Mark.phase] using told
      refine least 1 (List.mem_filterMap.mpr ⟨_, here, rfl⟩) ?_
      intro m also
      obtain ⟨other, among, phase⟩ := List.mem_filterMap.mp also
      cases other with
      | provisioning => exact absurd among portal
      | _ => simp [Mark.phase] at phase <;> omega

def Ran.breach (r : Ran) : Text × Nat := (r.item.name, r.item.phase)

/-- What the session keeps after an item ran: the earliest gate that broke. -/
def Ran.closes (r : Ran) (gateFailed : GateFailed) : GateFailed :=
  if r.Broke then
    match gateFailed with
    | none => some r.breach
    | some prior => if r.item.phase < prior.2 then some r.breach else some prior
  else gateFailed

def Ran.Shut (r : Ran) : Prop := .skip ∈ r.item.marks ∨ r.blamed ≠ none

instance (r : Ran) : Decidable r.Shut := inferInstanceAs (Decidable (_ ∨ _))

/-- What an item's reports owe to the gates that broke before it. -/
structure Ran.Follows (r : Ran) (gateFailed : GateFailed) : Prop where
  blamed : r.blamed = if .skip ∈ r.item.marks then none else runtestSetup gateFailed r.item
  shut : r.Shut → r.setup = .skipped ∧ r.call = none
  called : r.call ≠ none ↔ r.setup = .passed

theorem makereport_other {i : Item} {when : When} {stage : Stage}
    (other : when = .teardown ∨ stage ≠ .failed) (gateFailed : GateFailed) :
    makereport gateFailed i when stage = gateFailed := by
  unfold makereport
  split
  · rfl
  · rw [if_neg]
    rcases other with rfl | fine
    · simp
    · simp [fine]

theorem makereport_failed {i : Item} {when : When} (told : when = .setup ∨ when = .call)
    (gateFailed : GateFailed) :
    makereport gateFailed i when .failed =
      if i.gate ≠ none then
        match gateFailed with
        | none => some (i.name, i.phase)
        | some prior => if i.phase < prior.2 then some (i.name, i.phase) else some prior
      else gateFailed := by
  unfold makereport
  cases gate : i.gate with
  | none => simp
  | some phase => simp [told, gate_phase gate]

theorem reports_close {r : Ran} (called : r.call ≠ none → r.setup = .passed)
    (gateFailed : GateFailed) :
    r.reports.foldl (fun failed (when, stage) => makereport failed r.item when stage) gateFailed =
      r.closes gateFailed := by
  have last : ∀ g, makereport g r.item .teardown r.teardown = g := makereport_other (.inl rfl)
  cases call : r.call with
  | none =>
    by_cases failed : r.setup = .failed
    · simp [Ran.reports, call, last, failed, makereport_failed, Ran.closes, Ran.Broke, Ran.breach]
    · simp [Ran.reports, call, last, makereport_other (.inr failed), Ran.closes, Ran.Broke, failed]
  | some stage =>
    have passed : r.setup = .passed := called (by simp [call])
    have quiet : r.setup ≠ .failed := by simp [passed]
    by_cases failed : stage = .failed
    · simp [Ran.reports, call, last, makereport_other (.inr quiet), failed, makereport_failed,
        Ran.closes, Ran.Broke, Ran.breach]
    · simp [Ran.reports, call, last, makereport_other (.inr quiet),
        makereport_other (.inr failed), Ran.closes, Ran.Broke, failed, quiet]

theorem closes_first {run : List Ran} {r : Ran}
    (ends : ∀ q ∈ run, q.item.phase ≤ r.item.phase) :
    r.closes ((run.find? (·.Broke)).map Ran.breach) =
      ((run ++ [r]).find? (·.Broke)).map Ran.breach := by
  rw [List.find?_append]
  unfold Ran.closes
  cases first : run.find? (·.Broke) with
  | none =>
    by_cases broke : r.Broke
    · simp [broke]
    · simp [broke]
  | some q =>
    have above := ends q (List.mem_of_find?_eq_some first)
    simp [Ran.breach, Nat.not_lt.mpr above]

section
variable {ω : Type} {tests : ω → Item → When → Stage × ω}

variable (tests) in
theorem run_call_made (setup : Stage × ω) (i : Item) :
    (runCall tests setup i).1 ≠ none ↔ setup.1 = .passed := by
  by_cases passed : setup.1 = .passed
  · simp [runCall, passed]
  · simp [runCall, passed]

theorem runtest_cases (s : GateFailed × ω) (i : Item) :
    ∃ r, (runtest tests s i).2 = [r] ∧ r.item = i ∧ r.Follows s.1 ∧
      (runtest tests s i).1.1 = r.closes s.1 := by
  let blamed := if .skip ∈ i.marks then none else runtestSetup s.1 i
  let setup := runSetup tests s.2 i blamed
  let call := runCall tests setup i
  let r : Ran := ⟨i, blamed, setup.1, call.1, (tests call.2 i .teardown).1⟩
  have called : r.call ≠ none ↔ r.setup = .passed := run_call_made tests setup i
  refine ⟨r, rfl, rfl, ⟨rfl, ?_, called⟩, reports_close called.mp s.1⟩
  intro shut
  have skipped : setup = (.skipped, s.2) := if_pos shut
  have uncalled : runCall tests (.skipped, s.2) i = (none, s.2) := rfl
  constructor
  · exact congrArg Prod.fst skipped
  · change (runCall tests setup i).1 = none
    rw [skipped, uncalled]

/-- The session remembers the first gate that broke, and every item was judged by the one that
    had broken before it. -/
theorem run_follows (rig : ω) {items : List Item}
    (sorted : items.Pairwise fun a b => a.phase ≤ b.phase) :
    (emitted (runtest tests) (none, rig) items).map Ran.item = items ∧
      (final (runtest tests) (none, rig) items).1 =
        ((emitted (runtest tests) (none, rig) items).find? (·.Broke)).map Ran.breach ∧
      ∀ before r after, emitted (runtest tests) (none, rig) items = before ++ r :: after →
        r.Follows ((before.find? (·.Broke)).map Ran.breach) := by
  induction items using List.reverseRecOn with
  | nil => simp
  | append_singleton items i ih =>
    obtain ⟨earlier, _, ends⟩ := List.pairwise_append.mp sorted
    obtain ⟨same, kept, follows⟩ := ih earlier
    obtain ⟨r, ran, item, now, next⟩ := runtest_cases
      (final (runtest tests) (none, rig) items) i
    rw [kept] at now next
    refine ⟨?_, ?_, ?_⟩
    · rw [emitted_snoc, ran, List.map_append, same]
      simp [item]
    · rw [final_snoc, next, emitted_snoc, ran]
      apply closes_first
      intro q among
      have before : q.item ∈ items := same ▸ List.mem_map_of_mem among
      rw [item]
      exact ends q.item before i List.mem_cons_self
    · intro before s after split
      rw [emitted_snoc, ran] at split
      rcases List.eq_nil_or_concat after with rfl | ⟨front, last, rfl⟩
      · obtain ⟨rfl, only⟩ := List.append_inj' split rfl
        obtain rfl := List.singleton_inj.mp only
        exact now
      · have whole : emitted (runtest tests) (none, rig) items ++ [r] =
            (before ++ s :: front) ++ [last] := by simpa using split
        exact follows before s front (List.append_inj' whole rfl).1

end

/-- How the gates of a run shut out what comes after them. -/
structure Gated (items : List Item) (run : List Ran) : Prop where
  each : run.map Ran.item = modifyItems items
  shut : ∀ r ∈ run, r.blamed ≠ none ↔
    .skip ∉ r.item.marks ∧ ∃ q ∈ run, q.Broke ∧ q.item.phase < r.item.phase
  unlearnt : ∀ r ∈ run, r.blamed ≠ none → r.setup = .skipped ∧ r.call = none
  cause : ∀ r ∈ run, ∀ name, r.blamed = some name →
    ∃ before q after, run = before ++ q :: after ∧ q.Broke ∧ q.item.name = name ∧
      ∀ p ∈ before, ¬ p.Broke
  together : ∀ p ∈ run, ∀ q ∈ run, p.Broke → q.Broke → p.item.phase = q.item.phase

theorem shut_unbroken {r : Ran} {gateFailed : GateFailed} (follows : r.Follows gateFailed)
    (shut : r.Shut) : ¬ r.Broke := by
  obtain ⟨setup, call⟩ := follows.shut shut
  simp [Ran.Broke, setup, call]

theorem blamed_iff {r : Ran} {gateFailed : GateFailed} (follows : r.Follows gateFailed)
    (name : Text) :
    r.blamed = some name ↔ .skip ∉ r.item.marks ∧
      ∃ phase, gateFailed = some (name, phase) ∧ phase < r.item.phase := by
  rw [follows.blamed]
  unfold runtestSetup
  by_cases marked : .skip ∈ r.item.marks
  · simp [marked]
  · cases gateFailed with
    | none => simp
    | some failed =>
      obtain ⟨cause, phase⟩ := failed
      by_cases less : phase < r.item.phase
      · simp [marked, less]
      · simp [less]

theorem first_earliest {run : List Ran}
    (sorted : run.Pairwise fun a b => a.item.phase ≤ b.item.phase) {q first : Ran}
    (found : run.find? (·.Broke) = some first) (member : q ∈ run) (broke : q.Broke) :
    first.item.phase ≤ q.item.phase := by
  obtain ⟨_, before, after, rfl, calm⟩ := List.find?_eq_some_iff_append.mp found
  rcases List.mem_append.mp member with early | late
  · simpa [broke] using calm q early
  · rcases List.mem_cons.mp late with rfl | later
    · exact le_rfl
    · exact (List.pairwise_cons.mp (List.pairwise_append.mp sorted).2.1).1 q later

theorem first_broken {run : List Ran} {q : Ran} (member : q ∈ run) (broke : q.Broke) :
    ∃ first, run.find? (·.Broke) = some first := by
  cases found : run.find? (·.Broke) with
  | none => simpa [broke] using List.find?_eq_none.mp found q member
  | some first => exact ⟨first, rfl⟩

section
variable {run : List Ran} (sorted : run.Pairwise fun a b => a.item.phase ≤ b.item.phase)
  (follows : ∀ before r after, run = before ++ r :: after →
    r.Follows ((before.find? (·.Broke)).map Ran.breach))
include sorted follows

theorem shut_iff {r : Ran} (member : r ∈ run) :
    r.blamed ≠ none ↔
      .skip ∉ r.item.marks ∧ ∃ q ∈ run, q.Broke ∧ q.item.phase < r.item.phase := by
  obtain ⟨before, after, rfl⟩ := List.append_of_mem member
  have judged := follows before r after rfl
  constructor
  · intro blamed
    obtain ⟨name, named⟩ := Option.ne_none_iff_exists'.mp blamed
    obtain ⟨unmarked, phase, known, less⟩ := (blamed_iff judged name).mp named
    obtain ⟨q, found, same⟩ := Option.map_eq_some_iff.mp known
    obtain ⟨_, rfl⟩ := Prod.mk.inj same
    exact ⟨unmarked, q, List.mem_append_left _ (List.mem_of_find?_eq_some found),
      by simpa using List.find?_some found, less⟩
  · intro shut
    obtain ⟨unmarked, q, among, broke, less⟩ := shut
    have early : q ∈ before := by
      rcases List.mem_append.mp among with early | late
      · exact early
      · have above : r.item.phase ≤ q.item.phase := by
          rcases List.mem_cons.mp late with rfl | later
          · exact le_rfl
          · exact (List.pairwise_cons.mp (List.pairwise_append.mp sorted).2.1).1 q later
        omega
    obtain ⟨first, found⟩ := first_broken early broke
    have least := first_earliest (List.pairwise_append.mp sorted).1 found early broke
    have named := (blamed_iff judged first.item.name).mpr
      ⟨unmarked, first.item.phase, by rw [found]; rfl, by omega⟩
    simp [named]

theorem broken_together {p q : Ran} (first : p ∈ run) (second : q ∈ run) (broke : p.Broke)
    (also : q.Broke) : q.item.phase ≤ p.item.phase := by
  by_contra above
  obtain ⟨before, after, split⟩ := List.append_of_mem second
  have judged := follows before q after split
  have unmarked : .skip ∉ q.item.marks := fun marked => shut_unbroken judged (.inl marked) also
  have blamed := (shut_iff sorted follows second).mpr ⟨unmarked, p, first, broke, by omega⟩
  exact shut_unbroken judged (.inr blamed) also

end

section
variable {ω : Type} (tests : ω → Item → When → Stage × ω) (rig : ω) (items : List Item)

theorem bench_sorted :
    (benchRun tests rig items).Pairwise fun a b => a.item.phase ≤ b.item.phase := by
  have phases := modified_phases items
  have each : (benchRun tests rig items).map Ran.item = modifyItems items :=
    (run_follows rig phases).1
  rw [← each, List.pairwise_map] at phases
  exact phases

theorem bench_follows (before : List Ran) (r : Ran) (after : List Ran)
    (split : benchRun tests rig items = before ++ r :: after) :
    r.Follows ((before.find? (·.Broke)).map Ran.breach) :=
  (run_follows rig (modified_phases items)).2.2 before r after split

theorem behind_broken {q r : Ran} (first : q ∈ benchRun tests rig items) (broke : q.Broke)
    (second : r ∈ benchRun tests rig items) (earlier : q.item.phase < r.item.phase) :
    r.call = none := by
  obtain ⟨before, after, split⟩ := List.append_of_mem second
  have judged := bench_follows tests rig items before r after split
  by_cases marked : .skip ∈ r.item.marks
  · exact (judged.shut (.inl marked)).2
  · have blamed := (shut_iff (bench_sorted tests rig items) (bench_follows tests rig items)
      second).mpr ⟨marked, q, first, broke, earlier⟩
    exact (judged.shut (.inr blamed)).2

/-- Whatever the tests do, an item is skipped for a gate exactly when some gate of an earlier
    phase broke in the run, wherever it stood in its own phase; nothing is learnt of it then, and
    the gate named is the first that broke. -/
theorem run_gated : Gated items (benchRun tests rig items) := by
  have sorted := bench_sorted tests rig items
  have follows := bench_follows tests rig items
  constructor
  · exact (run_follows rig (modified_phases items)).1
  · exact fun r member => shut_iff sorted follows member
  · intro r member blamed
    obtain ⟨before, after, split⟩ := List.append_of_mem member
    exact (follows before r after split).shut (.inr blamed)
  · intro r member name named
    obtain ⟨before, after, split⟩ := List.append_of_mem member
    obtain ⟨_, phase, known, _⟩ := (blamed_iff (follows before r after split) name).mp named
    obtain ⟨q, found, same⟩ := Option.map_eq_some_iff.mp known
    obtain ⟨broke, front, back, rfl, calm⟩ := List.find?_eq_some_iff_append.mp found
    refine ⟨front, q, back ++ r :: after, by simp [split], by simpa using broke,
      (Prod.mk.inj same).1, ?_⟩
    intro p early
    simpa using calm p early
  · intro p first q second broke also
    exact le_antisymm (broken_together sorted follows second first also broke)
      (broken_together sorted follows first second broke also)

end

end GplugBenchRun
