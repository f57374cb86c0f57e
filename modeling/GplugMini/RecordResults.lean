import Mathlib.Data.List.Perm.Basic
import Mathlib.Tactic.Common
import GplugMini.ResultLines

/- Writing a log's results into the test plan. The plan is its list of cases; what the YAML
   holds beside them is carried along unread. -/
namespace GplugRecordResults
open GplugResultLines

inductive Status where
  | notDone | successful | failed | blocked | retired
  deriving DecidableEq, Repr

/-- OUTCOME.get(outcome, "not done"): an outcome the table lacks is not done. -/
def Outcome.status : Outcome → Status
  | .passed => .successful
  | .failed => .failed
  | .error | .skipped | .xfail | .xpass => .notDone

structure Case where
  id : Text
  status : Status
  commit : Option Text
  when : Option Text
  reason : Option Text
  deriving DecidableEq, Repr

/-- What by_id keeps of the list: an id names one case. -/
structure Plan where
  cases : List Case
  distinct : (cases.map Case.id).Nodup

def xfailReason : Text :=
  ("declared xfail - the contract is real but this rig " ++
    "cannot decide it; see the capability note").toList

def errorReason : Text :=
  ("errored in setup, so nothing was learned about the " ++
    "requirement - fix the precondition and re-run").toList

structure Stamp where
  commit : Text
  when : Text

def Case.record (stamp : Stamp) (c : Case) (outcome : Outcome) : Case :=
  let status := Outcome.status outcome
  let decided := status = .successful ∨ status = .failed
  { c with
    status := status
    commit := if decided then some stamp.commit else none
    when := if decided then some stamp.when else none
    reason :=
      if status = .successful then none
      else if outcome = .xfail then some xfailReason
      else if outcome = .error then some errorReason
      else c.reason }

theorem record_id (stamp : Stamp) (c : Case) (outcome : Outcome) :
    (c.record stamp outcome).id = c.id := rfl

def Plan.find (plan : Plan) (id : Text) : Option Case := plan.cases.find? fun c => c.id = id

def Plan.update (plan : Plan) (stamp : Stamp) (id : Text) (outcome : Outcome) : Plan where
  cases := plan.cases.map fun c => if c.id = id then c.record stamp outcome else c
  distinct := by
    have same : (plan.cases.map fun c => if c.id = id then c.record stamp outcome else c).map
        Case.id = plan.cases.map Case.id := by
      rw [List.map_map]
      apply List.map_congr_left
      intro c _
      by_cases here : c.id = id
      · simp [here, record_id]
      · simp [here]
    rw [same]
    exact plan.distinct

structure Tally where
  plan : Plan
  changes : List (Text × Status × Status)
  unmatched : List (Text × Outcome)

def Tally.record (stamp : Stamp) (t : Tally) (f : Found) : Tally :=
  match f.caseId.bind t.plan.find with
  | none => { t with unmatched := t.unmatched ++ [(f.node, f.outcome)] }
  | some c =>
      { t with
        plan := t.plan.update stamp c.id f.outcome
        changes := t.changes ++ [(c.id, c.status, Outcome.status f.outcome)] }

def tally (stamp : Stamp) (plan : Plan) (results : List Found) : Tally :=
  results.foldl (Tally.record stamp) ⟨plan, [], []⟩

/-- The plan as the run leaves it on disk, and what is printed of the results; no result
    lines at all and the runner exits. -/
def main (cls : CharClasses) (stamp : Stamp) (dryRun : Bool) (plan : Plan) (lines : List Text) :
    Plan × Option (List (Text × Status × Status) × List (Text × Outcome)) :=
  let results := parse cls lines
  if results = [] then (plan, none)
  else
    let t := tally stamp plan results
    (if dryRun then plan else t.plan, some (t.changes, t.unmatched))

end GplugRecordResults
