import Mathlib.Data.List.Perm.Basic
import Mathlib.Tactic.Common
import GplugMini.RecordResults

/- What a whole log does to the plan, against what its tests reported. A log is what pytest
   printed, line by line: the results, and lines that are none. -/
namespace GplugRecordedResults
open GplugResultLines GplugRecordResults

inductive LogLine (cls : CharClasses) where
  | result (r : Report)
  | other (text : Text) (apart : resultLine cls text = none)

section
variable {cls : CharClasses}

def LogLine.text : LogLine cls → Text
  | .result r => r.text
  | .other text _ => text

def LogLine.report : LogLine cls → Option Report
  | .result r => some r
  | .other _ _ => none

def reports (log : List (LogLine cls)) : List Report := log.filterMap LogLine.report

def found (log : List (LogLine cls)) : List Found := parse cls (log.map LogLine.text)

def recorded (stamp : Stamp) (plan : Plan) (log : List (LogLine cls)) : Plan :=
  (main cls stamp false plan (log.map LogLine.text)).1

def tallied (stamp : Stamp) (plan : Plan) (log : List (LogLine cls)) : Tally :=
  tally stamp plan (found log)

end

def Status.rank : Status → Nat
  | .failed => 0
  | .notDone | .blocked | .retired => 1
  | .successful => 2

def Names (cls : CharClasses) (r : Report) (id : Text) : Prop := caseInNode cls r.node = some id

/-- Between two states of the runner a result has updated its case, or is listed unmatched. -/
def Handled (cls : CharClasses) (s t : Tally) (r : Report) : Prop :=
  (∃ id before, Names cls r id ∧
      t.changes = s.changes ++ [(id, before, Outcome.status r.outcome)]) ∨
    t.unmatched = s.unmatched ++ [(r.node, r.outcome)]

structure Faithful (cls : CharClasses) (stamp : Stamp) (plan : Plan) (log : List (LogLine cls)) :
    Prop where
  successful : ∀ c ∈ (recorded stamp plan log).cases, c.status = .successful ↔
    (∃ r ∈ reports log, Names cls r c.id) ∧
      ∀ r ∈ reports log, Names cls r c.id → r.outcome = .passed
  failed : ∀ c ∈ (recorded stamp plan log).cases, ∀ r ∈ reports log, Names cls r c.id →
    r.outcome = .failed → c.status = .failed
  worst : ∀ c ∈ (recorded stamp plan log).cases, ∀ r ∈ reports log, Names cls r c.id →
    Status.rank c.status ≤ Status.rank (Outcome.status r.outcome)
  handled : ∀ before r after, log = before ++ .result r :: after →
    Handled cls (tallied stamp plan before) (tallied stamp plan (before ++ [.result r])) r
  ordered : ∀ other : List (LogLine cls), other.Perm log →
    (recorded stamp plan other).cases.map Case.status =
      (recorded stamp plan log).cases.map Case.status

/-- The node holds no blank, or the part before its first blank already names the case and an
    outcome word of the same meaning happens to follow it. -/
def Readable (cls : CharClasses) (plan : Plan) (r : Report) : Prop :=
  (∀ c ∈ r.node, isSpace c = false) ∨
    ∃ id ∈ plan.cases.map Case.id, caseInNode cls r.ink = some id ∧
      ∃ o, outcomeAt cls r.behind = some o ∧ Outcome.status o = Outcome.status r.outcome

/-- Every result is read, those that name one case agree, and only a named case can have
    been successful before. -/
structure Agreeing (cls : CharClasses) (plan : Plan) (log : List (LogLine cls)) : Prop where
  readable : ∀ r ∈ reports log, Readable cls plan r
  agree : ∀ c ∈ plan.cases, ∀ r ∈ reports log, ∀ q ∈ reports log, Names cls r c.id →
    Names cls q c.id → Outcome.status r.outcome = Outcome.status q.outcome
  fresh : ∀ c ∈ plan.cases, c.status = .successful → ∃ r ∈ reports log, Names cls r c.id

/- What the fold leaves of each case. -/

def outcomesOf (results : List Found) (id : Text) : List Outcome :=
  (results.filter fun f => f.caseId = some id).map Found.outcome

def lastStatus (before : Status) (statuses : List Status) : Status :=
  statuses.getLast?.getD before

theorem record_all_id (stamp : Stamp) (c : Case) (results : List Outcome) :
    (results.foldl (Case.record stamp) c).id = c.id := by
  induction results generalizing c with
  | nil => rfl
  | cons o results ih => rw [List.foldl_cons, ih, record_id]

theorem record_all_status (stamp : Stamp) (c : Case) (results : List Outcome) :
    (results.foldl (Case.record stamp) c).status =
      lastStatus c.status (results.map Outcome.status) := by
  induction results using List.reverseRecOn with
  | nil => rfl
  | append_singleton results o _ =>
    rw [List.foldl_append, List.map_append]
    simp [lastStatus, Case.record]

theorem tally_snoc (stamp : Stamp) (plan : Plan) (results : List Found) (f : Found) :
    tally stamp plan (results ++ [f]) = (tally stamp plan results).record stamp f := by
  simp [tally]

theorem find_none {plan : Plan} {id : Text} (none : plan.find id = none) :
    ∀ c ∈ plan.cases, c.id ≠ id := by
  simpa [Plan.find] using none

theorem find_some {plan : Plan} {id : Text} {c : Case} (found : plan.find id = some c) :
    c.id = id ∧ c ∈ plan.cases := by
  refine ⟨?_, List.mem_of_find?_eq_some found⟩
  simpa using List.find?_some found

theorem tally_cases (stamp : Stamp) (plan : Plan) (results : List Found) :
    (tally stamp plan results).plan.cases =
      plan.cases.map fun c => (outcomesOf results c.id).foldl (Case.record stamp) c := by
  induction results using List.reverseRecOn with
  | nil => simp [tally, outcomesOf]
  | append_singleton results f ih =>
    rw [tally_snoc, Tally.record]
    have last : ∀ id, outcomesOf (results ++ [f]) id =
        outcomesOf results id ++ if f.caseId = some id then [f.outcome] else [] := by
      intro id
      by_cases here : f.caseId = some id
      · simp [outcomesOf, here]
      · simp [outcomesOf, here]
    cases found : f.caseId.bind (tally stamp plan results).plan.find with
    | none =>
      rw [ih]
      apply List.map_congr_left
      intro c member
      have other : f.caseId ≠ some c.id := by
        intro same
        rw [same, Option.bind_some] at found
        have there : (outcomesOf results c.id).foldl (Case.record stamp) c ∈
            (tally stamp plan results).plan.cases := by
          rw [ih]
          exact List.mem_map_of_mem member
        exact find_none found _ there (record_all_id stamp c _)
      rw [last, if_neg other, List.append_nil]
    | some d =>
      obtain ⟨id, named, there⟩ := Option.bind_eq_some_iff.mp found
      obtain ⟨same, _⟩ := find_some there
      simp only [Plan.update, ih, List.map_map]
      apply List.map_congr_left
      intro c _
      rw [Function.comp_apply, last, record_all_id, named, same]
      by_cases here : c.id = id
      · simp [here]
      · simp [here, Ne.symm here]

theorem tally_ids (stamp : Stamp) (plan : Plan) (results : List Found) :
    (tally stamp plan results).plan.cases.map Case.id = plan.cases.map Case.id := by
  rw [tally_cases, List.map_map]
  apply List.map_congr_left
  intro c _
  exact record_all_id stamp c _

section
variable {cls : CharClasses} {stamp : Stamp} {plan : Plan} {log : List (LogLine cls)}

theorem recorded_tallied : recorded stamp plan log = (tallied stamp plan log).plan := by
  unfold recorded main tallied found
  by_cases none : parse cls (log.map LogLine.text) = []
  · simp [none, tally]
  · simp [none]

theorem recorded_cases :
    (recorded stamp plan log).cases =
      plan.cases.map fun c => (outcomesOf (found log) c.id).foldl (Case.record stamp) c := by
  rw [recorded_tallied, tallied, tally_cases]

theorem recorded_statuses :
    (recorded stamp plan log).cases.map Case.status = plan.cases.map fun c =>
      lastStatus c.status ((outcomesOf (found log) c.id).map Outcome.status) := by
  rw [recorded_cases, List.map_map]
  apply List.map_congr_left
  intro c _
  exact record_all_status stamp c _

theorem found_snoc (before : List (LogLine cls)) (l : LogLine cls) :
    found (before ++ [l]) = found before ++ (parseLine cls l.text).toList := by
  unfold found parse
  cases read : parseLine cls l.text with
  | none => simp [read]
  | some f => simp [read]

theorem tallied_result (before : List (LogLine cls)) (r : Report) :
    tallied stamp plan (before ++ [.result r]) =
      (parseLine cls r.text).elim (tallied stamp plan before)
        ((tallied stamp plan before).record stamp) := by
  rw [tallied, found_snoc, LogLine.text]
  cases parseLine cls r.text with
  | none => simp [tallied]
  | some f => exact tally_snoc stamp plan (found before) f

theorem find_known {s : Tally} (ids : s.plan.cases.map Case.id = plan.cases.map Case.id)
    (id : Text) : (∃ c, s.plan.find id = some c) ↔ id ∈ plan.cases.map Case.id := by
  rw [← ids, List.mem_map]
  constructor
  · intro known
    obtain ⟨c, here⟩ := known
    obtain ⟨same, member⟩ := find_some here
    exact ⟨c, member, same⟩
  · intro known
    obtain ⟨c, member, same⟩ := known
    cases here : s.plan.find id with
    | none => exact absurd same (find_none here c member)
    | some d => exact ⟨d, rfl⟩

theorem ink_plain {r : Report} (whole : r.ink = r.node) : ∀ c ∈ r.node, isSpace c = false := by
  intro c member
  have inked := List.takeWhile_eq_self_iff.mp whole c member
  simpa [isInk] using inked

theorem readable_found {r : Report} (readable : Readable cls plan r) :
    ∃ f, parseLine cls r.text = some f ∧ f.caseId = caseInNode cls r.node ∧
      Outcome.status f.outcome = Outcome.status r.outcome := by
  rcases readable with plain | ⟨id, _, named, o, seen, told⟩
  · exact ⟨_, parse_line_plain cls plain, rfl, rfl⟩
  · exact ⟨_, parse_line_named named seen, (ink_names named).symm, told⟩

theorem listed_iff {s t : Tally} {r : Report} {f : Found} (read : parseLine cls r.text = some f)
    (unknown : ∀ id ∈ plan.cases.map Case.id, f.caseId ≠ some id)
    (same : t.changes = s.changes) (listed : t.unmatched = s.unmatched ++ [(f.node, f.outcome)]) :
    Handled cls s t r ↔ Readable cls plan r := by
  obtain ⟨node, named, _⟩ := parse_line_text read
  constructor
  · intro handled
    rcases handled with ⟨id, before, _, changed⟩ | entry
    · simp [same] at changed
    · have whole : f.node = r.node ∧ f.outcome = r.outcome := by simpa [listed] using entry
      exact .inl (ink_plain (node.symm.trans whole.1))
  · intro readable
    rcases readable with plain | ⟨id, member, inked, _⟩
    · rw [parse_line_plain cls plain] at read
      obtain rfl := Option.some.inj read
      exact .inr listed
    · exact absurd (named.trans inked) (unknown id member)

theorem updated_iff {s t : Tally} {r : Report} {f : Found} {id : Text} {before : Status}
    (read : parseLine cls r.text = some f) (known : id ∈ plan.cases.map Case.id)
    (named : f.caseId = some id) (same : t.unmatched = s.unmatched)
    (changed : t.changes = s.changes ++ [(id, before, Outcome.status f.outcome)]) :
    Handled cls s t r ↔ Readable cls plan r := by
  obtain ⟨_, ink, seen⟩ := parse_line_text read
  have inked : caseInNode cls r.ink = some id := ink.symm.trans named
  constructor
  · intro handled
    rcases handled with ⟨other, earlier, _, entry⟩ | listed
    · have told : Outcome.status f.outcome = Outcome.status r.outcome := by
        rw [changed] at entry
        have pair := (List.cons.inj (List.append_cancel_left entry)).1
        exact (Prod.mk.inj (Prod.mk.inj pair).2).2
      exact .inr ⟨id, known, inked, f.outcome, seen, told⟩
    · simp [same] at listed
  · intro readable
    obtain ⟨g, read', _, told⟩ := readable_found readable
    obtain rfl := Option.some.inj (read.symm.trans read')
    exact .inl ⟨id, before, ink_names inked, by rw [changed, told]⟩

theorem handled_iff {s : Tally} (ids : s.plan.cases.map Case.id = plan.cases.map Case.id)
    (r : Report) :
    Handled cls s ((parseLine cls r.text).elim s (s.record stamp)) r ↔ Readable cls plan r := by
  cases read : parseLine cls r.text with
  | none =>
    have unread : ¬ Readable cls plan r := by
      intro readable
      obtain ⟨f, found, _⟩ := readable_found readable
      exact Option.some_ne_none f (found.symm.trans read)
    simp [Handled, unread]
  | some f =>
    rw [Option.elim_some, Tally.record]
    cases known : f.caseId.bind s.plan.find with
    | none =>
      have unknown : ∀ id ∈ plan.cases.map Case.id, f.caseId ≠ some id := by
        intro id member named
        obtain ⟨c, here⟩ := (find_known ids id).mpr member
        rw [named, Option.bind_some, here] at known
        exact Option.some_ne_none _ known
      exact listed_iff read unknown rfl rfl
    | some c =>
      obtain ⟨id, named, here⟩ := Option.bind_eq_some_iff.mp known
      obtain ⟨rfl, _⟩ := find_some here
      exact updated_iff read ((find_known ids c.id).mp ⟨c, here⟩) named rfl rfl

def namedStatuses (log : List (LogLine cls)) (id : Text) : List Status :=
  ((reports log).filter fun r => caseInNode cls r.node = some id).map
    fun r => Outcome.status r.outcome

theorem found_statuses (readable : ∀ r ∈ reports log, Readable cls plan r) (id : Text) :
    (outcomesOf (found log) id).map Outcome.status = namedStatuses log id := by
  induction log with
  | nil => rfl
  | cons l log ih =>
    cases l with
    | other text apart =>
      have none : parseLine cls text = none := by rw [parseLine, apart, Option.map_none]
      have skipped : found (.other text apart :: log) = found log := by
        simp [found, parse, LogLine.text, none]
      rw [skipped]
      exact ih readable
    | result r =>
      have all : ∀ q ∈ r :: reports log, Readable cls plan q := readable
      obtain ⟨now, later⟩ := List.forall_mem_cons.mp all
      obtain ⟨f, read, named, told⟩ := readable_found now
      have next : found (.result r :: log) = f :: found log := by
        simp [found, parse, LogLine.text, read]
      have here : reports ((.result r : LogLine cls) :: log) = r :: reports log := rfl
      have rest := ih later
      unfold outcomesOf namedStatuses at rest ⊢
      rw [next, here]
      by_cases this : caseInNode cls r.node = some id
      · simp [named, this, told, rest]
      · simp [named, this, rest]

theorem named_statuses_mem {id : Text} {status : Status} :
    status ∈ namedStatuses log id ↔
      ∃ r ∈ reports log, Names cls r id ∧ Outcome.status r.outcome = status := by
  simp [namedStatuses, Names, and_assoc]

theorem last_of_constant {before status : Status} {statuses : List Status}
    (member : status ∈ statuses) (same : ∀ s ∈ statuses, s = status) :
    lastStatus before statuses = status := by
  cases shape : statuses.getLast? with
  | none =>
    rw [List.getLast?_eq_none_iff.mp shape] at member
    exact absurd member List.not_mem_nil
  | some last =>
    rw [lastStatus, shape, Option.getD_some]
    exact same last (List.mem_of_getLast? shape)

theorem agreed_status (agreeing : Agreeing cls plan log) {c : Case} (member : c ∈ plan.cases)
    {r : Report} (printed : r ∈ reports log) (named : Names cls r c.id) :
    lastStatus c.status (namedStatuses log c.id) = Outcome.status r.outcome := by
  apply last_of_constant (named_statuses_mem.mpr ⟨r, printed, named, rfl⟩)
  intro status among
  obtain ⟨q, also, names, told⟩ := named_statuses_mem.mp among
  rw [← told]
  exact agreeing.agree c member q also r printed names named

theorem unnamed_status {c : Case} (unnamed : ¬ ∃ r ∈ reports log, Names cls r c.id) :
    lastStatus c.status (namedStatuses log c.id) = c.status := by
  have none : namedStatuses log c.id = [] := by
    apply List.eq_nil_iff_forall_not_mem.mpr
    intro status among
    obtain ⟨r, printed, named, _⟩ := named_statuses_mem.mp among
    exact unnamed ⟨r, printed, named⟩
  rw [none]
  rfl

theorem status_passed {o : Outcome} : Outcome.status o = .successful ↔ o = .passed := by
  cases o <;> simp [Outcome.status]

theorem reports_perm {other : List (LogLine cls)} (perm : other.Perm log) :
    (reports other).Perm (reports log) := perm.filterMap _

theorem agreeing_perm {other : List (LogLine cls)} (perm : other.Perm log)
    (agreeing : Agreeing cls plan log) : Agreeing cls plan other := by
  have same : ∀ r, r ∈ reports other ↔ r ∈ reports log := fun r => (reports_perm perm).mem_iff
  constructor
  · intro r printed
    exact agreeing.readable r ((same r).mp printed)
  · intro c member r first q second
    exact agreeing.agree c member r ((same r).mp first) q ((same q).mp second)
  · intro c member passed
    obtain ⟨r, printed, named⟩ := agreeing.fresh c member passed
    exact ⟨r, (same r).mpr printed, named⟩

theorem agreed_case (agreeing : Agreeing cls plan log) {c : Case}
    (member : c ∈ (recorded stamp plan log).cases) :
    ∃ d ∈ plan.cases, c.id = d.id ∧
      c.status = lastStatus d.status (namedStatuses log d.id) := by
  rw [recorded_cases] at member
  obtain ⟨d, first, rfl⟩ := List.mem_map.mp member
  refine ⟨d, first, record_all_id stamp d _, ?_⟩
  rw [record_all_status, found_statuses agreeing.readable]

theorem agreed_order (agreeing : Agreeing cls plan log) {other : List (LogLine cls)}
    (perm : other.Perm log) :
    (recorded stamp plan other).cases.map Case.status =
      (recorded stamp plan log).cases.map Case.status := by
  have also := agreeing_perm perm agreeing
  rw [recorded_statuses, recorded_statuses]
  apply List.map_congr_left
  intro c member
  rw [found_statuses agreeing.readable, found_statuses also.readable]
  by_cases named : ∃ r ∈ reports log, Names cls r c.id
  · obtain ⟨r, printed, names⟩ := named
    have there : r ∈ reports other := (reports_perm perm).mem_iff.mpr printed
    rw [agreed_status agreeing member printed names, agreed_status also member there names]
  · have unnamed : ¬ ∃ r ∈ reports other, Names cls r c.id := by
      intro named'
      obtain ⟨r, printed, names⟩ := named'
      exact named ⟨r, (reports_perm perm).mem_iff.mp printed, names⟩
    rw [unnamed_status named, unnamed_status unnamed]

theorem handled_split {before : List (LogLine cls)} {r : Report} :
    Handled cls (tallied stamp plan before) (tallied stamp plan (before ++ [.result r])) r ↔
      Readable cls plan r := by
  rw [tallied_result]
  exact handled_iff (tally_ids stamp plan _) r

theorem agreeing_faithful (agreeing : Agreeing cls plan log) : Faithful cls stamp plan log where
  successful := by
    intro c member
    obtain ⟨d, first, id, status⟩ := agreed_case agreeing member
    rw [id, status]
    by_cases named : ∃ r ∈ reports log, Names cls r d.id
    · obtain ⟨r, printed, names⟩ := named
      rw [agreed_status agreeing first printed names, status_passed]
      constructor
      · intro passed
        refine ⟨⟨r, printed, names⟩, fun q also same => ?_⟩
        rw [← status_passed, ← agreeing.agree d first r printed q also names same, passed]
        rfl
      · intro all
        exact all.2 r printed names
    · rw [unnamed_status named]
      constructor
      · intro passed
        exact absurd (agreeing.fresh d first passed) named
      · intro all
        exact absurd all.1 named
  failed := by
    intro c member r printed names broke
    obtain ⟨d, first, id, status⟩ := agreed_case agreeing member
    rw [id] at names
    rw [status, agreed_status agreeing first printed names, broke]
    rfl
  worst := by
    intro c member r printed names
    obtain ⟨d, first, id, status⟩ := agreed_case agreeing member
    rw [id] at names
    rw [status, agreed_status agreeing first printed names]
  handled := by
    intro before r after split
    have printed : r ∈ reports log := by simp [split, reports, LogLine.report]
    exact handled_split.mpr (agreeing.readable r printed)
  ordered := fun _ perm => agreed_order agreeing perm

theorem named_statuses_snoc (before : List (LogLine cls)) {l : LogLine cls} {r : Report}
    {id : Text} (shape : l.report = some r) (named : Names cls r id) :
    namedStatuses (before ++ [l]) id = namedStatuses before id ++ [Outcome.status r.outcome] := by
  have names : caseInNode cls r.node = some id := named
  simp [namedStatuses, reports, shape, names]

theorem moved_last (faithful : Faithful cls stamp plan log) {c : Case} (member : c ∈ plan.cases)
    {r : Report} (printed : r ∈ reports log) (named : Names cls r c.id)
    (readable : ∀ q ∈ reports log, Readable cls plan q) :
    lastStatus c.status (namedStatuses log c.id) = Outcome.status r.outcome := by
  obtain ⟨l, there, shape⟩ := List.mem_filterMap.mp printed
  obtain ⟨before, after, split⟩ := List.append_of_mem there
  have perm : (before ++ after ++ [l]).Perm log := by
    rw [split, List.append_assoc]
    exact (List.perm_append_singleton l after).append_left before
  have also : ∀ q ∈ reports (before ++ after ++ [l]), Readable cls plan q :=
    fun q among => readable q ((reports_perm perm).mem_iff.mp among)
  have same := faithful.ordered _ perm
  rw [recorded_statuses, recorded_statuses] at same
  have here := List.map_inj_left.mp same c member
  rw [found_statuses also, found_statuses readable] at here
  rw [← here]
  rw [named_statuses_snoc (before ++ after) shape named, lastStatus, List.getLast?_concat,
    Option.getD_some]

theorem faithful_agreeing (faithful : Faithful cls stamp plan log) : Agreeing cls plan log := by
  have readable : ∀ r ∈ reports log, Readable cls plan r := by
    intro r printed
    obtain ⟨l, there, shape⟩ := List.mem_filterMap.mp printed
    obtain ⟨before, after, split⟩ := List.append_of_mem there
    cases l with
    | other text apart => exact absurd shape (Option.some_ne_none r).symm
    | result q =>
      obtain rfl := Option.some.inj shape
      exact handled_split.mp (faithful.handled before q after split)
  constructor
  · exact readable
  · intro c member r first q second names also
    rw [← moved_last faithful member first names readable,
      moved_last faithful member second also readable]
  · intro c member passed
    by_contra unnamed
    have kept : c.status = lastStatus c.status (namedStatuses log c.id) :=
      (unnamed_status unnamed).symm
    have there : (outcomesOf (found log) c.id).foldl (Case.record stamp) c ∈
        (recorded stamp plan log).cases := by
      rw [recorded_cases]
      exact List.mem_map_of_mem member
    have status : ((outcomesOf (found log) c.id).foldl (Case.record stamp) c).status =
        .successful := by
      rw [record_all_status, found_statuses readable, ← kept, passed]
    have named := ((faithful.successful _ there).mp status).1
    rw [record_all_id] at named
    exact unnamed named

variable (cls stamp plan log) in
theorem faithful_iff : Faithful cls stamp plan log ↔ Agreeing cls plan log :=
  ⟨faithful_agreeing, agreeing_faithful⟩

end

def ascii : CharClasses where
  word c := decide ((48 ≤ c.toNat ∧ c.toNat ≤ 57) ∨ (65 ≤ c.toNat ∧ c.toNat ≤ 90) ∨
    c.toNat = 95 ∨ (97 ≤ c.toNat ∧ c.toNat ≤ 122))
  digit c := decide (48 ≤ c.toNat ∧ c.toNat ≤ 57)
  space_apart := by
    intro c blank
    simp only [isSpace, decide_eq_true_eq] at blank
    simp only [decide_eq_false_iff_not]
    omega

def ts038 : Text := ['T', 'S', '-', '0', '3', '8']

def onlyCase : Plan := ⟨[⟨ts038, .notDone, none, none, none⟩], by decide⟩

def resultOf (parameter : Text) (outcome : Outcome) : Report where
  file := ['t', '.', 'p', 'y']
  node := ['t', 'e', 's', 't', '_', 't', 's', '0', '3', '8', '['] ++ parameter ++ [']']
  outcome := outcome
  tail := [' ', '[', '3', '%', ']']
  filed := by decide
  named := by simp
  plainFile := by simp [isSpace]
  apart := .inr ⟨['[', '3', '%', ']'], rfl⟩

def failedThenPassed : List (LogLine ascii) :=
  [.result (resultOf ['a'] .failed), .result (resultOf ['b'] .passed)]

theorem failure_overwritten : ¬ Faithful ascii ⟨[], []⟩ onlyCase failedThenPassed := by
  intro faithful
  have same := (faithful_agreeing faithful).agree _ List.mem_cons_self (resultOf ['a'] .failed)
    (by simp [reports, failedThenPassed, LogLine.report]) (resultOf ['b'] .passed)
    (by simp [reports, failedThenPassed, LogLine.report]) rfl rfl
  exact absurd same (by decide)

example : (recorded ⟨[], []⟩ onlyCase failedThenPassed).cases.map Case.status = [.successful] := by
  decide

-- A parameter's id with a blank in it: the line is none the runner can read.
example : parseLine ascii (resultOf ['n', 'o', ' ', 'n', 'a', 'm', 'e'] .failed).text = none := by
  decide

end GplugRecordedResults
