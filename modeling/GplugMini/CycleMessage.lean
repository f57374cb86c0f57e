import Mathlib.Tactic.Common
import GplugMini.CycleLabels
import GplugMini.Library.EmittingRun

/- What a cycle's set renders of the values it accepted, however many and however long. -/
namespace GplugCycleMessage
open ByteText EmittingRun FirstOccurrence FlatObject GplugAggregator GplugCycleLabels

structure Add where
  label : Label
  value : Value

def Add.member (a : Add) : Member := (a.label.1, a.value.text)

def offer (s : CycleSet) (a : Add) : CycleSet × List Member :=
  ((put s a.label a.value).1, if (put s a.label a.value).2 then [a.member] else [])

def rendered (accepted : List Member) : Bytes :=
  if accepted = [] then [] else objectText accepted

/-- The message is what was accepted, what cannot be held in the buffer with its brace and
    its terminator is refused, and every member accepted is in the message, ended where it
    was. -/
structure Renders (cleared : CycleSet) (adds : List Add) : Prop where
  whole : (final offer cleared adds).json.2 = rendered (emitted offer cleared adds)
  refuses : ∀ before a rest, adds = before ++ a :: rest →
    jsonSize < (objectText (emitted offer cleared before ++ [a.member])).length + 1 →
      (put (final offer cleared before) a.label a.value).2 = false
  keeps : ∀ before rest, adds = before ++ rest → emitted offer cleared before ≠ [] →
    ∃ stop more, (stop = comma ∨ stop = closeBrace) ∧
      (final offer cleared adds).json.2 =
        openText (emitted offer cleared before) ++ stop :: more

def taken (adds : List Add) : List Member :=
  adds.foldl (fun kept a =>
    if kept.length < maxValues ∧ ¬ Seen (keys kept) a.label.1 then kept ++ [a.member] else kept) []

theorem taken_snoc (adds : List Add) (a : Add) :
    taken (adds ++ [a]) =
      if (taken adds).length < maxValues ∧ ¬ Seen (keys (taken adds)) a.label.1 then
        taken adds ++ [a.member]
      else taken adds := by
  unfold taken
  rw [List.foldl_append]
  rfl

variable {cleared : CycleSet}

theorem cleared_carries (calls : List Call) :
    Carries (after (calls ++ [.clear])) [] ∧ (after (calls ++ [.clear])).closed_ = false := by
  obtain ⟨_, carried, _⟩ := (run_recorded calls).carried
  have last : after (calls ++ [.clear]) = (after calls).clear := by
    unfold after watched
    rw [List.foldl_append]
    rfl
  rw [last]
  exact ⟨clear_carries carried.toSound, rfl⟩

/-- Which pairs are accepted does not depend on whether their text fits. -/
theorem run_taken (carried : Carries cleared []) (opened : cleared.closed_ = false)
    (adds : List Add) :
    emitted offer cleared adds = taken adds ∧
      Carries (final offer cleared adds) (taken adds) ∧
      (final offer cleared adds).closed_ = false := by
  induction adds using List.reverseRecOn with
  | nil => exact ⟨rfl, carried, opened⟩
  | append_singleton adds a ih =>
    obtain ⟨same, held, stays⟩ := ih
    have accepts := carries_add_iff held a.label.1 a.value.text
    rw [emitted_snoc, final_snoc, same, taken_snoc, offer, put_eq]
    by_cases accepted : ((final offer cleared adds).add a.label.1 a.value.text).2 = true
    · obtain ⟨next, still⟩ := carries_add held a.label.2 (value_text_nul_free a.value) accepted
      rw [if_pos accepted, if_pos (accepts.mp accepted).2]
      exact ⟨rfl, next, still⟩
    · have refused := add_refused (Bool.not_eq_true _ ▸ accepted)
      have other : ¬ ((taken adds).length < maxValues ∧ ¬ Seen (keys (taken adds)) a.label.1) :=
        fun fits => accepted (accepts.mpr ⟨stays, fits⟩)
      rw [if_neg accepted, if_neg other, refused, List.append_nil]
      exact ⟨rfl, held, stays⟩

theorem whole_iff (carried : Carries cleared []) (opened : cleared.closed_ = false)
    (adds : List Add) :
    (final offer cleared adds).json.2 = rendered (emitted offer cleared adds) ↔
      (objectText (taken adds)).length + 2 ≤ jsonSize := by
  obtain ⟨same, held, stays⟩ := run_taken carried opened adds
  rw [same, rendered]
  split
  · rename_i none
    have counted := held.counted
    rw [none] at counted ⊢
    have empty : (final offer cleared adds).json.2 = [] := by
      rw [CycleSet.json, if_pos (counted.trans List.length_nil)]
    simp only [empty, true_iff]
    decide
  · rename_i some
    exact message_iff held.toSound stays held.counted (held.shown stays) some

/-- A set renders what it accepted exactly when the object of it has at most 510 bytes. -/
theorem renders_iff (calls : List Call) (adds : List Add) :
    Renders (after (calls ++ [.clear])) adds ↔
      (objectText (taken adds)).length + 2 ≤ jsonSize := by
  obtain ⟨carried, opened⟩ := cleared_carries calls
  have every (some : List Add) := (run_taken carried opened some).1
  constructor
  · exact fun renders => (whole_iff carried opened adds).mp renders.whole
  · intro small
    have whole := (whole_iff carried opened adds).mpr small
    refine ⟨whole, ?_, ?_⟩
    · intro before a rest split large
      by_contra accepted
      rw [Bool.not_eq_false] at accepted
      have grown : taken adds =
          (emitted offer (after (calls ++ [.clear])) before ++ [a.member]) ++
            emitted offer (offer (final offer (after (calls ++ [.clear])) before) a).1 rest := by
        rw [← every adds, split, emitted_append, emitted, offer, accepted]
        simp
      have some : emitted offer (after (calls ++ [.clear])) before ++ [a.member] ≠ [] := by simp
      have longer := object_text_grows some
        (emitted offer (offer (final offer (after (calls ++ [.clear])) before) a).1 rest)
      rw [← grown] at longer
      omega
    · intro before rest split some
      rw [whole, rendered, split, emitted_append]
      rw [if_neg (by simp [some])]
      exact object_text_append some _

def register (n : Fin 11) : Label :=
  ⟨List.replicate 26 97 ++ [UInt8.ofNat (65 + n)], by revert n; decide⟩

def elevenTotals : List Add :=
  (List.finRange 11).map fun n => ⟨register n, .integer 18446744073709551615⟩

/-- The eleventh total is accepted, and a digit of it runs on from the tenth. -/
theorem eleventh_total_runs_on :
    (emitted offer (after [.clear]) elevenTotals).length = 11 ∧
      (final offer (after [.clear]) elevenTotals).json.2 =
        openText ((elevenTotals.map Add.member).take 10) ++ ascii "1" ∧
      ¬ Renders (after [.clear]) elevenTotals := by
  refine ⟨by decide +kernel, by decide +kernel, ?_⟩
  intro renders
  have small := (renders_iff [] elevenTotals).mp renders
  revert small
  decide +kernel

end GplugCycleMessage
