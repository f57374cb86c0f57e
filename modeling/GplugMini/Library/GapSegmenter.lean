import Mathlib.Data.List.Flatten
import Mathlib.Data.List.Induction
import Mathlib.Tactic.Common
import GplugMini.Library.EmittingRun

/- Cutting a stream of timed reads wherever it has been quiet for a whole gap. Times are
   unbounded and the held data has no limit; a read is anything with a time and data. -/
namespace GapSegmenter
open EmittingRun
variable {Item Read : Type*}

structure Segmenter (Item : Type*) where
  held : List Item
  last : Nat

def Segmenter.idle : Segmenter Item := ⟨[], 0⟩

section
variable (gap : Nat) (time : Read → Nat) (data : Read → List Item)

open Classical in
noncomputable def Segmenter.step (s : Segmenter Item) (r : Read) :
    Segmenter Item × List (List Item) :=
  if data r ≠ [] then ({ held := s.held ++ data r, last := time r }, [])
  else if s.held ≠ [] ∧ s.last + gap ≤ time r then ({ s with held := [] }, [s.held])
  else (s, [])

def Waiting (before : List Read) (since : Nat) : Prop :=
  ∃ earlier d quiet, before = earlier ++ d :: quiet ∧ data d ≠ [] ∧ time d = since ∧
    ∀ q ∈ quiet, data q = [] ∧ time q < since + gap

def Due (before : List Read) (r : Read) : Prop :=
  data r = [] ∧ ∃ since, Waiting gap time data before since ∧ since + gap ≤ time r

def Uncut (before stretch : List Read) : Prop :=
  ∀ first r rest, stretch = first ++ r :: rest → ¬ Due gap time data (before ++ first) r

end

variable {gap : Nat} {time : Read → Nat} {data : Read → List Item}

theorem not_waiting_nil (since : Nat) : ¬ Waiting gap time data [] since := by
  intro waiting
  obtain ⟨earlier, d, quiet, shape, _⟩ := waiting
  simp at shape

theorem waiting_data {r : Read} (returned : data r ≠ []) (before : List Read) (since : Nat) :
    Waiting gap time data (before ++ [r]) since ↔ since = time r := by
  constructor
  · intro waiting
    obtain ⟨earlier, d, quiet, shape, _, rfl, still⟩ := waiting
    cases quiet using List.reverseRecOn with
    | nil =>
      obtain ⟨_, same⟩ := List.append_inj' shape rfl
      rw [List.cons.inj same |>.1]
    | append_singleton quiet q =>
      rw [← List.cons_append, ← List.append_assoc] at shape
      obtain ⟨_, same⟩ := List.append_inj' shape rfl
      have last : r = q := (List.cons.inj same).1
      exact absurd (still q (by simp)).1 (last ▸ returned)
  · intro same
    subst same
    exact ⟨before, r, [], rfl, returned, rfl, by simp⟩

theorem waiting_quiet {r : Read} (empty : data r = []) (before : List Read) (since : Nat) :
    Waiting gap time data (before ++ [r]) since ↔
      Waiting gap time data before since ∧ time r < since + gap := by
  constructor
  · intro waiting
    obtain ⟨earlier, d, quiet, shape, returned, rfl, still⟩ := waiting
    cases quiet using List.reverseRecOn with
    | nil =>
      obtain ⟨_, same⟩ := List.append_inj' shape rfl
      have last : r = d := (List.cons.inj same).1
      exact absurd empty (last ▸ returned)
    | append_singleton quiet q =>
      rw [← List.cons_append, ← List.append_assoc] at shape
      obtain ⟨prior, same⟩ := List.append_inj' shape rfl
      have last : r = q := (List.cons.inj same).1
      exact ⟨⟨earlier, d, quiet, prior, returned, rfl, fun q member => still q (by simp [member])⟩,
        last ▸ (still q (by simp)).2⟩
  · intro waiting
    obtain ⟨⟨earlier, d, quiet, rfl, returned, rfl, still⟩, early⟩ := waiting
    refine ⟨earlier, d, quiet ++ [r], by simp, returned, rfl, ?_⟩
    intro q member
    rcases List.mem_append.mp member with before | now
    · exact still q before
    · rw [List.mem_singleton.mp now]
      exact ⟨empty, early⟩

theorem waiting_iff_held (reads : List Read) (since : Nat) :
    Waiting gap time data reads since ↔
      (final (Segmenter.step gap time data) .idle reads).held ≠ [] ∧
        since = (final (Segmenter.step gap time data) .idle reads).last := by
  induction reads using List.reverseRecOn generalizing since with
  | nil => simp [not_waiting_nil, Segmenter.idle]
  | append_singleton reads r ih =>
    rw [final_snoc]
    by_cases empty : data r = []
    · rw [waiting_quiet empty, ih, Segmenter.step, if_neg (by simp [empty])]
      split
      · rename_i due
        simp only [ne_eq, not_true_eq_false, false_and, iff_false]
        intro waiting
        obtain ⟨⟨_, rfl⟩, early⟩ := waiting
        omega
      · rename_i early
        constructor
        · exact fun held => held.1
        · intro held
          obtain ⟨some, rfl⟩ := held
          exact ⟨⟨some, rfl⟩, Nat.lt_of_not_le fun late => early ⟨some, late⟩⟩
    · rw [waiting_data empty, Segmenter.step, if_pos empty]
      simp [empty]

theorem due_iff (reads : List Read) (r : Read) :
    Due gap time data reads r ↔ data r = [] ∧
      (final (Segmenter.step gap time data) .idle reads).held ≠ [] ∧
      (final (Segmenter.step gap time data) .idle reads).last + gap ≤ time r := by
  simp only [Due, waiting_iff_held]
  constructor
  · intro due
    obtain ⟨empty, _, ⟨held, rfl⟩, late⟩ := due
    exact ⟨empty, held, late⟩
  · intro due
    obtain ⟨empty, held, late⟩ := due
    exact ⟨empty, _, ⟨held, rfl⟩, late⟩

theorem taken_iff_due (reads : List Read) (r : Read) :
    (Segmenter.step gap time data (final (Segmenter.step gap time data) .idle reads) r).2 ≠ [] ↔
      Due gap time data reads r := by
  rw [due_iff, Segmenter.step]
  by_cases empty : data r = []
  · rw [if_neg (by simp [empty])]
    split <;> simp_all
  · simp [empty]

theorem taken_nonempty (reads : List Read) :
    ∀ buffer ∈ emitted (Segmenter.step gap time data) .idle reads, buffer ≠ [] := by
  induction reads using List.reverseRecOn with
  | nil => simp
  | append_singleton reads r ih =>
    intro buffer member
    rw [emitted_snoc, List.mem_append] at member
    rcases member with before | now
    · exact ih buffer before
    · unfold Segmenter.step at now
      split at now
      · simp at now
      · split at now
        · rename_i due
          rw [List.mem_singleton.mp now]
          exact due.1
        · simp at now

theorem lossless (reads : List Read) :
    (emitted (Segmenter.step gap time data) .idle reads).flatten ++
      (final (Segmenter.step gap time data) .idle reads).held = reads.flatMap data := by
  induction reads using List.reverseRecOn with
  | nil => rfl
  | append_singleton reads r ih =>
    rw [emitted_snoc, final_snoc, List.flatMap_append, ← ih]
    unfold Segmenter.step
    split
    · simp
    · rename_i empty
      have nothing : data r = [] := by simpa using empty
      split <;> simp [nothing]

/-- What is held is the data of the stretch since the last cut. -/
theorem held_stretch (reads : List Read) :
    ∃ before stretch, reads = before ++ stretch ∧ Uncut gap time data before stretch ∧
      stretch.flatMap data = (final (Segmenter.step gap time data) .idle reads).held := by
  induction reads using List.reverseRecOn with
  | nil => exact ⟨[], [], rfl, by simp [Uncut], rfl⟩
  | append_singleton reads r ih =>
    obtain ⟨before, stretch, split, uncut, same⟩ := ih
    rw [final_snoc]
    by_cases due : Due gap time data reads r
    · refine ⟨reads ++ [r], [], by simp, by simp [Uncut], ?_⟩
      obtain ⟨empty, held, late⟩ := (due_iff reads r).mp due
      rw [Segmenter.step, if_neg (by simp [empty]), if_pos ⟨held, late⟩]
      rfl
    · refine ⟨before, stretch ++ [r], by simp [split], ?_, ?_⟩
      · intro first q rest shape
        cases rest using List.reverseRecOn with
        | nil =>
          obtain ⟨whole, last⟩ := List.append_inj' shape rfl
          rw [← whole, ← split, ← (List.cons.inj last).1]
          exact due
        | append_singleton rest p =>
          rw [← List.cons_append, ← List.append_assoc] at shape
          exact uncut first q rest (List.append_inj' shape rfl).1
      · rw [due_iff] at due
        rw [List.flatMap_append, same, Segmenter.step]
        by_cases empty : data r = []
        · rw [if_neg (by simp [empty]), if_neg fun late => due ⟨empty, late⟩]
          simp [empty]
        · simp [empty]

end GapSegmenter
