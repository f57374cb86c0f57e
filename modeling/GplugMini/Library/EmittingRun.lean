import Mathlib.Data.List.Induction
import Mathlib.Tactic.Common

/- A system that takes one input after another, and everything it emits on the way. -/
namespace EmittingRun
variable {State Model Input Output : Type*}

def final (step : State → Input → State × List Output) (s : State) (inputs : List Input) : State :=
  inputs.foldl (fun s i => (step s i).1) s

def emitted (step : State → Input → State × List Output) : State → List Input → List Output
  | _, [] => []
  | s, i :: rest => (step s i).2 ++ emitted step (step s i).1 rest

variable {step : State → Input → State × List Output} {s : State}

@[simp] theorem final_nil : final step s [] = s := rfl

@[simp] theorem final_cons (i : Input) (rest : List Input) :
    final step s (i :: rest) = final step (step s i).1 rest := rfl

theorem final_snoc (inputs : List Input) (i : Input) :
    final step s (inputs ++ [i]) = (step (final step s inputs) i).1 := by
  simp [final]

theorem final_append (first rest : List Input) :
    final step s (first ++ rest) = final step (final step s first) rest := by
  simp [final]

@[simp] theorem emitted_nil : emitted step s [] = [] := rfl

theorem emitted_append (first rest : List Input) :
    emitted step s (first ++ rest) =
      emitted step s first ++ emitted step (final step s first) rest := by
  induction first generalizing s with
  | nil => rfl
  | cons i first ih => simp [emitted, ih]

theorem emitted_snoc (inputs : List Input) (i : Input) :
    emitted step s (inputs ++ [i]) = emitted step s inputs ++ (step (final step s inputs) i).2 := by
  simp [emitted_append, emitted]

theorem emitted_split {out : State → Input → Output} (single : ∀ s i, (step s i).2 = [out s i])
    {inputs : List Input} {before after : List Output} {o : Output}
    (split : emitted step s inputs = before ++ o :: after) :
    ∃ first i rest, inputs = first ++ i :: rest ∧ emitted step s first = before ∧
      out (final step s first) i = o ∧ emitted step (final step s (first ++ [i])) rest = after := by
  induction inputs generalizing s before with
  | nil => simp at split
  | cons i rest ih =>
    rw [emitted, single, List.singleton_append] at split
    cases before with
    | nil =>
      obtain ⟨now, later⟩ := List.cons.inj split
      exact ⟨[], i, rest, rfl, rfl, now, later⟩
    | cons b before =>
      obtain ⟨now, later⟩ := List.cons.inj split
      obtain ⟨first, j, rest, parts, earlier, here, behind⟩ := ih later
      refine ⟨i :: first, j, rest, by rw [parts, List.cons_append], ?_, here, behind⟩
      rw [emitted, single, earlier, now, List.singleton_append]

/-- Two systems that stay related along their inputs emit the same. -/
theorem emitted_related {other : Model → Input → Model × List Output} {t : Model}
    {related : List Input → State → Model → Prop} {inputs : List Input}
    (first : related [] s t)
    (keeps : ∀ before i after, inputs = before ++ i :: after →
      related before (final step s before) (final other t before) →
      (step (final step s before) i).2 = (other (final other t before) i).2 ∧
        related (before ++ [i]) (step (final step s before) i).1
          (other (final other t before) i).1) :
    emitted step s inputs = emitted other t inputs ∧
      related inputs (final step s inputs) (final other t inputs) := by
  induction inputs using List.reverseRecOn with
  | nil => exact ⟨rfl, first⟩
  | append_singleton before i ih =>
    obtain ⟨same, held⟩ := ih fun earlier j after split =>
      keeps earlier j (after ++ [i]) (by simp [split])
    obtain ⟨now, next⟩ := keeps before i [] rfl held
    rw [emitted_snoc, emitted_snoc, final_snoc, final_snoc, same, now]
    exact ⟨rfl, next⟩

end EmittingRun
