import Mathlib.Logic.Relation
import Mathlib.Tactic.Common

/- Programs as the trees of the calls they make on their surroundings. The same program is
   run against a function that answers its calls, or stepped one call at a time between
   moves of its surroundings; an outline proves properties of the second from the first
   state on, whatever is interleaved and wherever the run is cut off. -/
namespace CallTree

inductive Prog (Op : Type) (Res : Op → Type) (α : Type) where
  | ret (value : α) : Prog Op Res α
  | call (op : Op) (next : Res op → Prog Op Res α) : Prog Op Res α

variable {Op : Type} {Res : Op → Type} {α β σ : Type}

def Prog.bind : Prog Op Res α → (α → Prog Op Res β) → Prog Op Res β
  | .ret a, f => f a
  | .call op next, f => .call op fun r => (next r).bind f

instance : Monad (Prog Op Res) where
  pure := .ret
  bind := .bind

def perform (op : Op) : Prog Op Res (Res op) := .call op .ret

def Prog.run (answer : σ → (op : Op) → Res op × σ) : Prog Op Res α → σ → α × σ
  | .ret a, s => (a, s)
  | .call op next, s => (next (answer s op).1).run answer (answer s op).2

@[simp] theorem pure_eq_ret (a : α) : (pure a : Prog Op Res α) = .ret a := rfl

@[simp] theorem bind_eq (p : Prog Op Res α) (f : α → Prog Op Res β) : p >>= f = p.bind f := rfl

@[simp] theorem ret_bind (a : α) (f : α → Prog Op Res β) : (Prog.ret a).bind f = f a := rfl

@[simp] theorem call_bind (op : Op) (next : Res op → Prog Op Res α) (f : α → Prog Op Res β) :
    (Prog.call op next).bind f = .call op fun r => (next r).bind f := rfl

@[simp] theorem perform_bind (op : Op) (f : Res op → Prog Op Res β) :
    (perform op).bind f = .call op f := rfl

@[simp] theorem run_ret (answer : σ → (op : Op) → Res op × σ) (a : α) (s : σ) :
    (Prog.ret a).run answer s = (a, s) := rfl

@[simp] theorem run_call (answer : σ → (op : Op) → Res op × σ) (op : Op)
    (next : Res op → Prog Op Res α) (s : σ) :
    (Prog.call op next).run answer s = (next (answer s op).1).run answer (answer s op).2 := rfl

theorem run_bind (answer : σ → (op : Op) → Res op × σ) (p : Prog Op Res α)
    (f : α → Prog Op Res β) (s : σ) :
    (p.bind f).run answer s = (f (p.run answer s).1).run answer (p.run answer s).2 := by
  induction p generalizing s with
  | ret a => rfl
  | call op next ih => exact ih _ _

theorem run_keeps {answer : σ → (op : Op) → Res op × σ} {P : σ → Prop}
    (keeps : ∀ s op, P s → P (answer s op).2) (p : Prog Op Res α) {s : σ} (held : P s) :
    P (p.run answer s).2 := by
  induction p generalizing s with
  | ret a => exact held
  | call op next ih => exact ih _ (keeps s op held)

/-- The answers a call may get, and the moves that may happen between two calls. -/
structure Surroundings (Op : Type) (Res : Op → Type) (σ : Type) where
  answer : σ → (op : Op) → Res op → σ → Prop
  move : σ → σ → Prop

inductive Step (W : Surroundings Op Res σ) : Prog Op Res α × σ → Prog Op Res α × σ → Prop where
  | move {p : Prog Op Res α} {s t : σ} (moved : W.move s t) : Step W (p, s) (p, t)
  | call {op : Op} {next : Res op → Prog Op Res α} {s t : σ} {r : Res op}
      (answered : W.answer s op r t) : Step W (.call op next, s) (next r, t)

abbrev Reaches (W : Surroundings Op Res σ) :
    Prog Op Res α × σ → Prog Op Res α × σ → Prop := Relation.ReflTransGen (Step W)

abbrev Drift (W : Surroundings Op Res σ) : σ → σ → Prop := Relation.ReflTransGen W.move

/-- From here on inv holds in every state, and post when the program has returned. -/
def Outline (W : Surroundings Op Res σ) (inv : σ → Prop) (post : α → σ → Prop) :
    Prog Op Res α → σ → Prop
  | .ret a, s => ∀ t, Drift W s t → inv t ∧ post a t
  | .call op next, s => ∀ t, Drift W s t →
      inv t ∧ ∀ r u, W.answer t op r u → Outline W inv post (next r) u

variable {W : Surroundings Op Res σ} {inv : σ → Prop} {post : α → σ → Prop}

theorem outline_moved {p : Prog Op Res α} {s t : σ} (outlined : Outline W inv post p s)
    (moved : W.move s t) : Outline W inv post p t := by
  cases p with
  | ret a => exact fun u drift => outlined u (.head moved drift)
  | call op next => exact fun u drift => outlined u (.head moved drift)

theorem outline_answered {op : Op} {next : Res op → Prog Op Res α} {s t : σ} {r : Res op}
    (outlined : Outline W inv post (.call op next) s) (answered : W.answer s op r t) :
    Outline W inv post (next r) t :=
  (outlined s .refl).2 r t answered

theorem outline_reaches {p q : Prog Op Res α} {s t : σ} (outlined : Outline W inv post p s)
    (path : Reaches W (p, s) (q, t)) : Outline W inv post q t := by
  generalize here : (p, s) = start at path
  generalize there : (q, t) = finish at path
  induction path generalizing q t with
  | refl =>
    obtain ⟨rfl, rfl⟩ := Prod.mk.inj (here.trans there.symm)
    exact outlined
  | tail path step ih =>
    cases step with
    | move moved =>
      cases there
      exact outline_moved (ih rfl) moved
    | call answered =>
      cases there
      exact outline_answered (ih rfl) answered

theorem outline_inv {p : Prog Op Res α} {s : σ} (outlined : Outline W inv post p s) : inv s := by
  cases p with
  | ret a => exact (outlined s .refl).1
  | call op next => exact (outlined s .refl).1

theorem outline_post {a : α} {s : σ} (outlined : Outline W inv post (.ret a) s) : post a s :=
  (outlined s .refl).2

def Stable (W : Surroundings Op Res σ) (P : σ → Prop) : Prop := ∀ s t, P s → W.move s t → P t

theorem stable_drift {P : σ → Prop} (stable : Stable W P) {s t : σ} (holds : P s)
    (drift : Drift W s t) : P t := by
  induction drift with
  | refl => exact holds
  | tail _ moved ih => exact stable _ _ ih moved

theorem outline_ret {P : σ → Prop} (stable : Stable W P) {a : α} {s : σ} (holds : P s)
    (safe : ∀ t, P t → inv t) (done : ∀ t, P t → post a t) : Outline W inv post (.ret a) s := by
  intro t drift
  have later := stable_drift stable holds drift
  exact ⟨safe t later, done t later⟩

theorem outline_call {P : σ → Prop} (stable : Stable W P) {op : Op}
    {next : Res op → Prog Op Res α} {s : σ} (holds : P s) (safe : ∀ t, P t → inv t)
    (rest : ∀ t r u, P t → W.answer t op r u → Outline W inv post (next r) u) :
    Outline W inv post (.call op next) s := by
  intro t drift
  have later := stable_drift stable holds drift
  exact ⟨safe t later, fun r u answered => rest t r u later answered⟩

theorem outline_bind {p : Prog Op Res α} {f : α → Prog Op Res β} {last : β → σ → Prop} {s : σ}
    (outlined : Outline W inv (fun a t => Outline W inv last (f a) t) p s) :
    Outline W inv last (p.bind f) s := by
  induction p generalizing s with
  | ret a => exact outline_post outlined
  | call op next ih =>
    intro t drift
    obtain ⟨safe, rest⟩ := outlined t drift
    exact ⟨safe, fun r u answered => ih r (rest r u answered)⟩

theorem outline_mono {p : Prog Op Res α} {weaker : α → σ → Prop} {s : σ}
    (outlined : Outline W inv post p s) (weaken : ∀ a t, post a t → weaker a t) :
    Outline W inv weaker p s := by
  induction p generalizing s with
  | ret a =>
    intro t drift
    obtain ⟨safe, done⟩ := outlined t drift
    exact ⟨safe, weaken a t done⟩
  | call op next ih =>
    intro t drift
    obtain ⟨safe, rest⟩ := outlined t drift
    exact ⟨safe, fun r u answered => ih r (rest r u answered)⟩

theorem drift_reaches {p : Prog Op Res α} {s t : σ} (drift : Drift W s t) :
    Reaches W (p, s) (p, t) := by
  induction drift with
  | refl => exact .refl
  | tail _ moved ih => exact ih.tail (.move moved)

theorem run_reaches {answer : σ → (op : Op) → Res op × σ}
    (answers : ∀ s op, ∃ t, W.answer s op (answer s op).1 t ∧ Drift W t (answer s op).2)
    (p : Prog Op Res α) (s : σ) :
    Reaches W (p, s) (.ret (p.run answer s).1, (p.run answer s).2) := by
  induction p generalizing s with
  | ret a => exact .refl
  | call op next ih =>
    obtain ⟨t, answered, drift⟩ := answers s op
    exact .head (.call answered) ((drift_reaches drift).trans (ih _ _))

/- A task that runs one program after another: idle between two of them. What it does when
   it begins the next, and with the value of the last, are moves of its own. -/

inductive TaskStep (W : Surroundings Op Res σ) (begins : σ → Prog Op Res α → σ → Prop)
    (ends : α → σ → σ → Prop) :
    σ × Option (Prog Op Res α) → σ × Option (Prog Op Res α) → Prop where
  | move {s t : σ} {p : Option (Prog Op Res α)} (moved : W.move s t) :
      TaskStep W begins ends (s, p) (t, p)
  | begin {s t : σ} {p : Prog Op Res α} (started : begins s p t) :
      TaskStep W begins ends (s, none) (t, some p)
  | call {op : Op} {next : Res op → Prog Op Res α} {s t : σ} {r : Res op}
      (answered : W.answer s op r t) :
      TaskStep W begins ends (s, some (.call op next)) (t, some (next r))
  | finish {a : α} {s t : σ} (ended : ends a s t) :
      TaskStep W begins ends (s, some (.ret a)) (t, none)

abbrev TaskReaches (W : Surroundings Op Res σ) (begins : σ → Prog Op Res α → σ → Prop)
    (ends : α → σ → σ → Prop) :
    σ × Option (Prog Op Res α) → σ × Option (Prog Op Res α) → Prop :=
  Relation.ReflTransGen (TaskStep W begins ends)

variable {begins : σ → Prog Op Res α → σ → Prop} {ends : α → σ → σ → Prop}

/-- What every program of the task restores holds whenever the task is idle. -/
theorem task_between {P : σ → Prop} (stable : Stable W P)
    (restores : ∀ s p t, P s → begins s p t →
      Outline W (fun _ => True) (fun a u => ∀ v, ends a u v → P v) p t)
    {s t : σ} (first : P s) (path : TaskReaches W begins ends (s, none) (t, none)) : P t := by
  let Held : σ × Option (Prog Op Res α) → Prop
    | (u, none) => P u
    | (u, some p) => Outline W (fun _ => True) (fun a u => ∀ v, ends a u v → P v) p u
  suffices held : ∀ state, TaskReaches W begins ends (s, none) state → Held state from
    held _ path
  intro state path
  induction path with
  | refl => exact first
  | tail _ step ih =>
    cases step with
    | @move u v p moved =>
      cases p with
      | none => exact stable _ _ ih moved
      | some p => exact outline_moved ih moved
    | begin started => exact restores _ _ _ ih started
    | call answered => exact outline_answered ih answered
    | finish ended => exact outline_post ih _ ended

theorem task_reaches {p q : Prog Op Res α} {s t : σ} (path : Reaches W (p, s) (q, t)) :
    TaskReaches W begins ends (s, some p) (t, some q) := by
  generalize here : (p, s) = start at path
  generalize there : (q, t) = finish at path
  induction path generalizing q t with
  | refl =>
    obtain ⟨rfl, rfl⟩ := Prod.mk.inj (here.trans there.symm)
    exact .refl
  | tail path step ih =>
    cases step with
    | move moved =>
      cases there
      exact (ih rfl).tail (.move moved)
    | call answered =>
      cases there
      exact (ih rfl).tail (.call answered)

end CallTree
