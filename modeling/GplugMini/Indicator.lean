import Mathlib.Algebra.Ring.Nat
import Mathlib.Data.List.Basic
import Mathlib.Tactic.Common
import GplugMini.Library.EmittingRun

/- The indicator task: what the light shows at each of its passes. Between two of its passes,
   and inside one, the other tasks may change the indication or start a pulse. -/
namespace GplugIndicator
open EmittingRun

inductive Indication where
  | boot
  | provisioning
  | connecting
  | linked
  | operational
  | updating
  deriving DecidableEq, Repr

structure Colour where
  red : Bool
  green : Bool
  blue : Bool
  deriving DecidableEq, Repr

def dark : Colour := ⟨false, false, false⟩
def red : Colour := ⟨true, false, false⟩
def green : Colour := ⟨false, true, false⟩
def blue : Colour := ⟨false, false, true⟩

structure Pattern where
  a : Colour
  b : Colour
  periodMs : Nat
  deriving DecidableEq, Repr

def patternFor : Indication → Pattern
  | .boot => ⟨red, blue, 1500⟩
  | .provisioning => ⟨blue, blue, 0⟩
  | .connecting => ⟨red, dark, 5000⟩
  | .linked => ⟨red, dark, 1000⟩
  | .operational => ⟨dark, dark, 0⟩
  | .updating => ⟨blue, green, 200⟩

def tickMs : Nat := 25
def publishPulseMs : Nat := 100

def distinguishable (i j : Indication) : Bool :=
  if i = j then true else patternFor i != patternFor j

/-- What other tasks do: indicate, and indicate_publish at this time in microseconds. -/
inductive Act where
  | indicate (i : Indication)
  | publish (now : Nat)
  deriving DecidableEq, Repr

structure Led where
  current : Indication
  pulseUntil : Nat
  elapsed : UInt32
  deriving DecidableEq, Repr

def Led.start : Led := ⟨.boot, 0, 0⟩

def Led.act (s : Led) : Act → Led
  | .indicate i => { s with current := i }
  | .publish now => { s with pulseUntil := now + publishPulseMs * 1000 }

structure Sample where
  before : List Act
  within : List Act
  now : Nat
  deriving DecidableEq, Repr

def Led.show (s : Led) (p : Pattern) (now : Nat) : Colour :=
  if now < s.pulseUntil then green
  else if p.periodMs = 0 then p.a
  else if s.elapsed.toNat % p.periodMs < p.periodMs / 2 then p.a
  else p.b

def Led.sample (s : Led) (x : Sample) : Led × List Colour :=
  let s := x.before.foldl Led.act s
  let p := patternFor s.current
  let s := x.within.foldl Led.act s
  ({ s with elapsed := s.elapsed + UInt32.ofNat tickMs }, [s.show p x.now])

def Undisturbed (s : Led) (xs : List Sample) : Prop :=
  ∀ x ∈ xs, x.before = [] ∧ x.within = [] ∧ s.pulseUntil ≤ x.now

/- Where in its period a pattern is found, pass by pass, across the end of the 32-bit count. -/

def position (period e k : Nat) : Nat := (e + tickMs * k) % 2 ^ 32 % period

def FirstPhase (period e k : Nat) : Prop := position period e k < period / 2

instance (period e k : Nat) : Decidable (FirstPhase period e k) :=
  inferInstanceAs (Decidable (_ < _))

section
variable {period e k : Nat}

theorem position_ahead (inside : e + tickMs * k < 2 ^ 32)
    (less : e % period + tickMs * k < period) :
    position period e k = e % period + tickMs * k := by
  rw [position, Nat.mod_eq_of_lt inside, Nat.add_mod,
    Nat.mod_eq_of_lt (by omega : tickMs * k < period), Nat.mod_eq_of_lt less]

theorem position_round (positive : 0 < period) (inside : e + tickMs * k < 2 ^ 32)
    (few : tickMs * k < period) (above : period ≤ e % period + tickMs * k) :
    position period e k = e % period + tickMs * k - period := by
  have less := Nat.mod_lt e positive
  rw [position, Nat.mod_eq_of_lt inside, Nat.add_mod, Nat.mod_eq_of_lt few,
    Nat.mod_eq_sub_mod above, Nat.mod_eq_of_lt (by omega)]

theorem position_wrapped (above : 2 ^ 32 ≤ e + tickMs * k)
    (near : e + tickMs * k < 2 ^ 32 + period) (once : e + tickMs * k < 2 ^ 33) :
    position period e k = e + tickMs * k - 2 ^ 32 := by
  have rest : e + tickMs * k - 2 ^ 32 < 2 ^ 32 := by omega
  rw [position, Nat.mod_eq_sub_mod above, Nat.mod_eq_of_lt rest, Nat.mod_eq_of_lt (by omega)]

theorem first_reached (long : 50 ≤ period) (short : period < 2 ^ 31) (small : e < 2 ^ 32) :
    ∃ k ≤ (period - period / 2 + 24) / tickMs, FirstPhase period e k := by
  have less := Nat.mod_lt e (show 0 < period by omega)
  simp only [FirstPhase]
  by_cases now : e % period < period / 2
  · refine ⟨0, Nat.zero_le _, ?_⟩
    rwa [position_ahead (by omega) (by omega)]
  · by_cases wraps : e + tickMs * ((period - e % period + 24) / tickMs) < 2 ^ 32
    · refine ⟨(period - e % period + 24) / tickMs, Nat.div_le_div_right (by omega), ?_⟩
      rw [tickMs] at wraps ⊢
      rw [position_round (by omega) wraps (by rw [tickMs]; omega) (by rw [tickMs]; omega), tickMs]
      omega
    · refine ⟨(2 ^ 32 - e + 24) / tickMs, ?_, ?_⟩
      · rw [tickMs] at wraps ⊢
        omega
      · rw [position_wrapped] <;> rw [tickMs] <;> omega

theorem second_reached (long : 100 ≤ period) (short : period < 2 ^ 31) (small : e < 2 ^ 32) :
    ∃ k ≤ 2 * ((period / 2 + 24) / tickMs), ¬ FirstPhase period e k := by
  have less := Nat.mod_lt e (show 0 < period by omega)
  simp only [FirstPhase, Nat.not_lt]
  by_cases now : period / 2 ≤ e % period
  · refine ⟨0, Nat.zero_le _, ?_⟩
    rwa [position_ahead (by omega) (by omega)]
  · by_cases wraps : e + tickMs * ((period / 2 - e % period + 24) / tickMs) < 2 ^ 32
    · refine ⟨(period / 2 - e % period + 24) / tickMs, ?_, ?_⟩
      · rw [tickMs]
        omega
      · rw [position_ahead wraps (by rw [tickMs]; omega), tickMs]
        omega
    · refine ⟨(2 ^ 32 - e + 24) / tickMs + (period / 2 + 24) / tickMs, ?_, ?_⟩
      · rw [tickMs] at wraps ⊢
        omega
      · rw [position_wrapped] <;> rw [tickMs] <;> omega

end

/-- Of two stretches of 41 passes the slow blink spends one in a single phase. -/
theorem slow_still {e : Nat} (small : e < 2 ^ 32) :
    ∃ start, (start = 0 ∨ start = 41) ∧ ((∀ k < 41, FirstPhase 5000 e (start + k)) ∨
      ∀ k < 41, ¬ FirstPhase 5000 e (start + k)) := by
  have less := Nat.mod_lt e (show 0 < 5000 by decide)
  by_cases near : 2 ^ 32 ≤ e + 2050
  · -- The count starts over within the first phase, and the next one begins.
    refine ⟨0, .inl rfl, .inl ?_⟩
    intro k few
    rw [FirstPhase, Nat.zero_add]
    by_cases wraps : e + tickMs * k < 2 ^ 32
    · rw [position_ahead wraps] <;> rw [tickMs] at * <;> omega
    · rw [position_wrapped] <;> rw [tickMs] at * <;> omega
  · have inside (k : Nat) (few : k < 82) : e + tickMs * k < 2 ^ 32 := by
      rw [tickMs]
      omega
    have ahead (k : Nat) (few : k < 82) (less : e % 5000 + 25 * k < 5000) :
        position 5000 e k = e % 5000 + 25 * k := position_ahead (inside k few) less
    have round (k : Nat) (few : k < 82) (above : 5000 ≤ e % 5000 + 25 * k) :
        position 5000 e k = e % 5000 + 25 * k - 5000 :=
      position_round (by decide) (inside k few) (by rw [tickMs]; omega) above
    simp only [FirstPhase, Nat.not_lt]
    rcases (by omega : e % 5000 < 1500 ∨ (1500 ≤ e % 5000 ∧ e % 5000 < 2500) ∨
      (2500 ≤ e % 5000 ∧ e % 5000 < 4000) ∨ 4000 ≤ e % 5000) with place | place | place | place
    · refine ⟨0, .inl rfl, .inl ?_⟩
      intro k few
      rw [ahead _ (by omega) (by omega)]
      omega
    · refine ⟨41, .inr rfl, .inr ?_⟩
      intro k few
      rw [ahead _ (by omega) (by omega)]
      omega
    · refine ⟨0, .inl rfl, .inr ?_⟩
      intro k few
      rw [ahead _ (by omega) (by omega)]
      omega
    · refine ⟨41, .inr rfl, .inl ?_⟩
      intro k few
      rw [round _ (by omega) (by omega)]
      omega

/- What an undisturbed stretch of passes shows. -/

def colourAt (p : Pattern) (e k : Nat) : Colour :=
  if p.periodMs = 0 then p.a else if FirstPhase p.periodMs e k then p.a else p.b

theorem shown_undisturbed (s : Led) {xs : List Sample} (quiet : Undisturbed s xs) :
    emitted Led.sample s xs =
      (List.range xs.length).map (colourAt (patternFor s.current) s.elapsed.toNat) := by
  induction xs generalizing s with
  | nil => rfl
  | cons x xs ih =>
    obtain ⟨⟨before, within, unlit⟩, rest⟩ := List.forall_mem_cons.mp quiet
    have step : s.sample x = ({ s with elapsed := s.elapsed + UInt32.ofNat tickMs },
        [s.show (patternFor s.current) x.now]) := by
      rw [Led.sample, before, within]
      rfl
    have first : s.show (patternFor s.current) x.now =
        colourAt (patternFor s.current) s.elapsed.toNat 0 := by
      have whole := Nat.mod_eq_of_lt s.elapsed.toNat_lt
      simp only [Led.show, if_neg (Nat.not_lt.mpr unlit), colourAt, FirstPhase, position,
        Nat.mul_zero, Nat.add_zero, whole]
    have later (k : Nat) : position (patternFor s.current).periodMs
        (s.elapsed + UInt32.ofNat tickMs).toNat k =
          position (patternFor s.current).periodMs s.elapsed.toNat (k + 1) := by
      rw [UInt32.toNat_add, position, position]
      change ((s.elapsed.toNat + 25) % 2 ^ 32 + tickMs * k) % 2 ^ 32 % _ = _
      rw [Nat.mod_add_mod, Nat.mul_add, Nat.add_assoc, Nat.add_comm 25]
      rfl
    have moved : emitted Led.sample { s with elapsed := s.elapsed + UInt32.ofNat tickMs } xs = _ :=
      ih _ rest
    rw [emitted, step, moved, List.length_cons, List.range_succ_eq_map, List.map_cons, first,
      List.singleton_append, List.map_map]
    congr 2
    funext k
    simp only [colourAt, FirstPhase, later, Function.comp_apply, Nat.succ_eq_add_one]
    rfl

def enough : Nat := 101

def still : Nat := 41

def Still (shown : Nat → Colour) (start : Nat) : Prop :=
  ∀ k < still, shown (start + k) = shown start

instance (shown : Nat → Colour) (start : Nat) : Decidable (Still shown start) :=
  inferInstanceAs (Decidable (∀ k < still, shown (start + k) = shown start))

/-- The indication a light that was watched long enough stands for. -/
def indicationOf (shown : Nat → Colour) : Indication :=
  if ∃ k < enough, shown k = green then .updating
  else if ∃ k < enough, shown k = blue then
    if ∃ k < enough, shown k = red then .boot else .provisioning
  else if ∀ k < enough, shown k = dark then .operational
  else if Still shown 0 ∨ Still shown still then .connecting
  else .linked

/-- A blinking light, pass by pass. -/
structure Blinks (shown : Nat → Colour) (a b : Colour) (first : Nat → Prop) : Prop where
  lit : ∀ k, first k → shown k = a
  other : ∀ k, ¬ first k → shown k = b

theorem blinks {p : Pattern} (moving : p.periodMs ≠ 0) (e : Nat) :
    Blinks (colourAt p e) p.a p.b (FirstPhase p.periodMs e) := by
  constructor
  · intro k first
    rw [colourAt, if_neg moving, if_pos first]
  · intro k second
    rw [colourAt, if_neg moving, if_neg second]

theorem Blinks.either {shown : Nat → Colour} {a b : Colour} {first : Nat → Prop}
    (h : Blinks shown a b first) (k : Nat) : shown k = a ∨ shown k = b := by
  by_cases phase : first k
  · exact .inl (h.lit k phase)
  · exact .inr (h.other k phase)

theorem Blinks.never {shown : Nat → Colour} {a b c : Colour} {first : Nat → Prop}
    (h : Blinks shown a b first) (notA : a ≠ c) (notB : b ≠ c) (n : Nat) :
    ¬ ∃ k < n, shown k = c := by
  intro seen
  obtain ⟨k, _, same⟩ := seen
  rcases h.either k with colour | colour
  · exact notA (colour.symm.trans same)
  · exact notB (colour.symm.trans same)

section
variable {e : Nat}

theorem reads_boot (small : e < 2 ^ 32) : indicationOf (colourAt (patternFor .boot) e) = .boot := by
  have both := blinks (p := patternFor .boot) (by decide) e
  obtain ⟨k, early, first⟩ := first_reached (by decide : 50 ≤ 1500) (by decide) small
  obtain ⟨j, soon, second⟩ := second_reached (by decide : 100 ≤ 1500) (by decide) small
  have inside : k < enough ∧ j < enough := by
    simp only [tickMs, enough] at early soon ⊢
    omega
  rw [indicationOf, if_neg (both.never (by decide) (by decide) _),
    if_pos ⟨j, inside.2, both.other j second⟩, if_pos ⟨k, inside.1, both.lit k first⟩]

theorem reads_updating (small : e < 2 ^ 32) :
    indicationOf (colourAt (patternFor .updating) e) = .updating := by
  have both := blinks (p := patternFor .updating) (by decide) e
  obtain ⟨j, soon, second⟩ := second_reached (by decide : 100 ≤ 200) (by decide) small
  have inside : j < enough := by
    simp only [tickMs, enough] at soon ⊢
    omega
  rw [indicationOf, if_pos ⟨j, inside, both.other j second⟩]

theorem reads_red {i : Indication} (a : (patternFor i).a = red) (b : (patternFor i).b = dark)
    (long : 50 ≤ (patternFor i).periodMs) (short : (patternFor i).periodMs ≤ 5000)
    (small : e < 2 ^ 32) :
    indicationOf (colourAt (patternFor i) e) =
      if Still (colourAt (patternFor i) e) 0 ∨ Still (colourAt (patternFor i) e) still
      then .connecting else .linked := by
  have both := blinks (p := patternFor i) (by omega) e
  rw [a, b] at both
  obtain ⟨k, early, first⟩ := first_reached long (by omega) small
  have inside : k < enough := by
    simp only [tickMs, enough] at early ⊢
    omega
  have lit : ¬ ∀ k < enough, colourAt (patternFor i) e k = dark := by
    intro off
    have equal := (both.lit k first).symm.trans (off k inside)
    exact absurd equal (by decide)
  rw [indicationOf, if_neg (both.never (by decide) (by decide) _),
    if_neg (both.never (by decide) (by decide) _), if_neg lit]

theorem reads_connecting (small : e < 2 ^ 32) :
    indicationOf (colourAt (patternFor .connecting) e) = .connecting := by
  have both := blinks (p := patternFor .connecting) (by decide) e
  rw [reads_red rfl rfl (by decide) (by decide) small]
  apply if_pos
  obtain ⟨start, begins, phase⟩ := slow_still small
  have same : Still (colourAt (patternFor .connecting) e) start := by
    intro k few
    rcases phase with first | second
    · exact (both.lit _ (first k few)).trans (both.lit _ (first 0 (by decide))).symm
    · exact (both.other _ (second k few)).trans (both.other _ (second 0 (by decide))).symm
  rcases begins with rfl | rfl
  · exact .inl same
  · exact .inr same

theorem reads_linked (small : e < 2 ^ 32) :
    indicationOf (colourAt (patternFor .linked) e) = .linked := by
  have both := blinks (p := patternFor .linked) (by decide) e
  rw [reads_red rfl rfl (by decide) (by decide) small]
  apply if_neg
  -- Both phases show within any 41 passes, from the first on and from the 42nd.
  have changes (e : Nat) (small : e < 2 ^ 32) :
      (∃ k < 41, FirstPhase 1000 e k) ∧ ∃ k < 41, ¬ FirstPhase 1000 e k := by
    obtain ⟨k, early, first⟩ := first_reached (by decide : 50 ≤ 1000) (by decide) small
    obtain ⟨j, soon, second⟩ := second_reached (by decide : 100 ≤ 1000) (by decide) small
    simp only [tickMs] at early soon
    exact ⟨⟨k, by omega, first⟩, ⟨j, by omega, second⟩⟩
  have differ (start : Nat) : ¬ Still (colourAt (patternFor .linked) e) start := by
    intro same
    have later (k : Nat) : FirstPhase 1000 ((e + tickMs * start) % 2 ^ 32) k ↔
        FirstPhase 1000 e (start + k) := by
      rw [FirstPhase, FirstPhase, position, position, Nat.mod_add_mod, Nat.mul_add, Nat.add_assoc]
    obtain ⟨⟨k, few, first⟩, ⟨j, less, second⟩⟩ :=
      changes ((e + tickMs * start) % 2 ^ 32) (Nat.mod_lt _ (by decide))
    have lit := both.lit _ ((later k).mp first)
    have off := both.other _ (mt (later j).mpr second)
    rw [same k few] at lit
    rw [same j less, lit] at off
    exact absurd off (by decide)
  exact fun unchanged => unchanged.elim (differ 0) (differ still)

end

theorem indication_read (i : Indication) {e : Nat} (small : e < 2 ^ 32) :
    indicationOf (colourAt (patternFor i) e) = i := by
  cases i with
  | boot => exact reads_boot small
  | provisioning =>
    have steady : ∃ k < enough, colourAt (patternFor .provisioning) e k = blue :=
      ⟨0, by decide, rfl⟩
    rw [indicationOf, if_neg (by simp [colourAt, patternFor, blue, green]), if_pos steady,
      if_neg (by simp [colourAt, patternFor, blue, red])]
  | connecting => exact reads_connecting small
  | linked => exact reads_linked small
  | operational => simp [indicationOf, colourAt, patternFor, dark, blue, green, enough]
  | updating => exact reads_updating small

theorem indication_of_same {shown other : Nat → Colour} (same : ∀ k < enough, shown k = other k) :
    indicationOf shown = indicationOf other := by
  have unchanged (start : Nat) (early : start ≤ still) : Still shown start ↔ Still other start := by
    simp only [still] at early
    refine forall₂_congr fun k few => ?_
    simp only [still] at few
    rw [same (start + k) (by rw [enough]; omega), same start (by rw [enough]; omega)]
  have seen (c : Colour) : (∃ k < enough, shown k = c) ↔ ∃ k < enough, other k = c :=
    exists_congr fun k => and_congr_right fun few => by rw [same k few]
  have off : (∀ k < enough, shown k = dark) ↔ ∀ k < enough, other k = dark :=
    forall₂_congr fun k few => by rw [same k few]
  simp only [indicationOf, unchanged 0 (Nat.zero_le _), unchanged still (Nat.le_refl _), seen, off]

/-- Two undisturbed lights of different indications differ somewhere in so many passes,
    wherever their counts stand, exactly when there are at least 101. -/
theorem told_apart_iff (n : Nat) :
    (∀ s t : Led, s.current ≠ t.current → ∀ xs ys, Undisturbed s xs → Undisturbed t ys →
      xs.length = n → ys.length = n → emitted Led.sample s xs ≠ emitted Led.sample t ys) ↔
    enough ≤ n := by
  constructor
  · intro apart
    by_contra few
    have off : ∀ k < 100, colourAt (patternFor .connecting) 2500 k = dark := by decide
    have quiet : ∀ i, Undisturbed ⟨i, 0, 2500⟩ (.replicate n ⟨[], [], 0⟩) := by
      intro i x member
      rw [List.eq_of_mem_replicate member]
      exact ⟨rfl, rfl, Nat.le_refl _⟩
    refine apart ⟨.connecting, 0, 2500⟩ ⟨.operational, 0, 2500⟩ (by decide) _ _ (quiet _) (quiet _)
      List.length_replicate List.length_replicate ?_
    rw [shown_undisturbed _ (quiet _), shown_undisturbed _ (quiet _), List.length_replicate]
    apply List.map_congr_left
    intro k member
    have early := List.mem_range.mp member
    rw [enough] at few
    exact (off k (by omega)).trans rfl
  · intro long s t differ xs ys quiet still many same seen
    rw [shown_undisturbed s quiet, shown_undisturbed t still, many, same] at seen
    apply differ
    rw [← indication_read s.current s.elapsed.toNat_lt, ← indication_read t.current
      t.elapsed.toNat_lt]
    apply indication_of_same
    intro k few
    exact List.map_inj_left.mp seen k (List.mem_range.mpr (by omega))

-- The table's own check sees no rate but the period, and so nothing of how long to look.
example (i j : Indication) : distinguishable i j = true := by
  cases i <;> cases j <;> rfl

end GplugIndicator
