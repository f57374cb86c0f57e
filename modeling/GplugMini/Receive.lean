import Mathlib.Algebra.Ring.Nat
import Mathlib.Data.List.Chain
import Mathlib.Tactic.Common
import GplugMini.Aggregator
import GplugMini.Library.GapSegmenter

/- The receiving half of the main loop: reads appended to the cycle buffer until the line
   has been quiet long enough. The clock counts microseconds without bound; the loop sees
   its milliseconds reduced to 32 bits. -/
namespace GplugReceive
open ByteText GplugAggregator EmittingRun GapSegmenter

def maxCycle : Nat := 2048
def chunkSize : Nat := 256

/-- What meter_source_read returned in one pass, and the clock when the pass asked for it. -/
structure Read where
  bytes : Bytes
  micros : Nat
  deriving DecidableEq, Repr

def Read.ms (r : Read) : Nat := r.micros / 1000

def nowMs (micros : Nat) : UInt32 := UInt32.ofNat (micros / 1000)

structure Receiver where
  cycle : Bytes
  lastByte : UInt32
  deriving DecidableEq, Repr

def Receiver.boot (micros : Nat) : Receiver := ⟨[], nowMs micros⟩

/-- Bytes arrived: an overflow discards what is buffered, never what has just arrived. -/
def Receiver.insert (rx : Receiver) (r : Read) : Receiver :=
  let cycle := if maxCycle < rx.cycle.length + r.bytes.length then [] else rx.cycle
  { cycle := cycle ++ r.bytes, lastByte := nowMs r.micros }

def Receiver.ended (rx : Receiver) (r : Read) : Bool :=
  cycleEnded (nowMs r.micros) rx.lastByte rx.cycle.length

def Receiver.clear (rx : Receiver) : Receiver := { rx with cycle := [] }

def Receiver.pass (rx : Receiver) (r : Read) : Receiver × List Bytes :=
  if r.bytes ≠ [] then (rx.insert r, [])
  else if rx.ended r then (rx.clear, [rx.cycle])
  else (rx, [])

theorem gap_reached_iff {since now : Nat} (after : since ≤ now) (near : now < since + 2 ^ 32) :
    cycleGapMs ≤ UInt32.ofNat now - UInt32.ofNat since ↔ since + 2000 ≤ now := by
  rw [UInt32.le_iff_toNat_le, UInt32.toNat_sub, UInt32.toNat_ofNat', UInt32.toNat_ofNat']
  change 2000 ≤ _ ↔ _
  omega

theorem ended_iff {rx : Receiver} {r : Read} {since : Nat}
    (stamp : rx.lastByte = UInt32.ofNat since) (after : since ≤ r.ms)
    (near : r.ms < since + 2 ^ 32) :
    rx.ended r = true ↔ rx.cycle ≠ [] ∧ since + 2000 ≤ r.ms := by
  rw [Receiver.ended, cycleEnded, stamp, nowMs, Bool.and_eq_true, decide_eq_true_eq,
    decide_eq_true_eq, List.length_pos_iff]
  exact and_congr_right fun _ => gap_reached_iff after near

theorem pass_data {rx : Receiver} {r : Read} (returned : r.bytes ≠ [])
    (fits : rx.cycle.length + r.bytes.length ≤ maxCycle) :
    rx.pass r = (⟨rx.cycle ++ r.bytes, nowMs r.micros⟩, []) := by
  rw [Receiver.pass, if_pos returned, Receiver.insert, if_neg (by omega)]

/-- Successive passes: the clock never steps back, nor ahead by 2^31 ms or more. -/
def Paced (reads : List Read) : Prop :=
  reads.IsChain fun p r => p.ms ≤ r.ms ∧ r.ms < p.ms + 2 ^ 31

instance (reads : List Read) : Decidable (Paced reads) := by unfold Paced; infer_instance

/-- The buffer is what the segmenter holds, and while it holds anything the 32-bit stamp
    is the time of the last data, less than one gap before the last pass. -/
structure Follows (before : List Read) (rx : Receiver) (seg : Segmenter UInt8) : Prop where
  same : rx.cycle = seg.held
  stamped : seg.held ≠ [] → rx.lastByte = UInt32.ofNat seg.last ∧
    ∃ p ∈ before.getLast?, seg.last ≤ p.ms ∧ p.ms < seg.last + 2000

noncomputable abbrev segmenterStep : Segmenter UInt8 → Read → Segmenter UInt8 × List Bytes :=
  Segmenter.step 2000 Read.ms Read.bytes

theorem pass_follows {before : List Read} {r : Read} {rx : Receiver} {seg : Segmenter UInt8}
    (follows : Follows before rx seg)
    (paced : ∀ p ∈ before.getLast?, p.ms ≤ r.ms ∧ r.ms < p.ms + 2 ^ 31)
    (fits : seg.held.length + r.bytes.length ≤ maxCycle) :
    (rx.pass r).2 = (segmenterStep seg r).2 ∧
      Follows (before ++ [r]) (rx.pass r).1 (segmenterStep seg r).1 := by
  by_cases returned : r.bytes ≠ []
  · rw [pass_data returned (by rw [follows.same]; exact fits), segmenterStep, Segmenter.step,
      if_pos returned]
    refine ⟨rfl, ⟨by rw [follows.same], fun _ => ⟨rfl, r, by simp, Nat.le_refl _, ?_⟩⟩⟩
    exact Nat.lt_add_of_pos_right (by omega)
  · rw [Receiver.pass, if_neg returned, segmenterStep, Segmenter.step, if_neg returned]
    by_cases held : seg.held = []
    · have empty : rx.cycle = [] := follows.same.trans held
      have quiet : rx.ended r = false := by simp [Receiver.ended, cycleEnded, empty]
      rw [quiet, if_neg Bool.false_ne_true, if_neg fun due => due.1 held]
      exact ⟨rfl, ⟨follows.same, fun some => absurd held some⟩⟩
    · obtain ⟨stamp, p, last, after, early⟩ := follows.stamped held
      obtain ⟨forward, near⟩ := paced p last
      have closing := ended_iff (r := r) stamp (by omega) (by omega)
      rw [follows.same] at closing
      by_cases late : seg.last + 2000 ≤ r.ms
      · rw [if_pos (closing.mpr ⟨held, late⟩), if_pos ⟨held, late⟩]
        exact ⟨by rw [follows.same], ⟨rfl, fun some => absurd rfl some⟩⟩
      · have recent : seg.last ≤ r.ms ∧ r.ms < seg.last + 2000 := by omega
        rw [if_neg fun ended => late (closing.mp ended).2, if_neg fun due => late due.2]
        exact ⟨rfl, ⟨follows.same, fun _ => ⟨stamp, r, by simp, recent⟩⟩⟩

/-- Every stretch of reads without a cut in it carries at most the buffer's size. -/
def BurstsFit (reads : List Read) : Prop :=
  ∀ before stretch after, reads = before ++ stretch ++ after →
    Uncut 2000 Read.ms Read.bytes before stretch → (stretch.flatMap Read.bytes).length ≤ maxCycle

theorem uncut_data {before stretch : List Read} {r : Read}
    (uncut : Uncut 2000 Read.ms Read.bytes before stretch) (returned : r.bytes ≠ []) :
    Uncut 2000 Read.ms Read.bytes before (stretch ++ [r]) := by
  intro first q rest shape due
  cases rest using List.reverseRecOn with
  | nil =>
    obtain ⟨_, last⟩ := List.append_inj' shape rfl
    exact returned ((List.cons.inj last).1 ▸ due.1)
  | append_singleton rest p =>
    rw [← List.cons_append, ← List.append_assoc] at shape
    exact uncut first q rest (List.append_inj' shape rfl).1 due

theorem held_fits {reads before after : List Read} {r : Read} (bursts : BurstsFit reads)
    (split : reads = before ++ r :: after) :
    (final segmenterStep .idle before).held.length + r.bytes.length ≤ maxCycle := by
  obtain ⟨earlier, stretch, prior, uncut, held⟩ : ∃ earlier stretch, before = earlier ++ stretch ∧
      Uncut 2000 Read.ms Read.bytes earlier stretch ∧
      stretch.flatMap Read.bytes = (final segmenterStep .idle before).held := held_stretch before
  rw [← held]
  by_cases empty : r.bytes = []
  · have small := bursts earlier stretch (r :: after) (by rw [split, prior]) uncut
    simpa [empty] using small
  · have small := bursts earlier (stretch ++ [r]) after (by simp [split, prior])
      (uncut_data uncut empty)
    simpa using small

theorem receiver_follows (boot : Nat) {reads : List Read} (paced : Paced reads)
    (bursts : BurstsFit reads) :
    emitted Receiver.pass (.boot boot) reads = emitted segmenterStep .idle reads ∧
      Follows reads (final Receiver.pass (.boot boot) reads) (final segmenterStep .idle reads) := by
  have start : Follows [] (.boot boot) .idle := ⟨rfl, fun some => absurd rfl some⟩
  apply emitted_related start
  intro before r after split follows
  apply pass_follows follows _ (held_fits bursts split)
  intro p last
  obtain ⟨earlier, rfl⟩ := List.getLast?_eq_some_iff.mp last
  exact List.isChain_iff_forall_rel_of_append_cons_cons.mp paced (by simpa using split)

end GplugReceive
