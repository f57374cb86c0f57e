import Mathlib.Tactic.Common
import GplugMini.LineProbe
import GplugMini.Library.HexText

/- The simulated meter: the capture embedded as text, and its replay into the main loop. -/
namespace GplugSimSource
open ByteText FormCoding HexText EmittingRun GplugAggregator GplugReceive GplugMainLoop
open GplugLineProbe

def cycleGap : Nat := 10000

def digitOf (c : UInt8) : Option UInt8 :=
  if 48 ≤ c && c ≤ 57 then some (c - 48)
  else if 65 ≤ c && c ≤ 70 then some (c - 65 + 10)
  else if 97 ≤ c && c ≤ 102 then some (c - 97 + 10)
  else none

structure HexScan where
  capture : Bytes
  byte : UInt8
  nibbles : Nat

def HexScan.step (s : HexScan) (c : UInt8) : HexScan :=
  match digitOf c with
  | none => s
  | some v =>
      let byte := s.byte <<< 4 ||| v
      if s.nibbles + 1 = 2 then ⟨s.capture ++ [byte], 0, 0⟩
      else ⟨s.capture, byte, s.nibbles + 1⟩

def parseHex (text : Bytes) : Bytes := (text.foldl HexScan.step ⟨[], 0, 0⟩).capture

structure SimSource where
  capture : Bytes
  pos : Nat
  gapPending : Bool
  deriving DecidableEq, Repr

def SimSource.start (text : Bytes) : SimSource := ⟨parseHex text, 0, false⟩

/-- What one call returns, and the milliseconds it was asked to sleep for. -/
structure Taken where
  source : SimSource
  bytes : Bytes
  slept : Nat

def SimSource.read (s : SimSource) (max timeoutMs : Nat) : Taken :=
  if s.capture = [] then ⟨s, [], timeoutMs⟩
  else if s.gapPending then ⟨{ s with gapPending := false, pos := 0 }, [], cycleGap⟩
  else
    let n := min max (s.capture.length - s.pos)
    let pos := s.pos + n
    ⟨{ s with pos, gapPending := if s.capture.length ≤ pos then true else s.gapPending },
      (s.capture.drop s.pos).take n, 0⟩

def SimSource.next (s : SimSource) : Taken := s.read chunkSize 200

def simReads : SimSource → List Nat → List Read
  | _, [] => []
  | s, micros :: rest => ⟨s.next.bytes, micros⟩ :: simReads s.next.source rest

/-- A pass takes at least the time it sleeps, less one tick of the scheduler, and never
    2^31 ms. -/
def Timed (tick : Nat) : SimSource → Nat → List Nat → Prop
  | _, _, [] => True
  | s, before, micros :: rest =>
      before / 1000 + (s.next.slept - tick) ≤ micros / 1000 ∧
        micros / 1000 < before / 1000 + 2 ^ 31 ∧ Timed tick s.next.source micros rest

instance decideTimed (tick : Nat) : ∀ s before stamps, Decidable (Timed tick s before stamps)
  | _, _, [] => isTrue trivial
  | s, _, micros :: rest =>
      have := decideTimed tick s.next.source micros rest
      inferInstanceAs (Decidable (_ ∧ _ ∧ _))

def buffered (capture : Bytes) (pos : Nat) : Bytes :=
  (capture.take pos).drop (maxCycle * ((pos - 1) / maxCycle))

def handed (capture : Bytes) : Bytes := buffered capture capture.length

def chunksOf (capture : Bytes) : Nat := (capture.length + 255) / chunkSize

theorem digit_of_eq (c : UInt8) : digitOf c = hexValue c := by
  have every : ∀ n < 256, digitOf (UInt8.ofNat n) = hexValue (UInt8.ofNat n) := by
    decide +kernel
  have same := every c.toNat c.toNat_lt
  rwa [UInt8.ofNat_toNat] at same

theorem shifted_in {high low : UInt8} (top : high < 16) (next : low < 16) :
    high <<< 4 ||| low = high * 16 + low := by
  have every : ∀ h < 16, ∀ l < 16, UInt8.ofNat h <<< 4 ||| UInt8.ofNat l =
      UInt8.ofNat h * 16 + UInt8.ofNat l := by decide
  have same := every high.toNat (UInt8.lt_iff_toNat_lt.mp top) low.toNat
    (UInt8.lt_iff_toNat_lt.mp next)
  rwa [UInt8.ofNat_toNat, UInt8.ofNat_toNat] at same

theorem scan_blank {s : HexScan} {c : UInt8} (blank : hexValue c = none) : s.step c = s := by
  rw [HexScan.step, digit_of_eq, blank]

theorem scan_pairs (text capture : Bytes) :
    (text.foldl HexScan.step ⟨capture, 0, 0⟩).capture = capture ++ pairs (digits text) ∧
      ∀ high < 16, (text.foldl HexScan.step ⟨capture, high, 1⟩).capture =
        capture ++ pairs (high :: digits text) := by
  induction text generalizing capture with
  | nil => simp [digits, pairs]
  | cons c text ih =>
    obtain ⟨between, inside⟩ := ih capture
    cases value : hexValue c with
    | none =>
      have skipped : digits (c :: text) = digits text := List.filterMap_cons_none value
      rw [skipped, List.foldl_cons, scan_blank value]
      refine ⟨between, ?_⟩
      intro high top
      rw [List.foldl_cons, scan_blank value]
      exact inside high top
    | some v =>
      have taken : digits (c :: text) = v :: digits text := List.filterMap_cons_some value
      have small : v < 16 := digits_hex (taken ▸ List.mem_cons_self)
      rw [taken, List.foldl_cons]
      constructor
      · have first : HexScan.step ⟨capture, 0, 0⟩ c = ⟨capture, v, 1⟩ := by
          simp [HexScan.step, digit_of_eq, value]
        rw [first]
        exact inside v small
      · intro high top
        have second : HexScan.step ⟨capture, high, 1⟩ c = ⟨capture ++ [high * 16 + v], 0, 0⟩ := by
          simp [HexScan.step, digit_of_eq, value, shifted_in top small]
        rw [List.foldl_cons, second, (ih _).1, pairs, List.append_assoc, List.singleton_append]

theorem parse_hex_reads (text : Bytes) : parseHex text = readHex text := by
  rw [parseHex, (scan_pairs text []).1, List.nil_append, readHex]

/- One replay, chunk by chunk. -/

theorem buffered_length {pos : Nat} {capture : Bytes} (inside : pos ≤ capture.length) :
    (buffered capture pos).length = pos - maxCycle * ((pos - 1) / maxCycle) := by
  simp only [buffered, List.length_drop, List.length_take]
  omega

theorem buffered_chunk {capture : Bytes} {i n : Nat} (positive : 0 < n) (small : n ≤ chunkSize)
    (inside : chunkSize * i + n ≤ capture.length) :
    (if maxCycle < (buffered capture (chunkSize * i)).length + n then []
      else buffered capture (chunkSize * i)) ++ (capture.drop (chunkSize * i)).take n =
      buffered capture (chunkSize * i + n) := by
  have size : (buffered capture (chunkSize * i)).length = _ := buffered_length (by omega)
  have grown : capture.take (chunkSize * i + n) =
      capture.take (chunkSize * i) ++ (capture.drop (chunkSize * i)).take n := List.take_add
  have front : (capture.take (chunkSize * i)).length = chunkSize * i := by
    rw [List.length_take]
    omega
  by_cases full : 256 * i = 0 ∨ 256 * i % 2048 ≠ 0
  · have fits : ¬ maxCycle < (buffered capture (chunkSize * i)).length + n := by
      rw [size]
      simp only [maxCycle, chunkSize] at small ⊢
      omega
    have same : (chunkSize * i + n - 1) / maxCycle = (chunkSize * i - 1) / maxCycle := by
      simp only [maxCycle, chunkSize] at small ⊢
      omega
    have before : maxCycle * ((chunkSize * i - 1) / maxCycle) ≤ chunkSize * i := by
      simp only [maxCycle, chunkSize]
      omega
    rw [if_neg fits, buffered, buffered, grown, same, List.drop_append_of_le_length (by omega)]
  · have above : maxCycle < (buffered capture (chunkSize * i)).length + n := by
      rw [size]
      simp only [maxCycle, chunkSize]
      omega
    have whole : maxCycle * ((chunkSize * i + n - 1) / maxCycle) = chunkSize * i := by
      simp only [maxCycle, chunkSize] at small ⊢
      omega
    rw [if_pos above, List.nil_append, buffered, grown, whole, List.drop_left' front]

structure Replaying (capture : Bytes) (i : Nat) (before : Nat) (s : SimSource) (rx : Receiver) :
    Prop where
  source : s = ⟨capture, min (chunkSize * i) capture.length, decide (i = chunksOf capture)⟩
  inside : i ≤ chunksOf capture
  cycle : rx.cycle = buffered capture s.pos
  stamp : i ≠ 0 → rx.lastByte = nowMs before

section
variable {capture : Bytes} {i before micros : Nat} {s : SimSource} {rx : Receiver}

theorem chunks_cover (nonempty : capture ≠ []) :
    0 < chunksOf capture ∧ (∀ i < chunksOf capture, chunkSize * i < capture.length) ∧
      capture.length ≤ chunkSize * chunksOf capture := by
  have length := List.length_pos_iff.mpr nonempty
  simp only [chunksOf, chunkSize]
  refine ⟨by omega, ?_, by omega⟩
  intro i early
  omega

theorem chunk_replays (nonempty : capture ≠ []) (replaying : Replaying capture i before s rx)
    (early : i < chunksOf capture) (micros : Nat) :
    s.next.slept = 0 ∧ (rx.pass ⟨s.next.bytes, micros⟩).2 = [] ∧
      Replaying capture (i + 1) micros s.next.source (rx.pass ⟨s.next.bytes, micros⟩).1 := by
  obtain ⟨_, within, cover⟩ := chunks_cover nonempty
  have begun := within i early
  have position : min (chunkSize * i) capture.length = chunkSize * i := by omega
  have source : s = ⟨capture, chunkSize * i, false⟩ := by
    rw [replaying.source, position, decide_eq_false (by omega)]
  let n := min chunkSize (capture.length - chunkSize * i)
  have room : 0 < n ∧ n ≤ chunkSize ∧ chunkSize * i + n ≤ capture.length := by
    simp only [n, chunkSize] at begun ⊢
    omega
  have reached : chunkSize * i + n = min (chunkSize * (i + 1)) capture.length := by
    simp only [n, chunkSize] at begun ⊢
    omega
  have done : capture.length ≤ chunkSize * i + n ↔ i + 1 = chunksOf capture := by
    simp only [n, chunksOf, chunkSize] at begun early ⊢
    omega
  have read : s.next = ⟨⟨capture, chunkSize * i + n, decide (i + 1 = chunksOf capture)⟩,
      (capture.drop (chunkSize * i)).take n, 0⟩ := by
    rw [source, SimSource.next, SimSource.read, if_neg nonempty, if_neg Bool.false_ne_true]
    simp only [n, done]
    congr 2
  have length : ((capture.drop (chunkSize * i)).take n).length = n := by
    rw [List.length_take, List.length_drop]
    omega
  have returned : (capture.drop (chunkSize * i)).take n ≠ [] :=
    List.ne_nil_of_length_pos (by omega)
  have held : rx.cycle = buffered capture (chunkSize * i) := by rw [replaying.cycle, source]
  rw [read, Receiver.pass, if_pos returned, Receiver.insert, length, held,
    buffered_chunk room.1 room.2.1 room.2.2]
  exact ⟨rfl, rfl, ⟨by rw [← reached], by omega, rfl, fun _ => rfl⟩⟩

theorem handed_nonempty (nonempty : capture ≠ []) : handed capture ≠ [] := by
  have length := List.length_pos_iff.mpr nonempty
  apply List.ne_nil_of_length_pos
  rw [handed, buffered_length (Nat.le_refl _)]
  simp only [maxCycle]
  omega

theorem silence_ends {tick : Nat} (nonempty : capture ≠ []) (short : tick ≤ cycleGap - 2000)
    (replaying : Replaying capture (chunksOf capture) before s rx)
    (slept : before / 1000 + (s.next.slept - tick) ≤ micros / 1000)
    (near : micros / 1000 < before / 1000 + 2 ^ 31) :
    (rx.pass ⟨s.next.bytes, micros⟩).2 = [handed capture] ∧
      Replaying capture 0 micros s.next.source (rx.pass ⟨s.next.bytes, micros⟩).1 := by
  obtain ⟨positive, _, cover⟩ := chunks_cover nonempty
  have source : s = ⟨capture, capture.length, true⟩ := by
    rw [replaying.source, Nat.min_eq_right cover, decide_eq_true rfl]
  have read : s.next = ⟨⟨capture, 0, false⟩, [], cycleGap⟩ := by
    rw [source, SimSource.next, SimSource.read, if_neg nonempty, if_pos rfl]
  have held : rx.cycle = handed capture := by rw [replaying.cycle, source, handed]
  rw [read] at slept ⊢
  have late : before / 1000 + 2000 ≤ micros / 1000 := by
    simp only [cycleGap] at slept short
    omega
  have ends : rx.ended ⟨[], micros⟩ = true := by
    have stamp := replaying.stamp (by omega)
    rw [nowMs] at stamp
    have now : (Read.mk [] micros).ms = micros / 1000 := rfl
    rw [ended_iff stamp (by omega) (by omega), held]
    exact ⟨handed_nonempty nonempty, by omega⟩
  rw [Receiver.pass, if_neg (by simp), if_pos ends, held]
  have nothing : buffered capture 0 = [] := by simp [buffered]
  refine ⟨rfl, ⟨?_, Nat.zero_le _, nothing.symm, fun later => absurd rfl later⟩⟩
  rw [decide_eq_false (by omega)]
  simp

theorem replay_run {tick : Nat} (nonempty : capture ≠ []) (short : tick ≤ cycleGap - 2000)
    {stamps : List Nat} (replaying : Replaying capture i before s rx)
    (timed : Timed tick s before stamps) :
    emitted Receiver.pass rx (simReads s stamps) =
      List.replicate ((stamps.length + i) / (chunksOf capture + 1)) (handed capture) := by
  induction stamps generalizing i before s rx with
  | nil =>
    have inside := replaying.inside
    have few : i / (chunksOf capture + 1) = 0 := Nat.div_eq_of_lt (by omega)
    simp [simReads, few]
  | cons micros rest ih =>
    obtain ⟨slept, near, later⟩ := timed
    rw [simReads, emitted]
    by_cases early : i < chunksOf capture
    · obtain ⟨_, quiet, next⟩ := chunk_replays nonempty replaying early micros
      rw [quiet, ih next later, List.nil_append, List.length_cons]
      congr 2
      omega
    · obtain rfl : i = chunksOf capture := by have := replaying.inside; omega
      obtain ⟨taken, next⟩ := silence_ends nonempty short replaying slept near
      rw [taken, ih next later, List.singleton_append, ← List.replicate_succ, List.length_cons]
      congr 1
      rw [Nat.add_zero, Nat.add_right_comm, Nat.add_assoc, Nat.add_div_right _ (by omega)]
      rfl

end

theorem replay_starts {text : Bytes} (nonempty : parseHex text ≠ []) (boot : Nat) :
    Replaying (parseHex text) 0 boot (.start text) (.boot boot) := by
  have length := List.length_pos_iff.mpr nonempty
  have begun : (0 = chunksOf (parseHex text)) = False := by
    simp only [chunksOf, chunkSize, eq_iff_iff, iff_false]
    omega
  exact ⟨by simp [SimSource.start, begun], Nat.zero_le _,
    by simp [SimSource.start, buffered, Receiver.boot], fun later => absurd rfl later⟩

theorem silent_run (pos : Nat) (gap : Bool) (rx : Receiver) (empty : rx.cycle = [])
    (stamps : List Nat) : emitted Receiver.pass rx (simReads ⟨[], pos, gap⟩ stamps) = [] := by
  induction stamps with
  | nil => rfl
  | cons micros rest ih =>
    have quiet : rx.pass ⟨[], micros⟩ = (rx, []) := by
      simp [Receiver.pass, Receiver.ended, cycleEnded, empty]
    have asleep : (SimSource.mk [] pos gap).next = ⟨⟨[], pos, gap⟩, [], 200⟩ := rfl
    rw [simReads, asleep, emitted, quiet, ih, List.append_nil]

section
variable {Parser : Type} (parse : Parser → Bytes → ParseOut Parser) (mac : Bytes)

theorem boundaries_received (s : LoopState Parser) (passes : List Pass) :
    (emitted (watch parse mac) s passes).map Boundary.received =
      emitted Receiver.pass s.rx (passes.map Pass.read) := by
  induction passes generalizing s with
  | nil => rfl
  | cons p passes ih =>
    have same := pass_receives parse mac s p
    rw [emitted, watch, List.map_append, ih, same.1, List.map_cons, emitted, ← same.2]
    congr 1
    split <;> rfl

/-- Every replay of the simulated meter reaches the parser as one cycle, the same each time:
    the capture, when it fits the buffer, and else all of it since the last discard. -/
theorem replay_cycles (text : Bytes) {tick : Nat} (short : tick ≤ cycleGap - 2000) (boot : Nat)
    (parser : Parser) (passes : List Pass)
    (fed : passes.map Pass.read =
      simReads (.start text) (passes.map fun p => p.read.micros))
    (timed : Timed tick (.start text) boot (passes.map fun p => p.read.micros)) :
    (boundaries parse mac boot parser passes).map Boundary.received =
        (if parseHex text = [] then []
          else List.replicate (passes.length / (chunksOf (parseHex text) + 1))
            (handed (parseHex text))) ∧
      (handed (parseHex text) = parseHex text ↔ (parseHex text).length ≤ maxCycle) := by
  constructor
  · rw [boundaries, boundaries_received, fed]
    have start : (LoopState.boot boot parser).rx = .boot boot := rfl
    rw [start]
    by_cases empty : parseHex text = []
    · rw [if_pos empty, SimSource.start, empty]
      exact silent_run 0 false _ rfl _
    · rw [if_neg empty]
      rw [replay_run empty short (replay_starts empty boot) timed, List.length_map, Nat.add_zero]
  · constructor
    · intro whole
      have size := congrArg List.length whole
      rw [handed, buffered_length (Nat.le_refl _)] at size
      simp only [maxCycle] at size ⊢
      omega
    · intro fits
      have uncut : maxCycle * (((parseHex text).length - 1) / maxCycle) = 0 := by
        simp only [maxCycle] at fits ⊢
        omega
      rw [handed, buffered, uncut, List.take_length, List.drop_zero]

end

def fixture : Bytes := ascii "7e A\n0\n1"

def twice : List Pass :=
  [burstAt [0x7E, 0xA0] 5000, quietAt 9996000, burstAt [0x7E, 0xA0] 9996400, quietAt 19996400]

theorem replay_cycles_twice :
    (boundaries closeUp [] 0 () twice).map Boundary.received = [[0x7E, 0xA0], [0x7E, 0xA0]] ∧
      parseHex fixture = [0x7E, 0xA0] := by
  have read : parseHex fixture = [0x7E, 0xA0] := by decide
  have short : 10 ≤ cycleGap - 2000 := by decide
  have cycles := (replay_cycles closeUp [] fixture short 0 () twice (by decide) (by decide)).1
  rw [read] at cycles
  exact ⟨cycles, read⟩

end GplugSimSource
