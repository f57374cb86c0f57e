import Mathlib.Tactic.Common
import GplugMini.Receive

/- How the receive loop cuts the byte stream into cycles, and what it makes of a burst that
   does not fit its buffer. -/
namespace GplugSegmentation
open ByteText EmittingRun GapSegmenter GplugAggregator GplugReceive

theorem paced_before {before : List Read} (after : List Read)
    (paced : Paced (before ++ after)) : Paced before := (List.isChain_append.mp paced).1

theorem bursts_fit_before {before : List Read} (after : List Read)
    (bursts : BurstsFit (before ++ after)) : BurstsFit before := by
  intro earlier stretch rest split uncut
  exact bursts earlier stretch (rest ++ after) (by simp [split]) uncut

theorem bursts_fit_of_total {reads : List Read}
    (small : (reads.flatMap Read.bytes).length ≤ maxCycle) : BurstsFit reads := by
  intro before stretch after split _
  subst split
  simp only [List.flatMap_append, List.length_append] at small
  omega

/-- Nothing is lost, nothing repeated, and every buffer is taken at the first empty read
    2000 ms after the last data, whatever the 32-bit clock does in between. -/
theorem cycle_segmentation (boot : Nat) {reads : List Read} (paced : Paced reads)
    (bursts : BurstsFit reads) :
    (emitted Receiver.pass (.boot boot) reads).flatten ++
        (final Receiver.pass (.boot boot) reads).cycle = reads.flatMap Read.bytes ∧
      (∀ buffer ∈ emitted Receiver.pass (.boot boot) reads, buffer ≠ []) ∧
      ∀ before r after, reads = before ++ r :: after →
        (((final Receiver.pass (.boot boot) before).pass r).2 ≠ [] ↔
          Due 2000 Read.ms Read.bytes before r) := by
  obtain ⟨same, follows⟩ := receiver_follows boot paced bursts
  refine ⟨?_, ?_, ?_⟩
  · rw [same, follows.same]
    exact lossless reads
  · rw [same]
    exact taken_nonempty reads
  · intro before r after split
    have pacedNext : Paced (before ++ [r]) := paced_before after (by simpa [← split])
    have burstsNext : BurstsFit (before ++ [r]) :=
      bursts_fit_before after (by simpa [← split])
    have earlier := (receiver_follows boot (paced_before [r] pacedNext)
      (bursts_fit_before [r] burstsNext)).1
    have next := (receiver_follows boot pacedNext burstsNext).1
    rw [emitted_snoc, emitted_snoc, earlier] at next
    rw [List.append_cancel_left next]
    exact taken_iff_due before r

def wrapReads : List Read :=
  [⟨[0x7E, 0xA0], 4294966796000⟩, ⟨[], 4294967996000⟩, ⟨[], 4294968796999⟩, ⟨[], 4294969000000⟩]

theorem cycle_segmentation_wrap :
    (emitted Receiver.pass (.boot 0) wrapReads).flatten ++
        (final Receiver.pass (.boot 0) wrapReads).cycle = wrapReads.flatMap Read.bytes ∧
      (∀ buffer ∈ emitted Receiver.pass (.boot 0) wrapReads, buffer ≠ []) ∧
      ∀ before r after, wrapReads = before ++ r :: after →
        (((final Receiver.pass (.boot 0) before).pass r).2 ≠ [] ↔
          Due 2000 Read.ms Read.bytes before r) :=
  cycle_segmentation 0 (by decide) (bursts_fit_of_total (by decide))

/- A burst that crosses the limit. -/

/-- A burst arrives into an empty buffer in these reads, none of which ends the cycle, and
    the read that does hands this buffer to the decoder. -/
structure Delivered (burst handed : Bytes) (rx : Receiver) (reads : List Read) (close : Read) :
    Prop where
  empty : rx.cycle = []
  whole : reads.flatMap Read.bytes = burst
  sized : ∀ r ∈ reads, r.bytes.length ≤ chunkSize
  uncut : emitted Receiver.pass rx reads = []
  closing : ((final Receiver.pass rx reads).pass close).2 = [handed]

def Hands (burst handed : Bytes) : Prop := ∃ rx reads close, Delivered burst handed rx reads close

/-- Every way of reading the burst hands over its first bytes, up to the limit. -/
def ReadIndependent (burst : Bytes) : Prop :=
  ∀ one two, Hands burst one → Hands burst two → one = two ∧ one = burst.take maxCycle

theorem pass_taken {rx : Receiver} {r : Read} {handed : Bytes} (taken : (rx.pass r).2 = [handed]) :
    handed = rx.cycle := by
  unfold Receiver.pass at taken
  split at taken
  · simp at taken
  · split at taken
    · simpa using taken.symm
    · simp at taken

theorem pass_untaken {rx : Receiver} {r : Read} (untaken : (rx.pass r).2 = [])
    (fits : rx.cycle.length + r.bytes.length ≤ maxCycle) :
    (rx.pass r).1.cycle = rx.cycle ++ r.bytes := by
  by_cases returned : r.bytes ≠ []
  · rw [pass_data returned fits]
  · have empty : r.bytes = [] := by simpa using returned
    rw [Receiver.pass, if_neg returned] at untaken ⊢
    split at untaken
    · simp at untaken
    · rename_i quiet
      rw [if_neg quiet, empty, List.append_nil]

theorem uncut_buffer {rx : Receiver} {reads : List Read} (empty : rx.cycle = [])
    (uncut : emitted Receiver.pass rx reads = [])
    (fits : (reads.flatMap Read.bytes).length ≤ maxCycle) :
    (final Receiver.pass rx reads).cycle = reads.flatMap Read.bytes := by
  induction reads using List.reverseRecOn with
  | nil => exact empty
  | append_singleton reads r ih =>
    rw [emitted_snoc, List.append_eq_nil_iff] at uncut
    rw [List.flatMap_append, List.length_append] at fits
    have before := ih uncut.1 (by omega)
    have room : (final Receiver.pass rx reads).cycle.length + r.bytes.length ≤ maxCycle := by
      rw [before]
      simpa using fits
    rw [final_snoc, pass_untaken uncut.2 room, before]
    simp

def fill (cycle chunk : Bytes) : Bytes :=
  (if maxCycle < cycle.length + chunk.length then [] else cycle) ++ chunk

theorem fill_run (chunks : List Bytes) (some : ∀ chunk ∈ chunks, chunk ≠ []) (cycle : Bytes) :
    emitted Receiver.pass ⟨cycle, 0⟩ (chunks.map (⟨·, 0⟩)) = [] ∧
      final Receiver.pass ⟨cycle, 0⟩ (chunks.map (⟨·, 0⟩)) = ⟨chunks.foldl fill cycle, 0⟩ := by
  induction chunks generalizing cycle with
  | nil => exact ⟨rfl, rfl⟩
  | cons chunk chunks ih =>
    have filled : (Receiver.mk cycle 0).pass ⟨chunk, 0⟩ = (⟨fill cycle chunk, 0⟩, []) := by
      rw [Receiver.pass, if_pos (some chunk (by simp))]
      simp [Receiver.insert, fill, nowMs]
    obtain ⟨quiet, rest⟩ := ih (fun c member => some c (by simp [member])) (fill cycle chunk)
    simp [emitted, filled, quiet, rest]

theorem hands_chunks {chunks : List Bytes}
    (sized : ∀ chunk ∈ chunks, chunk ≠ [] ∧ chunk.length ≤ chunkSize)
    (left : chunks.foldl fill [] ≠ []) : Hands chunks.flatten (chunks.foldl fill []) := by
  obtain ⟨quiet, rest⟩ := fill_run chunks (fun chunk member => (sized chunk member).1) []
  refine ⟨⟨[], 0⟩, chunks.map (⟨·, 0⟩), ⟨[], 2000000⟩, rfl, ?_, ?_, quiet, ?_⟩
  · simp [List.flatMap_map, List.flatMap_id']
  · intro r member
    obtain ⟨chunk, listed, rfl⟩ := List.mem_map.mp member
    exact (sized chunk listed).2
  · have quietLongEnough : (Receiver.mk (chunks.foldl fill []) 0).ended ⟨[], 2000000⟩ = true := by
      have stamp : (Receiver.mk (chunks.foldl fill []) 0).lastByte = UInt32.ofNat 0 := rfl
      rw [ended_iff stamp (by omega) (by decide)]
      exact ⟨left, by decide⟩
    rw [rest, Receiver.pass, if_neg (by simp), if_pos quietLongEnough]

def oneByOne (bytes : Bytes) : List Bytes := bytes.map fun b => [b]

theorem one_by_one_flatten (bytes : Bytes) : (oneByOne bytes).flatten = bytes := by
  induction bytes with
  | nil => rfl
  | cons b bytes ih => simpa [oneByOne] using ih

theorem one_by_one_sized (bytes : Bytes) :
    ∀ chunk ∈ oneByOne bytes, chunk ≠ [] ∧ chunk.length ≤ chunkSize := by
  intro chunk member
  obtain ⟨b, _, rfl⟩ := List.mem_map.mp member
  exact ⟨by simp, by simp [chunkSize]⟩

theorem one_by_one_length (bytes cycle : Bytes) (held : cycle ≠ [])
    (inside : cycle.length ≤ maxCycle) :
    ((oneByOne bytes).foldl fill cycle).length =
      (cycle.length + bytes.length - 1) % maxCycle + 1 := by
  have some := List.length_pos_of_ne_nil held
  induction bytes generalizing cycle with
  | nil =>
    simp only [oneByOne, List.map_nil, List.foldl_nil, List.length_nil, maxCycle] at *
    omega
  | cons b bytes ih =>
    have next : (fill cycle [b]).length = cycle.length % maxCycle + 1 := by
      unfold fill
      split <;>
        simp only [maxCycle, List.length_append, List.length_nil, List.length_singleton] at * <;>
        omega
    change ((oneByOne bytes).foldl fill (fill cycle [b])).length = _
    have small : cycle.length % maxCycle < maxCycle := Nat.mod_lt _ (by decide)
    rw [ih (fill cycle [b]) (by simp [fill]) (by omega) (by omega), next]
    simp only [maxCycle, List.length_cons]
    omega

theorem one_by_one_filled {first : Bytes} (some : 0 < first.length)
    (inside : first.length ≤ maxCycle) :
    ((oneByOne first).foldl fill []).length = first.length := by
  obtain ⟨c, first, rfl⟩ := List.exists_cons_of_length_pos some
  have later := one_by_one_length first [c] (by simp) (by simp [maxCycle])
  change ((oneByOne first).foldl fill [c]).length = _
  simp only [List.length_cons, List.length_nil, maxCycle] at inside later ⊢
  omega

theorem long_burst_parts {burst : Bytes} (long : maxCycle < burst.length) :
    ∃ first a b rest, first.length = 2047 ∧ burst = first ++ a :: b :: rest := by
  have size : (burst.take 2047).length = 2047 := by
    simp only [List.length_take, maxCycle] at long ⊢
    omega
  have more : 2 ≤ (burst.drop 2047).length := by
    simp only [List.length_drop, maxCycle] at long ⊢
    omega
  match shape : burst.drop 2047, more with
  | a :: b :: rest, _ =>
    exact ⟨burst.take 2047, a, b, rest, size, by rw [← shape, List.take_append_drop]⟩

theorem two_deliveries {burst : Bytes} (long : maxCycle < burst.length) :
    ∃ one two, Hands burst one ∧ Hands burst two ∧
      one.length = (burst.length - 2049) % maxCycle + 1 ∧
      two.length = (burst.length - 2048) % maxCycle + 1 := by
  obtain ⟨first, a, b, rest, size, rfl⟩ := long_burst_parts long
  have filled : ((oneByOne first).foldl fill []).length = 2047 := by
    rw [one_by_one_filled (by omega) (by rw [size]; decide), size]
  -- one byte more fills the buffer, a pair starts it again
  let single := oneByOne (first ++ a :: b :: rest)
  let paired := oneByOne first ++ [a, b] :: oneByOne rest
  have singleLeft : (single.foldl fill []).length = rest.length % maxCycle + 1 := by
    have := one_by_one_length (a :: b :: rest) _ (List.ne_nil_of_length_eq_add_one filled)
      (by rw [filled]; decide)
    have parted : single = oneByOne first ++ oneByOne (a :: b :: rest) := List.map_append
    rw [parted, List.foldl_append, this, filled]
    simp only [List.length_cons, maxCycle]
    omega
  have pairedLeft : (paired.foldl fill []).length = (rest.length + 1) % maxCycle + 1 := by
    have beyond : fill ((oneByOne first).foldl fill []) [a, b] = [a, b] := by
      simp [fill, filled, maxCycle]
    have := one_by_one_length rest [a, b] (by simp) (by simp [maxCycle])
    simp only [paired, List.foldl_append, List.foldl_cons, beyond, List.length_cons,
      List.length_nil, maxCycle] at this ⊢
    omega
  refine ⟨single.foldl fill [], paired.foldl fill [], ?_, ?_, ?_, ?_⟩
  · have delivered := hands_chunks (one_by_one_sized (first ++ a :: b :: rest))
      (List.ne_nil_of_length_eq_add_one singleLeft)
    rwa [one_by_one_flatten] at delivered
  · have sized : ∀ chunk ∈ paired, chunk ≠ [] ∧ chunk.length ≤ chunkSize := by
      intro chunk member
      rcases List.mem_append.mp member with early | late
      · exact one_by_one_sized first chunk early
      · rcases List.mem_cons.mp late with rfl | later
        · exact ⟨by simp, by simp [chunkSize]⟩
        · exact one_by_one_sized rest chunk later
    have delivered := hands_chunks sized (List.ne_nil_of_length_eq_add_one pairedLeft)
    simpa [paired, one_by_one_flatten] using delivered
  · rw [singleLeft]
    simp only [List.length_append, List.length_cons, size, maxCycle]
    omega
  · rw [pairedLeft]
    simp only [List.length_append, List.length_cons, size, maxCycle]
    omega

theorem long_burst_dependent {burst : Bytes} (long : maxCycle < burst.length) :
    ¬ ReadIndependent burst := by
  intro independent
  obtain ⟨one, two, first, second, oneLength, twoLength⟩ := two_deliveries long
  have same := congrArg List.length (independent one two first second).1
  simp only [maxCycle] at long oneLength twoLength
  omega

theorem short_burst_handed {burst handed : Bytes} (short : burst.length ≤ maxCycle)
    (hands : Hands burst handed) : handed = burst := by
  obtain ⟨rx, reads, close, delivered⟩ := hands
  rw [pass_taken delivered.closing, uncut_buffer delivered.empty delivered.uncut
    (by rw [delivered.whole]; exact short), delivered.whole]

/-- The decoder gets the first 2048 bytes however the burst was read, exactly when the
    burst has no more than that. -/
theorem read_independent_iff (burst : Bytes) :
    ReadIndependent burst ↔ burst.length ≤ maxCycle := by
  constructor
  · intro independent
    by_contra long
    exact long_burst_dependent (by omega) independent
  · intro short one two first second
    have whole := short_burst_handed short first
    rw [List.take_of_length_le short]
    exact ⟨whole.trans (short_burst_handed short second).symm, whole⟩

/-- One byte over the limit: a single byte is left of the burst, or the last two. -/
theorem read_dependent_2049 :
    (∃ one two, Hands (List.replicate 2049 0x7E) one ∧ Hands (List.replicate 2049 0x7E) two ∧
      one.length = 1 ∧ two.length = 2) ∧
    ¬ ReadIndependent (List.replicate 2049 0x7E) := by
  have long : maxCycle < (List.replicate 2049 (0x7E : UInt8)).length := by
    rw [List.length_replicate]
    decide
  refine ⟨?_, long_burst_dependent long⟩
  obtain ⟨one, two, first, second, oneLength, twoLength⟩ := two_deliveries long
  rw [List.length_replicate] at oneLength twoLength
  exact ⟨one, two, first, second, oneLength, twoLength⟩

end GplugSegmentation
