import Mathlib.Tactic.Common
import GplugMini.Submission

/- The decoding of a field in its own array, against decoding it into a list of its own:
   which bytes the loop touches, and what it leaves in them. -/
namespace GplugInPlaceDecode
open ByteText FormCoding GplugConfig GplugProvisioning GplugSubmission

def reads (c : Cursor) : List Nat :=
  if c.byte 0 = percent then
    if c.byte 1 = 0 then [c.r, c.r + 1] else [c.r, c.r + 1, c.r + 2]
  else [c.r]

/-- The terminator behind the loop goes where the next byte would have gone. -/
def touched (c : Cursor) : List Nat := c.w :: reads c

inductive Reached (array : Bytes) : Cursor → Prop
  | start : Reached array ⟨array, 0, 0⟩
  | turn {c : Cursor} : Reached array c → c.byte 0 ≠ 0 → Reached array c.step

theorem loop_reached {array : Bytes} {c : Cursor} (reached : Reached array c) (fuel : Nat) :
    Reached array (decodeLoop fuel c) := by
  induction fuel generalizing c with
  | zero => exact reached
  | succ fuel ih =>
    rw [decodeLoop]
    split
    · exact reached
    · rename_i live
      exact ih (.turn reached live)

theorem reached_length {array : Bytes} {c : Cursor} (reached : Reached array c) :
    c.s.length = array.length := by
  induction reached with
  | start => rfl
  | turn _ _ ih => rw [Cursor.step, List.length_set, ih]

variable {text tail : Bytes}

theorem decoding_place {c : Cursor} {out : Bytes} (decoding : c.Decoding out text tail) :
    c.w ≤ c.r ∧ c.r + text.length + 1 + tail.length = c.s.length := by
  obtain ⟨gap, whole, write, read⟩ := decoding
  have size := congrArg List.length whole
  simp only [List.length_append, List.length_cons] at size
  omega

theorem reached_decoding (free : NulFree text) {c : Cursor}
    (reached : Reached (text ++ 0 :: tail) c) :
    ∃ out ahead, c.Decoding out ahead tail ∧ NulFree ahead := by
  induction reached with
  | start => exact ⟨[], text, ⟨[], by simp⟩, free⟩
  | @turn c _ live ih =>
    obtain ⟨out, ahead, decoding, free⟩ := ih
    have more : ahead ≠ [] := by
      rintro rfl
      exact live (decoding_byte decoding 0)
    obtain ⟨v, n, next, _, _⟩ := step_decodes free more decoding
    refine ⟨out ++ [v], ahead.drop (n + 1), next, ?_⟩
    intro b member
    exact free b (List.mem_of_mem_drop member)

theorem reads_within {c : Cursor} {out : Bytes} (decoding : c.Decoding out text tail) :
    ∀ i ∈ reads c, i ≤ c.r + text.length := by
  have byte := decoding_byte decoding
  intro i member
  unfold reads at member
  split at member
  · rename_i sign
    rw [byte] at sign
    have one : 1 ≤ text.length := by
      by_contra none
      have empty : text = [] := List.length_eq_zero_iff.mp (by omega)
      rw [empty] at sign
      exact absurd sign (by simp [percent])
    split at member
    · simp only [List.mem_cons, List.not_mem_nil, or_false] at member
      omega
    · rename_i second
      have two : 2 ≤ text.length := by
        by_contra short
        obtain ⟨b, single⟩ := List.length_eq_one_iff.mp (show text.length = 1 by omega)
        rw [byte, single] at second
        exact second rfl
      simp only [List.mem_cons, List.not_mem_nil, or_false] at member
      omega
  · simp only [List.mem_cons, List.not_mem_nil, or_false] at member
    omega

theorem touched_within (free : NulFree text) {c : Cursor}
    (reached : Reached (text ++ 0 :: tail) c) :
    c.w ≤ c.r ∧ ∀ i ∈ touched c, i ≤ text.length := by
  obtain ⟨out, ahead, decoding, _⟩ := reached_decoding free reached
  obtain ⟨behind, place⟩ := decoding_place decoding
  have size := reached_length reached
  simp only [List.length_append, List.length_cons] at size
  refine ⟨behind, ?_⟩
  intro i member
  rcases List.mem_cons.mp member with write | read
  · omega
  · have := reads_within decoding i read
    omega

theorem loop_stops (free : NulFree text) :
    (decodeLoop (text ++ 0 :: tail).length ⟨text ++ 0 :: tail, 0, 0⟩).byte 0 = 0 := by
  have start : (Cursor.mk (text ++ 0 :: tail) 0 0).Decoding [] text tail := ⟨[], by simp⟩
  have enough : text.length < (text ++ 0 :: tail).length := by simp
  exact decoding_byte (loop_decodes _ free enough start) 0

theorem url_decode_encoded {s coded : Bytes} (encodes : Encodes s coded) (free : NulFree s)
    (tail : Bytes) :
    ∃ stale, urlDecode (coded ++ 0 :: tail) = (s ++ 0 :: (stale ++ tail), s.length) := by
  obtain ⟨stale, result, _⟩ := url_decode_in_place (encodes_nul_free encodes free) tail
  rw [decodes_form_decode (encodes_decodes encodes)] at result
  exact ⟨stale, result⟩

theorem url_decode_decodes (free : NulFree text) (out : Bytes) :
    Decodes text out ↔ ∃ rest, urlDecode (text ++ 0 :: tail) = (out ++ 0 :: rest, out.length) := by
  obtain ⟨stale, result, _⟩ := url_decode_in_place free tail
  rw [result]
  constructor
  · intro decodes
    rw [decodes_form_decode decodes]
    exact ⟨_, rfl⟩
  · rintro ⟨rest, same⟩
    obtain ⟨whole, length⟩ := Prod.mk.inj same
    rw [← (List.append_inj whole length).1]
    exact form_decode_decodes text

theorem url_decode_frame (free : NulFree text) :
    (urlDecode (text ++ 0 :: tail)).1.drop (text.length + 1) = tail := by
  obtain ⟨stale, result, size⟩ := url_decode_in_place free tail
  have front : text.length + 1 = (formDecode text ++ 0 :: stale).length := by
    rw [List.length_append, List.length_cons]
    omega
  have regroup : formDecode text ++ 0 :: (stale ++ tail) =
      (formDecode text ++ 0 :: stale) ++ tail := by simp
  rw [result, front, regroup, List.drop_left]

/-- A text without NUL together with one of the ways to encode it. -/
structure Encoded where
  text : Bytes
  coded : Bytes
  free : NulFree text
  encodes : Encodes text coded

theorem field_nul_free (c : Config) (k : Key) : NulFree (c.get k).text := (c.get k).free

theorem field_encodes (c : Config) (k : Key) : Encodes (c.get k).text (encoded c k) :=
  form_encode_encodes browser (c.get k).text

def Encoded.submitted (c : Config) (k : Key) : Encoded where
  text := (c.get k).text
  coded := encoded c k
  free := field_nul_free c k
  encodes := field_encodes c k

theorem submitted_decoded (c : Config) (k : Key) (tail : Bytes) :
    ∃ stale, urlDecode (encoded c k ++ 0 :: tail) =
      ((c.get k).text ++ 0 :: (stale ++ tail), (c.get k).text.length) :=
  url_decode_encoded (Encoded.submitted c k).encodes (Encoded.submitted c k).free tail

theorem url_decode_as_apart :
    (∀ (cap : Nat) (buffer : Terminated cap) (c : Cursor), Reached buffer.array c →
      c.w ≤ c.r ∧ ∀ i ∈ touched c, i ≤ (cstr buffer.array).length) ∧
    (∀ (cap : Nat) (buffer : Terminated cap),
      (∃ c, Reached buffer.array c ∧ c.byte 0 = 0 ∧
        urlDecode buffer.array = (c.s.set c.w 0, c.w)) ∧
      (∀ out, Decodes (cstr buffer.array) out ↔
        ∃ rest, urlDecode buffer.array = (out ++ 0 :: rest, out.length)) ∧
      (urlDecode buffer.array).2 ≤ (cstr buffer.array).length ∧
      (urlDecode buffer.array).1.drop ((cstr buffer.array).length + 1) =
        buffer.array.drop ((cstr buffer.array).length + 1)) ∧
    (∀ (e : Encoded) (tail : Bytes), ∃ rest,
      urlDecode (e.coded ++ 0 :: tail) = (e.text ++ 0 :: rest, e.text.length)) := by
  refine ⟨?_, ?_, ?_⟩
  · intro cap buffer c reached
    obtain ⟨tail, split⟩ := cstr_ended buffer.ended
    rw [split] at reached
    exact touched_within (cstr_nul_free buffer.array) reached
  · intro cap buffer
    obtain ⟨tail, split⟩ := cstr_ended buffer.ended
    have free := cstr_nul_free buffer.array
    obtain ⟨stale, result, size⟩ := url_decode_in_place free tail
    rw [← split] at result
    refine ⟨⟨_, loop_reached .start _, ?_, rfl⟩, ?_, ?_, ?_⟩
    · rw [split]
      exact loop_stops free
    · intro out
      rw [split, cstr_append_nul free]
      exact url_decode_decodes free out
    · rw [result]
      change (formDecode _).length ≤ _
      omega
    · have behind : buffer.array.drop ((cstr buffer.array).length + 1) = tail := by
        conv_lhs => rw [split, cstr_append_nul free, List.append_cons]
        exact List.drop_left' (by simp)
      rw [behind]
      conv_lhs => rw [split, cstr_append_nul free]
      exact url_decode_frame free
  · intro e tail
    obtain ⟨stale, result⟩ := url_decode_encoded e.encodes e.free tail
    exact ⟨_, result⟩

example : cstr (urlDecode (ascii "x+%4a%zz%2" ++ [0])).1 = ascii "x J%zz%2" := by decide

end GplugInPlaceDecode
