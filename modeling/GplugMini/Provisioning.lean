import Mathlib.Tactic.Common
import GplugMini.ConfigStore
import GplugMini.Library.FormCoding

/- The portal's side of a submission: the body is read, the four fields are found in it and
   decoded in their arrays, and the record they make is checked and stored. -/
namespace GplugProvisioning
open ByteText CallTree FormCoding GplugConfig GplugConfigStore

def wpa2MinPassphrase : Nat := 8

structure Cursor where
  s : Bytes
  w : Nat
  r : Nat

def Cursor.byte (c : Cursor) (ahead : Nat) : UInt8 := c.s.getD (c.r + ahead) 0

def Cursor.turn (c : Cursor) : UInt8 × Nat :=
  if c.byte 0 = plus then (space, 1)
  else if c.byte 0 = percent ∧ c.byte 1 ≠ 0 ∧ c.byte 2 ≠ 0 then
    match hexValue (c.byte 1), hexValue (c.byte 2) with
    | some hi, some lo => (hi * 16 + lo, 3)
    | _, _ => (c.byte 0, 1)
  else (c.byte 0, 1)

def Cursor.step (c : Cursor) : Cursor :=
  ⟨c.s.set c.w c.turn.1, c.w + 1, c.r + c.turn.2⟩

def decodeLoop : Nat → Cursor → Cursor
  | 0, c => c
  | fuel + 1, c => if c.byte 0 = 0 then c else decodeLoop fuel c.step

def urlDecode (s : Bytes) : Bytes × Nat :=
  let c := decodeLoop s.length ⟨s, 0, 0⟩
  (c.s.set c.w 0, c.w)

/-- The array holds what is decoded so far, bytes no longer needed, and the text to come. -/
def Cursor.Decoding (c : Cursor) (out text tail : Bytes) : Prop :=
  ∃ gap, c.s = out ++ (gap ++ (text ++ 0 :: tail)) ∧ c.w = out.length ∧
    c.r = out.length + gap.length

variable {c : Cursor} {out text tail : Bytes}

theorem decoding_byte (decoding : c.Decoding out text tail) (ahead : Nat) :
    c.byte ahead = (text ++ 0 :: tail).getD ahead 0 := by
  obtain ⟨gap, whole, _, read⟩ := decoding
  rw [Cursor.byte, whole, read, List.getD_eq_getElem?_getD, List.getD_eq_getElem?_getD,
    List.getElem?_append_right (by omega), List.getElem?_append_right (by omega)]
  congr 2
  omega

theorem turn_decodes (free : NulFree text) (more : text ≠ [])
    (decoding : c.Decoding out text tail) :
    ∃ v n, c.turn = (v, n + 1) ∧ n < text.length ∧
      formDecode text = v :: formDecode (text.drop (n + 1)) := by
  have byte := decoding_byte decoding
  match text with
  | [] => exact absurd rfl more
  | [b] =>
    have first : c.byte 0 = b := byte 0
    have second : c.byte 1 = 0 := byte 1
    refine ⟨if b = plus then space else b, 0, ?_, by simp, rfl⟩
    rw [Cursor.turn, first, second]
    split <;> simp
  | [b, h] =>
    have first : c.byte 0 = b := byte 0
    have third : c.byte 2 = 0 := byte 2
    refine ⟨if b = plus then space else b, 0, ?_, by simp, rfl⟩
    rw [Cursor.turn, first, third]
    split <;> simp
  | b :: h :: l :: rest =>
    have first : c.byte 0 = b := byte 0
    have second : c.byte 1 = h := byte 1
    have third : c.byte 2 = l := byte 2
    simp only [nul_free_cons] at free
    rw [Cursor.turn, first, second, third, formDecode]
    by_cases blank : b = plus
    · exact ⟨space, 0, by rw [if_pos blank], by simp, by rw [if_pos blank]; rfl⟩
    · by_cases escape : b = percent
      · rw [if_neg blank, if_pos ⟨escape, free.2.1, free.2.2.1⟩, if_neg blank, if_pos escape]
        cases high : hexValue h with
        | none => exact ⟨b, 0, rfl, by simp, rfl⟩
        | some hi =>
          cases low : hexValue l with
          | none => exact ⟨b, 0, rfl, by simp, rfl⟩
          | some lo => exact ⟨hi * 16 + lo, 2, rfl, by simp, rfl⟩
      · refine ⟨b, 0, ?_, by simp, ?_⟩
        · rw [if_neg blank, if_neg fun both => escape both.1]
        · rw [if_neg blank, if_neg escape]
          rfl

theorem step_decodes (free : NulFree text) (more : text ≠ [])
    (decoding : c.Decoding out text tail) :
    ∃ v n, c.step.Decoding (out ++ [v]) (text.drop (n + 1)) tail ∧ n < text.length ∧
      formDecode text = v :: formDecode (text.drop (n + 1)) := by
  obtain ⟨v, n, turned, short, decoded⟩ := turn_decodes free more decoding
  refine ⟨v, n, ?_, short, decoded⟩
  obtain ⟨gap, whole, write, read⟩ := decoding
  -- The write falls on the first byte of what the read position has passed.
  obtain ⟨x, passed, split⟩ : ∃ x passed, gap ++ text.take (n + 1) = x :: passed := by
    apply List.exists_cons_of_ne_nil
    simp [more]
  refine ⟨passed, ?_, ?_, ?_⟩
  · have regroup : c.s = out ++ (x :: passed ++ (text.drop (n + 1) ++ 0 :: tail)) := by
      rw [whole, ← split, List.append_assoc, ← List.append_assoc (text.take _),
        List.take_append_drop]
    simp [Cursor.step, regroup, write, turned]
  · simp [Cursor.step, write]
  · have := congrArg List.length split
    simp only [List.length_append, List.length_take, List.length_cons] at this
    simp only [Cursor.step, read, turned, List.length_append, List.length_singleton]
    omega

theorem loop_decodes (fuel : Nat) (free : NulFree text) (enough : text.length < fuel)
    (decoding : c.Decoding out text tail) :
    (decodeLoop fuel c).Decoding (out ++ formDecode text) [] tail := by
  induction fuel generalizing c out text with
  | zero => omega
  | succ fuel ih =>
    have here : c.byte 0 = (text ++ 0 :: tail).getD 0 0 := decoding_byte decoding 0
    by_cases more : text = []
    · subst more
      rw [decodeLoop, if_pos (by simpa using here), formDecode, List.append_nil]
      exact decoding
    · have live : c.byte 0 ≠ 0 := by
        obtain ⟨b, rest, rfl⟩ := List.exists_cons_of_ne_nil more
        rw [here]
        exact free b List.mem_cons_self
      obtain ⟨v, n, next, short, decoded⟩ := step_decodes free more decoding
      have rest : NulFree (text.drop (n + 1)) := by
        intro b member
        exact free b (List.mem_of_mem_drop member)
      rw [decodeLoop, if_neg live, decoded, List.append_cons]
      refine ih rest ?_ next
      rw [List.length_drop]
      omega

theorem url_decode_length (s : Bytes) : (urlDecode s).1.length = s.length := by
  have kept (fuel : Nat) (c : Cursor) : (decodeLoop fuel c).s.length = c.s.length := by
    induction fuel generalizing c with
    | zero => rfl
    | succ fuel ih =>
      rw [decodeLoop]
      split
      · rfl
      · rw [ih, Cursor.step, List.length_set]
  rw [urlDecode, List.length_set, kept]

/-- Decoding in place leaves the decoded text and its terminator, and moves nothing behind
    the terminator that was there. -/
theorem url_decode_in_place (free : NulFree text) (tail : Bytes) :
    ∃ stale, urlDecode (text ++ 0 :: tail) =
        (formDecode text ++ 0 :: (stale ++ tail), (formDecode text).length) ∧
      (formDecode text).length + stale.length = text.length := by
  have start : (Cursor.mk (text ++ 0 :: tail) 0 0).Decoding [] text tail := ⟨[], by simp⟩
  have enough : text.length < (text ++ 0 :: tail).length := by simp
  obtain ⟨gap, whole, write, read⟩ := loop_decodes _ free enough start
  rw [List.nil_append] at whole write read
  obtain ⟨x, stale, split⟩ : ∃ x stale, gap ++ [0] = x :: stale := by
    apply List.exists_cons_of_ne_nil
    simp
  have regroup : gap ++ ([] ++ 0 :: tail) = x :: (stale ++ tail) := by
    rw [List.nil_append, List.append_cons, split, List.cons_append]
  have result : urlDecode (text ++ 0 :: tail) =
      (formDecode text ++ 0 :: (stale ++ tail), (formDecode text).length) := by
    simp only [urlDecode, whole, write, regroup]
    simp
  refine ⟨stale, result, ?_⟩
  have size := url_decode_length (text ++ 0 :: tail)
  rw [result] at size
  simp only [List.length_append, List.length_cons] at size
  omega

structure Terminated (cap : Nat) where
  array : Bytes
  size : array.length = cap
  ended : 0 ∈ array

variable {cap : Nat}

def Terminated.zeros (room : 0 < cap) : Terminated cap :=
  ⟨List.replicate cap 0, List.length_replicate, List.mem_replicate.mpr ⟨by omega, rfl⟩⟩

def Terminated.copy (out : Terminated cap) (value : Bytes) (fits : value.length < cap) :
    Terminated cap where
  array := poke (poke out.array 0 value) value.length [0]
  size := by
    have size := out.size
    rw [poke_length, poke_length, size]
    · omega
    · rw [poke_length] <;> simp <;> omega
  ended := by simp [poke]

def Terminated.decode (out : Terminated cap) : Terminated cap where
  array := (urlDecode out.array).1
  size := by rw [url_decode_length, out.size]
  ended := by
    obtain ⟨rest, split⟩ := cstr_ended out.ended
    obtain ⟨stale, decoded, _⟩ := url_decode_in_place (cstr_nul_free out.array) rest
    rw [split, decoded]
    simp

def Terminated.held (out : Terminated cap) : Field cap where
  text := cstr out.array
  free := cstr_nul_free out.array
  fits := by
    obtain ⟨rest, split⟩ := cstr_ended out.ended
    have size := congrArg List.length split
    rw [out.size, List.length_append, List.length_cons] at size
    omega

theorem copy_decode_held {value : Bytes} (free : NulFree value) (out : Terminated cap)
    (fits : value.length < cap) :
    (out.copy value fits).decode.held.text = cstr (formDecode value) := by
  have copied : (out.copy value fits).array = value ++ 0 :: out.array.drop (value.length + 1) :=
    poke_terminated out.array value
  obtain ⟨stale, decoded, _⟩ := url_decode_in_place free (out.array.drop (value.length + 1))
  change cstr (urlDecode (out.copy value fits).array).1 = _
  rw [copied, decoded, cstr_before_nul]

/-- The scan for a key: it is tried where the body starts and behind every '&'. -/
def seek (key : Bytes) : Bool → Bytes → Option Bytes
  | start, [] => if start && key.isPrefixOf [] then some [] else none
  | start, b :: p =>
      if start && key.isPrefixOf (b :: p) then some ((b :: p).drop key.length)
      else seek key (b == ampersand) p

/-- Absent leaves the field empty; none is the refusal of a value with no room for it. -/
def field (body name : Bytes) (out : Terminated cap) (room : 0 < cap) :
    Option (Terminated cap) :=
  match seek (name ++ ascii "=") true body with
  | some p =>
      let value := p.takeWhile (· != ampersand)
      if fits : value.length < cap then some (out.copy value fits).decode else none
  | none => some (out.copy [] room)

structure Request where
  contentLen : Nat
  chunks : List Bytes

def bodySize : Nat := 512

/-- httpd_req_recv until len bytes are there; a call that yields nothing gives up. -/
def receive (len : Nat) : Bytes → List Bytes → Option Bytes
  | got, [] => if got.length < len then none else some got
  | got, chunk :: chunks =>
      if got.length < len then
        if chunk = [] then none
        else receive len (got ++ chunk.take (len - got.length)) chunks
      else some got

structure Reply where
  status : Bytes
  type : Option Bytes
  page : Bytes
  deriving DecidableEq, Repr

def okStatus : Bytes := ascii "200 OK"
def html : Bytes := ascii "text/html"

structure Portal (σ : Type) where
  nvs : σ
  staged : Config
  submitted : Bool

def refusal (fault : ConfigFault) : Reply where
  status := ascii "400 Bad Request"
  type := some html
  page := (ascii "<!doctype html><h1>Not saved</h1><p>" ++ describe fault ++
    ascii "</p><p><a href=/>Back</a></p>").take 255

def notStored : Reply where
  status := ascii "500 Internal Server Error"
  type := none
  page := ascii "<!doctype html><h1>Could not store the configuration</h1>"

def saved : Reply where
  status := okStatus
  type := some html
  page := ascii "<!doctype html><h1>Saved</h1><p>The device is restarting and will " ++
    ascii "join the network you gave it.</p>"

def formName : Key → Bytes
  | .ssid => ascii "ssid"
  | .pass => ascii "pass"
  | .broker => ascii "broker"
  | .host => ascii "host"

def fieldOf (body : Bytes) (k : Key) : Option (Field k.cap) :=
  (field body (formName k) (.zeros (cap_positive k)) (cap_positive k)).map Terminated.held

/-- The four fields of a body that was read; none is a form we could not read. An empty body
    holds no '=' either. -/
def parse (body : Bytes) : Option Config :=
  if equalsSign ∈ body then do
    let ssid ← fieldOf body .ssid
    let passphrase ← fieldOf body .pass
    let broker ← fieldOf body .broker
    let hostname ← fieldOf body .host
    pure ⟨ssid, passphrase, broker, hostname⟩
  else none

theorem parse_refused {body : Bytes} (k : Key) (refused : fieldOf body k = none) :
    parse body = none := by
  rw [parse, ite_eq_right_iff]
  intro _
  simp only [Option.bind_eq_bind, Option.bind_eq_none_iff]
  intro ssid first passphrase second broker third hostname fourth
  cases k with
  | ssid => exact absurd first (by simp [refused])
  | pass => exact absurd second (by simp [refused])
  | broker => exact absurd third (by simp [refused])
  | host => exact absurd fourth (by simp [refused])

theorem parse_fields {body : Bytes} {c : Config} (sign : equalsSign ∈ body)
    (fields : ∀ k, fieldOf body k = some (c.get k)) : parse body = some c := by
  rw [parse, if_pos sign]
  simp only [fields]
  rfl

/-- save_post against a storage that answers NVS calls; no reply is ESP_FAIL. -/
def savePost {σ : Type} (answer : σ → (op : NvsOp) → op.Answer × σ) (req : Request)
    (portal : Portal σ) : Option Reply × Portal σ :=
  match receive (min req.contentLen (bodySize - 1)) [] req.chunks with
  | none => (none, portal)
  | some got =>
      match parse (cstr got) with
      | none => (some (refusal .unparseable), portal)
      | some c =>
          if configFault c ≠ .none then (some (refusal (configFault c)), portal)
          else
            let (stored, nvs) := (configSave c).run answer portal.nvs
            if stored then (some saved, ⟨nvs, c, true⟩)
            else (some notStored, { portal with nvs := nvs })

end GplugProvisioning
