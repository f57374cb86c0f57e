import Mathlib.Tactic.Common
import GplugMini.Provisioning

/- Which records a browser can submit: the body it builds from the page's form, what field
   finds in it, and what save_post answers and stores. -/
namespace GplugSubmission
open ByteText CallTree FormCoding GplugConfig GplugConfigStore GplugProvisioning

/-- What a browser leaves alone: letters, digits, and *-._ -/
def browser : Alphabet where
  plain b := hostnameByte b || b == 42 || b == 46 || b == 95
  separate b plain := by
    intro member
    simp only [List.mem_cons, List.not_mem_nil, or_false] at member
    rcases member with rfl | rfl | rfl | rfl | rfl <;> exact absurd plain (by decide)

def joined : List Bytes → Bytes
  | [] => []
  | [s] => s
  | s :: t :: rest => s ++ ampersand :: joined (t :: rest)

def formKeys : List Key := [.ssid, .pass, .broker, .host]

def encoded (c : Config) (k : Key) : Bytes := formEncode browser (c.get k).text

def formKey (k : Key) : Bytes := formName k ++ ascii "="

def segment (c : Config) (k : Key) : Bytes := formKey k ++ encoded c k

def formBody (c : Config) : Bytes := joined (formKeys.map (segment c))

/-- The request that carries the form, in whatever pieces it arrives. -/
structure Posts (c : Config) (req : Request) : Prop where
  whole : req.chunks.flatten = formBody c
  pieces : ∀ chunk ∈ req.chunks, chunk ≠ []
  announced : req.contentLen = (formBody c).length

def Stores (c : Config) (outcome : Option Reply × Portal Flash) : Prop :=
  outcome.1.map Reply.status = some okStatus ∧ boots outcome.2.nvs = (.none, c)

/-- The three values that encoding may lengthen are still within their limits when encoded. -/
structure EncodedFits (c : Config) : Prop where
  ssid : (encoded c .ssid).length ≤ ssidMax
  passphrase : (encoded c .pass).length ≤ passphraseMax
  broker : (encoded c .broker).length ≤ brokerMax

def KeyFits (c : Config) (k : Key) : Prop := (encoded c k).length < k.cap

instance (c : Config) (k : Key) : Decidable (KeyFits c k) :=
  inferInstanceAs (Decidable (_ < _))

def Ends (rest : Bytes) : Prop := rest = [] ∨ ∃ more, rest = ampersand :: more

variable {c : Config} {k : Key} {rest : Bytes}

theorem ends_take (ends : Ends rest) (n : Nat) : Ends (rest.take n) := by
  cases n with
  | zero => exact Or.inl (List.take_zero)
  | succ n =>
    rcases ends with rfl | ⟨more, rfl⟩
    · exact Or.inl rfl
    · exact Or.inr ⟨more.take n, rfl⟩

theorem segment_separate (c : Config) (k : Key) : ampersand ∉ segment c k := by
  intro member
  rcases List.mem_append.mp member with name | value
  · revert name
    cases k <;> decide
  · exact (form_encode_separate browser _ _ value).2.1 rfl

theorem value_taken {value : Bytes} (separate : ampersand ∉ value) (ends : Ends rest) :
    (value ++ rest).takeWhile (· != ampersand) = value := by
  have all : ∀ b ∈ value, (b != ampersand) = true := by
    intro b member
    rw [bne_iff_ne]
    intro same
    subst same
    exact separate member
  rw [List.takeWhile_append_of_pos all]
  rcases ends with rfl | ⟨more, rfl⟩ <;> simp

theorem seek_found {key : Bytes} (p : Bytes) (start : Bool) (here : start = true) :
    seek key start (key ++ p) = some p := by
  subst here
  cases whole : key ++ p with
  | nil =>
    obtain ⟨rfl, rfl⟩ := List.append_eq_nil_iff.mp whole
    rfl
  | cons b rest =>
    rw [seek, ← whole]
    simp

theorem seek_past (key : Bytes) {passed : Bytes} (separate : ampersand ∉ passed) (p : Bytes) :
    seek key false (passed ++ p) = seek key false p := by
  induction passed with
  | nil => rfl
  | cons b passed ih =>
    rw [List.mem_cons, not_or] at separate
    have other : (b == ampersand) = false := by simpa using fun same => separate.1 same.symm
    rw [List.cons_append, seek, other]
    simpa using ih separate.2

theorem seek_over (key : Bytes) {passed : Bytes} (separate : ampersand ∉ passed) (p : Bytes) :
    seek key false (passed ++ ampersand :: p) = seek key true p := by
  rw [seek_past key separate]
  simp [seek]

theorem name_distinct {other : Key} (different : other ≠ k) (p : Bytes) :
    (formKey k).isPrefixOf (segment c other ++ p) = false := by
  cases k <;> cases other <;> first | exact absurd rfl different | rfl

theorem seek_other {other : Key} (different : other ≠ k) (p : Bytes) :
    seek (formKey k) true (segment c other ++ ampersand :: p) = seek (formKey k) true p := by
  have distinct := name_distinct (c := c) different (ampersand :: p)
  have separate := segment_separate c other
  cases whole : segment c other with
  | nil => exact absurd whole (by cases other <;> simp [segment, formKey, formName, ascii])
  | cons b passed =>
    rw [whole, List.cons_append] at distinct
    rw [whole, List.mem_cons, not_or] at separate
    have inside : (b == ampersand) = false := by simpa using fun same => separate.1 same.symm
    rw [List.cons_append, seek, distinct, Bool.and_false, if_neg Bool.false_ne_true, inside,
      seek_over _ separate.2]

theorem take_chunk {len : Nat} {got : Bytes} (room : got.length < len) (chunk rest : Bytes) :
    (got ++ chunk.take (len - got.length) ++ rest).take len =
      (got ++ (chunk ++ rest)).take len := by
  rw [List.append_assoc, List.take_append, List.take_append, List.take_append, List.take_append,
    List.take_take, Nat.min_self, List.length_take]
  congr 3
  omega

theorem receive_all (len : Nat) (got : Bytes) (chunks : List Bytes)
    (pieces : ∀ chunk ∈ chunks, chunk ≠ []) (room : got.length ≤ len)
    (enough : len ≤ (got ++ chunks.flatten).length) :
    receive len got chunks = some ((got ++ chunks.flatten).take len) := by
  induction chunks generalizing got with
  | nil =>
    rw [List.flatten_nil, List.append_nil] at enough ⊢
    rw [receive, if_neg (by omega), List.take_of_length_le (by omega)]
  | cons chunk chunks ih =>
    rw [receive]
    split
    · rename_i more
      rw [if_neg (pieces chunk List.mem_cons_self), ih _
        (fun later member => pieces later (List.mem_cons_of_mem _ member)), take_chunk more,
        List.flatten_cons]
      · rw [List.length_append, List.length_take]
        omega
      · rw [List.length_append, List.length_append, List.length_take]
        rw [List.flatten_cons, List.length_append, List.length_append] at enough
        omega
    · rw [List.take_append_of_le_length (by omega), List.take_of_length_le (by omega)]

theorem body_at (c : Config) (passed later : List Key) (k : Key) :
    ∃ rest, Ends rest ∧ joined ((passed ++ k :: later).map (segment c)) =
      passed.flatMap (fun j => segment c j ++ [ampersand]) ++ (segment c k ++ rest) := by
  induction passed with
  | nil =>
    cases later with
    | nil => exact ⟨[], Or.inl rfl, by simp [joined]⟩
    | cons j later =>
      exact ⟨ampersand :: joined ((j :: later).map (segment c)), Or.inr ⟨_, rfl⟩, rfl⟩
  | cons j passed ih =>
    obtain ⟨rest, ends, whole⟩ := ih
    refine ⟨rest, ends, ?_⟩
    have onward : joined ((j :: passed ++ k :: later).map (segment c)) =
        segment c j ++ ampersand :: joined ((passed ++ k :: later).map (segment c)) := by
      cases passed <;> rfl
    rw [onward, whole]
    simp

theorem seek_passed (passed : List Key) (absent : k ∉ passed) (p : Bytes) :
    seek (formKey k) true (passed.flatMap (fun j => segment c j ++ [ampersand]) ++ p) =
      seek (formKey k) true p := by
  induction passed with
  | nil => rfl
  | cons j passed ih =>
    rw [List.mem_cons, not_or] at absent
    rw [List.flatMap_cons, List.append_assoc, List.append_assoc, List.singleton_append,
      seek_other (Ne.symm absent.1), ih absent.2]

theorem field_found (passed : List Key) (absent : k ∉ passed) (ends : Ends rest) :
    fieldOf (passed.flatMap (fun j => segment c j ++ [ampersand]) ++ (segment c k ++ rest)) k =
      if KeyFits c k then some (c.get k) else none := by
  have separate : ampersand ∉ encoded c k :=
    fun member => (form_encode_separate browser _ _ member).2.1 rfl
  have free : NulFree (encoded c k) :=
    fun b member => (form_encode_separate browser _ b member).1
  have decoded : formDecode (encoded c k) = (c.get k).text := by
    have := form_decode_encode browser (c.get k).text []
    rwa [List.append_nil, formDecode, List.append_nil] at this
  have found : seek (formKey k) true
      (passed.flatMap (fun j => segment c j ++ [ampersand]) ++ (segment c k ++ rest)) =
        some (encoded c k ++ rest) := by
    rw [seek_passed passed absent, segment, List.append_assoc, seek_found _ _ rfl]
  rw [fieldOf, field, ← formKey, found]
  simp only [value_taken separate ends]
  by_cases fits : KeyFits c k
  · have short : (encoded c k).length < k.cap := fits
    rw [if_pos fits, dif_pos short]
    apply congrArg some
    apply field_ext
    rw [copy_decode_held free, decoded, cstr_of_nul_free (c.get k).free]
  · have long : ¬ (encoded c k).length < k.cap := fits
    rw [if_neg fits, dif_neg long]
    rfl

theorem segment_length (c : Config) (k : Key) : (segment c k).length ≤ (formKey k).length +
    3 * (k.cap - 1) ∧ (segment c k).length = (formKey k).length + (encoded c k).length := by
  have text := (c.get k).fits
  have grown := (form_encode_length_le browser (c.get k).text).2
  rw [segment, List.length_append, encoded]
  omega

theorem field_read (passed later : List Key) (order : formKeys = passed ++ k :: later)
    (absent : k ∉ passed)
    (reached : (passed.flatMap fun j => segment c j ++ [ampersand]).length +
      (segment c k).length ≤ bodySize - 1) :
    fieldOf ((formBody c).take (bodySize - 1)) k =
      if KeyFits c k then some (c.get k) else none := by
  obtain ⟨rest, ends, whole⟩ := body_at c passed later k
  rw [formBody, order, whole, List.take_append, List.take_of_length_le (by omega),
    List.take_append, List.take_of_length_le (by omega)]
  exact field_found passed absent (ends_take ends _)

theorem form_body_nul_free (c : Config) : NulFree (formBody c) := by
  have separate (k : Key) : NulFree (segment c k) := by
    rw [segment, nul_free_append]
    refine ⟨by cases k <;> decide, fun b member => ?_⟩
    exact (form_encode_separate browser _ b member).1
  simp only [formBody, formKeys, List.map_cons, List.map_nil, joined, nul_free_append,
    nul_free_cons]
  exact ⟨separate _, by decide, separate _, by decide, separate _, by decide, separate _⟩

theorem host_encoded (label : validHostname c.hostname.text = true) :
    encoded c .host = c.hostname.text := by
  apply form_encode_plain browser
  intro b member
  have letters : c.hostname.text.all hostnameByte = true := by
    unfold validHostname at label
    grind
  have letter := List.all_eq_true.mp letters b member
  refine ⟨?_, by simp [browser, letter]⟩
  intro same
  subst same
  exact absurd letter (by decide)

def earlier : Key → List Key
  | .ssid => []
  | .pass => [.ssid]
  | .broker => [.ssid, .pass]
  | .host => [.ssid, .pass, .broker]

theorem field_in_order (k : Key) (before : ∀ j ∈ earlier k, KeyFits c j) :
    fieldOf ((formBody c).take (bodySize - 1)) k =
      if KeyFits c k then some (c.get k) else none := by
  have names : (formKey .ssid).length = 5 ∧ (formKey .pass).length = 5 ∧
      (formKey .broker).length = 7 ∧ (formKey .host).length = 5 := by decide
  have caps : Key.ssid.cap = 33 ∧ Key.pass.cap = 64 ∧ Key.broker.cap = 128 ∧
      Key.host.cap = 33 := by decide
  have lengths (keys : List Key) : (keys.flatMap fun j => segment c j ++ [ampersand]).length =
      (keys.map fun j => (segment c j).length + 1).sum := by
    simp [List.length_flatMap]
  have size (j : Key) := segment_length c j
  have here := size k
  cases k with
  | ssid =>
    apply field_read [] [.pass, .broker, .host] rfl (by decide)
    simp only [lengths, List.map_nil, List.sum_nil, bodySize]
    omega
  | pass =>
    have first := size .ssid
    apply field_read [.ssid] [.broker, .host] rfl (by decide)
    simp only [lengths, List.map_cons, List.map_nil, List.sum_cons, List.sum_nil, bodySize]
    omega
  | broker =>
    have first := size .ssid
    have second := size .pass
    have ssid : (encoded c .ssid).length < Key.ssid.cap := before .ssid (by decide)
    have pass : (encoded c .pass).length < Key.pass.cap := before .pass (by decide)
    apply field_read [.ssid, .pass] [.host] rfl (by decide)
    simp only [lengths, List.map_cons, List.map_nil, List.sum_cons, List.sum_nil, bodySize]
    omega
  | host =>
    have first := size .ssid
    have second := size .pass
    have third := size .broker
    have ssid : (encoded c .ssid).length < Key.ssid.cap := before .ssid (by decide)
    have pass : (encoded c .pass).length < Key.pass.cap := before .pass (by decide)
    have broker : (encoded c .broker).length < Key.broker.cap := before .broker (by decide)
    apply field_read [.ssid, .pass, .broker] [] rfl (by decide)
    simp only [lengths, List.map_cons, List.map_nil, List.sum_cons, List.sum_nil, bodySize]
    omega

theorem keys_fit (usable : configUsable c = true) (fits : EncodedFits c) (k : Key) :
    KeyFits c k := by
  cases k with
  | ssid => exact Nat.lt_succ_of_le fits.ssid
  | pass => exact Nat.lt_succ_of_le fits.passphrase
  | broker => exact Nat.lt_succ_of_le fits.broker
  | host =>
    rw [KeyFits, host_encoded ((config_usable_iff c).mp usable).2.2]
    exact c.hostname.fits

theorem first_unfit (unfit : ¬ EncodedFits c) :
    ∃ k, ¬ KeyFits c k ∧ ∀ j ∈ earlier k, KeyFits c j := by
  by_cases ssid : KeyFits c .ssid
  · by_cases pass : KeyFits c .pass
    · by_cases broker : KeyFits c .broker
      · exact absurd
          ⟨Nat.le_of_lt_succ ssid, Nat.le_of_lt_succ pass, Nat.le_of_lt_succ broker⟩ unfit
      · exact ⟨.broker, broker, by simp [earlier, ssid, pass]⟩
    · exact ⟨.pass, pass, by simp [earlier, ssid]⟩
  · exact ⟨.ssid, ssid, by simp [earlier]⟩

theorem parse_fitting (usable : configUsable c = true) (fits : EncodedFits c) :
    parse ((formBody c).take (bodySize - 1)) = some c := by
  have every := keys_fit usable fits
  apply parse_fields
  · have start : (formBody c).take (bodySize - 1) = formKey .ssid ++
        ((encoded c .ssid ++ ampersand :: joined ([.pass, .broker, .host].map (segment c))).take
          506) := rfl
    rw [start]
    exact List.mem_append_left _ (by decide)
  · intro k
    rw [field_in_order k fun j _ => every j, if_pos (every k)]

theorem parse_unfit (unfit : ¬ EncodedFits c) :
    parse ((formBody c).take (bodySize - 1)) = none := by
  obtain ⟨k, misfit, before⟩ := first_unfit unfit
  apply parse_refused k
  rw [field_in_order k before, if_neg misfit]

theorem body_received {req : Request} (posted : Posts c req) :
    receive (min req.contentLen (bodySize - 1)) [] req.chunks =
      some ((formBody c).take (bodySize - 1)) := by
  have enough : min req.contentLen (bodySize - 1) ≤ ([] ++ req.chunks.flatten).length := by
    rw [List.nil_append, posted.whole, posted.announced]
    exact min_le_left _ _
  rw [receive_all _ [] req.chunks posted.pieces (Nat.zero_le _) enough, List.nil_append,
    posted.whole, posted.announced, ← List.take_take, List.take_of_length_le]
  exact List.length_take_le' _ _

theorem received_text (c : Config) :
    cstr ((formBody c).take (bodySize - 1)) = (formBody c).take (bodySize - 1) :=
  cstr_of_nul_free (nul_free_take (form_body_nul_free c) _)

theorem unfit_refused (unfit : ¬ EncodedFits c) {req : Request}
    (posted : Posts c req) (portal : Portal Flash) :
    savePost Flash.answer req portal = (some (refusal .unparseable), portal) := by
  simp only [savePost, body_received posted, received_text, parse_unfit unfit]

theorem fitting_stored (usable : configUsable c = true) (fits : EncodedFits c) {req : Request}
    (posted : Posts c req) (portal : Portal Flash) :
    savePost Flash.answer req portal = (some saved, ⟨entryOf c, c, true⟩) := by
  have accepted : configFault c = .none := by simpa [configUsable] using usable
  simp [savePost, body_received posted, received_text, parse_fitting usable fits, accepted,
    config_save_run usable]

theorem not_ok : (refusal .unparseable).status ≠ okStatus := by decide

/-- A usable record is stored exactly when its values fit their arrays while encoded. -/
theorem submission_stored_iff (usable : configUsable c = true) {req : Request}
    (posted : Posts c req) (portal : Portal Flash) :
    Stores c (savePost Flash.answer req portal) ↔ EncodedFits c := by
  constructor
  · intro stored
    obtain ⟨answered, _⟩ := stored
    by_contra unfit
    rw [unfit_refused unfit posted] at answered
    exact not_ok (Option.some.inj answered)
  · intro fits
    rw [fitting_stored usable fits posted]
    exact ⟨rfl, boots_entries usable⟩

def kitchen : Config where
  ssid := ⟨ascii "kitchen", by decide, by decide⟩
  passphrase := ⟨ascii "blue door 7", by decide, by decide⟩
  broker := ⟨ascii "mqtt://192.168.1.20:1883", by decide, by decide⟩
  hostname := ⟨ascii "meter-1", by decide, by decide⟩

def guests : Config where
  ssid := ⟨ascii "G" ++ [0xC3, 0xA4] ++ ascii "stenetz H" ++ [0xC3, 0xB6] ++ ascii "henstra" ++
    [0xC3, 0x9F] ++ ascii "e", by decide, by decide⟩
  passphrase := kitchen.passphrase
  broker := kitchen.broker
  hostname := kitchen.hostname

def onePiece (c : Config) : Request := ⟨(formBody c).length, [formBody c]⟩

theorem one_piece_posts (c : Config) : Posts c (onePiece c) := by
  refine ⟨by simp [onePiece], ?_, rfl⟩
  intro chunk member
  rw [List.mem_singleton.mp member]
  exact List.cons_ne_nil _ _

def unprovisioned : Portal Flash := ⟨fun _ => .absent, .blank, false⟩

theorem kitchen_stored : Stores kitchen (savePost Flash.answer (onePiece kitchen) unprovisioned) :=
  (submission_stored_iff (by decide) (one_piece_posts kitchen) unprovisioned).mpr
    ⟨by decide, by decide, by decide⟩

/-- A name of 24 bytes is refused: the 36 that encode it do not fit its array. -/
theorem guests_refused :
    configUsable guests = true ∧ guests.ssid.text.length = 24 ∧
      8 ≤ guests.passphrase.text.length ∧
      savePost Flash.answer (onePiece guests) unprovisioned =
        (some (refusal .unparseable), unprovisioned) ∧
      ¬ Stores guests (savePost Flash.answer (onePiece guests) unprovisioned) := by
  have usable : configUsable guests = true := by decide
  have unfit : ¬ EncodedFits guests := fun fits => absurd fits.ssid (by decide)
  have refused := unfit_refused unfit (one_piece_posts guests) unprovisioned
  refine ⟨usable, by decide, by decide, refused, fun stored => ?_⟩
  rw [refused] at stored
  exact not_ok (Option.some.inj stored.1)

end GplugSubmission
