import Mathlib.Logic.Relation
import Mathlib.Tactic.Common
import GplugMini.AcceptedSubmission

/- What a stored value is of the body it was submitted in: the first value under its name,
   whole and decoded, or something shorter; and what every later boot runs on. -/
namespace GplugSubmittedValues
open ByteText CallTree EmittingRun FormCoding GplugConfig GplugConfigStore GplugProvisioning
open GplugBootDecision GplugDevice GplugMainLoop GplugAcceptedSubmission GplugSubmission

/-- A body, and what the calls of httpd_req_recv yield of it: nothing where one fails. -/
structure Post where
  body : Bytes
  chunks : List Bytes
  sent : chunks.flatten <+: body

def Post.request (p : Post) : Request := ⟨p.body.length, p.chunks⟩

def valueOf (body : Bytes) (k : Key) : Bytes :=
  ((firstValue (formName k) body).map formDecode).getD []

def Post.text (p : Post) : Option Bytes :=
  (receive (min p.body.length (bodySize - 1)) [] p.chunks).map cstr

def Post.read (p : Post) : Bytes := cstr (p.body.take (bodySize - 1))

/-- Two neighbouring segments change places, of which at most one has any given field's name. -/
def Swapped (body other : Bytes) : Prop :=
  ∃ before s t after, (∀ x ∈ before ++ s :: t :: after, ampersand ∉ x) ∧
    (∀ k, valueIn (formName k) s = none ∨ valueIn (formName k) t = none) ∧
    body = [ampersand].intercalate (before ++ s :: t :: after) ∧
    other = [ampersand].intercalate (before ++ t :: s :: after)

/-- Another order of the segments in which those of one name keep theirs. -/
abbrev Reordered : Bytes → Bytes → Prop := Relation.ReflTransGen Swapped

variable {σ : Type}

structure Refused (portal : Portal σ) (outcome : Option Reply × Portal σ) : Prop where
  answered : outcome.1.map Reply.status ≠ some okStatus
  nvs : outcome.2.nvs = portal.nvs
  submitted : outcome.2.submitted = portal.submitted

/-- What is stored is what was submitted, and what cannot be stored as it is is refused. -/
structure StoresWhole (p : Post) (nvs : Nvs σ) (portal : Portal σ) : Prop where
  stores : (savePost nvs.answer p.request portal).1.map Reply.status = some okStatus →
    ∃ c, nvs.durable (savePost nvs.answer p.request portal).2.nvs = entryOf c ∧
      ∀ k, (c.get k).text = valueOf p.body k
  order : (savePost nvs.answer p.request portal).1.map Reply.status = some okStatus →
    ∀ q : Post, Reordered p.body q.body →
      (savePost nvs.answer q.request portal).1.map Reply.status = some okStatus →
      nvs.durable (savePost nvs.answer q.request portal).2.nvs =
        nvs.durable (savePost nvs.answer p.request portal).2.nvs
  misfit : ∀ k : Key, k.cap ≤ (valueOf p.body k).length →
    Refused portal (savePost nvs.answer p.request portal)
  unread : p.text ≠ some p.body → Refused portal (savePost nvs.answer p.request portal)
  encodedNul : ∀ k, 0 ∈ valueOf p.body k → Refused portal (savePost nvs.answer p.request portal)

def NeverShortens (p : Post) : Prop :=
  ∀ (σ : Type) (nvs : Nvs σ) (portal : Portal σ), StoresWhole p nvs portal

/-- Nothing in the body ends it early: no byte beyond the buffer, no NUL, and none in a value
    once it is decoded. -/
structure Plain (body : Bytes) : Prop where
  short : body.length ≤ bodySize - 1
  clean : NulFree body
  values : ∀ k, NulFree (valueOf body k)

/-- What is read of the body makes no record that could be stored. -/
def TurnedDown (p : Post) : Prop :=
  ∀ c, submissionOf p.request = some c → configUsable c = false

theorem receive_take {len : Nat} {chunks : List Bytes} {got whole : Bytes}
    (room : got.length ≤ len) (received : receive len got chunks = some whole) :
    whole = (got ++ chunks.flatten).take len ∧ whole.length = len := by
  induction chunks generalizing got with
  | nil =>
    rw [receive] at received
    split at received
    · cases received
    · obtain rfl := Option.some.inj received
      rw [List.flatten_nil, List.append_nil, List.take_of_length_le room]
      exact ⟨rfl, by omega⟩
  | cons chunk chunks ih =>
    rw [receive] at received
    split at received
    · rename_i more
      split at received
      · cases received
      · have next := ih (by rw [List.length_append, List.length_take]; omega) received
        rw [take_chunk more] at next
        exact next
    · obtain rfl := Option.some.inj received
      rw [List.take_append_of_le_length (by omega), List.take_of_length_le (by omega)]
      exact ⟨rfl, by omega⟩

theorem seek_missed {key : Bytes} {p : Bytes} (missed : key.isPrefixOf p = false) :
    seek key true p = seek key false p := by
  cases p with
  | nil => simp [seek, missed]
  | cons b p => rw [seek, missed, Bool.and_false, seek, Bool.false_and]

theorem seek_none (key : Bytes) {passed : Bytes} (separate : ampersand ∉ passed) :
    seek key false passed = none := by
  have past := seek_past key separate []
  simpa [seek] using past

theorem value_in_found (name tail : Bytes) :
    valueIn name (name ++ [equalsSign] ++ tail) = some tail := by
  rw [valueIn, if_pos (by simp)]
  simp

theorem prefix_of_segment {key segment : Bytes} (separate : ampersand ∉ key) (rest : Bytes)
    (found : key <+: segment ++ ampersand :: rest) : key <+: segment := by
  rcases List.prefix_or_prefix_of_prefix found (List.prefix_append segment _) with inside | longer
  · exact inside
  · obtain ⟨more, rfl⟩ := longer
    cases more with
    | nil => simp
    | cons b more =>
      have first : b = ampersand := by
        have := (List.prefix_append_right_inj segment).mp found
        exact (List.cons_prefix_cons.mp this).1
      exact absurd (by simp [first]) separate

/-- The scan finds the first value under the name, and the '&' behind it. -/
theorem seek_value {name : Bytes} (separate : ampersand ∉ name ++ [equalsSign]) (body : Bytes) :
    (seek (name ++ [equalsSign]) true body).map (·.takeWhile (· != ampersand)) =
      firstValue name body := by
  induction size : body.length using Nat.strongRecOn generalizing body with
  | ind n ih =>
    by_cases ends : ampersand ∈ body
    · obtain ⟨segment, rest, rfl, first⟩ := List.eq_append_cons_of_mem ends
      rw [first_value_cons name first]
      by_cases found : name ++ [equalsSign] <+: segment
      · obtain ⟨tail, rfl⟩ := found
        rw [List.mem_append, not_or] at first
        rw [List.append_assoc, seek_found _ true rfl, value_in_found, Option.map_some,
          value_taken first.2 (Or.inr ⟨rest, rfl⟩)]
        rfl
      · have missed : (name ++ [equalsSign]).isPrefixOf (segment ++ ampersand :: rest) = false := by
          rw [Bool.eq_false_iff, ne_eq, List.isPrefixOf_iff_prefix]
          exact fun start => found (prefix_of_segment separate rest start)
        rw [seek_missed missed, seek_over _ first, valueIn,
          if_neg (by rwa [List.isPrefixOf_iff_prefix])]
        exact ih rest.length (by simp at size; omega) rest rfl
    · rw [first_value_single name ends]
      by_cases found : name ++ [equalsSign] <+: body
      · obtain ⟨tail, rfl⟩ := found
        rw [List.mem_append, not_or] at ends
        have whole : (tail ++ []).takeWhile (· != ampersand) = tail :=
          value_taken ends.2 (Or.inl rfl)
        rw [List.append_nil] at whole
        rw [seek_found _ true rfl, value_in_found, Option.map_some, whole]
      · have missed : (name ++ [equalsSign]).isPrefixOf body = false := by
          rw [Bool.eq_false_iff, ne_eq, List.isPrefixOf_iff_prefix]
          exact found
        rw [seek_missed missed, seek_none _ ends, valueIn,
          if_neg (by rwa [List.isPrefixOf_iff_prefix])]
        rfl

theorem form_name_separate (k : Key) : ampersand ∉ formName k ++ [equalsSign] := by
  cases k <;> decide

theorem seek_suffix {key body p : Bytes} {start : Bool} (found : seek key start body = some p) :
    p <:+ body := by
  induction body generalizing start with
  | nil =>
    rw [seek] at found
    split at found
    · exact Option.some.inj found ▸ List.suffix_rfl
    · cases found
  | cons b body ih =>
    rw [seek] at found
    split at found
    · exact Option.some.inj found ▸ List.drop_suffix _ _
    · exact (ih found).trans (List.suffix_cons b body)

/-- The field of a body without NUL holds the first value under its name, decoded up to a NUL
    of its own; a value longer than its array is refused. -/
theorem field_text {body : Bytes} (clean : NulFree body) (k : Key) :
    (fieldOf body k).map Field.text =
      match firstValue (formName k) body with
      | some value => if value.length < k.cap then some (cstr (formDecode value)) else none
      | none => some [] := by
  have found := seek_value (form_name_separate k) body
  rw [fieldOf, field, show ascii "=" = [equalsSign] from rfl]
  cases sought : seek (formName k ++ [equalsSign]) true body with
  | none =>
    rw [sought] at found
    rw [← found]
    simp only [Option.map_none, Option.map_some, Option.some.injEq]
    exact cstr_copied (Terminated.zeros (cap_positive k)).array []
  | some p =>
    rw [sought] at found
    have free : NulFree (p.takeWhile (· != ampersand)) := fun b member =>
      clean b ((seek_suffix sought).mem ((List.takeWhile_prefix _).mem member))
    rw [← found]
    simp only [Option.map_some]
    by_cases fits : (p.takeWhile (· != ampersand)).length < k.cap
    · rw [dif_pos fits, if_pos fits, Option.map_some, Option.map_some, copy_decode_held free]
    · rw [dif_neg fits, if_neg fits]
      rfl

theorem parsed_fields {body : Bytes} {c : Config} (parsed : parse body = some c) (k : Key) :
    fieldOf body k = some (c.get k) := by
  unfold parse at parsed
  split at parsed
  · simp only [Option.bind_eq_bind, Option.bind_eq_some_iff] at parsed
    obtain ⟨ssid, first, passphrase, second, broker, third, hostname, fourth, made⟩ := parsed
    obtain rfl := Option.some.inj made
    cases k
    · exact first
    · exact second
    · exact third
    · exact fourth
  · cases parsed

variable {p : Post} {c : Config}

/-- Whatever the calls yield, save_post reads the first 511 bytes up to a NUL, or nothing. -/
theorem text_read {text : Bytes} (read : p.text = some text) : text = p.read := by
  obtain ⟨got, received, rfl⟩ := Option.map_eq_some_iff.mp read
  obtain ⟨taken, size⟩ := receive_take (Nat.zero_le _) received
  have sent := List.prefix_iff_eq_take.mp p.sent
  have enough : got.length ≤ p.chunks.flatten.length := by
    rw [taken, List.length_take]
    exact min_le_right _ _
  rw [List.nil_append, sent, List.take_take, min_eq_left (by omega)] at taken
  rw [Post.read, taken, ← List.take_take, List.take_of_length_le (l := p.body.take _)]
  exact List.length_take_le' _ _

theorem submission_parsed (found : submissionOf p.request = some c) :
    ∃ text, p.text = some text ∧ parse text = some c := by
  obtain ⟨got, received, parsed⟩ := Option.bind_eq_some_iff.mp found
  exact ⟨cstr got, Option.map_eq_some_iff.mpr ⟨got, received, rfl⟩, parsed⟩

theorem plain_read (plain : Plain p.body) : p.read = p.body := by
  rw [Post.read, List.take_of_length_le plain.short, cstr_of_nul_free plain.clean]

theorem text_plain {text : Bytes} (plain : Plain p.body) (read : p.text = some text) :
    text = p.body := (text_read read).trans (plain_read plain)

theorem read_values (found : submissionOf p.request = some c) (k : Key) :
    (c.get k).text = cstr (valueOf p.read k) := by
  obtain ⟨text, read, parsed⟩ := submission_parsed found
  obtain rfl := text_read read
  have field := field_text (cstr_nul_free (p.body.take (bodySize - 1))) k
  rw [← Post.read, parsed_fields parsed k, Option.map_some] at field
  unfold valueOf
  cases sought : firstValue (formName k) p.read with
  | none =>
    rw [sought] at field
    exact Option.some.inj field
  | some raw =>
    rw [sought] at field
    simp only at field
    split at field
    · exact Option.some.inj field
    · cases field

theorem plain_values (plain : Plain p.body) (found : submissionOf p.request = some c) (k : Key) :
    (c.get k).text = valueOf p.body k := by
  rw [read_values found, plain_read plain, cstr_of_nul_free (plain.values k)]

theorem turned_down_or_usable (p : Post) :
    TurnedDown p ∨ ∃ c, submissionOf p.request = some c ∧ configUsable c = true := by
  by_cases down : TurnedDown p
  · exact Or.inl down
  · simp only [TurnedDown, not_forall, Bool.not_eq_false] at down
    obtain ⟨c, found, usable⟩ := down
    exact Or.inr ⟨c, found, usable⟩

theorem turned_down_refused (down : TurnedDown p) (nvs : Nvs σ) (portal : Portal σ) :
    Refused portal (savePost nvs.answer p.request portal) := by
  have other (fault : ConfigFault) : some (refusal fault).status ≠ some okStatus := by
    simp [refusal, okStatus, ascii]
  unfold TurnedDown submissionOf at down
  unfold savePost
  cases received : receive (min p.request.contentLen (bodySize - 1)) [] p.request.chunks with
  | none => exact ⟨by simp, rfl, rfl⟩
  | some got =>
    cases parsed : parse (cstr got) with
    | none =>
      simp only [parsed]
      exact ⟨other _, rfl, rfl⟩
    | some c =>
      have faulty : configFault c ≠ .none := by
        have unusable := down c (by rw [received, Option.bind_some, parsed])
        simpa [configUsable] using unusable
      simp only [parsed, if_pos faulty]
      exact ⟨other _, rfl, rfl⟩

theorem usable_accepted (found : submissionOf p.request = some c)
    (usable : configUsable c = true) :
    (savePost reliable.answer p.request unprovisioned).1.map Reply.status = some okStatus := by
  obtain ⟨got, received, parsed⟩ := Option.bind_eq_some_iff.mp found
  have fine : configFault c = .none := by simpa [configUsable] using usable
  simp [savePost, received, parsed, fine, show reliable.answer = Flash.answer from rfl,
    config_save_run usable, okStatus, saved]

theorem swapped_values {body other : Bytes} (swapped : Swapped body other) (k : Key) :
    valueOf other k = valueOf body k := by
  obtain ⟨before, s, t, after, separate, different, rfl, rfl⟩ := swapped
  rw [valueOf, valueOf, first_value_swap (different k) separate]

theorem swapped_bytes {body other : Bytes} (swapped : Swapped body other) : other.Perm body := by
  obtain ⟨before, s, t, after, _, _, rfl, rfl⟩ := swapped
  have turned : (before ++ t :: s :: after).Perm (before ++ s :: t :: after) :=
    (List.Perm.swap s t after).append_left before
  have every := turned.flatMap_right (· ++ [ampersand])
  rw [← intercalate_ended ampersand (by simp), ← intercalate_ended ampersand (by simp)] at every
  exact (List.perm_append_right_iff [ampersand]).mp every

theorem reordered_plain {body other : Bytes} (reordered : Reordered body other)
    (plain : Plain body) : Plain other ∧ ∀ k, valueOf other k = valueOf body k := by
  induction reordered with
  | refl => exact ⟨plain, fun _ => rfl⟩
  | tail _ swapped ih =>
    obtain ⟨plain, values⟩ := ih
    have bytes := swapped_bytes swapped
    have same := swapped_values swapped
    refine ⟨⟨?_, ?_, ?_⟩, fun k => (same k).trans (values k)⟩
    · rw [bytes.length_eq]
      exact plain.short
    · exact fun b member => plain.clean b (bytes.mem_iff.mp member)
    · intro k
      rw [same k]
      exact plain.values k

/-- A body that is stored and of which nothing is shortened is one that nothing ends early. -/
theorem kept_plain (found : submissionOf p.request = some c) (usable : configUsable c = true)
    (never : NeverShortens p) : Plain p.body := by
  have accepted : ¬ Refused unprovisioned (savePost reliable.answer p.request unprovisioned) :=
    fun refused => refused.answered (usable_accepted found usable)
  have held := never Flash reliable unprovisioned
  have read : p.text = some p.body := by
    by_contra unread
    exact accepted (held.unread unread)
  have whole := text_read read
  refine ⟨?_, ?_, ?_⟩
  · have size := cstr_length_le (p.body.take (bodySize - 1))
    rw [← Post.read, ← whole, List.length_take] at size
    omega
  · rw [whole]
    exact cstr_nul_free (p.body.take (bodySize - 1))
  · intro k b member same
    exact accepted (held.encodedNul k (same ▸ member))

theorem plain_stored_alike {q : Post} {d : Config} (plain : Plain p.body)
    (reordered : Reordered p.body q.body) (found : submissionOf p.request = some c)
    (again : submissionOf q.request = some d) : d = c := by
  obtain ⟨alike, values⟩ := reordered_plain reordered plain
  apply config_ext
  intro k
  apply field_ext
  rw [plain_values alike again, plain_values plain found, values]

theorem plain_stores (plain : Plain p.body) (nvs : Nvs σ) (portal : Portal σ) :
    StoresWhole p nvs portal := by
  constructor
  · intro answered
    obtain ⟨c, found, _, durable, _⟩ := accepted_saved nvs answered
    exact ⟨c, durable, plain_values plain found⟩
  · intro answered q reordered other
    obtain ⟨c, found, _, durable, _⟩ := accepted_saved nvs answered
    obtain ⟨d, again, _, stored, _⟩ := accepted_saved nvs other
    rw [durable, stored, plain_stored_alike plain reordered found again]
  · intro k long
    apply turned_down_refused
    intro c found
    have fits := (c.get k).fits
    rw [plain_values plain found k] at fits
    omega
  · intro unread
    apply turned_down_refused
    intro c found
    obtain ⟨text, read, _⟩ := submission_parsed found
    exact absurd (text_plain plain read ▸ read) unread
  · exact fun k member => absurd rfl (plain.values k 0 member)

theorem refused_stores {portal : Portal σ} {nvs : Nvs σ}
    (refused : Refused portal (savePost nvs.answer p.request portal)) :
    StoresWhole p nvs portal :=
  ⟨fun answered => absurd answered refused.answered,
    fun answered => absurd answered refused.answered, fun _ _ => refused, fun _ => refused,
    fun _ _ => refused⟩

/-- No value of a body is shortened or altered, whatever the storage does, exactly when nothing
    ends it early or what is read of it is refused anyway. -/
theorem never_shortens_iff (p : Post) : NeverShortens p ↔ Plain p.body ∨ TurnedDown p := by
  constructor
  · intro never
    rcases turned_down_or_usable p with down | ⟨c, found, usable⟩
    · exact Or.inr down
    · exact Or.inl (kept_plain found usable never)
  · intro kept σ nvs portal
    rcases kept with plain | down
    · exact plain_stores plain nvs portal
    · exact refused_stores (turned_down_refused down nvs portal)

def inOnePiece (body : Bytes) : Post := ⟨body, [body], by simp⟩

def longBody : Post := inOnePiece (ascii "ssid=attic&broker=mqtt://bench&note=" ++
  List.replicate 480 120 ++ ascii "&pass=blue+door+7")

def encodedNulBody : Post := inOnePiece (ascii "ssid=attic%00room&broker=mqtt://bench")

def nulBody : Post :=
  inOnePiece (ascii "ssid=attic&broker=mqtt://bench" ++ 0 :: ascii "&pass=blue+door+7")

theorem usable_not_plain (taken : (submissionOf p.request).any configUsable = true)
    (ends : ¬ Plain p.body) : ¬ NeverShortens p := by
  rw [never_shortens_iff]
  intro kept
  rcases kept with plain | down
  · exact ends plain
  · obtain ⟨c, found, usable⟩ := (Option.any_eq_true _ _).mp taken
    exact absurd (down c found) (by simp [usable])

/-- All three are stored: the first and the last as an open network, the second under the
    beginning of its name. -/
theorem shortened_values :
    (∀ p ∈ [longBody, encodedNulBody, nulBody], ¬ NeverShortens p) ∧
      (∀ p ∈ [longBody, nulBody], valueOf p.body .pass = ascii "blue door 7" ∧
        (submissionOf p.request).map (·.passphrase.text) = some []) ∧
      valueOf encodedNulBody.body .ssid = ascii "attic" ++ 0 :: ascii "room" ∧
      (submissionOf encodedNulBody.request).map (·.ssid.text) = some (ascii "attic") := by
  refine ⟨?_, by decide +kernel, by decide +kernel, by decide +kernel⟩
  have long : ¬ NeverShortens longBody :=
    usable_not_plain (by decide +kernel) fun plain =>
      absurd plain.short (by decide +kernel)
  have encoded : ¬ NeverShortens encodedNulBody :=
    usable_not_plain (by decide +kernel) fun plain =>
      absurd (plain.values .ssid) (by decide +kernel)
  have raw : ¬ NeverShortens nulBody :=
    usable_not_plain (by decide +kernel) fun plain => absurd plain.clean (by decide +kernel)
  simp only [List.forall_mem_cons, List.not_mem_nil, false_imp_iff, implies_true, and_true]
  exact ⟨long, encoded, raw⟩

/- The boots after a 200. -/

/-- A 200 promises that every later boot, whatever happens in between, runs on the four values
    of the body. -/
def RunsAsSubmitted (p : Post) : Prop :=
  ∀ (σ : Type) (nvs : Nvs σ) (portal : Portal σ),
    (savePost nvs.answer p.request portal).1.map Reply.status = some okStatus →
    ∀ (Parser : Type) (parse : Parser → Bytes → ParseOut Parser) (mac : Bytes)
      (life : List (LifeEvent Parser)),
      ∀ booted ∈ emitted (Life.step parse mac)
        ⟨nvs.durable (savePost nvs.answer p.request portal).2.nvs, none⟩ life,
        ∃ c, RunsOn c booted ∧ ∀ k, (c.get k).text = valueOf p.body k

/-- Each value of what was read, up to a NUL of its own, is the whole body's. -/
def ReadWhole (p : Post) : Prop := ∀ k, cstr (valueOf p.read k) = valueOf p.body k

theorem plain_read_whole (plain : Plain p.body) : ReadWhole p := by
  intro k
  rw [plain_read plain, cstr_of_nul_free (plain.values k)]

def oneBoot : List (LifeEvent Unit) := [.restart ⟨[], [], []⟩ .valid 0 ()]

theorem boot_reads (found : submissionOf p.request = some c) (usable : configUsable c = true)
    (runs : RunsAsSubmitted p) : ReadWhole p := by
  have accepted := usable_accepted found usable
  obtain ⟨d, read, _, durable, _⟩ := accepted_saved reliable accepted
  obtain rfl : c = d := Option.some.inj (found.symm.trans read)
  obtain ⟨e, runs, values⟩ := runs Flash reliable unprovisioned accepted Unit silent [] oneBoot
    (bootsInto ⟨[], [], []⟩ (entryOf c)) (by rw [durable]; exact List.mem_singleton_self _)
  have conf := runs.conf.symm.trans (stored_boots usable ⟨[], [], []⟩).conf
  intro k
  rw [← read_values found k, ← values k, conf]

/-- A 200 is kept, through restarts and whatever else happens, exactly when each value was read
    whole, or nothing of the kind is ever answered with 200. -/
theorem runs_as_submitted_iff (p : Post) : RunsAsSubmitted p ↔ ReadWhole p ∨ TurnedDown p := by
  constructor
  · intro runs
    rcases turned_down_or_usable p with down | ⟨c, found, usable⟩
    · exact Or.inr down
    · exact Or.inl (boot_reads found usable runs)
  · intro kept σ nvs portal accepted Parser parse mac life booted member
    rcases kept with whole | down
    · obtain ⟨c, found, every⟩ :=
        accepted_submission_runs nvs parse mac p.request portal accepted life
      exact ⟨c, every booted member, fun k => (read_values found k).trans (whole k)⟩
    · exact absurd accepted (turned_down_refused down nvs portal).answered

/-- Answered with 200, and the device boots into the submitted network without the submitted
    passphrase. -/
theorem passphrase_left_behind :
    (savePost reliable.answer longBody.request unprovisioned).1.map Reply.status =
        some okStatus ∧
      valueOf longBody.body .pass = ascii "blue door 7" ∧
      (∀ booted ∈ emitted (Life.step silent []) ⟨reliable.durable
          (savePost reliable.answer longBody.request unprovisioned).2.nvs, none⟩ oneBoot,
        booted.source = .nvs ∧ booted.conf.passphrase.text = []) ∧
      ¬ RunsAsSubmitted longBody := by
  obtain ⟨c, found, usable⟩ := (Option.any_eq_true _ _).mp
    (by decide +kernel : (submissionOf longBody.request).any configUsable = true)
  have submitted : valueOf longBody.body .pass = ascii "blue door 7" := by decide +kernel
  have lost : c.passphrase.text = [] := by
    have read : (submissionOf longBody.request).map (·.passphrase.text) = some [] := by
      decide +kernel
    simpa [found] using read
  have accepted := usable_accepted found usable
  refine ⟨accepted, submitted, ?_, ?_⟩
  · intro booted member
    obtain ⟨d, read, every⟩ :=
      accepted_submission_runs reliable silent [] longBody.request unprovisioned accepted oneBoot
    obtain rfl : c = d := Option.some.inj (found.symm.trans read)
    have runs := every booted member
    exact ⟨runs.source, runs.conf ▸ lost⟩
  · intro runs
    have whole := boot_reads found usable runs .pass
    rw [← read_values found .pass, submitted] at whole
    exact absurd (lost.symm.trans whole) (by decide)

end GplugSubmittedValues
