import Mathlib.Tactic.Common
import GplugMini.AcceptedSubmission

/- One call of provisioning_run: the portal is up, its loop polls, and its server answers
   submissions until it is stopped, whatever comes first. -/
namespace GplugPortalSession
open ByteText EmittingRun GplugConfig GplugConfigStore GplugProvisioning GplugBootDecision
open GplugNet GplugMainLoop GplugAcceptedSubmission GplugSubmission

def timeoutMs : Nat := 5 * 60 * 1000
def apSsidMax : Nat := 32
def apPassphraseMax : Nat := 63

def shownOctets (mac : Fin 6 → UInt8) : Bytes :=
  hexByte (mac 3) ++ hexByte (mac 4) ++ hexByte (mac 5)

/-- A text that snprintf wrote whole; the functions return its length, and zero for none. -/
def whole (text : Bytes) (cap : Nat) : Option Bytes :=
  if 0 < text.length ∧ text.length < cap then some text else none

def apSsid (mac : Fin 6 → UInt8) (cap : Nat) : Option Bytes :=
  whole (ascii "gplug-" ++ shownOctets mac) cap

def apPassphrase (mac : Fin 6 → UInt8) (cap : Nat) : Option Bytes :=
  match whole (ascii "gplug" ++ shownOctets mac) cap with
  | none => none
  | some text => if text.length < wpa2MinPassphrase then none else some text

inductive Moment where
  | poll (micros : Nat)
  | post (req : Request)
  | stop

inductive Phase where
  | running
  | left
  | stopped (submitted : Bool)
  deriving DecidableEq, Repr

structure Session (σ : Type) where
  portal : Portal σ
  phase : Phase

structure Answered where
  request : Request
  status : Option Bytes

section
variable {σ : Type} (answer : σ → (op : NvsOp) → op.Answer × σ) (deadline : Nat)

/-- The server answers until httpd_stop, also after the loop was left; what is returned is
    read after that. -/
def Session.step (s : Session σ) : Moment → Session σ × List Answered
  | .poll micros =>
      (if s.phase = .running ∧ (s.portal.submitted = true ∨ deadline ≤ micros)
        then { s with phase := .left } else s, [])
  | .post req =>
      match s.phase with
      | .stopped _ => (s, [])
      | _ =>
          let (reply, portal) := savePost answer req s.portal
          ({ s with portal := portal }, [⟨req, reply.map Reply.status⟩])
  | .stop =>
      (if s.phase = .left then { s with phase := .stopped s.portal.submitted } else s, [])

end

structure Outcome (σ : Type) where
  returned : Option Bool
  portal : Portal σ
  answered : List Answered

def provisioningRun {σ : Type} (answer : σ → (op : NvsOp) → op.Answer × σ) (mac : Fin 6 → UInt8)
    (httpdStarts : Bool) (micros : Nat) (portal : Portal σ) (moments : List Moment) : Outcome σ :=
  match apSsid mac (apSsidMax + 1), apPassphrase mac (apPassphraseMax + 1) with
  | some _, some _ =>
      if httpdStarts then
        let deadline := micros + timeoutMs * 1000
        let s := final (Session.step answer deadline) ⟨portal, .running⟩ moments
        ⟨match s.phase with | .stopped submitted => some submitted | _ => none, s.portal,
          emitted (Session.step answer deadline) ⟨portal, .running⟩ moments⟩
      else ⟨some false, portal, []⟩
  | _, _ => ⟨some false, portal, []⟩

def failedStatus : Bytes := notStored.status

def Answered.Accepted (a : Answered) : Prop := a.status = some okStatus

def Answered.Tried (a : Answered) : Prop := a.status = some okStatus ∨ a.status = some failedStatus

instance (a : Answered) : Decidable a.Accepted := inferInstanceAs (Decidable (_ = _))

instance (a : Answered) : Decidable a.Tried := inferInstanceAs (Decidable (_ ∨ _))

section
variable {σ : Type} {answer : σ → (op : NvsOp) → op.Answer × σ} {deadline : Nat}

variable (answer) in
theorem post_cases (req : Request) (portal : Portal σ) :
    let status := (savePost answer req portal).1.map Reply.status
    let after := (savePost answer req portal).2
    (status = some okStatus ∧ after.submitted = true) ∨
      (status = some failedStatus ∧ after.submitted = portal.submitted) ∨
      (status ≠ some okStatus ∧ status ≠ some failedStatus ∧ after = portal) := by
  have refused (fault : ConfigFault) : (refusal fault).status ≠ okStatus ∧
      (refusal fault).status ≠ failedStatus := by
    have status : (refusal fault).status = ascii "400 Bad Request" := rfl
    rw [status]
    decide
  unfold savePost
  split
  · exact .inr (.inr ⟨nofun, nofun, rfl⟩)
  · split
    · exact .inr (.inr ⟨by simpa using (refused _).1, by simpa using (refused _).2, rfl⟩)
    · split
      · exact .inr (.inr ⟨by simpa using (refused _).1, by simpa using (refused _).2, rfl⟩)
      · simp only
        split
        · exact .inl ⟨rfl, rfl⟩
        · exact .inr (.inl ⟨rfl, rfl⟩)

variable (answer deadline) in
theorem step_cases (s : Session σ) (m : Moment) :
    ((s.step answer deadline m).2 = [] ∧ (s.step answer deadline m).1.portal = s.portal) ∨
      ∃ req, (s.step answer deadline m).2 =
          [⟨req, (savePost answer req s.portal).1.map Reply.status⟩] ∧
        (s.step answer deadline m).1.portal = (savePost answer req s.portal).2 ∧
        (s.step answer deadline m).1.phase = s.phase ∧ ∀ r, s.phase ≠ .stopped r := by
  cases m with
  | poll micros =>
    left
    refine ⟨rfl, ?_⟩
    unfold Session.step
    dsimp only
    split <;> rfl
  | post req =>
    unfold Session.step
    cases phase : s.phase with
    | stopped r => exact .inl ⟨rfl, rfl⟩
    | running => exact .inr ⟨req, rfl, rfl, rfl, nofun⟩
    | left => exact .inr ⟨req, rfl, rfl, rfl, nofun⟩
  | stop =>
    left
    refine ⟨rfl, ?_⟩
    unfold Session.step
    dsimp only
    split <;> rfl

/-- A session tells of a submission once it is over, and only of what is flagged then. -/
def Told (s : Session σ) : Prop := ∀ r, s.phase = .stopped r → r = s.portal.submitted

theorem step_told {s : Session σ} (told : Told s) (m : Moment) :
    Told (s.step answer deadline m).1 := by
  intro r stopped
  rcases step_cases answer deadline s m with
    ⟨_, same⟩ | ⟨req, _, _, phase, serving⟩
  · rw [same]
    cases m with
    | poll micros =>
      unfold Session.step at stopped
      dsimp only at stopped
      split at stopped
      · cases stopped
      · exact told r stopped
    | post req =>
      unfold Session.step at stopped
      cases phase : s.phase with
      | stopped q =>
        rw [phase] at stopped
        exact told r (phase ▸ stopped)
      | running => simp [phase] at stopped
      | left => simp [phase] at stopped
    | stop =>
      unfold Session.step at stopped
      dsimp only at stopped
      split at stopped
      · exact (Phase.stopped.inj stopped).symm
      · exact told r stopped
  · exact absurd (phase ▸ stopped) (serving r)

variable (answer deadline) in
theorem run_told (moments : List Moment) {s : Session σ} (told : Told s) :
    Told (final (Session.step answer deadline) s moments) := by
  induction moments generalizing s with
  | nil => exact told
  | cons m moments ih => exact ih (step_told told m)

variable (answer deadline) in
theorem run_submitted (moments : List Moment) (s : Session σ) :
    (final (Session.step answer deadline) s moments).portal.submitted = true ↔
      s.portal.submitted = true ∨
        ∃ a ∈ emitted (Session.step answer deadline) s moments, a.Accepted := by
  induction moments generalizing s with
  | nil => simp
  | cons m moments ih =>
    rw [final_cons, ih, emitted]
    simp only [List.mem_append, or_and_right, exists_or]
    rw [← or_assoc]
    apply or_congr_left
    rcases step_cases answer deadline s m with
      ⟨quiet, same⟩ | ⟨req, replied, portal, _⟩
    · rw [quiet, same]
      simp
    · rw [replied, portal]
      simp only [List.mem_singleton, exists_eq_left, Answered.Accepted]
      rcases post_cases answer req s.portal with
        ⟨ok, raised⟩ | ⟨failed, kept⟩ | ⟨notOk, _, kept⟩
      · simp [ok, raised]
      · rw [failed, kept]
        simp [show failedStatus ≠ okStatus by decide]
      · rw [kept]
        simp [notOk]

theorem run_untried (moments : List Moment) {s : Session σ}
    (untried : ∀ a ∈ emitted (Session.step answer deadline) s moments, ¬ a.Tried) :
    (final (Session.step answer deadline) s moments).portal = s.portal := by
  induction moments generalizing s with
  | nil => rfl
  | cons m moments ih =>
    rw [emitted] at untried
    rw [final_cons, ih fun a later => untried a (List.mem_append_right _ later)]
    rcases step_cases answer deadline s m with
      ⟨_, same⟩ | ⟨req, replied, portal, _⟩
    · exact same
    · rw [portal]
      rw [replied] at untried
      have calm := untried _ List.mem_cons_self
      rcases post_cases answer req s.portal with
        ⟨ok, _⟩ | ⟨failed, _⟩ | ⟨_, _, kept⟩
      · exact absurd (.inl ok) calm
      · exact absurd (.inr failed) calm
      · exact kept

end

section
variable {σ : Type} (nvs : Nvs σ) {deadline : Nat}

theorem run_stored (moments : List Moment) {s : Session σ} {a : Answered}
    {before after : List Answered}
    (split : emitted (Session.step nvs.answer deadline) s moments = before ++ a :: after)
    (accepted : a.Accepted) (calm : ∀ b ∈ after, ¬ b.Tried) :
    ∃ c, submissionOf a.request = some c ∧ configUsable c = true ∧
      nvs.durable (final (Session.step nvs.answer deadline) s moments).portal.nvs = entryOf c := by
  induction moments generalizing s before with
  | nil => simp at split
  | cons m moments ih =>
    rw [emitted] at split
    rw [final_cons]
    rcases step_cases nvs.answer deadline s m with
      ⟨quiet, _⟩ | ⟨req, replied, portal, _⟩
    · rw [quiet, List.nil_append] at split
      exact ih split
    · rw [replied, List.singleton_append] at split
      cases before with
      | nil =>
        obtain ⟨first, rest⟩ := List.cons.inj split
        subst first
        rw [run_untried moments (by rw [rest]; exact calm), portal]
        obtain ⟨c, found, usable, durable, _⟩ := accepted_saved nvs accepted
        exact ⟨c, found, usable, durable⟩
      | cons b before => exact ih (List.cons.inj split).2

end

/- The network the portal is reached over. -/

theorem identity_derived (mac : Fin 6 → UInt8) :
    apSsid mac (apSsidMax + 1) = some (ascii "gplug-" ++ shownOctets mac) ∧
      apPassphrase mac (apPassphraseMax + 1) = some (ascii "gplug" ++ shownOctets mac) := by
  have name : (ascii "gplug-" ++ shownOctets mac).length = 12 := rfl
  have secret : (ascii "gplug" ++ shownOctets mac).length = 11 := rfl
  constructor
  · rw [apSsid, whole, name]
    rfl
  · rw [apPassphrase, whole, secret]
    simp [apPassphraseMax, wpa2MinPassphrase, secret]

theorem hex_byte_shown (b : UInt8) : hyphen ∉ hexByte b := by
  have digit : ∀ n < 16, hexDigit n ≠ hyphen := by decide
  have small := b.toNat_lt
  simp only [hexByte, List.mem_cons, List.not_mem_nil, or_false, not_or]
  exact ⟨(digit _ (by omega)).symm, (digit _ (by omega)).symm⟩

theorem hex_byte_injective {b c : UInt8} (same : hexByte b = hexByte c) : b = c := by
  have digit : ∀ n < 16, ∀ m < 16, hexDigit n = hexDigit m → n = m := by decide
  have first := b.toNat_lt
  have second := c.toNat_lt
  obtain ⟨high, low, _⟩ : hexDigit (b.toNat / 16) = hexDigit (c.toNat / 16) ∧
      hexDigit (b.toNat % 16) = hexDigit (c.toNat % 16) ∧ True := by simpa [hexByte] using same
  have tops := digit _ (by omega) _ (by omega) high
  have rests := digit _ (by omega) _ (by omega) low
  apply UInt8.toNat_inj.mp
  omega

theorem shown_octets_iff (mac other : Fin 6 → UInt8) :
    shownOctets other = shownOctets mac ↔
      other 3 = mac 3 ∧ other 4 = mac 4 ∧ other 5 = mac 5 := by
  constructor
  · intro same
    obtain ⟨front, last⟩ := List.append_inj' same rfl
    obtain ⟨first, middle⟩ := List.append_inj' front rfl
    exact ⟨hex_byte_injective first, hex_byte_injective middle, hex_byte_injective last⟩
  · intro octets
    rw [shownOctets, octets.1, octets.2.1, octets.2.2, shownOctets]

/-- The network a device raises: whoever sees its name can type its passphrase, which WPA2
    takes, and two devices share either exactly when the last three octets of their addresses
    agree. -/
structure NetworkOf (mac : Fin 6 → UInt8) (name secret : Bytes) : Prop where
  named : apSsid mac (apSsidMax + 1) = some name ∧ name.length ≤ ssidOctets
  secured : apPassphrase mac (apPassphraseMax + 1) = some secret ∧
    wpa2MinPassphrase ≤ secret.length ∧ secret.length ≤ apPassphraseMax
  typed : secret = name.filter (· ≠ hyphen)
  shared : ∀ other : Fin 6 → UInt8,
    (apSsid other (apSsidMax + 1) = some name ↔
      other 3 = mac 3 ∧ other 4 = mac 4 ∧ other 5 = mac 5) ∧
    (apPassphrase other (apPassphraseMax + 1) = some secret ↔
      other 3 = mac 3 ∧ other 4 = mac 4 ∧ other 5 = mac 5)

theorem network_identity (mac : Fin 6 → UInt8) :
    NetworkOf mac (ascii "gplug-" ++ shownOctets mac) (ascii "gplug" ++ shownOctets mac) := by
  obtain ⟨name, secret⟩ := identity_derived mac
  refine ⟨⟨name, (by decide : 12 ≤ ssidOctets)⟩, ⟨secret, (by decide : wpa2MinPassphrase ≤ 11),
    (by decide : 11 ≤ apPassphraseMax)⟩, ?_, ?_⟩
  · have kept : (shownOctets mac).filter (· ≠ hyphen) = shownOctets mac := by
      rw [List.filter_eq_self]
      intro b shown
      have no : hyphen ∉ shownOctets mac := by simp [shownOctets, hex_byte_shown]
      simpa using fun same : b = hyphen => no (same ▸ shown)
    have front : (ascii "gplug-").filter (· ≠ hyphen) = ascii "gplug" := by decide
    rw [List.filter_append, kept, front]
  · intro other
    obtain ⟨otherName, otherSecret⟩ := identity_derived other
    rw [otherName, otherSecret, Option.some.injEq, Option.some.injEq, List.append_cancel_left_eq,
      List.append_cancel_left_eq, shown_octets_iff]
    exact ⟨Iff.rfl, Iff.rfl⟩

/-- What a call of provisioning_run leaves behind, and the network it was reached over. The
    record of a submission is the one save_post reads of its request. -/
structure LeavesBehind {σ : Type} (nvs : Nvs σ) (mac : Fin 6 → UInt8) (portal : Portal σ)
    (run : Outcome σ) (result : Bool) : Prop where
  network : ∃ name secret, NetworkOf mac name secret
  submitted : result = true ↔ ∃ a ∈ run.answered, a.Accepted
  untouched : (∀ a ∈ run.answered, ¬ a.Tried) → run.portal = portal
  stored : ∀ before a after, run.answered = before ++ a :: after → a.Accepted →
    (∀ b ∈ after, ¬ b.Tried) →
      ∃ c, submissionOf a.request = some c ∧
        ∀ (Parser : Type) (parse : Parser → Bytes → ParseOut Parser) (mac : Bytes)
          (life : List (LifeEvent Parser)),
          ∀ booted ∈ emitted (Life.step parse mac) ⟨nvs.durable run.portal.nvs, none⟩ life,
            RunsOn c booted

/-- Whatever is posted in whatever order around the polls, and whatever the storage refuses:
    provisioning_run tells of exactly the submissions answered with 200, leaves a storage
    nothing reached as it was, and leaves behind a device that runs on the record read of the
    last one stored. -/
theorem provisioning_leaves {σ : Type} (nvs : Nvs σ) (mac : Fin 6 → UInt8) (httpdStarts : Bool)
    (micros : Nat) {portal : Portal σ} (fresh : portal.submitted = false)
    (moments : List Moment) {result : Bool}
    (returned : (provisioningRun nvs.answer mac httpdStarts micros portal moments).returned =
      some result) :
    LeavesBehind nvs mac portal
      (provisioningRun nvs.answer mac httpdStarts micros portal moments) result := by
  have network : ∃ name secret, NetworkOf mac name secret := ⟨_, _, network_identity mac⟩
  obtain ⟨name, secret⟩ := identity_derived mac
  unfold provisioningRun at returned ⊢
  simp only [name, secret] at returned ⊢
  cases httpdStarts with
  | false =>
    obtain rfl : false = result := by simpa using returned
    exact ⟨network, by simp, fun _ => rfl, by simp⟩
  | true =>
    simp only [↓reduceIte] at returned ⊢
    have told : Told (⟨portal, .running⟩ : Session σ) := nofun
    have ended := run_told nvs.answer (micros + timeoutMs * 1000) moments told
    have flagged := run_submitted nvs.answer (micros + timeoutMs * 1000) moments
      ⟨portal, .running⟩
    refine ⟨network, ?_, run_untried moments, ?_⟩
    · cases phase : (final (Session.step nvs.answer (micros + timeoutMs * 1000))
          ⟨portal, .running⟩ moments).phase with
      | stopped r =>
        rw [phase] at returned
        obtain rfl : r = result := by simpa using returned
        rw [ended r phase, flagged]
        simp [fresh]
      | running => simp [phase] at returned
      | left => simp [phase] at returned
    · intro before a after split accepted calm
      obtain ⟨c, found, usable, durable⟩ := run_stored nvs moments split accepted calm
      exact ⟨c, found, fun Parser parse mac life => life_boots parse mac usable _ durable life⟩

def evening : List Moment :=
  [.poll 200000, .post (onePiece guests), .post (onePiece kitchen), .poll 400000, .stop]

theorem provisioning_leaves_kitchen :
    (provisioningRun reliable.answer (fun _ => 0x2A) true 0 unprovisioned evening).returned =
        some true ∧
      LeavesBehind reliable (fun _ => 0x2A) unprovisioned
        (provisioningRun reliable.answer (fun _ => 0x2A) true 0 unprovisioned evening) true := by
  have usable : configUsable kitchen = true := by decide
  have stored := fitting_stored usable ⟨by decide, by decide, by decide⟩ (one_piece_posts kitchen)
    unprovisioned
  have unfit : ¬ EncodedFits guests := fun fits => absurd fits.ssid (by decide)
  have refused := unfit_refused unfit (one_piece_posts guests) unprovisioned
  have returned : (provisioningRun reliable.answer (fun _ => 0x2A) true 0 unprovisioned
      evening).returned = some true := by
    have early : unprovisioned.submitted = false := rfl
    have flash : reliable.answer = Flash.answer := rfl
    obtain ⟨name, secret⟩ := identity_derived fun _ => 0x2A
    simp [provisioningRun, name, secret, evening, Session.step, flash, early, refused, stored,
      timeoutMs]
  exact ⟨returned, provisioning_leaves reliable _ true 0 rfl evening returned⟩

end GplugPortalSession
