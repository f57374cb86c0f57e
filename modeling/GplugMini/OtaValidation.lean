import Mathlib.Tactic.Common
import GplugMini.Device

/- Whether the running image is validated by broker sessions, and by nothing else. -/
namespace GplugOtaValidation
open ByteText EmittingRun GplugDevice GplugMainLoop GplugNet GplugOta

def Succeeds (api : ImageApi) : ImageCall → Prop
  | .getStatePartition => api.stateRead = true
  | .markAppValidCancelRollback => api.marked = true

def isMeter : Happening → Bool
  | .meter _ => true
  | _ => false

/-- The part of the device that validation depends on: all that is not named here leaves the
    image as it is. -/
def imageStep (s : Image) : Happening → Image × List ImageCall
  | .event .connected _ api => otaMarkValidOnSession s api
  | _ => (s, [])

def imageCalls (reports : List Report) : List ImageCall :=
  reports.filterMap fun r => match r with
    | .imageCall call => some call
    | .commandReturned _ => none

section
variable {Parser : Type} (parse : Parser → Bytes → ParseOut Parser) (mac : Bytes)

abbrev after (boot : Device Parser) (run : List Happening) : Device Parser :=
  final (Device.step parse mac) boot run

def history (boot : Device Parser) : List Happening → List Image
  | [] => []
  | h :: rest =>
      let d := (boot.step parse mac h).1
      if isMeter h then history d rest else d.image :: history d rest

/-- What is asked of one happening h of a boot that has come to d. -/
structure FollowsSession (d : Device Parser) (h : Happening) : Prop where
  only : (d.step parse mac h).1.image.state ≠ d.image.state →
    d.image.state = .pendingVerify ∧ (d.step parse mac h).1.image.state = .valid ∧
      ∃ created api, h = .event .connected created api
  validates : ∀ created api, h = .event .connected created api →
    (∀ call ∈ imageCalls (d.step parse mac h).2, Succeeds api call) →
      (d.step parse mac h).1.image.state ≠ .pendingVerify
  retries : ∀ created api, h = .event .connected created api → d.image.state = .pendingVerify →
    imageCalls (d.step parse mac h).2 = .getStatePartition ::
      if api.stateRead then [.markAppValidCancelRollback] else []

structure FollowsSessions (boot : Device Parser) (run : List Happening) : Prop where
  step : ∀ before h rest, run = before ++ h :: rest →
    FollowsSession parse mac (after parse mac boot before) h
  latch : (after parse mac boot run).image.validated = true →
    (after parse mac boot run).image.state ≠ .pendingVerify
  meter : ∀ other, other.filter (!isMeter ·) = run.filter (!isMeter ·) →
    history parse mac boot other = history parse mac boot run

end

section
variable {Parser : Type} {parse : Parser → Bytes → ParseOut Parser} {mac : Bytes}

theorem image_calls_map (calls : List ImageCall) : imageCalls (calls.map .imageCall) = calls := by
  simp [imageCalls, List.filterMap_map]

theorem device_image (parse : Parser → Bytes → ParseOut Parser) (mac : Bytes)
    (d : Device Parser) (h : Happening) :
    (d.step parse mac h).1.image = (imageStep d.image h).1 ∧
      imageCalls (d.step parse mac h).2 = (imageStep d.image h).2 := by
  cases h with
  | event e created api =>
    cases e with
    | connected =>
      rw [Device.step, event_connected]
      exact ⟨rfl, image_calls_map _⟩
    | data topic payload =>
      rw [Device.step, event_data]
      split <;> exact ⟨rfl, rfl⟩
    | _ =>
      rw [Device.step, event_other mac d (by simp) (by simp)]
      exact ⟨rfl, rfl⟩
  | _ => exact ⟨rfl, rfl⟩

end

def Latched (s : Image) : Prop := s.validated = true → s.state ≠ .pendingVerify

theorem mark_cases {s : Image} (latched : Latched s) (api : ImageApi) :
    let r := otaMarkValidOnSession s api
    (r = (s, []) ∧ s.state ≠ .pendingVerify) ∨
    (r = (s, [.getStatePartition]) ∧ api.stateRead = false) ∨
    (r.2 = [.getStatePartition] ∧ r.1.state = s.state ∧ s.state ≠ .pendingVerify) ∨
    (r.2 = [.getStatePartition, .markAppValidCancelRollback] ∧ s.state = .pendingVerify ∧
      api.stateRead = true ∧ (r.1 = ⟨.valid, true⟩ ∨
        (api.marked = false ∧ r.1.validated = false ∧ (r.1.state = .valid ∨ r.1 = s)))) := by
  obtain ⟨state, validated⟩ := s
  cases validated with
  | true => exact Or.inl ⟨rfl, latched rfl⟩
  | false =>
    cases read : api.stateRead with
    | false => exact Or.inr (Or.inl ⟨by simp [otaMarkValidOnSession, read], rfl⟩)
    | true =>
      by_cases pending : state = .pendingVerify
      · refine Or.inr (Or.inr (Or.inr ?_))
        cases marked : api.marked with
        | true => simp [otaMarkValidOnSession, read, pending, marked]
        | false =>
          cases written : api.written <;>
            simp [otaMarkValidOnSession, read, pending, marked, written]
      · exact Or.inr (Or.inr (Or.inl (by simp [otaMarkValidOnSession, read, pending])))

theorem image_step_latched {s : Image} (latched : Latched s) (h : Happening) :
    Latched (imageStep s h).1 := by
  cases h with
  | event e created api =>
    cases e with
    | connected =>
      rw [imageStep]
      rcases mark_cases latched api with ⟨same, _⟩ | ⟨same, _⟩ | ⟨_, state, fine⟩ |
        ⟨_, _, _, valid | ⟨_, unset, _⟩⟩
      · rw [same]
        exact latched
      · rw [same]
        exact latched
      · intro _
        rw [state]
        exact fine
      · rw [valid]
        intro _
        simp
      · intro set
        rw [unset] at set
        cases set
    | _ => exact latched
  | _ => exact latched

theorem image_step_changes {s : Image} (latched : Latched s) {h : Happening}
    (changed : (imageStep s h).1.state ≠ s.state) :
    s.state = .pendingVerify ∧ (imageStep s h).1.state = .valid ∧
      ∃ created api, h = .event .connected created api := by
  cases h with
  | event e created api =>
    cases e with
    | connected =>
      rw [imageStep] at changed ⊢
      rcases mark_cases latched api with ⟨same, _⟩ | ⟨same, _⟩ | ⟨_, state, _⟩ |
        ⟨_, pending, _, valid | ⟨_, _, valid | same⟩⟩
      · exact absurd (by rw [same]) changed
      · exact absurd (by rw [same]) changed
      · exact absurd state changed
      · exact ⟨pending, by rw [valid], created, api, rfl⟩
      · exact ⟨pending, valid, created, api, rfl⟩
      · exact absurd (by rw [same]) changed
    | _ => exact absurd rfl changed
  | _ => exact absurd rfl changed

theorem connected_validates {s : Image} (latched : Latched s) {api : ImageApi}
    (succeeds : ∀ call ∈ (otaMarkValidOnSession s api).2, Succeeds api call) :
    (otaMarkValidOnSession s api).1.state ≠ .pendingVerify := by
  rcases mark_cases latched api with ⟨same, fine⟩ | ⟨same, failed⟩ | ⟨_, state, fine⟩ |
    ⟨calls, _, _, valid | ⟨failed, _, _⟩⟩
  · rw [same]
    exact fine
  · rw [same] at succeeds
    have read : api.stateRead = true := succeeds .getStatePartition (by simp)
    rw [failed] at read
    cases read
  · rw [state]
    exact fine
  · rw [valid]
    simp
  · rw [calls] at succeeds
    have marked : api.marked = true := succeeds .markAppValidCancelRollback (by simp)
    rw [failed] at marked
    cases marked

theorem pending_retries {s : Image} (latched : Latched s) (pending : s.state = .pendingVerify)
    (api : ImageApi) : (otaMarkValidOnSession s api).2 = .getStatePartition ::
      if api.stateRead then [.markAppValidCancelRollback] else [] := by
  rcases mark_cases latched api with ⟨_, fine⟩ | ⟨same, failed⟩ | ⟨_, _, fine⟩ | ⟨calls, _, read, _⟩
  · exact absurd pending fine
  · rw [same, failed]
    rfl
  · exact absurd pending fine
  · rw [calls, read]
    rfl

section
variable {Parser : Type} (parse : Parser → Bytes → ParseOut Parser) (mac : Bytes)

theorem step_follows {d : Device Parser} (latched : Latched d.image) (h : Happening) :
    FollowsSession parse mac d h := by
  obtain ⟨image, calls⟩ := device_image parse mac d h
  constructor
  · intro changed
    rw [image] at changed ⊢
    exact image_step_changes latched changed
  · intro created api shape succeeds
    subst shape
    rw [calls] at succeeds
    rw [image]
    exact connected_validates latched succeeds
  · intro created api shape pending
    subst shape
    rw [calls]
    exact pending_retries latched pending api

theorem run_latched {boot : Device Parser} (latched : Latched boot.image)
    (run : List Happening) : Latched (after parse mac boot run).image := by
  induction run using List.reverseRecOn with
  | nil => exact latched
  | append_singleton run h ih =>
    rw [after, final_snoc, (device_image parse mac _ h).1]
    exact image_step_latched ih h

def imageHistory (s : Image) : List Happening → List Image
  | [] => []
  | h :: rest => (imageStep s h).1 :: imageHistory (imageStep s h).1 rest

theorem history_eq (boot : Device Parser) (run : List Happening) :
    history parse mac boot run = imageHistory boot.image (run.filter (!isMeter ·)) := by
  induction run generalizing boot with
  | nil => rfl
  | cons h rest ih =>
    have image := (device_image parse mac boot h).1
    cases meter : isMeter h with
    | true =>
      have kept : imageStep boot.image h = (boot.image, []) := by
        cases h <;> first | rfl | cases meter
      simp only [history, meter, List.filter_cons, Bool.not_true, Bool.false_eq_true, ↓reduceIte]
      rw [ih, image, kept]
    | false =>
      simp only [history, meter, List.filter_cons, Bool.not_false, Bool.false_eq_true, ↓reduceIte,
        imageHistory]
      rw [ih, image]

/-- Whatever image boots, and whatever its state, its validation follows the sessions. -/
theorem validation_follows_sessions (image : ImageState) (micros : Nat) (parser : Parser)
    (run : List Happening) :
    FollowsSessions parse mac (.start .boot image (.boot micros parser)) run := by
  have booted : Latched (Device.start .boot image (.boot micros parser) : Device Parser).image := by
    intro set
    cases set
  refine ⟨?_, run_latched parse mac booted run, ?_⟩
  · intro before h rest split
    exact step_follows parse mac (run_latched parse mac booted before) h
  · intro other same
    rw [history_eq, history_eq, same]

end

end GplugOtaValidation
