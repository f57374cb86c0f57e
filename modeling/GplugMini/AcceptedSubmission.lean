import Mathlib.Tactic.Common
import GplugMini.BootDecision
import GplugMini.Device
import GplugMini.Submission

/- What the device runs on once a submission was answered with 200: every boot there will be,
   over a storage that returns what was committed. -/
namespace GplugAcceptedSubmission
open ByteText CallTree EmittingRun GplugConfig GplugConfigStore GplugProvisioning
open GplugBootDecision GplugDevice GplugMainLoop GplugNet GplugOta GplugSubmission

/-- A storage as the calls see it, any of which may fail. What it will return at a boot is
    what was set before the last successful commit. -/
structure Nvs (σ : Type) where
  answer : σ → (op : NvsOp) → op.Answer × σ
  written : σ → Flash
  durable : σ → Flash
  sets : ∀ s k text free, (answer s (.setStr k text free)).1 = true →
    written (answer s (.setStr k text free)).2 = Function.update (written s) k (.str text free)
  commits : ∀ s, (answer s .commit).1 = true → durable (answer s .commit).2 = written s
  closes : ∀ s, durable (answer s .close).2 = durable s

/-- The record that save_post finds in a request. -/
def submissionOf (req : Request) : Option Config :=
  (receive (min req.contentLen (bodySize - 1)) [] req.chunks).bind fun got => parse (cstr got)

section
variable {Parser : Type} (parse : Parser → Bytes → ParseOut Parser) (mac : Bytes)

structure Life (Parser : Type) where
  flash : Flash
  device : Option (Device Parser)

/-- A restart of whatever cause, with the build and the image it starts; and all that happens
    between two restarts. -/
inductive LifeEvent (Parser : Type) where
  | restart (build : BuildDefaults) (image : ImageState) (micros : Nat) (parser : Parser)
  | happening (h : Happening)

def Life.step (s : Life Parser) : LifeEvent Parser → Life Parser × List Booted
  | .restart build image micros parser =>
      let booted := bootsInto build s.flash
      let device := match booted.course with
        | .station _ _ => some (.start .boot image (.boot micros parser))
        | .provisioning _ => none
      ({ s with device := device }, [booted])
  | .happening h => ({ s with device := s.device.map fun d => (d.step parse mac h).1 }, [])

end

/-- The boot took the stored record, joins its network with all of its octets, and goes to
    its broker. -/
structure RunsOn (c : Config) (booted : Booted) : Prop where
  source : booted.source = .nvs
  conf : booted.conf = c
  station : ∃ sta, booted.course = .station sta c.broker.text ∧
    sta.ssid = c.ssid.text ++ List.replicate (ssidOctets - c.ssid.text.length) 0 ∧
    sta.password = c.passphrase.text ++
      List.replicate (passwordOctets - c.passphrase.text.length) 0 ∧
    (sta.authmode = .open ↔ c.passphrase.text = [])

variable {σ : Type} (nvs : Nvs σ)

theorem set_all_written {c : Config} (keys : List Key) (s : σ)
    (ok : ((setAll c keys).run nvs.answer s).1 = true) (k : Key)
    (held : k ∈ keys ∨ nvs.written s k = entryOf c k) :
    nvs.written ((setAll c keys).run nvs.answer s).2 k = entryOf c k := by
  induction keys generalizing s with
  | nil => exact held.resolve_left List.not_mem_nil
  | cons j rest ih =>
    simp only [setAll, bind_eq, perform_bind, run_call] at ok ⊢
    cases set : (nvs.answer s (.setStr j (c.get j).text (c.get j).free)).1 with
    | false =>
      simp only [set, Bool.false_eq_true, ↓reduceIte, pure_eq_ret, run_ret] at ok
    | true =>
      simp only [set, ↓reduceIte] at ok ⊢
      apply ih _ ok
      rw [nvs.sets s j _ _ set]
      by_cases same : k = j
      · subst same
        exact Or.inr (Function.update_self _ _ _)
      · rw [Function.update_of_ne same]
        rcases held with listed | earlier
        · exact Or.inl ((List.mem_cons.mp listed).resolve_left same)
        · exact Or.inr earlier

theorem config_save_durable {c : Config} {s : σ}
    (ok : ((configSave c).run nvs.answer s).1 = true) :
    configUsable c = true ∧
      nvs.durable ((configSave c).run nvs.answer s).2 = entryOf c := by
  unfold configSave at ok ⊢
  cases usable : configUsable c with
  | false => simp [usable] at ok
  | true =>
    refine ⟨rfl, ?_⟩
    simp only [usable, Bool.not_true, Bool.false_eq_true, ↓reduceIte, bind_eq, perform_bind,
      run_call] at ok ⊢
    cases opened : (nvs.answer s .openReadWrite).1 with
    | false => simp [opened] at ok
    | true =>
      simp only [opened, Bool.not_true, Bool.false_eq_true, ↓reduceIte, run_bind] at ok ⊢
      have every := set_all_written nvs [.ssid, .pass, .broker, .host]
        (nvs.answer s .openReadWrite).2 (c := c)
      cases set : ((setAll c [.ssid, .pass, .broker, .host]).run nvs.answer
          (nvs.answer s .openReadWrite).2).1 with
      | false => simp [set] at ok
      | true =>
        have whole : nvs.written ((setAll c [.ssid, .pass, .broker, .host]).run nvs.answer
            (nvs.answer s .openReadWrite).2).2 = entryOf c :=
          funext fun k => every set k (Or.inl (by cases k <;> simp))
        simp only [set, ↓reduceIte, run_call, pure_eq_ret, run_ret] at ok ⊢
        rw [nvs.closes, nvs.commits _ ok, whole]

theorem accepted_saved {req : Request} {portal : Portal σ}
    (accepted : (savePost nvs.answer req portal).1.map Reply.status = some okStatus) :
    ∃ c, submissionOf req = some c ∧ configUsable c = true ∧
      nvs.durable (savePost nvs.answer req portal).2.nvs = entryOf c ∧
      (savePost nvs.answer req portal).2.staged = c := by
  unfold savePost at accepted ⊢
  unfold submissionOf
  cases received : receive (min req.contentLen (bodySize - 1)) [] req.chunks with
  | none => simp [received] at accepted
  | some got =>
    cases parsed : GplugProvisioning.parse (cstr got) with
    | none => simp [received, parsed, refusal, okStatus, ascii] at accepted
    | some c =>
      by_cases fine : configFault c = .none
      · cases stored : ((configSave c).run nvs.answer portal.nvs).1 with
        | false => simp [received, parsed, fine, stored, notStored, okStatus, ascii] at accepted
        | true =>
          obtain ⟨usable, durable⟩ := config_save_durable nvs stored
          refine ⟨c, by simp [parsed], usable, ?_, ?_⟩
          · simpa [parsed, fine, stored] using durable
          · simp [parsed, fine, stored]
      · simp [received, parsed, fine, refusal, okStatus, ascii] at accepted

/-- Every boot from a flash that holds a usable record runs on that record. -/
theorem stored_boots {c : Config} (usable : configUsable c = true) (build : BuildDefaults) :
    RunsOn c (bootsInto build (entryOf c)) := by
  have loaded := boots_entries usable
  rw [boots_eq] at loaded
  have record : Flash.config (entryOf c) = c := (Prod.mk.inj loaded).2
  rw [boots_into_eq, record, if_pos usable]
  exact ⟨rfl, rfl, wifiStation c, rfl, (wifi_station_octets c).1, (wifi_station_octets c).2,
    wifi_station_open_iff c⟩

section
variable {Parser : Type} (parse : Parser → Bytes → ParseOut Parser) (mac : Bytes)

theorem life_step_flash (s : Life Parser) (e : LifeEvent Parser) :
    (s.step parse mac e).1.flash = s.flash := by
  cases e <;> rfl

theorem life_boots {c : Config} (usable : configUsable c = true) (s : Life Parser)
    (flash : s.flash = entryOf c) (life : List (LifeEvent Parser)) :
    ∀ booted ∈ emitted (Life.step parse mac) s life, RunsOn c booted := by
  induction life generalizing s with
  | nil => simp
  | cons e life ih =>
    intro booted member
    rw [emitted] at member
    rcases List.mem_append.mp member with now | later
    · cases e with
      | restart build image micros parser =>
        rw [List.mem_singleton.mp now, flash]
        exact stored_boots usable build
      | happening h => cases now
    · exact ih (s.step parse mac e).1 ((life_step_flash parse mac s e).trans flash) booted later

theorem accepted_submission_runs (req : Request) (portal : Portal σ)
    (accepted : (savePost nvs.answer req portal).1.map Reply.status = some okStatus)
    (life : List (LifeEvent Parser)) :
    ∃ c, submissionOf req = some c ∧
      ∀ booted ∈ emitted (Life.step parse mac)
        ⟨nvs.durable (savePost nvs.answer req portal).2.nvs, none⟩ life, RunsOn c booted := by
  obtain ⟨c, submitted, usable, durable, _⟩ := accepted_saved nvs accepted
  exact ⟨c, submitted, life_boots parse mac usable _ durable life⟩

end

def reliable : Nvs Flash where
  answer := Flash.answer
  written := id
  durable := id
  sets := fun _ _ _ _ _ => rfl
  commits := fun _ _ => rfl
  closes := fun _ => rfl

end GplugAcceptedSubmission
