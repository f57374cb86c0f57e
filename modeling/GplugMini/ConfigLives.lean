import Mathlib.Logic.Function.Basic
import Mathlib.Tactic.Common
import GplugMini.PortalSession

/- The stored configuration over all lives of the device: every boot opens the storage, decides
   on a course and may raise the portal, and power may be lost in the middle of a save. Only
   the portal writes to the namespace, so a life on the station path is its boot. -/
namespace GplugConfigLives
open ByteText CallTree EmittingRun GplugConfig GplugConfigStore GplugProvisioning
open GplugBootDecision GplugAcceptedSubmission GplugSubmission GplugPortalSession

inductive FlashErr where
  | ok
  | noFreePages
  | newVersionFound
  | other
  deriving DecidableEq, Repr

/-- How the calls of config_storage_init end; an erase that fails may have taken entries. -/
structure StorageCalls where
  first : FlashErr
  erased : Bool
  taken : Key → Bool
  second : FlashErr

def StorageCalls.Erases (calls : StorageCalls) : Prop :=
  calls.first = .noFreePages ∨ calls.first = .newVersionFound

instance (calls : StorageCalls) : Decidable calls.Erases := inferInstanceAs (Decidable (_ ∨ _))

/-- No result: ESP_ERROR_CHECK aborts on an erase that failed. -/
def configStorageInit (calls : StorageCalls) (flash : Flash) : Option FlashErr × Flash :=
  if calls.Erases then
    if calls.erased then (some calls.second, fun _ => .absent)
    else (none, fun k => if calls.taken k then .absent else flash k)
  else (some calls.first, flash)

/-- A storage mounted on a flash, with a script of what will fail. A text passed to nvs_set_str
    may become durable at once or with any later call, and whether or not that succeeds; power
    lost is a script that keeps nothing from some call on. -/
structure TornNvs (Script σ : Type) extends Nvs σ where
  mount : Script → Flash → σ
  found : ∀ script flash, durable (mount script flash) = flash
  fresh : ∀ script flash, written (mount script flash) = flash
  takes : ∀ s k text free,
    (written (answer s (.setStr k text free)).2 k = written s k ∨
      written (answer s (.setStr k text free)).2 k = .str text free) ∧
    (durable (answer s (.setStr k text free)).2 k = durable s k ∨
      durable (answer s (.setStr k text free)).2 k = written s k ∨
      durable (answer s (.setStr k text free)).2 k = .str text free)
  keeps : ∀ s op k, (∀ text free, op ≠ .setStr k text free) →
    written (answer s op).2 k = written s k ∧
    (durable (answer s op).2 k = durable s k ∨ durable (answer s op).2 k = written s k)

/-- What a life meets: its build, its storage, and what happens at the portal if there is one. -/
structure Turn (Script : Type) where
  build : BuildDefaults
  calls : StorageCalls
  script : Script
  mac : Fin 6 → UInt8
  httpdStarts : Bool
  micros : Nat
  moments : List Moment

structure Woken where
  erased : Bool
  booted : Option Booted
  answered : List Answered

section
variable {Script σ : Type} (nvs : TornNvs Script σ)

def Turn.portal (t : Turn Script) (found : Flash) : Outcome σ :=
  provisioningRun nvs.answer t.mac t.httpdStarts t.micros ⟨nvs.mount t.script found, .blank, false⟩
    t.moments

def live (flash : Flash) (t : Turn Script) : Flash × Woken :=
  let erased := decide t.calls.Erases
  match configStorageInit t.calls flash with
  | (some .ok, found) =>
      let booted := bootsInto t.build found
      match booted.course with
      | .station _ _ => (found, ⟨erased, some booted, []⟩)
      | .provisioning _ =>
          let run := t.portal nvs found
          (nvs.durable run.portal.nvs, ⟨erased, some booted, run.answered⟩)
  | (_, left) => (left, ⟨erased, none, []⟩)

def lives (flash : Flash) (t : Turn Script) : Flash × List Woken :=
  ((live nvs flash t).1, [(live nvs flash t).2])

end

/-- A text of a usable record that reached the storage in one of these lives. -/
def Submitted (lives : List Woken) (k : Key) (text : Field k.cap) : Prop :=
  ∃ w ∈ lives, ∃ a ∈ w.answered, a.Tried ∧
    ∃ c, submissionOf a.request = some c ∧ configUsable c = true ∧ c.get k = text

def Origin (first : Flash) (lives : List Woken) (k : Key) (e : NvsEntry) : Prop :=
  e = first k ∨ (e = .absent ∧ ∃ w ∈ lives, w.erased = true) ∨
    ∃ c, Submitted lives k (c.get k) ∧ e = entryOf c k

/-- Once a boot took the stored record, every boot runs on it until an erase, and no portal
    takes a submission; each field of it was there first, was lost, or was submitted. -/
structure Settles (first : Flash) (run : List Woken) : Prop where
  stays : ∀ before w after booted, run = before ++ w :: after → w.booted = some booted →
    booted.source = .nvs → ∀ v ∈ after.takeWhile fun v => !v.erased,
      v.answered = [] ∧ ∀ later ∈ v.booted, RunsOn booted.conf later
  origin : ∀ before w after booted, run = before ++ w :: after → w.booted = some booted →
    booted.source = .nvs → ∀ k, booted.conf.get k = first.field k ∨
      ((booted.conf.get k).text = [] ∧ ∃ v ∈ before ++ [w], v.erased = true) ∨
      Submitted before k (booted.conf.get k)

section
variable {Script σ : Type} (nvs : TornNvs Script σ)

/- What a portal may leave in the storage. -/

def Holds (P : Key → NvsEntry → Prop) (s : σ) : Prop :=
  ∀ k, P k (nvs.durable s k) ∧ P k (nvs.written s k)

variable {nvs} {P : Key → NvsEntry → Prop} {s : σ}

theorem call_holds (held : Holds nvs P s) (op : NvsOp)
    (quiet : ∀ k text free, op ≠ .setStr k text free) : Holds nvs P (nvs.answer s op).2 := by
  intro k
  obtain ⟨written, durable⟩ := nvs.keeps s op k (quiet k)
  refine ⟨?_, by rw [written]; exact (held k).2⟩
  rcases durable with same | same <;> rw [same]
  · exact (held k).1
  · exact (held k).2

theorem set_holds (held : Holds nvs P s) {k : Key} {text : Bytes} {free : NulFree text}
    (admitted : P k (.str text free)) : Holds nvs P (nvs.answer s (.setStr k text free)).2 := by
  intro j
  by_cases same : j = k
  · subst same
    obtain ⟨written, durable⟩ := nvs.takes s j text free
    constructor
    · rcases durable with kept | kept | kept <;> rw [kept]
      · exact (held j).1
      · exact (held j).2
      · exact admitted
    · rcases written with kept | kept <;> rw [kept]
      · exact (held j).2
      · exact admitted
  · have other : ∀ text' free', NvsOp.setStr k text free ≠ .setStr j text' free' := by
      intro text' free' equal
      exact same (NvsOp.setStr.inj equal).1.symm
    obtain ⟨written, durable⟩ := nvs.keeps s _ j other
    refine ⟨?_, by rw [written]; exact (held j).2⟩
    rcases durable with kept | kept <;> rw [kept]
    · exact (held j).1
    · exact (held j).2

theorem set_all_holds {c : Config} (admitted : ∀ k, P k (entryOf c k)) (keys : List Key)
    (held : Holds nvs P s) : Holds nvs P ((setAll c keys).run nvs.answer s).2 := by
  induction keys generalizing s with
  | nil => exact held
  | cons k rest ih =>
    simp only [setAll, bind_eq, perform_bind, run_call]
    have set := set_holds held (admitted k)
    split
    · exact ih set
    · exact set

theorem config_save_holds {c : Config} (admitted : ∀ k, P k (entryOf c k))
    (held : Holds nvs P s) : Holds nvs P ((configSave c).run nvs.answer s).2 := by
  unfold configSave
  split
  · exact held
  · simp only [bind_eq, perform_bind, run_call]
    have opened := call_holds held .openReadWrite nofun
    split
    · exact opened
    · simp only [run_bind]
      have set := set_all_holds admitted [.ssid, .pass, .broker, .host] opened
      split
      · exact call_holds (call_holds set .commit nofun) .close nofun
      · exact call_holds set .close nofun

variable (nvs) in
theorem post_saves (req : Request) (portal : Portal σ) :
    (savePost nvs.answer req portal).2.nvs = portal.nvs ∨
      ∃ c, submissionOf req = some c ∧ configUsable c = true ∧
        Answered.Tried ⟨req, (savePost nvs.answer req portal).1.map Reply.status⟩ ∧
        (savePost nvs.answer req portal).2.nvs = ((configSave c).run nvs.answer portal.nvs).2 := by
  unfold savePost submissionOf
  cases received : receive (min req.contentLen (bodySize - 1)) [] req.chunks with
  | none => exact .inl rfl
  | some got =>
    simp only [Option.bind_some]
    cases parsed : GplugProvisioning.parse (cstr got) with
    | none => exact .inl rfl
    | some c =>
      by_cases fine : configFault c = .none
      · refine .inr ⟨c, rfl, by simpa [configUsable] using fine, ?_⟩
        cases stored : ((configSave c).run nvs.answer portal.nvs).1 with
        | true => exact ⟨.inl (by simp [fine, stored, saved]), by simp [fine, stored]⟩
        | false => exact ⟨.inr (by simp [fine, stored, failedStatus]), by simp [fine, stored]⟩
      · exact .inl (by simp [fine])

theorem session_holds {deadline : Nat} (moments : List Moment) {s : Session σ}
    (held : Holds nvs P s.portal.nvs)
    (admitted : ∀ a ∈ emitted (Session.step nvs.answer deadline) s moments, a.Tried →
      ∀ c, submissionOf a.request = some c → configUsable c = true → ∀ k, P k (entryOf c k)) :
    Holds nvs P (final (Session.step nvs.answer deadline) s moments).portal.nvs := by
  induction moments generalizing s with
  | nil => exact held
  | cons m moments ih =>
    rw [emitted] at admitted
    rw [final_cons]
    refine ih ?_ fun a later => admitted a (List.mem_append_right _ later)
    rcases step_cases nvs.answer deadline s m with
      ⟨_, same⟩ | ⟨req, replied, portal, _⟩
    · rw [same]
      exact held
    · rw [portal]
      rcases post_saves nvs req s.portal with same | ⟨c, found, usable, tried, run⟩
      · rw [same]
        exact held
      · rw [run]
        refine config_save_holds (admitted _ ?_ tried c found usable) held
        rw [replied]
        exact List.mem_append_left _ (List.mem_singleton_self _)

theorem portal_leaves (t : Turn Script) {found : Flash} (held : ∀ k, P k (found k))
    (admitted : ∀ a ∈ (t.portal nvs found).answered, a.Tried →
      ∀ c, submissionOf a.request = some c → configUsable c = true → ∀ k, P k (entryOf c k))
    (k : Key) : P k (nvs.durable (t.portal nvs found).portal.nvs k) := by
  have start : Holds nvs P (nvs.mount t.script found) := by
    intro k
    rw [nvs.found, nvs.fresh]
    exact ⟨held k, held k⟩
  obtain ⟨name, secret⟩ := identity_derived t.mac
  simp only [Turn.portal, provisioningRun, name, secret] at admitted ⊢
  cases starts : t.httpdStarts with
  | false => exact (start k).1
  | true =>
    simp only [starts, ↓reduceIte] at admitted
    exact (session_holds t.moments start admitted k).1

end

/- One life. -/

theorem init_entry (calls : StorageCalls) (flash : Flash) (k : Key) :
    (configStorageInit calls flash).2 k = flash k ∨
      (configStorageInit calls flash).2 k = .absent ∧ calls.Erases := by
  unfold configStorageInit
  split
  · split
    · exact .inr ⟨rfl, ‹_›⟩
    · dsimp only
      split
      · exact .inr ⟨rfl, ‹_›⟩
      · exact .inl rfl
  · exact .inl rfl

theorem init_spared {calls : StorageCalls} (spared : ¬ calls.Erases) (flash : Flash) :
    (configStorageInit calls flash).2 = flash := by
  rw [configStorageInit, if_neg spared]

theorem usable_boots {flash : Flash} (usable : configUsable flash.config = true)
    (build : BuildDefaults) : RunsOn flash.config (bootsInto build flash) := by
  rw [boots_into_eq, if_pos usable]
  exact ⟨rfl, rfl, wifiStation flash.config, rfl, (wifi_station_octets _).1,
    (wifi_station_octets _).2, wifi_station_open_iff _⟩

theorem stored_source {build : BuildDefaults} {flash : Flash}
    (stored : (bootsInto build flash).source = .nvs) :
    configUsable flash.config = true ∧ (bootsInto build flash).conf = flash.config := by
  rw [boots_into_eq] at stored ⊢
  by_cases usable : configUsable flash.config = true
  · rw [if_pos usable]
    exact ⟨usable, rfl⟩
  · rw [if_neg usable] at stored
    split at stored <;> cases stored

section
variable {Script σ : Type} (nvs : TornNvs Script σ)

theorem live_erased (flash : Flash) (t : Turn Script) :
    (live nvs flash t).2.erased = decide t.calls.Erases := by
  unfold live
  dsimp only
  split
  · split <;> rfl
  · rfl

inductive Lived (found : Flash) (t : Turn Script) (w : Woken) (left : Flash) : Prop where
  | aborted (unbooted : w.booted = none) (quiet : w.answered = []) (same : left = found)
  | ran (booted : w.booted = some (bootsInto t.build found)) (quiet : w.answered = [])
      (same : left = found)
  | raised (booted : w.booted = some (bootsInto t.build found))
      (source : (bootsInto t.build found).source = .build)
      (answered : w.answered = (t.portal nvs found).answered)
      (leaves : left = nvs.durable (t.portal nvs found).portal.nvs)

theorem build_source {build : BuildDefaults} {found : Flash} {fault : ConfigFault}
    (course : (bootsInto build found).course = .provisioning fault) :
    (bootsInto build found).source = .build := by
  rw [boots_into_eq] at course ⊢
  by_cases usable : configUsable found.config = true
  · rw [if_pos usable] at course
    cases course
  · rw [if_neg usable]
    split <;> rfl

theorem live_cases (flash : Flash) (t : Turn Script) :
    Lived nvs (configStorageInit t.calls flash).2 t (live nvs flash t).2 (live nvs flash t).1 := by
  unfold live
  rcases configStorageInit t.calls flash with ⟨err, found⟩
  dsimp only
  split
  · rename_i opened
    obtain ⟨rfl, rfl⟩ := Prod.mk.inj opened
    cases course : (bootsInto t.build found).course with
    | station config uri => exact .ran rfl rfl rfl
    | provisioning fault => exact .raised rfl (build_source course) rfl rfl
  · rename_i opened
    obtain ⟨rfl, rfl⟩ := Prod.mk.inj opened
    exact .aborted rfl rfl rfl

theorem settled_life {flash : Flash} (usable : configUsable flash.config = true)
    {t : Turn Script} (spared : ¬ t.calls.Erases) :
    (live nvs flash t).1 = flash ∧ (live nvs flash t).2.answered = [] ∧
      ∀ later ∈ (live nvs flash t).2.booted, RunsOn flash.config later := by
  have lived := live_cases nvs flash t
  rw [init_spared spared] at lived
  have runs := usable_boots usable t.build
  cases lived with
  | aborted unbooted quiet same =>
    rw [unbooted]
    exact ⟨same, quiet, nofun⟩
  | ran booted quiet same =>
    rw [booted]
    exact ⟨same, quiet, by simpa using runs⟩
  | raised booted source answered leaves =>
    rw [runs.source] at source
    cases source

theorem settled_lives {flash : Flash} (usable : configUsable flash.config = true)
    (turns : List (Turn Script)) :
    ∀ v ∈ (emitted (lives nvs) flash turns).takeWhile (fun v => !v.erased),
      v.answered = [] ∧ ∀ later ∈ v.booted, RunsOn flash.config later := by
  induction turns with
  | nil => simp
  | cons t turns ih =>
    rw [emitted, lives, List.singleton_append, List.takeWhile_cons, live_erased]
    by_cases erases : t.calls.Erases
    · simp [erases]
    · obtain ⟨same, quiet, runs⟩ := settled_life nvs usable erases
      rw [same]
      simp only [erases, decide_false, Bool.not_false, ↓reduceIte, List.mem_cons]
      rintro v (rfl | later)
      · exact ⟨quiet, runs⟩
      · exact ih v later

theorem submitted_mono {past : List Woken} {k : Key} {text : Field k.cap} (w : Woken)
    (submitted : Submitted past k text) : Submitted (past ++ [w]) k text := by
  obtain ⟨v, earlier, rest⟩ := submitted
  exact ⟨v, List.mem_append_left _ earlier, rest⟩

theorem origin_mono {first : Flash} {past : List Woken} {k : Key} {e : NvsEntry} (w : Woken)
    (known : Origin first past k e) : Origin first (past ++ [w]) k e := by
  rcases known with held | ⟨lost, v, earlier, erased⟩ | ⟨c, submitted, held⟩
  · exact .inl held
  · exact .inr (.inl ⟨lost, v, List.mem_append_left _ earlier, erased⟩)
  · exact .inr (.inr ⟨c, submitted_mono w submitted, held⟩)

theorem found_origin {first flash : Flash} {past : List Woken}
    (known : ∀ k, Origin first past k (flash k)) (t : Turn Script) (k : Key) :
    Origin first (past ++ [(live nvs flash t).2]) k ((configStorageInit t.calls flash).2 k) := by
  rcases init_entry t.calls flash k with same | ⟨lost, erases⟩
  · rw [same]
    exact origin_mono _ (known k)
  · refine .inr (.inl ⟨lost, (live nvs flash t).2, by simp, ?_⟩)
    rw [live_erased]
    exact decide_eq_true erases

theorem life_origin {first flash : Flash} {past : List Woken}
    (known : ∀ k, Origin first past k (flash k)) (t : Turn Script) (k : Key) :
    Origin first (past ++ [(live nvs flash t).2]) k ((live nvs flash t).1 k) := by
  have found := found_origin nvs known t
  cases live_cases nvs flash t with
  | aborted unbooted quiet same => rw [same]; exact found k
  | ran booted quiet same => rw [same]; exact found k
  | raised booted source answered leaves =>
    rw [leaves]
    refine portal_leaves t found ?_ k
    intro a member tried c submission usable k
    rw [← answered] at member
    exact .inr (.inr ⟨c, ⟨_, by simp, a, member, tried, c, submission, usable, rfl⟩, rfl⟩)

theorem run_origin (first : Flash) (turns : List (Turn Script)) (k : Key) :
    Origin first (emitted (lives nvs) first turns) k (final (lives nvs) first turns k) := by
  induction turns using List.reverseRecOn generalizing k with
  | nil => exact .inl rfl
  | append_singleton turns t ih =>
    rw [emitted_snoc, final_snoc]
    exact life_origin nvs ih t k

theorem origin_field {first flash : Flash} {before : List Woken} {w : Woken} {k : Key}
    (quiet : w.answered = []) (known : Origin first (before ++ [w]) k (flash k)) :
    flash.field k = first.field k ∨
      ((flash.field k).text = [] ∧ ∃ v ∈ before ++ [w], v.erased = true) ∨
      Submitted before k (flash.field k) := by
  rcases known with same | ⟨lost, erased⟩ | ⟨c, ⟨v, member, a, answered, rest⟩, same⟩
  · exact .inl (by rw [Flash.field, same, Flash.field])
  · exact .inr (.inl ⟨by rw [Flash.field, lost]; rfl, erased⟩)
  · have field : flash.field k = c.get k := by
      rw [Flash.field, same, entryOf, read_stored]
      rfl
    rw [field]
    refine .inr (.inr ⟨v, ?_, a, answered, rest⟩)
    rcases List.mem_append.mp member with earlier | now
    · exact earlier
    · rw [List.mem_singleton.mp now, quiet] at answered
      cases answered

theorem stored_life {flash : Flash} {t : Turn Script} {booted : Booted}
    (woken : (live nvs flash t).2.booted = some booted) (stored : booted.source = .nvs) :
    (live nvs flash t).2.answered = [] ∧ configUsable (live nvs flash t).1.config = true ∧
      booted.conf = (live nvs flash t).1.config ∧
      (live nvs flash t).1 = (configStorageInit t.calls flash).2 := by
  cases live_cases nvs flash t with
  | aborted unbooted quiet same =>
    rw [unbooted] at woken
    cases woken
  | ran boots quiet same =>
    obtain rfl := Option.some.inj (boots.symm.trans woken)
    obtain ⟨usable, conf⟩ := stored_source stored
    rw [same]
    exact ⟨quiet, usable, conf, rfl⟩
  | raised boots source answered leaves =>
    obtain rfl := Option.some.inj (boots.symm.trans woken)
    rw [stored] at source
    cases source

/-- Whatever the builds, the storage's failures and erases, the power cuts and the submissions:
    the first record that a boot takes from the storage stays until an erase, and nothing in it
    is anyone's but a submitter's. -/
theorem configuration_lives (first : Flash) (turns : List (Turn Script)) :
    Settles first (emitted (lives nvs) first turns) := by
  have single (flash : Flash) (t : Turn Script) :
      (lives nvs flash t).2 = [(live nvs flash t).2] := rfl
  constructor
  · intro before w after booted split woken stored
    obtain ⟨earlier, t, rest, _, _, rfl, rfl⟩ := emitted_split single split
    obtain ⟨_, usable, conf, _⟩ := stored_life nvs woken stored
    rw [conf, final_snoc]
    exact settled_lives nvs usable rest
  · intro before w after booted split woken stored k
    obtain ⟨earlier, t, rest, _, rfl, rfl, _⟩ := emitted_split single split
    obtain ⟨quiet, _, conf, leaves⟩ := stored_life nvs woken stored
    have known := found_origin nvs (run_origin nvs first earlier) t k
    rw [← leaves] at known
    have field := origin_field quiet known
    rw [← flash_config_get, ← conf] at field
    exact field

end

structure Powered where
  durable : Flash
  written : Flash
  calls : Nat

def refused : (op : NvsOp) → op.Answer
  | .openReadOnly | .openReadWrite | .setStr _ _ _ | .commit => false
  | .getStr _ => none
  | .close => ()

def Powered.answer (s : Powered) (op : NvsOp) : op.Answer × Powered :=
  match s.calls, op with
  | 0, op => (refused op, s)
  | n + 1, .openReadOnly | n + 1, .openReadWrite => (true, { s with calls := n })
  | n + 1, .getStr k => ((s.durable k).read k.cap, { s with calls := n })
  | n + 1, .setStr k text free =>
      (true, ⟨Function.update s.durable k (.str text free),
        Function.update s.written k (.str text free), n⟩)
  | n + 1, .commit => (true, ⟨s.written, s.written, n⟩)
  | n + 1, .close => ((), { s with calls := n })

def powered : TornNvs Nat Powered where
  answer := Powered.answer
  written := Powered.written
  durable := Powered.durable
  mount calls flash := ⟨flash, flash, calls⟩
  sets := by
    rintro ⟨durable, written, _ | n⟩ k text free ok
    · cases ok
    · rfl
  commits := by
    rintro ⟨durable, written, _ | n⟩ ok
    · cases ok
    · rfl
  closes := by
    rintro ⟨durable, written, _ | n⟩ <;> rfl
  found _ _ := rfl
  fresh _ _ := rfl
  takes := by
    rintro ⟨durable, written, _ | n⟩ k text free
    · exact ⟨.inl rfl, .inl rfl⟩
    · exact ⟨.inr (Function.update_self _ _ _), .inr (.inr (Function.update_self _ _ _))⟩
  keeps := by
    rintro ⟨durable, written, _ | n⟩ op k quiet
    · exact ⟨rfl, .inl rfl⟩
    · cases op with
      | setStr j text free =>
        have other : k ≠ j := by
          rintro rfl
          exact quiet text free rfl
        exact ⟨Function.update_of_ne other _ _, .inl (Function.update_of_ne other _ _)⟩
      | commit => exact ⟨rfl, .inr rfl⟩
      | _ => exact ⟨rfl, .inl rfl⟩

def opens : StorageCalls := ⟨.ok, true, fun _ => false, .ok⟩

def evenings : List (Turn Nat) :=
  [⟨⟨[], [], []⟩, opens, 4, fun _ => 0x2A, true, 0, [.post (onePiece kitchen)]⟩,
    ⟨⟨[], [], []⟩, opens, 9, fun _ => 0x2A, true, 0, [.post (onePiece guests)]⟩]

/-- The device runs without the hostname it was given, and no portal asks for it again. -/
theorem configuration_lives_cut :
    (emitted (lives powered) (fun _ => .absent) evenings).map
        (fun w => w.booted.map fun b => (b.source, b.conf)) =
      [some (.build, .blank), some (.nvs, { kitchen with hostname := Config.blank.hostname })] ∧
      Settles (fun _ => .absent) (emitted (lives powered) (fun _ => .absent) evenings) :=
  ⟨by decide +kernel, configuration_lives powered _ evenings⟩

end GplugConfigLives
