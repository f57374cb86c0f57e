import Mathlib.Logic.Function.Basic
import Mathlib.Tactic.Common
import GplugMini.OtaValidation

/- Updates over the lives of a device: what the call of esp_https_ota in download_task makes of
   the other slot, what the sessions of a boot make of the running image, and the bootloader
   between two boots. esp_https_ota and the bootloader are ESP-IDF's and parameters; so is
   whether rollback was configured, which sdkconfig.defaults does not do. -/
namespace GplugUpdateLives
open ByteText GplugDevice GplugMainLoop GplugNet GplugOta GplugOtaValidation

structure Slots (F : Type) where
  firmware : Bool → Option F
  state : Bool → ImageState
  active : Bool

/-- What ESP-IDF does to the slots while the given one runs: esp_https_ota on its way, and at
    its return with whether it succeeded, both in a world of servers and connections; and the
    bootloader, with the slot it boots. -/
structure Idf (F W : Type) where
  download : W → Slots F → Bool → Slots F
  finish : W → Slots F → Bool → Bool × Slots F
  boot : Slots F → Slots F × Bool

structure Chip (F Parser : Type) where
  slots : Slots F
  running : Bool
  device : Device Parser

/-- Something of the current boot, and the world at that time; or the next boot, whatever ended
    this one. -/
inductive Moment (W Parser : Type) where
  | happening (h : Happening) (world : W)
  | reset (micros : Nat) (parser : Parser)

section
variable {F W Parser : Type} (idf : Idf F W)

/-- A download that returns does so with what esp_https_ota returned. -/
def Idf.during (c : Chip F Parser) (world : W) : Happening → Happening × Slots F
  | .fetches i =>
      match c.device.ota.downloads[i]? with
      | some ⟨_, .running⟩ => (.fetches i, idf.download world c.slots c.running)
      | _ => (.fetches i, c.slots)
  | .returns i ok =>
      match c.device.ota.downloads[i]? with
      | some ⟨_, .fetching _⟩ =>
          let (done, slots) := idf.finish world c.slots c.running
          (.returns i done, slots)
      | _ => (.returns i ok, c.slots)
  | h => (h, c.slots)

def EndsWell (c : Chip F Parser) (h : Happening) (world : W) : Prop :=
  (∃ i ok own url, h = .returns i ok ∧
    c.device.ota.downloads[i]? = some ⟨own, .fetching url⟩) ∧
      (idf.finish world c.slots c.running).1 = true

variable (parse : Parser → Bytes → ParseOut Parser) (mac : Bytes)

def Chip.step (c : Chip F Parser) : Moment W Parser → Chip F Parser
  | .happening h world =>
      let (h, slots) := idf.during c world h
      let device := (c.device.step parse mac h).1
      let state := Function.update slots.state c.running device.image.state
      ⟨{ slots with state := state }, c.running, device⟩
  | .reset micros parser =>
      let (slots, slot) := idf.boot c.slots
      ⟨slots, slot, .start .boot (slots.state slot) (.boot micros parser)⟩

def Chip.after (c : Chip F Parser) (life : List (Moment W Parser)) : Chip F Parser :=
  life.foldl (Chip.step idf parse mac) c

/-- As first flashed over the cable: one image, of which otadata says nothing. -/
def Chip.flashed (image : F) (micros : Nat) (parser : Parser) : Chip F Parser where
  slots := ⟨fun slot => if slot then none else some image, fun _ => .undefined, false⟩
  running := false
  device := .start .boot .undefined (.boot micros parser)

def Chip.runs (c : Chip F Parser) : Option F := c.slots.firmware c.running

end

def Bootable (state : ImageState) : Prop := state = .valid ∨ state = .undefined

instance (state : ImageState) : Decidable (Bootable state) := inferInstanceAs (Decidable (_ ∨ _))

/-- What otadata says of an image that was just written and chosen. -/
def Fresh (rollback : Bool) (state : ImageState) : Prop :=
  state = if rollback then .new else .undefined

/-- Nothing but the contents of the slot that does not run was touched. -/
structure Spares {F : Type} (running : Bool) (s t : Slots F) : Prop where
  firmware : t.firmware running = s.firmware running
  state : t.state = s.state
  active : t.active = s.active

/-- ESP-IDF as it is documented. esp_https_ota writes to the slot that does not run, which it
    chooses for the next boot if all went well, and does nothing before the running image was
    confirmed. The bootloader tries a new image once and leaves one that got no verdict for the
    other slot, and it passes over a slot that holds no image it can load. -/
structure Documented {F W : Type} (rollback : Bool) (idf : Idf F W) : Prop where
  downloads : ∀ world s running, Spares running s (idf.download world s running)
  fails : ∀ world s running, (idf.finish world s running).1 = false →
    Spares running s (idf.finish world s running).2
  finishes : ∀ world s running, (idf.finish world s running).1 = true →
    (idf.finish world s running).2.firmware running = s.firmware running ∧
      (idf.finish world s running).2.state running = s.state running ∧
      (idf.finish world s running).2.active = (!running) ∧
      Fresh rollback ((idf.finish world s running).2.state (!running))
  refuses : rollback = true → ∀ world s running, s.state running = .pendingVerify →
    idf.download world s running = s ∧ idf.finish world s running = (false, s)
  images : ∀ s, (idf.boot s).1.firmware = s.firmware
  boots : ∀ s, (s.firmware s.active).isSome → Bootable (s.state s.active) →
    (idf.boot s).2 = s.active ∧ (idf.boot s).1.active = s.active ∧
      Bootable ((idf.boot s).1.state s.active)
  tries : rollback = true → ∀ s, (s.firmware s.active).isSome → s.state s.active = .new →
    Bootable (s.state (!s.active)) →
      (idf.boot s).2 = s.active ∧ (idf.boot s).1.active = s.active ∧
      (idf.boot s).1.state s.active = .pendingVerify ∧
      (idf.boot s).1.state (!s.active) = s.state (!s.active)
  reverts : rollback = true → ∀ s, s.state s.active = .pendingVerify →
    (s.firmware (!s.active)).isSome → Bootable (s.state (!s.active)) →
      (idf.boot s).2 = (!s.active) ∧ (idf.boot s).1.active = (!s.active) ∧
      (idf.boot s).1.state (!s.active) = s.state (!s.active)
  passes : ∀ s, s.firmware s.active = none → Fresh rollback (s.state s.active) →
    (s.firmware (!s.active)).isSome → Bootable (s.state (!s.active)) →
      (idf.boot s).2 = (!s.active) ∧
      ((idf.boot s).1.state s.active = s.state s.active ∨
        rollback = true ∧ (idf.boot s).1.state s.active = .pendingVerify) ∧
      (idf.boot s).1.state (!s.active) = s.state (!s.active)

/-- What otadata may say of a slot it names beside the one that runs: a fresh image, or one
    that was to be tried and could not be loaded. -/
def Waiting (rollback : Bool) (state : ImageState) : Prop :=
  Fresh rollback state ∨ rollback = true ∧ state = .pendingVerify

/-- The running image needs no verdict; otadata names its slot, or the other one for an image
    the bootloader has yet to try or could not load. -/
structure Settled {F Parser : Type} (rollback : Bool) (c : Chip F Parser) : Prop where
  bootable : Bootable c.device.image.state
  next : c.slots.active = c.running ∨
    c.slots.active = (!c.running) ∧ Waiting rollback (c.slots.state (!c.running))

/-- The running image awaits its verdict, and the one before it is there to go back to. -/
structure OnTrial {F Parser : Type} (c : Chip F Parser) : Prop where
  pending : c.device.image.state = .pendingVerify
  active : c.slots.active = c.running
  bootable : Bootable (c.slots.state (!c.running))
  intact : (c.slots.firmware (!c.running)).isSome

structure Stands {F Parser : Type} (rollback : Bool) (c : Chip F Parser) : Prop where
  told : c.slots.state c.running = c.device.image.state
  latched : Latched c.device.image
  intact : c.runs.isSome
  verdict : Settled rollback c ∨ rollback = true ∧ OnTrial c

section
variable {F W Parser : Type} {rollback : Bool} {idf : Idf F W}
  {parse : Parser → Bytes → ParseOut Parser} {mac : Bytes} {c : Chip F Parser}

theorem bootable_not_pending {state : ImageState} (bootable : Bootable state) :
    state ≠ .pendingVerify := by
  rcases bootable with rfl | rfl
  · decide
  · decide

theorem other_slot (slot : Bool) : (!slot) ≠ slot := by cases slot <;> decide

variable (idf c) in
/-- ESP-IDF comes into a happening in two places: a download that reads its URL, and one that
    returns. -/
theorem during_does (h : Happening) (world : W) :
    idf.during c world h = (h, c.slots) ∨
      (∃ i, h = .fetches i ∧
        idf.during c world h = (h, idf.download world c.slots c.running)) ∨
      ∃ i ok own url, h = .returns i ok ∧
        c.device.ota.downloads[i]? = some ⟨own, .fetching url⟩ ∧
        idf.during c world h = (.returns i (idf.finish world c.slots c.running).1,
          (idf.finish world c.slots c.running).2) := by
  cases h with
  | fetches i =>
    simp only [Idf.during]
    split
    · exact .inr (.inl ⟨i, rfl, rfl⟩)
    · exact .inl rfl
  | returns i ok =>
    simp only [Idf.during]
    split
    · rename_i own url found
      exact .inr (.inr ⟨i, ok, own, url, rfl, found, rfl⟩)
    · exact .inl rfl
  | _ => exact .inl rfl

theorem during_image (s : Image) (world : W) (h : Happening) :
    imageStep s (idf.during c world h).1 = imageStep s h := by
  rcases during_does idf c h world with does | ⟨i, rfl, does⟩ | ⟨i, ok, own, url, rfl, _, does⟩
  · rw [does]
  · rw [does]
  · rw [does]
    rfl

theorem spares_refl (running : Bool) (s : Slots F) : Spares running s s := ⟨rfl, rfl, rfl⟩

/-- A happening touches no more than the other slot's contents, or it is a download that ends
    well and leaves that slot to be booted next. -/
theorem during_cases (documented : Documented rollback idf) (h : Happening) (world : W) :
    let t := (idf.during c world h).2
    Spares c.running c.slots t ∨ EndsWell idf c h world ∧
      t.firmware c.running = c.slots.firmware c.running ∧
      t.state c.running = c.slots.state c.running ∧ t.active = (!c.running) ∧
      Fresh rollback (t.state (!c.running)) := by
  rcases during_does idf c h world with does | ⟨i, rfl, does⟩ |
    ⟨i, ok, own, url, rfl, found, does⟩
  · rw [does]
    exact .inl (spares_refl _ _)
  · rw [does]
    exact .inl (documented.downloads world c.slots c.running)
  · rw [does]
    cases done : (idf.finish world c.slots c.running).1 with
    | true =>
      exact .inr ⟨⟨⟨i, ok, own, url, rfl, found⟩, done⟩,
        documented.finishes world c.slots c.running done⟩
    | false => exact .inl (documented.fails world c.slots c.running done)

theorem refused_during (documented : Documented rollback idf) (on : rollback = true)
    (pending : c.slots.state c.running = .pendingVerify) (h : Happening) (world : W) :
    (idf.during c world h).2 = c.slots := by
  obtain ⟨download, finish⟩ := documented.refuses on world c.slots c.running pending
  rcases during_does idf c h world with does | ⟨_, _, does⟩ | ⟨_, _, _, _, _, _, does⟩
  · rw [does]
  · rw [does, download]
  · rw [does, finish]

variable (idf parse mac) in
theorem happening_state (latched : Latched c.device.image) (h : Happening) (world : W) :
    let next := c.step idf parse mac (.happening h world)
    Latched next.device.image ∧ (next.device.image.state = c.device.image.state ∨
      c.device.image.state = .pendingVerify ∧ next.device.image.state = .valid ∧
        ∃ created api, h = .event .connected created api) := by
  have made : (c.step idf parse mac (.happening h world)).device.image =
      (imageStep c.device.image h).1 :=
    (device_image parse mac c.device (idf.during c world h).1).1.trans
      (congrArg Prod.fst (during_image c.device.image world h))
  refine ⟨?_, ?_⟩
  · rw [made]
    exact image_step_latched latched h
  · rw [made]
    by_cases same : (imageStep c.device.image h).1.state = c.device.image.state
    · exact .inl same
    · exact .inr (image_step_changes latched same)

variable (parse mac) in
theorem happening_stands (documented : Documented rollback idf) (stands : Stands rollback c)
    (h : Happening) (world : W) :
    Stands rollback (c.step idf parse mac (.happening h world)) := by
  obtain ⟨latched, state⟩ := happening_state idf parse mac stands.latched h world
  have touched := during_cases (c := c) documented h world
  have kept : (idf.during c world h).2.firmware c.running = c.slots.firmware c.running := by
    rcases touched with spares | ⟨_, firmware, _⟩
    · exact spares.firmware
    · exact firmware
  refine ⟨Function.update_self _ _ _, latched, ?_, ?_⟩
  · have intact := stands.intact
    rw [Chip.runs, ← kept] at intact
    exact intact
  · rcases stands.verdict with settled | ⟨on, trial⟩
    · refine .inl ⟨?_, ?_⟩
      · rcases state with same | ⟨pending, _⟩
        · rw [same]
          exact settled.bootable
        · exact absurd pending (bootable_not_pending settled.bootable)
      · simp only [Chip.step, Function.update_of_ne (other_slot c.running)]
        rcases touched with spares | ⟨_, _, _, active, fresh⟩
        · rw [spares.active, spares.state]
          exact settled.next
        · exact .inr ⟨active, .inl fresh⟩
    · have same := refused_during documented on (stands.told.trans trial.pending) h world
      rcases state with unjudged | ⟨_, valid, _⟩
      · refine .inr ⟨on, unjudged.trans trial.pending, ?_, ?_, ?_⟩
        · simp only [Chip.step, same, trial.active]
        · simpa only [Chip.step, same, Function.update_of_ne (other_slot c.running)]
            using trial.bootable
        · simpa only [Chip.step, same] using trial.intact
      · refine .inl ⟨.inl valid, .inl ?_⟩
        simp only [Chip.step, same, trial.active]

/-- The slot the next boot takes, and what otadata says then. -/
inductive NextBoot (rollback : Bool) (c : Chip F Parser) (slots : Slots F) (slot : Bool) :
    Prop where
  | same (settled : Settled rollback c) (here : slot = c.running)
      (bootable : Bootable (slots.state slot))
      (next : slots.active = slot ∨ slots.active = (!slot) ∧
        Waiting rollback (slots.state (!slot)) ∧ slots.firmware (!slot) = none)
  | tried (settled : Settled rollback c) (on : rollback = true) (there : slot = !c.running)
      (chosen : c.slots.active = !c.running) (active : slots.active = slot)
      (pending : slots.state slot = .pendingVerify) (back : Bootable (slots.state c.running))
  | untried (settled : Settled rollback c) (there : slot = !c.running)
      (chosen : c.slots.active = !c.running) (active : slots.active = slot)
      (bootable : Bootable (slots.state slot))
  | reverted (trial : OnTrial c) (there : slot = !c.running) (active : slots.active = slot)
      (bootable : Bootable (slots.state slot))

/-- A boot that finds a slot to boot beside the one that ran. -/
theorem waiting_boot (documented : Documented rollback idf) (settled : Settled rollback c)
    (active : c.slots.active = !c.running) (waiting : Waiting rollback (c.slots.state (!c.running)))
    (intact : (c.slots.firmware c.running).isSome)
    (bootable : Bootable (c.slots.state c.running)) :
    (c.slots.firmware (idf.boot c.slots).2).isSome ∧
      NextBoot rollback c (idf.boot c.slots).1 (idf.boot c.slots).2 := by
  have back : (!c.slots.active) = c.running := by rw [active, Bool.not_not]
  rw [← active] at waiting
  rw [← back] at intact bootable
  rcases waiting with fresh | ⟨on, pending⟩
  · cases whole : c.slots.firmware c.slots.active with
    | none =>
      obtain ⟨slot, left, state⟩ := documented.passes c.slots whole fresh intact bootable
      refine ⟨slot ▸ intact, .same settled (slot.trans back) (by rw [slot, state]; exact bootable)
        ?_⟩
      rw [slot, Bool.not_not, documented.images]
      by_cases named : (idf.boot c.slots).1.active = !c.slots.active
      · exact .inl named
      · have stays : (idf.boot c.slots).1.active = c.slots.active := by simpa using named
        refine .inr ⟨stays, ?_, whole⟩
        rcases left with same | tried
        · exact .inl (by rw [same]; exact fresh)
        · exact .inr tried
    | some image =>
      have found : (c.slots.firmware c.slots.active).isSome := by rw [whole]; rfl
      cases on : rollback with
      | true =>
        rw [on] at fresh
        obtain ⟨slot, named, pending, other⟩ := documented.tries on c.slots found fresh bootable
        refine ⟨slot ▸ found, .tried (on ▸ settled) rfl (slot.trans active) active
          (named.trans slot.symm) (by rw [slot, pending]) ?_⟩
        rw [← back, other]
        exact bootable
      | false =>
        rw [on] at fresh
        obtain ⟨slot, named, state⟩ := documented.boots c.slots found (.inr fresh)
        exact ⟨slot ▸ found, .untried (on ▸ settled) (slot.trans active) active
          (named.trans slot.symm) (by rw [slot]; exact state)⟩
  · obtain ⟨slot, named, state⟩ := documented.reverts on c.slots pending intact bootable
    exact ⟨slot ▸ intact, .same settled (slot.trans back) (by rw [slot, state]; exact bootable)
      (.inl (named.trans slot.symm))⟩

theorem next_boot (documented : Documented rollback idf) (stands : Stands rollback c) :
    (c.slots.firmware (idf.boot c.slots).2).isSome ∧
      NextBoot rollback c (idf.boot c.slots).1 (idf.boot c.slots).2 := by
  have intact : (c.slots.firmware c.running).isSome := stands.intact
  have told := stands.told
  rcases stands.verdict with settled | ⟨on, trial⟩
  · have bootable : Bootable (c.slots.state c.running) := told ▸ settled.bootable
    rcases settled.next with active | ⟨active, waiting⟩
    · rw [← active] at intact bootable
      obtain ⟨slot, named, state⟩ := documented.boots c.slots intact bootable
      exact ⟨slot ▸ intact, .same settled (slot.trans active) (by rw [slot]; exact state)
        (.inl (named.trans slot.symm))⟩
    · exact waiting_boot documented settled active waiting intact bootable
  · have pending : c.slots.state c.slots.active = .pendingVerify := by
      rw [trial.active, told, trial.pending]
    have other := trial.intact
    have bootable := trial.bootable
    rw [← trial.active] at other bootable
    obtain ⟨slot, named, state⟩ := documented.reverts on c.slots pending other bootable
    exact ⟨slot ▸ other, .reverted trial (by rw [slot, trial.active]) (named.trans slot.symm)
      (by rw [slot, state]; exact bootable)⟩

theorem reset_stands (documented : Documented rollback idf) (stands : Stands rollback c)
    (micros : Nat) (parser : Parser) :
    Stands rollback (c.step idf parse mac (.reset micros parser)) := by
  obtain ⟨whole, next⟩ := next_boot documented stands
  have images := documented.images c.slots
  refine ⟨rfl, nofun, ?_, ?_⟩
  · rw [← images] at whole
    exact whole
  · cases next with
    | same _ _ bootable next =>
      refine .inl ⟨bootable, ?_⟩
      rcases next with active | ⟨active, waiting, _⟩
      · exact .inl active
      · exact .inr ⟨active, waiting⟩
    | untried _ _ _ active bootable => exact .inl ⟨bootable, .inl active⟩
    | reverted _ _ active bootable => exact .inl ⟨bootable, .inl active⟩
    | tried _ on there _ active pending back =>
      have other : (!(idf.boot c.slots).2) = c.running := by rw [there, Bool.not_not]
      refine .inr ⟨on, pending, active, ?_, ?_⟩
      · change Bootable ((idf.boot c.slots).1.state (!(idf.boot c.slots).2))
        rw [other]
        exact back
      · change ((idf.boot c.slots).1.firmware (!(idf.boot c.slots).2)).isSome
        rw [other, images]
        exact stands.intact

theorem life_stands (documented : Documented rollback idf) (stands : Stands rollback c)
    (life : List (Moment W Parser)) : Stands rollback (c.after idf parse mac life) := by
  induction life generalizing c with
  | nil => exact stands
  | cons m life ih =>
    cases m with
    | happening h world => exact ih (happening_stands parse mac documented stands h world)
    | reset micros parser => exact ih (reset_stands documented stands micros parser)

theorem flashed_stands (image : F) (micros : Nat) (parser : Parser) :
    Stands rollback (Chip.flashed image micros parser) :=
  ⟨rfl, nofun, rfl, .inl ⟨.inr rfl, .inl rfl⟩⟩

/- Inside one boot. -/

def happenings (mid : List (Happening × W)) : List (Moment W Parser) :=
  mid.map fun (h, world) => .happening h world

variable (idf parse mac) in
def Unfinished : Chip F Parser → List (Happening × W) → Prop
  | _, [] => True
  | c, (h, world) :: mid =>
      ¬ EndsWell idf c h world ∧ Unfinished (c.step idf parse mac (.happening h world)) mid

variable (parse mac) in
theorem step_keeps (documented : Documented rollback idf) {h : Happening} {world : W}
    (unfinished : ¬ EndsWell idf c h world) :
    let next := c.step idf parse mac (.happening h world)
    next.slots.active = c.slots.active ∧ next.runs = c.runs := by
  rcases during_cases (c := c) documented h world with spares | ⟨ends, _⟩
  · exact ⟨spares.active, spares.firmware⟩
  · exact absurd ends unfinished

variable (idf parse mac c) in
theorem step_firmware (h : Happening) (world : W) :
    (c.step idf parse mac (.happening h world)).slots.firmware =
      (idf.during c world h).2.firmware := rfl

def Session (api : ImageApi) : Prop := api.stateRead = true ∧ api.marked = true

theorem session_validates (documented : Documented rollback idf) (stands : Stands rollback c)
    (created : Bool) {api : ImageApi} (session : Session api) (world : W) :
    Bootable (c.step idf parse mac
      (.happening (.event .connected created api) world)).device.image.state := by
  have next := happening_stands parse mac documented stands (.event .connected created api) world
  rcases next.verdict with settled | ⟨_, trial⟩
  · exact settled.bootable
  · have marked : (c.step idf parse mac (.happening (.event .connected created api)
        world)).device.image = (otaMarkValidOnSession c.device.image api).1 :=
      (device_image parse mac c.device (.event .connected created api)).1
    have fine : (otaMarkValidOnSession c.device.image api).1.state ≠ .pendingVerify := by
      apply connected_validates stands.latched
      intro call _
      cases call with
      | getStatePartition => exact session.1
      | markAppValidCancelRollback => exact session.2
    exact absurd (marked ▸ trial.pending) fine

variable (parse mac) in
/-- A boot in which no download ends well ends with the image it began with, confirmed if it
    was or a session confirmed it. -/
theorem boot_keeps (documented : Documented rollback idf) (stands : Stands rollback c)
    {mid : List (Happening × W)} (unfinished : Unfinished idf parse mac c mid)
    (proven : Bootable c.device.image.state ∨
      ∃ x ∈ mid, ∃ created api, x.1 = .event .connected created api ∧ Session api) :
    let last := c.after idf parse mac (happenings mid)
    last.slots.active = c.slots.active ∧ last.running = c.running ∧ last.runs = c.runs ∧
      Bootable last.device.image.state := by
  induction mid generalizing c with
  | nil =>
    refine ⟨rfl, rfl, rfl, proven.resolve_right ?_⟩
    simp
  | cons x mid ih =>
    obtain ⟨h, world⟩ := x
    obtain ⟨now, later⟩ := unfinished
    obtain ⟨active, runs⟩ := step_keeps parse mac documented now
    have next := happening_stands parse mac documented stands h world
    have goes : Bootable (c.step idf parse mac (.happening h world)).device.image.state ∨
        ∃ x ∈ mid, ∃ created api, x.1 = .event .connected created api ∧ Session api := by
      rcases proven with bootable | ⟨x, among, created, api, shape, session⟩
      · obtain ⟨_, same | ⟨pending, _⟩⟩ :=
          happening_state idf parse mac stands.latched h world
        · rw [same]
          exact .inl bootable
        · exact absurd pending (bootable_not_pending bootable)
      · rcases List.mem_cons.mp among with rfl | rest
        · obtain rfl : h = .event .connected created api := shape
          exact .inl (session_validates documented stands created session world)
        · exact .inr ⟨x, rest, created, api, shape, session⟩
    obtain ⟨named, here, same, fine⟩ := ih next later goes
    exact ⟨named.trans active, here, same.trans runs, fine⟩

variable (parse mac) in
theorem trial_keeps (documented : Documented rollback idf) (stands : Stands rollback c)
    (pending : c.device.image.state = .pendingVerify) {mid : List (Happening × W)}
    (sessionless : ∀ x ∈ mid, ∀ created api, x.1 ≠ .event .connected created api) :
    let last := c.after idf parse mac (happenings mid)
    last.device.image.state = .pendingVerify ∧ last.running = c.running ∧
      last.slots.firmware = c.slots.firmware := by
  induction mid generalizing c with
  | nil => exact ⟨pending, rfl, rfl⟩
  | cons x mid ih =>
    obtain ⟨h, world⟩ := x
    obtain ⟨now, later⟩ := List.forall_mem_cons.mp sessionless
    have next := happening_stands parse mac documented stands h world
    have untouched : (idf.during c world h).2 = c.slots := by
      rcases stands.verdict with settled | ⟨on, trial⟩
      · exact absurd pending (bootable_not_pending settled.bootable)
      · exact refused_during documented on (stands.told.trans pending) h world
    have still : (c.step idf parse mac (.happening h world)).device.image.state =
        .pendingVerify := by
      obtain ⟨_, same | ⟨_, _, created, api, shape⟩⟩ :=
        happening_state idf parse mac stands.latched h world
      · exact same.trans pending
      · exact absurd shape (now created api)
    obtain ⟨ends, running, firmware⟩ := ih next still later
    refine ⟨ends, running, firmware.trans ?_⟩
    rw [step_firmware, untouched]

def Quiet (s : Ota) : Prop := ∀ d ∈ s.downloads, ∀ url, d.phase ≠ .fetching url

theorem set_quiet {s : Ota} (quiet : Quiet s) (i : Nat) {d : Download}
    (phase : ∀ url, d.phase ≠ .fetching url) : ∀ e ∈ s.downloads.set i d, ∀ url,
      e.phase ≠ .fetching url := by
  intro e member
  rcases List.mem_or_eq_of_mem_set member with old | rfl
  · exact quiet e old
  · exact phase

theorem command_quiet {s : Ota} (quiet : Quiet s) (payload : Bytes) (created : Bool) :
    Quiet (otaHandleCommand s payload created).1 := by
  unfold otaHandleCommand
  split
  · exact quiet
  · split
    · exact quiet
    · cases created with
      | false => exact quiet
      | true =>
        intro d member
        rcases List.mem_append.mp member with old | new
        · exact quiet d old
        · rw [List.mem_singleton.mp new]
          nofun

theorem step_quiet {s : Ota} (quiet : Quiet s) (step : Step) (other : ∀ i, step ≠ .fetches i) :
    Quiet (s.step step) := by
  cases step with
  | command payload created => exact command_quiet quiet payload created
  | starts i =>
    simp only [Ota.step]
    split
    · exact set_quiet quiet i nofun
    · exact quiet
  | indicates i =>
    simp only [Ota.step]
    split
    · exact set_quiet quiet i nofun
    · exact quiet
  | fetches i => exact absurd rfl (other i)
  | returns i ok =>
    simp only [Ota.step]
    split
    · rename_i own url found
      exact absurd rfl (quiet _ (List.mem_of_getElem? found) url)
    · exact quiet
  | ends =>
    simp only [Ota.step]
    split
    · exact quiet
    · exact quiet
  | restarts i =>
    simp only [Ota.step]
    split
    · nofun
    · exact quiet

variable (parse mac) in
theorem device_quiet {d : Device Parser} (quiet : Quiet d.ota) {h : Happening}
    (other : ∀ i, h ≠ .fetches i) : Quiet (d.step parse mac h).1.ota := by
  cases h with
  | event e created api =>
    cases e with
    | connected =>
      rw [Device.step, event_connected]
      exact quiet
    | data topic payload =>
      rw [Device.step, event_data]
      split
      · exact command_quiet quiet payload created
      · exact quiet
    | _ =>
      rw [Device.step, event_other mac d (by simp) (by simp)]
      exact quiet
  | starts i => exact step_quiet quiet (.starts i) (by simp)
  | indicates i => exact step_quiet quiet (.indicates i) (by simp)
  | fetches i => exact absurd rfl (other i)
  | returns i ok => exact step_quiet quiet (.returns i ok) (by simp)
  | ends => exact step_quiet quiet .ends (by simp)
  | meter p => exact quiet

variable (idf) in
theorem quiet_during (quiet : Quiet c.device.ota) {h : Happening} (other : ∀ i, h ≠ .fetches i)
    (world : W) :
    (idf.during c world h).2 = c.slots ∧ ∀ i, (idf.during c world h).1 ≠ .fetches i := by
  rcases during_does idf c h world with does | ⟨i, fetches, _⟩ | ⟨i, _, own, url, _, found, _⟩
  · rw [does]
    exact ⟨rfl, other⟩
  · exact absurd fetches (other i)
  · exact absurd rfl (quiet _ (List.mem_of_getElem? found) url)

variable (idf parse mac) in
theorem boot_untouched (quiet : Quiet c.device.ota) {mid : List (Happening × W)}
    (idle : ∀ x ∈ mid, ∀ i, x.1 ≠ .fetches i) :
    (c.after idf parse mac (happenings mid)).slots.firmware = c.slots.firmware := by
  induction mid generalizing c with
  | nil => rfl
  | cons x mid ih =>
    obtain ⟨h, world⟩ := x
    obtain ⟨now, later⟩ := List.forall_mem_cons.mp idle
    obtain ⟨untouched, other⟩ := quiet_during idf quiet now world
    have next : Quiet (c.step idf parse mac (.happening h world)).device.ota :=
      device_quiet parse mac quiet other
    refine (ih next later).trans ?_
    rw [step_firmware]
    exact congrArg Slots.firmware untouched

end

/-- What becomes of the image of one boot: old is the chip before that boot, trial right after
    it, next after another one, with these happenings in between. An image that needs no
    verdict or got one is booted again unless a download ends well; where otadata names the
    other slot, which holds nothing that could be loaded, unless one begins. -/
structure Verdict {F W Parser : Type} (rollback : Bool) (idf : Idf F W)
    (parse : Parser → Bytes → ParseOut Parser) (mac : Bytes) (old trial next : Chip F Parser)
    (mid : List (Happening × W)) : Prop where
  stands : ∃ slot, (old.slots.firmware slot).isSome ∧ Bootable (old.slots.state slot)
  boots : trial.runs.isSome ∧ (Bootable trial.device.image.state ∨
    rollback = true ∧ trial.device.image.state = .pendingVerify)
  reverts : trial.device.image.state = .pendingVerify →
    (∀ x ∈ mid, ∀ created api, x.1 ≠ .event .connected created api) →
      next.runs = old.runs ∧ Bootable next.device.image.state
  remains : Unfinished idf parse mac trial mid →
    (trial.slots.active = trial.running ∨ ∀ x ∈ mid, ∀ i, x.1 ≠ .fetches i) →
    (Bootable trial.device.image.state ∨
      ∃ x ∈ mid, ∃ created api, x.1 = .event .connected created api ∧ Session api) →
        next.runs = trial.runs ∧ Bootable next.device.image.state

theorem somewhere_bootable {F Parser : Type} {rollback : Bool} {old : Chip F Parser}
    (stands : Stands rollback old) :
    ∃ slot, (old.slots.firmware slot).isSome ∧ Bootable (old.slots.state slot) := by
  rcases stands.verdict with settled | ⟨_, trial⟩
  · exact ⟨old.running, stands.intact, stands.told ▸ settled.bootable⟩
  · exact ⟨!old.running, trial.intact, trial.bootable⟩

section
variable {F W Parser : Type} {rollback : Bool} {idf : Idf F W}
  (documented : Documented rollback idf) (parse : Parser → Bytes → ParseOut Parser) (mac : Bytes)
  {old : Chip F Parser} (stands : Stands rollback old)
include documented stands

theorem trial_began {micros : Nat} {parser : Parser}
    (pending : (old.step idf parse mac (.reset micros parser)).device.image.state =
      .pendingVerify) :
    (old.step idf parse mac (.reset micros parser)).running = !old.running := by
  obtain ⟨_, next⟩ := next_boot documented stands
  cases next with
  | same _ _ bootable _ => exact absurd pending (bootable_not_pending bootable)
  | untried _ _ _ _ bootable => exact absurd pending (bootable_not_pending bootable)
  | reverted _ _ _ bootable => exact absurd pending (bootable_not_pending bootable)
  | tried _ _ there _ _ _ _ => exact there

theorem trial_reverts (pending : old.device.image.state = .pendingVerify) (micros : Nat)
    (parser : Parser) :
    let next := old.step idf parse mac (.reset micros parser)
    next.runs = old.slots.firmware (!old.running) ∧ Bootable next.device.image.state := by
  have unsettled : ¬ Settled rollback old := fun settled =>
    bootable_not_pending settled.bootable pending
  obtain ⟨_, next⟩ := next_boot documented stands
  cases next with
  | same settled _ _ _ => exact absurd settled unsettled
  | tried settled _ _ _ _ _ _ => exact absurd settled unsettled
  | untried settled _ _ _ _ => exact absurd settled unsettled
  | reverted _ there _ bootable =>
    refine ⟨?_, bootable⟩
    change (idf.boot old.slots).1.firmware (idf.boot old.slots).2 = _
    rw [documented.images, there]

theorem named_empty (micros : Nat) (parser : Parser) :
    let next := old.step idf parse mac (.reset micros parser)
    next.slots.active = next.running ∨ next.slots.firmware (!next.running) = none := by
  obtain ⟨_, next⟩ := next_boot documented stands
  cases next with
  | same _ _ _ next => exact next.imp_right fun waiting => waiting.2.2
  | tried _ _ _ _ active _ _ => exact .inl active
  | untried _ _ _ active _ => exact .inl active
  | reverted _ _ active _ => exact .inl active

/-- An image that needs no verdict, with no other one to boot, is booted again. -/
theorem proven_stays
    (alone : old.slots.active = old.running ∨ old.slots.firmware (!old.running) = none)
    (bootable : Bootable old.device.image.state) (micros : Nat) (parser : Parser) :
    let next := old.step idf parse mac (.reset micros parser)
    next.runs = old.runs ∧ Bootable next.device.image.state := by
  obtain ⟨whole, next⟩ := next_boot documented stands
  have never (there : (idf.boot old.slots).2 = !old.running)
      (chosen : old.slots.active = !old.running) : False := by
    rcases alone with here | empty
    · exact other_slot old.running (chosen.symm.trans here)
    · rw [there, empty] at whole
      cases whole
  cases next with
  | same _ here fine _ =>
    refine ⟨?_, fine⟩
    change (idf.boot old.slots).1.firmware (idf.boot old.slots).2 = old.slots.firmware old.running
    rw [documented.images, here]
  | tried _ _ there chosen _ _ _ => exact (never there chosen).elim
  | untried _ there chosen _ _ => exact (never there chosen).elim
  | reverted trial _ _ _ => exact absurd trial.pending (bootable_not_pending bootable)

end

/-- From the first flash on, through any boots, sessions, downloads and resets: some image that
    needs no verdict can always be booted; with rollback configured, an image whose first boot
    had no session gives way to the one that ran before it; and every image that had one, or
    any image where rollback is not configured, is booted again until a download ends well. -/
theorem update_verdict {F W Parser : Type} {rollback : Bool} {idf : Idf F W}
    (documented : Documented rollback idf) (parse : Parser → Bytes → ParseOut Parser)
    (mac : Bytes) (image : F) (micros : Nat) (parser : Parser) (life : List (Moment W Parser))
    (later : Nat) (first : Parser) (mid : List (Happening × W)) (again : Nat) (anew : Parser) :
    let old := (Chip.flashed image micros parser).after idf parse mac life
    let trial := old.step idf parse mac (.reset later first)
    let last := trial.after idf parse mac (happenings mid)
    Verdict rollback idf parse mac old trial (last.step idf parse mac (.reset again anew)) mid := by
  intro old trial last
  have standing : Stands rollback old :=
    life_stands documented (flashed_stands image micros parser) life
  have tried : Stands rollback trial := reset_stands documented standing later first
  have ended : Stands rollback last := life_stands documented tried (happenings mid)
  constructor
  · exact somewhere_bootable standing
  · refine ⟨tried.intact, ?_⟩
    rcases tried.verdict with settled | ⟨on, trial⟩
    · exact .inl settled.bootable
    · exact .inr ⟨on, trial.pending⟩
  · intro pending sessionless
    have other := trial_began documented parse mac standing pending
    obtain ⟨still, running, firmware⟩ :=
      trial_keeps parse mac documented tried pending sessionless
    have back := trial_reverts documented parse mac ended still again anew
    rw [running, firmware, other, Bool.not_not] at back
    refine ⟨back.1.trans ?_, back.2⟩
    exact congrFun (documented.images old.slots) old.running
  · intro unfinished idle proven
    obtain ⟨active, running, runs, bootable⟩ :=
      boot_keeps parse mac documented tried unfinished proven
    have alone : last.slots.active = last.running ∨ last.slots.firmware (!last.running) = none := by
      rw [active, running]
      rcases idle with here | idle
      · exact .inl here
      · have quiet : Quiet trial.device.ota := nofun
        rw [boot_untouched idf parse mac quiet idle]
        exact named_empty documented parse mac standing later first
    obtain ⟨same, fine⟩ := proven_stays documented parse mac ended alone bootable again anew
    exact ⟨same.trans runs, fine⟩

/-- ESP-IDF as far as it is documented; the world is the image a server delivers, if any. -/
def plainIdf (F : Type) (rollback : Bool) : Idf F (Option F) where
  download world s running :=
    if rollback && s.state running = .pendingVerify || world.isNone then s
    else { s with firmware := Function.update s.firmware (!running) none }
  finish world s running :=
    match world with
    | some image =>
        if rollback && s.state running = .pendingVerify then (false, s)
        else
          (true,
            { firmware := Function.update s.firmware (!running) (some image)
              state := Function.update s.state (!running) (if rollback then .new else .undefined)
              active := !running })
    | none => (false, s)
  boot s :=
    if rollback ∧ s.state s.active = .pendingVerify then
      ({ s with state := Function.update s.state s.active .aborted, active := !s.active },
        !s.active)
    else
      let chosen :=
        if rollback ∧ s.state s.active = .new then
          { s with state := Function.update s.state s.active .pendingVerify }
        else s
      (chosen, if (s.firmware s.active).isNone then !s.active else s.active)

theorem plain_documented (F : Type) (rollback : Bool) :
    Documented rollback (plainIdf F rollback) where
  downloads := by
    intro world s running
    simp only [plainIdf]
    split
    · exact spares_refl running s
    · exact ⟨Function.update_of_ne (other_slot running).symm _ _, rfl, rfl⟩
  fails := by
    intro world s running failed
    cases world with
    | none => exact spares_refl running s
    | some image =>
      simp only [plainIdf] at failed ⊢
      split
      · exact spares_refl running s
      · rename_i begun
        rw [if_neg begun] at failed
        cases failed
  finishes := by
    intro world s running done
    have apart := (other_slot running).symm
    cases world with
    | none => cases done
    | some image =>
      simp only [plainIdf] at done ⊢
      split
      · rename_i refused
        rw [if_pos refused] at done
        cases done
      · exact ⟨Function.update_of_ne apart _ _, Function.update_of_ne apart _ _, rfl,
          Function.update_self _ _ _⟩
  refuses := by
    intro on world s running pending
    refine ⟨by simp [plainIdf, on, pending], ?_⟩
    cases world <;> simp [plainIdf, on, pending]
  images := by
    intro s
    simp only [plainIdf]
    split_ifs <;> rfl
  boots := by
    intro s intact bootable
    have whole : s.firmware s.active ≠ none := Option.isSome_iff_ne_none.mp intact
    rcases bootable with valid | undefined
    · simp [plainIdf, whole, valid, Bootable]
    · simp [plainIdf, whole, undefined, Bootable]
  tries := by
    intro on s intact new _
    have whole : s.firmware s.active ≠ none := Option.isSome_iff_ne_none.mp intact
    simp [plainIdf, whole, new, on]
  reverts := by
    intro on s pending _ _
    simp [plainIdf, pending, on]
  passes := by
    intro s broken fresh _ _
    cases on : rollback with
    | true =>
      rw [on] at fresh
      have new : s.state s.active = .new := fresh
      simp [plainIdf, broken, new]
    | false => simp [plainIdf, broken]

def command : Event := .data (Topics.start []).otaTop (ascii "http://h/g.bin")

def updated : List (Moment (Option Nat) Unit) :=
  happenings [(.event .connected true works, none), (.event command true works, none),
    (.starts 0, none), (.indicates 0, none), (.fetches 0, some 2), (.returns 0 true, some 2)]

theorem update_verdict_reverted :
    let idf := plainIdf Nat true
    let old := (Chip.flashed 1 0 ()).after idf silent [] updated
    let trial := old.step idf silent [] (.reset 0 ())
    trial.runs = some 2 ∧ trial.device.image.state = .pendingVerify ∧
      Verdict true idf silent [] old trial (trial.step idf silent [] (.reset 0 ())) [] :=
  ⟨by decide, by decide,
    update_verdict (plain_documented Nat true) silent [] 1 0 () updated 0 () [] 0 ()⟩

end GplugUpdateLives
