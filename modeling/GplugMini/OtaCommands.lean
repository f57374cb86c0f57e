import Mathlib.Tactic.Common
import GplugMini.Device

/- Which messages start a download: the topic comparison of the network module, the copy and
   the checks of the update module, and what either leaves in pending_url. -/
namespace GplugOtaCommands
open ByteText EmittingRun GplugDevice GplugMainLoop GplugNet GplugOta

def commandTopic (octets : Fin 6 → UInt8) : Bytes :=
  ascii "gplug/" ++ macText octets ++ ascii "/cmd/ota"

/-- The whole payload is a URL of 12 to 255 visible characters. -/
structure Qualifies (payload : Bytes) : Prop where
  least : 12 ≤ payload.length
  most : payload.length ≤ 255
  visible : ∀ b ∈ payload, 0x20 < b
  scheme : ∃ rest, rest ≠ [] ∧
    (payload = ascii "http://" ++ rest ∨ payload = ascii "https://" ++ rest)

variable {Parser : Type}

def Commanded (octets : Fin 6 → UInt8) (d : Device Parser) (topic payload : Bytes)
    (created : Bool) : Prop :=
  topic = commandTopic octets ∧ otaInProgress d.ota = false ∧ created = true ∧ Qualifies payload

/-- One message starts the download it asks for, or is refused without a trace. -/
structure Triggers (octets : Fin 6 → UInt8) (d : Device Parser) (topic payload : Bytes)
    (created : Bool) (after : Device Parser × List Report) : Prop where
  started : Commanded octets d topic payload created →
    after.2 = [.commandReturned true] ∧ after.1.ota.pendingUrl = payload ∧
      after.1.ota.downloads = d.ota.downloads ++ [⟨payload, .created⟩]
  refused : ¬ Commanded octets d topic payload created →
    .commandReturned true ∉ after.2 ∧ after.1.ota.pendingUrl = d.ota.pendingUrl ∧
      after.1.ota.downloads = d.ota.downloads

/-- What the length-bounded comparison takes for the topic: its beginnings, and the topic
    with a NUL and anything behind it. -/
def PassesFor (topic whole : Bytes) : Prop :=
  topic ≠ [] ∧ (topic <+: whole ∨ ∃ junk, topic = whole ++ 0 :: junk)

/-- A message that gets as far as pending_url came on the whole topic, is no longer than the
    C string in it, and gets its task; without a task it repeats the pending URL. -/
def Straight (octets : Fin 6 → UInt8) (d : Device Parser) (topic payload : Bytes)
    (created : Bool) : Prop :=
  PassesFor topic (commandTopic octets) → otaInProgress d.ota = false → accepts payload = true →
    if created then topic = commandTopic octets ∧ NulFree payload
    else cstr payload = d.ota.pendingUrl

theorem command_topic (octets : Fin 6 → UInt8) :
    (Topics.start (macText octets)).otaTop = commandTopic octets := by
  have size : (commandTopic octets).length ≤ 95 := by
    simp [commandTopic, mac_text_length, ascii]
  exact List.take_of_length_le size

theorem command_topic_nul_free (octets : Fin 6 → UInt8) : NulFree (commandTopic octets) := by
  rw [commandTopic, nul_free_append, nul_free_append]
  exact ⟨⟨by decide, mac_text_nul_free octets⟩, by decide⟩

theorem topic_matches_iff {whole : Bytes} (free : NulFree whole) (topic : Bytes) :
    topicMatches topic whole = true ↔ topic <+: whole ∨ ∃ junk, topic = whole ++ 0 :: junk := by
  rw [topicMatches, beq_iff_eq, cstr_of_nul_free (nul_free_take free _)]
  constructor
  · intro same
    by_cases clean : NulFree topic
    · rw [cstr_of_nul_free clean] at same
      exact Or.inl (List.prefix_iff_eq_take.mpr same)
    · have ended : 0 ∈ topic := by
        simpa [NulFree] using clean
      obtain ⟨junk, split⟩ := cstr_ended ended
      -- the NUL is behind the whole text: before it nothing of the text is cut away
      have longer : whole.length ≤ topic.length := by
        have cut := congrArg List.length same
        have size := congrArg List.length split
        rw [List.length_take] at cut
        rw [List.length_append, List.length_cons] at size
        omega
      rw [List.take_of_length_le longer] at same
      exact Or.inr ⟨junk, same ▸ split⟩
  · intro passes
    rcases passes with short | ⟨junk, rfl⟩
    · rw [cstr_of_nul_free fun b member => free b (short.subset member)]
      exact List.prefix_iff_eq_take.mp short
    · rw [cstr_append_nul free, List.take_of_length_le (by simp)]

theorem http_url {text : Bytes} (http : text.take 4 = ascii "http")
    (colon : (text.drop 4).take 3 = ascii "://") : text = ascii "http://" ++ text.drop 7 := by
  have whole : text = text.take 4 ++ ((text.drop 4).take 3 ++ (text.drop 4).drop 3) := by
    rw [List.take_append_drop, List.take_append_drop]
  rw [http, colon, List.drop_drop] at whole
  exact whole

theorem https_url {text : Bytes} (http : text.take 4 = ascii "http")
    (secure : text.getD 4 0 = 115) (colon : (text.drop 5).take 3 = ascii "://") :
    text = ascii "https://" ++ text.drop 8 := by
  have letter : text.drop 4 = 115 :: text.drop 5 := by
    rw [List.getD_eq_getElem?_getD] at secure
    cases found : text[4]? with
    | none =>
      rw [found] at secure
      cases secure
    | some b =>
      obtain ⟨inside, here⟩ := List.getElem?_eq_some_iff.mp found
      rw [found, Option.getD_some] at secure
      rw [List.drop_eq_getElem_cons inside, here, secure]
  have whole : text = text.take 4 ++ (text.drop 4).take 1 ++
      ((text.drop 5).take 3 ++ (text.drop 5).drop 3) := by
    rw [List.take_append_drop, letter]
    simp only [List.take_succ_cons, List.take_zero, List.append_assoc, List.singleton_append]
    rw [← letter, List.take_append_drop]
  rw [http, colon, letter, List.drop_drop] at whole
  exact whole

theorem accepted_qualifies {payload : Bytes} (accepted : accepts payload = true)
    (free : NulFree payload) : Qualifies payload := by
  simp only [accepts, otaUrlAcceptable, cstr_of_nul_free free, Bool.and_eq_true, decide_eq_true_eq,
    List.all_eq_true, beq_iff_eq, bne_iff_ne] at accepted
  obtain ⟨_, ⟨⟨⟨⟨visible, most⟩, least⟩, http⟩, colon⟩, _⟩ := accepted
  refine ⟨least, most, visible, ?_⟩
  by_cases secure : payload.getD 4 0 = 115
  · rw [if_pos secure] at colon
    refine ⟨payload.drop 8, ?_, Or.inr (https_url http secure colon)⟩
    simp only [ne_eq, List.drop_eq_nil_iff]
    omega
  · rw [if_neg secure] at colon
    refine ⟨payload.drop 7, ?_, Or.inl (http_url http colon)⟩
    simp only [ne_eq, List.drop_eq_nil_iff]
    omega

theorem qualifies_nul_free {payload : Bytes} (qualifies : Qualifies payload) :
    NulFree payload := by
  intro b member zero
  have := qualifies.visible b member
  rw [zero] at this
  exact absurd this (by decide)

theorem qualifies_accepted {payload : Bytes} (qualifies : Qualifies payload) :
    accepts payload = true := by
  have free := qualifies_nul_free qualifies
  have most := qualifies.most
  have nonempty : payload ≠ [] := by
    intro none
    have least := qualifies.least
    rw [none] at least
    simp at least
  obtain ⟨rest, more, shape⟩ := qualifies.scheme
  obtain ⟨b, tail, rfl⟩ := List.exists_cons_of_ne_nil more
  have live : b ≠ 0 := by
    rcases shape with rfl | rfl
    · exact free b (by simp)
    · exact free b (by simp)
  simp only [accepts, otaUrlAcceptable, cstr_of_nul_free free, Bool.and_eq_true, decide_eq_true_eq,
    List.all_eq_true, beq_iff_eq, bne_iff_ne]
  refine ⟨⟨nonempty, by simp only [pendingSize]; omega⟩,
    ⟨⟨⟨⟨qualifies.visible, most⟩, qualifies.least⟩, ?_⟩, ?_⟩, ?_⟩
  · rcases shape with rfl | rfl <;> rfl
  · rcases shape with rfl | rfl <;> rfl
  · rcases shape with rfl | rfl <;> exact live

theorem topic_passes_iff (octets : Fin 6 → UInt8) (topic : Bytes) :
    (topic ≠ [] ∧ topicMatches topic (Topics.start (macText octets)).otaTop = true) ↔
      PassesFor topic (commandTopic octets) := by
  rw [command_topic, topic_matches_iff (command_topic_nul_free octets), PassesFor]

theorem command_topic_passes (octets : Fin 6 → UInt8) :
    PassesFor (commandTopic octets) (commandTopic octets) :=
  ⟨by simp [commandTopic, ascii], Or.inl (List.prefix_refl _)⟩

variable {octets : Fin 6 → UInt8} {d : Device Parser} {topic payload : Bytes} {created : Bool}

theorem message_handled (passes : PassesFor topic (commandTopic octets)) (api : ImageApi) :
    d.event (macText octets) (.data topic payload) created api =
      ({ d with ota := (otaHandleCommand d.ota payload created).1 },
        [.commandReturned (otaHandleCommand d.ota payload created).2]) := by
  rw [event_data, if_pos ((topic_passes_iff octets topic).mpr passes)]

theorem message_dropped (other : ¬ PassesFor topic (commandTopic octets)) (api : ImageApi) :
    d.event (macText octets) (.data topic payload) created api = (d, []) := by
  rw [event_data, if_neg fun matched => other ((topic_passes_iff octets topic).mp matched)]

theorem refused_triggers (other : ¬ Commanded octets d topic payload created)
    {reports : List Report} (silent : .commandReturned true ∉ reports) :
    Triggers octets d topic payload created (d, reports) where
  started := fun commanded => absurd commanded other
  refused := fun _ => ⟨silent, rfl, rfl⟩

theorem accepted_command (idle : otaInProgress d.ota = false) (accepted : accepts payload = true) :
    otaHandleCommand d.ota payload created =
      ({ d.ota with
          pendingUrl := cstr payload
          downloads := if created then d.ota.downloads ++ [⟨cstr payload, .created⟩]
            else d.ota.downloads }, created) := by
  have free : d.ota.downloading = false := idle
  cases created <;> simp [otaHandleCommand, free, accepted]

theorem accepted_triggers_iff (passes : PassesFor topic (commandTopic octets))
    (idle : otaInProgress d.ota = false) (accepted : accepts payload = true) (api : ImageApi) :
    Triggers octets d topic payload created
        (d.event (macText octets) (.data topic payload) created api) ↔
      Straight octets d topic payload created := by
  rw [message_handled passes, accepted_command idle accepted]
  cases created with
  | false =>
    constructor
    · intro triggers _ _ _
      exact (triggers.refused (by simp [Commanded])).2.1
    · intro straight
      have same : cstr payload = d.ota.pendingUrl := straight passes idle accepted
      exact ⟨fun commanded => absurd commanded.2.2.1 (by simp), fun _ => ⟨by simp, same, rfl⟩⟩
  | true =>
    constructor
    · intro triggers _ _ _
      by_cases commanded : Commanded octets d topic payload true
      · exact ⟨commanded.1, qualifies_nul_free commanded.2.2.2⟩
      · exact absurd List.mem_cons_self (triggers.refused commanded).1
    · intro straight
      obtain ⟨whole, free⟩ := straight passes idle accepted
      have commanded : Commanded octets d topic payload true :=
        ⟨whole, idle, rfl, accepted_qualifies accepted free⟩
      rw [cstr_of_nul_free free]
      exact ⟨fun _ => ⟨rfl, rfl, rfl⟩, fun other => absurd commanded other⟩

theorem message_triggers_iff (octets : Fin 6 → UInt8) (d : Device Parser) (topic payload : Bytes)
    (created : Bool) (api : ImageApi) :
    Triggers octets d topic payload created
        (d.event (macText octets) (.data topic payload) created api) ↔
      Straight octets d topic payload created := by
  by_cases reaches : PassesFor topic (commandTopic octets) ∧ otaInProgress d.ota = false ∧
      accepts payload = true
  · obtain ⟨passes, idle, accepted⟩ := reaches
    exact accepted_triggers_iff passes idle accepted api
  · -- such a message leaves the module as it was, and it is none that should start a download
    have straight : Straight octets d topic payload created :=
      fun passes idle accepted => absurd ⟨passes, idle, accepted⟩ reaches
    have other : ¬ Commanded octets d topic payload created := by
      intro commanded
      obtain ⟨whole, idle, _, qualifies⟩ := commanded
      exact reaches ⟨whole ▸ command_topic_passes octets, idle, qualifies_accepted qualifies⟩
    refine ⟨fun _ => straight, fun _ => ?_⟩
    by_cases passes : PassesFor topic (commandTopic octets)
    · have kept : otaHandleCommand d.ota payload created = (d.ota, false) := by
        rw [otaHandleCommand]
        by_cases busy : d.ota.downloading = true
        · rw [if_pos busy]
        · have refused : accepts payload = false := by
            by_contra accepted
            exact reaches ⟨passes, by simpa [otaInProgress] using busy, by simpa using accepted⟩
          rw [if_neg busy, refused]
          rfl
      rw [message_handled passes, kept]
      exact refused_triggers other (by simp)
    · rw [message_dropped passes]
      exact refused_triggers other (by simp)

section
variable (parse : Parser → Bytes → ParseOut Parser) (octets : Fin 6 → UInt8)

def TriggersRun (boot : Device Parser) (run : List Happening) : Prop :=
  ∀ before topic payload created api after,
    run = before ++ .event (.data topic payload) created api :: after →
      let d := final (Device.step parse (macText octets)) boot before
      Triggers octets d topic payload created
        (d.step parse (macText octets) (.event (.data topic payload) created api))

def StraightRun (boot : Device Parser) (run : List Happening) : Prop :=
  ∀ before topic payload created api after,
    run = before ++ .event (.data topic payload) created api :: after →
      Straight octets (final (Device.step parse (macText octets)) boot before) topic payload created

/-- Every message of a run is dealt with as it should be exactly when every one of them that
    reaches pending_url is the whole command and gets its task. -/
theorem triggers_run_iff (boot : Device Parser) (run : List Happening) :
    TriggersRun parse octets boot run ↔ StraightRun parse octets boot run := by
  constructor
  · intro triggers before topic payload created api after split
    exact (message_triggers_iff octets _ topic payload created api).mp
      (triggers before topic payload created api after split)
  · intro straight before topic payload created api after split
    exact (message_triggers_iff octets _ topic payload created api).mpr
      (straight before topic payload created api after split)

end

def allZero : Fin 6 → UInt8 := fun _ => 0

def oneMessage (topic payload : Bytes) (created : Bool) : List Happening :=
  [.event (.data topic payload) created works]

def imageUrl : Bytes := ascii "http://bench/a.bin"

def after (run : List Happening) : Device Unit :=
  final (Device.step silent (macText allZero)) bench run

/-- One letter is topic enough; what stands behind a NUL is neither checked nor stored; and a
    command whose task could not be created leaves its URL behind. -/
theorem loose_commands :
    (after (oneMessage (ascii "g") imageUrl true)).ota.downloads = [⟨imageUrl, .created⟩] ∧
      (after (oneMessage (commandTopic allZero)
        (imageUrl ++ 0 :: ascii " b") true)).ota.pendingUrl = imageUrl ∧
      (after (oneMessage (commandTopic allZero) imageUrl false)).ota.pendingUrl = imageUrl ∧
      ∀ message ∈ [(ascii "g", imageUrl, true),
          (commandTopic allZero, imageUrl ++ 0 :: ascii " b", true),
          (commandTopic allZero, imageUrl, false)],
        ¬ TriggersRun silent allZero bench
          (oneMessage message.1 message.2.1 message.2.2) := by
  refine ⟨by decide, by decide, by decide, ?_⟩
  intro message listed triggers
  have straight := (message_triggers_iff allZero bench message.1 message.2.1 message.2.2 works).mp
    (triggers [] message.1 message.2.1 message.2.2 works [] rfl)
  simp only [List.mem_cons, List.not_mem_nil, or_false] at listed
  rcases listed with rfl | rfl | rfl
  · have begins : PassesFor (ascii "g") (commandTopic allZero) :=
      ⟨by decide, Or.inl ⟨(commandTopic allZero).drop 1, by decide⟩⟩
    exact absurd (straight begins rfl (by decide)).1 (by decide)
  · exact absurd (straight (command_topic_passes allZero) rfl (by decide)).2 (by decide)
  · exact absurd (straight (command_topic_passes allZero) rfl (by decide)) (by decide)

end GplugOtaCommands
