import Mathlib.Data.List.Induction
import Mathlib.Tactic.Common
import GplugMini.Ota

/- Whether one download at a time runs, and which image it fetches. -/
namespace GplugOtaDownloads
open ByteText GplugOta
open GplugIndicator (Indication)

/-- After this step at most one download is alive and whatever is fetched is the image of
    its own command; a command handled during a download is refused and changes no URL. -/
structure Exclusive (s : Ota) (step : Step) : Prop where
  one : (s.step step).downloads.length ≤ 1
  own : ∀ d ∈ (s.step step).downloads, ∀ url, d.phase = .fetching url → url = d.own
  refused : ∀ payload created, step = .command payload created → s.downloads ≠ [] →
    (otaHandleCommand s payload created).2 = false ∧
      (otaHandleCommand s payload created).1.pendingUrl = s.pendingUrl

def ExclusiveRun (steps : List Step) : Prop :=
  ∀ before step after, steps = before ++ step :: after → Exclusive (.run before) step

/-- A command that meets a download whose task has not set the flag, or has cleared it
    before its restart, is no URL, or creates no task and repeats the pending one. -/
def Harmless (s : Ota) (step : Step) : Prop :=
  ∀ payload created, step = .command payload created → s.downloads ≠ [] → s.downloading = false →
    accepts payload = false ∨ (created = false ∧ cstr payload = s.pendingUrl)

def HarmlessRun (steps : List Step) : Prop :=
  ∀ before step after, steps = before ++ step :: after → Harmless (.run before) step

inductive Single : Ota → Prop where
  | idle (pending : Bytes) (flag : Bool) (shown : Indication) (failed : Nat) :
      Single ⟨pending, flag, shown, [], failed⟩
  | alive (url : Bytes) (flag : Bool) (shown : Indication) (phase : Phase) (failed : Nat)
      (fetched : ∀ u, phase = .fetching u → u = url) :
      Single ⟨url, flag, shown, [⟨url, phase⟩], failed⟩

theorem command_refused {s : Ota} {payload : Bytes} {created : Bool} (alive : s.downloads ≠ [])
    (harmless : Harmless s (.command payload created)) :
    otaHandleCommand s payload created = (s, false) := by
  unfold otaHandleCommand
  by_cases busy : s.downloading = true
  · rw [if_pos busy]
  · rw [if_neg busy]
    rcases harmless payload created rfl alive (by simpa using busy) with refused | ⟨rfl, same⟩
    · rw [if_pos (by simp [refused])]
    · split
      · rfl
      · simp [same]

theorem command_idle (pending payload : Bytes) (flag created : Bool) (shown : Indication)
    (failed : Nat) :
    Single (otaHandleCommand ⟨pending, flag, shown, [], failed⟩ payload created).1 := by
  unfold otaHandleCommand
  split
  · exact .idle pending flag shown failed
  · split
    · exact .idle pending flag shown failed
    · cases created with
      | false => exact .idle _ flag shown failed
      | true => exact .alive _ flag shown .created failed (by simp)

theorem only_first {d e : Download} {i : Nat} (found : [d][i]? = some e) : i = 0 ∧ d = e := by
  cases i with
  | zero => exact ⟨rfl, by simpa using found⟩
  | succ i => simp at found

theorem ends_single {s : Ota} (single : Single s) : Single (s.step .ends) := by
  cases single with
  | idle pending flag shown failed =>
    cases failed with
    | zero => exact .idle pending flag shown 0
    | succ n => exact .idle pending flag .operational n
  | alive url flag shown phase failed fetched =>
    cases failed with
    | zero => exact .alive url flag shown phase 0 fetched
    | succ n => exact .alive url flag .operational phase n fetched

theorem step_single {s : Ota} (single : Single s) {step : Step} (harmless : Harmless s step) :
    Single (s.step step) := by
  cases single with
  | idle pending flag shown failed =>
    cases step with
    | command payload created => exact command_idle pending payload flag created shown failed
    | ends => exact ends_single (.idle pending flag shown failed)
    | _ => exact .idle pending flag shown failed
  | alive url flag shown phase failed fetched =>
    cases step with
    | command payload created =>
      rw [Ota.step, command_refused (by simp) harmless]
      exact .alive url flag shown phase failed fetched
    | starts i =>
      simp only [Ota.step]
      split
      · rename_i own found
        obtain ⟨rfl, same⟩ := only_first found
        cases same
        exact .alive url true shown .flagged failed (by simp)
      · exact .alive url flag shown phase failed fetched
    | indicates i =>
      simp only [Ota.step]
      split
      · rename_i own found
        obtain ⟨rfl, same⟩ := only_first found
        cases same
        exact .alive url flag .updating .running failed (by simp)
      · exact .alive url flag shown phase failed fetched
    | fetches i =>
      simp only [Ota.step]
      split
      · rename_i own found
        obtain ⟨rfl, same⟩ := only_first found
        cases same
        exact .alive url flag shown (.fetching url) failed (by simp)
      · exact .alive url flag shown phase failed fetched
    | returns i ok =>
      simp only [Ota.step]
      split
      · rename_i own found
        obtain ⟨rfl, same⟩ := only_first found
        cases same
        cases ok with
        | true => exact .alive url false shown .restarting failed (by simp)
        | false => exact .idle url false shown (failed + 1)
      · exact .alive url flag shown phase failed fetched
    | ends => exact ends_single (.alive url flag shown phase failed fetched)
    | restarts i =>
      simp only [Ota.step]
      split
      · exact .idle [] false .operational 0
      · exact .alive url flag shown phase failed fetched

theorem single_one {s : Ota} (single : Single s) : s.downloads.length ≤ 1 ∧
    ∀ d ∈ s.downloads, ∀ url, d.phase = .fetching url → url = d.own := by
  cases single with
  | idle => simp
  | alive url flag shown phase failed fetched => simpa using fetched

theorem step_exclusive {s : Ota} (single : Single s) {step : Step} (harmless : Harmless s step) :
    Exclusive s step := by
  obtain ⟨one, own⟩ := single_one (step_single single harmless)
  refine ⟨one, own, ?_⟩
  intro payload created shape alive
  subst shape
  rw [command_refused alive harmless]
  exact ⟨rfl, rfl⟩

theorem exclusive_harmless {s : Ota} {step : Step} (exclusive : Exclusive s step) :
    Harmless s step := by
  intro payload created shape alive idle
  subst shape
  obtain ⟨refused, same⟩ := exclusive.refused payload created rfl alive
  rw [otaHandleCommand, if_neg (by simp [idle])] at refused same
  cases accepted : accepts payload with
  | false => exact Or.inl rfl
  | true =>
    cases created with
    | true => simp [accepted] at refused
    | false => exact Or.inr ⟨rfl, by simpa [accepted] using same⟩

theorem harmless_single {steps : List Step} (harmless : HarmlessRun steps) :
    Single (.run steps) := by
  induction steps using List.reverseRecOn with
  | nil => exact .idle [] false .operational 0
  | append_singleton steps step ih =>
    rw [run_snoc]
    refine step_single (ih ?_) (harmless steps step [] rfl)
    intro before earlier after split
    exact harmless before earlier (after ++ [step]) (by simp [split])

/-- A run keeps to one download of the commanded image exactly when every command in it
    that meets an unflagged download is harmless. -/
theorem exclusive_run_iff (steps : List Step) : ExclusiveRun steps ↔ HarmlessRun steps := by
  constructor
  · intro exclusive before step after split
    exact exclusive_harmless (exclusive before step after split)
  · intro harmless before step after split
    refine step_exclusive (harmless_single ?_) (harmless before step after split)
    intro earlier next rest prior
    exact harmless earlier next (rest ++ step :: after) (by simp [split, prior])

/-- A second command before the first one's task has run, and one in the half second before
    the restart. -/
theorem second_download :
    (Ota.run [.command (ascii "http://bench/a.bin") true,
        .command (ascii "http://bench/b.bin") true, .starts 0, .indicates 0,
        .fetches 0]).downloads =
      [⟨ascii "http://bench/a.bin", .fetching (ascii "http://bench/b.bin")⟩,
        ⟨ascii "http://bench/b.bin", .created⟩] ∧
    (Ota.run [.command (ascii "http://bench/a.bin") true, .starts 0, .indicates 0, .fetches 0,
        .returns 0 true, .command (ascii "http://bench/b.bin") true]).downloads.length = 2 ∧
    ¬ ExclusiveRun [.command (ascii "http://bench/a.bin") true,
        .command (ascii "http://bench/b.bin") true] := by
  refine ⟨by decide, by decide, ?_⟩
  intro exclusive
  have two := (exclusive [.command (ascii "http://bench/a.bin") true]
    (.command (ascii "http://bench/b.bin") true) [] rfl).one
  exact absurd two (by decide)

end GplugOtaDownloads
