import Mathlib.Tactic.Common
import GplugMini.ConfigStore

/- Storing a record while calls fail, writes become durable on their own and power is lost:
   what the next boot loads. -/
namespace GplugConfigAtomicity
open ByteText CallTree GplugConfig GplugConfigStore

/-- What a power cut leaves, and the writes not durable yet. -/
structure Store where
  durable : Flash
  pending : List (Key × NvsEntry)

def Store.flushed (s : Store) : Store :=
  ⟨s.pending.foldl (fun flash write => Function.update flash write.1 write.2) s.durable, []⟩

/-- Any call may fail; a text passed to nvs_set_str may be kept even so. -/
def Answers (s : Store) : (op : NvsOp) → op.Answer → Store → Prop
  | .setStr k text free, ok, t =>
      t = { s with pending := s.pending ++ [(k, .str text free)] } ∨ (ok = false ∧ t = s)
  | .commit, ok, t => t = if ok then s.flushed else s
  | .openReadOnly, _, t => t = s
  | .openReadWrite, _, t => t = s
  | .getStr _, _, t => t = s
  | .close, _, t => t = s

def Flushes (s t : Store) : Prop :=
  ∃ before k e after, s.pending = before ++ (k, e) :: after ∧
    t = ⟨Function.update s.durable k e, before ++ after⟩

def surroundings : Surroundings NvsOp NvsOp.Answer Store := ⟨Answers, Flushes⟩

def BootsWhole (old c : Config) (s : Store) : Prop :=
  boots s.durable = (.none, old) ∨ boots s.durable = (.none, c)

/-- Wherever config_save is stopped, the next boot loads one of the two records whole, and
    the new one once true was returned. -/
def AllOrNothing (flash : Flash) (old c : Config) : Prop :=
  ∀ p t, Reaches surroundings (configSave c, ⟨flash, []⟩) (p, t) →
    BootsWhole old c t ∧ (p = .ret true → boots t.durable = (.none, c))

def DifferInOne (old c : Config) : Prop := ∃ k, ∀ other, other ≠ k → old.get other = c.get other

variable {old c : Config} {s : Store}

structure Between (old c : Config) (s : Store) : Prop where
  either : ∀ k, s.durable.field k = old.get k ∨ s.durable.field k = c.get k
  pending : ∀ write ∈ s.pending, write.2 = entryOf c write.1

structure Written (old c : Config) (keys : List Key) (s : Store) : Prop extends
    Between old c s where
  written : ∀ k ∈ keys, s.durable.field k = c.get k ∨ (k, entryOf c k) ∈ s.pending

structure Committed (c : Config) (s : Store) : Prop where
  settled : s.pending = []
  stored : ∀ k, s.durable.field k = c.get k

theorem update_field (flash : Flash) (c : Config) (k other : Key) :
    Flash.field (Function.update flash k (entryOf c k)) other =
      if other = k then c.get other else flash.field other := by
  unfold Flash.field
  by_cases same : other = k
  · subst same
    rw [if_pos rfl, Function.update_self, entryOf, read_stored]
    rfl
  · rw [if_neg same, Function.update_of_ne same]

theorem written_stable (keys : List Key) : Stable surroundings (Written old c keys) := by
  intro s t writing moved
  obtain ⟨before, k, e, after, split, rfl⟩ := moved
  have entry : e = entryOf c k := writing.pending (k, e) (by rw [split]; simp)
  subst entry
  refine ⟨⟨?_, ?_⟩, ?_⟩
  · intro other
    simp only [update_field]
    split
    · exact Or.inr rfl
    · exact writing.either other
  · intro write member
    apply writing.pending write
    rw [split]
    rcases List.mem_append.mp member with left | right <;> simp [*]
  · intro other listed
    simp only [update_field]
    split
    · exact Or.inl rfl
    · rename_i different
      rcases writing.written other listed with durable | waiting
      · exact Or.inl durable
      · rw [split] at waiting
        apply Or.inr
        rcases List.mem_append.mp waiting with left | right
        · exact List.mem_append_left _ left
        · rcases List.mem_cons.mp right with now | later
          · exact absurd (Prod.mk.inj now).1 different
          · exact List.mem_append_right _ later

theorem committed_stable : Stable surroundings (Committed c) := by
  intro s t committed moved
  obtain ⟨before, k, e, after, split, rfl⟩ := moved
  rw [committed.settled] at split
  simp at split

theorem flush_field (pending : List (Key × NvsEntry)) (flash : Flash)
    (entries : ∀ write ∈ pending, write.2 = entryOf c write.1) (k : Key)
    (written : flash.field k = c.get k ∨ (k, entryOf c k) ∈ pending) :
    Flash.field (pending.foldl (fun flash write => Function.update flash write.1 write.2) flash) k =
      c.get k := by
  induction pending generalizing flash with
  | nil => simpa using written
  | cons write pending ih =>
    obtain ⟨other, e⟩ := write
    have entry : e = entryOf c other := entries (other, e) (by simp)
    subst entry
    refine ih _ (fun write member => entries write (by simp [member])) ?_
    rw [update_field]
    by_cases same : k = other
    · exact Or.inl (if_pos same)
    · rw [if_neg same]
      rcases written with durable | waiting
      · exact Or.inl durable
      · exact Or.inr ((List.mem_cons.mp waiting).resolve_left fun now => same (Prod.mk.inj now).1)

theorem set_writes {keys : List Key} (writing : Written old c keys s) (k : Key) :
    Written old c (keys ++ [k]) { s with pending := s.pending ++ [(k, entryOf c k)] } where
  either := writing.either
  pending := by
    intro write member
    rcases List.mem_append.mp member with earlier | now
    · exact writing.pending write earlier
    · rw [List.mem_singleton.mp now]
  written := by
    intro other listed
    rcases List.mem_append.mp listed with earlier | now
    · exact (writing.written other earlier).imp_right (List.mem_append_left _)
    · rw [List.mem_singleton.mp now]
      exact Or.inr (by simp)

theorem between_boots (one : DifferInOne old c) (usableOld : configFault old = .none)
    (usable : configFault c = .none) (between : Between old c s) : BootsWhole old c s := by
  obtain ⟨k, same⟩ := one
  rcases between.either k with kept | changed
  · apply Or.inl
    apply boots_fields usableOld
    intro other
    by_cases here : other = k
    · rw [here, kept]
    · rcases between.either other with left | right
      · exact left
      · rw [right, same other here]
  · apply Or.inr
    apply boots_fields usable
    intro other
    by_cases here : other = k
    · rw [here, changed]
    · rcases between.either other with left | right
      · rw [left, same other here]
      · exact right

theorem committed_boots (usable : configFault c = .none) (committed : Committed c s) :
    boots s.durable = (.none, c) := boots_fields usable committed.stored

section
variable (one : DifferInOne old c) (usableOld : configFault old = .none)
  (usable : configFault c = .none)
include one usableOld usable

/-- Along the chain every boot finds one of the two records; at its end all keys are written,
    or it has been cut short. -/
theorem set_all_outline (done rest : List Key) (writing : Written old c done s) :
    Outline surroundings (BootsWhole old c)
      (fun ok t => Written old c (if ok then done ++ rest else []) t) (setAll c rest) s := by
  have safe (keys : List Key) (t : Store) (held : Written old c keys t) : BootsWhole old c t :=
    between_boots one usableOld usable held.toBetween
  induction rest generalizing done s with
  | nil =>
    apply outline_ret (written_stable done) writing (safe done)
    intro t held
    rwa [if_pos rfl, List.append_nil]
  | cons k rest ih =>
    have cut {t : Store} (between : Between old c t) : Outline surroundings (BootsWhole old c)
        (fun ok t => Written old c (if ok then done ++ k :: rest else []) t) (.ret false) t :=
      outline_ret (written_stable []) ⟨between, by simp⟩ (safe []) fun _ held => held
    unfold setAll
    simp only [bind_eq, perform_bind, pure_eq_ret]
    apply outline_call (written_stable done) writing (safe done)
    intro t ok u held answered
    rcases answered with rfl | ⟨rfl, rfl⟩
    · have next := set_writes held k
      by_cases set : ok = true
      · have onward := ih (done ++ [k]) next
        rw [List.append_assoc] at onward
        rw [if_pos set]
        exact onward
      · rw [if_neg set]
        exact cut next.toBetween
    · exact cut held.toBetween

theorem config_save_outline (between : Between old c s) :
    Outline surroundings (BootsWhole old c) (fun ok t => ok = true → boots t.durable = (.none, c))
      (configSave c) s := by
  have safe (keys : List Key) (t : Store) (held : Written old c keys t) : BootsWhole old c t :=
    between_boots one usableOld usable held.toBetween
  have start : Written old c [] s := ⟨between, by simp⟩
  have refused {t : Store} (held : Written old c [] t) : Outline surroundings (BootsWhole old c)
      (fun ok t => ok = true → boots t.durable = (.none, c)) (.ret false) t :=
    outline_ret (written_stable []) held (safe []) fun _ _ ok => nomatch ok
  have closed {t : Store} (held : Written old c [] t) : Outline surroundings (BootsWhole old c)
      (fun ok t => ok = true → boots t.durable = (.none, c))
      (.call .close fun _ => .ret false) t := by
    apply outline_call (written_stable []) held (safe [])
    intro t _ _ held answered
    subst answered
    exact refused held
  have accepted : (!configUsable c) = false := by simp [configUsable, usable]
  unfold configSave
  rw [accepted]
  simp only [Bool.false_eq_true, ↓reduceIte, bind_eq, perform_bind, pure_eq_ret]
  apply outline_call (written_stable []) start (safe [])
  intro t opened _ held answered
  subst answered
  split
  · exact refused held
  · refine outline_bind (outline_mono
      (set_all_outline one usableOld usable [] [.ssid, .pass, .broker, .host] held) ?_)
    intro set t written
    cases set with
    | false => exact closed written
    | true =>
      apply outline_call (written_stable _) written (safe _)
      intro u ok _ held answered
      subst answered
      have cut : Written old c [] u := ⟨held.toBetween, by simp⟩
      cases ok with
      | false => exact closed cut
      | true =>
        have committed : Committed c u.flushed := ⟨rfl, fun k => flush_field _ _ held.pending k
          (held.written k (by cases k <;> simp))⟩
        have whole (t : Store) (held : Committed c t) := committed_boots usable held
        apply outline_call committed_stable committed (fun t held => Or.inr (whole t held))
        intro t _ _ held answered
        subst answered
        exact outline_ret committed_stable held (fun t held => Or.inr (whole t held))
          fun t held _ => whole t held

end

def cutShort (s : Store) : (op : NvsOp) → op.Answer × Store
  | .setStr k text free => (true, { s with pending := s.pending ++ [(k, .str text free)] })
  | .commit => (false, s)
  | .openReadOnly => (true, s)
  | .openReadWrite => (true, s)
  | .getStr _ => (none, s)
  | .close => ((), s)

theorem cut_short_answers (s : Store) (op : NvsOp) :
    ∃ t, surroundings.answer s op (cutShort s op).1 t ∧ Drift surroundings t (cutShort s op).2 := by
  refine ⟨(cutShort s op).2, ?_, .refl⟩
  cases op with
  | setStr k text free => exact Or.inl rfl
  | _ => rfl

theorem one_write_durable (usable : configFault c = .none) (flash : Flash) (k : Key) :
    ∃ pending, Reaches surroundings (configSave c, ⟨flash, []⟩)
      (.ret false, ⟨Function.update flash k (entryOf c k), pending⟩) := by
  have path := run_reaches cut_short_answers (configSave c) ⟨flash, []⟩
  have ended : (configSave c).run cutShort ⟨flash, []⟩ =
      (false, ⟨flash, [.ssid, .pass, .broker, .host].map fun k => (k, entryOf c k)⟩) := by
    simp [configSave, configUsable, usable, setAll, cutShort, entryOf]
  rw [ended] at path
  have listed : (k, entryOf c k) ∈
      [Key.ssid, .pass, .broker, .host].map fun k => (k, entryOf c k) := by
    cases k <;> simp
  obtain ⟨before, after, split⟩ := List.append_of_mem listed
  exact ⟨before ++ after, path.tail (.move ⟨before, k, _, after, split, rfl⟩)⟩

theorem update_boots (flash : Flash) (c : Config) (k other : Key) :
    (boots (Function.update flash k (entryOf c k))).2.get other =
      if other = k then c.get other else (boots flash).2.get other := by
  simp only [boots_eq, flash_config_get, update_field]

/-- Storing is all or nothing exactly when at most one of the four fields changes. -/
theorem all_or_nothing_iff {flash : Flash} (stored : boots flash = (.none, old))
    (usable : configUsable c = true) : AllOrNothing flash old c ↔ DifferInOne old c := by
  have usableNew : configFault c = .none := by simpa [configUsable] using usable
  constructor
  · intro atomic
    by_contra many
    have differs (k : Key) : ∃ other, other ≠ k ∧ old.get other ≠ c.get other := by
      by_contra none
      exact many ⟨k, fun other away => by_contra fun change => none ⟨other, away, change⟩⟩
    obtain ⟨k, _, first⟩ := differs .ssid
    obtain ⟨other, away, second⟩ := differs k
    obtain ⟨pending, path⟩ := one_write_durable usableNew flash k
    have changed := update_boots flash c k k
    have kept := update_boots flash c k other
    rw [stored] at changed kept
    rcases (atomic _ _ path).1 with whole | whole
    · rw [whole, if_pos rfl] at changed
      exact first changed
    · rw [whole, if_neg away] at kept
      exact second kept.symm
  · intro one p t path
    have loaded := stored
    rw [boots_eq, Prod.mk.injEq] at loaded
    obtain ⟨usableOld, whole⟩ := loaded
    rw [whole] at usableOld
    have between : Between old c ⟨flash, []⟩ :=
      ⟨fun k => Or.inl (by rw [← whole, flash_config_get]), by simp⟩
    have outlined := outline_reaches (config_save_outline one usableOld usableNew between) path
    refine ⟨outline_inv outlined, ?_⟩
    intro returned
    subst returned
    exact outline_post outlined rfl

def attic : Config where
  ssid := ⟨ascii "attic", by decide, by decide⟩
  passphrase := ⟨ascii "first secret", by decide, by decide⟩
  broker := ⟨ascii "mqtt://homeassistant.local:1883", by decide, by decide⟩
  hostname := Config.blank.hostname

def rekeyed : Config := { attic with passphrase := ⟨ascii "second secret", by decide, by decide⟩ }

def cellar : Config := { rekeyed with ssid := ⟨ascii "cellar", by decide, by decide⟩ }

theorem rekey_all_or_nothing : AllOrNothing (entryOf attic) attic rekeyed :=
  (all_or_nothing_iff (by rw [boots_eq]; decide) (by decide)).mpr
    ⟨.pass, fun other away => by cases other <;> first | rfl | exact absurd rfl away⟩

/-- A new network: power lost after the first write leaves its name with the old passphrase. -/
theorem move_not_atomic :
    (∃ p t, Reaches surroundings (configSave cellar, ⟨entryOf attic, []⟩) (p, t) ∧
      boots t.durable = (.none, { attic with ssid := cellar.ssid })) ∧
    ¬ AllOrNothing (entryOf attic) attic cellar := by
  obtain ⟨pending, path⟩ := one_write_durable (c := cellar) (by decide) (entryOf attic) .ssid
  have mixed : boots (Function.update (entryOf attic) .ssid (entryOf cellar .ssid)) =
      (.none, { attic with ssid := cellar.ssid }) := by
    rw [boots_eq]
    decide
  refine ⟨⟨_, _, path, mixed⟩, fun atomic => ?_⟩
  rcases (atomic _ _ path).1 with whole | whole
  · exact absurd (mixed.symm.trans whole) (by decide)
  · exact absurd (mixed.symm.trans whole) (by decide)

end GplugConfigAtomicity
