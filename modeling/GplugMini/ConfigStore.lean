import Mathlib.Logic.Function.Basic
import Mathlib.Tactic.Common
import GplugMini.Config
import GplugMini.Library.CallTree

/- The storage side of the configuration as the calls it makes on NVS: one namespace, four
   keys, and an entry that may be absent, a text, or something nvs_get_str cannot return. -/
namespace GplugConfigStore
open ByteText CallTree GplugConfig

inductive NvsEntry where
  | absent
  | str (text : Bytes) (free : NulFree text)
  | unreadable

inductive NvsOp where
  | openReadOnly
  | openReadWrite
  | getStr (k : Key)
  | setStr (k : Key) (text : Bytes) (free : NulFree text)
  | commit
  | close

abbrev NvsOp.Answer : NvsOp → Type
  | .openReadOnly | .openReadWrite | .setStr _ _ _ | .commit => Bool
  | .getStr k => Option (Field k.cap)
  | .close => Unit

abbrev NvsCalls := Prog NvsOp NvsOp.Answer

def readStr (k : Key) : NvsCalls (Field k.cap) := do
  let read ← perform (NvsOp.getStr k)
  match read with
  | some field => pure field
  | none => pure (.empty (cap_positive k))

def configLoad : NvsCalls (ConfigFault × Config) := do
  let opened ← perform NvsOp.openReadOnly
  if !opened then pure (.noSsid, .blank)
  else do
    let ssid ← readStr .ssid
    let passphrase ← readStr .pass
    let broker ← readStr .broker
    let hostname ← readStr .host
    perform NvsOp.close
    let out : Config := ⟨ssid, passphrase, broker, hostname⟩
    pure (configFault out, out)

def setAll (c : Config) : List Key → NvsCalls Bool
  | [] => pure true
  | k :: rest => do
      let ok ← perform (NvsOp.setStr k (c.get k).text (c.get k).free)
      if ok then setAll c rest else pure false

def configSave (c : Config) : NvsCalls Bool :=
  if !configUsable c then pure false
  else do
    let opened ← perform NvsOp.openReadWrite
    if !opened then pure false
    else do
      let set ← setAll c [.ssid, .pass, .broker, .host]
      let ok ← if set then perform NvsOp.commit else pure false
      perform NvsOp.close
      pure ok

abbrev Flash := Key → NvsEntry

def NvsEntry.read (e : NvsEntry) (cap : Nat) : Option (Field cap) :=
  match e with
  | .str text free => if fits : text.length < cap then some ⟨text, free, fits⟩ else none
  | .absent | .unreadable => none

/-- A boot that finds the namespace: every call answers as the flash stands. -/
def Flash.answer (flash : Flash) : (op : NvsOp) → op.Answer × Flash
  | .openReadOnly | .openReadWrite | .commit => (true, flash)
  | .getStr k => ((flash k).read k.cap, flash)
  | .setStr k text free => (true, Function.update flash k (.str text free))
  | .close => ((), flash)

def entryOf (c : Config) (k : Key) : NvsEntry := .str (c.get k).text (c.get k).free

/-- What config_load makes of the flash at the next boot. -/
def boots (flash : Flash) : ConfigFault × Config := (configLoad.run Flash.answer flash).1

def Flash.field (flash : Flash) (k : Key) : Field k.cap :=
  ((flash k).read k.cap).getD (.empty (cap_positive k))

def Flash.config (flash : Flash) : Config :=
  ⟨flash.field .ssid, flash.field .pass, flash.field .broker, flash.field .host⟩

theorem flash_config_get (flash : Flash) (k : Key) : flash.config.get k = flash.field k := by
  cases k <;> rfl

theorem read_str_run (k : Key) (flash : Flash) :
    (readStr k).run Flash.answer flash = (flash.field k, flash) := by
  simp only [readStr, bind_eq, perform_bind, run_call, Flash.answer, Flash.field]
  cases (flash k).read k.cap <;> rfl

theorem config_load_run (flash : Flash) :
    configLoad.run Flash.answer flash = ((configFault flash.config, flash.config), flash) := by
  simp only [configLoad, bind_eq, perform_bind, run_call, Flash.answer, Bool.not_true,
    Bool.false_eq_true, ↓reduceIte, run_bind]
  rw [read_str_run, read_str_run, read_str_run, read_str_run]
  rfl

theorem boots_eq (flash : Flash) : boots flash = (configFault flash.config, flash.config) := by
  rw [boots, config_load_run]

theorem boots_fields {flash : Flash} {c : Config} (usable : configFault c = .none)
    (fields : ∀ k, flash.field k = c.get k) : boots flash = (.none, c) := by
  have whole : flash.config = c := by
    apply config_ext
    intro k
    rw [flash_config_get, fields k]
  rw [boots_eq, whole, usable]

theorem read_stored {k : Key} (f : Field k.cap) :
    (NvsEntry.str f.text f.free).read k.cap = some f := by
  simp [NvsEntry.read, f.fits]

theorem config_save_run {c : Config} (usable : configUsable c = true) (flash : Flash) :
    (configSave c).run Flash.answer flash = (true, entryOf c) := by
  have every : Function.update (Function.update (Function.update (Function.update flash
      .ssid (entryOf c .ssid)) .pass (entryOf c .pass)) .broker (entryOf c .broker))
      .host (entryOf c .host) = entryOf c := by
    funext k
    cases k <;> rfl
  rw [← every]
  simp [configSave, usable, setAll, Flash.answer, entryOf]

theorem boots_entries {c : Config} (usable : configUsable c = true) :
    boots (entryOf c) = (.none, c) := by
  apply boots_fields
  · simpa [configUsable] using usable
  · intro k
    rw [Flash.field, entryOf, read_stored]
    rfl

end GplugConfigStore
