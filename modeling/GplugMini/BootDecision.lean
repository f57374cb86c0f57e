import Mathlib.Tactic.Common
import GplugMini.ConfigStore

/- What app_main decides when the device boots: the configuration to run with, whether the
   portal is raised for want of one, and the station record the WiFi driver is given. -/
namespace GplugBootDecision
open ByteText CallTree GplugConfig GplugConfigStore

structure BuildDefaults where
  wifiSsid : Bytes
  wifiPassword : Bytes
  mqttUri : Bytes
  deriving DecidableEq, Repr

/-- strncpy into a zeroed array, its last byte spared. -/
def Field.copied {cap : Nat} (room : 0 < cap) (text : Bytes) : Field cap where
  text := (cstr text).take (cap - 1)
  free := nul_free_take (cstr_nul_free text) _
  fits := by
    rw [List.length_take]
    omega

def fallback (build : BuildDefaults) : Config where
  ssid := Field.copied (cap_positive .ssid) build.wifiSsid
  passphrase := Field.copied (cap_positive .pass) build.wifiPassword
  broker := Field.copied (cap_positive .broker) build.mqttUri
  hostname := Config.blank.hostname

def configEffective (build : BuildDefaults) : NvsCalls Config := do
  let (fault, stored) ← configLoad
  if fault = .none then pure stored else pure (fallback build)

inductive AuthMode where
  | open
  | wpa2Psk
  deriving DecidableEq, Repr

/-- The station part of wifi_config_t: octet arrays, not C strings. -/
structure StationConfig where
  ssid : Bytes
  password : Bytes
  authmode : AuthMode
  pmfCapable : Bool
  pmfRequired : Bool
  deriving DecidableEq, Repr

def ssidOctets : Nat := 32
def passwordOctets : Nat := 64

def copyOctets (size : Nat) (text : Bytes) : Bytes :=
  poke (List.replicate size 0) 0 (text.take (min text.length size))

/-- What wifi_start_and_wait sets the driver to. -/
def wifiStation (conf : Config) : StationConfig where
  ssid := copyOctets ssidOctets conf.ssid.text
  password := copyOctets passwordOctets conf.passphrase.text
  authmode := if conf.passphrase.text.headD 0 = 0 then .open else .wpa2Psk
  pmfCapable := true
  pmfRequired := false

inductive Source where
  | nvs
  | build
  deriving DecidableEq, Repr

inductive Course where
  | provisioning (fault : ConfigFault)
  | station (config : StationConfig) (brokerUri : Bytes)
  deriving DecidableEq, Repr

structure Booted where
  source : Source
  conf : Config
  course : Course
  deriving DecidableEq, Repr

/-- The record is loaded twice: once for its source, once to run with. -/
def appMain (build : BuildDefaults) : NvsCalls Booted := do
  let (fault, _) ← configLoad
  let source := if fault = .none then .nvs else .build
  let conf ← configEffective build
  if !configUsable conf then pure ⟨source, conf, .provisioning (configFault conf)⟩
  else pure ⟨source, conf, .station (wifiStation conf) conf.broker.text⟩

def bootsInto (build : BuildDefaults) (flash : Flash) : Booted :=
  ((appMain build).run Flash.answer flash).1

theorem config_effective_run (build : BuildDefaults) (flash : Flash) :
    (configEffective build).run Flash.answer flash =
      (if configUsable flash.config then flash.config else fallback build, flash) := by
  simp only [configEffective, bind_eq, run_bind, config_load_run, configUsable, decide_eq_true_eq]
  split <;> rfl

theorem boots_into_eq (build : BuildDefaults) (flash : Flash) :
    bootsInto build flash =
      if configUsable flash.config then
        ⟨.nvs, flash.config, .station (wifiStation flash.config) flash.config.broker.text⟩
      else if configUsable (fallback build) then
        ⟨.build, fallback build,
          .station (wifiStation (fallback build)) (fallback build).broker.text⟩
      else ⟨.build, fallback build, .provisioning (configFault (fallback build))⟩ := by
  simp only [bootsInto, appMain, bind_eq, run_bind, config_load_run, config_effective_run]
  by_cases stored : configUsable flash.config = true
  · have fine : configFault flash.config = .none := by simpa [configUsable] using stored
    simp [stored, fine]
  · have bad : configFault flash.config ≠ .none := by simpa [configUsable] using stored
    cases built : configUsable (fallback build) <;> simp [stored, bad, built]

theorem copy_octets_eq {size : Nat} {text : Bytes} (fits : text.length ≤ size) :
    copyOctets size text = text ++ List.replicate (size - text.length) 0 := by
  simp [copyOctets, poke, Nat.min_eq_left fits]

theorem wifi_station_octets (conf : Config) :
    (wifiStation conf).ssid =
        conf.ssid.text ++ List.replicate (ssidOctets - conf.ssid.text.length) 0 ∧
      (wifiStation conf).password = conf.passphrase.text ++
        List.replicate (passwordOctets - conf.passphrase.text.length) 0 := by
  have ssid := conf.ssid.fits
  have passphrase := conf.passphrase.fits
  simp only [Key.cap, ssidMax, passphraseMax] at ssid passphrase
  exact ⟨copy_octets_eq (by simp only [ssidOctets]; omega),
    copy_octets_eq (by simp only [passwordOctets]; omega)⟩

theorem wifi_station_open_iff (conf : Config) :
    (wifiStation conf).authmode = .open ↔ conf.passphrase.text = [] := by
  have whole := cstr_of_nul_free conf.passphrase.free
  rw [← whole, cstr_eq_nil_iff, wifiStation]
  by_cases ended : conf.passphrase.text.headD 0 = 0
  · simp only [ended, ↓reduceIte]
  · simp only [ended, ↓reduceIte, reduceCtorEq]

end GplugBootDecision
