import Mathlib.Tactic.Common
import GplugMini.Indicator
import GplugMini.Library.ByteText

/- The update module: the command handler and the download tasks it creates, with the RAM
   they share. A task keeps the URL of the command that created it, which the code does not. -/
namespace GplugOta
open ByteText
open GplugIndicator (Indication)

/-- The C string is a URL of at least twelve visible characters with scheme and remainder. -/
def otaUrlAcceptable (url : Bytes) : Bool :=
  let text := cstr url
  let scheme := if text.getD 4 0 = 115 then 5 else 4
  text.all (fun b => 0x20 < b) && text.length ≤ 255 && 12 ≤ text.length &&
    text.take 4 == ascii "http" && (text.drop scheme).take 3 == ascii "://" &&
    text.getD (scheme + 3) 0 != 0

def pendingSize : Nat := 256

/-- How far the task of a download has come: not run yet, the flag up, Updating indicated, in
    esp_https_ota with the URL it read, or past it and waiting for the restart. -/
inductive Phase where
  | created
  | flagged
  | running
  | fetching (url : Bytes)
  | restarting
  deriving DecidableEq, Repr

structure Download where
  own : Bytes
  phase : Phase
  deriving DecidableEq, Repr

/-- Every download alive, created and neither failed nor ended by a restart; and how many
    tasks have seen theirs fail and not indicated it yet. -/
structure Ota where
  pendingUrl : Bytes
  downloading : Bool
  indication : Indication
  downloads : List Download
  failed : Nat
  deriving DecidableEq, Repr

def Ota.boot : Ota := ⟨[], false, .operational, [], 0⟩

def accepts (payload : Bytes) : Bool :=
  payload ≠ [] && payload.length < pendingSize && otaUrlAcceptable payload

def otaHandleCommand (s : Ota) (payload : Bytes) (created : Bool) : Ota × Bool :=
  if s.downloading then (s, false)
  else if !accepts payload then (s, false)
  else
    let url := cstr payload
    let stored := { s with pendingUrl := url }
    if created then ({ stored with downloads := s.downloads ++ [⟨url, .created⟩] }, true)
    else (stored, false)

/-- A command handled, or a step of a download task between two places where another task can
    come in: the flag, the indication, esp_https_ota reading the URL it was given a pointer
    to, its return, what is indicated after a failure, the end of the half second after a
    success. -/
inductive Step where
  | command (payload : Bytes) (created : Bool)
  | starts (i : Nat)
  | indicates (i : Nat)
  | fetches (i : Nat)
  | returns (i : Nat) (ok : Bool)
  | ends
  | restarts (i : Nat)
  deriving DecidableEq, Repr

def Ota.step (s : Ota) : Step → Ota
  | .command payload created => (otaHandleCommand s payload created).1
  | .starts i =>
      match s.downloads[i]? with
      | some ⟨own, .created⟩ =>
          { s with downloading := true, downloads := s.downloads.set i ⟨own, .flagged⟩ }
      | _ => s
  | .indicates i =>
      match s.downloads[i]? with
      | some ⟨own, .flagged⟩ =>
          { s with indication := .updating, downloads := s.downloads.set i ⟨own, .running⟩ }
      | _ => s
  | .fetches i =>
      match s.downloads[i]? with
      | some ⟨own, .running⟩ =>
          { s with downloads := s.downloads.set i ⟨own, .fetching s.pendingUrl⟩ }
      | _ => s
  | .returns i ok =>
      match s.downloads[i]? with
      | some ⟨own, .fetching _⟩ =>
          if ok then
            { s with downloading := false, downloads := s.downloads.set i ⟨own, .restarting⟩ }
          else
            { s with downloading := false, downloads := s.downloads.eraseIdx i
                     failed := s.failed + 1 }
      | _ => s
  | .ends =>
      -- one failed task is as good as another: all of them indicate the same
      match s.failed with
      | n + 1 => { s with indication := .operational, failed := n }
      | 0 => s
  | .restarts i =>
      match s.downloads[i]? with
      | some ⟨_, .restarting⟩ => .boot
      | _ => s

def Ota.run (steps : List Step) : Ota := steps.foldl Ota.step .boot

theorem run_snoc (steps : List Step) (step : Step) :
    Ota.run (steps ++ [step]) = (Ota.run steps).step step := by simp [Ota.run]

/- ota_in_progress, and ota_mark_valid_on_session with the calls it makes. -/

def otaInProgress (s : Ota) : Bool := s.downloading

inductive ImageState where
  | new
  | pendingVerify
  | valid
  | invalid
  | aborted
  | undefined
  deriving DecidableEq, Repr

inductive ImageCall where
  | getStatePartition
  | markAppValidCancelRollback
  deriving DecidableEq, Repr

/-- What the two calls return. A mark that fails may have been written all the same. -/
structure ImageApi where
  stateRead : Bool
  marked : Bool
  written : Bool
  deriving DecidableEq, Repr

structure Image where
  state : ImageState
  validated : Bool
  deriving DecidableEq, Repr

def otaMarkValidOnSession (s : Image) (api : ImageApi) : Image × List ImageCall :=
  if s.validated then (s, [])
  else if !api.stateRead then (s, [.getStatePartition])
  else if s.state ≠ .pendingVerify then ({ s with validated := true }, [.getStatePartition])
  else
    (if api.marked then ⟨.valid, true⟩
      else if api.written then { s with state := .valid } else s,
      [.getStatePartition, .markAppValidCancelRollback])

end GplugOta
