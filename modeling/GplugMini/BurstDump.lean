import Mathlib.Tactic.Common
import GplugMini.Framing
import GplugMini.SimSource

/- What the main loop logs of a burst that decoded to nothing: its first bytes, where its
   flags stand, and the bytes from the first of them on. An array starts with whatever the
   stack held, and a write beyond its end has no result. -/
namespace GplugBurstDump
open ByteText FormCoding HexText GplugFraming GplugSimSource

def headBytes : Nat := 32
def frameBytes : Nat := 24

def byteText (b : UInt8) : Bytes := hexUpper b ++ [space]

/-- std::snprintf(array + i * 3, 4, "%02X ", b) -/
def printByte (array : Bytes) (i : Nat) (b : UInt8) : Option Bytes :=
  if i * 3 + 4 ≤ array.length then some (poke array (i * 3) ((byteText b).take 3 ++ [0])) else none

def printBytes (array : Bytes) (i : Nat) : Bytes → Option Bytes
  | [] => if i * 3 < array.length then some (poke array (i * 3) [0]) else none
  | b :: rest => do
      let array ← printByte array i b
      printBytes array (i + 1) rest

structure FlagScan where
  flags : Nat
  firstFlag : Nat
  framed : Bool
  deriving DecidableEq, Repr

def scanFlags (scan : FlagScan) (i : Nat) : Bytes → FlagScan
  | [] => scan
  | b :: rest =>
      if b ≠ flag then scanFlags scan (i + 1) rest
      else scanFlags
        { flags := scan.flags + 1
          firstFlag := if scan.flags = 0 then i else scan.firstFlag
          framed := if rest.head?.any formatByte then true else scan.framed } (i + 1) rest

structure Diagnosis where
  head : Bytes
  scan : FlagScan
  frame : Option Bytes

def diagnose (head frame cycle : Bytes) : Option Diagnosis := do
  let head ← printBytes head 0 (cycle.take headBytes)
  let scan := scanFlags ⟨0, cycle.length, false⟩ 0 cycle
  if scan.framed then
    let frame ← printBytes frame 0 ((cycle.drop scan.firstFlag).take frameBytes)
    pure ⟨head, scan, some frame⟩
  else pure ⟨head, scan, none⟩

theorem byte_text_length (b : UInt8) : (byteText b).length = 3 := rfl

theorem hex_visible (b : UInt8) : NulFree (byteText b) := by
  obtain ⟨high, low⟩ := nibbles_small b
  have digit : ∀ n < 16, hexDigit (UInt8.ofNat n) ≠ 0 := by decide
  have visible {d : UInt8} (small : d < 16) : hexDigit d ≠ 0 := by
    have taken := digit d.toNat (UInt8.lt_iff_toNat_lt.mp small)
    rwa [UInt8.ofNat_toNat] at taken
  simp [byteText, hexUpper, visible high, visible low, space]

theorem print_bytes_text (bytes : Bytes) {printed : Bytes} (rest : Bytes) {i : Nat}
    (reached : printed.length = i * 3) (visible : NulFree printed)
    (room : bytes.length * 3 < rest.length) :
    ∃ array, printBytes (printed ++ rest) i bytes = some array ∧
      array.length = (printed ++ rest).length ∧ cstr array = printed ++ bytes.flatMap byteText := by
  induction bytes generalizing printed rest i with
  | nil =>
    have inside : i * 3 < (printed ++ rest).length := by
      rw [List.length_append]
      omega
    refine ⟨poke (printed ++ rest) (i * 3) [0], if_pos inside, poke_length inside, ?_⟩
    rw [← reached, poke_behind, List.append_assoc, List.singleton_append, cstr_append_nul visible,
      List.flatMap_nil, List.append_nil]
  | cons b bytes ih =>
    rw [List.length_cons] at room
    have inside : i * 3 + 4 ≤ (printed ++ rest).length := by
      rw [List.length_append]
      omega
    have wrote : poke (printed ++ rest) (i * 3) ((byteText b).take 3 ++ [0]) =
        (printed ++ byteText b) ++ 0 :: rest.drop 4 := by
      have whole : (byteText b).take 3 = byteText b := List.take_of_length_le (Nat.le_refl _)
      rw [← reached, poke_behind, whole]
      simp [byte_text_length]
    have longer : (printed ++ byteText b).length = (i + 1) * 3 := by
      rw [List.length_append, byte_text_length]
      omega
    have free : NulFree (printed ++ byteText b) :=
      (nul_free_append _ _).mpr ⟨visible, hex_visible b⟩
    obtain ⟨array, done, size, text⟩ := ih (0 :: rest.drop 4) longer free (by
      rw [List.length_cons, List.length_drop]
      omega)
    refine ⟨array, ?_, ?_, ?_⟩
    · rw [printBytes, printByte, if_pos inside, wrote]
      exact done
    · rw [size, ← wrote, poke_length]
      exact inside
    · rw [text, List.flatMap_cons, List.append_assoc]

theorem dump_reads (array bytes : Bytes) (room : bytes.length * 3 < array.length) :
    ∃ text, printBytes array 0 bytes = some text ∧ text.length = array.length ∧
      cstr text = bytes.flatMap byteText ∧ parseHex (cstr text) = bytes := by
  have start : ([] : Bytes).length = 0 * 3 := rfl
  obtain ⟨text, printed, size, shown⟩ := print_bytes_text bytes array start nul_free_nil room
  have separates : Blank [space] := by decide
  refine ⟨text, printed, size, shown, ?_⟩
  rw [shown, parse_hex_reads]
  exact read_hex_spaced separates bytes

theorem scan_from (scan : FlagScan) (i : Nat) (bytes : Bytes) :
    (scanFlags scan i bytes).flags = scan.flags + bytes.count flag ∧
      (scanFlags scan i bytes).framed = (scan.framed || framed bytes) ∧
      (scanFlags scan i bytes).firstFlag =
        if scan.flags = 0 ∧ flag ∈ bytes then i + bytes.idxOf flag else scan.firstFlag := by
  induction bytes generalizing scan i with
  | nil => simp [scanFlags, framed]
  | cons b rest ih =>
    by_cases other : b ≠ flag
    · have apart : framed (b :: rest) = framed rest := by
        cases rest <;> simp [framed, other]
      rw [scanFlags, if_pos other, apart]
      obtain ⟨flags, verdict, first⟩ := ih scan (i + 1)
      refine ⟨?_, verdict, ?_⟩
      · rw [flags, List.count_cons_of_ne other]
      · rw [first, List.idxOf_cons_ne _ other]
        simp only [List.mem_cons, Ne.symm other, false_or, Nat.succ_eq_add_one]
        split <;> omega
    · obtain rfl : b = flag := by simpa using other
      rw [scanFlags, if_neg (by simp)]
      obtain ⟨flags, verdict, first⟩ := ih _ (i + 1)
      refine ⟨?_, ?_, ?_⟩
      · rw [flags, List.count_cons_self, Nat.add_assoc, Nat.add_comm 1]
      · rw [verdict]
        cases rest with
        | nil => simp [framed]
        | cons c rest => cases formatted : formatByte c <;> simp [framed, formatted]
      · rw [first]
        simp

theorem flag_scan (cycle : Bytes) :
    scanFlags ⟨0, cycle.length, false⟩ 0 cycle =
      ⟨cycle.count flag, cycle.idxOf flag, framed cycle⟩ := by
  obtain ⟨flags, verdict, first⟩ := scan_from ⟨0, cycle.length, false⟩ 0 cycle
  have position : (scanFlags ⟨0, cycle.length, false⟩ 0 cycle).firstFlag = cycle.idxOf flag := by
    rw [first]
    by_cases inside : flag ∈ cycle
    · simp [inside]
    · simp [inside]
  rw [Nat.zero_add] at flags
  rw [Bool.false_or] at verdict
  rw [← flags, ← verdict, ← position]

theorem framed_flag {cycle : Bytes} (shows : framed cycle = true) : flag ∈ cycle := by
  induction cycle using framed.induct with
  | case1 b c rest ih =>
    simp only [framed, Bool.or_eq_true, Bool.and_eq_true, beq_iff_eq] at shows
    rcases shows with here | later
    · exact here.1 ▸ List.mem_cons_self
    · exact List.mem_cons_of_mem _ (ih later)
  | case2 bytes few =>
    rw [framed] at shows
    · cases shows
    · exact few

/-- What the log says of a burst: all of it stands inside its arrays, whatever these held,
    and its dumps are bytes a fixture of the simulated meter can be made of. -/
theorem diagnosis_reads {head frame : Bytes} (headSize : head.length = 3 * headBytes + 1)
    (frameSize : frame.length = 3 * frameBytes + 1) (cycle : Bytes) :
    ∃ d, diagnose head frame cycle = some d ∧
      d.scan = ⟨cycle.count flag, cycle.idxOf flag, framed cycle⟩ ∧
      cstr d.head = (cycle.take headBytes).flatMap byteText ∧
      parseHex (cstr d.head) = cycle.take headBytes ∧
      (d.frame.isSome ↔ framed cycle = true) ∧
      ∀ text ∈ d.frame, ∃ front rest, cycle = front ++ flag :: rest ∧ flag ∉ front ∧
        parseHex (cstr text) = (flag :: rest).take frameBytes := by
  obtain ⟨text, printed, _, shown, read⟩ := dump_reads head
    (cycle.take headBytes) (by rw [List.length_take]; omega)
  obtain ⟨tail, printedTail, _, _, readTail⟩ := dump_reads frame
    ((cycle.drop (cycle.idxOf flag)).take frameBytes) (by rw [List.length_take]; omega)
  simp only [diagnose, printed, flag_scan, Option.bind_eq_bind, Option.bind_some]
  cases shows : framed cycle with
  | false => exact ⟨⟨text, _, none⟩, rfl, rfl, shown, read, by simp, by simp⟩
  | true =>
    have inside := List.idxOf_lt_length_of_mem (framed_flag shows)
    have flagThere : cycle[cycle.idxOf flag] = flag := List.getElem_idxOf inside
    refine ⟨⟨text, _, some tail⟩, by simp [printedTail], rfl, shown, read, by simp, ?_⟩
    intro found same
    obtain rfl : tail = found := by simpa using same
    refine ⟨cycle.take (cycle.idxOf flag), cycle.drop (cycle.idxOf flag + 1), ?_, ?_, ?_⟩
    · conv_lhs => rw [← List.take_append_drop (cycle.idxOf flag) cycle,
        List.drop_eq_getElem_cons inside, flagThere]
    · rw [List.mem_take_iff_idxOf_lt (framed_flag shows)]
      omega
    · rw [readTail, List.drop_eq_getElem_cons inside, flagThere]

theorem diagnosis_reads_framed :
    ∃ d, diagnose (.replicate 97 0xA5) (.replicate 73 0xA5) [0x41, 0x7E, 0xA0, 0x08] = some d ∧
      d.scan = ⟨1, 1, true⟩ ∧ cstr d.head = ascii "41 7E A0 08 " := by
  have headSize : (List.replicate 97 (0xA5 : UInt8)).length = 3 * headBytes + 1 := by decide
  have frameSize : (List.replicate 73 (0xA5 : UInt8)).length = 3 * frameBytes + 1 := by decide
  obtain ⟨d, done, scan, shown, _⟩ :=
    diagnosis_reads headSize frameSize [0x41, 0x7E, 0xA0, 0x08]
  exact ⟨d, done, scan.trans (by decide), shown.trans (by decide)⟩

end GplugBurstDump
