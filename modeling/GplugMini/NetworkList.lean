import Mathlib.Tactic.Common
import GplugMini.Provisioning
import GplugMini.Library.DecimalText

/- The paragraph of networks in range that the setup page carries, as one scan leaves it in
   its buffer. -/
namespace GplugNetworkList
open ByteText DecimalText GplugProvisioning

def maxListed : Nat := 12
def summarySize : Nat := 512

/-- An access point: its SSID is up to 32 bytes of any value, NUL-padded in the record. -/
structure Record where
  ssid : Bytes
  fits : ssid.length ≤ 32
  rssi : Int8

/-- What the driver answers: whether the scan ran, how many it counted, and the records it
    hands out, which are never more than asked for. -/
structure Scan where
  started : Bool
  counted : Nat
  records : Option (List Record)
  asked : ∀ rs, records = some rs → rs.length ≤ min counted maxListed

def Scan.found (scan : Scan) : Nat := min scan.counted maxListed

def signed (v : Int) : Bytes := (if v < 0 then ascii "-" else []) ++ decimal v.natAbs

def opening : Bytes := ascii "<p class=n>In range: "
def closing : Bytes := ascii "</p>"

def shown (name : Bytes) (rssi : Int8) : Bytes :=
  name ++ ascii " (" ++ signed rssi.toInt ++ ascii " dBm)"

def entry (r : Record) : Bytes :=
  shown (cstr (r.ssid ++ List.replicate (33 - r.ssid.length) 0)) r.rssi

def separator (i : Nat) : Bytes := if i ≠ 0 then ascii ", " else []

def listLoop : Nat → Nat → Bytes → List Record → Bytes × Nat
  | _, used, summary, [] => (summary, used)
  | i, used, summary, r :: records =>
      if 0 < used ∧ used < summarySize then
        let text := separator i ++ entry r
        if text.length = 0 ∨ summarySize - used ≤ text.length then
          (formatAt summary used text, used)
        else listLoop (i + 1) (used + text.length) (formatAt summary used text) records
      else (summary, used)

def closeList (summary : Bytes) (used : Nat) : Bytes :=
  if 0 < used ∧ used < summarySize then formatAt summary used closing else summary

def scanNetworksOnce (summary : Bytes) (scan : Scan) : Bytes :=
  let summary := poke summary 0 [0]
  if scan.started then
    if scan.found = 0 then summary
    else match scan.records with
      | none => summary
      | some records =>
          let listed := listLoop 0 opening.length (formatAt summary 0 opening)
            records
          closeList listed.1 listed.2
  else summary

def paragraph (records : List Record) : Bytes :=
  opening ++ (ascii ", ").intercalate (records.map fun r => shown r.ssid r.rssi) ++ closing

/-- A byte that makes a tag, a comment or a declaration of the '<' before it. -/
def opensTag (b : UInt8) : Bool :=
  (97 ≤ b && b ≤ 122) || (65 ≤ b && b ≤ 90) || b == 47 || b == 33 || b == 63

def markup : Bytes → Bool
  | a :: b :: rest => (a == 60 && opensTag b) || markup (b :: rest)
  | _ => false

/-- The page is given nothing, or one paragraph of whole records and no markup in it. -/
def Harmless (records : List Record) (text : Bytes) : Prop :=
  text = [] ∨ ∃ k, k ≤ records.length ∧ k ≤ maxListed ∧ text = paragraph (records.take k) ∧
    markup ((ascii ", ").intercalate ((records.take k).map fun r => shown r.ssid r.rssi)) = false

def printed : Nat → List Record → Bytes
  | _, [] => []
  | i, r :: records => separator i ++ entry r ++ printed (i + 1) records

def fitting : Nat → Nat → List Record → List Record
  | _, _, [] => []
  | i, used, r :: records =>
      if used + (separator i ++ entry r).length < summarySize then
        r :: fitting (i + 1) (used + (separator i ++ entry r).length) records
      else []

/-- No list is made, or the records that fit are harmless by themselves and leave the room the
    closing tag takes with its terminator. -/
def Covered (scan : Scan) : Prop :=
  scan.started = false ∨ scan.found = 0 ∨ ∀ records, scan.records = some records →
    (∀ r ∈ fitting 0 opening.length records, NulFree r.ssid ∧ markup r.ssid = false) ∧
      opening.length + (printed 0 (fitting 0 opening.length records)).length + 5 ≤ summarySize

theorem entry_name (r : Record) : entry r = shown (cstr r.ssid) r.rssi := by
  have fits := r.fits
  obtain ⟨n, room⟩ : ∃ n, 33 - r.ssid.length = n + 1 := ⟨32 - r.ssid.length, by omega⟩
  rw [entry, room, List.replicate_succ, cstr_before_nul]

theorem entry_whole {r : Record} (free : NulFree r.ssid) : entry r = shown r.ssid r.rssi := by
  rw [entry_name, cstr_of_nul_free free]

theorem entry_long (i : Nat) (r : Record) : 8 ≤ (separator i ++ entry r).length := by
  have some := List.length_pos_of_ne_nil (decimal_ne_nil r.rssi.toInt.natAbs)
  simp only [entry, shown, signed, List.length_append]
  simp only [ascii, String.reduceToList, List.map_cons, List.map_nil, List.length_cons,
    List.length_nil]
  omega

theorem printed_cons_length (i : Nat) (r : Record) (records : List Record) :
    (printed i (r :: records)).length =
      (separator i ++ entry r).length + (printed (i + 1) records).length := by
  rw [printed]
  exact List.length_append

theorem decimal_nul_free (n : Nat) : NulFree (decimal n) :=
  fun b member => (decimal_bare n b member).1

theorem printed_nul_free (i : Nat) (records : List Record) : NulFree (printed i records) := by
  induction records generalizing i with
  | nil => exact nul_free_nil
  | cons r records ih =>
    have lead : NulFree (separator i) := by
      unfold separator
      split <;> decide
    have sign : NulFree (signed r.rssi.toInt) := by
      unfold signed
      split
      · exact (nul_free_append _ _).mpr ⟨by decide, decimal_nul_free _⟩
      · exact (nul_free_append _ _).mpr ⟨by decide, decimal_nul_free _⟩
    rw [printed, entry]
    simp only [shown, nul_free_append]
    exact ⟨⟨lead, ⟨⟨cstr_nul_free _, by decide⟩, sign⟩, by decide⟩, ih (i + 1)⟩

/-- The buffer holds this text before the write position, and room for more behind it. -/
structure Written (summary text : Bytes) (used : Nat) : Prop where
  sized : summary.length = summarySize
  front : summary.take used = text
  free : NulFree text
  place : text.length = used
  room : used < summarySize

theorem written_grows {summary text more : Bytes} {used : Nat} (written : Written summary text used)
    (free : NulFree more) (fits : used + more.length < summarySize) :
    Written (formatAt summary used more) (text ++ more) (used + more.length) := by
  have sized := written.sized
  have place := written.place
  obtain ⟨rest, shape⟩ := format_takes (by rw [sized]; exact written.room) more
  refine ⟨by rw [format_at_length, sized], ?_, (nul_free_append _ _).mpr ⟨written.free, free⟩,
    by rw [List.length_append, place], fits⟩
  rw [shape, written.front, List.take_of_length_le (l := more) (by omega)]
  exact List.take_left' (by rw [List.length_append, place])

theorem list_loop_written (records : List Record) {i used : Nat} {summary text : Bytes}
    (written : Written summary text used) (begun : 0 < used) :
    Written (listLoop i used summary records).1 (text ++ printed i (fitting i used records))
      (listLoop i used summary records).2 ∧
    (listLoop i used summary records).2 = used + (printed i (fitting i used records)).length := by
  induction records generalizing i used summary text with
  | nil => simpa [listLoop, fitting, printed] using written
  | cons r records ih =>
    have room := written.room
    have long := entry_long i r
    rw [listLoop, if_pos ⟨begun, room⟩, fitting]
    by_cases fits : used + (separator i ++ entry r).length < summarySize
    · have free : NulFree (separator i ++ entry r) := by
        have := printed_nul_free i [r]
        rwa [printed, printed, List.append_nil] at this
      obtain ⟨next, length⟩ := ih (i := i + 1) (written_grows written free fits) (by omega)
      rw [if_neg (by omega), if_pos fits]
      constructor
      · rw [printed]
        simpa only [List.append_assoc] using next
      · rw [length, printed_cons_length]
        omega
    · -- what was written of this entry stands behind the position, where the end goes
      rw [if_pos (by omega), if_neg fits, printed, List.append_nil]
      have inside : used < summary.length := by rw [written.sized]; exact room
      exact ⟨⟨by rw [format_at_length, written.sized], by rw [format_front inside, written.front],
        written.free, written.place, room⟩, rfl⟩

theorem scanned_text (summary : Terminated summarySize) (scan : Scan) {records : List Record}
    (started : scan.started = true) (counted : scan.found ≠ 0)
    (handed : scan.records = some records) :
    cstr (scanNetworksOnce summary.array scan) =
      opening ++ printed 0 (fitting 0 opening.length records) ++
        closing.take (summarySize - (opening.length +
          (printed 0 (fitting 0 opening.length records)).length) - 1) := by
  have size : (poke summary.array 0 [0]).length = summarySize := by
    rw [poke_length, summary.size]
    rw [summary.size]
    decide
  have nothing : Written (poke summary.array 0 [0]) [] 0 :=
    ⟨size, rfl, nul_free_nil, rfl, by decide⟩
  have opened := written_grows nothing (show NulFree opening by decide) (by decide)
  rw [List.nil_append, Nat.zero_add] at opened
  obtain ⟨listed, used⟩ := list_loop_written records opened (by decide)
  generalize loop : listLoop 0 opening.length (formatAt (poke summary.array 0 [0]) 0 opening)
    records = final at listed used
  have begun : 0 < opening.length := by decide
  have inside : final.2 < final.1.length := by
    rw [listed.sized]
    exact listed.room
  obtain ⟨rest, shape⟩ := format_takes inside closing
  have result : scanNetworksOnce summary.array scan = formatAt final.1 final.2 closing := by
    simp only [scanNetworksOnce, if_pos started, if_neg counted, handed, loop, closeList]
    exact if_pos ⟨by omega, listed.room⟩
  have free : NulFree (opening ++ printed 0 (fitting 0 opening.length records) ++
      closing.take (summarySize - final.2 - 1)) :=
    (nul_free_append _ _).mpr ⟨listed.free, nul_free_take (by decide) _⟩
  rw [result, shape, listed.front, listed.sized, cstr_append_nul free, used]

def inner (records : List Record) : Bytes :=
  (ascii ", ").intercalate (records.map fun r => shown r.ssid r.rssi)

theorem inner_singleton (r : Record) : inner [r] = shown r.ssid r.rssi := by
  simp [inner, List.intercalate]

theorem inner_cons_cons (r next : Record) (records : List Record) :
    inner (r :: next :: records) =
      shown r.ssid r.rssi ++ ascii ", " ++ inner (next :: records) := by
  simp [inner, List.intercalate]

theorem printed_whole {records : List Record} (free : ∀ r ∈ records, NulFree r.ssid) :
    printed 0 records = inner records := by
  have behind (i : Nat) (rest : List Record) (free : ∀ r ∈ rest, NulFree r.ssid) :
      ∀ r, NulFree r.ssid → entry r ++ printed (i + 1) rest = inner (r :: rest) := by
    induction rest generalizing i with
    | nil =>
      intro r one
      rw [printed, List.append_nil, entry_whole one, inner_singleton]
    | cons next rest ih =>
      intro r one
      obtain ⟨here, later⟩ := List.forall_mem_cons.mp free
      have sep : separator (i + 1) = ascii ", " := if_pos (Nat.succ_ne_zero i)
      rw [printed, inner_cons_cons, ← ih (i + 1) later next here, sep, entry_whole one,
        List.append_assoc, List.append_assoc]
  cases records with
  | nil => rfl
  | cons r rest =>
    obtain ⟨here, later⟩ := List.forall_mem_cons.mp free
    have sep : separator 0 = [] := if_neg (by simp)
    rw [printed, sep, List.nil_append]
    exact behind 0 rest later r here

theorem markup_apart (left right : Bytes) {c : UInt8} (sign : c ≠ 60) (tag : opensTag c = false) :
    markup (left ++ c :: right) = (markup left || markup right) := by
  induction left with
  | nil =>
    cases right with
    | nil => rfl
    | cons b right => simp [markup, sign]
  | cons a left ih =>
    cases left with
    | nil =>
      rw [List.nil_append] at ih
      rw [List.cons_append, List.nil_append, markup, ih, tag]
      simp [markup]
    | cons b left =>
      rw [List.cons_append, List.cons_append, markup, ← List.cons_append, ih, markup, Bool.or_assoc]

theorem markup_without_sign {text : Bytes} (none : 60 ∉ text) : markup text = false := by
  induction text with
  | nil => rfl
  | cons a text ih =>
    simp only [List.mem_cons, not_or] at none
    cases text with
    | nil => rfl
    | cons b text => simp [markup, Ne.symm none.1, ih none.2]

theorem signed_without_sign (v : Int) : (60 : UInt8) ∉ signed v := by
  intro member
  rcases List.mem_append.mp member with lead | digit
  · split at lead
    · exact absurd lead (by decide)
    · cases lead
  · have := decimal_digits _ _ digit
    exact absurd this (by decide)

theorem shown_markup (name : Bytes) (rssi : Int8) (rest : Bytes) :
    markup (shown name rssi ++ 44 :: rest) = (markup name || markup rest) ∧
      markup (shown name rssi) = markup name := by
  have shape : shown name rssi = name ++ 32 :: (40 :: (signed rssi.toInt ++ ascii " dBm)")) := by
    simp [shown, ascii]
  have strength : markup (40 :: (signed rssi.toInt ++ ascii " dBm)")) = false := by
    apply markup_without_sign
    simp only [List.mem_cons, List.mem_append, not_or]
    exact ⟨by decide, signed_without_sign _, by decide⟩
  have alone : markup (shown name rssi) = markup name := by
    rw [shape, markup_apart _ _ (by decide) (by decide), strength, Bool.or_false]
  refine ⟨?_, alone⟩
  rw [markup_apart _ _ (by decide) (by decide), alone]

theorem inner_markup (records : List Record) :
    markup (inner records) = false ↔ ∀ r ∈ records, markup r.ssid = false := by
  induction records with
  | nil => simp [inner, List.intercalate, markup]
  | cons r records ih =>
    cases records with
    | nil =>
      rw [inner_singleton, (shown_markup r.ssid r.rssi []).2]
      simp
    | cons next records =>
      have shape : inner (r :: next :: records) =
          shown r.ssid r.rssi ++ 44 :: (([] : Bytes) ++ 32 :: inner (next :: records)) := by
        rw [inner_cons_cons]
        simp [ascii]
      rw [shape, (shown_markup _ _ _).1, markup_apart _ _ (by decide) (by decide),
        List.forall_mem_cons, ← ih]
      simp [markup]

theorem fitting_take (records : List Record) (i used : Nat) :
    fitting i used records = records.take (fitting i used records).length := by
  induction records generalizing i used with
  | nil => rfl
  | cons r records ih =>
    rw [fitting]
    split
    · rw [List.length_cons, List.take_succ_cons, ← ih]
    · rfl

theorem beyond_fitting {records : List Record} {i used k : Nat}
    (more : (fitting i used records).length < k) (present : k ≤ records.length) :
    summarySize ≤ used + (printed i (records.take k)).length := by
  induction records generalizing i used k with
  | nil =>
    rw [List.length_nil] at present
    omega
  | cons r records ih =>
    obtain ⟨k, rfl⟩ : ∃ n, k = n + 1 := ⟨k - 1, by omega⟩
    rw [fitting] at more
    rw [List.take_succ_cons, printed_cons_length]
    split at more
    · rw [List.length_cons] at more present
      have := ih (i := i + 1) (Nat.lt_of_succ_lt_succ more) (Nat.le_of_succ_le_succ present)
      omega
    · omega

theorem printed_shorter {records : List Record} {i k : Nat} (fewer : k < records.length) :
    (printed i (records.take k)).length + 8 ≤ (printed i records).length := by
  induction records generalizing i k with
  | nil => exact absurd fewer (Nat.not_lt_zero k)
  | cons r records ih =>
    have long := entry_long i r
    rw [printed_cons_length]
    cases k with
    | zero =>
      rw [List.take_zero, printed, List.length_nil]
      omega
    | succ k =>
      have := ih (i := i + 1) (Nat.lt_of_succ_lt_succ fewer)
      rw [List.take_succ_cons, printed_cons_length]
      omega

theorem paragraph_inner (records : List Record) :
    paragraph records = opening ++ inner records ++ closing := rfl

theorem inner_nul_free {records : List Record} (free : NulFree (inner records)) :
    ∀ r ∈ records, NulFree r.ssid := by
  induction records with
  | nil => simp
  | cons r records ih =>
    cases records with
    | nil =>
      rw [inner_singleton, shown] at free
      simp only [nul_free_append] at free
      simpa using free.1.1.1
    | cons next records =>
      rw [inner_cons_cons, shown] at free
      simp only [nul_free_append] at free
      exact List.forall_mem_cons.mpr ⟨free.1.1.1.1.1, ih free.2⟩

theorem fitting_room (records : List Record) {i used : Nat} (room : used < summarySize) :
    used + (printed i (fitting i used records)).length < summarySize := by
  induction records generalizing i used with
  | nil => exact room
  | cons r records ih =>
    rw [fitting]
    split
    · rename_i fits
      have := ih (i := i + 1) fits
      rw [printed_cons_length]
      omega
    · exact room

theorem listed_count {records : List Record} {k : Nat} (present : k ≤ records.length)
    (lengths : opening.length + (printed 0 (fitting 0 opening.length records)).length +
      min (summarySize - (opening.length +
        (printed 0 (fitting 0 opening.length records)).length) - 1) 4 =
      opening.length + (printed 0 (records.take k)).length + 4) :
    k = (fitting 0 opening.length records).length := by
  have room : opening.length + (printed 0 (fitting 0 opening.length records)).length <
      summarySize := fitting_room records (by decide)
  have taken := fitting_take records 0 opening.length
  rcases Nat.lt_trichotomy k (fitting 0 opening.length records).length with fewer | all | more
  · have short := printed_shorter (i := 0) fewer
    have part : (fitting 0 opening.length records).take k = records.take k := by
      rw [taken, List.take_take, Nat.min_eq_left (Nat.le_of_lt fewer)]
    rw [part] at short
    omega
  · exact all
  · have long := beyond_fitting (i := 0) more present
    omega

theorem listed_harmless_iff (summary : Terminated summarySize) (scan : Scan)
    {records : List Record} (started : scan.started = true) (counted : scan.found ≠ 0)
    (handed : scan.records = some records) :
    Harmless records (cstr (scanNetworksOnce summary.array scan)) ↔
      (∀ r ∈ fitting 0 opening.length records, NulFree r.ssid ∧ markup r.ssid = false) ∧
        opening.length + (printed 0 (fitting 0 opening.length records)).length + 5 ≤
          summarySize := by
  have text := scanned_text summary scan started counted handed
  have shorter := scan.asked records handed
  have taken := (fitting_take records 0 opening.length).symm
  constructor
  · rintro (none | ⟨k, present, _, same, quiet⟩)
    · rw [text] at none
      exact absurd none (by simp [opening, ascii])
    · have free : NulFree (paragraph (records.take k)) := same ▸ cstr_nul_free _
      rw [paragraph_inner, nul_free_append, nul_free_append] at free
      have whole := inner_nul_free free.1.2
      rw [text, paragraph_inner, ← printed_whole whole] at same
      have lengths := congrArg List.length same
      have tag : closing.length = 4 := rfl
      simp only [List.length_append, List.length_take, tag] at lengths
      have all := listed_count present lengths
      have listed := (inner_markup (records.take k)).mp quiet
      rw [all, taken] at lengths whole listed
      exact ⟨fun r member => ⟨whole r member, listed r member⟩, by omega⟩
  · rintro ⟨plain, room⟩
    generalize fitting 0 opening.length records = f at *
    have whole : closing.take (summarySize - (opening.length + (printed 0 f).length) - 1) =
        closing := List.take_of_length_le (by simp [closing, ascii]; omega)
    have free : ∀ r ∈ f, NulFree r.ssid := fun r member => (plain r member).1
    have size : f.length ≤ records.length := by
      rw [← taken, List.length_take]
      omega
    refine .inr ⟨f.length, size, by omega, ?_, ?_⟩
    · rw [text, whole, taken, printed_whole free, paragraph_inner]
    · rw [taken]
      exact (inner_markup f).mpr fun r member => (plain r member).2

theorem cleared_text (summary : Terminated summarySize) : cstr (poke summary.array 0 [0]) = [] := by
  rw [cstr_eq_nil_iff]
  rfl

theorem network_list_harmless_iff (summary : Terminated summarySize) (scan : Scan) :
    Harmless (scan.records.getD []) (cstr (scanNetworksOnce summary.array scan)) ↔
      Covered scan := by
  have cleared := cleared_text summary
  cases started : scan.started with
  | false =>
    have text : scanNetworksOnce summary.array scan = poke summary.array 0 [0] := by
      simp [scanNetworksOnce, started]
    rw [text, cleared]
    exact iff_of_true (.inl rfl) (.inl started)
  | true =>
    by_cases counted : scan.found = 0
    · have text : scanNetworksOnce summary.array scan = poke summary.array 0 [0] := by
        simp [scanNetworksOnce, started, counted]
      rw [text, cleared]
      exact iff_of_true (.inl rfl) (.inr (.inl counted))
    · cases handed : scan.records with
      | none =>
        have text : scanNetworksOnce summary.array scan = poke summary.array 0 [0] := by
          simp [scanNetworksOnce, started, counted, handed]
        rw [text, cleared]
        exact iff_of_true (.inl rfl) (.inr (.inr (by simp [handed])))
      | some records =>
        rw [Option.getD_some, listed_harmless_iff summary scan started counted handed]
        simp [Covered, started, counted, handed]

def handedOut (records : List Record) (asked : records.length ≤ maxListed) : Scan where
  started := true
  counted := records.length
  records := some records
  asked := by
    rintro rs ⟨⟩
    omega

def tagged : Scan :=
  handedOut [⟨ascii "<script src=//x.y>", by decide, -40⟩] (by decide)

def brimful : Scan :=
  handedOut (⟨List.replicate 26 65, by decide, -40⟩ ::
    List.replicate 11 ⟨List.replicate 29 65, by decide, -40⟩) (by decide)

def blank : Terminated summarySize := .zeros (by decide)

/-- A tag comes through from a neighbour's name, and a full list loses its closing tag. -/
theorem network_list_breaks :
    ¬ Harmless (tagged.records.getD []) (cstr (scanNetworksOnce blank.array tagged)) ∧
      ¬ Harmless (brimful.records.getD []) (cstr (scanNetworksOnce blank.array brimful)) := by
  have tag := listed_harmless_iff blank tagged rfl (by decide) rfl
  have full := listed_harmless_iff blank brimful rfl (by decide) rfl
  constructor
  · intro harmless
    exact absurd (tag.mp harmless) (by decide +kernel)
  · intro harmless
    exact absurd (full.mp harmless) (by decide +kernel)

end GplugNetworkList
