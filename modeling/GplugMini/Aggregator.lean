import Mathlib.Tactic.Common
import GplugMini.Library.FirstOccurrence
import GplugMini.Library.FlatObject

/- The cycle-boundary rule and the set of values one cycle assembles into its message.
   CycleSet keeps the three fixed arrays of the source byte for byte, so a message that
   does not fit is modelled as the truncated text the device would send. -/
namespace GplugAggregator
open ByteText DecimalText FlatObject FirstOccurrence

def cycleGapMs : UInt32 := 2000

/-- The subtraction wraps, as the source's unsigned subtraction does. -/
def cycleEnded (nowMs lastByteMs : UInt32) (buffered : Nat) : Bool :=
  decide (0 < buffered) && decide (cycleGapMs ≤ nowMs - lastByteMs)

def jsonSize : Nat := 512
def maxValues : Nat := 16
def maxLabel : Nat := 28

structure CycleSet where
  json_ : Bytes
  labels_ : List Bytes
  count_ : Nat
  len_ : Nat
  closed_ : Bool
  deriving DecidableEq, Repr

def CycleSet.fresh : CycleSet where
  json_ := List.replicate jsonSize 0
  labels_ := List.replicate maxValues (List.replicate maxLabel 0)
  count_ := 0
  len_ := 0
  closed_ := false

def CycleSet.empty (s : CycleSet) : Bool := s.count_ == 0

def CycleSet.size (s : CycleSet) : Nat := s.count_

/-- vsnprintf at the write position. The position moves only when the text fitted, but
    the truncated text is written either way. -/
def CycleSet.append (s : CycleSet) (text : Bytes) : CycleSet :=
  { s with
    json_ := formatAt s.json_ s.len_ text
    len_ := if 0 < text.length ∧ s.len_ + text.length < jsonSize then s.len_ + text.length
      else s.len_ }

/-- strncmp(row, label, MAX_LABEL) == 0. -/
def sameLabel (row label : Bytes) : Bool := (cstr row).take maxLabel == label.take maxLabel

def storedLabel (row label : Bytes) : Bytes :=
  let n := if label.length < maxLabel then label.length else maxLabel - 1
  poke (poke row 0 (label.take n)) n [0]

def CycleSet.claim (s : CycleSet) (label : Bytes) : Option CycleSet :=
  if s.closed_ || decide (maxValues ≤ s.count_) then none
  else if (s.labels_.take s.count_).any (sameLabel · label) then none
  else
    let row := storedLabel (s.labels_.getD s.count_ []) label
    let claimed := { s with labels_ := s.labels_.set s.count_ row }
    let keyed := claimed.append ((if s.len_ ≠ 0 then comma else openBrace) :: keyText label)
    some { keyed with count_ := keyed.count_ + 1 }

def CycleSet.add (s : CycleSet) (label text : Bytes) : CycleSet × Bool :=
  match s.claim label with
  | none => (s, false)
  | some claimed => (claimed.append text, true)

def CycleSet.addInteger (s : CycleSet) (label : Bytes) (value : UInt64) : CycleSet × Bool :=
  s.add label (decimal value.toNat)

def CycleSet.addReal (s : CycleSet) (label : Bytes) (value : Double) : CycleSet × Bool :=
  s.add label (fixed3 value)

def CycleSet.ended (s : CycleSet) : CycleSet :=
  if s.len_ + 2 < jsonSize then
    { s with json_ := poke s.json_ s.len_ [closeBrace, 0], len_ := s.len_ + 1 }
  else s

def CycleSet.json (s : CycleSet) : CycleSet × Bytes :=
  if s.count_ = 0 then (s, [])
  else if s.closed_ then (s, cstr s.json_)
  else ({ s.ended with closed_ := true }, cstr s.ended.json_)

def CycleSet.clear (s : CycleSet) : CycleSet :=
  { s with count_ := 0, len_ := 0, json_ := poke s.json_ 0 [0], closed_ := false }

/-- What holds of every set whatever was added to it: the arrays keep their sizes, the
    write position is inside the text buffer, and the text is terminated in it. -/
structure Sound (s : CycleSet) : Prop where
  sized : s.json_.length = jsonSize
  rows : s.labels_.length = maxValues
  inside : s.len_ < jsonSize
  terminated : ∃ text rest, NulFree text ∧ s.json_ = text ++ 0 :: rest

def cut (label : Bytes) : Bytes := label.take (maxLabel - 1)

def Seen (accepted : List Bytes) (label : Bytes) : Prop :=
  ∃ kept ∈ accepted, cut kept = label.take maxLabel

instance (accepted : List Bytes) (label : Bytes) : Decidable (Seen accepted label) := by
  unfold Seen
  infer_instance

/-- The set accepted these members, with labels of whatever length: what it keeps of each
    label is stored, and while it is open and the text fits, the buffer shows the text. -/
structure Carries (s : CycleSet) (members : List Member) : Prop extends Sound s where
  counted : s.count_ = members.length
  stored : (s.labels_.take s.count_).map cstr = (keys members).map cut
  shown : s.closed_ = false → (openText members).length < jsonSize →
    Shows s.json_ (openText members) ∧ s.len_ = (openText members).length

/-- An open set holds these members: every label is stored, and as long as the text of
    the members fits the buffer, the buffer shows exactly that text. -/
structure Tracks (s : CycleSet) (members : List Member) : Prop extends Sound s where
  opened : s.closed_ = false
  counted : s.count_ = members.length
  stored : (s.labels_.take s.count_).map cstr = keys members
  shown : (openText members).length < jsonSize →
    Shows s.json_ (openText members) ∧ s.len_ = (openText members).length

theorem nul_inside (array : Bytes) (zero : 0 ∈ array) :
    ∃ text rest, NulFree text ∧ array = text ++ 0 :: rest := by
  induction array with
  | nil => simp at zero
  | cons b array ih =>
    by_cases same : b = 0
    · exact ⟨[], array, nul_free_nil, by simp [same]⟩
    · obtain ⟨text, rest, free, rfl⟩ := ih (by simpa [Ne.symm same] using zero)
      exact ⟨b :: text, rest, by simp [same, free], rfl⟩

theorem format_at_terminated {array : Bytes} {offset : Nat} (inside : offset < array.length)
    (text : Bytes) :
    ∃ shown rest, NulFree shown ∧ formatAt array offset text = shown ++ 0 :: rest := by
  apply nul_inside
  rw [formatAt, if_pos inside, poke]
  simp

theorem append_sound {s : CycleSet} (sound : Sound s) (text : Bytes) : Sound (s.append text) where
  sized := by simp [CycleSet.append, format_at_length, sound.sized]
  rows := sound.rows
  inside := by
    have := sound.inside
    simp only [CycleSet.append]
    split <;> omega
  terminated := by
    have room : s.len_ < s.json_.length := by rw [sound.sized]; exact sound.inside
    exact format_at_terminated room text

theorem append_shows {s : CycleSet} {text more : Bytes} (shown : Shows s.json_ text)
    (sized : s.json_.length = jsonSize) (position : s.len_ = text.length) (free : NulFree more)
    (fits : (text ++ more).length < jsonSize) :
    Shows (s.append more).json_ (text ++ more) ∧ (s.append more).len_ = (text ++ more).length := by
  have total : text.length + more.length < jsonSize := by simpa using fits
  constructor
  · simp only [CycleSet.append, position]
    exact shows_format_at shown free (by rw [sized]; exact total)
  · simp only [CycleSet.append, position, total, List.length_append]
    by_cases nothing : more = []
    · simp [nothing]
    · simp [List.length_pos_of_ne_nil nothing]

theorem clear_tracks {s : CycleSet} (sound : Sound s) : Tracks s.clear [] where
  sized := by
    rw [CycleSet.clear, poke_length]
    · exact sound.sized
    · rw [sound.sized]; decide
  rows := sound.rows
  inside := by simp [CycleSet.clear, jsonSize]
  terminated := ⟨[], _, nul_free_nil, rfl⟩
  opened := rfl
  counted := rfl
  stored := rfl
  shown := fun _ => ⟨⟨nul_free_nil, _, rfl⟩, rfl⟩

theorem fresh_sound : Sound .fresh where
  sized := List.length_replicate
  rows := List.length_replicate
  inside := by decide
  terminated := ⟨[], List.replicate 511 0, nul_free_nil, rfl⟩

theorem cut_length (label : Bytes) : (cut label).length = min (maxLabel - 1) label.length :=
  List.length_take

theorem cut_short {label : Bytes} (short : label.length < maxLabel) : cut label = label :=
  List.take_of_length_le (by simp only [maxLabel] at *; omega)

theorem stored_label_cut {label : Bytes} (free : NulFree label) (row : Bytes) :
    cstr (storedLabel row label) = cut label := by
  have freeCut : NulFree (cut label) := nul_free_take free _
  have written : storedLabel row label =
      poke (poke row 0 (cut label)) (cut label).length [0] := by
    by_cases short : label.length < maxLabel
    · simp only [storedLabel, if_pos short, cut_short short, List.take_length]
    · have size : (cut label).length = maxLabel - 1 := by
        rw [cut_length]
        omega
      simp only [storedLabel, if_neg short, size]
      rfl
  rw [written, cstr_copied, cstr_of_nul_free freeCut]

theorem same_label_iff {row kept : Bytes} (stored : cstr row = cut kept) (label : Bytes) :
    sameLabel row label = true ↔ cut kept = label.take maxLabel := by
  have short := cut_length kept
  rw [sameLabel, stored, List.take_of_length_le (by simp only [maxLabel] at *; omega), beq_iff_eq]

theorem carries_any_label {s : CycleSet} {members : List Member} (carried : Carries s members)
    (label : Bytes) :
    (s.labels_.take s.count_).any (sameLabel · label) = true ↔ Seen (keys members) label := by
  rw [List.any_eq_true]
  constructor
  · intro found
    obtain ⟨row, member, same⟩ := found
    have kept : cstr row ∈ (keys members).map cut := carried.stored ▸ List.mem_map_of_mem member
    obtain ⟨key, held, stored⟩ := List.mem_map.mp kept
    exact ⟨key, held, (same_label_iff stored.symm label).mp same⟩
  · intro seen
    obtain ⟨key, held, same⟩ := seen
    have kept : cut key ∈ (s.labels_.take s.count_).map cstr :=
      carried.stored ▸ List.mem_map_of_mem held
    obtain ⟨row, member, stored⟩ := List.mem_map.mp kept
    exact ⟨row, member, (same_label_iff stored label).mpr same⟩

theorem carries_add_iff {s : CycleSet} {members : List Member} (carried : Carries s members)
    (label text : Bytes) :
    (s.add label text).2 = true ↔
      s.closed_ = false ∧ members.length < maxValues ∧ ¬ Seen (keys members) label := by
  rw [← carries_any_label carried, ← carried.counted, CycleSet.add, CycleSet.claim]
  by_cases ends : (s.closed_ || decide (maxValues ≤ s.count_)) = true
  · rw [if_pos ends]
    simp only [Bool.false_eq_true, false_iff]
    intro fits
    simp only [fits.1, Bool.false_or, decide_eq_true_eq] at ends
    omega
  · rw [if_neg ends]
    have room : s.closed_ = false ∧ s.count_ < maxValues := by simpa using ends
    by_cases repeated : (s.labels_.take s.count_).any (sameLabel · label) = true
    · simp [repeated]
    · simp [repeated, room]

theorem add_refused {s : CycleSet} {label text : Bytes} (refused : (s.add label text).2 = false) :
    (s.add label text).1 = s := by
  unfold CycleSet.add at refused ⊢
  cases taken : s.claim label with
  | none => rfl
  | some claimed => simp [taken] at refused

theorem add_written {s : CycleSet} {label text : Bytes}
    (accepted : (s.add label text).2 = true) :
    (s.add label text).1 = ({ ({ s with
      labels_ := s.labels_.set s.count_ (storedLabel (s.labels_.getD s.count_ []) label) }
        : CycleSet).append ((if s.len_ ≠ 0 then comma else openBrace) :: keyText label) with
      count_ := s.count_ + 1 } : CycleSet).append text := by
  unfold CycleSet.add CycleSet.claim at accepted ⊢
  split at accepted
  · cases accepted
  · rename_i claimed made
    split at made
    · cases made
    · split at made
      · cases made
      · cases made
        rfl

theorem key_written_nul_free {label : Bytes} (free : NulFree label) (len : Nat) :
    NulFree ((if len ≠ 0 then comma else openBrace) :: keyText label) := by
  rw [nul_free_cons]
  refine ⟨?_, key_text_nul_free free⟩
  split <;> decide

theorem open_text_prefix_length (members : List Member) (m : Member) :
    (openText (members ++ [m])).length =
      (openText members).length + 1 + (keyText m.1).length + m.2.length := by
  rw [open_text_snoc]
  simp [memberText]
  omega

theorem append_member_shows {s : CycleSet} {members : List Member} (sound : Sound s)
    (shown : (openText members).length < jsonSize →
      Shows s.json_ (openText members) ∧ s.len_ = (openText members).length)
    {m : Member} (label : NulFree m.1) (value : NulFree m.2)
    (fits : (openText (members ++ [m])).length < jsonSize) :
    Shows ((s.append ((if s.len_ ≠ 0 then comma else openBrace) :: keyText m.1)).append m.2).json_
        (openText (members ++ [m])) ∧
      ((s.append ((if s.len_ ≠ 0 then comma else openBrace) :: keyText m.1)).append m.2).len_ =
        (openText (members ++ [m])).length := by
  have counted := open_text_prefix_length members m
  obtain ⟨before, position⟩ := shown (by omega)
  have separator : (if s.len_ ≠ 0 then comma else openBrace) = lead members := by
    by_cases none : members = []
    · simp [position, none, openText, lead]
    · have : (openText members).length ≠ 0 := by simp [openText, none]
      simp [position, none, this, lead]
  have freeKey := key_written_nul_free label s.len_
  rw [separator] at freeKey ⊢
  obtain ⟨keyed, moved⟩ := append_shows before sound.sized position freeKey
    (by simp only [List.length_append, List.length_cons]; omega)
  have valued := append_shows keyed (append_sound sound _).sized moved value
    (by simp only [List.length_append, List.length_cons]; omega)
  have whole : openText members ++ lead members :: keyText m.1 ++ m.2 =
      openText (members ++ [m]) := by simp [open_text_snoc, memberText]
  rwa [whole] at valued

theorem carries_add {s : CycleSet} {members : List Member} (carried : Carries s members)
    {label text : Bytes} (freeLabel : NulFree label) (freeText : NulFree text)
    (accepted : (s.add label text).2 = true) :
    Carries (s.add label text).1 (members ++ [(label, text)]) ∧
      (s.add label text).1.closed_ = false := by
  obtain ⟨opened, room, _⟩ := (carries_add_iff carried label text).mp accepted
  have below : s.count_ < maxValues := by rw [carried.counted]; exact room
  let row := storedLabel (s.labels_.getD s.count_ []) label
  let claimed : CycleSet := { s with labels_ := s.labels_.set s.count_ row }
  have sound : Sound claimed :=
    { carried.toSound with rows := by simp [claimed, carried.rows] }
  have texts := append_member_shows (s := claimed) (m := (label, text)) sound
    (carried.shown opened) freeLabel freeText
  rw [add_written accepted]
  refine ⟨?_, opened⟩
  have grown := append_sound (append_sound sound
    ((if s.len_ ≠ 0 then comma else openBrace) :: keyText label)) text
  exact {
    sized := grown.sized
    rows := grown.rows
    inside := grown.inside
    terminated := grown.terminated
    counted := by simp [CycleSet.append, carried.counted]
    stored := by
      have rows : s.count_ < s.labels_.length := by rw [carried.rows]; exact below
      have last : (s.labels_.set s.count_ row).take (s.count_ + 1) =
          s.labels_.take s.count_ ++ [row] := by
        rw [List.take_succ_eq_append_getElem (by simpa using rows)]
        simp [List.take_set_of_le]
      change ((s.labels_.set s.count_ row).take (s.count_ + 1)).map cstr =
        (keys (members ++ [(label, text)])).map cut
      rw [last, List.map_append, carried.stored]
      simp [keys, row, stored_label_cut freeLabel]
    shown := fun _ => texts }

def ShortLabel (label : Bytes) : Prop := label.length < maxLabel ∧ ∀ b ∈ label, Bare b

theorem cut_keys {members : List Member} (short : ∀ m ∈ members, ShortLabel m.1) :
    (keys members).map cut = keys members := by
  rw [keys, List.map_map]
  exact List.map_congr_left fun m held => cut_short (short m held).1

theorem tracks_carries {s : CycleSet} {members : List Member} (tracked : Tracks s members)
    (short : ∀ m ∈ members, ShortLabel m.1) : Carries s members :=
  { tracked with
    stored := by rw [tracked.stored, cut_keys short]
    shown := fun _ => tracked.shown }

theorem seen_iff_mem {members : List Member} (short : ∀ m ∈ members, ShortLabel m.1)
    {label : Bytes} (fits : label.length < maxLabel) :
    Seen (keys members) label ↔ label ∈ keys members := by
  rw [Seen, List.take_of_length_le (Nat.le_of_lt fits)]
  constructor
  · intro seen
    obtain ⟨kept, held, same⟩ := seen
    obtain ⟨m, member, rfl⟩ := List.mem_map.mp held
    rw [cut_short (short m member).1] at same
    exact same ▸ held
  · intro held
    exact ⟨label, held, cut_short fits⟩

theorem tracks_add_repeated {s : CycleSet} {members : List Member} (tracked : Tracks s members)
    (short : ∀ m ∈ members, ShortLabel m.1) {label : Bytes} (held : label ∈ keys members)
    (text : Bytes) : s.add label text = (s, false) := by
  have fits : label.length < maxLabel := by
    obtain ⟨m, member, same⟩ := List.mem_map.mp held
    exact same ▸ (short m member).1
  have refused : (s.add label text).2 = false := by
    rw [Bool.eq_false_iff, ne_eq, carries_add_iff (tracks_carries tracked short)]
    intro accepted
    exact accepted.2.2 ((seen_iff_mem short fits).mpr held)
  exact Prod.ext (add_refused refused) refused

theorem tracks_add_fresh {s : CycleSet} {members : List Member} (tracked : Tracks s members)
    (short : ∀ m ∈ members, ShortLabel m.1) (room : members.length < maxValues) {m : Member}
    (shortLabel : ShortLabel m.1) (bare : BareMember m) (fresh : m.1 ∉ keys members) :
    Tracks (s.add m.1 m.2).1 (members ++ [m]) ∧ (s.add m.1 m.2).2 = true := by
  have carried := tracks_carries tracked short
  have accepted : (s.add m.1 m.2).2 = true := by
    rw [carries_add_iff carried, seen_iff_mem short shortLabel.1]
    exact ⟨tracked.opened, room, fresh⟩
  obtain ⟨next, opened⟩ :=
    carries_add carried (bare_nul_free bare.1) (bare_nul_free bare.2) accepted
  have all : ∀ n ∈ members ++ [m], ShortLabel n.1 := by
    intro n member
    rcases List.mem_append.mp member with earlier | now
    · exact short n earlier
    · exact List.mem_singleton.mp now ▸ shortLabel
  exact ⟨{ next with
    opened
    stored := by rw [next.stored, cut_keys all]
    shown := next.shown opened }, accepted⟩

theorem sound_message_length {s : CycleSet} (sound : Sound s) :
    (cstr s.json_).length < jsonSize := by
  obtain ⟨text, rest, free, shape⟩ := sound.terminated
  have sized := sound.sized
  rw [shape, cstr_append_nul free]
  simp only [shape, List.length_append, List.length_cons] at sized
  omega

theorem ended_sound {s : CycleSet} (sound : Sound s) : Sound s.ended := by
  unfold CycleSet.ended
  split
  · rename_i room
    exact {
      sized := by
        rw [poke_length]
        · exact sound.sized
        · rw [sound.sized]
          simp only [List.length_cons, List.length_nil]
          omega
      rows := sound.rows
      inside := by
        change s.len_ + 1 < jsonSize
        omega
      terminated := nul_inside _ (by simp [poke]) }
  · exact sound

theorem ended_shows {s : CycleSet} {members : List Member} (nonempty : members ≠ [])
    (shown : Shows s.json_ (openText members)) (position : s.len_ = (openText members).length)
    (room : s.len_ + 2 < jsonSize) : cstr s.ended.json_ = objectText members := by
  have free : NulFree (objectText members) := by
    rw [object_text_eq nonempty, nul_free_append]
    exact ⟨shown.1, by decide⟩
  have closed : poke s.json_ s.len_ [closeBrace, 0] =
      objectText members ++ 0 :: s.json_.drop (s.len_ + 2) := by
    rw [poke, position, shows_take shown, object_text_eq nonempty]
    simp
  rw [CycleSet.ended, if_pos room, closed, cstr_append_nul free]

/-- The message is the complete object exactly when the object is at most 510 bytes. -/
theorem message_iff {s : CycleSet} {members : List Member} (sound : Sound s)
    (opened : s.closed_ = false) (counted : s.count_ = members.length)
    (shown : (openText members).length < jsonSize →
      Shows s.json_ (openText members) ∧ s.len_ = (openText members).length)
    (nonempty : members ≠ []) :
    s.json.2 = objectText members ↔ (objectText members).length + 2 ≤ jsonSize := by
  have total := object_text_length nonempty
  have some : s.count_ ≠ 0 := by simp [counted, nonempty]
  have message : s.json.2 = cstr s.ended.json_ := by
    rw [CycleSet.json, if_neg some, opened]
    rfl
  rw [message]
  by_cases fits : (openText members).length < jsonSize
  · obtain ⟨shows, position⟩ := shown fits
    by_cases room : s.len_ + 2 < jsonSize
    · rw [ended_shows nonempty shows position room]
      simp only [true_iff]
      omega
    · -- no room for the brace: what was added is sent without it
      rw [CycleSet.ended, if_neg room, shows_cstr shows]
      constructor
      · intro same
        have := congrArg List.length same
        omega
      · intro small
        omega
  · have short := sound_message_length (ended_sound sound)
    constructor
    · intro same
      rw [same] at short
      omega
    · intro small
      omega

theorem tracks_json {s : CycleSet} {members : List Member} (tracked : Tracks s members)
    (nonempty : members ≠ []) :
    s.json.2 = objectText members ↔ (objectText members).length + 2 ≤ jsonSize :=
  message_iff tracked.toSound tracked.opened tracked.counted tracked.shown nonempty

theorem json_sound {s : CycleSet} (sound : Sound s) : Sound s.json.1 := by
  unfold CycleSet.json
  split
  · exact sound
  · split
    · exact sound
    · exact { ended_sound sound with }

theorem clear_carries {s : CycleSet} (sound : Sound s) : Carries s.clear [] :=
  tracks_carries (clear_tracks sound) (by simp)

theorem fresh_carries : Carries .fresh [] :=
  { fresh_sound with
    counted := rfl
    stored := rfl
    shown := fun _ _ => ⟨⟨nul_free_nil, List.replicate 511 0, rfl⟩, rfl⟩ }

theorem json_carries {s : CycleSet} {members : List Member} (carried : Carries s members) :
    Carries s.json.1 members ∧ s.json.1.closed_ = (s.closed_ || decide (members ≠ [])) := by
  have sound := json_sound carried.toSound
  have counted := carried.counted
  unfold CycleSet.json at sound ⊢
  split
  · rename_i none
    have empty : members = [] := List.length_eq_zero_iff.mp (counted.symm.trans none)
    exact ⟨carried, by simp [empty]⟩
  · split
    · rename_i closed
      exact ⟨carried, by simp [closed]⟩
    · rename_i some opened
      have nonempty : members ≠ [] := by
        rintro rfl
        exact some counted
      have labels : s.ended.labels_ = s.labels_ ∧ s.ended.count_ = s.count_ := by
        unfold CycleSet.ended
        split <;> exact ⟨rfl, rfl⟩
      refine ⟨{ ended_sound carried.toSound with
        counted := labels.2.trans counted
        stored := ?_
        shown := (nomatch ·) }, by simp [nonempty]⟩
      change (s.ended.labels_.take s.ended.count_).map cstr = _
      rw [labels.1, labels.2, carried.stored]

end GplugAggregator
