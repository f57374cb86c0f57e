import Mathlib.Tactic.Common
import GplugMini.CycleLabels

/- Which bytes of a cycle's set each call touches, and that they are the set's own after
   every sequence of calls. -/
namespace GplugSetBounds
open ByteText FlatObject GplugAggregator GplugCycleLabels

/-- add_integer and add_real differ in the text their value renders to, of whatever length. -/
inductive Op where
  | add (label text : Bytes)
  | json
  | clear

def perform (s : CycleSet) : Op → CycleSet
  | .add label text => (s.add label text).1
  | .json => s.json.1
  | .clear => s.clear

def after (ops : List Op) : CycleSet := ops.foldl perform .fresh

/-- An index into json_, or into a row of labels_. -/
inductive Place where
  | json (i : Nat)
  | label (row column : Nat)
  deriving DecidableEq

def Place.InRange : Place → Prop
  | .json i => i < jsonSize
  | .label row column => row < maxValues ∧ column < maxLabel

def compared : Nat → Bytes → Bytes → Nat
  | 0, _, _ => 0
  | n + 1, row, label =>
      if row.headD 0 = label.headD 0 ∧ row.headD 0 ≠ 0 then
        compared n row.tail label.tail + 1
      else 1

def searched (label : Bytes) : Nat → List Bytes → List Place
  | _, [] => []
  | i, row :: rows =>
      (List.range (compared maxLabel row label)).map (.label i) ++
        if sameLabel row label then [] else searched label (i + 1) rows

def copied (row : Nat) (label : Bytes) : List Place :=
  let n := if label.length < maxLabel then label.length else maxLabel - 1
  (List.range (n + 1)).map (.label row)

def remaining (len : Nat) : Nat := jsonSize - len

def formatted (len : Nat) (text : Bytes) : List Place :=
  (List.range (min text.length (remaining len - 1) + 1)).map fun i => .json (len + i)

def keyed (s : CycleSet) (label : Bytes) : Bytes :=
  (if s.len_ ≠ 0 then comma else openBrace) :: keyText label

def touched (s : CycleSet) : Op → List Place
  | .add label text =>
      if s.closed_ || decide (maxValues ≤ s.count_) then []
      else
        searched label 0 (s.labels_.take s.count_) ++
          match s.claim label with
          | none => []
          | some claimed =>
              copied s.count_ label ++ formatted s.len_ (keyed s label) ++
                formatted claimed.len_ text
  | .json =>
      if s.count_ = 0 ∨ s.closed_ = true then []
      else if s.len_ + 2 < jsonSize then [.json s.len_, .json (s.len_ + 1)] else []
  | .clear => [.json 0]

def sizes (s : CycleSet) : Op → List Nat
  | .add label _ =>
      match s.claim label with
      | none => []
      | some claimed => [remaining s.len_, remaining claimed.len_]
  | _ => []

structure Bounded (s : CycleSet) : Prop extends Sound s where
  columns : ∀ row ∈ s.labels_, row.length = maxLabel ∧ 0 ∈ row
  counted : s.count_ ≤ maxValues
  idle : s.count_ = 0 → s.json_.head? = some 0

theorem compared_le (n : Nat) (row label : Bytes) : compared n row label ≤ n := by
  induction n generalizing row label with
  | zero => exact Nat.le_refl 0
  | succ n ih =>
    have := ih row.tail label.tail
    rw [compared]
    split <;> omega

theorem searched_in_range (label : Bytes) (first : Nat) (rows : List Bytes)
    (room : first + rows.length ≤ maxValues) :
    ∀ p ∈ searched label first rows, p.InRange := by
  induction rows generalizing first with
  | nil => simp [searched]
  | cons row rows ih =>
    intro p member
    rw [List.length_cons] at room
    rw [searched, List.mem_append] at member
    rcases member with here | later
    · obtain ⟨column, inside, rfl⟩ := List.mem_map.mp here
      have short := compared_le maxLabel row label
      rw [List.mem_range] at inside
      exact ⟨by omega, by omega⟩
    · split at later
      · cases later
      · exact ih (first + 1) (by omega) p later

theorem copied_in_range {row : Nat} (room : row < maxValues) (label : Bytes) :
    ∀ p ∈ copied row label, p.InRange := by
  intro p member
  obtain ⟨column, inside, rfl⟩ := List.mem_map.mp member
  rw [List.mem_range] at inside
  refine ⟨room, ?_⟩
  by_cases short : label.length < maxLabel
  · rw [if_pos short] at inside
    omega
  · rw [if_neg short, maxLabel] at inside
    exact inside

theorem formatted_in_range {len : Nat} (room : len < jsonSize) (text : Bytes) :
    ∀ p ∈ formatted len text, p.InRange := by
  intro p member
  obtain ⟨i, inside, rfl⟩ := List.mem_map.mp member
  rw [List.mem_range, remaining] at inside
  change len + i < jsonSize
  omega

theorem claim_some {s claimed : CycleSet} {label : Bytes} (made : s.claim label = some claimed) :
    (s.closed_ || decide (maxValues ≤ s.count_)) = false ∧ s.count_ < maxValues ∧
      claimed = { ({ s with
        labels_ := s.labels_.set s.count_ (storedLabel (s.labels_.getD s.count_ []) label) }
          : CycleSet).append (keyed s label) with count_ := s.count_ + 1 } := by
  unfold CycleSet.claim at made
  split at made
  · cases made
  · rename_i free
    split at made
    · cases made
    · cases made
      have room : s.closed_ = false ∧ s.count_ < maxValues := by simpa using free
      exact ⟨by simpa using free, room.2, rfl⟩

theorem label_stop (label : Bytes) :
    (if label.length < maxLabel then label.length else maxLabel - 1) < maxLabel := by
  split
  · assumption
  · decide

theorem stored_label_row {row : Bytes} (sized : row.length = maxLabel) (label : Bytes) :
    (storedLabel row label).length = maxLabel ∧ 0 ∈ storedLabel row label := by
  unfold storedLabel
  generalize stop : (if label.length < maxLabel then label.length else maxLabel - 1) = n
  have inside : n < maxLabel := by
    rw [← stop]
    exact label_stop label
  have text : (label.take n).length ≤ n := List.length_take_le n label
  have copied : (poke row 0 (label.take n)).length = maxLabel := by
    rw [poke_length, sized]
    omega
  constructor
  · rw [poke_length, copied]
    rw [copied, List.length_singleton]
    omega
  · simp [poke]

theorem claim_bounded {s claimed : CycleSet} {label : Bytes} (bounded : Bounded s)
    (made : s.claim label = some claimed) : Bounded claimed ∧ claimed.count_ ≠ 0 := by
  obtain ⟨_, room, rfl⟩ := claim_some made
  let rows := s.labels_.set s.count_ (storedLabel (s.labels_.getD s.count_ []) label)
  have sound : Sound { s with labels_ := rows } :=
    { bounded.toSound with rows := by simp [rows, bounded.rows] }
  have written := append_sound sound (keyed s label)
  refine ⟨?_, Nat.succ_ne_zero _⟩
  exact {
    sized := written.sized
    rows := written.rows
    inside := written.inside
    terminated := written.terminated
    columns := by
      intro row member
      rcases List.mem_or_eq_of_mem_set member with old | new
      · exact bounded.columns row old
      · have present : s.count_ < s.labels_.length := by
          rw [bounded.rows]
          exact room
        rw [new, List.getD_eq_getElem?_getD, List.getElem?_eq_getElem present]
        exact stored_label_row (bounded.columns _ (List.getElem_mem present)).1 label
    counted := room
    idle := (nomatch ·) }

theorem perform_bounded {s : CycleSet} (bounded : Bounded s) (op : Op) :
    Bounded (perform s op) := by
  cases op with
  | add label text =>
    change Bounded (s.add label text).1
    unfold CycleSet.add
    cases made : s.claim label with
    | none => exact bounded
    | some claimed =>
      obtain ⟨held, some⟩ := claim_bounded bounded made
      exact { append_sound held.toSound text with
        columns := held.columns
        counted := held.counted
        idle := fun none => absurd none some }
  | json =>
    have kept : s.json.1.labels_ = s.labels_ ∧ s.json.1.count_ = s.count_ := by
      unfold CycleSet.json CycleSet.ended
      split
      · exact ⟨rfl, rfl⟩
      · split
        · exact ⟨rfl, rfl⟩
        · split <;> exact ⟨rfl, rfl⟩
    exact { json_sound bounded.toSound with
      columns := by
        change ∀ row ∈ s.json.1.labels_, _
        rw [kept.1]
        exact bounded.columns
      counted := by
        change s.json.1.count_ ≤ _
        rw [kept.2]
        exact bounded.counted
      idle := by
        intro none
        change s.json.1.count_ = 0 at none
        rw [kept.2] at none
        change s.json.1.json_.head? = _
        rw [CycleSet.json, if_pos none]
        exact bounded.idle none }
  | clear =>
    exact { (clear_tracks bounded.toSound).toSound with
      columns := bounded.columns
      counted := Nat.zero_le _
      idle := fun _ => rfl }

theorem fresh_bounded : Bounded .fresh :=
  { fresh_sound with
    columns := by decide
    counted := by decide
    idle := fun _ => rfl }

theorem after_bounded (ops : List Op) : Bounded (after ops) := by
  induction ops using List.reverseRecOn with
  | nil => exact fresh_bounded
  | append_singleton ops op ih =>
    rw [after, List.foldl_append]
    exact perform_bounded ih op

theorem touched_in_range {s : CycleSet} (bounded : Bounded s) (op : Op) :
    ∀ p ∈ touched s op, p.InRange := by
  cases op with
  | add label text =>
    rw [touched]
    split
    · simp
    · rename_i free
      have room : s.closed_ = false ∧ s.count_ < maxValues := by simpa using free
      intro p member
      rw [List.mem_append] at member
      rcases member with search | write
      · apply searched_in_range label 0 (s.labels_.take s.count_) _ p search
        rw [List.length_take]
        omega
      · cases made : s.claim label with
        | none => simp [made] at write
        | some claimed =>
          simp only [made, List.mem_append] at write
          rcases write with (row | key) | value
          · exact copied_in_range room.2 label p row
          · exact formatted_in_range bounded.inside _ p key
          · exact formatted_in_range (claim_bounded bounded made).1.inside _ p value
  | json =>
    rw [touched]
    split
    · simp
    · split
      · intro p member
        simp only [List.mem_cons, List.not_mem_nil, or_false] at member
        rcases member with rfl | rfl
        · exact bounded.inside
        · change s.len_ + 1 < jsonSize
          omega
      · simp
  | clear => simp [touched, Place.InRange, jsonSize]

theorem sizes_positive {s : CycleSet} (bounded : Bounded s) (op : Op) :
    ∀ n ∈ sizes s op, 1 ≤ n := by
  cases op with
  | add label text =>
    rw [sizes]
    cases made : s.claim label with
    | none => simp
    | some claimed =>
      have before := bounded.inside
      have between := (claim_bounded bounded made).1.inside
      simp only [List.mem_cons, List.not_mem_nil, or_false, forall_eq_or_imp, forall_eq, remaining]
      omega
  | json => simp [sizes]
  | clear => simp [sizes]

theorem message_terminated {s : CycleSet} (bounded : Bounded s) :
    ∃ rest, s.json.1.json_ = s.json.2 ++ 0 :: rest := by
  have ended {t : CycleSet} (sound : Sound t) : ∃ rest, t.json_ = cstr t.json_ ++ 0 :: rest := by
    obtain ⟨text, rest, _, shape⟩ := sound.terminated
    exact cstr_ended (by simp [shape])
  unfold CycleSet.json
  split
  · rename_i none
    obtain ⟨rest, whole⟩ := List.head?_eq_some_iff.mp (bounded.idle none)
    exact ⟨rest, whole⟩
  · split
    · exact ended bounded.toSound
    · exact ended (t := { s.ended with closed_ := true }) { ended_sound bounded.toSound with }

def CycleSet.at (s : CycleSet) : Place → Option UInt8
  | .json i => s.json_[i]?
  | .label row column => s.labels_[row]?.bind (·[column]?)

theorem append_elsewhere {s : CycleSet} (sound : Sound s) {text : Bytes} {i : Nat}
    (elsewhere : .json i ∉ formatted s.len_ text) :
    (s.append text).json_[i]? = s.json_[i]? := by
  have inside := sound.inside
  change (formatAt s.json_ s.len_ text)[i]? = _
  rw [formatAt, sound.sized, if_pos inside]
  apply poke_elsewhere
  · rw [sound.sized]
    omega
  · by_contra within
    apply elsewhere
    simp only [List.length_append, List.length_take, List.length_singleton] at within
    refine List.mem_map.mpr ⟨i - s.len_, ?_, ?_⟩
    · rw [List.mem_range, remaining]
      omega
    · congr 1
      omega

theorem stored_label_elsewhere {row label : Bytes} (sized : row.length = maxLabel) {r column : Nat}
    (elsewhere : .label r column ∉ copied r label) :
    (storedLabel row label)[column]? = row[column]? := by
  unfold storedLabel
  unfold copied at elsewhere
  generalize stop : (if label.length < maxLabel then label.length else maxLabel - 1) = n at *
  have inside : n < maxLabel := by
    rw [← stop]
    exact label_stop label
  have text : (label.take n).length ≤ n := List.length_take_le n label
  have behind : n < column := by
    by_contra within
    exact elsewhere (List.mem_map.mpr ⟨column, List.mem_range.mpr (by omega), rfl⟩)
  have size : (poke row 0 (label.take n)).length = maxLabel := by
    rw [poke_length, sized]
    omega
  rw [poke_elsewhere (by omega) (by rw [List.length_singleton]; omega),
    poke_elsewhere (Nat.zero_le _) (by omega)]

theorem label_elsewhere {s : CycleSet} (bounded : Bounded s) {label : Bytes} {r column : Nat}
    (room : s.count_ < maxValues) (elsewhere : .label r column ∉ copied s.count_ label) :
    (s.labels_.set s.count_ (storedLabel (s.labels_.getD s.count_ []) label))[r]?.bind
      (·[column]?) = s.labels_[r]?.bind (·[column]?) := by
  by_cases here : s.count_ = r
  · have present : s.count_ < s.labels_.length := by
      rw [bounded.rows]
      exact room
    have sized := (bounded.columns _ (List.getElem_mem present)).1
    subst here
    rw [List.getElem?_set_self present, List.getD_eq_getElem?_getD,
      List.getElem?_eq_getElem present]
    exact stored_label_elsewhere sized elsewhere
  · rw [List.getElem?_set_ne here]

theorem add_elsewhere {s : CycleSet} (bounded : Bounded s) (label text : Bytes) (p : Place)
    (elsewhere : p ∉ touched s (.add label text)) :
    CycleSet.at (perform s (.add label text)) p = CycleSet.at s p := by
  change CycleSet.at (s.add label text).1 p = _
  unfold CycleSet.add
  cases made : s.claim label with
  | none => rfl
  | some claimed =>
    have held := (claim_bounded bounded made).1
    obtain ⟨free, room, shape⟩ := claim_some made
    rw [touched, free, if_neg Bool.false_ne_true, made] at elsewhere
    simp only [List.mem_append, not_or] at elsewhere
    obtain ⟨_, ⟨row, key⟩, value⟩ := elsewhere
    cases p with
    | json i =>
      have written : (claimed.append text).json_[i]? = claimed.json_[i]? :=
        append_elsewhere held.toSound value
      have begun : claimed.json_[i]? = s.json_[i]? := by
        let rows := s.labels_.set s.count_ (storedLabel (s.labels_.getD s.count_ []) label)
        have sound : Sound { s with labels_ := rows } :=
          { bounded.toSound with rows := by simp [rows, bounded.rows] }
        rw [shape]
        exact append_elsewhere sound key
      exact written.trans begun
    | label r column =>
      change claimed.labels_[r]?.bind (·[column]?) = s.labels_[r]?.bind (·[column]?)
      rw [shape]
      exact label_elsewhere bounded room row

theorem json_elsewhere {s : CycleSet} (bounded : Bounded s) (p : Place)
    (elsewhere : p ∉ touched s .json) : CycleSet.at (perform s .json) p = CycleSet.at s p := by
  change CycleSet.at s.json.1 p = _
  unfold CycleSet.json
  unfold touched at elsewhere
  split
  · rfl
  · split
    · rfl
    · rename_i some opened
      rw [if_neg (by simp [some, opened])] at elsewhere
      unfold CycleSet.ended
      split
      · rename_i room
        rw [if_pos room] at elsewhere
        simp only [List.mem_cons, List.not_mem_nil, or_false, not_or] at elsewhere
        cases p with
        | json i =>
          apply poke_elsewhere
          · rw [bounded.sized]
            omega
          · have first : i ≠ s.len_ := fun same => elsewhere.1 (congrArg Place.json same)
            have second : i ≠ s.len_ + 1 := fun same => elsewhere.2 (congrArg Place.json same)
            simp only [List.length_cons, List.length_nil]
            omega
        | label r column => rfl
      · rfl

theorem clear_elsewhere (s : CycleSet) (p : Place) (elsewhere : p ∉ touched s .clear) :
    CycleSet.at (perform s .clear) p = CycleSet.at s p := by
  cases p with
  | json i =>
    apply poke_elsewhere (Nat.zero_le _)
    have first : i ≠ 0 := fun same => elsewhere (by simp [touched, same])
    rw [List.length_singleton]
    omega
  | label r column => rfl

theorem perform_elsewhere {s : CycleSet} (bounded : Bounded s) (op : Op) (p : Place)
    (elsewhere : p ∉ touched s op) : CycleSet.at (perform s op) p = CycleSet.at s p := by
  cases op with
  | add label text => exact add_elsewhere bounded label text p elsewhere
  | json => exact json_elsewhere bounded p elsewhere
  | clear => exact clear_elsewhere s p elsewhere

def Op.of : Call → Op
  | .add label value => .add label.1 value.text
  | .json => .json
  | .clear => .clear

theorem after_calls (calls : List Call) :
    GplugCycleLabels.after calls = after (calls.map Op.of) := by
  induction calls using List.reverseRecOn with
  | nil => rfl
  | append_singleton calls c ih =>
    rw [GplugCycleLabels.after, watched, List.foldl_append, List.map_append, after,
      List.foldl_append]
    change (call (GplugCycleLabels.after calls) c).1 = perform (after (calls.map Op.of)) (Op.of c)
    rw [ih]
    cases c with
    | add label value =>
      change (put _ label value).1 = _
      rw [put_eq]
      rfl
    | json => rfl
    | clear => rfl

/-- Whatever was called, in whatever order and however much of it did not fit. -/
theorem set_stays_inside (ops : List Op) :
    (after ops).len_ ≤ 511 ∧ (after ops).count_ ≤ maxValues ∧
      (after ops).json_.length = jsonSize ∧ (after ops).labels_.length = maxValues ∧
      (∀ row ∈ (after ops).labels_, row.length = maxLabel ∧ 0 ∈ row) ∧
      (∃ rest, (after ops).json.1.json_ = (after ops).json.2 ++ 0 :: rest) ∧
      (after ops).json.1.json_.length = jsonSize ∧
      ∀ op, (∀ n ∈ sizes (after ops) op, 1 ≤ n) ∧ (∀ p ∈ touched (after ops) op, p.InRange) ∧
        ∀ p ∉ touched (after ops) op,
          CycleSet.at (perform (after ops) op) p = CycleSet.at (after ops) p := by
  have bounded := after_bounded ops
  have inside := bounded.inside
  refine ⟨Nat.le_of_lt_succ inside, bounded.counted, bounded.sized, bounded.rows, bounded.columns,
    message_terminated bounded, (json_sound bounded.toSound).sized, ?_⟩
  intro op
  exact ⟨sizes_positive bounded op, touched_in_range bounded op, perform_elsewhere bounded op⟩

end GplugSetBounds
