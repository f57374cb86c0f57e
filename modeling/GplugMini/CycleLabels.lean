import Mathlib.Tactic.Common
import GplugMini.Aggregator

/- Every order of calls on a cycle's set, with labels of any length, and which of them its
   table of cut labels can tell apart. -/
namespace GplugCycleLabels
open ByteText DecimalText FirstOccurrence FlatObject GplugAggregator

abbrev Label := { text : Bytes // NulFree text }

inductive Value where
  | integer (value : UInt64)
  | real (value : Double)

def Value.text : Value → Bytes
  | .integer value => decimal value.toNat
  | .real value => fixed3 value

inductive Call where
  | add (label : Label) (value : Value)
  | json
  | clear

inductive Returned where
  | added (ok : Bool)
  | message (text : Bytes)
  | done
  deriving DecidableEq, Repr

def put (s : CycleSet) (label : Label) : Value → CycleSet × Bool
  | .integer value => s.addInteger label.1 value
  | .real value => s.addReal label.1 value

def call (s : CycleSet) : Call → CycleSet × Returned
  | .add label value => ((put s label value).1, .added (put s label value).2)
  | .json => (s.json.1, .message s.json.2)
  | .clear => (s.clear, .done)

/-- What a caller saw since the last clear: the labels accepted, and whether a message closed
    the set. -/
structure Ledger where
  closed : Bool
  accepted : List Bytes

def Ledger.empty : Ledger := ⟨false, []⟩

def Ledger.record (l : Ledger) : Call → Returned → Ledger
  | .add label _, .added true => { l with accepted := l.accepted ++ [label.1] }
  | .json, .message text => { l with closed := l.closed || decide (text ≠ []) }
  | .clear, _ => .empty
  | _, _ => l

def watched (calls : List Call) : CycleSet × Ledger :=
  calls.foldl (fun x c => ((call x.1 c).1, x.2.record c (call x.1 c).2)) (.fresh, .empty)

abbrev after (calls : List Call) : CycleSet := (watched calls).1

abbrev ledger (calls : List Call) : Ledger := (watched calls).2

def Ledger.Open (l : Ledger) : Prop := l.closed = false ∧ l.accepted.length < maxValues

/-- The first occurrence of a label wins, whatever is called in which order. -/
structure FirstWins (calls : List Call) : Prop where
  sized : ∀ before rest, calls = before ++ rest →
    (after before).size = (ledger before).accepted.length
  once : ∀ before rest, calls = before ++ rest → (ledger before).accepted.Nodup
  accepts : ∀ before label value rest, calls = before ++ .add label value :: rest →
    ((put (after before) label value).2 = true ↔
      (ledger before).Open ∧ label.1 ∉ (ledger before).accepted)
  refuses : ∀ before label value rest, calls = before ++ .add label value :: rest →
    (put (after before) label value).2 = false →
      (put (after before) label value).1 = after before

/-- A label repeated has at most 27 bytes, and a new one is not the first 27 bytes of an
    accepted label of more. -/
structure Apart (accepted : List Bytes) (label : Bytes) : Prop where
  repeated : label ∈ accepted → label.length < maxLabel
  fresh : label ∉ accepted → ∀ kept ∈ accepted, maxLabel ≤ kept.length → cut kept ≠ label

def ToldApart (calls : List Call) : Prop :=
  ∀ before label value rest, calls = before ++ .add label value :: rest →
    (ledger before).Open → Apart (ledger before).accepted label.1

theorem put_eq (s : CycleSet) (label : Label) (value : Value) :
    put s label value = s.add label.1 value.text := by
  cases value <;> rfl

theorem value_text_nul_free (value : Value) : NulFree value.text := by
  cases value with
  | integer value => exact bare_nul_free (decimal_bare _)
  | real value => exact bare_nul_free (fixed3_bare _)

theorem seen_right_iff (accepted : List Bytes) (label : Bytes) :
    (Seen accepted label ↔ label ∈ accepted) ↔ Apart accepted label := by
  constructor
  · intro right
    constructor
    · intro member
      obtain ⟨kept, _, same⟩ := right.mpr member
      have size := congrArg List.length same
      rw [cut_length, List.length_take] at size
      simp only [maxLabel] at *
      omega
    · intro other kept held long same
      apply other
      refine right.mp ⟨kept, held, ?_⟩
      have size := congrArg List.length same
      rw [cut_length] at size
      rw [same, List.take_of_length_le (by simp only [maxLabel] at *; omega)]
  · intro apart
    constructor
    · intro seen
      obtain ⟨kept, held, same⟩ := seen
      have size := congrArg List.length same
      rw [cut_length, List.length_take] at size
      have fits : label.length < maxLabel := by
        simp only [maxLabel] at *
        omega
      rw [List.take_of_length_le (Nat.le_of_lt fits)] at same
      by_contra other
      by_cases short : kept.length < maxLabel
      · rw [cut_short short] at same
        exact other (same ▸ held)
      · exact apart.fresh other kept held (by omega) same
    · intro member
      have fits := apart.repeated member
      refine ⟨label, member, ?_⟩
      rw [cut_short fits, List.take_of_length_le (Nat.le_of_lt fits)]

/-- The set carries what the ledger has, and its text is begun as soon as there is any. -/
structure Recorded (l : Ledger) (s : CycleSet) : Prop where
  carried : ∃ members, Carries s members ∧ keys members = l.accepted
  closed : s.closed_ = l.closed
  begun : s.count_ ≠ 0 → s.json_.headD 0 ≠ 0
  idle : s.count_ = 0 → s.len_ = 0

theorem format_head_first {array text : Bytes} {b : UInt8} (sized : array.length = jsonSize)
    (first : text.head? = some b) : (formatAt array 0 text).headD 0 = b := by
  obtain ⟨rest, rfl⟩ := List.head?_eq_some_iff.mp first
  rw [formatAt, if_pos (by rw [sized]; decide), sized]
  rfl

theorem append_begun {s : CycleSet} (sound : Sound s) {text : Bytes}
    (some : text ≠ []) (free : NulFree text)
    (begun : s.len_ ≠ 0 → s.json_.headD 0 ≠ 0) : (s.append text).json_.headD 0 ≠ 0 := by
  obtain ⟨b, rest, rfl⟩ := List.exists_cons_of_ne_nil some
  by_cases first : s.len_ = 0
  · rw [CycleSet.append, first, format_head_first sound.sized (b := b) rfl]
    exact free b (by simp)
  · have inside : s.len_ < s.json_.length := by
      rw [sound.sized]
      exact sound.inside
    rw [CycleSet.append, formatAt, if_pos inside, poke_head_later _ _ first inside]
    exact begun first

theorem value_text_some (value : Value) : value.text ≠ [] := by
  cases value with
  | integer value => exact decimal_ne_nil _
  | real value => cases value <;> simp [Value.text, fixed3, ascii]

theorem add_begun {s : CycleSet} (sound : Sound s) (begun : s.len_ ≠ 0 → s.json_.headD 0 ≠ 0)
    (label : Label) (value : Value) (accepted : (s.add label.1 value.text).2 = true) :
    (s.add label.1 value.text).1.json_.headD 0 ≠ 0 := by
  rw [add_written accepted]
  let claimed : CycleSet :=
    { s with labels_ := s.labels_.set s.count_ (storedLabel (s.labels_.getD s.count_ []) label.1) }
  have soundClaimed : Sound claimed := { sound with rows := by simp [claimed, sound.rows] }
  have keyed := append_begun soundClaimed (List.cons_ne_nil _ _)
    (key_written_nul_free label.2 s.len_) begun
  have soundKeyed := append_sound soundClaimed
    ((if s.len_ ≠ 0 then comma else openBrace) :: keyText label.1)
  exact append_begun { soundKeyed with } (value_text_some value) (value_text_nul_free value)
    fun _ => keyed

variable {l : Ledger} {s : CycleSet}

theorem recorded_begun (recorded : Recorded l s) : s.len_ ≠ 0 → s.json_.headD 0 ≠ 0 :=
  fun later => recorded.begun fun none => later (recorded.idle none)

theorem ended_begun (recorded : Recorded l s) (some : s.count_ ≠ 0) :
    s.ended.json_.headD 0 ≠ 0 := by
  obtain ⟨_, carried, _⟩ := recorded.carried
  unfold CycleSet.ended
  split
  · by_cases first : s.len_ = 0
    · rw [first]
      exact by simp [poke, closeBrace]
    · have inside := carried.inside
      rw [poke_head_later _ _ first (by rw [carried.sized]; exact inside)]
      exact recorded.begun some
  · exact recorded.begun some

theorem message_empty_iff (recorded : Recorded l s) : s.json.2 = [] ↔ l.accepted = [] := by
  obtain ⟨members, carried, labels⟩ := recorded.carried
  have counted : s.count_ = l.accepted.length := by
    rw [← labels, keys, List.length_map, carried.counted]
  rw [← List.length_eq_zero_iff (l := l.accepted), ← counted]
  unfold CycleSet.json
  split
  · rename_i none
    simp [none]
  · rename_i some
    split
    · simp only [cstr_eq_nil_iff, recorded.begun some, some]
    · simp only [cstr_eq_nil_iff, ended_begun recorded some, some]

theorem recorded_put (recorded : Recorded l s) (label : Label) (value : Value) :
    Recorded (l.record (.add label value) (.added (put s label value).2))
      (put s label value).1 := by
  obtain ⟨members, carried, labels⟩ := recorded.carried
  rw [put_eq]
  cases accepted : (s.add label.1 value.text).2 with
  | false =>
    rw [add_refused accepted]
    exact recorded
  | true =>
    obtain ⟨next, opened⟩ := carries_add carried label.2 (value_text_nul_free value) accepted
    have closed := ((carries_add_iff carried _ _).mp accepted).1
    have counted := next.counted
    refine ⟨⟨_, next, ?_⟩, ?_, ?_, ?_⟩
    · simp [keys, Ledger.record, ← labels]
    · exact opened.trans (closed.symm.trans recorded.closed)
    · exact fun _ => add_begun carried.toSound (recorded_begun recorded) label value accepted
    · intro none
      simp [none] at counted

theorem recorded_json (recorded : Recorded l s) :
    Recorded (l.record .json (.message s.json.2)) s.json.1 := by
  obtain ⟨members, carried, labels⟩ := recorded.carried
  obtain ⟨next, closed⟩ := json_carries carried
  have count : s.json.1.count_ = s.count_ := next.counted.trans carried.counted.symm
  refine ⟨⟨members, next, labels⟩, ?_, ?_, ?_⟩
  · rw [closed, recorded.closed, Ledger.record]
    simp only [ne_eq, message_empty_iff recorded, ← labels, keys, List.map_eq_nil_iff]
  · intro some
    rw [count] at some
    unfold CycleSet.json
    rw [if_neg some]
    split
    · exact recorded.begun some
    · exact ended_begun recorded some
  · intro none
    rw [count] at none
    unfold CycleSet.json
    rw [if_pos none]
    exact recorded.idle none

theorem recorded_call (recorded : Recorded l s) (c : Call) :
    Recorded (l.record c (call s c).2) (call s c).1 := by
  cases c with
  | add label value => exact recorded_put recorded label value
  | json => exact recorded_json recorded
  | clear =>
    obtain ⟨_, carried, _⟩ := recorded.carried
    exact ⟨⟨[], clear_carries carried.toSound, rfl⟩, rfl, fun some => absurd rfl some, fun _ => rfl⟩

theorem run_recorded (calls : List Call) : Recorded (ledger calls) (after calls) := by
  induction calls using List.reverseRecOn with
  | nil => exact ⟨⟨[], fresh_carries, rfl⟩, rfl, fun some => absurd rfl some, fun _ => rfl⟩
  | append_singleton calls c ih =>
    unfold ledger after watched
    rw [List.foldl_append]
    exact recorded_call ih c

theorem put_accepts_iff (recorded : Recorded l s) (label : Label) (value : Value) :
    (put s label value).2 = true ↔ l.Open ∧ ¬ Seen l.accepted label.1 := by
  obtain ⟨members, carried, labels⟩ := recorded.carried
  rw [put_eq, carries_add_iff carried, labels, recorded.closed, Ledger.Open, ← labels, keys,
    List.length_map, and_assoc]

theorem put_right_iff (recorded : Recorded l s) (label : Label) (value : Value) :
    ((put s label value).2 = true ↔ l.Open ∧ label.1 ∉ l.accepted) ↔
      (l.Open → Apart l.accepted label.1) := by
  rw [put_accepts_iff recorded, ← seen_right_iff]
  by_cases opened : l.Open
  · simp only [opened, true_and, forall_const, not_iff_not]
  · simp only [opened, false_and, false_implies]

theorem ledger_snoc (calls : List Call) (c : Call) :
    ledger (calls ++ [c]) = (ledger calls).record c (call (after calls) c).2 := by
  unfold ledger after watched
  rw [List.foldl_append]
  rfl

theorem told_apart_once {calls : List Call} (apart : ToldApart calls) :
    (ledger calls).accepted.Nodup := by
  induction calls using List.reverseRecOn with
  | nil => exact List.nodup_nil
  | append_singleton calls c ih =>
    have held := ih fun before label value rest split =>
      apart before label value (rest ++ [c]) (by simp [split])
    rw [ledger_snoc]
    cases c with
    | add label value =>
      have right := (put_right_iff (run_recorded calls) label value).mpr
        (apart calls label value [] rfl)
      cases accepted : (put (after calls) label value).2 with
      | false => simpa only [call, accepted, Ledger.record] using held
      | true =>
        have fresh := (right.mp accepted).2
        simp only [call, accepted, Ledger.record, List.nodup_append]
        refine ⟨held, List.nodup_singleton _, ?_⟩
        intro kept before new now same
        exact fresh (List.mem_singleton.mp now ▸ same ▸ before)
    | json => exact held
    | clear => exact List.nodup_nil

/-- The first occurrence wins exactly in the runs whose labels the set can tell apart. -/
theorem first_wins_iff (calls : List Call) : FirstWins calls ↔ ToldApart calls := by
  constructor
  · intro wins before label value rest split
    exact (put_right_iff (run_recorded before) label value).mp
      (wins.accepts before label value rest split)
  · intro apart
    refine ⟨?_, ?_, ?_, ?_⟩
    · intro before rest split
      obtain ⟨members, carried, labels⟩ := (run_recorded before).carried
      rw [← labels, keys, List.length_map, ← carried.counted]
      rfl
    · intro before rest split
      exact told_apart_once fun earlier label value more prior =>
        apart earlier label value (more ++ rest) (by simp [split, prior])
    · intro before label value rest split
      exact (put_right_iff (run_recorded before) label value).mpr
        (apart before label value rest split)
    · intro before label value rest split refused
      rw [put_eq] at refused ⊢
      exact add_refused refused

def manyA (n : Nat) : Label :=
  ⟨List.replicate n 97, fun b member => by rw [(List.mem_replicate.mp member).2]; decide⟩

/-- A label of 28 bytes is accepted twice, and then keeps out the label of its first 27. -/
theorem long_labels_mistaken :
    (ledger [.add (manyA 28) (.integer 1), .add (manyA 28) (.integer 2)]).accepted =
        [List.replicate 28 97, List.replicate 28 97] ∧
      (ledger [.add (manyA 28) (.integer 1), .add (manyA 27) (.integer 2)]).accepted =
        [List.replicate 28 97] ∧
      ¬ FirstWins [.add (manyA 28) (.integer 1), .add (manyA 28) (.integer 2)] ∧
      ¬ FirstWins [.add (manyA 28) (.integer 1), .add (manyA 27) (.integer 2)] := by
  refine ⟨by decide +kernel, by decide +kernel, ?_, ?_⟩
  · intro wins
    have twice := wins.once _ [] (List.append_nil _).symm
    revert twice
    decide +kernel
  · intro wins
    have kept := (wins.accepts [.add (manyA 28) (.integer 1)] (manyA 27) (.integer 2) [] rfl).mpr
      ⟨⟨by decide +kernel, by decide +kernel⟩, by decide +kernel⟩
    revert kept
    decide +kernel

end GplugCycleLabels
