import Mathlib.Data.List.Induction
import Mathlib.Data.List.Nodup
import Mathlib.Tactic.Common

/- Keyed items of which only the first of each key is kept, in order of arrival. -/
namespace FirstOccurrence
variable {Key Value : Type*} [DecidableEq Key]

def keys (items : List (Key × Value)) : List Key := items.map Prod.fst

def keep (kept : List (Key × Value)) (item : Key × Value) : List (Key × Value) :=
  if item.1 ∈ keys kept then kept else kept ++ [item]

def firstWins (items : List (Key × Value)) : List (Key × Value) := items.foldl keep []

omit [DecidableEq Key] in
@[simp] theorem keys_nil : keys ([] : List (Key × Value)) = [] := rfl

omit [DecidableEq Key] in
@[simp] theorem keys_append (left right : List (Key × Value)) :
    keys (left ++ right) = keys left ++ keys right := by simp [keys]

theorem first_wins_snoc (items : List (Key × Value)) (item : Key × Value) :
    firstWins (items ++ [item]) = keep (firstWins items) item := by
  simp [firstWins]

theorem mem_of_first_wins {items : List (Key × Value)} {item : Key × Value}
    (member : item ∈ firstWins items) : item ∈ items := by
  induction items using List.reverseRecOn with
  | nil => simp [firstWins] at member
  | append_singleton items last ih =>
    rw [first_wins_snoc, keep] at member
    split at member
    · exact List.mem_append_left _ (ih member)
    · rcases List.mem_append.mp member with earlier | now
      · exact List.mem_append_left _ (ih earlier)
      · exact List.mem_append_right _ now

theorem first_wins_keys (items : List (Key × Value)) (k : Key) :
    k ∈ keys (firstWins items) ↔ k ∈ keys items := by
  induction items using List.reverseRecOn with
  | nil => simp [firstWins]
  | append_singleton items last ih =>
    rw [first_wins_snoc, keep]
    split
    · rename_i seen
      rw [keys_append, List.mem_append, ih]
      constructor
      · exact Or.inl
      · rintro (earlier | now)
        · exact earlier
        · have same : k = last.1 := by simpa [keys] using now
          exact ih.mp (same ▸ seen)
    · rw [keys_append, keys_append, List.mem_append, List.mem_append, ih]

theorem first_wins_nodup (items : List (Key × Value)) : (keys (firstWins items)).Nodup := by
  induction items using List.reverseRecOn with
  | nil => simp [firstWins]
  | append_singleton items last ih =>
    rw [first_wins_snoc, keep]
    split
    · exact ih
    · rename_i fresh
      rw [keys_append, List.nodup_append]
      refine ⟨ih, by simp [keys], ?_⟩
      intro a before b now same
      have : b = last.1 := by simpa [keys] using now
      exact fresh (this ▸ same ▸ before)

theorem first_wins_lookup [BEq Key] [LawfulBEq Key] (items : List (Key × Value)) (k : Key) :
    (firstWins items).lookup k = items.lookup k := by
  induction items using List.reverseRecOn with
  | nil => rfl
  | append_singleton items last ih =>
    rw [first_wins_snoc, keep, List.lookup_append]
    split
    · rename_i seen
      rw [ih]
      cases found : items.lookup k with
      | some v => rfl
      | none =>
        have absent := List.lookup_eq_none_iff.mp found
        have other : k ≠ last.1 := by
          intro same
          obtain ⟨item, member, arrived⟩ := List.mem_map.mp ((first_wins_keys items _).mp seen)
          have := absent item member
          simp [same, arrived] at this
        have single : [last].lookup k = none := by
          rw [List.lookup_eq_none_iff]
          simpa using other
        rw [single]
        rfl
    · rw [List.lookup_append, ih]

end FirstOccurrence
