/-
Sorting what arrives in any order.

Insertion sort is stable, so elements the order does not tell apart stay as they arrived.
Where it tells all of them apart, the result no longer shows the order of arrival.
-/
import Mathlib.Data.List.Sort
import Mathlib.Data.List.Pairwise

namespace ImapGateway
namespace Sorting

variable {α : Type} {r : α → α → Prop}

/-- The order tells two elements apart. -/
def Apart (r : α → α → Prop) (a b : α) : Prop := ¬ (r a b ∧ r b a)

instance : Std.Symm (Apart r) := ⟨fun _ _ h hba => h hba.symm⟩

variable [DecidableRel r] [Std.Total r] [IsTrans α r]

/-- Two elements told apart are inserted in either order. -/
theorem orderedInsert_comm {a b : α} (h : Apart r a b) (l : List α) :
    List.orderedInsert r a (List.orderedInsert r b l) =
      List.orderedInsert r b (List.orderedInsert r a l) := by
  have hcases : (r a b ∧ ¬ r b a) ∨ (r b a ∧ ¬ r a b) := by
    rcases Std.Total.total (r := r) a b with hab | hba
    · exact Or.inl ⟨hab, fun hba => h ⟨hab, hba⟩⟩
    · exact Or.inr ⟨hba, fun hab => h ⟨hab, hba⟩⟩
  induction l with
  | nil =>
    rcases hcases with ⟨hab, hba⟩ | ⟨hba, hab⟩
    · simp [hab, hba]
    · simp [hab, hba]
  | cons c l ih =>
    by_cases hac : r a c
    · by_cases hbc : r b c
      · rcases hcases with ⟨hab, hba⟩ | ⟨hba, hab⟩
        · simp [hab, hba, hac, hbc]
        · simp [hab, hba, hac, hbc]
      · have hba : ¬ r b a := fun hba => hbc (IsTrans.trans _ _ _ hba hac)
        simp [hac, hbc, hba]
    · by_cases hbc : r b c
      · have hab : ¬ r a b := fun hab => hac (IsTrans.trans _ _ _ hab hbc)
        simp [hac, hbc, hab]
      · simp [hac, hbc, ih]

/-- However the elements told apart arrive, with others behind them, they are sorted alike. -/
theorem insertionSort_arrivals {l₁ l₂ : List α} (h : l₁.Perm l₂)
    (hapart : l₁.Pairwise (Apart r)) (rest : List α) :
    (l₁ ++ rest).insertionSort r = (l₂ ++ rest).insertionSort r := by
  have hmem : ∀ a ∈ l₁, ∀ b ∈ l₁, a ≠ b → Apart r a b := fun a ha b hb hne =>
    hapart.forall ha hb hne
  have hsort : ∀ l : List α,
      (l ++ rest).insertionSort r = l.foldr (List.orderedInsert r) (rest.insertionSort r) := by
    intro l
    induction l with
    | nil => rfl
    | cons a l ih => rw [List.cons_append, List.insertionSort_cons, ih, List.foldr_cons]
  rw [hsort, hsort]
  apply h.foldr_eq'
  intro a ha b hb l
  by_cases hab : a = b
  · rw [hab]
  · exact orderedInsert_comm (hmem b hb a ha (Ne.symm hab)) l

end Sorting
end ImapGateway
