/-
Entries in the order of their use, and a budget.

The entries are a list, the one used last at its end.  Where they weigh more than the
budget, the front goes: `fit` is the longest end of the list that the budget allows.
-/
import Mathlib.Data.List.Basic
import Mathlib.Data.List.Nodup
import Mathlib.Algebra.BigOperators.Group.List.Basic
import Mathlib.Algebra.GroupWithZero.Nat

namespace ImapGateway
namespace Recency

variable {κ ν : Type}

/-! ## Weight -/

section

variable (weight : ν → Nat)

def total (items : List (κ × ν)) : Nat := (items.map fun x => weight x.2).sum

@[simp] theorem total_nil : total weight ([] : List (κ × ν)) = 0 := rfl

@[simp] theorem total_cons (x : κ × ν) (items : List (κ × ν)) :
    total weight (x :: items) = weight x.2 + total weight items := by
  rw [total, List.map_cons, List.sum_cons, total]

@[simp] theorem total_append (items items' : List (κ × ν)) :
    total weight (items ++ items') = total weight items + total weight items' := by
  rw [total, List.map_append, List.sum_append, total, total]

variable [DecidableEq κ]

theorem filter_ne_eq_self {items : List (κ × ν)} {key : κ} (h : ∀ x ∈ items, x.1 ≠ key) :
    (items.filter fun x => x.1 != key) = items := by
  rw [List.filter_eq_self]
  intro x hx
  simpa using h x hx

/-- Without the entry of a key, the entries weigh less by the weight of that entry. -/
theorem total_filter_add {items : List (κ × ν)} (hnodup : (items.map Prod.fst).Nodup) {key : κ}
    {v : ν} (h : (key, v) ∈ items) :
    total weight (items.filter fun x => x.1 != key) + weight v = total weight items := by
  induction items with
  | nil => cases h
  | cons x items ih =>
    rw [List.map_cons, List.nodup_cons] at hnodup
    obtain ⟨hx, hnodup⟩ := hnodup
    rcases List.mem_cons.mp h with rfl | h
    · have hrest : ∀ y ∈ items, y.1 ≠ key := by
        intro y hy heq
        have hmem := List.mem_map_of_mem (f := Prod.fst) hy
        rw [heq] at hmem
        exact hx hmem
      rw [List.filter_cons_of_neg (by simp), filter_ne_eq_self hrest, total_cons]
      exact Nat.add_comm _ _
    · have hne : x.1 ≠ key := by
        intro heq
        apply hx
        rw [heq]
        exact List.mem_map_of_mem (f := Prod.fst) h
      have hrest := ih hnodup h
      rw [List.filter_cons_of_pos (by simpa using hne), total_cons, total_cons]
      omega

end

/-! ## The budget -/

section

variable (weight : ν → Nat) (budget : Nat)

/-- The longest end of the entries that the budget allows. -/
def fit : List (κ × ν) → List (κ × ν)
  | [] => []
  | x :: items => if budget < total weight (x :: items) then fit items else x :: items

theorem total_fit_le (items : List (κ × ν)) : total weight (fit weight budget items) ≤ budget := by
  induction items with
  | nil => exact Nat.zero_le _
  | cons x items ih =>
    rw [fit]
    by_cases h : budget < total weight (x :: items)
    · rw [if_pos h]
      exact ih
    · rw [if_neg h]
      omega

/-- Entries at the front are gone; the last of them would not have fitted. -/
structure Dropped (items gone kept : List (κ × ν)) : Prop where
  split : items = gone ++ kept
  needed : ∀ front x, gone = front ++ [x] → budget < total weight (x :: kept)

theorem dropped_fit (items : List (κ × ν)) :
    ∃ gone, Dropped weight budget items gone (fit weight budget items) := by
  induction items with
  | nil => exact ⟨[], rfl, fun front x h => by simp at h⟩
  | cons x items ih =>
    rw [fit]
    by_cases h : budget < total weight (x :: items)
    · rw [if_pos h]
      obtain ⟨gone, hsplit, hneeded⟩ := ih
      refine ⟨x :: gone, by rw [List.cons_append, ← hsplit], fun front y hy => ?_⟩
      cases front with
      | nil =>
        obtain ⟨rfl, rfl⟩ := List.cons.inj hy
        rw [List.nil_append] at hsplit
        rw [← hsplit]
        exact h
      | cons z front => exact hneeded front y (List.cons.inj hy).2
    · rw [if_neg h]
      exact ⟨[], rfl, fun front y hy => by simp at hy⟩

/-- An entry at the end that fits alone stays, and the others share what it leaves. -/
theorem fit_concat {items : List (κ × ν)} {x : κ × ν} (hx : weight x.2 ≤ budget) :
    fit weight budget (items ++ [x]) = fit weight (budget - weight x.2) items ++ [x] := by
  induction items with
  | nil =>
    show (if budget < total weight [x] then [] else [x]) = [x]
    rw [total_cons, total_nil, if_neg (by omega)]
  | cons y items ih =>
    have htotal : total weight (y :: (items ++ [x])) = total weight (y :: items) + weight x.2 := by
      rw [← List.cons_append, total_append, total_cons weight x, total_nil]
      rfl
    rw [List.cons_append, fit, fit, htotal]
    by_cases h : budget - weight x.2 < total weight (y :: items)
    · rw [if_pos h, if_pos (by omega), ih]
    · rw [if_neg h, if_neg (by omega), List.cons_append]

end

/-! ## The order -/

section

variable (use : κ → Nat)

/-- Each entry was used before those behind it. -/
def Ordered (items : List (κ × ν)) : Prop := items.Pairwise fun x y => use x.1 < use y.1

variable {use}

theorem Ordered.nodup {items : List (κ × ν)} (h : Ordered use items) :
    (items.map Prod.fst).Nodup := by
  rw [List.Nodup, List.pairwise_map]
  refine h.imp ?_
  intro x y hlt heq
  rw [heq] at hlt
  exact Nat.lt_irrefl _ hlt

theorem Ordered.sublist {items items' : List (κ × ν)} (h : Ordered use items)
    (hs : items'.Sublist items) : Ordered use items' :=
  List.Pairwise.sublist hs h

theorem Ordered.congr {use' : κ → Nat} {items : List (κ × ν)} (h : Ordered use items)
    (heq : ∀ x ∈ items, use' x.1 = use x.1) : Ordered use' items := by
  refine List.Pairwise.imp_of_mem ?_ h
  intro x y hx hy hlt
  rw [heq x hx, heq y hy]
  exact hlt

/-- An entry used after all others stands at the end. -/
theorem Ordered.concat {items : List (κ × ν)} (h : Ordered use items) {x : κ × ν}
    (hx : ∀ y ∈ items, use y.1 < use x.1) : Ordered use (items ++ [x]) := by
  rw [Ordered, List.pairwise_append]
  refine ⟨h, List.pairwise_singleton _ _, ?_⟩
  intro y hy z hz
  rw [List.mem_singleton.mp hz]
  exact hx y hy

end

end Recency
end ImapGateway
