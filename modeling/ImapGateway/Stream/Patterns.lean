/-
Patterns of literals and wildcards.

A wildcard takes any run of a list, also the empty one, and a literal takes itself.  What is
proved beside the definition is what a search needs that remembers only the last wildcard:
once the literals behind a wildcard are met and another wildcard follows, the place of the
first need never be looked at again.
-/
import Mathlib.Data.List.Basic

namespace ImapGateway
namespace Patterns

variable {α : Type}

inductive Matches (wild : α → Prop) : List α → List α → Prop
  | nil : Matches wild [] []
  | literal {c : α} {p n : List α} (plain : ¬wild c) (rest : Matches wild p n) :
      Matches wild (c :: p) (c :: n)
  | wildcard {c : α} {p n : List α} (h : wild c) (run : List α) (rest : Matches wild p n) :
      Matches wild (c :: p) (run ++ n)

variable {wild : α → Prop}

theorem matches_literal {c : α} {p n : List α} (h : ¬wild c) :
    Matches wild (c :: p) n ↔ ∃ rest, n = c :: rest ∧ Matches wild p rest := by
  constructor
  · intro hm
    cases hm with
    | literal _ rest => exact ⟨_, rfl, rest⟩
    | wildcard hwild => exact absurd hwild h
  · rintro ⟨rest, rfl, hm⟩
    exact .literal h hm

theorem matches_wildcard {c : α} {p n : List α} (h : wild c) :
    Matches wild (c :: p) n ↔ ∃ run rest, n = run ++ rest ∧ Matches wild p rest := by
  constructor
  · intro hm
    cases hm with
    | literal plain => exact absurd h plain
    | wildcard _ run rest => exact ⟨run, _, rfl, rest⟩
  · rintro ⟨run, rest, rfl, hm⟩
    exact .wildcard h run hm

/-- Only wildcards take nothing. -/
theorem matches_nil {p : List α} : Matches wild p [] ↔ ∀ c ∈ p, wild c := by
  induction p with
  | nil => exact ⟨fun _ => nofun, fun _ => .nil⟩
  | cons c p ih =>
    rw [List.forall_mem_cons, ← ih]
    by_cases h : wild c
    · rw [matches_wildcard h]
      constructor
      · rintro ⟨run, rest, heq, hm⟩
        obtain ⟨rfl, rfl⟩ := List.append_eq_nil_iff.mp heq.symm
        exact ⟨h, hm⟩
      · rintro ⟨-, hm⟩
        exact ⟨[], [], rfl, hm⟩
    · rw [matches_literal h]
      simp [h]

theorem matches_literals {lits p n : List α} (h : ∀ c ∈ lits, ¬wild c) :
    Matches wild (lits ++ p) n ↔ ∃ rest, n = lits ++ rest ∧ Matches wild p rest := by
  induction lits generalizing n with
  | nil => simp
  | cons c lits ih =>
    obtain ⟨hc, h⟩ := List.forall_mem_cons.mp h
    rw [List.cons_append, matches_literal hc]
    constructor
    · rintro ⟨tail, rfl, hm⟩
      obtain ⟨rest, rfl, hrest⟩ := (ih h).mp hm
      exact ⟨rest, rfl, hrest⟩
    · rintro ⟨rest, rfl, hm⟩
      exact ⟨lits ++ rest, rfl, (ih h).mpr ⟨rest, rfl, hm⟩⟩

theorem matches_literals_append {lits p n : List α} (h : ∀ c ∈ lits, ¬wild c) :
    Matches wild (lits ++ p) (lits ++ n) ↔ Matches wild p n := by
  rw [matches_literals h]
  constructor
  · rintro ⟨rest, heq, hm⟩
    rw [List.append_cancel_left heq]
    exact hm
  · exact fun hm => ⟨n, rfl, hm⟩

/-- A wildcard in front takes what comes before, too. -/
theorem Matches.extend {c : α} {p n : List α} (h : wild c) (hm : Matches wild (c :: p) n)
    (before : List α) : Matches wild (c :: p) (before ++ n) := by
  obtain ⟨run, rest, rfl, hrest⟩ := (matches_wildcard h).mp hm
  rw [← List.append_assoc]
  exact .wildcard h _ hrest

/-- Two patterns that take the same lists take the same behind any others. -/
theorem matches_congr {p q : List α} (h : ∀ n, Matches wild p n ↔ Matches wild q n)
    (front n : List α) : Matches wild (front ++ p) n ↔ Matches wild (front ++ q) n := by
  induction front generalizing n with
  | nil => exact h n
  | cons c front ih =>
    rw [List.cons_append, List.cons_append]
    by_cases hc : wild c
    · simp only [matches_wildcard hc, ih]
    · simp only [matches_literal hc, ih]

/-- Of two wildcards in a row one can go. -/
theorem matches_wildcard_wildcard {c d : α} (hc : wild c) (hd : wild d) {p n : List α} :
    Matches wild (c :: d :: p) n ↔ Matches wild (c :: p) n := by
  constructor
  · intro hm
    obtain ⟨run, rest, rfl, hrest⟩ := (matches_wildcard hc).mp hm
    obtain ⟨run', rest, rfl, hlast⟩ := (matches_wildcard hd).mp hrest
    exact Matches.extend hc (.wildcard hc run' hlast) run
  · intro hm
    obtain ⟨run, rest, rfl, hrest⟩ := (matches_wildcard hc).mp hm
    exact .wildcard hc run (.wildcard hd [] hrest)

/-- It does not matter which wildcard it is. -/
theorem matches_wildcard_eq {c d : α} (hc : wild c) (hd : wild d) {p n : List α} :
    Matches wild (c :: p) n ↔ Matches wild (d :: p) n := by
  rw [matches_wildcard hc, matches_wildcard hd]

/-! ## A search from the last wildcard -/

section

variable {c : α} {lits p n : List α} (hc : wild c) (hlits : ∀ x ∈ lits, ¬wild x)

include hc hlits

/-- With the literals behind a wildcard met, the next wildcard stands for both: any other
place of the literals leaves less to the next. -/
theorem matches_next {d : α} (hd : wild d) :
    Matches wild (c :: (lits ++ d :: p)) (lits ++ n) ↔ Matches wild (d :: p) n := by
  constructor
  · intro hm
    obtain ⟨run, rest, heq, hbehind⟩ := (matches_wildcard hc).mp hm
    obtain ⟨rest, rfl, hrest⟩ := (matches_literals hlits).mp hbehind
    obtain ⟨run', rest', rfl, hlast⟩ := (matches_wildcard hd).mp hrest
    -- what the rest of the pattern takes is a suffix of `n`
    have hlength : rest'.length ≤ n.length := by
      have h := congrArg List.length heq
      simp only [List.length_append] at h
      omega
    have hsuffix : rest' <:+ n := by
      apply @List.suffix_of_suffix_length_le _ _ (lits ++ n)
      · rw [heq, ← List.append_assoc, ← List.append_assoc]
        exact List.suffix_append _ _
      · exact List.suffix_append _ _
      · exact hlength
    obtain ⟨before, rfl⟩ := hsuffix
    exact .wildcard hd before hlast
  · intro hm
    exact .wildcard hc [] ((matches_literals_append hlits).mpr hm)

/-- Where the rest does not match, the wildcard takes one more. -/
theorem matches_retry {x : α} {name : List α} (heq : lits ++ n = x :: name)
    (stuck : ¬Matches wild p n) :
    Matches wild (c :: (lits ++ p)) (x :: name) ↔ Matches wild (c :: (lits ++ p)) name := by
  constructor
  · intro hm
    obtain ⟨run, rest, hrun, hrest⟩ := (matches_wildcard hc).mp hm
    cases run with
    | nil =>
      rw [List.nil_append, ← heq] at hrun
      rw [← hrun] at hrest
      exact absurd ((matches_literals_append hlits).mp hrest) stuck
    | cons y run =>
      obtain ⟨-, rfl⟩ := List.cons.inj hrun
      exact .wildcard hc run hrest
  · exact fun hm => hm.extend hc [x]

/-- At the end of the list only wildcards may be left. -/
theorem matches_end : Matches wild (c :: (lits ++ p)) lits ↔ ∀ x ∈ p, wild x := by
  rw [← matches_nil]
  constructor
  · intro hm
    obtain ⟨run, rest, heq, hbehind⟩ := (matches_wildcard hc).mp hm
    obtain ⟨rest, rfl, hrest⟩ := (matches_literals hlits).mp hbehind
    have hlength := congrArg List.length heq
    simp only [List.length_append] at hlength
    have hnil : rest = [] := List.length_eq_zero_iff.mp (by omega)
    rw [hnil] at hrest
    exact hrest
  · intro hm
    have h := (matches_literals_append hlits).mpr hm
    rw [List.append_nil] at h
    exact .wildcard hc [] h

end

end Patterns
end ImapGateway
