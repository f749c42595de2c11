/-
The patterns of LIST.

`_wildcard_match` keeps a place in the pattern and one in the name, and the last wildcard
with the place in the name up to which it reaches.  Where the literals behind that wildcard
do not fit it goes back to it, and to no other.  The wildcards it passes only move forward,
and between two of them what the last one takes only grows, so it ends.
-/
import ImapGateway.Stream.Patterns
import Mathlib.Data.Prod.Lex

namespace ImapGateway
namespace Imap

open Patterns

/-- `ch in "*%"`; the namespace is flat, so `%` takes any run of characters, too. -/
def IsWildcard (ch : Char) : Prop := ch = '*' ∨ ch = '%'

instance (ch : Char) : Decidable (IsWildcard ch) := inferInstanceAs (Decidable (_ ∨ _))

def collapseStep (collapsed : List Char) (ch : Char) : List Char :=
  if IsWildcard ch then
    if collapsed.getLast? = some '*' then collapsed else collapsed ++ ['*']
  else collapsed ++ [ch]

/-- Adjacent wildcards become one `*`. -/
def collapse (pattern : List Char) : List Char := pattern.foldl collapseStep []

/-- The cursors of the loop: the places in the pattern and in the name, the last wildcard
passed, and where what stands behind it was last tried. -/
structure Cursor where
  pi : Nat
  ni : Nat
  star : Option Nat
  matchNi : Nat
  tried_le : matchNi ≤ ni
  star_lt : ∀ k, star = some k → k < pi

namespace Cursor

def start : Cursor := ⟨0, 0, none, 0, Nat.le_refl 0, nofun⟩

/-- How many places of the pattern are left for a wildcard to be found at. -/
def ahead (len : Nat) (c : Cursor) : Nat :=
  match c.star with
  | none => len + 1
  | some k => len - k

/-- A wildcard of the pattern is passed. -/
def pass (c : Cursor) : Cursor :=
  { pi := c.pi + 1, ni := c.ni, star := some c.pi, matchNi := c.ni, tried_le := Nat.le_refl _,
    star_lt := fun k h => by injection h with h; omega }

/-- A literal of the pattern is met. -/
def advance (c : Cursor) : Cursor :=
  { c with
    pi := c.pi + 1, ni := c.ni + 1, tried_le := Nat.le_succ_of_le c.tried_le,
    star_lt := fun k h => Nat.lt_succ_of_lt (c.star_lt k h) }

/-- The wildcard at `k` takes one character more. -/
def retry (c : Cursor) (k : Nat) : Cursor :=
  { pi := k + 1, ni := c.matchNi + 1, star := some k, matchNi := c.matchNi + 1,
    tried_le := Nat.le_refl _, star_lt := fun j h => by injection h with h; omega }

end Cursor

/-- The loop over the name: the place in the pattern that it ends at, or nothing where it
returns `False`. -/
def scan (p name : List Char) (c : Cursor) : Option Nat :=
  if hname : c.ni < name.length then
    if hwild : p[c.pi]? = some '*' then scan p name c.pass
    else if p[c.pi]? = some name[c.ni] then scan p name c.advance
    else match hstar : c.star with
      | some k => scan p name (c.retry k)
      | none => none
  else some c.pi
termination_by (c.ahead p.length, name.length - c.matchNi, name.length - c.ni)
decreasing_by
  · apply Prod.Lex.left
    have hlt : c.pi < p.length := (List.getElem?_eq_some_iff.mp hwild).1
    show p.length - c.pi < c.ahead p.length
    rw [Cursor.ahead]
    cases hs : c.star with
    | none =>
      show p.length - c.pi < p.length + 1
      omega
    | some k =>
      have hk := c.star_lt k hs
      show p.length - c.pi < p.length - k
      omega
  · apply Prod.Lex.right
    apply Prod.Lex.right
    show name.length - (c.ni + 1) < name.length - c.ni
    omega
  · have htried := c.tried_le
    have hsame : (c.retry k).ahead p.length = c.ahead p.length := by
      rw [Cursor.ahead, Cursor.ahead, hstar]
      rfl
    rw [hsame]
    apply Prod.Lex.right
    apply Prod.Lex.left
    show name.length - (c.matchNi + 1) < name.length - c.matchNi
    omega

/-- `while pi < len(p) and p[pi] == "*": pi += 1` -/
def skipStars (p : List Char) (pi : Nat) : Nat :=
  if h : p[pi]? = some '*' then skipStars p (pi + 1) else pi
termination_by p.length - pi
decreasing_by
  have hlt := (List.getElem?_eq_some_iff.mp h).1
  omega

/-- `_wildcard_match`; `lower` is `str.lower`. -/
def wildcardMatch (lower : String → String) (pattern name : String) (ignoreCase : Bool) : Bool :=
  let pattern := if ignoreCase then lower pattern else pattern
  let name := if ignoreCase then lower name else name
  let p := collapse pattern.toList
  match scan p name.toList .start with
  | none => false
  | some pi => skipStars p pi == p.length

/-! ## Collapsing -/

theorem matches_collapseStep (collapsed p n : List Char) (ch : Char) :
    Matches IsWildcard (collapseStep collapsed ch ++ p) n ↔
      Matches IsWildcard (collapsed ++ ch :: p) n := by
  have hstar : IsWildcard '*' := .inl rfl
  rw [collapseStep]
  by_cases hwild : IsWildcard ch
  · rw [if_pos hwild]
    by_cases hlast : collapsed.getLast? = some '*'
    · obtain ⟨front, rfl⟩ := List.getLast?_eq_some_iff.mp hlast
      rw [if_pos hlast, List.append_assoc, List.append_assoc]
      exact matches_congr (fun n => (matches_wildcard_wildcard hstar hwild).symm) front n
    · rw [if_neg hlast, List.append_assoc]
      exact matches_congr (fun n => matches_wildcard_eq hstar hwild) collapsed n
  · rw [if_neg hwild, List.append_assoc]
    rfl

theorem matches_foldl_collapseStep (collapsed pattern n : List Char) :
    Matches IsWildcard (pattern.foldl collapseStep collapsed) n ↔
      Matches IsWildcard (collapsed ++ pattern) n := by
  induction pattern generalizing collapsed with
  | nil => rw [List.foldl_nil, List.append_nil]
  | cons ch pattern ih => rw [List.foldl_cons, ih, matches_collapseStep]

/-- Collapsing changes nothing that a pattern matches. -/
theorem matches_collapse (pattern n : List Char) :
    Matches IsWildcard (collapse pattern) n ↔ Matches IsWildcard pattern n :=
  matches_foldl_collapseStep [] pattern n

/-- The only wildcard that is left is `*`. -/
theorem collapse_wildcard {pattern : List Char} :
    ∀ ch ∈ collapse pattern, IsWildcard ch → ch = '*' := by
  have hstep : ∀ collapsed : List Char, (∀ ch ∈ collapsed, IsWildcard ch → ch = '*') →
      ∀ ch ∈ pattern.foldl collapseStep collapsed, IsWildcard ch → ch = '*' := by
    induction pattern with
    | nil => exact fun _ h => h
    | cons x pattern ih =>
      intro collapsed h
      apply ih
      intro ch hch hwild
      rw [collapseStep] at hch
      split at hch
      · split at hch
        · exact h ch hch hwild
        · rcases List.mem_append.mp hch with hold | hnew
          · exact h ch hold hwild
          · exact List.mem_singleton.mp hnew
      · rename_i hplain
        rcases List.mem_append.mp hch with hold | hnew
        · exact h ch hold hwild
        · rw [List.mem_singleton.mp hnew] at hwild
          exact absurd hwild hplain
  exact hstep [] nofun

/-! ## The loop -/

section

variable {p name : List Char}

/-- What the cursors stand for.  Before the first wildcard, the rests of the pattern and of the
name must match.  Behind one, literals have been met since, and the pattern from the wildcard
on must match the name from where it was last tried. -/
def Held (p name : List Char) (c : Cursor) : Prop :=
  match c.star with
  | none => Matches IsWildcard p name ↔ Matches IsWildcard (p.drop c.pi) (name.drop c.ni)
  | some k => ∃ lits : List Char, (∀ ch ∈ lits, ¬IsWildcard ch) ∧
      p.drop k = '*' :: (lits ++ p.drop c.pi) ∧ name.drop c.matchNi = lits ++ name.drop c.ni ∧
      (Matches IsWildcard p name ↔ Matches IsWildcard (p.drop k) (name.drop c.matchNi))

theorem held_start : Held p name .start := Iff.rfl

theorem drop_of_getElem? {xs : List Char} {i : Nat} {ch : Char} (h : xs[i]? = some ch) :
    xs.drop i = ch :: xs.drop (i + 1) := by
  obtain ⟨hlt, rfl⟩ := List.getElem?_eq_some_iff.mp h
  exact List.drop_eq_getElem_cons hlt

/-- The wildcard passed takes the place of the one before it. -/
theorem Held.pass {c : Cursor} (h : Held p name c) (hwild : p[c.pi]? = some '*') :
    Held p name c.pass := by
  have hstar : IsWildcard '*' := .inl rfl
  have hp := drop_of_getElem? hwild
  refine ⟨[], nofun, hp, rfl, ?_⟩
  show Matches IsWildcard p name ↔ Matches IsWildcard (p.drop c.pi) (name.drop c.ni)
  rw [Held] at h
  split at h
  · exact h
  · obtain ⟨lits, hlits, hpat, hname, hiff⟩ := h
    rw [hiff, hpat, hname, hp]
    exact matches_next hstar hlits hstar

theorem Held.advance {c : Cursor} {ch : Char} (h : Held p name c) (hplain : ¬IsWildcard ch)
    (hpat : p[c.pi]? = some ch) (hname : name[c.ni]? = some ch) : Held p name c.advance := by
  have hp := drop_of_getElem? hpat
  have hn := drop_of_getElem? hname
  rw [Held] at h ⊢
  rw [show c.advance.star = c.star from rfl]
  split at h
  · show Matches IsWildcard p name ↔ Matches IsWildcard (p.drop (c.pi + 1)) (name.drop (c.ni + 1))
    rw [h, hp, hn, matches_literal hplain]
    simp
  · obtain ⟨lits, hlits, hbehind, htried, hiff⟩ := h
    refine ⟨lits ++ [ch], ?_, ?_, ?_, hiff⟩
    · intro x hx
      rcases List.mem_append.mp hx with hold | hnew
      · exact hlits x hold
      · rw [List.mem_singleton.mp hnew]
        exact hplain
    · rw [hbehind, hp, List.append_assoc]
      rfl
    · show name.drop c.matchNi = lits ++ [ch] ++ name.drop (c.ni + 1)
      rw [htried, hn, List.append_assoc]
      rfl

theorem Held.retry {c : Cursor} {k : Nat} (h : Held p name c) (hstar : c.star = some k)
    (hlt : c.ni < name.length)
    (stuck : ¬Matches IsWildcard (p.drop c.pi) (name.drop c.ni)) : Held p name (c.retry k) := by
  rw [Held, hstar] at h
  obtain ⟨lits, hlits, hbehind, htried, hiff⟩ := h
  have hpat : p.drop k = '*' :: p.drop (k + 1) := by
    apply drop_of_getElem?
    rw [← List.head?_drop, hbehind]
    rfl
  have hmatch : c.matchNi < name.length := Nat.lt_of_le_of_lt c.tried_le hlt
  refine ⟨[], nofun, hpat, rfl, ?_⟩
  show Matches IsWildcard p name ↔ Matches IsWildcard (p.drop k) (name.drop (c.matchNi + 1))
  rw [List.drop_eq_getElem_cons hmatch] at htried hiff
  rw [hiff, hbehind]
  exact matches_retry (.inl rfl) hlits htried.symm stuck

/-- Where the loop ends the rest of the pattern is all wildcards just when there is a match. -/
theorem Held.matches_iff {c : Cursor} (h : Held p name c) (hend : name.length ≤ c.ni) :
    Matches IsWildcard p name ↔ ∀ ch ∈ p.drop c.pi, IsWildcard ch := by
  have hn : name.drop c.ni = [] := List.drop_eq_nil_iff.mpr hend
  rw [Held] at h
  split at h
  · rw [h, hn, matches_nil]
  · obtain ⟨lits, hlits, hbehind, htried, hiff⟩ := h
    rw [hn, List.append_nil] at htried
    rw [hiff, hbehind, htried]
    exact matches_end (.inl rfl) hlits

/-- A literal that is not met matches nothing. -/
theorem stuck_of_ne (hstars : ∀ ch ∈ p, IsWildcard ch → ch = '*') {pi ni : Nat}
    (hlt : ni < name.length) (hwild : p[pi]? ≠ some '*') (hne : p[pi]? ≠ some name[ni]) :
    ¬Matches IsWildcard (p.drop pi) (name.drop ni) := by
  intro hm
  rw [List.drop_eq_getElem_cons hlt] at hm
  cases hpat : p[pi]? with
  | none =>
    rw [List.drop_eq_nil_iff.mpr (List.getElem?_eq_none_iff.mp hpat)] at hm
    cases hm
  | some ch =>
    rw [hpat] at hwild hne
    have hplain : ¬IsWildcard ch := fun h =>
      hwild (congrArg some (hstars ch (List.mem_of_getElem? hpat) h))
    rw [drop_of_getElem? hpat, matches_literal hplain] at hm
    obtain ⟨rest, heq, -⟩ := hm
    exact hne (congrArg some (List.cons.inj heq).1.symm)

theorem scan_retry {c : Cursor} {k : Nat} (hname : c.ni < name.length)
    (hwild : ¬p[c.pi]? = some '*') (hmet : ¬p[c.pi]? = some name[c.ni]) (hstar : c.star = some k) :
    scan p name c = scan p name (c.retry k) := by
  rw [scan, dif_pos hname, dif_neg hwild, if_neg hmet]
  split
  · rename_i j hj
    rw [hstar] at hj
    injection hj with hj
    rw [hj]
  · rename_i hnone
    rw [hstar] at hnone
    cases hnone

theorem scan_fail {c : Cursor} (hname : c.ni < name.length) (hwild : ¬p[c.pi]? = some '*')
    (hmet : ¬p[c.pi]? = some name[c.ni]) (hstar : c.star = none) : scan p name c = none := by
  rw [scan, dif_pos hname, dif_neg hwild, if_neg hmet]
  split
  · rename_i k hk
    rw [hstar] at hk
    cases hk
  · rfl

/-- The loop does not leave the pattern. -/
theorem scan_le {c : Cursor} (hle : c.pi ≤ p.length) {pi : Nat} (h : scan p name c = some pi) :
    pi ≤ p.length := by
  induction c using scan.induct p name with
  | case1 c hname hwild ih =>
    rw [scan, dif_pos hname, dif_pos hwild] at h
    exact ih (List.getElem?_eq_some_iff.mp hwild).1 h
  | case2 c hname hwild hmet ih =>
    rw [scan, dif_pos hname, dif_neg hwild, if_pos hmet] at h
    exact ih (List.getElem?_eq_some_iff.mp hmet).1 h
  | case3 c hname hwild hmet k hstar ih =>
    rw [scan_retry hname hwild hmet hstar] at h
    have hk := c.star_lt k hstar
    exact ih (show k + 1 ≤ p.length by omega) h
  | case4 c hname hwild hmet hstar =>
    rw [scan_fail hname hwild hmet hstar] at h
    cases h
  | case5 c hname =>
    rw [scan, dif_neg hname] at h
    injection h with h
    rw [← h]
    exact hle

/-- The loop keeps what the cursors stand for. -/
theorem scan_spec (hstars : ∀ ch ∈ p, IsWildcard ch → ch = '*') {c : Cursor}
    (h : Held p name c) :
    match scan p name c with
    | none => ¬Matches IsWildcard p name
    | some pi => Matches IsWildcard p name ↔ ∀ ch ∈ p.drop pi, IsWildcard ch := by
  induction c using scan.induct p name with
  | case1 c hname hwild ih =>
    rw [scan, dif_pos hname, dif_pos hwild]
    exact ih (h.pass hwild)
  | case2 c hname hwild hmet ih =>
    rw [scan, dif_pos hname, dif_neg hwild, if_pos hmet]
    have hplain : ¬IsWildcard name[c.ni] := by
      intro hw
      rw [hstars _ (List.mem_of_getElem? hmet) hw] at hmet
      exact hwild hmet
    exact ih (h.advance hplain hmet (List.getElem?_eq_getElem hname))
  | case3 c hname hwild hmet k hstar ih =>
    rw [scan_retry hname hwild hmet hstar]
    exact ih (h.retry hstar hname (stuck_of_ne hstars hname hwild hmet))
  | case4 c hname hwild hmet hstar =>
    rw [scan_fail hname hwild hmet hstar]
    rw [Held, hstar] at h
    exact fun hm => stuck_of_ne hstars hname hwild hmet (h.mp hm)
  | case5 c hname =>
    rw [scan, dif_neg hname]
    exact h.matches_iff (Nat.le_of_not_lt hname)

end

theorem skipStars_eq_length_iff {p : List Char} (hstars : ∀ ch ∈ p, IsWildcard ch → ch = '*')
    {pi : Nat} (hle : pi ≤ p.length) :
    skipStars p pi = p.length ↔ ∀ ch ∈ p.drop pi, IsWildcard ch := by
  induction pi using skipStars.induct p with
  | case1 pi h ih =>
    have hlt := (List.getElem?_eq_some_iff.mp h).1
    rw [skipStars, dif_pos h, ih hlt, drop_of_getElem? h, List.forall_mem_cons]
    exact (and_iff_right (.inl rfl)).symm
  | case2 pi h =>
    rw [skipStars, dif_neg h]
    constructor
    · rintro rfl
      rw [List.drop_length]
      exact nofun
    · intro hall
      by_contra hne
      have hlt : pi < p.length := by omega
      rw [List.drop_eq_getElem_cons hlt] at hall
      have hwild := hall p[pi] List.mem_cons_self
      rw [List.getElem?_eq_getElem hlt] at h
      exact h (congrArg some (hstars _ (List.getElem_mem hlt) hwild))

/-- The matcher agrees with the declarative one, also on the lower-cased texts. -/
theorem wildcard_match_iff (lower : String → String) (pattern name : String)
    (ignoreCase : Bool) :
    wildcardMatch lower pattern name ignoreCase = true ↔
      Matches IsWildcard (if ignoreCase then lower pattern else pattern).toList
        (if ignoreCase then lower name else name).toList := by
  generalize hp : (if ignoreCase then lower pattern else pattern) = pattern'
  generalize hn : (if ignoreCase then lower name else name) = name'
  simp only [wildcardMatch, hp, hn]
  rw [← matches_collapse]
  have hstars := @collapse_wildcard pattern'.toList
  have hspec := scan_spec hstars (@held_start _ name'.toList)
  cases hscan : scan (collapse pattern'.toList) name'.toList .start with
  | none =>
    rw [hscan] at hspec
    exact iff_of_false Bool.noConfusion hspec
  | some pi =>
    rw [hscan] at hspec
    have hle := scan_le (Nat.zero_le _) hscan
    show (skipStars _ pi == _) = true ↔ _
    rw [show _ ↔ _ from hspec, ← skipStars_eq_length_iff hstars hle, beq_iff_eq]

end Imap
end ImapGateway
