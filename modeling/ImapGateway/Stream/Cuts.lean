/-
Lists cut into pieces.

A list is cut behind each member that a test picks, which sees the member and the one that
comes next.  Pieces can be joined again where the next one continues the one before.  What
stands before a separator and what behind it can be told again if it is the first.
-/
import Mathlib.Data.List.Basic

namespace ImapGateway
namespace Cuts

variable {α : Type}

/-- The pieces of a list, each but the last ending where the test says so. -/
def cut (p : α → Option α → Bool) : List α → List (List α)
  | [] => []
  | x :: xs =>
    if p x xs.head? then [x] :: cut p xs
    else match cut p xs with
      | [] => [[x]]
      | piece :: pieces => (x :: piece) :: pieces

/-- A piece before those that follow; where the next one continues it, the two are one. -/
def glue (continues : α → Bool) (piece : List α) : List (List α) → List (List α)
  | [] => [piece]
  | next :: rest =>
    if next.head?.any continues then (piece ++ next) :: rest else piece :: next :: rest

def join (continues : α → Bool) (pieces : List (List α)) : List (List α) :=
  pieces.foldr (glue continues) []

variable {p q : α → Option α → Bool} {continues : α → Bool}

theorem glue_of_pos {piece next : List α} {rest : List (List α)}
    (h : next.head?.any continues = true) :
    glue continues piece (next :: rest) = (piece ++ next) :: rest := if_pos h

theorem glue_of_neg {piece next : List α} {rest : List (List α)}
    (h : next.head?.any continues = false) :
    glue continues piece (next :: rest) = piece :: next :: rest :=
  if_neg (by rw [h]; exact Bool.false_ne_true)

/-- What is glued starts where its first piece does. -/
theorem glue_cons (y : α) (ys : List α) (rest : List (List α)) :
    ∃ piece pieces, glue continues (y :: ys) rest = (y :: piece) :: pieces := by
  unfold glue
  split
  · exact ⟨_, _, rfl⟩
  · split
    · exact ⟨_, _, rfl⟩
    · exact ⟨_, _, rfl⟩

theorem cut_cons_of_pos {x : α} {xs : List α} (h : p x xs.head? = true) :
    cut p (x :: xs) = [x] :: cut p xs := if_pos h

theorem cut_cons_of_neg {x : α} {xs piece : List α} {pieces : List (List α)}
    (h : p x xs.head? = false) (hcut : cut p xs = piece :: pieces) :
    cut p (x :: xs) = (x :: piece) :: pieces := by
  show (if p x xs.head? then [x] :: cut p xs else _) = _
  rw [h, hcut]
  rfl

@[simp] theorem cut_singleton (x : α) : cut p [x] = [[x]] := by
  show (if p x none then [[x]] else [[x]]) = _
  exact ite_self _

@[simp] theorem cut_flatten (p : α → Option α → Bool) (xs : List α) : (cut p xs).flatten = xs := by
  induction xs with
  | nil => rfl
  | cons x xs ih =>
    unfold cut
    split
    · rw [List.flatten_cons, ih]
      rfl
    · cases hcut : cut p xs with
      | nil =>
        rw [hcut] at ih
        rw [← ih]
        rfl
      | cons piece pieces =>
        rw [hcut] at ih
        rw [← ih]
        rfl

/-- The first piece starts where the list does. -/
theorem cut_cons (p : α → Option α → Bool) (x : α) (xs : List α) :
    ∃ piece pieces, cut p (x :: xs) = (x :: piece) :: pieces := by
  unfold cut
  split
  · exact ⟨[], _, rfl⟩
  · split
    · exact ⟨[], [], rfl⟩
    · exact ⟨_, _, rfl⟩

theorem cut_eq_nil {xs : List α} : cut p xs = [] ↔ xs = [] := by
  constructor
  · intro h
    cases xs with
    | nil => rfl
    | cons x xs =>
      obtain ⟨piece, pieces, hcut⟩ := cut_cons p x xs
      rw [hcut] at h
      cases h
  · intro h
    rw [h]
    rfl

theorem ne_nil_of_mem_cut {xs piece : List α} (h : piece ∈ cut p xs) : piece ≠ [] := by
  induction xs generalizing piece with
  | nil => cases h
  | cons x xs ih =>
    unfold cut at h
    split at h
    · rcases List.mem_cons.mp h with rfl | h
      · exact List.cons_ne_nil _ _
      · exact ih h
    · split at h
      · rw [List.mem_singleton.mp h]
        exact List.cons_ne_nil _ _
      · next hcut =>
        rcases List.mem_cons.mp h with rfl | h
        · exact List.cons_ne_nil _ _
        · exact ih (hcut ▸ List.mem_cons_of_mem _ h)

/-- Where the test cuts between two lists, their pieces are cut apart. -/
theorem cut_append {xs ys : List α} {x : α} (hlast : xs.getLast? = some x)
    (h : p x ys.head? = true) : cut p (xs ++ ys) = cut p xs ++ cut p ys := by
  induction xs with
  | nil => cases hlast
  | cons x' xs ih =>
    cases xs with
    | nil =>
      have hx : x' = x := Option.some.inj hlast
      rw [hx, List.singleton_append, cut_cons_of_pos h, cut_singleton]
      rfl
    | cons y xs =>
      have htail := ih (by rwa [List.getLast?_cons_cons] at hlast)
      obtain ⟨piece, pieces, hcut⟩ := cut_cons p y xs
      rw [hcut] at htail
      cases hp : p x' (some y) with
      | true =>
        rw [List.cons_append, cut_cons_of_pos hp, cut_cons_of_pos hp, htail, hcut]
        rfl
      | false =>
        rw [List.cons_append, cut_cons_of_neg hp htail, cut_cons_of_neg hp hcut]
        rfl

/-- The pieces up to some place are those of the list up to there. -/
theorem cut_flatten_of_append {xs : List α} {pre post : List (List α)}
    (h : cut p xs = pre ++ post) : cut p pre.flatten = pre := by
  induction xs generalizing pre with
  | nil =>
    have hpre : pre = [] := (List.append_eq_nil_iff.mp h.symm).1
    rw [hpre]
    rfl
  | cons x xs ih =>
    cases pre with
    | nil => rfl
    | cons first pre =>
      cases xs with
      | nil =>
        rw [cut_singleton] at h
        have hpre : pre = [] := (List.append_eq_nil_iff.mp (List.tail_eq_of_cons_eq h).symm).1
        have hfirst : [x] = first := List.head_eq_of_cons_eq h
        rw [hpre, ← hfirst]
        exact cut_singleton x
      | cons y xs =>
        obtain ⟨piece, pieces, hcut⟩ := cut_cons p y xs
        cases hp : p x (some y) with
        | true =>
          rw [cut_cons_of_pos hp] at h
          have hfirst : [x] = first := List.head_eq_of_cons_eq h
          have hrest : cut p (y :: xs) = pre ++ post := List.tail_eq_of_cons_eq h
          have htail := ih hrest
          rw [← hfirst]
          show cut p (x :: pre.flatten) = _
          cases pre with
          | nil => exact cut_singleton x
          | cons first' pre =>
            rw [hcut] at hrest
            have hhead : y :: piece = first' := List.head_eq_of_cons_eq hrest
            rw [← hhead] at htail ⊢
            rw [cut_cons_of_pos (by exact hp), htail]
        | false =>
          rw [cut_cons_of_neg hp hcut] at h
          have hfirst : x :: y :: piece = first := List.head_eq_of_cons_eq h
          have hpieces : pieces = pre ++ post := List.tail_eq_of_cons_eq h
          have htail : cut p ((y :: piece) :: pre).flatten = (y :: piece) :: pre :=
            ih (by rw [hcut, hpieces]; rfl)
          rw [← hfirst]
          show cut p (x :: ((y :: piece) :: pre).flatten) = _
          exact cut_cons_of_neg (by exact hp) htail

/-- A piece that another follows ends where the test cuts. -/
theorem cut_append_last {xs last : List α} {pre post : List (List α)} {y : α} {ys : List α}
    (h : cut p xs = pre ++ last :: (y :: ys) :: post) :
    ∃ x, last.getLast? = some x ∧ p x (some y) = true := by
  induction xs generalizing pre last with
  | nil => simp [cut] at h
  | cons x xs ih =>
    cases xs with
    | nil =>
      rw [cut_singleton] at h
      have hlen := congrArg List.length h
      simp at hlen
      omega
    | cons z xs =>
      obtain ⟨piece, pieces, hcut⟩ := cut_cons p z xs
      cases hp : p x (some z) with
      | true =>
        rw [cut_cons_of_pos hp] at h
        cases pre with
        | nil =>
          have hlast : [x] = last := List.head_eq_of_cons_eq h
          have hrest : cut p (z :: xs) = (y :: ys) :: post := List.tail_eq_of_cons_eq h
          rw [hcut] at hrest
          have hz : z :: piece = y :: ys := List.head_eq_of_cons_eq hrest
          rw [← hlast, ← List.head_eq_of_cons_eq hz]
          exact ⟨x, rfl, hp⟩
        | cons first pre =>
          have hrest : cut p (z :: xs) = pre ++ last :: (y :: ys) :: post :=
            List.tail_eq_of_cons_eq h
          exact ih hrest
      | false =>
        rw [cut_cons_of_neg hp hcut] at h
        cases pre with
        | nil =>
          have hlast : x :: z :: piece = last := List.head_eq_of_cons_eq h
          have hpieces : pieces = (y :: ys) :: post := List.tail_eq_of_cons_eq h
          have hrest : cut p (z :: xs) = [] ++ (z :: piece) :: (y :: ys) :: post := by
            rw [hcut, hpieces]
            rfl
          obtain ⟨w, hw, hcuts⟩ := ih hrest
          rw [← hlast]
          exact ⟨w, by rwa [List.getLast?_cons_cons], hcuts⟩
        | cons first pre =>
          have hpieces : pieces = pre ++ last :: (y :: ys) :: post := List.tail_eq_of_cons_eq h
          have hrest : cut p (z :: xs) = ((z :: piece) :: pre) ++ last :: (y :: ys) :: post := by
            rw [hcut, hpieces]
            rfl
          exact ih hrest

/-- What stands before a piece ends where the test cuts. -/
theorem flatten_last {xs piece : List α} {pre post : List (List α)}
    (h : cut p xs = pre ++ piece :: post) (hpre : pre ≠ []) :
    ∃ x y, pre.flatten.getLast? = some x ∧ piece.head? = some y ∧ p x (some y) = true := by
  obtain ⟨init, last, rfl⟩ := (List.eq_nil_or_concat' pre).resolve_left hpre
  have hmem : piece ∈ cut p xs := h ▸ List.mem_append_right _ List.mem_cons_self
  cases piece with
  | nil => exact absurd rfl (ne_nil_of_mem_cut hmem)
  | cons y ys =>
    rw [List.append_assoc] at h
    obtain ⟨x, hx, hcuts⟩ := cut_append_last h
    refine ⟨x, y, ?_, rfl, hcuts⟩
    rw [List.flatten_append, List.getLast?_append]
    simp [hx]

/-- All pieces but the last end where the test cuts. -/
theorem cut_ends {xs last : List α} {pre : List (List α)} (h : cut p xs = pre ++ [last]) :
    ∀ piece ∈ pre, ∃ x y, piece.getLast? = some x ∧ p x (some y) = true := by
  intro piece hpiece
  obtain ⟨before, behind, rfl⟩ := List.append_of_mem hpiece
  obtain ⟨next, rest, hnext⟩ : ∃ next rest, behind ++ [last] = next :: rest := by
    cases behind with
    | nil => exact ⟨last, [], rfl⟩
    | cons next rest => exact ⟨next, rest ++ [last], rfl⟩
  rw [List.append_assoc, List.cons_append, hnext] at h
  have hmem : next ∈ cut p xs := by
    rw [h]
    exact List.mem_append_right _ (List.mem_cons_of_mem _ List.mem_cons_self)
  cases next with
  | nil => exact absurd rfl (ne_nil_of_mem_cut hmem)
  | cons y ys =>
    obtain ⟨x, hx, hcuts⟩ := cut_append_last h
    exact ⟨x, y, hx, hcuts⟩

/-- Where the test does not cut between two lists, a piece spans both. -/
theorem cut_append_span {xs ys piece : List α} {pieces : List (List α)} {x : α}
    (hlast : xs.getLast? = some x) (h : p x ys.head? = false) (hys : cut p ys = piece :: pieces) :
    ∃ pre last, cut p xs = pre ++ [last] ∧ cut p (xs ++ ys) = pre ++ (last ++ piece) :: pieces ∧
      last.getLast? = some x := by
  induction xs with
  | nil => cases hlast
  | cons x' xs ih =>
    cases xs with
    | nil =>
      have hx : x' = x := Option.some.inj hlast
      rw [hx, cut_singleton, List.singleton_append, cut_cons_of_neg h hys]
      exact ⟨[], [x], rfl, rfl, rfl⟩
    | cons y xs =>
      obtain ⟨pre, last, hcut, hspan, hend⟩ := ih (by rwa [List.getLast?_cons_cons] at hlast)
      change ∃ pre last, cut p (x' :: y :: xs) = pre ++ [last] ∧
        cut p (x' :: (y :: xs ++ ys)) = pre ++ (last ++ piece) :: pieces ∧ last.getLast? = some x
      cases hp : p x' (some y) with
      | true =>
        have hboth : cut p (x' :: (y :: xs ++ ys)) = [x'] :: cut p (y :: xs ++ ys) :=
          cut_cons_of_pos hp
        have hleft : cut p (x' :: y :: xs) = [x'] :: cut p (y :: xs) := cut_cons_of_pos hp
        rw [hboth, hleft, hcut, hspan]
        exact ⟨[x'] :: pre, last, rfl, rfl, hend⟩
      | false =>
        cases pre with
        | nil =>
          have hboth : cut p (x' :: (y :: xs ++ ys)) = (x' :: (last ++ piece)) :: pieces :=
            cut_cons_of_neg hp hspan
          have hleft : cut p (x' :: y :: xs) = [x' :: last] := cut_cons_of_neg hp hcut
          rw [hboth, hleft]
          refine ⟨[], x' :: last, rfl, rfl, ?_⟩
          rw [List.getLast?_cons, hend]
          rfl
        | cons first pre =>
          have hboth : cut p (x' :: (y :: xs ++ ys)) =
              (x' :: first) :: (pre ++ (last ++ piece) :: pieces) := cut_cons_of_neg hp hspan
          have hleft : cut p (x' :: y :: xs) = (x' :: first) :: (pre ++ [last]) :=
            cut_cons_of_neg hp hcut
          rw [hboth, hleft]
          exact ⟨(x' :: first) :: pre, last, rfl, rfl, hend⟩

/-- Within a piece the test cuts nowhere. -/
theorem not_cut_within {xs piece u v : List α} {x y : α} (h : piece ∈ cut p xs)
    (hpiece : piece = u ++ x :: y :: v) : p x (some y) = false := by
  induction xs generalizing piece u with
  | nil => cases h
  | cons z xs ih =>
    cases xs with
    | nil =>
      rw [cut_singleton, List.mem_singleton] at h
      have hlen := congrArg List.length (h.symm.trans hpiece)
      simp at hlen
      omega
    | cons z' xs =>
      obtain ⟨first, pieces, hcut⟩ := cut_cons p z' xs
      cases hp : p z (some z') with
      | true =>
        rw [cut_cons_of_pos hp] at h
        rcases List.mem_cons.mp h with h | h
        · have hlen := congrArg List.length (h.symm.trans hpiece)
          simp at hlen
          omega
        · exact ih h hpiece
      | false =>
        rw [cut_cons_of_neg hp hcut] at h
        rcases List.mem_cons.mp h with h | h
        · rw [h] at hpiece
          cases u with
          | nil =>
            have hz : z = x := List.head_eq_of_cons_eq hpiece
            have hz' : z' = y := List.head_eq_of_cons_eq (List.tail_eq_of_cons_eq hpiece)
            rw [← hz, ← hz']
            exact hp
          | cons w u =>
            exact ih (hcut ▸ List.mem_cons_self) (List.tail_eq_of_cons_eq hpiece)
        · exact ih (hcut ▸ List.mem_cons_of_mem _ h) hpiece

/-- Tests that agree within a list cut it alike. -/
theorem cut_congr {xs : List α}
    (h : ∀ u x y v, xs = u ++ x :: y :: v → p x (some y) = q x (some y)) : cut p xs = cut q xs := by
  induction xs with
  | nil => rfl
  | cons x xs ih =>
    have htail := ih fun u x' y v hxs => h (x :: u) x' y v (by rw [hxs]; rfl)
    cases xs with
    | nil => rw [cut_singleton, cut_singleton]
    | cons y xs =>
      have hhead : p x (some y) = q x (some y) := h [] x y xs rfl
      show (if p x (some y) then _ else _) = if q x (some y) then _ else _
      rw [hhead, htail]

/-- Joining the pieces of a cut undoes it where what comes next continues. -/
theorem join_cut (p : α → Option α → Bool) (continues : α → Bool) (xs : List α) :
    join continues (cut p xs) = cut (fun x next => p x next && !next.any continues) xs := by
  induction xs with
  | nil => rfl
  | cons x xs ih =>
    cases xs with
    | nil =>
      rw [cut_singleton, cut_singleton]
      rfl
    | cons y xs =>
      obtain ⟨piece, pieces, hcut⟩ := cut_cons p y xs
      obtain ⟨piece', pieces', hcut'⟩ :=
        cut_cons (fun x next => p x next && !next.any continues) y xs
      rw [hcut'] at ih
      cases hp : p x (some y) with
      | true =>
        rw [cut_cons_of_pos hp]
        show glue continues [x] (join continues (cut p (y :: xs))) = _
        rw [ih]
        cases hy : continues y with
        | true =>
          rw [cut_cons_of_neg (by simp [hp, hy]) hcut']
          exact if_pos hy
        | false =>
          rw [cut_cons_of_pos (by simp [hp, hy]), hcut']
          exact if_neg (by simp [hy])
      | false =>
        rw [cut_cons_of_neg hp hcut, cut_cons_of_neg (by simp [hp]) hcut']
        rw [hcut] at ih
        change glue continues (y :: piece) (join continues pieces) = _ at ih
        show glue continues (x :: y :: piece) (join continues pieces) = _
        cases hjoin : join continues pieces with
        | nil =>
          rw [hjoin] at ih
          rw [← List.head_eq_of_cons_eq ih, ← List.tail_eq_of_cons_eq ih]
          rfl
        | cons next rest =>
          rw [hjoin] at ih
          cases hc : next.head?.any continues with
          | true =>
            rw [glue_of_pos hc] at ih ⊢
            rw [← List.head_eq_of_cons_eq ih, ← List.tail_eq_of_cons_eq ih]
            rfl
          | false =>
            rw [glue_of_neg hc] at ih ⊢
            rw [← List.head_eq_of_cons_eq ih, ← List.tail_eq_of_cons_eq ih]

/-- A piece that is continued can be joined before or after. -/
theorem join_glue {line next : List α} {rest : List (List α)}
    (h : next.head?.any continues = true) :
    join continues (line :: next :: rest) = join continues ((line ++ next) :: rest) := by
  show glue continues line (glue continues next (join continues rest)) =
    glue continues (line ++ next) (join continues rest)
  cases next with
  | nil => cases h
  | cons y ys =>
    cases join continues rest with
    | nil => exact glue_of_pos h
    | cons piece pieces =>
      cases hc : piece.head?.any continues with
      | true =>
        have hhead : (y :: ys ++ piece).head?.any continues = true := h
        rw [glue_of_pos hc, glue_of_pos hc, glue_of_pos hhead, List.append_assoc]
      | false =>
        rw [glue_of_neg hc, glue_of_neg hc, glue_of_pos h]

theorem join_cons {line next : List α} {rest : List (List α)} (hnext : next ≠ [])
    (h : next.head?.any continues = false) :
    join continues (line :: next :: rest) = line :: join continues (next :: rest) := by
  cases next with
  | nil => exact absurd rfl hnext
  | cons y ys =>
    obtain ⟨piece, pieces, hglue⟩ := @glue_cons α continues y ys (join continues rest)
    show glue continues line (glue continues (y :: ys) (join continues rest)) =
      line :: glue continues (y :: ys) (join continues rest)
    rw [hglue]
    exact glue_of_neg h

theorem glue_flatten (piece : List α) (pieces : List (List α)) :
    (glue continues piece pieces).flatten = piece ++ pieces.flatten := by
  cases pieces with
  | nil => rfl
  | cons next rest =>
    cases h : next.head?.any continues with
    | true =>
      rw [glue_of_pos h, List.flatten_cons, List.flatten_cons, List.append_assoc]
    | false =>
      rw [glue_of_neg h]
      rfl

@[simp] theorem join_flatten (continues : α → Bool) (pieces : List (List α)) :
    (join continues pieces).flatten = pieces.flatten := by
  induction pieces with
  | nil => rfl
  | cons piece pieces ih =>
    show (glue continues piece (join continues pieces)).flatten = _
    rw [glue_flatten, ih]
    rfl

/-! ## The first separator -/

/-- A list shows where its first separator stands. -/
theorem append_separator_inj {c : α} {a a' b b' : List α} (ha : c ∉ a) (ha' : c ∉ a')
    (h : a ++ c :: b = a' ++ c :: b') : a = a' ∧ b = b' := by
  induction a generalizing a' with
  | nil =>
    cases a' with
    | nil => exact ⟨rfl, (List.cons.inj h).2⟩
    | cons d a' => exact absurd (List.mem_cons.mpr (.inl (List.cons.inj h).1)) ha'
  | cons d a ih =>
    cases a' with
    | nil => exact absurd (List.mem_cons.mpr (.inl (List.cons.inj h).1.symm)) ha
    | cons d' a' =>
      obtain ⟨hd, ht⟩ := List.cons.inj h
      obtain ⟨hxs, hys⟩ := ih (fun hm => ha (List.mem_cons_of_mem _ hm))
        (fun hm => ha' (List.mem_cons_of_mem _ hm)) ht
      exact ⟨by rw [hd, hxs], hys⟩

end Cuts
end ImapGateway
