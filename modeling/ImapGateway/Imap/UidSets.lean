/-
A uid-set read back.

`_uid_set` writes the runs of the sorted UIDs, and the reader of sequence sets reads the
runs: the numbers are written in decimal, below the number that stands for `*`, and the
lower end comes first.  So a client that sends a uid-set of COPYUID or APPENDUID back names
the UIDs it was made from and no others.
-/
import ImapGateway.Imap.Arguments
import ImapGateway.Imap.Obligations

namespace ImapGateway
namespace Imap

/-! ## Runs -/

/-- The runs of ascending UIDs ascend, and between two of them a UID is missing. -/
theorem uidRuns_apart {us : List Nat} {start prev : Nat} (h : start ≤ prev)
    (ascending : us.Pairwise (· < ·)) (above : ∀ u ∈ us, prev < u) :
    (uidRuns us start prev).Pairwise (fun r r' => r.2 + 1 < r'.1) ∧
      ∀ r ∈ uidRuns us start prev, start ≤ r.1 ∧ r.1 ≤ r.2 := by
  induction us generalizing start prev with
  | nil =>
    refine ⟨List.pairwise_singleton _ _, fun r hr => ?_⟩
    rw [List.mem_singleton.mp hr]
    exact ⟨Nat.le_refl _, h⟩
  | cons u us ih =>
    obtain ⟨hu, ascending⟩ := List.pairwise_cons.mp ascending
    have hprev := above u List.mem_cons_self
    rw [uidRuns]
    by_cases hnext : u = prev + 1
    · rw [if_pos hnext]
      exact ih (by omega) ascending hu
    · rw [if_neg hnext]
      obtain ⟨hpair, hbounds⟩ := ih (Nat.le_refl u) ascending hu
      constructor
      · rw [List.pairwise_cons]
        refine ⟨fun r hr => ?_, hpair⟩
        have hr := (hbounds r hr).1
        show prev + 1 < r.1
        omega
      · intro r hr
        rcases List.mem_cons.mp hr with rfl | hr
        · exact ⟨Nat.le_refl _, h⟩
        · have hr := hbounds r hr
          omega

theorem uidSet_apart {uids : List Nat} (hnodup : uids.Nodup) :
    (uidSet uids).Pairwise (fun r r' => r.2 + 1 < r'.1) ∧ ∀ r ∈ uidSet uids, r.1 ≤ r.2 := by
  have hsorted : (uids.insertionSort (· ≤ ·)).Pairwise (· < ·) := by
    have hle := List.pairwise_insertionSort (· ≤ ·) uids
    have hne := (List.perm_insertionSort (· ≤ ·) uids).nodup_iff.mpr hnodup
    exact (hle.and hne).imp fun h => Nat.lt_of_le_of_ne h.1 h.2
  rw [uidSet]
  cases hus : uids.insertionSort (· ≤ ·) with
  | nil => exact ⟨List.Pairwise.nil, (by simp)⟩
  | cons u us =>
    rw [hus] at hsorted
    obtain ⟨hu, ascending⟩ := List.pairwise_cons.mp hsorted
    obtain ⟨hpair, hbounds⟩ := uidRuns_apart (Nat.le_refl u) ascending hu
    exact ⟨hpair, fun r hr => (hbounds r hr).2⟩

theorem uidSet_eq_nil_iff {uids : List Nat} : uidSet uids = [] ↔ uids = [] := by
  constructor
  · intro h
    have hsort := expandSet_uidSet uids
    rw [h] at hsort
    exact List.length_eq_zero_iff.mp (by rw [← List.length_insertionSort (· ≤ ·) uids, ← hsort]; rfl)
  · rintro rfl
    rfl

theorem mem_expandSet {ranges : List (Nat × Nat)} {u : Nat} :
    u ∈ expandSet ranges ↔ ∃ r ∈ ranges, r.1 ≤ u ∧ u ≤ r.2 := by
  rw [expandSet, List.mem_flatMap]
  refine exists_congr fun r => and_congr_right fun _ => ?_
  rw [List.mem_range'_1]
  omega

/-- A UID is in a run just when it is one of the UIDs. -/
theorem mem_uidSet {uids : List Nat} {u : Nat} :
    (∃ r ∈ uidSet uids, r.1 ≤ u ∧ u ≤ r.2) ↔ u ∈ uids := by
  rw [← mem_expandSet, mem_expandSet_uidSet]

/-! ## Numbers -/

section

variable {uni : Unicode}

theorem ascii_of_isDigit {text : List Char} (h : ∀ ch ∈ text, ch.isDigit = true) : IsAscii text := by
  intro ch hch
  have hdigit := h ch hch
  simp only [Char.isDigit, ge_iff_le, Bool.and_eq_true, decide_eq_true_eq, UInt32.le_iff_toNat_le] at hdigit
  have hhi : ch.toNat ≤ 57 := hdigit.2
  omega

theorem isDigits_of_isDigit {text : List Char} (hne : text ≠ [])
    (h : ∀ ch ∈ text, ch.isDigit = true) : uni.isDigits text = true := by
  rw [Unicode.isDigits, Bool.and_eq_true, List.all_eq_true]
  refine ⟨by simp [hne], fun ch hch => ?_⟩
  rw [uni.isDigit_ascii ch (ascii_of_isDigit h ch hch)]
  exact h ch hch

/-- Decimal digits are read as the number that they write. -/
theorem number_of_isDigit {text : List Char} (h : ∀ ch ∈ text, ch.isDigit = true) :
    uni.number text = some (Nat.ofDigitChars 10 text 0) := by
  have hvalues : text.mapM uni.decimal = some (text.map fun ch => ch.toNat - 48) := by
    have hascii := ascii_of_isDigit h
    induction text with
    | nil => rfl
    | cons ch text ih =>
      have hvalue := uni.decimal_ascii ch (hascii ch List.mem_cons_self)
      rw [if_pos (h ch List.mem_cons_self)] at hvalue
      rw [List.mapM_cons, hvalue, ih (fun c hc => h c (List.mem_cons_of_mem _ hc))
        fun c hc => hascii c (List.mem_cons_of_mem _ hc)]
      rfl
  rw [Unicode.number, hvalues, Option.map_some, List.foldl_map]
  rfl

theorem isDigit_of_mem_toDigits {n : Nat} : ∀ ch ∈ Nat.toDigits 10 n, ch.isDigit = true :=
  fun _ hch => Nat.isDigit_of_mem_toDigits (by decide) (by decide) hch

theorem toDigits_isDigits (n : Nat) : uni.isDigits (Nat.toDigits 10 n) = true :=
  isDigits_of_isDigit Nat.toDigits_ne_nil isDigit_of_mem_toDigits

theorem number_toDigits (n : Nat) : uni.number (Nat.toDigits 10 n) = some n := by
  rw [number_of_isDigit isDigit_of_mem_toDigits, Nat.ofDigitChars_ten_toDigits]

theorem seqNumber_toDigits {n : Nat} (hpos : 0 < n) (hlt : n < star) :
    seqNumber uni (Nat.toDigits 10 n) = .ok n := by
  have hstar : Nat.toDigits 10 n ≠ ['*'] := by
    intro heq
    have hdigits : uni.isDigits (Nat.toDigits 10 n) = true := toDigits_isDigits n
    rw [heq, star_no_digit] at hdigits
    cases hdigits
  have hshort : (Nat.toDigits 10 n).length ≤ 10 := by
    rw [Nat.length_toDigits_le_iff (by decide) (by decide)]
    exact Nat.lt_trans hlt (by decide)
  have hint : uni.int (Nat.toDigits 10 n) = .ok n := by
    have hlong : ¬maxIntDigits < (Nat.toDigits 10 n).length := by
      rw [maxIntDigits]
      omega
    simp only [Unicode.int, number_toDigits, if_neg hlong]
  rw [seqNumber, if_neg hstar, toDigits_isDigits, if_neg Bool.noConfusion, hint]
  show (if n = 0 then _ else _) = _
  rw [if_neg (by omega)]
  rfl

/-! ## The text -/

theorem toString_toList (n : Nat) : (toString n).toList = Nat.toDigits 10 n := by
  rw [Nat.toString_eq_ofList_toDigits, String.toList_ofList]

theorem notMem_toDigits {ch : Char} (h : ch.isDigit = false) (n : Nat) : ch ∉ Nat.toDigits 10 n := by
  intro hmem
  rw [Nat.isDigit_of_mem_toDigits (by decide) (by decide) hmem] at h
  cases h

/-- A part without a colon has one end. -/
theorem partition_plain {part : List Char} (h : ':' ∉ part) : partition part = (part, none) := by
  have hplain : ∀ ch ∈ part, decide (ch ≠ ':') = true := by
    intro ch hch
    rw [decide_eq_true_eq]
    rintro rfl
    exact h hch
  rw [partition, List.takeWhile_eq_self_iff.mpr hplain, List.dropWhile_eq_nil_iff.mpr hplain]

theorem partition_colon {lo : List Char} (h : ':' ∉ lo) (hi : List Char) :
    partition (lo ++ ':' :: hi) = (lo, some hi) := by
  have hplain : ∀ ch ∈ lo, decide (ch ≠ ':') = true := by
    intro ch hch
    rw [decide_eq_true_eq]
    rintro rfl
    exact h hch
  rw [partition, List.takeWhile_append_of_pos hplain, List.dropWhile_append_of_pos hplain]
  simp

/-- A run is read as the pair of its ends. -/
theorem parsePart_uidRange {r : Nat × Nat} (hlo : 0 < r.1) (hle : r.1 ≤ r.2) (hhi : r.2 < star) :
    parsePart uni (uidRange r).toList = .ok r := by
  have hcolon : ∀ n, ':' ∉ Nat.toDigits 10 n := notMem_toDigits (by decide)
  have hfirst : seqNumber uni (Nat.toDigits 10 r.1) = .ok r.1 := seqNumber_toDigits hlo (by omega)
  rw [uidRange]
  by_cases heq : r.1 = r.2
  · rw [if_neg (by simpa using heq), toString_toList, parsePart,
      if_neg Nat.toDigits_ne_nil, partition_plain (hcolon r.1)]
    show (do let lo ← seqNumber uni (Nat.toDigits 10 r.1); return (lo, lo)) = _
    rw [hfirst]
    show Except.ok (r.1, r.1) = Except.ok r
    rw [show (r.1, r.1) = r from Prod.ext rfl heq]
  · have hlast : seqNumber uni (Nat.toDigits 10 r.2) = .ok r.2 := seqNumber_toDigits (by omega) hhi
    rw [if_pos heq, String.toList_append, String.toList_append, toString_toList, toString_toList]
    rw [show ":".toList = [':'] from rfl, List.append_assoc, List.singleton_append, parsePart,
      if_neg (by simp), partition_colon (hcolon r.1)]
    obtain ⟨d, ds, hds⟩ := List.exists_cons_of_ne_nil (Nat.toDigits_ne_nil (n := r.2))
    rw [hds] at hlast ⊢
    show (do
      let lo ← seqNumber uni (Nat.toDigits 10 r.1)
      let hi ← seqNumber uni (d :: ds)
      return if hi < lo then (hi, lo) else (lo, hi)) = _
    rw [hfirst, hlast]
    show Except.ok (if r.2 < r.1 then (r.2, r.1) else (r.1, r.2)) = Except.ok r
    rw [if_neg (by omega)]

theorem comma_notMem_uidRange (r : Nat × Nat) : ',' ∉ (uidRange r).toList := by
  have hdigits := @notMem_toDigits ',' (by decide)
  rw [uidRange]
  split
  · rw [String.toList_append, String.toList_append, toString_toList, toString_toList]
    simp [hdigits]
  · rw [toString_toList]
    exact hdigits r.1

/-- A uid-set is read as its runs. -/
theorem parseSequenceSet_uidSetText {ranges : List (Nat × Nat)} (hne : ranges ≠ [])
    (h : ∀ r ∈ ranges, 0 < r.1 ∧ r.1 ≤ r.2 ∧ r.2 < star) :
    parseSequenceSet uni (uidSetText ranges) = .ok ⟨ranges⟩ := by
  have htext : (uidSetText ranges).toList =
      [','].intercalate (ranges.map fun r => (uidRange r).toList) := by
    rw [uidSetText, String.toList_intercalate, List.map_map]
    rfl
  have hparts : (uidSetText ranges).toList.splitOn ',' =
      ranges.map fun r => (uidRange r).toList := by
    rw [htext, List.splitOn_intercalate]
    · intro part hpart
      obtain ⟨r, _, rfl⟩ := List.mem_map.mp hpart
      exact comma_notMem_uidRange r
    · simpa using hne
  have hread : (ranges.map fun r => (uidRange r).toList).mapM (parsePart uni) = .ok ranges := by
    clear htext hparts hne
    induction ranges with
    | nil => rfl
    | cons r ranges ih =>
      obtain ⟨hlo, hle, hhi⟩ := h r List.mem_cons_self
      rw [List.map_cons, List.mapM_cons, parsePart_uidRange hlo hle hhi,
        ih fun r hr => h r (List.mem_cons_of_mem _ hr)]
      rfl
  have hnonempty : (uidSetText ranges).toList ≠ [] := by
    intro hnil
    rw [hnil] at hparts
    obtain ⟨r, ranges, rfl⟩ := List.exists_cons_of_ne_nil hne
    have hr := h r List.mem_cons_self
    have hread := @parsePart_uidRange uni _ hr.1 hr.2.1 hr.2.2
    have hhead : [] = (uidRange r).toList := List.head_eq_of_cons_eq hparts
    rw [← hhead] at hread
    cases hread
  rw [parseSequenceSet, if_neg hnonempty, hparts, hread]
  rfl

end

/-! ## The round trip -/

/-- The text written for `uids` is read as its runs, which select exactly the candidates among
`uids`; the runs ascend, and no two of them touch. -/
structure RoundTrip (uni : Unicode) (uids : List Nat) : Prop where
  none : uids = [] → uidSetText (uidSet uids) = ""
  read : uids ≠ [] → parseSequenceSet uni (uidSetText (uidSet uids)) = .ok ⟨uidSet uids⟩
  selects : ∀ candidates, selectNumbers ⟨uidSet uids⟩ candidates =
    candidates.filter fun n => decide (n ∈ uids)
  ordered : ∀ r ∈ uidSet uids, r.1 ≤ r.2
  apart : (uidSet uids).Pairwise fun r r' => r.2 + 1 < r'.1

/-- No end of a run is taken for `*`. -/
theorem inRange_of_lt {largest n : Nat} {r : Nat × Nat} (hle : r.1 ≤ r.2) (hhi : r.2 < star) :
    inRange largest n r = true ↔ r.1 ≤ n ∧ n ≤ r.2 := by
  have hlo : r.1 ≠ star := by omega
  have hne : r.2 ≠ star := by omega
  simp only [inRange, if_neg hlo, if_neg hne, min_eq_left hle, max_eq_right hle, Bool.and_eq_true,
    decide_eq_true_eq]

theorem uid_set_round_trip (uni : Unicode) {uids : List Nat} (hnodup : uids.Nodup)
    (hbounds : ∀ u ∈ uids, 0 < u ∧ u < 2 ^ 32) : RoundTrip uni uids := by
  obtain ⟨hapart, hordered⟩ := uidSet_apart hnodup
  have hends : ∀ r ∈ uidSet uids, 0 < r.1 ∧ r.1 ≤ r.2 ∧ r.2 < star := by
    intro r hr
    have hle := hordered r hr
    have hlo := hbounds r.1 (mem_uidSet.mp ⟨r, hr, Nat.le_refl _, hle⟩)
    have hhi := hbounds r.2 (mem_uidSet.mp ⟨r, hr, hle, Nat.le_refl _⟩)
    exact ⟨hlo.1, hle, hhi.2⟩
  refine ⟨fun h => ?_, fun hne => ?_, fun candidates => ?_, hordered, hapart⟩
  · rw [h]
    rfl
  · exact parseSequenceSet_uidSetText (fun h => hne (uidSet_eq_nil_iff.mp h)) hends
  · rw [selectNumbers]
    cases hlast : candidates.getLast? with
    | none =>
      rw [List.getLast?_eq_none_iff.mp hlast]
      rfl
    | some largest =>
      apply List.filter_congr
      intro n _
      rw [Bool.eq_iff_iff, List.any_eq_true, decide_eq_true_eq, ← mem_uidSet]
      refine exists_congr fun r => and_congr_right fun hr => ?_
      exact inRange_of_lt (hordered r hr) (hends r hr).2.2

theorem uid_set_round_trip_runs : RoundTrip Unicode.ofAscii [5, 1, 9, 4, 3] :=
  uid_set_round_trip _ (by decide) (by decide)

example : uidSetText (uidSet [5, 1, 9, 4, 3]) = "1,3:5,9" := by decide

end Imap
end ImapGateway
