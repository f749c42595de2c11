/-
Sequence sets as text.

A part of a set is read into a pair of numbers, with `2 ^ 32` in the place of `*`.  A
number that the text writes may be `2 ^ 32` as well, and is then taken for `*`: it
selects the largest candidate where that lies below everything the part denotes.
-/
import ImapGateway.Imap.Attributes
import ImapGateway.Imap.Search

namespace ImapGateway
namespace Imap

/-- What is taken from Unicode: `str.isdigit` of a character, the value of a decimal digit,
`str.upper` and `str.casefold`. -/
structure Unicode where
  isDigit : Char → Bool
  decimal : Char → Option Nat
  upper : String → String
  casefold : String → String
  isDigit_ascii : ∀ c : Char, c.toNat < 128 → isDigit c = c.isDigit
  decimal_ascii : ∀ c : Char, c.toNat < 128 →
    decimal c = if c.isDigit then some (c.toNat - 48) else none

namespace Unicode

variable (uni : Unicode)

/-- `str.isdigit` -/
def isDigits (text : List Char) : Bool := !text.isEmpty && text.all uni.isDigit

/-- The number that decimal digits write. -/
def number (text : List Char) : Option Nat :=
  (text.mapM uni.decimal).map fun ds => ds.foldl (fun n d => 10 * n + d) 0

/-- `int` of a text of digits. -/
def int (text : List Char) : Except ArgError Nat :=
  match uni.number text with
  | none => .error .value
  | some n => if maxIntDigits < text.length then .error .value else .ok n

theorem number_of_int {text : List Char} {n : Nat} (h : uni.int text = .ok n) :
    uni.number text = some n := by
  unfold int at h
  split at h
  · cases h
  · next m hm =>
    split at h
    · cases h
    · cases h
      exact hm

/-- Texts of ASCII characters alone. -/
def ofAscii : Unicode where
  isDigit := Char.isDigit
  decimal c := if c.isDigit then some (c.toNat - 48) else none
  upper := String.toUpper
  casefold := String.toLower
  isDigit_ascii _ _ := rfl
  decimal_ascii _ _ := rfl

end Unicode

/-! ## Parsing -/

variable (uni : Unicode)

/-- `_seq_number` -/
def seqNumber (text : List Char) : Except ArgError Nat :=
  if text = ['*'] then .ok star
  else if uni.isDigits text = false then .error (.fetchSyntax "invalid sequence number")
  else do
    let value ← uni.int text
    if value = 0 then throw (.fetchSyntax "sequence numbers start at 1")
    return value

/-- A part up to the colon, and from behind it. -/
def partition (part : List Char) : List Char × Option (List Char) :=
  (part.takeWhile (· ≠ ':'),
    match part.dropWhile (· ≠ ':') with
    | [] => none
    | _ :: hi => some hi)

/-- What the loop of `parse_sequence_set` makes of a part. -/
def parsePart (part : List Char) : Except ArgError (Nat × Nat) :=
  if part = [] then .error (.fetchSyntax "empty item in sequence set")
  else match partition part with
    | (_, some []) => .error (.fetchSyntax "invalid range in sequence set")
    | (lo, some hi) => do
      let lo ← seqNumber uni lo
      let hi ← seqNumber uni hi
      return if hi < lo then (hi, lo) else (lo, hi)
    | (lo, none) => do
      let lo ← seqNumber uni lo
      return (lo, lo)

/-- `parse_sequence_set` -/
def parseSequenceSet (text : String) : Except ArgError SequenceSet :=
  if text.toList = [] then .error (.fetchSyntax "empty sequence set")
  else do
    let ranges ← (text.toList.splitOn ',').mapM (parsePart uni)
    return ⟨ranges⟩

/-! ## What the text denotes -/

/-- The ends of a part; a part without a colon has one end, twice. -/
def ends (part : List Char) : List Char × List Char :=
  let (lo, hi) := partition part
  (lo, hi.getD lo)

/-- The number an end denotes where `*` denotes `largest`. -/
def endValue (largest : Nat) (text : List Char) : Option Nat :=
  if text = ['*'] then some largest else uni.number text

/-- Whether a part denotes a number when the largest candidate is `largest`. -/
def denotes (largest : Nat) (part : List Char) (n : Nat) : Bool :=
  match endValue uni largest (ends part).1, endValue uni largest (ends part).2 with
  | some a, some b => decide (min a b ≤ n) && decide (n ≤ max a b)
  | _, _ => false

/-- The numbers a part writes, one of which is the number that stands for `*`, both above
the largest candidate. -/
def collides (largest : Nat) (part : List Char) : Bool :=
  let (lo, hi) := ends part
  decide (lo ≠ ['*']) && decide (hi ≠ ['*']) &&
    match uni.number lo, uni.number hi with
    | some a, some b => (decide (a = star) || decide (b = star)) && decide (largest < a) &&
      decide (largest < b)
    | _, _ => false

/-- The candidates a text selects are those its parts denote, and no part selects another. -/
structure Meant (text : String) (set : SequenceSet) (candidates : List Nat) : Prop where
  ascending : (selectNumbers set candidates).Pairwise (· < ·)
  selected : ∀ n, n ∈ selectNumbers set candidates ↔
    n ∈ candidates ∧ ∃ largest ∈ candidates.getLast?,
      ∃ part ∈ text.toList.splitOn ',', denotes uni largest part n = true
  own : ∀ part ∈ text.toList.splitOn ',', ∀ r, parsePart uni part = .ok r →
    ∀ n ∈ selectNumbers ⟨[r]⟩ candidates, ∀ largest ∈ candidates.getLast?,
      denotes uni largest part n = true

section

variable {uni : Unicode}

theorem seqNumber_ok {text : List Char} {n : Nat} (h : seqNumber uni text = .ok n) :
    endValue uni star text = some n := by
  unfold seqNumber at h
  unfold endValue
  by_cases hstar : text = ['*']
  · rw [if_pos hstar] at h ⊢
    cases h
    rfl
  · rw [if_neg hstar] at h ⊢
    split at h
    · cases h
    · cases hint : uni.int text with
      | error e => simp [hint, bind, Except.bind] at h
      | ok value =>
        have hvalue := uni.number_of_int hint
        by_cases hzero : value = 0
        · simp [hint, hzero, bind, Except.bind, throw, throwThe, MonadExceptOf.throw] at h
        · have hn : value = n := by simpa [hint, hzero, bind, Except.bind, pure, Except.pure] using h
          rw [hvalue, hn]

/-- A part that is read is the pair of its ends, the lower end first. -/
theorem parsePart_ok {part : List Char} {r : Nat × Nat} (h : parsePart uni part = .ok r) :
    ∃ a b, endValue uni star (ends part).1 = some a ∧ endValue uni star (ends part).2 = some b ∧
      r = (min a b, max a b) := by
  unfold parsePart at h
  unfold ends
  split at h
  · cases h
  · split at h
    · cases h
    · next lo hi _ hpart =>
      rw [hpart]
      show ∃ a b, endValue uni star lo = some a ∧ endValue uni star hi = some b ∧ _
      cases hlo : seqNumber uni lo with
      | error e => simp [hlo, bind, Except.bind] at h
      | ok a =>
        cases hhi : seqNumber uni hi with
        | error e => simp [hlo, hhi, bind, Except.bind] at h
        | ok b =>
          have hr : (if b < a then (b, a) else (a, b)) = r := by
            simpa [hlo, hhi, bind, Except.bind, pure, Except.pure] using h
          refine ⟨a, b, seqNumber_ok hlo, seqNumber_ok hhi, ?_⟩
          rw [← hr]
          by_cases hlt : b < a
          · rw [if_pos hlt, min_eq_right (by omega), max_eq_left (by omega)]
          · rw [if_neg hlt, min_eq_left (by omega), max_eq_right (by omega)]
    · next lo hpart =>
      rw [hpart]
      show ∃ a b, endValue uni star lo = some a ∧ endValue uni star lo = some b ∧ _
      cases hlo : seqNumber uni lo with
      | error e => simp [hlo, bind, Except.bind] at h
      | ok a =>
        have hr : (a, a) = r := by simpa [hlo, bind, Except.bind, pure, Except.pure] using h
        exact ⟨a, a, seqNumber_ok hlo, seqNumber_ok hlo, by rw [← hr, min_self, max_self]⟩

/-- What an end is resolved to. -/
def resolve (largest n : Nat) : Nat := if n = star then largest else n

theorem inRange_pair (largest n a b : Nat) :
    inRange largest n (min a b, max a b) = true ↔
      min (resolve largest a) (resolve largest b) ≤ n ∧
        n ≤ max (resolve largest a) (resolve largest b) := by
  show (decide (min (resolve largest (min a b)) (resolve largest (max a b)) ≤ n) &&
    decide (n ≤ max (resolve largest (min a b)) (resolve largest (max a b)))) = true ↔ _
  rcases Nat.le_total a b with hab | hab
  · rw [min_eq_left hab, max_eq_right hab, Bool.and_eq_true, decide_eq_true_iff,
      decide_eq_true_iff]
  · rw [min_eq_right hab, max_eq_left hab, Bool.and_eq_true, decide_eq_true_iff,
      decide_eq_true_iff, min_comm, max_comm]

theorem endValue_cases {text : List Char} {a : Nat} (h : endValue uni star text = some a) :
    (text = ['*'] ∧ a = star) ∨ (text ≠ ['*'] ∧ uni.number text = some a) := by
  unfold endValue at h
  by_cases hstar : text = ['*']
  · rw [if_pos hstar] at h
    exact Or.inl ⟨hstar, (Option.some.inj h).symm⟩
  · rw [if_neg hstar] at h
    exact Or.inr ⟨hstar, h⟩

theorem endValue_star (largest : Nat) : endValue uni largest ['*'] = some largest := if_pos rfl

theorem endValue_number {text : List Char} (h : text ≠ ['*']) (largest : Nat) :
    endValue uni largest text = uni.number text := if_neg h

theorem denotes_iff (largest : Nat) (part : List Char) (n : Nat) :
    denotes uni largest part n = true ↔
      ∃ a b, endValue uni largest (ends part).1 = some a ∧
        endValue uni largest (ends part).2 = some b ∧ min a b ≤ n ∧ n ≤ max a b := by
  unfold denotes
  cases endValue uni largest (ends part).1 <;> cases endValue uni largest (ends part).2 <;>
    simp

theorem collides_iff (largest : Nat) (part : List Char) :
    collides uni largest part = true ↔
      (ends part).1 ≠ ['*'] ∧ (ends part).2 ≠ ['*'] ∧
        ∃ a b, uni.number (ends part).1 = some a ∧ uni.number (ends part).2 = some b ∧
          (a = star ∨ b = star) ∧ largest < a ∧ largest < b := by
  unfold collides
  cases h1 : uni.number (ends part).1 <;> cases h2 : uni.number (ends part).2 <;>
    simp [h1, h2, and_assoc]

/-- A part that does not collide selects what it denotes. -/
theorem inRange_denotes {part : List Char} {r : Nat × Nat} (h : parsePart uni part = .ok r)
    {largest n : Nat} (hlargest : largest < star) (hn : n ≤ largest)
    (apart : collides uni largest part = false) :
    inRange largest n r = true ↔ denotes uni largest part n = true := by
  obtain ⟨a, b, ha, hb, rfl⟩ := parsePart_ok h
  rw [inRange_pair, denotes_iff]
  have hfree : ¬ collides uni largest part = true := by simp [apart]
  rw [collides_iff] at hfree
  rcases endValue_cases ha with ⟨hlo, hastar⟩ | ⟨hlo, hanum⟩
  · rcases endValue_cases hb with ⟨hhi, hbstar⟩ | ⟨hhi, hbnum⟩
    · rw [hlo, hhi, endValue_star, hastar, hbstar]
      simp [resolve]
    · rw [hlo, endValue_star, endValue_number hhi, hbnum, hastar]
      by_cases hbstar : b = star
      · simp [resolve, hbstar]
        omega
      · simp [resolve, hbstar]
  · rcases endValue_cases hb with ⟨hhi, hbstar⟩ | ⟨hhi, hbnum⟩
    · rw [hhi, endValue_star, endValue_number hlo, hanum, hbstar]
      by_cases hastar : a = star
      · simp [resolve, hastar]
        omega
      · simp [resolve, hastar]
    · rw [endValue_number hlo, endValue_number hhi, hanum, hbnum]
      have hnot : ¬ ((a = star ∨ b = star) ∧ largest < a ∧ largest < b) := fun hbad =>
        hfree ⟨hlo, hhi, a, b, hanum, hbnum, hbad⟩
      by_cases hastar : a = star <;> by_cases hbstar : b = star <;>
        simp [resolve, hastar, hbstar] at hnot ⊢ <;> omega

/-- A part that collides selects the largest candidate, which it does not denote. -/
theorem collides_selects {part : List Char} {r : Nat × Nat} (h : parsePart uni part = .ok r)
    {largest : Nat} (hit : collides uni largest part = true) :
    inRange largest largest r = true ∧ denotes uni largest part largest = false := by
  obtain ⟨hlo, hhi, a, b, hanum, hbnum, hstar, ha, hb⟩ := (collides_iff largest part).mp hit
  obtain ⟨a', b', ha', hb', rfl⟩ := parsePart_ok h
  rw [endValue_number hlo, hanum] at ha'
  rw [endValue_number hhi, hbnum] at hb'
  cases ha'
  cases hb'
  constructor
  · rw [inRange_pair]
    rcases hstar with hstar | hstar
    · simp [resolve, hstar]
    · simp [resolve, hstar]
  · rw [← Bool.not_eq_true, denotes_iff, endValue_number hlo, endValue_number hhi, hanum, hbnum]
    rintro ⟨_, _, ⟨⟩, ⟨⟩, hmin, -⟩
    omega

theorem le_getLast {candidates : List Nat} (ascending : candidates.Pairwise (· < ·))
    {largest : Nat} (hlast : candidates.getLast? = some largest) {n : Nat} (hn : n ∈ candidates) :
    n ≤ largest := by
  obtain ⟨before, rfl⟩ := List.getLast?_eq_some_iff.mp hlast
  rw [List.pairwise_append] at ascending
  rcases List.mem_append.mp hn with h | h
  · have := ascending.2.2 n h largest (List.mem_singleton_self _)
    omega
  · rw [List.mem_singleton.mp h]

theorem mem_selectNumbers {set : SequenceSet} {candidates : List Nat} {n : Nat} :
    n ∈ selectNumbers set candidates ↔
      n ∈ candidates ∧ ∃ largest ∈ candidates.getLast?, ∃ r ∈ set.ranges,
        inRange largest n r = true := by
  unfold selectNumbers
  cases hlast : candidates.getLast? with
  | none => simp
  | some largest => simp

theorem selectNumbers_ascending {set : SequenceSet} {candidates : List Nat}
    (ascending : candidates.Pairwise (· < ·)) :
    (selectNumbers set candidates).Pairwise (· < ·) := by
  unfold selectNumbers
  split
  · exact List.Pairwise.nil
  · exact ascending.filter _

/-- The ranges of a set are those of the parts. -/
theorem parseSequenceSet_parts {text : String} {set : SequenceSet}
    (h : parseSequenceSet uni text = .ok set) :
    (text.toList.splitOn ',').mapM (parsePart uni) = .ok set.ranges := by
  unfold parseSequenceSet at h
  split at h
  · cases h
  · cases hranges : (text.toList.splitOn ',').mapM (parsePart uni) with
    | error e => simp [hranges, bind, Except.bind] at h
    | ok ranges =>
      have hset : (⟨ranges⟩ : SequenceSet) = set := by
        simpa [hranges, bind, Except.bind, pure, Except.pure] using h
      rw [← hset]

/-- A text selects what its parts denote just when none of them collides. -/
theorem meant_iff_apart (uni : Unicode) {text : String} {set : SequenceSet}
    (h : parseSequenceSet uni text = .ok set) {candidates : List Nat}
    (ascending : candidates.Pairwise (· < ·)) (below : ∀ n ∈ candidates, 0 < n ∧ n < star) :
    Meant uni text set candidates ↔
      ∀ largest ∈ candidates.getLast?, ∀ part ∈ text.toList.splitOn ',',
        collides uni largest part = false := by
  have hread := parseSequenceSet_parts h
  constructor
  · intro hmeant largest hlast part hpart
    obtain ⟨r, -, hr⟩ := mapM_ok_left hread hpart
    by_contra hhit
    have hit : collides uni largest part = true := by simpa using hhit
    obtain ⟨hin, hnot⟩ := collides_selects hr hit
    have hsel : largest ∈ selectNumbers ⟨[r]⟩ candidates := mem_selectNumbers.mpr
      ⟨List.mem_of_getLast? hlast, largest, hlast, r, List.mem_singleton_self r, hin⟩
    rw [hmeant.own part hpart r hr largest hsel largest hlast] at hnot
    cases hnot
  · intro apart
    have hexact : ∀ {part r}, part ∈ text.toList.splitOn ',' → parsePart uni part = .ok r →
        ∀ largest ∈ candidates.getLast?, ∀ n ∈ candidates,
          (inRange largest n r = true ↔ denotes uni largest part n = true) :=
      fun hpart hr largest hlast n hn => inRange_denotes hr
        (below largest (List.mem_of_getLast? hlast)).2 (le_getLast ascending hlast hn)
        (apart largest hlast _ hpart)
    refine ⟨selectNumbers_ascending ascending, fun n => ?_, ?_⟩
    · rw [mem_selectNumbers]
      constructor
      · rintro ⟨hn, largest, hlast, r, hmem, hin⟩
        obtain ⟨part, hpart, hr⟩ := mapM_ok_right hread hmem
        exact ⟨hn, largest, hlast, part, hpart, (hexact hpart hr largest hlast n hn).mp hin⟩
      · rintro ⟨hn, largest, hlast, part, hpart, hden⟩
        obtain ⟨r, hmem, hr⟩ := mapM_ok_left hread hpart
        exact ⟨hn, largest, hlast, r, hmem, (hexact hpart hr largest hlast n hn).mpr hden⟩
    · intro part hpart r hr n hsel largest hlast
      obtain ⟨hn, largest', hlast', r', hmem, hin⟩ := mem_selectNumbers.mp hsel
      cases Option.mem_unique hlast hlast'
      cases List.mem_singleton.mp hmem
      exact (hexact hpart hr largest hlast n hn).mp hin

theorem meant_iff_apart_reversed :
    Meant Unicode.ofAscii "4,5:3" ⟨[(4, 4), (3, 5)]⟩ [2, 3, 5] ↔
      ∀ largest ∈ [2, 3, 5].getLast?, ∀ part ∈ "4,5:3".toList.splitOn ',',
        collides Unicode.ofAscii largest part = false :=
  meant_iff_apart Unicode.ofAscii (by decide) (by decide) (by decide)

/-- `UID MOVE 4294967296` moves the newest message. -/
theorem sentinel_selects_largest :
    ∃ set, parseSequenceSet Unicode.ofAscii "4294967296" = .ok set ∧
      selectNumbers set [3, 7] = [7] ∧ ¬ Meant Unicode.ofAscii "4294967296" set [3, 7] := by
  refine ⟨⟨[(4294967296, 4294967296)]⟩, by decide, by decide, fun hmeant => ?_⟩
  obtain ⟨-, largest, hlast, part, hpart, hden⟩ := (hmeant.selected 7).mp (by decide)
  have hnone : ∀ largest ∈ [3, 7].getLast?, ∀ part ∈ "4294967296".toList.splitOn ',',
      denotes Unicode.ofAscii largest part 7 = false := by decide
  rw [hnone largest hlast part hpart] at hden
  cases hden

end

end Imap
end ImapGateway
