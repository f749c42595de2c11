/-
What the words of a search stand for.

Texts, numbers, sequence sets and dates are described as they are written, and the readers
are proved to read exactly that.  Dates are the exception: the pattern lets a line feed
stand behind the year, and takes any decimal digits.
-/
import ImapGateway.Imap.Keys
import ImapGateway.Imap.UidSets

namespace ImapGateway
namespace Imap

open ImapGateway.Parser
open Mailbox hiding upper

/-! ## Numbers and sets -/

/-- Decimal digits, no more than `int` takes, write a number. -/
structure Writes (text : List Char) (n : Nat) : Prop where
  ne_nil : text ≠ []
  digits : ∀ ch ∈ text, ch.isDigit = true
  short : text.length ≤ maxIntDigits
  value : Nat.ofDigitChars 10 text 0 = n

/-- An end of a range; `2 ^ 32` stands for `*`. -/
inductive SetEnd : List Char → Nat → Prop
  | star : SetEnd ['*'] star
  | number {text : List Char} {n : Nat} (h : Writes text n) (pos : n ≠ 0) : SetEnd text n

inductive SetPart : List Char → Nat × Nat → Prop
  | single {text : List Char} {n : Nat} (h : SetEnd text n) : SetPart text (n, n)
  | range {lo hi : List Char} {m n : Nat} (hlo : SetEnd lo m) (hhi : SetEnd hi n) :
      SetPart (lo ++ ':' :: hi) (min m n, max m n)

/-- Parts with commas between them. -/
def SetText (text : List Char) (ranges : List (Nat × Nat)) : Prop :=
  ∃ parts, parts ≠ [] ∧ text = [','].intercalate parts ∧ List.Forall₂ SetPart parts ranges

section

variable {uni : Unicode} {text part : List Char} {n : Nat}

theorem int_eq_ok_iff (hascii : IsAscii text) :
    (uni.isDigits text = true ∧ uni.int text = .ok n) ↔ Writes text n := by
  constructor
  · rintro ⟨hdigits, hint⟩
    have hshort := (int_accepts_iff hascii hdigits).mp ⟨n, hint⟩
    rw [Unicode.isDigits, Bool.and_eq_true, List.all_eq_true] at hdigits
    have hall : ∀ ch ∈ text, ch.isDigit = true := fun ch hch => by
      rw [← uni.isDigit_ascii ch (hascii ch hch)]
      exact hdigits.2 ch hch
    have hnumber := uni.number_of_int hint
    rw [number_of_isDigit hall] at hnumber
    exact ⟨by simpa using hdigits.1, hall, hshort, Option.some.inj hnumber⟩
  · rintro ⟨hne, hall, hshort, hvalue⟩
    refine ⟨isDigits_of_isDigit hne hall, ?_⟩
    rw [Unicode.int, number_of_isDigit hall, hvalue]
    simp only [if_neg (Nat.not_lt.mpr hshort)]

theorem Writes.notMem (h : Writes text n) {ch : Char} (hch : ch.isDigit = false) : ch ∉ text := by
  intro hmem
  rw [h.digits ch hmem] at hch
  cases hch

theorem SetEnd.notMem (h : SetEnd text n) {ch : Char} (hch : ch.isDigit = false) (hstar : ch ≠ '*') :
    ch ∉ text := by
  cases h with
  | star => simpa using hstar
  | number h _ => exact h.notMem hch

theorem SetEnd.ne_nil (h : SetEnd text n) : text ≠ [] := by
  cases h with
  | star => exact List.cons_ne_nil _ _
  | number h _ => exact h.ne_nil

theorem seqNumber_eq_ok_iff (hascii : IsAscii text) :
    seqNumber uni text = .ok n ↔ SetEnd text n := by
  rw [seqNumber]
  by_cases hstar : text = ['*']
  · rw [if_pos hstar, hstar]
    constructor
    · intro h
      cases h
      exact .star
    · intro h
      cases h with
      | star => rfl
      | number h _ => exact absurd (h.digits '*' List.mem_cons_self) (by decide)
  · rw [if_neg hstar]
    by_cases hdigits : uni.isDigits text = true
    · rw [hdigits, if_neg Bool.noConfusion, bind_eq_ok_iff]
      constructor
      · rintro ⟨value, hint, hrest⟩
        split at hrest
        · cases hrest
        · rename_i hpos
          cases hrest
          exact .number ((int_eq_ok_iff hascii).mp ⟨hdigits, hint⟩) hpos
      · intro h
        cases h with
        | star => exact absurd rfl hstar
        | number h hpos =>
          refine ⟨n, ((int_eq_ok_iff hascii).mpr h).2, ?_⟩
          rw [if_neg hpos]
          rfl
    · rw [if_pos (by simpa using hdigits)]
      constructor
      · intro h
        cases h
      · intro h
        cases h with
        | star => exact absurd rfl hstar
        | number h _ => exact absurd (isDigits_of_isDigit h.ne_nil h.digits) hdigits

theorem partition_eq_none {lo : List Char} (h : partition part = (lo, none)) : part = lo := by
  by_cases hmem : ':' ∈ part
  · obtain ⟨before, behind, rfl, hbefore⟩ := List.eq_append_cons_of_mem hmem
    rw [partition_colon hbefore] at h
    cases h
  · rw [partition_plain hmem] at h
    cases h
    rfl

theorem partition_eq_some {lo hi : List Char} (h : partition part = (lo, some hi)) :
    part = lo ++ ':' :: hi := by
  by_cases hmem : ':' ∈ part
  · obtain ⟨before, behind, rfl, hbefore⟩ := List.eq_append_cons_of_mem hmem
    rw [partition_colon hbefore] at h
    cases h
    rfl
  · rw [partition_plain hmem] at h
    cases h

theorem parsePart_eq_ok_iff (hascii : IsAscii part) {r : Nat × Nat} :
    parsePart uni part = .ok r ↔ SetPart part r := by
  constructor
  · intro h
    unfold parsePart at h
    split at h
    · cases h
    · split at h
      · cases h
      · rename_i lo hi _ hpart
        obtain rfl := partition_eq_some hpart
        obtain ⟨m, hm, hrest⟩ := bind_eq_ok_iff.mp h
        obtain ⟨n, hn, hr⟩ := bind_eq_ok_iff.mp hrest
        have hlo := (seqNumber_eq_ok_iff fun ch hch => hascii ch (List.mem_append_left _ hch)).mp hm
        have hhi := (seqNumber_eq_ok_iff fun ch hch =>
          hascii ch (List.mem_append_right _ (List.mem_cons_of_mem _ hch))).mp hn
        have heq : r = (min m n, max m n) := by
          cases hr
          split
          · rw [min_eq_right (by omega), max_eq_left (by omega)]
          · rw [min_eq_left (by omega), max_eq_right (by omega)]
        rw [heq]
        exact .range hlo hhi
      · rename_i lo hpart
        obtain rfl := partition_eq_none hpart
        obtain ⟨n, hn, hr⟩ := bind_eq_ok_iff.mp h
        cases hr
        exact .single ((seqNumber_eq_ok_iff hascii).mp hn)
  · intro h
    cases h with
    | @single _ n h =>
      have hn := (@seqNumber_eq_ok_iff uni _ _ hascii).mpr h
      rw [parsePart, if_neg h.ne_nil, partition_plain (h.notMem (by decide) (by decide))]
      show (do let lo ← seqNumber uni part; return (lo, lo)) = _
      rw [hn]
      rfl
    | @range lo hi m n hlo hhi =>
      have hm := (@seqNumber_eq_ok_iff uni _ _
        fun ch hch => hascii ch (List.mem_append_left _ hch)).mpr hlo
      have hn := (@seqNumber_eq_ok_iff uni _ _ fun ch hch =>
        hascii ch (List.mem_append_right _ (List.mem_cons_of_mem _ hch))).mpr hhi
      obtain ⟨c, cs, hc⟩ := List.exists_cons_of_ne_nil hhi.ne_nil
      rw [parsePart, if_neg (by simp), partition_colon (hlo.notMem (by decide) (by decide))]
      rw [hc] at hn ⊢
      show (do
        let lo ← seqNumber uni lo
        let hi ← seqNumber uni (c :: cs)
        return if hi < lo then (hi, lo) else (lo, hi)) = _
      rw [hm, hn]
      show Except.ok (if n < m then (n, m) else (m, n)) = _
      split
      · rw [min_eq_right (by omega), max_eq_left (by omega)]
      · rw [min_eq_left (by omega), max_eq_right (by omega)]

theorem SetPart.ne_nil {r : Nat × Nat} (h : SetPart part r) : part ≠ [] := by
  cases h with
  | single h => exact h.ne_nil
  | range _ _ => simp

theorem SetPart.comma_notMem {r : Nat × Nat} (h : SetPart part r) : ',' ∉ part := by
  cases h with
  | single h => exact h.notMem (by decide) (by decide)
  | range hlo hhi =>
    intro hmem
    rcases List.mem_append.mp hmem with hmem | hmem
    · exact hlo.notMem (by decide) (by decide) hmem
    · rcases List.mem_cons.mp hmem with heq | hmem
      · cases heq
      · exact hhi.notMem (by decide) (by decide) hmem

theorem mapM_eq_ok_iff {α β : Type} {f : α → Except ArgError β} {xs : List α} {ys : List β} :
    xs.mapM f = .ok ys ↔ List.Forall₂ (fun x y => f x = .ok y) xs ys := by
  induction xs generalizing ys with
  | nil =>
    constructor
    · intro h
      cases h
      exact .nil
    · intro h
      cases h
      rfl
  | cons x xs ih =>
    constructor
    · intro h
      obtain ⟨y, rest, hy, hrest, rfl⟩ := mapM_ok_cons h
      exact .cons hy (ih.mp hrest)
    · intro h
      cases h with
      | cons hy hrest =>
        rw [List.mapM_cons, hy, ih.mpr hrest]
        rfl

theorem parseSequenceSet_eq_ok_iff {text : String} (hascii : IsAscii text.toList)
    {set : SequenceSet} : parseSequenceSet uni text = .ok set ↔ SetText text.toList set.ranges := by
  rw [parseSequenceSet]
  constructor
  · intro h
    split at h
    · cases h
    · obtain ⟨ranges, hranges, hset⟩ := bind_eq_ok_iff.mp h
      cases hset
      have hparts := (List.forall₂_and_left _ _).mpr
        ⟨fun part hpart => splitOn_ascii hascii hpart, mapM_eq_ok_iff.mp hranges⟩
      refine ⟨text.toList.splitOn ',', List.splitOn_ne_nil _ _, ?_, ?_⟩
      · exact (List.intercalate_splitOn ..).symm
      · exact hparts.imp fun part r hr => (parsePart_eq_ok_iff hr.1).mp hr.2
  · rintro ⟨parts, hne, htext, hparts⟩
    have hcomma : ∀ part ∈ parts, ',' ∉ part := by
      clear htext hne
      generalize set.ranges = ranges at hparts
      induction hparts with
      | nil => exact by simp
      | cons h _ ih => exact List.forall_mem_cons.mpr ⟨h.comma_notMem, ih⟩
    have hsplit : text.toList.splitOn ',' = parts := by
      rw [htext, List.splitOn_intercalate _ hcomma hne]
    have hnonempty : text.toList ≠ [] := by
      intro hnil
      rw [hnil, List.splitOn_nil] at hsplit
      rw [← hsplit] at hparts
      generalize set.ranges = ranges at hparts
      cases hparts with
      | cons h _ => exact h.ne_nil rfl
    have hread : parts.mapM (parsePart uni) = .ok set.ranges := by
      rw [mapM_eq_ok_iff]
      have hall := (List.forall₂_and_left _ _).mpr
        ⟨fun part hpart => splitOn_ascii hascii (hsplit.symm ▸ hpart), hparts⟩
      exact hall.imp fun part r hr => (parsePart_eq_ok_iff hr.1).mpr hr.2
    rw [if_neg hnonempty, hsplit, hread]
    rfl

end

/-! ## Texts -/

/-- A token carries a text in UTF-8. -/
def TextOf (tok : Token) (text : String) : Prop :=
  astringBytes tok = some text.toUTF8.data.toList

theorem fromUTF8_eq_some_iff {octets : Octets} {text : String} :
    String.fromUTF8? ⟨octets.toArray⟩ = some text ↔ octets = text.toUTF8.data.toList := by
  constructor
  · intro h
    unfold String.fromUTF8? at h
    split at h
    · cases h
      rfl
    · cases h
  · rintro rfl
    have hvalid : String.fromUTF8? text.toUTF8 = some text := by
      unfold String.fromUTF8?
      rw [String.toUTF8_eq_toByteArray, dif_pos text.isValidUTF8]
      rfl
    rw [Array.toArray_toList]
    exact hvalid

theorem textOf_eq_ok_iff {tok : Token} {text : String} :
    textOf tok = .ok text ↔ TextOf tok text := by
  rw [textOf, TextOf]
  cases astringBytes tok with
  | none => exact ⟨(by simp), (by simp)⟩
  | some octets =>
    rw [Option.some.injEq, ← fromUTF8_eq_some_iff]
    dsimp only
    cases String.fromUTF8? ⟨octets.toArray⟩ with
    | none => exact ⟨(by simp), (by simp)⟩
    | some text' =>
      constructor
      · intro h
        cases h
        rfl
      · intro h
        cases h
        rfl

/-! ## Dates -/

/-- A day, the name of a month and a year, with `behind` at the end; `writes` says which texts
are numbers. -/
inductive DateText (writes : List Char → Nat → Prop) (behind : List Char) : List Char → Nat → Prop
  | intro {day month year : List Char} {d m y n : Nat} (hday : writes day d)
      (hshort : 1 ≤ day.length ∧ day.length ≤ 2)
      (hmonth : months.lookup (String.ofList (month.map Char.toLower)) = some m)
      (hyear : writes year y) (hlong : year.length = 4) (hdate : date y m d = some n) :
      DateText writes behind (day ++ '-' :: (month ++ '-' :: (year ++ behind))) n

/-- A date as the grammar has it. -/
def StrictDate (tok : Token) (n : Nat) : Prop :=
  ∃ text, TextOf tok text ∧ DateText Writes [] text.toList n

/-- A date as the pattern has it: in decimal digits of any script, and with a line feed behind
the year or without. -/
def LooseDate (uni : Unicode) (tok : Token) (n : Nat) : Prop :=
  ∃ text, TextOf tok text ∧ ∃ behind, (behind = [] ∨ behind = ['\n']) ∧
    DateText (fun text n => uni.number text = some n) behind text.toList n

section

variable {uni : Unicode} {text day month year : List Char} {tok : Token} {n : Nat}

theorem Writes.number (h : Writes text n) : uni.number text = some n := by
  rw [number_of_isDigit h.digits, h.value]

theorem StrictDate.loose (h : StrictDate tok n) : LooseDate uni tok n := by
  obtain ⟨text, htext, hdate⟩ := h
  refine ⟨text, htext, [], .inl rfl, ?_⟩
  generalize text.toList = chars at hdate
  cases hdate with
  | intro hday hshort hmonth hyear hlong hdate =>
    exact .intro hday.number hshort hmonth hyear.number hlong hdate

theorem mem_of_lookup {α β : Type} [BEq α] [LawfulBEq α] {entries : List (α × β)} {a : α} {b : β}
    (h : entries.lookup a = some b) : (a, b) ∈ entries := by
  obtain ⟨before, behind, rfl, _⟩ := List.lookup_eq_some_iff.mp h
  exact List.mem_append_right _ List.mem_cons_self

theorem isLetter_of_toLower {ch : Char} (h : ch.toLower.isLower = true) : isLetter ch = true := by
  unfold Char.toLower at h
  split at h
  · rename_i hupper
    rw [isLetter, Bool.or_eq_true]
    exact .inl (decide_eq_true hupper)
  · rw [isLetter, h, Bool.or_true]

/-- The name of a month has three letters. -/
theorem letters_of_month {m : Nat}
    (h : months.lookup (String.ofList (month.map Char.toLower)) = some m) :
    ∃ a b c, month = [a, b, c] ∧ [a, b, c].all isLetter = true := by
  have hmem := mem_of_lookup h
  have hnames : ∀ entry ∈ months, entry.1.toList.length = 3 ∧ entry.1.toList.all Char.isLower := by
    decide
  obtain ⟨hlen, hlower⟩ := hnames _ hmem
  rw [String.toList_ofList] at hlen hlower
  rw [List.length_map] at hlen
  rw [List.all_map] at hlower
  obtain ⟨a, b, c, rfl⟩ := List.length_eq_three.mp hlen
  refine ⟨a, b, c, rfl, List.all_eq_true.mpr fun ch hch => ?_⟩
  exact isLetter_of_toLower (List.all_eq_true.mp hlower ch hch)

theorem isSome_of_number (h : uni.number text = some n) :
    ∀ ch ∈ text, (uni.decimal ch).isSome = true := by
  obtain ⟨ds, hds, -⟩ := Option.map_eq_some_iff.mp h
  clear h
  induction text generalizing ds with
  | nil => exact nofun
  | cons ch text ih =>
    rw [List.mapM_cons] at hds
    obtain ⟨d, hd, hrest⟩ := Option.bind_eq_some_iff.mp hds
    obtain ⟨ds', hds', -⟩ := Option.bind_eq_some_iff.mp hrest
    rw [List.forall_mem_cons, hd]
    exact ⟨rfl, ih ds' hds'⟩

theorem decimal_hyphen : (uni.decimal '-').isSome = false := by
  rw [uni.decimal_ascii '-' (by decide)]
  rfl

theorem decimal_newline : (uni.decimal '\n').isSome = false := by
  rw [uni.decimal_ascii '\n' (by decide)]
  rfl

theorem int_of_number (h : uni.number text = some n) (hshort : text.length ≤ 4) :
    uni.int text = .ok n := by
  have h1 : ¬maxIntDigits < text.length := by
    have : maxIntDigits = 4300 := rfl
    omega
  rw [Unicode.int, h]
  simp only [if_neg h1]

/-- What the pattern takes, and how it takes it apart. -/
structure MatchesDate (uni : Unicode) (text day month year : List Char) : Prop where
  shape : ∃ behind, (behind = [] ∨ behind = ['\n']) ∧
    text = day ++ '-' :: (month ++ '-' :: (year ++ behind))
  short : 1 ≤ day.length ∧ day.length ≤ 2
  letters : month.length = 3 ∧ month.all isLetter = true
  long : year.length = 4
  digits : ∀ ch ∈ day ++ year, (uni.decimal ch).isSome = true

/-- `$` drops a line feed at the end, of a text that has none behind its digits. -/
theorem year_of_behind {behind : List Char} (hbehind : behind = [] ∨ behind = ['\n'])
    (hyear : ∀ ch ∈ year, (uni.decimal ch).isSome = true) :
    (if (year ++ behind).getLast? = some '\n' then (year ++ behind).dropLast
      else year ++ behind) = year := by
  rcases hbehind with rfl | rfl
  · rw [List.append_nil, if_neg]
    intro hlast
    have hnewline := hyear _ (List.mem_of_getLast? hlast)
    rw [decimal_newline] at hnewline
    cases hnewline
  · rw [List.getLast?_concat, if_pos rfl, List.dropLast_concat]

theorem matchDate_of_matches (h : MatchesDate uni text day month year) :
    matchDate uni text = some (day, month, year) := by
  obtain ⟨⟨behind, hbehind, rfl⟩, hshort, ⟨hthree, hletters⟩, hlong, hdigits⟩ := h
  obtain ⟨hday, hyear⟩ := List.forall_mem_append.mp hdigits
  obtain ⟨a, b, c, rfl⟩ := List.length_eq_three.mp hthree
  have hhyphen := @decimal_hyphen uni
  have htake : (day ++ '-' :: ([a, b, c] ++ '-' :: (year ++ behind))).takeWhile
      (fun ch => (uni.decimal ch).isSome) = day := by
    rw [List.takeWhile_append_of_pos hday, List.takeWhile_cons_of_neg (by rw [hhyphen]; decide),
      List.append_nil]
  have hdrop : (day ++ '-' :: ([a, b, c] ++ '-' :: (year ++ behind))).dropWhile
      (fun ch => (uni.decimal ch).isSome) = '-' :: a :: b :: c :: '-' :: (year ++ behind) := by
    rw [List.dropWhile_append_of_pos hday, List.dropWhile_cons_of_neg (by rw [hhyphen]; decide)]
    rfl
  have hall : year.all (fun ch => (uni.decimal ch).isSome) = true := List.all_eq_true.mpr hyear
  unfold matchDate
  simp only [htake, hdrop]
  rw [year_of_behind hbehind hyear, if_pos ⟨hshort.1, hshort.2, hletters, hlong, hall⟩]

theorem exists_behind (text : List Char) : ∃ behind, (behind = [] ∨ behind = ['\n']) ∧
    text = (if text.getLast? = some '\n' then text.dropLast else text) ++ behind := by
  by_cases hlast : text.getLast? = some '\n'
  · obtain ⟨front, rfl⟩ := List.getLast?_eq_some_iff.mp hlast
    refine ⟨['\n'], .inr rfl, ?_⟩
    rw [if_pos hlast, List.dropLast_concat]
  · refine ⟨[], .inl rfl, ?_⟩
    rw [if_neg hlast, List.append_nil]

theorem matches_of_matchDate (h : matchDate uni text = some (day, month, year)) :
    MatchesDate uni text day month year := by
  have hsplit := List.takeWhile_append_dropWhile (p := fun ch => (uni.decimal ch).isSome)
    (l := text)
  unfold matchDate at h
  simp only at h
  split at h
  · rename_i a b c year' hdrop
    obtain ⟨behind, hbehind, hyear⟩ := exists_behind year'
    generalize (if year'.getLast? = some '\n' then year'.dropLast else year') = front at h hyear
    split at h
    · rename_i hcond
      obtain ⟨h1, h2, hletters, hlong, hdigits⟩ := hcond
      cases h
      rw [hdrop, hyear] at hsplit
      refine ⟨⟨behind, hbehind, hsplit.symm⟩, ⟨h1, h2⟩, ⟨rfl, hletters⟩, hlong, ?_⟩
      rw [List.forall_mem_append]
      exact ⟨fun ch hch => List.mem_takeWhile_imp (p := fun ch => (uni.decimal ch).isSome) hch,
        List.all_eq_true.mp hdigits⟩
    · cases h
  · cases h

theorem LooseDate.read (h : LooseDate uni tok n) : dateOf uni tok = .ok n := by
  obtain ⟨text, htext, behind, hbehind, hdate⟩ := h
  rw [dateOf, textOf_eq_ok_iff.mpr htext]
  generalize hchars : text.toList = chars at hdate
  cases hdate with
  | @intro day month year d m y _ hday hshort hmonth hyear hlong hdate =>
    obtain ⟨a, b, c, rfl, hletters⟩ := letters_of_month hmonth
    have hmatch : MatchesDate uni text.toList day [a, b, c] year := by
      refine ⟨⟨behind, hbehind, hchars⟩, hshort, ⟨rfl, hletters⟩, hlong, ?_⟩
      rw [List.forall_mem_append]
      exact ⟨isSome_of_number hday, isSome_of_number hyear⟩
    simp only [bind, Except.bind, matchDate_of_matches hmatch, hmonth,
      int_of_number hyear (by omega), int_of_number hday (by omega), hdate]
    rfl

theorem looseDate_of_read (h : dateOf uni tok = .ok n) : LooseDate uni tok n := by
  rw [dateOf, bind_eq_ok_iff] at h
  obtain ⟨text, htext, h⟩ := h
  refine ⟨text, textOf_eq_ok_iff.mp htext, ?_⟩
  simp only at h
  split at h
  · cases h
  · rename_i day month year hmatch
    obtain ⟨⟨behind, hbehind, hshape⟩, hshort, _, hlong, _⟩ := matches_of_matchDate hmatch
    split at h
    · cases h
    · rename_i m hmonth
      split at h
      · rename_i y d hyear hday
        split at h
        · cases h
        · rename_i n' hdate
          cases h
          refine ⟨behind, hbehind, ?_⟩
          rw [hshape]
          exact .intro (uni.number_of_int hday) hshort hmonth (uni.number_of_int hyear) hlong hdate
      · cases h

theorem dateOf_eq_ok_iff : dateOf uni tok = .ok n ↔ LooseDate uni tok n :=
  ⟨looseDate_of_read, LooseDate.read⟩

end

/-! ## What the keys take -/

/-- A token is spelled as a key takes it, for the value that it gets; `dates` says which tokens
are dates. -/
def Kind.Spelled (uni : Unicode) (dates : Token → Nat → Prop) :
    (kind : Kind) → Token → kind.Value → Prop
  | .text, tok, given => TextOf tok given
  | .needle, tok, folded => ∃ given, TextOf tok given ∧ uni.casefold given = folded
  | .set, .atom value, v => SetText (asText value).toList (SequenceSet.ranges v)
  | .date, tok, n => dates tok n
  | .number, .atom value, n => Writes (asText value).toList n
  | _, _, _ => False

section

variable {uni : Unicode} {value : Octets} {n : Nat}

theorem seqset_eq_ok_iff (h : ∀ ch ∈ value, isPrintable ch = true) {set : SequenceSet} :
    seqset uni (.atom value) = .ok set ↔ SetText (asText value).toList set.ranges := by
  rw [← @parseSequenceSet_eq_ok_iff uni _ (asText_ascii h), seqset]
  split
  · rename_i heq
    rw [heq]
    exact ⟨(by simp), (by simp)⟩
  · exact Iff.rfl

theorem numberOf_eq_ok_iff (h : ∀ ch ∈ value, isPrintable ch = true) {name : String} :
    numberOf uni name (.atom value) = .ok n ↔ Writes (asText value).toList n := by
  rw [← @int_eq_ok_iff uni _ _ (asText_ascii h), numberOf]
  by_cases hdigits : uni.isDigits (asText value).toList = true
  · rw [if_pos hdigits]
    exact ⟨fun hint => ⟨hdigits, hint⟩, fun h => h.2⟩
  · rw [if_neg hdigits]
    exact ⟨(by simp), fun h => absurd h.1 hdigits⟩

/-- A key reads the tokens that are spelled as it takes them. -/
theorem Kind.read_eq_ok_iff {kind : Kind} {name : String} {tok : Token} (h : tok.Legible)
    {v : kind.Value} :
    kind.read uni name tok = .ok v ↔ kind.Spelled uni (LooseDate uni) tok v := by
  cases kind with
  | text => exact textOf_eq_ok_iff
  | needle =>
    apply bind_eq_ok_iff.trans
    constructor
    · rintro ⟨text, htext, hv⟩
      cases hv
      exact ⟨text, textOf_eq_ok_iff.mp htext, rfl⟩
    · rintro ⟨text, htext, rfl⟩
      exact ⟨text, textOf_eq_ok_iff.mpr htext, rfl⟩
  | date => exact dateOf_eq_ok_iff
  | set =>
    cases h with
    | atom hvalue => exact seqset_eq_ok_iff hvalue
    | _ => exact ⟨nofun, fun h => h.elim⟩
  | number =>
    cases h with
    | atom hvalue => exact numberOf_eq_ok_iff hvalue
    | _ => exact ⟨nofun, fun h => h.elim⟩

end

end Imap
end ImapGateway
