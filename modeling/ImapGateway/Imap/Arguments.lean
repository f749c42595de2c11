/-
What the readers of arguments raise.

The handlers catch the errors that the readers declare.  A `ValueError` comes through
where `int` refuses a text of more than 4300 digits.  It is raised only as far as the text
is read: an error in front of it is reported in its place.
-/
import ImapGateway.Imap.Labels
import ImapGateway.Imap.Sequences
import ImapGateway.Imap.Wire
import ImapGateway.Parser.Printable

namespace ImapGateway
namespace Imap

open ImapGateway.Parser
open Mailbox hiding upper

/-! ## Results -/

section

variable {α β : Type}

def Accepts (r : Except ArgError α) : Prop := ∃ a, r = .ok a

/-- It raises what no handler catches. -/
def Escapes (r : Except ArgError α) : Prop := ∃ e, r = .error e ∧ e.declared = false

theorem accepts_ok (a : α) : Accepts (.ok a : Except ArgError α) := ⟨a, rfl⟩

theorem not_accepts_error (e : ArgError) : ¬Accepts (.error e : Except ArgError α) := by
  rintro ⟨a, h⟩
  cases h

theorem not_escapes_ok (a : α) : ¬Escapes (.ok a : Except ArgError α) := by
  rintro ⟨e, h, _⟩
  cases h

theorem escapes_error_iff (e : ArgError) :
    Escapes (.error e : Except ArgError α) ↔ e.declared = false := by
  constructor
  · rintro ⟨e', h, hdeclared⟩
    cases h
    exact hdeclared
  · exact fun h => ⟨e, rfl, h⟩

theorem accepts_bind_iff {r : Except ArgError α} {f : α → Except ArgError β} :
    Accepts (r >>= f) ↔ ∃ a, r = .ok a ∧ Accepts (f a) := by
  cases r with
  | error e =>
    constructor
    · exact fun h => absurd h (not_accepts_error e)
    · rintro ⟨a, h, _⟩
      cases h
  | ok a =>
    constructor
    · exact fun h => ⟨a, rfl, h⟩
    · rintro ⟨b, h, hf⟩
      cases h
      exact hf

theorem escapes_bind_iff {r : Except ArgError α} {f : α → Except ArgError β} :
    Escapes (r >>= f) ↔ Escapes r ∨ ∃ a, r = .ok a ∧ Escapes (f a) := by
  cases r with
  | error e =>
    constructor
    · rintro ⟨e', h, hdeclared⟩
      cases h
      exact .inl ⟨e, rfl, hdeclared⟩
    · rintro (⟨e', h, hdeclared⟩ | ⟨a, h, _⟩)
      · cases h
        exact ⟨e, rfl, hdeclared⟩
      · cases h
  | ok a =>
    constructor
    · exact fun h => .inr ⟨a, rfl, h⟩
    · rintro (h | ⟨b, h, hf⟩)
      · exact absurd h (not_escapes_ok a)
      · cases h
        exact hf

/-- What is done with a result that is there changes nothing. -/
theorem accepts_return_iff {r : Except ArgError α} {f : α → β} :
    Accepts (do let a ← r; return f a) ↔ Accepts r := by
  rw [accepts_bind_iff]
  constructor
  · exact fun ⟨a, h, _⟩ => ⟨a, h⟩
  · exact fun ⟨a, h⟩ => ⟨a, h, accepts_ok _⟩

theorem escapes_return_iff {r : Except ArgError α} {f : α → β} :
    Escapes (do let a ← r; return f a) ↔ Escapes r := by
  rw [escapes_bind_iff]
  constructor
  · rintro (h | ⟨a, _, h⟩)
    · exact h
    · exact absurd h (not_escapes_ok _)
  · exact .inl

/-- A member has `Q`, and all members before it have `P`. -/
inductive FirstOf (P Q : α → Prop) : List α → Prop
  | here {x : α} {xs : List α} : Q x → FirstOf P Q (x :: xs)
  | later {x : α} {xs : List α} : P x → FirstOf P Q xs → FirstOf P Q (x :: xs)

theorem FirstOf.imp {P Q P' Q' : α → Prop} {xs : List α} (h : FirstOf P Q xs)
    (hP : ∀ x ∈ xs, P x → P' x) (hQ : ∀ x ∈ xs, Q x → Q' x) : FirstOf P' Q' xs := by
  induction h with
  | here hx => exact .here (hQ _ List.mem_cons_self hx)
  | later hx _ ih =>
    exact .later (hP _ List.mem_cons_self hx) (ih
      (fun y hy => hP y (List.mem_cons_of_mem _ hy)) fun y hy => hQ y (List.mem_cons_of_mem _ hy))

theorem accepts_mapM_iff {f : α → Except ArgError β} {xs : List α} :
    Accepts (xs.mapM f) ↔ ∀ x ∈ xs, Accepts (f x) := by
  induction xs with
  | nil => exact ⟨fun _ _ hx => absurd hx List.not_mem_nil, fun _ => accepts_ok _⟩
  | cons x xs ih =>
    rw [List.mapM_cons, List.forall_mem_cons, ← ih, accepts_bind_iff]
    constructor
    · rintro ⟨a, hx, hxs⟩
      exact ⟨⟨a, hx⟩, accepts_return_iff.mp hxs⟩
    · rintro ⟨⟨a, hx⟩, hxs⟩
      exact ⟨a, hx, accepts_return_iff.mpr hxs⟩

theorem escapes_mapM_iff {f : α → Except ArgError β} {xs : List α} :
    Escapes (xs.mapM f) ↔ FirstOf (fun x => Accepts (f x)) (fun x => Escapes (f x)) xs := by
  induction xs with
  | nil => exact ⟨fun h => absurd h (not_escapes_ok _), fun h => by cases h⟩
  | cons x xs ih =>
    rw [List.mapM_cons, escapes_bind_iff]
    constructor
    · rintro (h | ⟨a, hx, hxs⟩)
      · exact .here h
      · exact .later ⟨a, hx⟩ (ih.mp (escapes_return_iff.mp hxs))
    · intro h
      cases h with
      | here hx => exact .inl hx
      | later hx hxs =>
        obtain ⟨a, hx⟩ := hx
        exact .inr ⟨a, hx, escapes_return_iff.mpr (ih.mpr hxs)⟩

end

variable (uni : Unicode)

/-! ## Numbers -/

/-- A text of digits that `int` refuses. -/
def Overlong (text : List Char) : Prop :=
  uni.isDigits text = true ∧ maxIntDigits < text.length

/-- An end of a range: `*`, or a number that `int` takes and that is not 0. -/
def Numeric (text : List Char) : Prop :=
  text = ['*'] ∨ uni.isDigits text = true ∧ text.length ≤ maxIntDigits ∧ uni.number text ≠ some 0

def IsAscii (text : List Char) : Prop := ∀ ch ∈ text, ch.toNat < 128

section

variable {uni : Unicode} {text : List Char}

theorem exists_number (hascii : IsAscii text) (hdigits : uni.isDigits text = true) :
    ∃ n, uni.number text = some n := by
  have hall : ∀ ch ∈ text, uni.isDigit ch = true := by
    simp only [Unicode.isDigits, Bool.and_eq_true, List.all_eq_true] at hdigits
    exact hdigits.2
  have hvalues : ∃ ds, text.mapM uni.decimal = some ds := by
    clear hdigits
    induction text with
    | nil => exact ⟨[], rfl⟩
    | cons ch text ih =>
      obtain ⟨ds, hds⟩ := ih (fun c hc => hascii c (List.mem_cons_of_mem _ hc))
        fun c hc => hall c (List.mem_cons_of_mem _ hc)
      have hlow := hascii ch List.mem_cons_self
      have hdigit := hall ch List.mem_cons_self
      rw [uni.isDigit_ascii ch hlow] at hdigit
      have hvalue := uni.decimal_ascii ch hlow
      rw [if_pos hdigit] at hvalue
      exact ⟨(ch.toNat - 48) :: ds, by rw [List.mapM_cons, hvalue, hds]; rfl⟩
  obtain ⟨ds, hds⟩ := hvalues
  exact ⟨_, by rw [Unicode.number, hds]; rfl⟩

theorem int_accepts_iff (hascii : IsAscii text) (hdigits : uni.isDigits text = true) :
    Accepts (uni.int text) ↔ text.length ≤ maxIntDigits := by
  obtain ⟨n, hn⟩ := exists_number hascii hdigits
  simp only [Unicode.int, hn]
  by_cases hlong : maxIntDigits < text.length
  · rw [if_pos hlong]
    constructor
    · exact fun h => absurd h (not_accepts_error _)
    · omega
  · rw [if_neg hlong]
    exact ⟨fun _ => Nat.le_of_not_lt hlong, fun _ => accepts_ok n⟩

theorem int_escapes_iff (hascii : IsAscii text) (hdigits : uni.isDigits text = true) :
    Escapes (uni.int text) ↔ maxIntDigits < text.length := by
  obtain ⟨n, hn⟩ := exists_number hascii hdigits
  simp only [Unicode.int, hn]
  by_cases hlong : maxIntDigits < text.length
  · rw [if_pos hlong]
    exact ⟨fun _ => hlong, fun _ => ⟨.value, rfl, rfl⟩⟩
  · rw [if_neg hlong]
    exact ⟨fun h => absurd h (not_escapes_ok n), fun h => absurd h hlong⟩

theorem star_no_digit : uni.isDigits ['*'] = false := by
  have hstar : uni.isDigit '*' = false := uni.isDigit_ascii '*' (by decide)
  simp only [Unicode.isDigits, List.isEmpty_cons, Bool.not_false, List.all_cons, hstar,
    Bool.false_and, Bool.and_false]

theorem seqNumber_accepts_iff (hascii : IsAscii text) :
    Accepts (seqNumber uni text) ↔ Numeric uni text := by
  unfold seqNumber Numeric
  by_cases hstar : text = ['*']
  · rw [if_pos hstar]
    exact ⟨fun _ => .inl hstar, fun _ => accepts_ok _⟩
  · rw [if_neg hstar]
    by_cases hdigits : uni.isDigits text = true
    · rw [if_neg (by rw [hdigits]; exact Bool.noConfusion), accepts_bind_iff]
      constructor
      · rintro ⟨n, hn, hrest⟩
        refine .inr ⟨hdigits, (int_accepts_iff hascii hdigits).mp ⟨n, hn⟩, fun hzero => ?_⟩
        rw [uni.number_of_int hn] at hzero
        cases hzero
        exact not_accepts_error _ hrest
      · rintro (hstar' | ⟨_, hlen, hne⟩)
        · exact absurd hstar' hstar
        · obtain ⟨n, hn⟩ := (int_accepts_iff hascii hdigits).mpr hlen
          have hnumber := uni.number_of_int hn
          refine ⟨n, hn, ?_⟩
          have hpos : n ≠ 0 := fun hzero => hne (hzero ▸ hnumber)
          rw [if_neg hpos]
          exact accepts_ok n
    · rw [if_pos (by simpa using hdigits)]
      constructor
      · exact fun h => absurd h (not_accepts_error _)
      · rintro (hstar' | ⟨hdigits', _⟩)
        · exact absurd hstar' hstar
        · exact absurd hdigits' hdigits

theorem seqNumber_escapes_iff (hascii : IsAscii text) :
    Escapes (seqNumber uni text) ↔ Overlong uni text := by
  unfold seqNumber Overlong
  by_cases hstar : text = ['*']
  · rw [if_pos hstar, hstar, star_no_digit]
    exact ⟨fun h => absurd h (not_escapes_ok _), fun h => absurd h.1 Bool.noConfusion⟩
  · rw [if_neg hstar]
    by_cases hdigits : uni.isDigits text = true
    · rw [if_neg (by rw [hdigits]; exact Bool.noConfusion), escapes_bind_iff]
      constructor
      · rintro (h | ⟨n, _, hrest⟩)
        · exact ⟨hdigits, (int_escapes_iff hascii hdigits).mp h⟩
        · split at hrest
          · exact absurd ((escapes_error_iff _).mp hrest) Bool.noConfusion
          · exact absurd hrest (not_escapes_ok _)
      · exact fun h => .inl ((int_escapes_iff hascii hdigits).mpr h.2)
    · rw [if_pos (by simpa using hdigits), escapes_error_iff]
      exact ⟨Bool.noConfusion, fun h => absurd h.1 hdigits⟩

end

/-! ## Sequence sets -/

/-- A part of a sequence set that can be read. -/
def PartReads (part : List Char) : Prop :=
  part ≠ [] ∧ (partition part).2 ≠ some [] ∧ Numeric uni (ends part).1 ∧ Numeric uni (ends part).2

/-- A part with an overlong end, behind an end that can be read if it is the second. -/
def PartFault (part : List Char) : Prop :=
  part ≠ [] ∧ (partition part).2 ≠ some [] ∧
    (Overlong uni (ends part).1 ∨ Numeric uni (ends part).1 ∧ Overlong uni (ends part).2)

def SetReads (text : List Char) : Prop := ∀ part ∈ text.splitOn ',', PartReads uni part

/-- The first part of a set that cannot be read has an overlong end. -/
def SetFault (text : List Char) : Prop :=
  FirstOf (PartReads uni) (PartFault uni) (text.splitOn ',')

section

variable {uni : Unicode} {part text : List Char}

theorem ends_ascii (h : IsAscii part) : IsAscii (ends part).1 ∧ IsAscii (ends part).2 := by
  have hlo : IsAscii (partition part).1 := fun ch hch => h ch ((List.takeWhile_sublist _).subset hch)
  refine ⟨hlo, ?_⟩
  show IsAscii ((partition part).2.getD (partition part).1)
  cases hhi : (partition part).2 with
  | none => exact hlo
  | some hi =>
    have hdrop : part.dropWhile (· ≠ ':') ≠ [] ∧ ∃ c, part.dropWhile (· ≠ ':') = c :: hi := by
      simp only [partition] at hhi
      split at hhi
      · cases hhi
      · rename_i c rest heq
        cases hhi
        exact ⟨by rw [heq]; exact List.cons_ne_nil _ _, c, heq⟩
    obtain ⟨_, c, hc⟩ := hdrop
    intro ch hch
    apply h ch
    apply (List.dropWhile_sublist _).subset
    rw [hc]
    exact List.mem_cons_of_mem _ hch

/-- What `parsePart` comes to: its ends are read one after the other. -/
theorem parsePart_eq (hne : part ≠ []) (hcolon : (partition part).2 ≠ some []) :
    ∃ f : Nat → Nat → Nat × Nat, (Accepts (parsePart uni part) ↔
      Accepts (do let lo ← seqNumber uni (ends part).1
                  let hi ← seqNumber uni (ends part).2
                  return f lo hi)) ∧
      (Escapes (parsePart uni part) ↔
      Escapes (do let lo ← seqNumber uni (ends part).1
                  let hi ← seqNumber uni (ends part).2
                  return f lo hi)) := by
  unfold parsePart ends
  rw [if_neg hne]
  cases hpart : partition part with
  | mk lo hi =>
    rw [hpart] at hcolon
    cases hi with
    | some hi =>
      cases hi with
      | nil => exact absurd rfl hcolon
      | cons c hi => exact ⟨fun lo hi => if hi < lo then (hi, lo) else (lo, hi), Iff.rfl, Iff.rfl⟩
    | none =>
      refine ⟨fun lo _ => (lo, lo), ?_, ?_⟩
      · cases hlo : seqNumber uni lo with
        | error e => simp only [Option.getD_none, hlo]; rfl
        | ok n => simp only [Option.getD_none, hlo]; rfl
      · cases hlo : seqNumber uni lo with
        | error e => simp only [Option.getD_none, hlo]; rfl
        | ok n => simp only [Option.getD_none, hlo]; rfl

theorem parsePart_accepts_iff (hascii : IsAscii part) :
    Accepts (parsePart uni part) ↔ PartReads uni part := by
  unfold PartReads
  by_cases hne : part = []
  · rw [parsePart, if_pos hne]
    exact ⟨fun h => absurd h (not_accepts_error _), fun h => absurd hne h.1⟩
  · by_cases hcolon : (partition part).2 = some []
    · have hp : partition part = ((partition part).1, some []) := Prod.ext rfl hcolon
      rw [parsePart, if_neg hne, hp]
      exact ⟨fun h => absurd h (not_accepts_error _), fun h => absurd rfl h.2.1⟩
    · obtain ⟨f, haccepts, -⟩ := @parsePart_eq uni part hne hcolon
      obtain ⟨hlo, hhi⟩ := ends_ascii hascii
      rw [haccepts, accepts_bind_iff, ← seqNumber_accepts_iff hlo, ← seqNumber_accepts_iff hhi]
      constructor
      · rintro ⟨lo, hlo, hrest⟩
        exact ⟨hne, hcolon, ⟨lo, hlo⟩, accepts_return_iff.mp hrest⟩
      · rintro ⟨_, _, ⟨lo, hlo⟩, hhi⟩
        exact ⟨lo, hlo, accepts_return_iff.mpr hhi⟩

theorem parsePart_escapes_iff (hascii : IsAscii part) :
    Escapes (parsePart uni part) ↔ PartFault uni part := by
  unfold PartFault
  by_cases hne : part = []
  · rw [parsePart, if_pos hne, escapes_error_iff]
    exact ⟨Bool.noConfusion, fun h => absurd hne h.1⟩
  · by_cases hcolon : (partition part).2 = some []
    · have hp : partition part = ((partition part).1, some []) := Prod.ext rfl hcolon
      rw [parsePart, if_neg hne, hp]
      exact ⟨fun h => absurd ((escapes_error_iff _).mp h) Bool.noConfusion,
        fun h => absurd rfl h.2.1⟩
    · obtain ⟨f, -, hescapes⟩ := @parsePart_eq uni part hne hcolon
      obtain ⟨hlo, hhi⟩ := ends_ascii hascii
      rw [hescapes, escapes_bind_iff, ← seqNumber_accepts_iff hlo, ← seqNumber_escapes_iff hlo,
        ← seqNumber_escapes_iff hhi]
      constructor
      · rintro (h | ⟨lo, hlo, hrest⟩)
        · exact ⟨hne, hcolon, .inl h⟩
        · exact ⟨hne, hcolon, .inr ⟨⟨lo, hlo⟩, escapes_return_iff.mp hrest⟩⟩
      · rintro ⟨_, _, h | ⟨⟨lo, hlo⟩, hhi⟩⟩
        · exact .inl h
        · exact .inr ⟨lo, hlo, escapes_return_iff.mpr hhi⟩

/-- The parts of a text have its characters. -/
theorem splitOn_ascii (h : IsAscii text) {part : List Char} (hp : part ∈ text.splitOn ',') :
    IsAscii part := by
  intro ch hch
  apply h ch
  have hmem : ch ∈ (text.splitOn ',').flatten := List.mem_flatten.mpr ⟨part, hp, hch⟩
  have hjoin : text = [','].intercalate (text.splitOn ',') := (List.intercalate_splitOn ..).symm
  rw [hjoin]
  revert hmem
  generalize text.splitOn ',' = parts
  induction parts with
  | nil => exact fun h => h
  | cons p ps ih =>
    intro hmem
    rw [List.flatten_cons, List.mem_append] at hmem
    cases ps with
    | nil => simpa using hmem
    | cons q qs =>
      rw [List.intercalate_cons_cons]
      rcases hmem with hmem | hmem
      · exact List.mem_append_left _ (List.mem_append_left _ hmem)
      · exact List.mem_append_right _ (ih hmem)

theorem partReads_nil : ¬PartReads uni [] := fun h => h.1 rfl

theorem parseSequenceSet_accepts_iff (hascii : IsAscii text) :
    Accepts (parseSequenceSet uni (String.ofList text)) ↔ SetReads uni text := by
  unfold parseSequenceSet SetReads
  rw [String.toList_ofList]
  by_cases hne : text = []
  · rw [if_pos hne, hne]
    constructor
    · exact fun h => absurd h (not_accepts_error _)
    · intro h
      exact absurd (h [] (by simp)) partReads_nil
  · rw [if_neg hne, accepts_return_iff, accepts_mapM_iff]
    exact forall₂_congr fun part hp => parsePart_accepts_iff (splitOn_ascii hascii hp)

theorem parseSequenceSet_escapes_iff (hascii : IsAscii text) :
    Escapes (parseSequenceSet uni (String.ofList text)) ↔ SetFault uni text := by
  unfold parseSequenceSet SetFault
  rw [String.toList_ofList]
  by_cases hne : text = []
  · rw [if_pos hne, hne, escapes_error_iff]
    constructor
    · exact Bool.noConfusion
    · intro h
      rw [List.splitOn_nil] at h
      cases h with
      | here h => exact absurd rfl h.1
      | later h _ => exact absurd h partReads_nil
  · rw [if_neg hne, escapes_return_iff, escapes_mapM_iff]
    constructor
    · exact fun h => h.imp
        (fun p hp => (parsePart_accepts_iff (splitOn_ascii hascii hp)).mp)
        fun p hp => (parsePart_escapes_iff (splitOn_ascii hascii hp)).mp
    · exact fun h => h.imp
        (fun p hp => (parsePart_accepts_iff (splitOn_ascii hascii hp)).mpr)
        fun p hp => (parsePart_escapes_iff (splitOn_ascii hascii hp)).mpr

end

/-! ## Atoms -/

theorem asText_ascii {value : Octets} (h : ∀ ch ∈ value, isPrintable ch = true) :
    IsAscii (asText value).toList := by
  intro ch hch
  rw [asText, String.toList_ofList] at hch
  obtain ⟨c, hc, rfl⟩ := List.mem_map.mp hch
  have hprintable := h c hc
  simp only [isPrintable, Bool.and_eq_true, decide_eq_true_eq] at hprintable
  have hhigh : c.toNat ≤ 126 := UInt8.le_iff_toNat_le.mp hprintable.2
  rw [toNat_ofNat_octet]
  omega

section

variable {uni : Unicode} {value : Octets}

theorem parseSequenceSet_atom_accepts_iff (h : ∀ ch ∈ value, isPrintable ch = true) :
    Accepts (parseSequenceSet uni (asText value)) ↔ SetReads uni (asText value).toList := by
  rw [← parseSequenceSet_accepts_iff (asText_ascii h), String.ofList_toList]

theorem parseSequenceSet_atom_escapes_iff (h : ∀ ch ∈ value, isPrintable ch = true) :
    Escapes (parseSequenceSet uni (asText value)) ↔ SetFault uni (asText value).toList := by
  rw [← parseSequenceSet_escapes_iff (asText_ascii h), String.ofList_toList]

end

/-! ## Fetch attributes -/

/-- A section with an overlong offset or count behind it. -/
def AttrFault (name : Octets) : Prop :=
  ∃ peek text offset count, matchBody name = some (peek, text, some (offset, count)) ∧
    (maxIntDigits < offset.length ∨ maxIntDigits < count.length)

/-- The first of the names that is no fetch item has an overlong partial. -/
def FetchFault (token : Token) : Prop :=
  ∃ names, fetchNames token = .ok names ∧
    FirstOf (fun name => Accepts (parseAttr name)) AttrFault names

theorem toInt_escapes_iff (ds : Octets) : Escapes (toInt ds) ↔ maxIntDigits < ds.length := by
  unfold toInt
  by_cases hlong : maxIntDigits < ds.length
  · rw [if_pos hlong]
    exact ⟨fun _ => hlong, fun _ => ⟨.value, rfl, rfl⟩⟩
  · rw [if_neg hlong]
    exact ⟨fun h => absurd h (not_escapes_ok _), fun h => absurd h hlong⟩

theorem rangeOf_escapes_iff (range : Option (Octets × Octets)) :
    Escapes (rangeOf range) ↔ ∃ offset count, range = some (offset, count) ∧
      (maxIntDigits < offset.length ∨ maxIntDigits < count.length) := by
  cases range with
  | none =>
    constructor
    · exact fun h => absurd h (not_escapes_ok _)
    · rintro ⟨_, _, h, _⟩
      cases h
  | some r =>
    obtain ⟨offset, count⟩ := r
    show Escapes (do let o ← toInt offset; let c ← toInt count; return some (o, c)) ↔ _
    rw [escapes_bind_iff, toInt_escapes_iff]
    constructor
    · rintro (h | ⟨o, _, hrest⟩)
      · exact ⟨offset, count, rfl, .inl h⟩
      · exact ⟨offset, count, rfl, .inr ((toInt_escapes_iff count).mp (escapes_return_iff.mp hrest))⟩
    · rintro ⟨_, _, h, hlong⟩
      cases h
      by_cases hoffset : maxIntDigits < offset.length
      · exact .inl hoffset
      · have hcount := hlong.resolve_left hoffset
        refine .inr ⟨decimal offset, by rw [toInt, if_neg hoffset], ?_⟩
        exact escapes_return_iff.mpr ((toInt_escapes_iff count).mpr hcount)

theorem parseSection_not_escapes (octets : Octets) : ¬Escapes (parseSection octets) := by
  rintro ⟨e, h, hdeclared⟩
  unfold parseSection at h
  split at h
  · cases h
  · split at h
    · cases h
    · split at h
      · cases h
      · split at h
        · split at h
          · cases h
            cases hdeclared
          · cases h
        · split at h
          · cases h
            cases hdeclared
          · cases h
            cases hdeclared

/-- A section is no other fetch item. -/
theorem upper_of_matchBody {name : Octets} {r : Bool × Octets × Option (Octets × Octets)}
    (h : matchBody name = some r) : ascii "BODY.PEEK[" <+: upper name ∨ ascii "BODY[" <+: upper name := by
  unfold matchBody at h
  by_cases hpeek : ascii "BODY.PEEK[" <+: upper name
  · exact .inl hpeek
  · by_cases hbody : ascii "BODY[" <+: upper name
    · exact .inr hbody
    · simp only [if_neg hpeek, if_neg hbody] at h
      cases h

theorem parseAttr_escapes_iff (name : Octets) : Escapes (parseAttr name) ↔ AttrFault name := by
  by_cases hmatch : ∃ r, matchBody name = some r
  · obtain ⟨⟨peek, text, range⟩, hr⟩ := hmatch
    have hplain : ∀ other ∈ [ascii "UID", ascii "FLAGS", ascii "INTERNALDATE", ascii "RFC822.SIZE",
        ascii "RFC822", ascii "RFC822.HEADER", ascii "RFC822.TEXT", ascii "ENVELOPE",
        ascii "BODYSTRUCTURE", ascii "BODY"], upper name ≠ other := by
      intro other hother heq
      have hstart := upper_of_matchBody hr
      rw [heq] at hstart
      clear heq hr
      revert other
      decide
    simp only [List.forall_mem_cons, List.not_mem_nil, false_implies, implies_true, and_true]
      at hplain
    obtain ⟨h₁, h₂, h₃, h₄, h₅, h₆, h₇, h₈, h₉, h₁₀⟩ := hplain
    simp only [parseAttr, h₁, h₂, h₃, h₄, h₅, h₆, h₇, h₈, h₉, h₁₀, or_self, if_false, hr]
    rw [bodyAttr, escapes_bind_iff, rangeOf_escapes_iff]
    constructor
    · rintro (⟨offset, count, rfl, hlong⟩ | ⟨range', _, hrest⟩)
      · exact ⟨peek, text, offset, count, hr, hlong⟩
      · exact absurd (escapes_return_iff.mp hrest) (parseSection_not_escapes _)
    · rintro ⟨_, _, offset, count, hr', hlong⟩
      rw [hr] at hr'
      cases hr'
      exact .inl ⟨offset, count, rfl, hlong⟩
  · constructor
    · rintro ⟨e, he, hdeclared⟩
      have hread := attrRead_parseAttr name
      rw [he] at hread
      cases hread with
      | unsupported text => cases hdeclared
      | malformed _ => cases hdeclared
      | body h _ => exact absurd ⟨_, h⟩ hmatch
    · rintro ⟨peek, text, offset, count, h, _⟩
      exact absurd ⟨_, h⟩ hmatch

/-- The names of a list are its atoms. -/
theorem atoms_not_escape (items : List Token) : ¬Escapes (items.mapM fun item => match item with
    | .atom value => .ok value
    | _ => .error (.fetchSyntax "fetch attributes must be atoms")) := by
  rw [escapes_mapM_iff]
  intro hfirst
  induction hfirst with
  | @here item _ hitem =>
    cases item with
    | atom value => exact not_escapes_ok _ hitem
    | _ => exact absurd ((escapes_error_iff _).mp hitem) Bool.noConfusion
  | later _ _ ih => exact ih

theorem fetchNames_not_escapes (token : Token) : ¬Escapes (fetchNames token) := by
  intro h
  cases token with
  | list items =>
    rw [fetchNames, escapes_bind_iff] at h
    rcases h with hatoms | ⟨names, _, hempty⟩
    · exact atoms_not_escape items hatoms
    · by_cases hnil : names = []
      · rw [if_pos hnil, escapes_error_iff] at hempty
        cases hempty
      · rw [if_neg hnil] at hempty
        exact not_escapes_ok _ hempty
  | atom value =>
    rw [fetchNames] at h
    split at h
    · exact not_escapes_ok _ h
    · split at h
      · exact absurd ((escapes_error_iff _).mp h) Bool.noConfusion
      · exact not_escapes_ok _ h
  | _ => exact absurd ((escapes_error_iff _).mp h) Bool.noConfusion

theorem parseFetchAttributes_escapes_iff (token : Token) :
    Escapes (parseFetchAttributes token) ↔ FetchFault token := by
  unfold parseFetchAttributes FetchFault
  rw [escapes_bind_iff]
  constructor
  · rintro (h | ⟨names, hnames, hrest⟩)
    · exact absurd h (fetchNames_not_escapes token)
    · exact ⟨names, hnames, (escapes_mapM_iff.mp (escapes_return_iff.mp hrest)).imp
        (fun _ _ h => h) fun name _ => (parseAttr_escapes_iff name).mp⟩
  · rintro ⟨names, hnames, hfirst⟩
    exact .inr ⟨names, hnames, escapes_return_iff.mpr (escapes_mapM_iff.mpr (hfirst.imp
      (fun _ _ h => h) fun name _ => (parseAttr_escapes_iff name).mpr))⟩

end Imap
end ImapGateway
