/-
Where the header of a message ends, and what its fields are.

A line ends with LF or CRLF, the header behind the first empty line.  A field is a line
with the lines behind it that begin with a blank or a tab.  The splitter looks for an
empty line of one kind first and of the other kind only then, and the reader of fields
takes a bare CR for the end of a line.
-/
import ImapGateway.Imap.Attributes
import ImapGateway.Stream.Cuts
import Mathlib.Data.List.TakeWhile

namespace ImapGateway
namespace Imap

open ImapGateway.Parser Cuts
open Mailbox hiding upper

/-! ## What a header is -/

def endsLine (ch : UInt8) (_ : Option UInt8) : Bool := decide (ch = 10)

/-- Lines with their ends, CRLF or LF. -/
def wireLines (octets : Bytes) : List Bytes := cut endsLine octets

def isEmptyLine (line : Bytes) : Bool := decide (line = [13, 10]) || decide (line = [10])

/-- A blank or a tab, which continues the field of the line before. -/
def folds (ch : UInt8) : Bool := decide (ch = 32) || decide (ch = 9)

/-- The fields of a header, each with the lines that continue it. -/
def fieldsOf (header : Bytes) : List Bytes := join folds (wireLines header)

/-- The last line is empty. -/
def closes (octets : Bytes) : Bool := (wireLines octets).getLast?.any isEmptyLine

/-- The shortest beginning whose last line is empty. -/
structure FirstEmpty (raw header : Bytes) : Prop where
  starts : header <+: raw
  closed : closes header = true
  shortest : ∀ other, other <+: raw → closes other = true → header.length ≤ other.length

/-- The header of a message: up to the first empty line, or all of it. -/
def IsHeader (raw header : Bytes) : Prop :=
  FirstEmpty raw header ∨ (∀ other, other <+: raw → closes other = false) ∧ header = raw

/-- The lines before the first empty one. -/
def fieldBytes (raw : Bytes) : Bytes := ((wireLines raw).takeWhile (!isEmptyLine ·)).flatten

/-- The empty line at the end of a header. -/
def separator (header : Bytes) : Bytes :=
  match (wireLines header).getLast? with
  | some line => if isEmptyLine line then line else []
  | none => []

theorem isEmptyLine_iff {line : Bytes} : isEmptyLine line = true ↔ line = [13, 10] ∨ line = [10] := by
  unfold isEmptyLine
  rw [Bool.or_eq_true, decide_eq_true_iff, decide_eq_true_iff]

theorem isEmptyLine_last {line : Bytes} (h : isEmptyLine line = true) : line.getLast? = some 10 := by
  rcases isEmptyLine_iff.mp h with rfl | rfl <;> rfl

/-- Lines are cut apart behind an LF. -/
theorem wireLines_append {xs : Bytes} (h : xs.getLast? = some 10) (ys : Bytes) :
    wireLines (xs ++ ys) = wireLines xs ++ wireLines ys := cut_append h rfl

theorem wireLines_emptyLine {line : Bytes} (h : isEmptyLine line = true) :
    wireLines line = [line] := by
  rcases isEmptyLine_iff.mp h with rfl | rfl <;> rfl

theorem wireLines_flatten (octets : Bytes) : (wireLines octets).flatten = octets :=
  cut_flatten _ _

/-- A line that another follows ends with LF. -/
theorem wireLines_last {octets : Bytes} {pre post : List Bytes} {line : Bytes}
    (h : wireLines octets = pre ++ line :: post) (hpre : pre ≠ []) :
    pre.flatten.getLast? = some 10 := by
  obtain ⟨x, y, hx, -, hends⟩ := flatten_last h hpre
  rw [hx, of_decide_eq_true hends]

/-! ## The fields of a message -/

theorem takeWhile_append_of_not {α : Type} {p : α → Bool} {xs ys : List α} {y : α}
    (h : p y = false) : (xs ++ y :: ys).takeWhile p = xs.takeWhile p := by
  rw [List.takeWhile_append]
  split
  · next hlen =>
    rw [List.takeWhile_cons_of_neg (by rw [h]; exact Bool.false_ne_true), List.append_nil,
      (List.takeWhile_prefix p).eq_of_length hlen]
  · rfl

/-- Where the fields end: at the end, or before an empty line. -/
inductive Ends (raw : Bytes) : Prop where
  | never (all : fieldBytes raw = raw) (plain : ∀ line ∈ wireLines raw, isEmptyLine line = false)
  | empty (line rest : Bytes) (empty : isEmptyLine line = true)
      (splits : raw = fieldBytes raw ++ (line ++ rest))
      (plain : ∀ line ∈ wireLines (fieldBytes raw), isEmptyLine line = false)
      (last : fieldBytes raw = [] ∨ (fieldBytes raw).getLast? = some 10)

theorem wireLines_fieldBytes (raw : Bytes) :
    wireLines (fieldBytes raw) = (wireLines raw).takeWhile (!isEmptyLine ·) :=
  cut_flatten_of_append (List.takeWhile_append_dropWhile (p := (!isEmptyLine ·))).symm

theorem fieldBytes_plain (raw : Bytes) :
    ∀ line ∈ wireLines (fieldBytes raw), isEmptyLine line = false := by
  intro line hline
  rw [wireLines_fieldBytes] at hline
  simpa using List.mem_takeWhile_imp hline

theorem fields_end (raw : Bytes) : Ends raw := by
  have hsplit := (List.takeWhile_append_dropWhile (p := (!isEmptyLine ·)) (l := wireLines raw)).symm
  cases hdrop : (wireLines raw).dropWhile (!isEmptyLine ·) with
  | nil =>
    rw [hdrop, List.append_nil] at hsplit
    have hall : fieldBytes raw = raw := by
      rw [fieldBytes, ← hsplit, wireLines_flatten]
    exact .never hall (hall ▸ fieldBytes_plain raw)
  | cons line rest =>
    rw [hdrop] at hsplit
    have hempty : isEmptyLine line = true := by
      have hnot := List.head_dropWhile_not (!isEmptyLine ·) (l := wireLines raw)
        (by rw [hdrop]; exact List.cons_ne_nil _ _)
      simpa [hdrop] using hnot
    refine .empty line rest.flatten hempty ?_ (fieldBytes_plain raw) ?_
    · rw [fieldBytes, ← List.flatten_cons, ← List.flatten_append, ← hsplit, wireLines_flatten]
    · by_cases hnil : (wireLines raw).takeWhile (!isEmptyLine ·) = []
      · exact Or.inl (by rw [fieldBytes, hnil]; rfl)
      · exact Or.inr (wireLines_last hsplit hnil)

theorem closes_iff {octets : Bytes} :
    closes octets = true ↔ ∃ pre line, isEmptyLine line = true ∧ octets = pre ++ line ∧
      (pre = [] ∨ pre.getLast? = some 10) := by
  unfold closes
  constructor
  · intro h
    cases hlast : (wireLines octets).getLast? with
    | none => simp [hlast] at h
    | some line =>
      rw [hlast] at h
      obtain ⟨init, hlines⟩ := List.getLast?_eq_some_iff.mp hlast
      refine ⟨init.flatten, line, h, ?_, ?_⟩
      · rw [← wireLines_flatten octets, hlines, List.flatten_append, List.flatten_singleton]
      · by_cases hinit : init = []
        · exact Or.inl (by rw [hinit]; rfl)
        · exact Or.inr (wireLines_last hlines hinit)
  · rintro ⟨pre, line, hline, rfl, rfl | hpre⟩
    · rw [List.nil_append, wireLines_emptyLine hline]
      exact hline
    · rw [wireLines_append hpre, wireLines_emptyLine hline, List.getLast?_concat]
      exact hline

/-- What stands before an empty line is cut from it. -/
theorem wireLines_before {pre line : Bytes} (hline : isEmptyLine line = true)
    (hpre : pre = [] ∨ pre.getLast? = some 10) (rest : Bytes) :
    wireLines (pre ++ (line ++ rest)) = wireLines pre ++ line :: wireLines rest := by
  have htail : wireLines (line ++ rest) = line :: wireLines rest := by
    rw [wireLines_append (isEmptyLine_last hline), wireLines_emptyLine hline]
    rfl
  rcases hpre with rfl | hpre
  · exact htail
  · rw [wireLines_append hpre, htail]

theorem fieldBytes_before {pre line : Bytes} (hline : isEmptyLine line = true)
    (hpre : pre = [] ∨ pre.getLast? = some 10) (rest : Bytes) :
    fieldBytes (pre ++ (line ++ rest)) = fieldBytes pre := by
  unfold fieldBytes
  rw [wireLines_before hline hpre, takeWhile_append_of_not (by rw [hline]; rfl)]

theorem emptyLine_unique {line line' rest rest' : Bytes} (h : isEmptyLine line = true)
    (h' : isEmptyLine line' = true) (heq : line ++ rest = line' ++ rest') : line = line' := by
  rcases isEmptyLine_iff.mp h with rfl | rfl <;> rcases isEmptyLine_iff.mp h' with rfl | rfl
  · rfl
  · cases heq
  · cases heq
  · rfl

/-- The fields of a beginning that holds all of them. -/
theorem fieldBytes_prefix {raw header : Bytes} (hstarts : header <+: raw)
    (hclosed : closes header = true) : fieldBytes header = fieldBytes raw := by
  obtain ⟨pre, line, hline, rfl, hpre⟩ := closes_iff.mp hclosed
  obtain ⟨rest, rfl⟩ := hstarts
  have hheader := fieldBytes_before hline hpre []
  rw [List.append_nil] at hheader
  rw [hheader, List.append_assoc, fieldBytes_before hline hpre]

theorem firstEmpty_fields {raw line rest : Bytes} (hline : isEmptyLine line = true)
    (hsplit : raw = fieldBytes raw ++ (line ++ rest))
    (hlast : fieldBytes raw = [] ∨ (fieldBytes raw).getLast? = some 10) :
    FirstEmpty raw (fieldBytes raw ++ line) := by
  refine ⟨⟨rest, by rw [List.append_assoc, ← hsplit]⟩, closes_iff.mpr ⟨_, _, hline, rfl, hlast⟩, ?_⟩
  intro other hstarts hclosed
  obtain ⟨pre, line', hline', rfl, hpre⟩ := closes_iff.mp hclosed
  obtain ⟨tail, htail⟩ := hstarts
  have hfields : fieldBytes raw = fieldBytes pre := by
    rw [← htail, List.append_assoc, fieldBytes_before hline' hpre]
  rw [List.append_assoc] at htail
  cases fields_end pre with
  | never all plain =>
    have heq : fieldBytes raw ++ (line ++ rest) = fieldBytes raw ++ (line' ++ tail) := by
      rw [← hsplit, hfields, all, htail]
    rw [hfields, all, emptyLine_unique hline hline' (List.append_cancel_left heq)]
  | empty line₂ rest₂ empty splits plain last =>
    have heq : fieldBytes raw ++ (line ++ rest) =
        fieldBytes raw ++ (line₂ ++ (rest₂ ++ (line' ++ tail))) := by
      rw [← hsplit, hfields, ← List.append_assoc line₂, ← List.append_assoc (fieldBytes pre),
        ← splits, htail]
    rw [hfields, emptyLine_unique hline empty (List.append_cancel_left heq)]
    have hlen := congrArg List.length splits
    simp only [List.length_append] at hlen ⊢
    omega

theorem not_closes_of_plain {raw : Bytes} (hplain : ∀ line ∈ wireLines raw, isEmptyLine line = false)
    {other : Bytes} (hstarts : other <+: raw) : closes other = false := by
  apply eq_false_of_ne_true
  intro hclosed
  obtain ⟨pre, line, hline, rfl, hpre⟩ := closes_iff.mp hclosed
  obtain ⟨rest, rfl⟩ := hstarts
  rw [List.append_assoc, wireLines_before hline hpre] at hplain
  have hnot := hplain line (List.mem_append_right _ List.mem_cons_self)
  rw [hline] at hnot
  cases hnot

theorem isHeader_exists (raw : Bytes) : ∃ header, IsHeader raw header := by
  cases fields_end raw with
  | never all plain =>
    exact ⟨raw, Or.inr ⟨fun _ => not_closes_of_plain plain, rfl⟩⟩
  | empty line rest empty splits plain last =>
    exact ⟨_, Or.inl (firstEmpty_fields empty splits last)⟩

theorem IsHeader.unique {raw header header' : Bytes} (h : IsHeader raw header)
    (h' : IsHeader raw header') : header = header' := by
  rcases h with h | ⟨hnone, rfl⟩
  · rcases h' with h' | ⟨hnone, rfl⟩
    · have hle := h.shortest _ h'.starts h'.closed
      have hge := h'.shortest _ h.starts h.closed
      exact (List.prefix_of_prefix_length_le h.starts h'.starts hle).eq_of_length (by omega)
    · have hopen := hnone header h.starts
      rw [h.closed] at hopen
      cases hopen
  · rcases h' with h' | ⟨-, rfl⟩
    · have hopen := hnone header' h'.starts
      rw [h'.closed] at hopen
      cases hopen
    · rfl

/-- A header is its fields and the empty line behind them. -/
theorem IsHeader.fields {raw header : Bytes} (h : IsHeader raw header) :
    header = fieldBytes raw ++ separator header ∧ fieldBytes header = fieldBytes raw := by
  cases fields_end raw with
  | never all plain =>
    have hheader : header = raw := h.unique (Or.inr ⟨fun _ => not_closes_of_plain plain, rfl⟩)
    have hsep : separator raw = [] := by
      unfold separator
      cases hlast : (wireLines raw).getLast? with
      | none => rfl
      | some line =>
        show (if isEmptyLine line = true then line else []) = []
        rw [plain line (List.mem_of_getLast? hlast)]
        rfl
    rw [hheader, hsep, all, List.append_nil]
    exact ⟨rfl, rfl⟩
  | empty line rest empty splits plain last =>
    have hfirst := firstEmpty_fields empty splits last
    have hheader : header = fieldBytes raw ++ line := h.unique (Or.inl hfirst)
    have hsep : separator header = line := by
      have hlines := wireLines_before empty last []
      rw [List.append_nil, ← hheader] at hlines
      unfold separator
      rw [hlines, List.getLast?_append]
      show (if isEmptyLine line = true then line else []) = line
      rw [empty]
      rfl
    rw [hsep, hheader]
    exact ⟨rfl, fieldBytes_prefix hfirst.starts hfirst.closed⟩

/-! ## Where the splitter looks -/

theorem findSub_le {needle u v : Octets} :
    ∃ idx, findSub needle (u ++ (needle ++ v)) = some idx ∧ idx ≤ u.length := by
  induction u with
  | nil =>
    cases h : needle ++ v with
    | nil =>
      have hneedle : needle = [] := (List.append_eq_nil_iff.mp h).1
      exact ⟨0, by rw [List.nil_append, findSub, if_pos hneedle], Nat.le_refl _⟩
    | cons ch rest =>
      exact ⟨0, by rw [List.nil_append, findSub, if_pos ⟨v, h⟩], Nat.le_refl _⟩
  | cons ch u ih =>
    obtain ⟨idx, hfind, hle⟩ := ih
    rw [List.cons_append, findSub]
    split
    · exact ⟨0, rfl, Nat.zero_le _⟩
    · rw [hfind, List.length_cons]
      exact ⟨idx + 1, rfl, by omega⟩

theorem findSub_some {needle octets : Octets} {idx : Nat} (h : findSub needle octets = some idx) :
    ∃ u v, octets = u ++ (needle ++ v) ∧ u.length = idx := by
  induction octets generalizing idx with
  | nil =>
    rw [findSub] at h
    split at h
    · next hneedle =>
      cases h
      exact ⟨[], [], by rw [hneedle]; rfl, rfl⟩
    · cases h
  | cons ch rest ih =>
    rw [findSub] at h
    split at h
    · next hbegins =>
      cases h
      obtain ⟨v, hv⟩ := hbegins
      exact ⟨[], v, hv.symm, rfl⟩
    · obtain ⟨idx', hidx, rfl⟩ := Option.map_eq_some_iff.mp h
      obtain ⟨u, v, hrest, hlen⟩ := ih hidx
      exact ⟨ch :: u, v, by rw [hrest]; rfl, by rw [List.length_cons, hlen]⟩

theorem findSub_eq_none {needle octets : Octets} :
    findSub needle octets = none ↔ ¬ needle <:+: octets := by
  constructor
  · rintro h ⟨u, v, hwithin⟩
    obtain ⟨idx, hfind, -⟩ := @findSub_le needle u v
    rw [← List.append_assoc, hwithin, h] at hfind
    cases hfind
  · intro h
    cases hfind : findSub needle octets with
    | none => rfl
    | some idx =>
      obtain ⟨u, v, hoctets, -⟩ := findSub_some hfind
      exact absurd ⟨u, v, by rw [hoctets, List.append_assoc]⟩ h

/-- The two empty lines the splitter looks for, with the end of the line before. -/
def crlfs : Octets := [13, 10, 13, 10]

def lfs : Octets := [10, 10]

/-- What the splitter finds: the first of its two marks that is there, where it is first. -/
inductive Splits (raw : Bytes) : Bytes × Bytes → Prop where
  | crlf (u v : Bytes) (splits : raw = u ++ (crlfs ++ v))
      (first : ∀ u' v', raw = u' ++ (crlfs ++ v') → u.length ≤ u'.length) :
      Splits raw (u ++ crlfs, v)
  | lf (u v : Bytes) (noCrlf : ¬ crlfs <:+: raw) (splits : raw = u ++ (lfs ++ v))
      (first : ∀ u' v', raw = u' ++ (lfs ++ v') → u.length ≤ u'.length) : Splits raw (u ++ lfs, v)
  | none (noCrlf : ¬ crlfs <:+: raw) (noLf : ¬ lfs <:+: raw) : Splits raw (raw, [])

theorem first_of_findSub {needle octets u v : Octets} (hu : octets = u ++ (needle ++ v))
    (h : findSub needle octets = some u.length) :
    octets.take (u.length + needle.length) = u ++ needle ∧
      octets.drop (u.length + needle.length) = v ∧
      ∀ u' v', octets = u' ++ (needle ++ v') → u.length ≤ u'.length := by
  refine ⟨?_, ?_, ?_⟩
  · rw [hu, ← List.append_assoc]
    exact List.take_left' (List.length_append ..)
  · rw [hu, ← List.append_assoc]
    exact List.drop_left' (List.length_append ..)
  · intro u' v' hu'
    obtain ⟨idx, hfind, hle⟩ := @findSub_le needle u' v'
    rw [← hu', h] at hfind
    cases hfind
    exact hle

theorem splitMessage_splits (raw : Bytes) : Splits raw (splitMessage raw) := by
  unfold splitMessage
  cases hcrlf : findSub [13, 10, 13, 10] raw with
  | some idx =>
    obtain ⟨u, v, hraw, hlen⟩ := findSub_some hcrlf
    rw [← hlen] at hcrlf
    obtain ⟨htake, hdrop, hfirst⟩ := first_of_findSub hraw hcrlf
    show Splits raw (raw.take (idx + crlfs.length), raw.drop (idx + crlfs.length))
    rw [← hlen, crlfs, htake, hdrop]
    exact .crlf u v hraw hfirst
  | none =>
    have hnoCrlf := findSub_eq_none.mp hcrlf
    cases hlf : findSub [10, 10] raw with
    | some idx =>
      obtain ⟨u, v, hraw, hlen⟩ := findSub_some hlf
      rw [← hlen] at hlf
      obtain ⟨htake, hdrop, hfirst⟩ := first_of_findSub hraw hlf
      show Splits raw (raw.take (idx + lfs.length), raw.drop (idx + lfs.length))
      rw [← hlen, lfs, htake, hdrop]
      exact .lf u v hnoCrlf hraw hfirst
    | none => exact .none hnoCrlf (findSub_eq_none.mp hlf)

/-- Nothing is lost between header and body. -/
theorem Splits.tiles {raw : Bytes} {r : Bytes × Bytes} (h : Splits raw r) : r.1 ++ r.2 = raw := by
  cases h with
  | crlf u v splits first => rw [splits, List.append_assoc]
  | lf u v noCrlf splits first => rw [splits, List.append_assoc]
  | none noCrlf noLf => exact List.append_nil raw

theorem closes_crlfs (u : Bytes) : closes (u ++ crlfs) = true :=
  closes_iff.mpr ⟨u ++ [13, 10], [13, 10], rfl, by rw [List.append_assoc]; rfl,
    Or.inr (by simp)⟩

theorem closes_lfs (u : Bytes) : closes (u ++ lfs) = true :=
  closes_iff.mpr ⟨u ++ [10], [10], rfl, by rw [List.append_assoc]; rfl, Or.inr (by simp)⟩

/-- The splitter stops behind an empty line, or takes all. -/
theorem Splits.closes {raw : Bytes} {r : Bytes × Bytes} (h : Splits raw r) :
    r.1 <+: raw ∧ (closes r.1 = true ∨ r.1 = raw) := by
  refine ⟨⟨r.2, h.tiles⟩, ?_⟩
  cases h with
  | crlf u v splits first => exact Or.inl (closes_crlfs u)
  | lf u v noCrlf splits first => exact Or.inl (closes_lfs u)
  | none noCrlf noLf => exact Or.inr rfl

/-- The end of the header is one that the splitter finds. -/
def Found (raw header : Bytes) : Prop :=
  crlfs <:+ header ∨ ¬ crlfs <:+: raw ∧ (lfs <:+ header ∨ ¬ lfs <:+: raw ∧ header = raw)

theorem Splits.found {raw : Bytes} {r : Bytes × Bytes} (h : Splits raw r) : Found raw r.1 := by
  cases h with
  | crlf u v splits first => exact Or.inl ⟨u, rfl⟩
  | lf u v noCrlf splits first => exact Or.inr ⟨noCrlf, Or.inl ⟨u, rfl⟩⟩
  | none noCrlf noLf => exact Or.inr ⟨noCrlf, Or.inr ⟨noLf, rfl⟩⟩

/-- A header that ends as the splitter expects is the one it finds. -/
theorem Splits.eq_of_found {raw header : Bytes} {r : Bytes × Bytes} (h : Splits raw r)
    (hheader : FirstEmpty raw header) (hfound : Found raw header) : r.1 = header := by
  have hshort : ∀ {needle u v : Bytes}, raw = u ++ (needle ++ v) →
      Imap.closes (u ++ needle) = true →
      (∀ u' v', raw = u' ++ (needle ++ v') → u.length ≤ u'.length) → needle <:+ header →
        u ++ needle = header := by
    rintro needle u v hraw hclosed hfirst ⟨u', hu'⟩
    obtain ⟨tail, htail⟩ := hheader.starts
    have hle := hfirst u' tail (by rw [← List.append_assoc, hu', htail])
    have hstarts : u ++ needle <+: raw := ⟨v, by rw [hraw, List.append_assoc]⟩
    have hge := hheader.shortest _ hstarts hclosed
    have hlen := congrArg List.length hu'
    rw [List.length_append] at hge hlen
    apply (List.prefix_of_prefix_length_le hstarts hheader.starts ?_).eq_of_length
    · rw [List.length_append]
      omega
    · rw [List.length_append]
      omega
  have hwithin : ∀ {needle : Bytes}, needle <:+ header → needle <:+: raw := fun hsuffix =>
    hsuffix.isInfix.trans hheader.starts.isInfix
  cases h with
  | crlf u v splits first =>
    rcases hfound with hcrlf | ⟨hno, -⟩
    · exact hshort splits (closes_crlfs u) first hcrlf
    · exact absurd ⟨u, v, by rw [splits, List.append_assoc]⟩ hno
  | lf u v noCrlf splits first =>
    rcases hfound with hcrlf | ⟨-, hlf | ⟨hno, -⟩⟩
    · exact absurd (hwithin hcrlf) noCrlf
    · exact hshort splits (closes_lfs u) first hlf
    · exact absurd ⟨u, v, by rw [splits, List.append_assoc]⟩ hno
  | none noCrlf noLf =>
    rcases hfound with hcrlf | ⟨-, hlf | ⟨-, hall⟩⟩
    · exact absurd (hwithin hcrlf) noCrlf
    · exact absurd (hwithin hlf) noLf
    · exact hall.symm

/-! ## How the fields are read -/

/-- `bytes.splitlines` ends a line at a bare CR as well. -/
def breaksLine (ch : UInt8) (next : Option UInt8) : Bool :=
  decide (ch = 10) || decide (ch = 13) && decide (next ≠ some 10)

theorem physicalLines_cut (octets : Bytes) : physicalLines octets = cut breaksLine octets := by
  fun_induction physicalLines octets with
  | case1 => rfl
  | case2 rest ih =>
    have hlf : cut breaksLine (10 :: rest) = [10] :: cut breaksLine rest :=
      cut_cons_of_pos (by rfl)
    rw [ih, cut_cons_of_neg (by rfl) hlf]
  | case3 rest hrest ih =>
    have hnext : rest.head? ≠ some 10 := by
      intro hhead
      obtain ⟨tail, htail⟩ := List.head?_eq_some_iff.mp hhead
      exact hrest tail htail
    rw [ih, cut_cons_of_pos]
    unfold breaksLine
    simp [hnext]
  | case4 rest _ ih => rw [ih, cut_cons_of_pos (by rfl)]
  | case5 ch rest hcr hlf hnil ih =>
    rw [ih, cut_eq_nil] at hnil
    rw [hnil, cut_singleton]
  | case6 ch rest hcr hlf line lines hcons ih =>
    rw [ih] at hcons
    rw [cut_cons_of_neg _ hcons]
    unfold breaksLine
    simp [hcr, hlf]

theorem foldLines_join {pieces : List Bytes} (h : ∀ piece ∈ pieces, piece ≠ []) (line : Bytes) :
    foldLines pieces line = join folds (line :: pieces.takeWhile (!isEmptyLine ·)) := by
  induction pieces generalizing line with
  | nil => rfl
  | cons physical rest ih =>
    have hrest := ih fun piece hp => h piece (List.mem_cons_of_mem _ hp)
    have hempty : physical = [13, 10] ∨ physical = [10] ↔ isEmptyLine physical = true :=
      isEmptyLine_iff.symm
    have hfolds : (physical.head? = some 32 ∨ physical.head? = some 9) ↔
        physical.head?.any folds = true := by
      cases physical.head? with
      | none => simp
      | some ch => simp [folds]
    rw [foldLines]
    by_cases he : isEmptyLine physical = true
    · rw [if_pos (hempty.mpr he), List.takeWhile_cons_of_neg (by rw [he]; exact Bool.false_ne_true)]
      rfl
    · rw [if_neg (fun hp => he (hempty.mp hp)), List.takeWhile_cons_of_pos (by simpa using he)]
      by_cases hf : physical.head?.any folds = true
      · rw [if_pos (hfolds.mpr hf), hrest, join_glue hf]
      · rw [if_neg (fun hp => hf (hfolds.mp hp)), hrest,
          join_cons (h physical List.mem_cons_self) (eq_false_of_ne_true hf)]

/-- The physical lines that are read before one that is empty. -/
def readLines (header : Bytes) : List Bytes := (physicalLines header).takeWhile (!isEmptyLine ·)

theorem headerLines_join (header : Bytes) : headerLines header = join folds (readLines header) := by
  unfold headerLines readLines
  have hne : ∀ piece ∈ physicalLines header, piece ≠ [] := fun piece hp =>
    ne_nil_of_mem_cut (physicalLines_cut header ▸ hp)
  cases hlines : physicalLines header with
  | nil => rfl
  | cons physical rest =>
    rw [hlines] at hne
    show (if physical = [13, 10] ∨ physical = [10] then [] else foldLines rest physical) = _
    by_cases he : isEmptyLine physical = true
    · rw [if_pos (isEmptyLine_iff.mp he),
        List.takeWhile_cons_of_neg (by rw [he]; exact Bool.false_ne_true)]
      rfl
    · rw [if_neg (fun hp => he (isEmptyLine_iff.mpr hp)),
        List.takeWhile_cons_of_pos (by simpa using he),
        foldLines_join fun piece hp => hne piece (List.mem_cons_of_mem _ hp)]

theorem physicalLines_append {xs ys : Bytes} {ch : UInt8} (hlast : xs.getLast? = some ch)
    (h : breaksLine ch ys.head? = true) :
    physicalLines (xs ++ ys) = physicalLines xs ++ physicalLines ys := by
  rw [physicalLines_cut, physicalLines_cut, physicalLines_cut, cut_append hlast h]

theorem physicalLines_emptyLine {line : Bytes} (hline : isEmptyLine line = true) (rest : Bytes) :
    physicalLines (line ++ rest) = line :: physicalLines rest := by
  rw [physicalLines_append (isEmptyLine_last hline) rfl]
  rcases isEmptyLine_iff.mp hline with rfl | rfl <;> rfl

/-- The reader of fields reads what stands before the first empty line, no more. -/
theorem readLines_fieldBytes (raw : Bytes) : readLines raw = readLines (fieldBytes raw) := by
  cases fields_end raw with
  | never all plain => rw [all]
  | empty line rest empty splits plain last =>
    have hcut : physicalLines raw =
        physicalLines (fieldBytes raw) ++ line :: physicalLines rest := by
      rcases last with hnil | hlast
      · rw [hnil] at splits ⊢
        rw [splits]
        exact physicalLines_emptyLine empty rest
      · conv => lhs; rw [splits]
        rw [physicalLines_append hlast rfl, physicalLines_emptyLine empty]
    unfold readLines
    rw [hcut, takeWhile_append_of_not (by rw [empty]; rfl)]

/-- A CR before the CRLF of a line. -/
def strayCr : Bytes := [13, 13, 10]

/-- An empty physical line that is no empty line stands behind a bare CR. -/
theorem stray_of_emptyPiece {octets line : Bytes} {pre post : List Bytes}
    (hplain : ∀ line ∈ wireLines octets, isEmptyLine line = false)
    (h : physicalLines octets = pre ++ line :: post) (hline : isEmptyLine line = true) :
    line = [13, 10] ∧ ∃ u, pre.flatten = u ++ [13] := by
  have hsplit : octets = pre.flatten ++ (line ++ post.flatten) := by
    rw [← cut_flatten breaksLine octets, ← physicalLines_cut, h, List.flatten_append,
      List.flatten_cons]
  have hnot : ¬ (pre.flatten = [] ∨ pre.flatten.getLast? = some 10) := by
    intro hpre
    rw [hsplit, wireLines_before hline hpre] at hplain
    have hfalse := hplain line (List.mem_append_right _ List.mem_cons_self)
    rw [hline] at hfalse
    cases hfalse
  by_cases hpre : pre = []
  · exact absurd (Or.inl (by rw [hpre]; rfl)) hnot
  · rw [physicalLines_cut] at h
    obtain ⟨x, y, hx, hy, hbreak⟩ := flatten_last h hpre
    unfold breaksLine at hbreak
    have hx10 : x ≠ 10 := fun heq => hnot (Or.inr (by rw [hx, heq]))
    simp only [hx10, decide_false, Bool.false_or, Bool.and_eq_true, decide_eq_true_eq] at hbreak
    obtain ⟨hx13, hy10⟩ := hbreak
    constructor
    · rcases isEmptyLine_iff.mp hline with rfl | rfl
      · rfl
      · exact absurd hy.symm hy10
    · obtain ⟨u, hu⟩ := List.getLast?_eq_some_iff.mp hx
      exact ⟨u, by rw [hu, hx13]⟩

/-- Where all lines are read, no CR strays before a CRLF. -/
theorem not_stray_of_read {octets : Bytes} (hread : (readLines octets).flatten = octets) :
    ¬ strayCr <:+: octets := by
  rintro ⟨u, v, hstray⟩
  have hlines : physicalLines octets =
      physicalLines (u ++ [13]) ++ [13, 10] :: physicalLines v := by
    have hsplit : octets = (u ++ [13]) ++ ([13, 10] ++ v) := by
      rw [← hstray, strayCr]
      simp
    have hempty : isEmptyLine [13, 10] = true := rfl
    have hlast : (u ++ [13]).getLast? = some 13 := List.getLast?_concat
    rw [hsplit, physicalLines_append hlast rfl, physicalLines_emptyLine hempty]
  have hshort : (readLines octets).flatten.length ≤ u.length + 1 := by
    have hbegins : readLines octets <+: physicalLines (u ++ [13]) := by
      unfold readLines
      rw [hlines, takeWhile_append_of_not (by rfl)]
      exact List.takeWhile_prefix _
    obtain ⟨rest, hrest⟩ := hbegins
    have hlen := congrArg (fun ls => ls.flatten.length) hrest
    simp only [List.flatten_append, List.length_append, physicalLines_cut, cut_flatten,
      List.length_singleton] at hlen
    omega
  have hlen := congrArg List.length hstray
  rw [hread] at hshort
  simp only [strayCr, List.length_append, List.length_cons, List.length_nil] at hlen
  omega

/-- Either all lines are read, or those up to a CR that strays before a CRLF. -/
theorem readLines_cases {octets : Bytes}
    (hplain : ∀ line ∈ wireLines octets, isEmptyLine line = false) :
    (readLines octets).flatten = octets ∨ ∃ u w, (readLines octets).flatten = u ++ [13] ∧
      octets = (u ++ [13]) ++ ([13, 10] ++ w) := by
  have hall : (physicalLines octets).flatten = octets := by
    rw [physicalLines_cut, cut_flatten]
  have hsplit := List.takeWhile_append_dropWhile (p := (!isEmptyLine ·)) (l := physicalLines octets)
  cases hdrop : (physicalLines octets).dropWhile (!isEmptyLine ·) with
  | nil =>
    rw [hdrop, List.append_nil] at hsplit
    exact Or.inl (by rw [readLines, hsplit, hall])
  | cons line rest =>
    have hempty : isEmptyLine line = true := by
      have hnot := List.head_dropWhile_not (!isEmptyLine ·) (l := physicalLines octets)
        (by rw [hdrop]; exact List.cons_ne_nil _ _)
      simpa [hdrop] using hnot
    rw [hdrop] at hsplit
    obtain ⟨rfl, u, hu⟩ := stray_of_emptyPiece hplain hsplit.symm hempty
    refine Or.inr ⟨u, rest.flatten, hu, ?_⟩
    rw [← hu, ← List.flatten_cons, ← List.flatten_append, hsplit, hall]

/-- All lines of the fields are read just when no CR strays before a CRLF. -/
theorem readLines_all_iff {octets : Bytes}
    (hplain : ∀ line ∈ wireLines octets, isEmptyLine line = false) :
    (readLines octets).flatten = octets ↔ ¬ strayCr <:+: octets := by
  constructor
  · exact not_stray_of_read
  · intro hstray
    rcases readLines_cases hplain with hread | ⟨u, w, -, hsplit⟩
    · exact hread
    · exact absurd ⟨u, w, by rw [hsplit, strayCr]; simp⟩ hstray

/-! ## The header of a message -/

/-- The attribute of a section, all of it. -/
def bodyOf (part : Section) (fields : List Octets) : FetchAttr :=
  { kind := .body, label := bodyLabel part fields none, part := part, fields := fields }

/-- The header ends at the first empty line, header and text make up the message, and the
fields with the empty line make up the header. -/
structure HeaderEnds (raw : Bytes) : Prop where
  tiles : (splitMessage raw).1 ++ (splitMessage raw).2 = raw
  sections : sectionBytes raw (bodyOf .header []) ++ sectionBytes raw (bodyOf .text []) =
    sectionBytes raw (bodyOf .whole [])
  header : IsHeader raw (splitMessage raw).1
  fields : (headerLines (splitMessage raw).1).flatten ++ separator (splitMessage raw).1 =
    (splitMessage raw).1

theorem stray_append_emptyLine {octets line : Bytes} (hline : isEmptyLine line = true)
    (hlast : octets = [] ∨ octets.getLast? = some 10) (h : strayCr <:+: octets ++ line) :
    strayCr <:+: octets := by
  have hcr : ¬ [13] <:+ octets := by
    rintro ⟨u, rfl⟩
    rcases hlast with hnil | hlast
    · simp at hnil
    · simp at hlast
  have htwo : ¬ [13, 13] <:+ octets := fun hsuffix =>
    hcr (List.IsSuffix.trans ⟨[13], rfl⟩ hsuffix)
  rcases isEmptyLine_iff.mp hline with rfl | rfl
  · have hsplit : octets ++ [13, 10] = (octets ++ [13]) ++ [10] := by simp
    rw [hsplit, List.infix_concat_iff, List.infix_concat_iff] at h
    rcases h with hsuffix | hsuffix | hwithin
    · rcases List.suffix_concat_iff.mp hsuffix with hnil | ⟨t, ht, hsuffix⟩
      · cases hnil
      · have heq : [13, 13] ++ [10] = t ++ [10] := ht
        have ht13 : t = [13, 13] := (List.append_inj' heq rfl).1.symm
        rw [ht13] at hsuffix
        rcases List.suffix_concat_iff.mp hsuffix with hnil | ⟨t', ht', hsuffix⟩
        · cases hnil
        · have heq : [13] ++ [13] = t' ++ [13] := ht'
          have ht'13 : t' = [13] := (List.append_inj' heq rfl).1.symm
          exact absurd (ht'13 ▸ hsuffix) hcr
    · rcases List.suffix_concat_iff.mp hsuffix with hnil | ⟨t, ht, -⟩
      · cases hnil
      · have hend := congrArg List.getLast? ht
        rw [List.getLast?_concat] at hend
        cases hend
    · exact hwithin
  · rw [List.infix_concat_iff] at h
    rcases h with hsuffix | hwithin
    · rcases List.suffix_concat_iff.mp hsuffix with hnil | ⟨t, ht, hsuffix⟩
      · cases hnil
      · have heq : [13, 13] ++ [10] = t ++ [10] := ht
        have ht13 : t = [13, 13] := (List.append_inj' heq rfl).1.symm
        exact absurd (ht13 ▸ hsuffix) htwo
    · exact hwithin

/-- The empty line behind the fields hides no CR. -/
theorem IsHeader.stray_iff {raw header : Bytes} (h : IsHeader raw header) :
    strayCr <:+: header ↔ strayCr <:+: fieldBytes raw := by
  cases fields_end raw with
  | never all plain =>
    rw [all, h.unique (Or.inr ⟨fun _ => not_closes_of_plain plain, rfl⟩)]
  | empty line rest empty splits plain last =>
    rw [h.unique (Or.inl (firstEmpty_fields empty splits last))]
    exact ⟨stray_append_emptyLine empty last, fun hwithin =>
      hwithin.trans (List.prefix_append _ _).isInfix⟩

/-- The fields that are read make up the header just when no CR strays in it. -/
theorem IsHeader.fields_iff {raw header : Bytes} (h : IsHeader raw header) :
    (headerLines header).flatten ++ separator header = header ↔ ¬ strayCr <:+: header := by
  obtain ⟨hsplit, hfields⟩ := h.fields
  have hread : (headerLines header).flatten = (readLines (fieldBytes raw)).flatten := by
    rw [headerLines_join, join_flatten, readLines_fieldBytes, hfields]
  rw [h.stray_iff, ← readLines_all_iff (fieldBytes_plain raw), hread]
  constructor
  · intro heq
    rw [hsplit] at heq
    have hsep : separator (fieldBytes raw ++ separator header) = separator header := by
      rw [← hsplit]
    rw [hsep] at heq
    exact List.append_cancel_right heq
  · intro heq
    rw [heq, ← hsplit]

/-- The header ends where it should just when the splitter looks for its end and no CR
strays before a CRLF. -/
theorem headerEnds_iff (raw : Bytes) :
    HeaderEnds raw ↔ ∀ header, IsHeader raw header →
      (closes header = true → Found raw header) ∧ ¬ strayCr <:+: header := by
  have hsplits := splitMessage_splits raw
  constructor
  · intro hends header hheader
    rw [hheader.unique hends.header]
    exact ⟨fun _ => hsplits.found, hends.header.fields_iff.mp hends.fields⟩
  · intro hcond
    obtain ⟨header, hheader⟩ := isHeader_exists raw
    obtain ⟨hfound, hstray⟩ := hcond header hheader
    have heq : (splitMessage raw).1 = header := by
      rcases hheader with hfirst | ⟨hnone, hall⟩
      · exact hsplits.eq_of_found hfirst (hfound hfirst.closed)
      · obtain ⟨hstarts, hclosed | hraw⟩ := hsplits.closes
        · rw [hnone _ hstarts] at hclosed
          cases hclosed
        · rw [hraw, hall]
    refine ⟨hsplits.tiles, hsplits.tiles, heq ▸ hheader, ?_⟩
    rw [heq]
    exact hheader.fields_iff.mpr hstray

/-- A header with LF line ends before a body with an empty CRLF line: text of the body is
taken for the header. -/
theorem body_in_header :
    splitMessage (ascii "A: b\n\nx\r\n\r\ny") = (ascii "A: b\n\nx\r\n\r\n", ascii "y") ∧
      ¬ HeaderEnds (ascii "A: b\n\nx\r\n\r\ny") := by
  have hsplit : splitMessage (ascii "A: b\n\nx\r\n\r\ny") =
      (ascii "A: b\n\nx\r\n\r\n", ascii "y") := by decide
  refine ⟨hsplit, fun hends => ?_⟩
  have hheader := hends.header
  rw [hsplit] at hheader
  rcases hheader with hfirst | ⟨-, hall⟩
  · have hshorter := hfirst.shortest (ascii "A: b\n\n") (by decide) (by decide)
    exact absurd hshorter (by decide)
  · exact absurd hall (by decide)

end Imap
end ImapGateway
