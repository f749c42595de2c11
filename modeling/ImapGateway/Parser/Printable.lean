/-
What the atoms of a command are made of.

The tokenizer checks every octet it takes into an atom, also those inside a section and
those of a quoted string in it.  So all text that reaches a command without quotes is
printable ASCII, however deep in lists it stands.
-/
import ImapGateway.Parser.Bounds
import ImapGateway.Parser.Inverse

namespace ImapGateway
namespace Parser

open Octet Incremental

theorem printable_of_checks {ch : UInt8} (hcontrol : isControl ch = false)
    (hascii : isNonAscii ch = false) : isPrintable ch = true := by
  simp only [isControl, isNonAscii, Bool.or_eq_false_iff, decide_eq_false_iff_not,
    UInt8.lt_iff_toNat_lt, UInt8.le_iff_toNat_le] at hcontrol hascii
  have hne : ch.toNat ≠ 127 := fun h => hcontrol.2 (UInt8.toNat_inj.mp h)
  have hlow : ¬ch.toNat < 32 := hcontrol.1
  have hhigh : ¬128 ≤ ch.toNat := hascii
  simp only [isPrintable, Bool.and_eq_true, decide_eq_true_eq, UInt8.le_iff_toNat_le]
  constructor
  · show 32 ≤ ch.toNat
    omega
  · show ch.toNat ≤ 126
    omega

/-- What lies between two places of a line is printable. -/
def Spans (line rest : Octets) : Prop :=
  ∃ taken, line = taken ++ rest ∧ ∀ ch ∈ taken, isPrintable ch = true

theorem Spans.refl (line : Octets) : Spans line line :=
  ⟨[], rfl, fun _ hch => absurd hch List.not_mem_nil⟩

theorem Spans.cons {ch : UInt8} {line rest : Octets} (hch : isPrintable ch = true)
    (h : Spans line rest) : Spans (ch :: line) rest := by
  obtain ⟨taken, rfl, htaken⟩ := h
  refine ⟨ch :: taken, rfl, fun c hc => ?_⟩
  rcases List.mem_cons.mp hc with rfl | hc
  · exact hch
  · exact htaken c hc

theorem Spans.trans {a b c : Octets} (h : Spans a b) (h' : Spans b c) : Spans a c := by
  obtain ⟨taken, rfl, htaken⟩ := h
  obtain ⟨taken', rfl, htaken'⟩ := h'
  refine ⟨taken ++ taken', (List.append_assoc ..).symm, fun ch hch => ?_⟩
  rcases List.mem_append.mp hch with hch | hch
  · exact htaken ch hch
  · exact htaken' ch hch

theorem readQuoted_spans {line out rest : Octets} (h : readQuoted line = .ok (out, rest)) :
    Spans line rest := by
  fun_induction readQuoted line generalizing out rest with
  | case4 escaped tail hesc out' rest' he ih =>
    cases h
    have hprintable : isPrintable escaped = true := by
      rcases hesc with rfl | rfl
      · decide
      · decide
    exact .cons (by decide) (.cons hprintable (ih he))
  | case6 tail hch =>
    cases h
    exact .cons (by decide) (.refl _)
  | case10 ch tail hch hq hc hn out' rest' he ih =>
    cases h
    exact .cons (printable_of_checks (by simpa using hc) (by simpa using hn)) (ih he)
  | _ => cases h

theorem skipBracket_spans {depth : Nat} {line rest : Octets}
    (h : skipBracket depth line = .ok rest) : Spans line rest := by
  fun_induction skipBracket depth line with
  | case3 depth tail out rest' hq hlt ih =>
    exact .cons (by decide) ((readQuoted_spans hq).trans (ih h))
  | case4 | case6 =>
    rename_i ih
    exact .cons (by decide) (ih h)
  | case5 =>
    cases h
    exact .cons (by decide) (.refl _)
  | case8 depth ch tail _ _ _ hchecks ih =>
    simp only [Bool.or_eq_true, not_or, Bool.not_eq_true] at hchecks
    exact .cons (printable_of_checks hchecks.1 hchecks.2) (ih h)
  | _ => cases h

theorem scanAtom_spans {line rest : Octets} (h : scanAtom line = .ok rest) : Spans line rest := by
  fun_induction scanAtom line with
  | case1 =>
    cases h
    exact .refl _
  | case3 tail rest' hskip _ ih => exact (skipBracket_spans hskip).trans (ih h)
  | case4 =>
    cases h
    exact .refl _
  | case7 ch tail _ _ hcontrol hascii ih =>
    exact .cons (printable_of_checks (by simpa using hcontrol) (by simpa using hascii)) (ih h)
  | _ => cases h

theorem readAtom_printable {line value rest : Octets} (h : readAtom line = .ok (value, rest)) :
    ∀ ch ∈ value, isPrintable ch = true := by
  rw [readAtom] at h
  split at h
  · cases h
  · rename_i rest' hscan
    split at h
    · cases h
    · cases h
      obtain ⟨taken, rfl, htaken⟩ := scanAtom_spans hscan
      rw [List.length_append, Nat.add_sub_cancel, List.take_left]
      exact htaken

/-! ## Tokens -/

/-- The atoms in a token are printable. -/
inductive Token.Legible : Token → Prop
  | atom {value : Octets} : (∀ ch ∈ value, isPrintable ch = true) → Legible (.atom value)
  | quoted (value : Octets) : Legible (.quoted value)
  | literal (value : Octets) : Legible (.literal value)
  | list {items : List Token} : (∀ t ∈ items, t.Legible) → Legible (.list items)

structure Stack.Legible (s : Stack) : Prop where
  top : ∀ t ∈ s.top, t.Legible
  below : ∀ ts ∈ s.below, ∀ t ∈ ts, t.Legible

theorem Stack.root_legible : Stack.root.Legible :=
  ⟨fun _ ht => absurd ht List.not_mem_nil, fun _ hts => absurd hts List.not_mem_nil⟩

theorem legible_append {ts : List Token} (h : ∀ t ∈ ts, t.Legible) {t : Token} (ht : t.Legible) :
    ∀ u ∈ ts ++ [t], u.Legible := by
  intro u hu
  rcases List.mem_append.mp hu with hu | hu
  · exact h u hu
  · rw [List.mem_singleton.mp hu]
    exact ht

theorem Stack.Legible.push {s : Stack} (h : s.Legible) {t : Token} (ht : t.Legible) :
    (s.push t).Legible := ⟨legible_append h.top ht, h.below⟩

theorem tokenizeLine_legible {line : Octets} {stack stack' : Stack} (hs : stack.Legible)
    (h : tokenizeLine line stack = .ok stack') : stack'.Legible := by
  fun_induction tokenizeLine line stack with
  | case1 stack =>
    cases h
    exact hs
  | case2 stack rest ih => exact ih hs h
  | case3 stack rest _ ih =>
    refine ih ⟨fun _ ht => absurd ht List.not_mem_nil, fun ts hts => ?_⟩ h
    rcases List.mem_cons.mp hts with rfl | hts
    · exact hs.top
    · exact hs.below ts hts
  | case5 stack rest outer below hbelow _ _ ih =>
    have hbelow : ∀ ts ∈ outer :: below, ∀ t ∈ ts, t.Legible := hbelow ▸ hs.below
    refine ih ⟨?_, fun ts hts => hbelow ts (List.mem_cons_of_mem _ hts)⟩ h
    exact legible_append (hbelow outer List.mem_cons_self) (.list hs.top)
  | case7 stack rest value rest' hread _ _ _ _ ih => exact ih (hs.push (.quoted value)) h
  | case11 stack ch rest _ _ _ _ _ _ value rest' hread _ ih =>
    exact ih (hs.push (.atom (readAtom_printable hread))) h
  | _ => cases h

theorem tokenizeFrom_legible {pieces : List Piece} {stack stack' : Stack} (hs : stack.Legible)
    (h : tokenizeFrom pieces stack = .ok stack') : stack'.Legible := by
  induction pieces generalizing stack with
  | nil =>
    cases h
    exact hs
  | cons piece pieces ih =>
    cases piece with
    | literal data => exact ih (hs.push (.literal data)) h
    | line data =>
      unfold tokenizeFrom at h
      split at h
      · cases h
      · rename_i stack₁ hline
        exact ih (tokenizeLine_legible hs hline) h

theorem tokenizePieces_legible {pieces : List Piece} {tokens : List Token}
    (h : tokenizePieces pieces = .ok tokens) : ∀ t ∈ tokens, t.Legible := by
  unfold tokenizePieces at h
  split at h
  · cases h
  · rename_i stack hfrom
    split at h
    · cases h
      exact (tokenizeFrom_legible Stack.root_legible hfrom).top
    · cases h

/-! ## Commands -/

/-- Tag, name and arguments of a command are legible. -/
def Event.Legible : Event → Prop
  | .command tag name args => (∀ ch ∈ tag, isPrintable ch = true) ∧
      (∀ ch ∈ name, isPrintable ch = true) ∧ ∀ t ∈ args, t.Legible
  | _ => True

theorem upper_printable {name : Octets} (h : ∀ ch ∈ name, isPrintable ch = true) :
    ∀ ch ∈ upper name, isPrintable ch = true := by
  intro ch hch
  obtain ⟨c, hc, rfl⟩ := List.mem_map.mp hch
  split
  · rename_i hlower
    have hlow : 97 ≤ c.toNat := UInt8.le_iff_toNat_le.mp hlower.1
    have hhigh : c.toNat ≤ 122 := UInt8.le_iff_toNat_le.mp hlower.2
    have hsub : (c - 0x20).toNat = c.toNat - 32 := UInt8.toNat_sub_of_le _ _ (by
      rw [UInt8.le_iff_toNat_le]
      show 32 ≤ c.toNat
      omega)
    simp only [isPrintable, Bool.and_eq_true, decide_eq_true_eq, UInt8.le_iff_toNat_le, hsub]
    constructor
    · show 32 ≤ c.toNat - 32
      omega
    · show c.toNat - 32 ≤ 126
      omega
  · exact h c hc

theorem buildCommand_legible (p : Pending) : (buildCommand p).Legible := by
  unfold buildCommand
  split
  · trivial
  · trivial
  · trivial
  · rename_i tag name args htokens
    have hlegible := tokenizePieces_legible htokens
    split
    · trivial
    · cases hlegible _ List.mem_cons_self with
      | atom htag =>
        cases hlegible _ (List.mem_cons_of_mem _ List.mem_cons_self) with
        | atom hname =>
          exact ⟨htag, upper_printable hname, fun t ht =>
            hlegible t (List.mem_cons_of_mem _ (List.mem_cons_of_mem _ ht))⟩
  · trivial

theorem consumeLine_legible (limits : Limits) (pending : Option Pending) (line : Octets) :
    (consumeLine limits pending line).1.Legible := by
  unfold consumeLine
  extract_lets
  split
  · trivial
  · split
    · split
      · trivial
      · split
        · trivial
        · trivial
    · split
      · trivial
      · exact buildCommand_legible _

variable {limits : Limits}

theorem next_take_legible {mode mode' : Mode} {buf rest : Octets} {evs : List Event}
    (h : next limits mode buf = .take evs mode' rest) : ∀ e ∈ evs, e.Legible := by
  rcases next_take_cases h with ⟨p, data, rfl, _, rfl, rfl⟩ | ⟨pending, raw, rfl, _, _, rfl, rfl⟩
  · exact fun e he => absurd he List.not_mem_nil
  · intro e he
    rw [List.mem_singleton.mp he]
    exact consumeLine_legible limits pending _

/-- Every command a parser yields is legible. -/
theorem Reached.legible {evs : List Event} {mode : Mode} {buf : Octets}
    (h : Reached limits evs mode buf) : ∀ e ∈ evs, e.Legible := by
  induction h with
  | start => exact fun e he => absurd he List.not_mem_nil
  | fed data _ ih => exact ih
  | took _ hnext ih =>
    intro e he
    rcases List.mem_append.mp he with he | he
    · exact ih e he
    · exact next_take_legible hnext e he
  | halted _ hnext ih =>
    obtain ⟨_, rfl, rfl⟩ := next_halt_cases hnext
    intro e he
    rcases List.mem_append.mp he with he | he
    · exact ih e he
    · rw [List.mem_singleton.mp he]
      trivial

theorem Reached.comes {evs evs' : List Event} {mode mode' : Mode} {buf rest : Octets}
    (h : Reached limits evs mode buf) (hc : (reader limits).Comes mode buf evs' mode' rest) :
    Reached limits (evs ++ evs') mode' rest := by
  induction hc generalizing evs with
  | refl s b =>
    rw [List.append_nil]
    exact h
  | step hnext _ ih =>
    rw [← List.append_assoc]
    exact ih (h.took hnext)

/-- A command that is written out within the limits is reached. -/
theorem reached_command {tag name : Octets} {args : List Token} (htag : AtomText tag)
    (htne : tag ≠ []) (hplain : ∀ ch ∈ tag, ch ≠ 0x2B ∧ ch ≠ 0x2A) (hname : AtomText name)
    (hnne : name ≠ []) (hargs : ∀ t ∈ args, t.Writable)
    (hfit : Fits limits (commandSigns tag name args)) :
    ∃ evs mode buf, Reached limits evs mode buf ∧ .command tag (upper name) args ∈ evs := by
  have hbytes : (kept none).totalBytes = 0 := rfl
  obtain ⟨P, hP, hcomes⟩ := (command_readable htag hname hargs hfit).comes hbytes rfl []
  have htok : tokenizePieces P.pieces = .ok (.atom tag :: .atom name :: args) := by
    rw [hP]
    exact tokenize_command htag htne hname hnne hargs
  rw [buildCommand_command htok hplain] at hcomes
  have hreached := (Reached.start.fed _).comes hcomes
  exact ⟨_, _, _, hreached, List.mem_append_right _ (List.mem_append_right _ List.mem_cons_self)⟩

end Parser
end ImapGateway
