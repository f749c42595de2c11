/-
Searches read back.

What a search raises is told from its result: a search that raises nothing but what it
declares was written as keys if it is read, and was not if it is refused.
-/
import ImapGateway.Imap.Spelling

namespace ImapGateway
namespace Imap

open ImapGateway.Parser
open Mailbox hiding upper

/-! ## What a search raises -/

/-- Every error that is raised is one of these. -/
def RaisesOnly {α : Type} (P : ArgError → Prop) (r : Except ArgError α) : Prop :=
  ∀ e, r = .error e → P e

/-- A `SearchSyntaxError` or a `BadCharset`. -/
def ArgError.OfSearch (e : ArgError) : Prop :=
  (∃ text, e = .searchSyntax text) ∨ ∃ name, e = .badCharset name

section

variable {α β : Type} {P Q : ArgError → Prop} {r : Except ArgError α}

theorem RaisesOnly.ok (a : α) : RaisesOnly P (.ok a : Except ArgError α) := nofun

theorem RaisesOnly.error {e : ArgError} (h : P e) : RaisesOnly P (.error e : Except ArgError α) := by
  rintro _ ⟨⟩
  exact h

theorem RaisesOnly.imp (h : RaisesOnly P r) (hPQ : ∀ e, P e → Q e) : RaisesOnly Q r :=
  fun e he => hPQ e (h e he)

theorem RaisesOnly.bind {f : α → Except ArgError β} (h : RaisesOnly P r)
    (hf : ∀ a, RaisesOnly P (f a)) : RaisesOnly P (r >>= f) := by
  cases r with
  | error e => exact .error (h e rfl)
  | ok a => exact hf a

theorem RaisesOnly.mapM {f : α → Except ArgError β} (hf : ∀ a, RaisesOnly P (f a)) (xs : List α) :
    RaisesOnly P (xs.mapM f) := by
  induction xs with
  | nil => exact .ok _
  | cons x xs ih =>
    rw [List.mapM_cons]
    exact (hf x).bind fun _ => ih.bind fun _ => .ok _

end

/-- An error of a search, or one that it does not declare. -/
def SearchError (e : ArgError) : Prop := e.OfSearch ∨ e.declared = false

theorem syntax_searchError (text : String) : SearchError (.searchSyntax text) :=
  .inl (.inl ⟨text, rfl⟩)

theorem charset_searchError (name : String) : SearchError (.badCharset name) :=
  .inl (.inr ⟨name, rfl⟩)

section

variable (uni : Unicode)

/-- An error in a sequence set. -/
def SetError (e : ArgError) : Prop := (∃ text, e = .fetchSyntax text) ∨ e = .value

theorem int_raises (text : List Char) : RaisesOnly (· = .value) (uni.int text) := by
  unfold Unicode.int
  split
  · exact .error rfl
  · split
    · exact .error rfl
    · exact .ok _

theorem seqNumber_raises (text : List Char) : RaisesOnly SetError (seqNumber uni text) := by
  unfold seqNumber
  split
  · exact .ok _
  · split
    · exact .error (.inl ⟨_, rfl⟩)
    · have hint : RaisesOnly SetError (uni.int text) := (int_raises uni text).imp fun _ => .inr
      apply hint.bind
      intro n
      split
      · exact .error (.inl ⟨_, rfl⟩)
      · exact .ok _

theorem parsePart_raises (part : List Char) : RaisesOnly SetError (parsePart uni part) := by
  unfold parsePart
  split
  · exact .error (.inl ⟨_, rfl⟩)
  · split
    · exact .error (.inl ⟨_, rfl⟩)
    · exact (seqNumber_raises uni _).bind fun _ => (seqNumber_raises uni _).bind fun _ => .ok _
    · exact (seqNumber_raises uni _).bind fun _ => .ok _

theorem parseSequenceSet_raises (text : String) :
    RaisesOnly SetError (parseSequenceSet uni text) := by
  unfold parseSequenceSet
  split
  · exact .error (.inl ⟨_, rfl⟩)
  · exact (RaisesOnly.mapM (parsePart_raises uni) _).bind fun _ => .ok _

theorem seqset_raises (tok : Token) : RaisesOnly SearchError (seqset uni tok) := by
  cases tok with
  | atom value =>
    have hset := parseSequenceSet_raises uni (asText value)
    rw [seqset]
    split
    · exact .error (syntax_searchError _)
    · rename_i hother
      intro e he
      rcases hset e he with ⟨text, rfl⟩ | rfl
      · exact absurd he (hother text)
      · exact .inr rfl
  | _ => exact .error (syntax_searchError _)

theorem textOf_raises (tok : Token) : RaisesOnly SearchError (textOf tok) := by
  unfold textOf
  split
  · exact .error (syntax_searchError _)
  · split
    · exact .error (charset_searchError _)
    · exact .ok _

theorem dateOf_raises (tok : Token) : RaisesOnly SearchError (dateOf uni tok) := by
  unfold dateOf
  apply (textOf_raises tok).bind
  intro text
  simp only
  split
  · exact .error (syntax_searchError _)
  · split
    · exact .error (syntax_searchError _)
    · split
      · split
        · exact .error (syntax_searchError _)
        · exact .ok _
      · exact .error (syntax_searchError _)

theorem numberOf_raises (name : String) (tok : Token) :
    RaisesOnly SearchError (numberOf uni name tok) := by
  cases tok with
  | atom value =>
    rw [numberOf]
    split
    · refine (int_raises uni _).imp ?_
      rintro _ rfl
      exact .inr rfl
    · exact .error (syntax_searchError _)
  | _ => exact .error (syntax_searchError _)

theorem Kind.read_raises (kind : Kind) (name : String) (tok : Token) :
    RaisesOnly SearchError (kind.read uni name tok) := by
  cases kind with
  | text => exact textOf_raises tok
  | needle => exact (textOf_raises tok).bind fun _ => .ok _
  | set => exact seqset_raises uni tok
  | date => exact dateOf_raises uni tok
  | number => exact numberOf_raises uni name tok

theorem nextToken_raises (tokens : List Token) : RaisesOnly SearchError (nextToken tokens) := by
  cases tokens with
  | nil => exact .error (syntax_searchError _)
  | cons tok tokens => exact .ok _

theorem keysBy_raises {key : List Token → Except ArgError (Crit × List Token)}
    (hkey : ∀ tokens, RaisesOnly SearchError (key tokens)) (n : Nat) (tokens : List Token) :
    RaisesOnly SearchError (keysBy key n tokens) := by
  induction n generalizing tokens with
  | zero => exact .ok _
  | succ n ih =>
    cases tokens with
    | nil => exact .ok _
    | cons tok tokens =>
      rw [keysBy]
      · exact (hkey _).bind fun _ => (ih _).bind fun _ => .ok _
      · exact List.cons_ne_nil _ _

theorem key_raises (frames : Nat) (tokens : List Token) :
    RaisesOnly SearchError (key uni frames tokens) := by
  induction frames generalizing tokens with
  | zero => exact .error (.inr rfl)
  | succ frames ih =>
    cases tokens with
    | nil => exact .error (syntax_searchError _)
    | cons tok tokens =>
      cases tok with
      | atom value =>
        simp only [key]
        split
        · exact .ok _
        · exact (nextToken_raises _).bind fun _ => (Kind.read_raises uni _ _ _).bind fun _ => .ok _
        · refine (nextToken_raises _).bind fun _ => (textOf_raises _).bind fun _ => ?_
          refine (nextToken_raises _).bind fun _ => ?_
          exact ((textOf_raises _).bind fun _ => .ok _).bind fun _ => .ok _
        · exact (ih _).bind fun _ => .ok _
        · exact (ih _).bind fun _ => (ih _).bind fun _ => .ok _
        · split
          · exact (seqset_raises uni _).bind fun _ => .ok _
          · exact .error (syntax_searchError _)
      | list items =>
        rw [key_group]
        apply (keysBy_raises ih _ items).bind
        intro crits
        split
        · exact .error (syntax_searchError _)
        · exact .ok _
      | _ => exact .error (syntax_searchError _)

theorem withoutCharset_raises (tokens : List Token) :
    RaisesOnly SearchError (withoutCharset uni tokens) := by
  unfold withoutCharset
  split
  · split
    · split
      · exact .error (syntax_searchError _)
      · apply (textOf_raises _).bind
        intro name
        split
        · exact .error (charset_searchError _)
        · exact .ok _
    · exact .ok _
  · exact .ok _

theorem parseSearch_raises (frames : Nat) (tokens : List Token) :
    RaisesOnly SearchError (parseSearch uni frames tokens) := by
  apply (withoutCharset_raises uni tokens).bind
  intro items
  split
  · exact .error (syntax_searchError _)
  · exact (keysBy_raises (key_raises uni frames) _ items).bind fun _ => .ok _

end

/-! ## Dates by the grammar and by the pattern -/

section

variable {dates dates' : Token → Nat → Prop}

theorem Kind.Spelled.mono {uni : Unicode} (hdates : ∀ tok n, dates tok n → dates' tok n)
    {kind : Kind} {tok : Token} {v : kind.Value} (h : kind.Spelled uni dates tok v) :
    kind.Spelled uni dates' tok v := by
  cases kind with
  | date => exact hdates _ _ h
  | set =>
    cases tok with
    | _ => exact h
  | number =>
    cases tok with
    | _ => exact h
  | _ => exact h

mutual

theorem Spells.mono {uni : Unicode} (hdates : ∀ tok n, dates tok n → dates' tok n)
    {k : SearchKey} {tokens : List Token} :
    Spells uni dates k tokens → Spells uni dates' k tokens
  | .bare named => .bare named
  | .leaf named arg => .leaf named (arg.mono hdates)
  | .header named arg arg' => .header named (arg.mono hdates) (arg'.mono hdates)
  | .set written => .set written
  | .not named h => .not named (h.mono hdates)
  | .or named h h' => .or named (h.mono hdates) (h'.mono hdates)
  | .group h => .group (h.mono hdates)

theorem SpellsAll.mono {uni : Unicode} (hdates : ∀ tok n, dates tok n → dates' tok n)
    {ks : List SearchKey} {tokens : List Token} :
    SpellsAll uni dates ks tokens → SpellsAll uni dates' ks tokens
  | .nil => .nil
  | .cons h hs => .cons (h.mono hdates) (hs.mono hdates)

end

theorem Writing.loose {uni : Unicode} {ks : List SearchKey} {tokens : List Token}
    (h : Writing uni StrictDate ks tokens) : Writing uni (LooseDate uni) ks tokens := by
  obtain ⟨hne, items, hpreceded, hkeys⟩ := h
  exact ⟨hne, items, hpreceded, hkeys.mono fun _ _ => StrictDate.loose⟩

end

/-! ## Searches -/

/-- The tokens are read as the keys they write mean, and refused where they write none. -/
structure Inverts (uni : Unicode) (frames : Nat) (tokens : List Token) : Prop where
  read : ∀ ks, Writing uni StrictDate ks tokens →
    parseSearch uni frames tokens = .ok (.and (denoteAll ks))
  refused : (¬∃ ks, Writing uni StrictDate ks tokens) →
    ∃ e, parseSearch uni frames tokens = .error e ∧ e.OfSearch

section

variable {uni : Unicode} {frames : Nat} {tokens : List Token}

theorem ArgError.OfSearch.declared {e : ArgError} (h : e.OfSearch) : e.declared = true := by
  rcases h with ⟨_, rfl⟩ | ⟨_, rfl⟩
  · rfl
  · rfl

/-- Tokens that write keys are read, where no error comes through. -/
theorem Writing.read {ks : List SearchKey} (h : Writing uni (LooseDate uni) ks tokens)
    (hl : ∀ t ∈ tokens, t.Legible) (hcaught : ¬Escapes (parseSearch uni frames tokens)) :
    parseSearch uni frames tokens = .ok (.and (denoteAll ks)) := by
  rcases h.yields hl with hread | hdeep
  · exact hread
  · exact absurd ⟨_, hdeep, rfl⟩ hcaught

/-- Reading a search is the inverse of writing it if and only if it comes to no key that the
stack is too short for and to no number that is too long, and no date in it is written more
loosely than the grammar has it. -/
theorem inverts_iff (hl : ∀ t ∈ tokens, t.Legible) :
    Inverts uni frames tokens ↔ ¬SearchFault uni frames tokens ∧
      ((∃ ks, Writing uni (LooseDate uni) ks tokens) → ∃ ks, Writing uni StrictDate ks tokens) := by
  rw [← parseSearch_escapes_iff hl]
  constructor
  · rintro ⟨hread, hrefused⟩
    have hcaught : ¬Escapes (parseSearch uni frames tokens) := by
      rintro ⟨e, he, hundeclared⟩
      by_cases hwritten : ∃ ks, Writing uni StrictDate ks tokens
      · obtain ⟨ks, hks⟩ := hwritten
        rw [hread ks hks] at he
        cases he
      · obtain ⟨e', he', hsearch⟩ := hrefused hwritten
        rw [he] at he'
        cases he'
        rw [hsearch.declared] at hundeclared
        cases hundeclared
    refine ⟨hcaught, fun ⟨ks, hks⟩ => ?_⟩
    by_contra hwritten
    obtain ⟨e, he, _⟩ := hrefused hwritten
    rw [hks.read hl hcaught] at he
    cases he
  · rintro ⟨hcaught, hdates⟩
    refine ⟨fun ks hks => hks.loose.read hl hcaught, fun hwritten => ?_⟩
    cases hresult : parseSearch uni frames tokens with
    | ok crit =>
      obtain ⟨ks, hks, _⟩ := writing_of_parseSearch hl hresult
      exact absurd (hdates ⟨ks, hks⟩) hwritten
    | error e =>
      refine ⟨e, rfl, ?_⟩
      rcases parseSearch_raises uni frames tokens e hresult with hsearch | hundeclared
      · exact hsearch
      · exact absurd ⟨e, hresult, hundeclared⟩ hcaught

end

theorem inverts_iff_not_seen :
    Inverts .ofAscii 900 [.atom (ascii "NOT"), .atom (ascii "SEEN")] ↔
      ¬SearchFault .ofAscii 900 [.atom (ascii "NOT"), .atom (ascii "SEEN")] ∧
        ((∃ ks, Writing .ofAscii (LooseDate .ofAscii) ks [.atom (ascii "NOT"), .atom (ascii "SEEN")]) →
          ∃ ks, Writing .ofAscii StrictDate ks [.atom (ascii "NOT"), .atom (ascii "SEEN")]) := by
  apply inverts_iff
  simp only [List.forall_mem_cons]
  exact ⟨.atom (by decide +kernel), .atom (by decide +kernel), nofun⟩

section

variable {uni : Unicode} {dates : Token → Nat → Prop} {k : SearchKey} {tokens : List Token}

theorem SpellsAll.single (h : SpellsAll uni dates [k] tokens) : Spells uni dates k tokens := by
  cases h with
  | @cons _ _ front _ hk hs =>
    cases hs
    rw [List.append_nil]
    exact hk

/-- Nothing stands behind the year of a date. -/
theorem newline_notMem_date {text : List Char} {n : Nat} (h : DateText Writes [] text n) :
    '\n' ∉ text := by
  cases h with
  | @intro day month year _ _ _ _ hday _ hmonth hyear _ _ =>
    obtain ⟨a, b, c, heq, hletters⟩ := letters_of_month hmonth
    rw [← heq] at hletters
    have hmonth' : '\n' ∉ month := fun hmem =>
      absurd (List.all_eq_true.mp hletters _ hmem) (by decide)
    have hday' := @Writes.notMem _ _ hday '\n' (by decide)
    have hyear' := @Writes.notMem _ _ hyear '\n' (by decide)
    rw [List.append_nil, List.mem_append, List.mem_cons, List.mem_append, List.mem_cons]
    rintro (hmem | hmem | hmem | hmem | hmem)
    · exact hday' hmem
    · cases hmem
    · exact hmonth' hmem
    · cases hmem
    · exact hyear' hmem

end

/-- The arguments of `SEARCH BEFORE {11}`, the literal with a line feed at its end. -/
def beforeLine : List Token := [.atom (ascii "BEFORE"), .literal (ascii "1-Jan-2020\n")]

theorem beforeLine_carries : TextOf (.literal (ascii "1-Jan-2020\n")) "1-Jan-2020\n" := rfl

/-- It writes no date as the grammar has it. -/
theorem beforeLine_not_strict {v : Nat} {sent : Bool} {test : DateTest}
    (h : Writing .ofAscii StrictDate [.leaf (.date sent test) v] beforeLine) : False := by
  obtain ⟨-, items, hpreceded, hkeys⟩ := h
  have hitems : items = beforeLine := by
    cases hpreceded with
    | plain => rfl
    | charset named _ _ => exact absurd named (by decide)
  rw [hitems] at hkeys
  cases hkeys.single with
  | leaf _ arg =>
    obtain ⟨text, htext, hdate⟩ := arg
    have heq := textOf_eq_ok_iff.mpr beforeLine_carries
    rw [textOf_eq_ok_iff.mpr htext] at heq
    cases heq
    exact newline_notMem_date hdate (by decide)

/-- A key that means a date is a date. -/
theorem eq_leaf_of_denote {k : SearchKey} {sent : Bool} {test : DateTest} {day : Int}
    (h : k.denote = .date sent test day) : ∃ v : Nat, k = .leaf (.date sent test) v := by
  cases k with
  | leaf l v =>
    cases l with
    | date sent test =>
      cases h
      exact ⟨v, rfl⟩
    | _ => cases h
  | bare b =>
    cases b with
    | _ => cases h
  | _ => cases h

/-- A date with a line feed behind it is taken for a date. -/
theorem line_feed_taken : ¬Inverts .ofAscii 900 beforeLine := by
  intro h
  have hread : parseSearch .ofAscii 900 beforeLine =
      .ok (.and [.date false .before (Int.ofNat 737425)]) := rfl
  by_cases hwritten : ∃ ks, Writing .ofAscii StrictDate ks beforeLine
  · obtain ⟨ks, hks⟩ := hwritten
    have hdenote := h.read ks hks
    rw [hread] at hdenote
    have hall : [.date false .before (Int.ofNat 737425)] = denoteAll ks := by
      injection hdenote with hdenote
      injection hdenote
    rcases ks with _ | ⟨k, _ | ⟨k', ks⟩⟩
    · cases hall
    · obtain ⟨v, rfl⟩ := eq_leaf_of_denote (List.singleton_inj.mp hall).symm
      exact beforeLine_not_strict hks
    · injection hall with _ hnil
      injection hnil
  · obtain ⟨e, he, _⟩ := h.refused hwritten
    rw [hread] at he
    cases he

end Imap
end ImapGateway
