/-
Commands written out, and the tokens read back.

A command written out is a list of signs: octets, and literals.  The lines of the
command are the octets between the literals.  Tokenizing the signs of a token
pushes that token, whatever comes behind it, as long as that starts with a space
or a closing parenthesis or is the end.
-/
import ImapGateway.Parser.Tokens
import Mathlib.Data.Nat.Digits.Lemmas

namespace ImapGateway
namespace Parser

open Octet

/-! ## Tokens that can be written -/

def isPrintable (ch : UInt8) : Bool := decide (0x20 ≤ ch) && decide (ch ≤ 0x7E)

/-- `"` and `\` behind a backslash. -/
def escape (value : Octets) : Octets :=
  value.flatMap fun ch => if ch = quote ∨ ch = backslash then [backslash, ch] else [ch]

def quotedText (value : Octets) : Octets := quote :: (escape value ++ [quote])

/-- What stands between the brackets of a section: printable octets, quoted strings
and sections. -/
inductive SectionText : Octets → Prop
  | nil : SectionText []
  | octet {ch : UInt8} {rest : Octets} : isPrintable ch = true → ch ≠ quote → ch ≠ lbracket →
      ch ≠ rbracket → SectionText rest → SectionText (ch :: rest)
  | quoted {value rest : Octets} : (∀ ch ∈ value, isPrintable ch = true) → SectionText rest →
      SectionText (quotedText value ++ rest)
  | nested {inner rest : Octets} : SectionText inner → SectionText rest →
      SectionText (lbracket :: (inner ++ rbracket :: rest))

/-- The text of an atom: printable octets that end no atom, and sections. -/
inductive AtomText : Octets → Prop
  | nil : AtomText []
  | octet {ch : UInt8} {rest : Octets} : isPrintable ch = true → ch ∉ atomStop → ch ≠ lbracket →
      AtomText rest → AtomText (ch :: rest)
  | section {inner rest : Octets} : SectionText inner → AtomText rest →
      AtomText (lbracket :: (inner ++ rbracket :: rest))

inductive Token.Writable : Token → Prop
  | atom {value : Octets} : AtomText value → value ≠ [] → Writable (.atom value)
  | quoted {value : Octets} : (∀ ch ∈ value, isPrintable ch = true) → Writable (.quoted value)
  | literal (value : Octets) : Writable (.literal value)
  | list {items : List Token} : (∀ t ∈ items, t.Writable) → Writable (.list items)

/-! ## Signs -/

inductive Sign where
  | octet (ch : UInt8)
  | literal (data : Octets)

def text (octets : Octets) : List Sign := octets.map .octet

mutual

def Token.signs : Token → List Sign
  | .atom value => text value
  | .quoted value => text (quotedText value)
  | .literal value => [.literal value]
  | .list items => .octet lparen :: (itemSigns items ++ [.octet rparen])

/-- Items with single spaces between them. -/
def itemSigns : List Token → List Sign
  | [] => []
  | [t] => t.signs
  | t :: ts => t.signs ++ .octet space :: itemSigns ts

end

/-- A command: tag, name and arguments, with single spaces between them. -/
def commandSigns (tag name : Octets) (args : List Token) : List Sign :=
  text tag ++ .octet space :: (text name ++ args.flatMap fun t => .octet space :: t.signs)

/-- The octets up to the next literal. -/
def lineOf : List Sign → Octets
  | .octet ch :: signs => ch :: lineOf signs
  | _ => []

@[simp] theorem lineOf_nil : lineOf [] = [] := rfl

@[simp] theorem lineOf_literal (data : Octets) (signs : List Sign) :
    lineOf (.literal data :: signs) = [] := rfl

/-- The pieces from the next literal on. -/
def laterPieces : List Sign → List Piece
  | [] => []
  | .octet _ :: signs => laterPieces signs
  | .literal data :: signs => .literal data :: .line (lineOf signs) :: laterPieces signs

def piecesOf (signs : List Sign) : List Piece := .line (lineOf signs) :: laterPieces signs

/-! ## Reading quoted strings and atoms -/

theorem printable_checks {ch : UInt8} (h : isPrintable ch = true) :
    isControl ch = false ∧ isNonAscii ch = false := by
  simp only [isPrintable, isControl, isNonAscii, Bool.and_eq_true, decide_eq_true_eq,
    Bool.or_eq_false_iff, decide_eq_false_iff_not] at h ⊢
  have hlo : 32 ≤ ch.toNat := UInt8.le_iff_toNat_le.mp h.1
  have hhi : ch.toNat ≤ 126 := UInt8.le_iff_toNat_le.mp h.2
  refine ⟨⟨fun hlt => ?_, fun he => ?_⟩, fun hle => ?_⟩
  · have : ch.toNat < 32 := UInt8.lt_iff_toNat_lt.mp hlt
    omega
  · subst he
    exact absurd hhi (by decide)
  · have : 128 ≤ ch.toNat := UInt8.le_iff_toNat_le.mp hle
    omega

theorem readQuoted_escape {value : Octets} (h : ∀ ch ∈ value, isPrintable ch = true)
    (rest : Octets) : readQuoted (escape value ++ quote :: rest) = .ok (value, rest) := by
  induction value with
  | nil =>
    show readQuoted (quote :: rest) = _
    unfold readQuoted
    rw [if_neg (by decide), if_pos rfl]
  | cons ch value ih =>
    have ih := ih fun c hc => h c (List.mem_cons_of_mem _ hc)
    obtain ⟨hctl, hasc⟩ := printable_checks (h ch (List.mem_cons_self ..))
    by_cases hesc : ch = quote ∨ ch = backslash
    · have heq : escape (ch :: value) ++ quote :: rest =
          backslash :: ch :: (escape value ++ quote :: rest) := by
        simp [escape, hesc]
      rw [heq, readQuoted, if_pos rfl]
      simp only [if_pos hesc, ih]
    · have heq : escape (ch :: value) ++ quote :: rest = ch :: (escape value ++ quote :: rest) := by
        simp [escape, hesc]
      rw [not_or] at hesc
      rw [heq]
      unfold readQuoted
      rw [if_neg hesc.2, if_neg hesc.1, hctl, hasc]
      simp only [Bool.false_eq_true, if_false, ih]

theorem skipBracket_quoted {depth : Nat} {value : Octets}
    (h : ∀ ch ∈ value, isPrintable ch = true) (rest : Octets) :
    skipBracket depth (quotedText value ++ rest) = skipBracket depth rest := by
  have heq : quotedText value ++ rest = quote :: (escape value ++ quote :: rest) := by
    simp [quotedText]
  rw [heq, skipBracket, if_pos rfl]
  split
  · rename_i e he
    rw [readQuoted_escape h] at he
    cases he
  · rename_i out rest' he
    rw [readQuoted_escape h] at he
    cases he
    rfl

/-- The text of a section is passed over at any depth. -/
theorem skipBracket_section {inner : Octets} (h : SectionText inner) (depth : Nat) (rest : Octets) :
    skipBracket (depth + 1) (inner ++ rest) = skipBracket (depth + 1) rest := by
  induction h generalizing depth rest with
  | nil => rfl
  | octet hp hq hl hr _ ih =>
    obtain ⟨hctl, hasc⟩ := printable_checks hp
    rw [List.cons_append, skipBracket, if_neg hq, if_neg hl, if_neg hr, hctl, hasc]
    exact ih depth rest
  | quoted hv _ ih => rw [List.append_assoc, skipBracket_quoted hv, ih]
  | nested _ _ ih₁ ih₂ =>
    rw [List.cons_append, skipBracket, if_neg (by decide), if_pos rfl, List.append_assoc, ih₁,
      List.cons_append, skipBracket, if_neg (by decide), if_neg (by decide), if_pos rfl,
      if_neg (by omega)]
    exact ih₂ depth rest

theorem skipBracket_matching {inner : Octets} (h : SectionText inner) (rest : Octets) :
    skipBracket 0 (lbracket :: (inner ++ rbracket :: rest)) = .ok rest := by
  rw [skipBracket, if_neg (by decide), if_pos rfl, skipBracket_section h, skipBracket,
    if_neg (by decide), if_neg (by decide), if_pos rfl, if_pos (by omega)]

/-- What may stand behind a token: nothing, a space or a closing parenthesis. -/
def Stops (rest : Octets) : Prop := ∀ ch, rest.head? = some ch → ch = space ∨ ch = rparen

theorem scanAtom_text {value : Octets} (h : AtomText value) {rest : Octets} (hr : Stops rest) :
    scanAtom (value ++ rest) = .ok rest := by
  induction h with
  | nil =>
    cases rest with
    | nil => rw [List.nil_append, scanAtom]
    | cons ch rest =>
      have hch := hr ch rfl
      have hne : ch ≠ lbracket := by rcases hch with rfl | rfl <;> decide
      have hstop : ch ∈ atomStop := by rcases hch with rfl | rfl <;> decide
      rw [List.nil_append, scanAtom, if_neg hne, if_pos hstop]
  | octet hp hs hl _ ih =>
    obtain ⟨hctl, hasc⟩ := printable_checks hp
    rw [List.cons_append, scanAtom, if_neg hl, if_neg hs, hctl, hasc]
    exact ih
  | «section» hin _ ih =>
    rw [List.cons_append, List.append_assoc, List.cons_append, scanAtom, if_pos rfl]
    split
    · rename_i e he
      rw [skipBracket_matching hin] at he
      cases he
    · rename_i rest' he
      rw [skipBracket_matching hin] at he
      cases he
      exact ih

theorem readAtom_text {value : Octets} (h : AtomText value) (hne : value ≠ []) {rest : Octets}
    (hr : Stops rest) : readAtom (value ++ rest) = .ok (value, rest) := by
  have hpos := List.length_pos_of_ne_nil hne
  rw [readAtom, scanAtom_text h hr]
  simp only [List.length_append]
  rw [if_neg (by omega), Nat.add_sub_cancel, List.take_left]

/-! ## Tokenizing -/

/-- The tokenizer on signs. -/
def tokenizeSigns (signs : List Sign) (stack : Stack) : Except String Stack :=
  tokenizeFrom (piecesOf signs) stack

theorem lineOf_text (octets : Octets) (signs : List Sign) :
    lineOf (text octets ++ signs) = octets ++ lineOf signs := by
  induction octets with
  | nil => rfl
  | cons ch octets ih =>
    show ch :: lineOf (text octets ++ signs) = _
    rw [ih]
    rfl

theorem laterPieces_text (octets : Octets) (signs : List Sign) :
    laterPieces (text octets ++ signs) = laterPieces signs := by
  induction octets with
  | nil => rfl
  | cons ch octets ih => exact ih

/-- Reading `octets` turns `stack` into `stack'`, whatever comes behind them. -/
theorem tokenizeSigns_text (octets : Octets) {signs : List Sign} {stack stack' : Stack}
    (h : tokenizeLine (octets ++ lineOf signs) stack = tokenizeLine (lineOf signs) stack') :
    tokenizeSigns (text octets ++ signs) stack = tokenizeSigns signs stack' := by
  rw [tokenizeSigns, tokenizeSigns, piecesOf, piecesOf, lineOf_text, laterPieces_text, tokenizeFrom,
    tokenizeFrom, h]

theorem tokenizeSigns_space (signs : List Sign) (stack : Stack) :
    tokenizeSigns (.octet space :: signs) stack = tokenizeSigns signs stack := by
  refine tokenizeSigns_text [space] ?_
  rw [List.singleton_append, tokenizeLine, if_pos rfl]

theorem tokenizeSigns_open (signs : List Sign) (stack : Stack) :
    tokenizeSigns (.octet lparen :: signs) stack = tokenizeSigns signs stack.open := by
  refine tokenizeSigns_text [lparen] ?_
  rw [List.singleton_append, tokenizeLine, if_neg (by decide), if_pos rfl]

theorem tokenizeSigns_close (signs : List Sign) (items outer : List Token)
    (below : List (List Token)) :
    tokenizeSigns (.octet rparen :: signs) ⟨items, outer :: below⟩ =
      tokenizeSigns signs ⟨outer ++ [.list items], below⟩ := by
  refine tokenizeSigns_text [rparen] ?_
  rw [List.singleton_append, tokenizeLine, if_neg (by decide), if_neg (by decide), if_pos rfl]

theorem tokenizeSigns_nil (stack : Stack) : tokenizeSigns [] stack = .ok stack := by
  show tokenizeFrom [.line []] stack = _
  rw [tokenizeFrom, tokenizeLine]
  rfl

theorem tokenizeSigns_literal (data : Octets) (signs : List Sign) (stack : Stack) :
    tokenizeSigns (.literal data :: signs) stack =
      tokenizeSigns signs (stack.push (.literal data)) := by
  show tokenizeFrom (.line [] :: .literal data :: piecesOf signs) stack = _
  rw [tokenizeFrom, tokenizeLine]
  rfl

theorem tokenizeSigns_quoted {value : Octets} (h : ∀ ch ∈ value, isPrintable ch = true)
    (signs : List Sign) (stack : Stack) :
    tokenizeSigns (text (quotedText value) ++ signs) stack =
      tokenizeSigns signs (stack.push (.quoted value)) := by
  refine tokenizeSigns_text _ ?_
  have heq : quotedText value ++ lineOf signs =
      quote :: (escape value ++ quote :: lineOf signs) := by simp [quotedText]
  rw [heq, tokenizeLine, if_neg (by decide), if_neg (by decide), if_neg (by decide), if_pos rfl]
  split
  · rename_i e he
    rw [readQuoted_escape h] at he
    cases he
  · rename_i value' rest' he
    rw [readQuoted_escape h] at he
    cases he
    rfl

/-- The first octet of an atom starts no other token. -/
theorem AtomText.head {ch : UInt8} {rest : Octets} (h : AtomText (ch :: rest)) :
    ch ∉ atomStop ∧ isControl ch = false := by
  cases h with
  | octet hp hs _ _ => exact ⟨hs, (printable_checks hp).1⟩
  | «section» _ _ => exact ⟨by decide, by decide⟩

theorem tokenizeSigns_atom {value : Octets} (h : AtomText value) (hne : value ≠ [])
    {signs : List Sign} (hs : Stops (lineOf signs)) (stack : Stack) :
    tokenizeSigns (text value ++ signs) stack =
      tokenizeSigns signs (stack.push (.atom value)) := by
  refine tokenizeSigns_text _ ?_
  obtain ⟨ch, rest, rfl⟩ := List.exists_cons_of_ne_nil hne
  obtain ⟨hstop, hctl⟩ := h.head
  simp only [atomStop, List.mem_cons, List.not_mem_nil, or_false, not_or] at hstop
  obtain ⟨hl, hr, hb, hq, hsp⟩ := hstop
  have hread := readAtom_text h hne hs
  rw [List.cons_append] at hread ⊢
  rw [tokenizeLine, if_neg hsp, if_neg hl, if_neg hr, if_neg hq, if_neg hb, hctl,
    if_neg Bool.false_ne_true]
  split
  · rename_i e he
    rw [hread] at he
    cases he
  · rename_i value' rest' he
    rw [hread] at he
    cases he
    rfl

mutual

/-- Tokenizing the signs of a token pushes the token. -/
theorem tokenizeSigns_token (t : Token) (h : t.Writable) (signs : List Sign)
    (hs : Stops (lineOf signs)) (stack : Stack) :
    tokenizeSigns (t.signs ++ signs) stack = tokenizeSigns signs (stack.push t) := by
  match t, h with
  | .atom value, .atom hv hne => exact tokenizeSigns_atom hv hne hs stack
  | .quoted value, .quoted hv => exact tokenizeSigns_quoted hv signs stack
  | .literal value, .literal _ => exact tokenizeSigns_literal value signs stack
  | .list items, .list hitems =>
    have hclose : Stops (lineOf (.octet rparen :: signs)) := by
      intro ch hch
      cases hch
      exact .inr rfl
    have hrun := tokenizeSigns_items items hitems (.octet rparen :: signs) hclose stack.open
    rw [Token.signs, List.cons_append, List.append_assoc, tokenizeSigns_open]
    exact hrun.trans (tokenizeSigns_close _ _ _ _)

/-- Tokenizing the signs of items adds the items to the innermost list. -/
theorem tokenizeSigns_items (items : List Token) (h : ∀ t ∈ items, t.Writable)
    (signs : List Sign) (hs : Stops (lineOf signs)) (stack : Stack) :
    tokenizeSigns (itemSigns items ++ signs) stack =
      tokenizeSigns signs { stack with top := stack.top ++ items } := by
  match items with
  | [] =>
    rw [itemSigns, List.append_nil]
    rfl
  | [t] =>
    rw [itemSigns]
    exact tokenizeSigns_token t (h t (List.mem_cons_self ..)) signs hs stack
  | t :: u :: ts =>
    have hspace : Stops (lineOf (.octet space :: (itemSigns (u :: ts) ++ signs))) := by
      intro ch hch
      cases hch
      exact .inl rfl
    have ht := tokenizeSigns_token t (h t (List.mem_cons_self ..)) _ hspace stack
    have hts := tokenizeSigns_items (u :: ts) (fun t ht => h t (List.mem_cons_of_mem _ ht)) signs hs
      (stack.push t)
    rw [itemSigns, List.append_assoc, List.cons_append, ht, tokenizeSigns_space, hts]
    · simp [Stack.push]
    · simp

end

theorem tokenizeSigns_args (args : List Token) (h : ∀ t ∈ args, t.Writable) (stack : Stack) :
    tokenizeSigns (args.flatMap fun t => .octet space :: t.signs) stack =
      .ok { stack with top := stack.top ++ args } := by
  induction args generalizing stack with
  | nil =>
    rw [List.flatMap_nil, List.append_nil]
    exact tokenizeSigns_nil stack
  | cons t args ih =>
    have hstop : Stops (lineOf (args.flatMap fun t => .octet space :: t.signs)) := by
      intro ch hch
      cases args with
      | nil => cases hch
      | cons u args =>
        cases hch
        exact .inl rfl
    have hrun := tokenizeSigns_token t (h t (List.mem_cons_self ..)) _ hstop stack
    rw [List.flatMap_cons, List.cons_append, tokenizeSigns_space, hrun,
      ih fun t ht => h t (List.mem_cons_of_mem _ ht)]
    simp [Stack.push]

end Parser
end ImapGateway
