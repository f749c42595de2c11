/-
Tokens of a command and the tokenizer.

A command arrives as lines with literals between them.  The tokenizer goes
through the octets of each line and keeps a stack of the lists that are open.
An index into a line is modelled by the octets from there on.
-/
import Mathlib.Data.List.Basic

namespace ImapGateway
namespace Parser

abbrev Octets := List UInt8

/-- An atom's value is ASCII and kept as octets. -/
inductive Token where
  | atom (value : Octets)
  | quoted (value : Octets)
  | literal (value : Octets)
  | list (items : List Token)

namespace Octet

def space : UInt8 := 0x20
def quote : UInt8 := 0x22
def asterisk : UInt8 := 0x2A
def plus : UInt8 := 0x2B
def lparen : UInt8 := 0x28
def rparen : UInt8 := 0x29
def lbracket : UInt8 := 0x5B
def backslash : UInt8 := 0x5C
def rbracket : UInt8 := 0x5D
def lbrace : UInt8 := 0x7B
def rbrace : UInt8 := 0x7D
def cr : UInt8 := 0x0D
def lf : UInt8 := 0x0A

end Octet

open Octet

def isControl (ch : UInt8) : Bool := decide (ch < 0x20) || decide (ch = 0x7F)

def isNonAscii (ch : UInt8) : Bool := decide (0x80 ≤ ch)

/-- `_ATOM_STOP` -/
def atomStop : List UInt8 := [lparen, rparen, lbrace, quote, space]

/-- `_read_quoted`, from behind the opening quote: the value, and the octets behind
the closing quote. -/
def readQuoted : Octets → Except String (Octets × Octets)
  | [] => .error "unterminated quoted string"
  | ch :: rest =>
    if ch = backslash then
      match rest with
      | [] => .error "invalid escape in quoted string"
      | escaped :: rest =>
        if escaped = quote ∨ escaped = backslash then
          match readQuoted rest with
          | .error e => .error e
          | .ok (out, rest) => .ok (escaped :: out, rest)
        else .error "invalid escape in quoted string"
    else if ch = quote then .ok ([], rest)
    else if isControl ch then .error "control character in quoted string"
    else if isNonAscii ch then .error "non-ASCII in quoted string, use a literal"
    else
      match readQuoted rest with
      | .error e => .error e
      | .ok (out, rest) => .ok (ch :: out, rest)

theorem readQuoted_length {line out rest : Octets} (h : readQuoted line = .ok (out, rest)) :
    rest.length < line.length := by
  fun_induction readQuoted line generalizing out rest with
  | case4 escaped tail hesc out' rest' he ih =>
    have hlt := ih he
    cases h
    simp only [List.length_cons]
    omega
  | case6 tail hch =>
    cases h
    exact Nat.lt_succ_self _
  | case10 ch tail hch hq hc hn out' rest' he ih =>
    have hlt := ih he
    cases h
    simp only [List.length_cons]
    omega
  | _ => cases h

/-- `_skip_bracket`, at depth `depth`: the octets behind the matching bracket. -/
def skipBracket (depth : Nat) (line : Octets) : Except String Octets :=
  match line with
  | [] => .error "unterminated section bracket"
  | ch :: rest =>
    if ch = quote then
      match h : readQuoted rest with
      | .error e => .error e
      | .ok (_, rest') =>
        have := readQuoted_length h
        skipBracket depth rest'
    else if ch = lbracket then skipBracket (depth + 1) rest
    else if ch = rbracket then
      if depth - 1 = 0 then .ok rest else skipBracket (depth - 1) rest
    else if isControl ch || isNonAscii ch then .error "invalid character in section"
    else skipBracket depth rest
termination_by line.length
decreasing_by all_goals simp only [List.length_cons]; omega

theorem skipBracket_length {depth : Nat} {line rest : Octets}
    (h : skipBracket depth line = .ok rest) : rest.length < line.length := by
  fun_induction skipBracket depth line with
  | case3 depth tail out rest' hq hlt ih =>
    have := ih h
    simp only [List.length_cons]
    omega
  | case4 | case6 | case8 =>
    rename_i ih
    have := ih h
    simp only [List.length_cons]
    omega
  | case5 =>
    cases h
    exact Nat.lt_succ_self _
  | _ => cases h

/-- The loop of `_read_atom`: the octets behind the atom. -/
def scanAtom (line : Octets) : Except String Octets :=
  match line with
  | [] => .ok []
  | ch :: rest =>
    if ch = lbracket then
      match h : skipBracket 0 (ch :: rest) with
      | .error e => .error e
      | .ok rest' =>
        have := skipBracket_length h
        scanAtom rest'
    else if ch ∈ atomStop then .ok (ch :: rest)
    else if isControl ch then .error "control character in atom"
    else if isNonAscii ch then .error "non-ASCII in atom, use a quoted string or literal"
    else scanAtom rest
termination_by line.length
decreasing_by all_goals simp only [List.length_cons] at *; omega

/-- `_read_atom`: the atom, and the octets behind it. -/
def readAtom (line : Octets) : Except String (Octets × Octets) :=
  match scanAtom line with
  | .error e => .error e
  | .ok rest =>
    if line.length ≤ rest.length then .error "expected an atom"
    else .ok (line.take (line.length - rest.length), rest)

theorem readAtom_length {line value rest : Octets} (h : readAtom line = .ok (value, rest)) :
    rest.length < line.length := by
  rw [readAtom] at h
  split at h
  · cases h
  · split at h
    · cases h
    · cases h
      omega

/-- The lists that are open, the innermost first.  There is always one. -/
structure Stack where
  top : List Token
  below : List (List Token)

def Stack.root : Stack := ⟨[], []⟩

def Stack.push (s : Stack) (t : Token) : Stack := { s with top := s.top ++ [t] }

def Stack.open (s : Stack) : Stack := ⟨[], s.top :: s.below⟩

/-- `_tokenize_line` -/
def tokenizeLine (line : Octets) (stack : Stack) : Except String Stack :=
  match line with
  | [] => .ok stack
  | ch :: rest =>
    if ch = space then tokenizeLine rest stack
    else if ch = lparen then tokenizeLine rest stack.open
    else if ch = rparen then
      match stack.below with
      | [] => .error "unbalanced parentheses"
      | outer :: below => tokenizeLine rest ⟨outer ++ [.list stack.top], below⟩
    else if ch = quote then
      match h : readQuoted rest with
      | .error e => .error e
      | .ok (value, rest') =>
        have := readQuoted_length h
        tokenizeLine rest' (stack.push (.quoted value))
    else if ch = lbrace then .error "literal must be the last item on a line"
    else if isControl ch then .error "control character in command"
    else
      match h : readAtom (ch :: rest) with
      | .error e => .error e
      | .ok (value, rest') =>
        have := readAtom_length h
        tokenizeLine rest' (stack.push (.atom value))
termination_by line.length
decreasing_by all_goals simp only [List.length_cons] at *; omega

/-- A part of a command: a line without its literal's `{N}`, or a literal. -/
inductive Piece where
  | line (data : Octets)
  | literal (data : Octets)
  deriving DecidableEq

/-- The loop of `_tokenize_pieces`. -/
def tokenizeFrom : List Piece → Stack → Except String Stack
  | [], stack => .ok stack
  | .literal data :: pieces, stack => tokenizeFrom pieces (stack.push (.literal data))
  | .line data :: pieces, stack =>
    match tokenizeLine data stack with
    | .error e => .error e
    | .ok stack => tokenizeFrom pieces stack

/-- `_tokenize_pieces` -/
def tokenizePieces (pieces : List Piece) : Except String (List Token) :=
  match tokenizeFrom pieces .root with
  | .error e => .error e
  | .ok stack => if stack.below = [] then .ok stack.top else .error "unbalanced parentheses"

end Parser
end ImapGateway
