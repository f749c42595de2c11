/-
The command parser.

Octets are fed into a buffer, and draining it yields events.  Between two events
the parser stands in one of two modes: it reads a line, perhaps of a command
whose earlier lines are kept, or it waits for the octets of a literal.
-/
import ImapGateway.Parser.Tokens
import ImapGateway.Stream.Incremental

namespace ImapGateway
namespace Parser

open Octet Incremental

structure Limits where
  maxLine : Nat := 64 * 1024
  maxLiteral : Nat := 1024 * 1024
  maxCommandBytes : Nat := 1024 * 1024 + 64 * 1024
  maxLiterals : Nat := 16

inductive Event where
  | command (tag name : Octets) (args : List Token)
  | continuation (length : Nat)
  | error (tag : Option Octets) (message : String) (fatal : Bool)

def Event.fatal : Event → Bool
  | .error _ _ fatal => fatal
  | _ => false

/-- `_Pending`: a command whose segments are still arriving. -/
structure Pending where
  tag : Option Octets
  pieces : List Piece
  totalBytes : Nat
  literalCount : Nat

/-- `_pending` and `_awaiting_literal`: a literal is awaited only for a command. -/
inductive Mode where
  | line (pending : Option Pending)
  | literal (pending : Pending) (n : Nat)

def isDigit (ch : UInt8) : Bool := decide (0x30 ≤ ch) && decide (ch ≤ 0x39)

/-- `int` of decimal digits. -/
def decimal (digits : Octets) : Nat := digits.foldl (fun n d => 10 * n + (d.toNat - 48)) 0

/-- `_LITERAL_TAIL`: the line without its `{N}`, and N. -/
def literalTail (line : Octets) : Option (Octets × Nat) :=
  match line.reverse with
  | [] => none
  | last :: body =>
    let digits := body.takeWhile isDigit
    match body.dropWhile isDigit with
    | [] => none
    | first :: before =>
      if last = rbrace ∧ first = lbrace ∧ 1 ≤ digits.length ∧ digits.length ≤ 12 ∧
          before.head?.all (fun ch => decide (ch = space) || decide (ch = lparen)) = true then
        some (before.reverse, decimal digits.reverse)
      else none

/-- `_extract_tag` -/
def extractTag (line : Octets) : Option Octets :=
  let head := line.takeWhile fun ch => ch != space
  if 1 ≤ head.length ∧ head.length ≤ 64 ∧
      head.all (fun ch => decide (0x21 ≤ ch) && decide (ch ≤ 0x7E)) = true then some head
  else none

/-- `str.upper` on ASCII. -/
def upper (name : Octets) : Octets :=
  name.map fun ch => if 0x61 ≤ ch ∧ ch ≤ 0x7A then ch - 0x20 else ch

/-- `_build_command` -/
def buildCommand (pending : Pending) : Event :=
  match tokenizePieces pending.pieces with
  | .error message => .error pending.tag message false
  | .ok [] => .error none "empty command" false
  | .ok [_] => .error pending.tag "missing command" false
  | .ok (.atom tag :: .atom name :: args) =>
    if tag.any fun ch => decide (ch = 0x2B) || decide (ch = 0x2A) then
      .error none "invalid tag" false
    else .command tag (upper name) args
  | .ok _ => .error pending.tag "tag and command must be atoms" false

variable (limits : Limits)

/-- `_consume_line`: the event of a line, and the mode after it. -/
def consumeLine (pending : Option Pending) (line : Octets) : Event × Mode :=
  let pending := pending.getD ⟨extractTag line, [], 0, 0⟩
  if 0 ∈ line then (.error pending.tag "NUL byte in command" false, .line none)
  else
    let totalBytes := pending.totalBytes + line.length + 2
    match literalTail line with
    | some (kept, n) =>
      if limits.maxLiteral < n then
        (.error pending.tag ("literal too large (max " ++ toString limits.maxLiteral ++ ")") false,
          .line none)
      else if limits.maxLiterals < pending.literalCount + 1 ∨
          limits.maxCommandBytes < totalBytes + n then
        (.error pending.tag "command too large" false, .line none)
      else
        (.continuation n, .literal
          { pending with
            pieces := pending.pieces ++ [.line kept]
            totalBytes := totalBytes + n
            literalCount := pending.literalCount + 1 } n)
    | none =>
      if limits.maxCommandBytes < totalBytes then
        (.error pending.tag "command too large" false, .line none)
      else (buildCommand { pending with pieces := pending.pieces ++ [.line line] }, .line none)

def tooLong : Event := .error none "line too long" true

/-- A line without a carriage return at its end. -/
def stripCr (line : Octets) : Octets :=
  if line.getLast? = some cr then line.dropLast else line

/-- One round of the loop of `events`. -/
def next (mode : Mode) (buf : Octets) : Outcome Mode UInt8 Event :=
  match mode with
  | .literal pending n =>
    if buf.length < n then .wait
    else .take [] (.line (some { pending with
      pieces := pending.pieces ++ [.literal (buf.take n)] })) (buf.drop n)
  | .line pending =>
    match buf.dropWhile (· != lf) with
    | [] => if limits.maxLine < buf.length then .halt [tooLong] (.line none) [] else .wait
    | _ :: rest =>
      let line := stripCr (buf.takeWhile (· != lf))
      if limits.maxLine < line.length then .halt [tooLong] (.line none) rest
      else .take [(consumeLine limits pending line).1] (consumeLine limits pending line).2 rest

def Mode.cost (mode : Mode) (buf : Octets) : Nat :=
  match mode with
  | .line _ => 2 * buf.length
  | .literal _ _ => 2 * buf.length + 1

theorem Mode.cost_le (mode : Mode) (buf : Octets) : mode.cost buf ≤ 2 * buf.length + 1 := by
  cases mode with
  | line => exact Nat.le_succ _
  | literal => exact Nat.le_refl _

theorem length_dropWhile_lf {buf rest : Octets} {ch : UInt8}
    (h : buf.dropWhile (· != lf) = ch :: rest) : rest.length < buf.length := by
  have hlen := (List.dropWhile_sublist (fun ch => ch != lf) (l := buf)).length_le
  rw [h, List.length_cons] at hlen
  exact hlen

theorem next_lowers {mode mode' : Mode} {buf rest : Octets} {evs : List Event}
    (h : next limits mode buf = .take evs mode' rest) : mode'.cost rest < mode.cost buf := by
  cases mode with
  | literal pending n =>
    simp only [next] at h
    split at h
    · cases h
    · cases h
      simp only [Mode.cost, List.length_drop]
      omega
  | line pending =>
    simp only [next] at h
    split at h
    · split at h <;> cases h
    · rename_i ch tail hdrop
      have hlt := length_dropWhile_lf hdrop
      split at h
      · cases h
      · cases h
        have hle := (consumeLine limits pending (stripCr (buf.takeWhile (· != lf)))).2.cost_le rest
        show _ < 2 * buf.length
        omega

def reader : Reader Mode UInt8 Event where
  next := next limits
  cost mode buf := mode.cost buf
  lowers h := next_lowers limits h

/-! ## The parser -/

structure CommandParser where
  limits : Limits
  mode : Mode
  buf : Octets

def CommandParser.new : CommandParser := ⟨limits, .line none, []⟩

namespace CommandParser

variable (p : CommandParser)

def feed (data : Octets) : CommandParser := { p with buf := p.buf ++ data }

/-- The events the buffer yields, and the parser after them. -/
def events : List Event × CommandParser :=
  let d := (reader p.limits).drain p.mode p.buf
  (d.events, { p with mode := d.state, buf := d.rest })

/-- Feed chunk after chunk and drain the events after each. -/
def feedAll (p : CommandParser) : List Octets → List Event
  | [] => []
  | c :: cs => (p.feed c).events.1 ++ feedAll (p.feed c).events.2 cs

end CommandParser

/-- Up to and including the first fatal error. -/
def uptoFatal : List Event → List Event
  | [] => []
  | e :: es => if e.fatal then [e] else e :: uptoFatal es

end Parser
end ImapGateway
