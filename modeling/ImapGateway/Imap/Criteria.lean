/-
Reading the search keys of a SEARCH.

A key is read from the front of the tokens and may ask for further keys: a group, `NOT` and
`OR` nest.  Every nested key is a nested call, and the interpreter refuses a call once its
stack is full.
-/
import ImapGateway.Imap.Sequences
import Mathlib.Algebra.GroupWithZero.Nat

namespace ImapGateway
namespace Imap

open ImapGateway.Parser
open Mailbox hiding upper

/-! ## Tokens -/

/-- `_Parser.next` -/
def nextToken : List Token → Except ArgError (Token × List Token)
  | [] => .error (.searchSyntax "incomplete search key")
  | tok :: rest => .ok (tok, rest)

/-- `astring_bytes` -/
def astringBytes : Token → Option Octets
  | .atom value | .quoted value | .literal value => some value
  | .list _ => none

/-- `_text` -/
def textOf (tok : Token) : Except ArgError String :=
  match astringBytes tok with
  | none => .error (.searchSyntax "expected a string")
  | some octets =>
    match String.fromUTF8? ⟨octets.toArray⟩ with
    | none => .error (.badCharset "UTF-8")
    | some text => .ok text

variable (uni : Unicode)

/-- `_needle` -/
def needle (tok : Token) : Except ArgError String := do
  return uni.casefold (← textOf tok)

/-- `_seqset` -/
def seqset : Token → Except ArgError SequenceSet
  | .atom value =>
    match parseSequenceSet uni (asText value) with
    | .error (.fetchSyntax text) => .error (.searchSyntax text)
    | r => r
  | _ => .error (.searchSyntax "expected a sequence set")

/-- `_looks_like_seqset`, of an atom: `\d` of ASCII is a digit. -/
def looksLikeSeqset (name : Octets) : Bool :=
  name.all (fun ch => isDigit ch || decide (ch ∈ ascii "*:,")) &&
    name.head?.any fun ch => isDigit ch || decide (ch ∈ ascii "*")

/-! ## Dates -/

def months : List (String × Nat) :=
  [("jan", 1), ("feb", 2), ("mar", 3), ("apr", 4), ("may", 5), ("jun", 6), ("jul", 7), ("aug", 8),
    ("sep", 9), ("oct", 10), ("nov", 11), ("dec", 12)]

/-- `date`, which refuses days that do not exist, and `toordinal`. -/
def date (year month day : Nat) : Option Nat :=
  if 1 ≤ year ∧ year ≤ 9999 ∧ 1 ≤ day ∧ day ≤ daysInMonth year month then
    some (toordinal year month day)
  else none

def isLetter (ch : Char) : Bool := ch.isUpper || ch.isLower

/-- `(\d{1,2})-([A-Za-z]{3})-(\d{4})$`: day, month and year.  `$` lets a line feed follow. -/
def matchDate (text : List Char) : Option (List Char × List Char × List Char) :=
  let isDecimal := fun ch => (uni.decimal ch).isSome
  let day := text.takeWhile isDecimal
  match text.dropWhile isDecimal with
  | '-' :: a :: b :: c :: '-' :: year =>
    let year := if year.getLast? = some '\n' then year.dropLast else year
    if 1 ≤ day.length ∧ day.length ≤ 2 ∧ [a, b, c].all isLetter = true ∧ year.length = 4 ∧
        year.all isDecimal = true then some (day, [a, b, c], year)
    else none
  | _ => none

/-- `_date` -/
def dateOf (tok : Token) : Except ArgError Nat := do
  let text ← textOf tok
  let invalid : ArgError := .searchSyntax "invalid date"
  match matchDate uni text.toList with
  | none => throw invalid
  | some (day, month, year) =>
    match months.lookup (String.ofList (month.map Char.toLower)) with
    | none => throw invalid
    | some month =>
      match uni.int year, uni.int day with
      | .ok year, .ok day =>
        match date year month day with
        | none => throw invalid
        | some n => return n
      | _, _ => throw invalid

/-! ## Keys -/

/-- `_FLAG_KEYS` -/
def flagKeys : List (String × Flag × Bool) :=
  [("ANSWERED", .answered, true), ("UNANSWERED", .answered, false),
    ("DELETED", .deleted, true), ("UNDELETED", .deleted, false),
    ("DRAFT", .draft, true), ("UNDRAFT", .draft, false),
    ("FLAGGED", .flagged, true), ("UNFLAGGED", .flagged, false),
    ("SEEN", .seen, true), ("UNSEEN", .seen, false)]

/-- `_DATE_KEYS` -/
def dateKeys : List (String × Bool × DateTest) :=
  [("BEFORE", false, .before), ("ON", false, .on), ("SINCE", false, .since),
    ("SENTBEFORE", true, .before), ("SENTON", true, .on), ("SENTSINCE", true, .since)]

/-- `_ITEM_TEXT_KEYS` -/
def itemTextKeys : List (String × ItemText) :=
  [("FROM", .sender), ("TO", .recipients), ("SUBJECT", .subject)]

/-- `_RAW_TEXT_KEYS` -/
def rawTextKeys : List (String × RawText) :=
  [("CC", .cc), ("BCC", .bcc), ("BODY", .body), ("TEXT", .text)]

/-- The number behind `LARGER` and `SMALLER`. -/
def numberOf (name : String) : Token → Except ArgError Nat
  | .atom value =>
    if uni.isDigits (asText value).toList then uni.int (asText value).toList
    else .error (.searchSyntax (name ++ " requires a number"))
  | _ => .error (.searchSyntax (name ++ " requires a number"))

/-- What a key takes from a token. -/
inductive Kind where
  | text
  | needle
  | set
  | date
  | number
  deriving DecidableEq

def Kind.Value : Kind → Type
  | text | needle => String
  | set => SequenceSet
  | date | number => Nat

/-- How the key `name` reads a token. -/
def Kind.read (name : String) : (kind : Kind) → Token → Except ArgError kind.Value
  | text, tok => textOf tok
  | needle, tok => Imap.needle uni tok
  | set, tok => seqset uni tok
  | date, tok => dateOf uni tok
  | number, tok => numberOf uni name tok

/-- What stands behind the name of a key. -/
inductive Form where
  | bare (crit : Crit)
  | one (kind : Kind) (crit : kind.Value → Crit)
  | two (crit : String → String → Crit)
  /-- `NOT`, with a key behind it. -/
  | not
  /-- `OR`, with two keys behind it. -/
  | or

/-- The keys `_Parser.key` knows, in the order in which it asks for them. -/
def formOf (name : String) : Option Form :=
  if name = "ALL" then some (.bare .all)
  else match flagKeys.lookup name with
  | some (flag, wanted) => some (.bare (.flag flag wanted))
  | none =>
  if name = "NEW" then some (.bare .none)
  else if name = "OLD" then some (.bare .all)
  else if name = "RECENT" then some (.bare .none)
  else if name = "KEYWORD" ∨ name = "UNKEYWORD" then
    some (.one .text fun label => .keyword label (name == "KEYWORD"))
  else if name = "UID" then some (.one .set .uidset)
  else if name = "NOT" then some .not
  else if name = "OR" then some .or
  else match dateKeys.lookup name with
  | some (sent, test) => some (.one .date fun day => .date sent test (Int.ofNat day))
  | none =>
  if name = "LARGER" ∨ name = "SMALLER" then some (.one .number (.size (name == "LARGER")))
  else match itemTextKeys.lookup name with
  | some key => some (.one .needle (.itemText key))
  | none =>
  match rawTextKeys.lookup name with
  | some key => some (.one .needle (.rawText key))
  | none =>
  if name = "HEADER" then some (.two .header)
  else none

/-- The loop over the keys of a parser, each read by `key`.  A key takes a token, so there are
no more keys than tokens. -/
def keysBy (key : List Token → Except ArgError (Crit × List Token)) :
    Nat → List Token → Except ArgError (List Crit)
  | 0, _ => .ok []
  | _, [] => .ok []
  | n + 1, tokens => do
    let (crit, rest) ← key tokens
    return crit :: (← keysBy key n rest)

/-- `_Parser.key`, where `frames` nested calls of it fit on the stack. -/
def key : Nat → List Token → Except ArgError (Crit × List Token)
  | 0, _ => .error .recursion
  | _, [] => .error (.searchSyntax "incomplete search key")
  | frames + 1, .list items :: rest => do
    let crits ← keysBy (key frames) items.length items
    if crits.isEmpty then throw (.searchSyntax "empty search group")
    return (.and crits, rest)
  | frames + 1, .atom value :: rest =>
    let name := asText (upper value)
    match formOf name with
    | some (.bare crit) => return (crit, rest)
    | some (.one kind crit) => do
      let (tok, rest) ← nextToken rest
      return (crit (← kind.read uni name tok), rest)
    | some (.two crit) => do
      let (tok, rest) ← nextToken rest
      let field ← textOf tok
      let (tok, rest) ← nextToken rest
      return (crit field (← needle uni tok), rest)
    | some .not => do
      let (crit, rest) ← key frames rest
      return (.not crit, rest)
    | some .or => do
      let (a, rest) ← key frames rest
      let (b, rest) ← key frames rest
      return (.or a b, rest)
    | none =>
      if looksLikeSeqset (upper value) then do
        return (.seqset (← seqset uni (.atom value)), rest)
      else throw (.searchSyntax "unsupported search key")
  | _ + 1, _ :: _ => .error (.searchSyntax "search key must be an atom")

/-- What stands behind a `CHARSET`. -/
def withoutCharset : List Token → Except ArgError (List Token)
  | .atom value :: rest =>
    if upper value = ascii "CHARSET" then
      match rest with
      | [] => .error (.searchSyntax "CHARSET requires a value")
      | tok :: rest => do
        let text ← textOf tok
        if uni.upper text ∉ ["UTF-8", "US-ASCII"] then throw (.badCharset (uni.upper text))
        else return rest
    else .ok (.atom value :: rest)
  | tokens => .ok tokens

/-- `parse_search` -/
def parseSearch (frames : Nat) (tokens : List Token) : Except ArgError Crit := do
  let items ← withoutCharset uni tokens
  if items.isEmpty then throw (.searchSyntax "SEARCH requires at least one key")
  return .and (← keysBy (key uni frames) items.length items)

end Imap
end ImapGateway
