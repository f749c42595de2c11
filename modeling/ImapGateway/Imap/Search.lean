/-
SEARCH criteria and their evaluation.
-/
import ImapGateway.Imap.Session

namespace ImapGateway
namespace Imap

open Async Mailbox

/-! ## Sequence sets -/

/-- `*`: a number above every UID and sequence number. -/
def star : Nat := 2 ^ 32

structure SequenceSet where
  ranges : List (Nat × Nat)
  deriving DecidableEq

/-- The range a pair stands for when the largest candidate is `largest`. -/
def inRange (largest n : Nat) (r : Nat × Nat) : Bool :=
  let lo := if r.1 = star then largest else r.1
  let hi := if r.2 = star then largest else r.2
  decide (min lo hi ≤ n) && decide (n ≤ max lo hi)

/-- The candidates, ascending, that fall in the set. -/
def selectNumbers (set : SequenceSet) (candidates : List Nat) : List Nat :=
  match candidates.getLast? with
  | none => []
  | some largest => candidates.filter fun n => set.ranges.any (inRange largest n)

/-! ## Criteria -/

inductive DateTest where
  | before
  | on
  | since
  deriving DecidableEq

inductive RawText where
  | cc
  | bcc
  | body
  | text
  deriving DecidableEq

inductive ItemText where
  | sender
  | recipients
  | subject
  deriving DecidableEq

inductive Crit where
  | all
  | none
  | and (args : List Crit)
  | or (a b : Crit)
  | not (a : Crit)
  | flag (f : Flag) (wanted : Bool)
  | keyword (label : String) (wanted : Bool)
  | uidset (set : SequenceSet)
  | seqset (set : SequenceSet)
  | size (larger : Bool) (n : Nat)
  | date (sent : Bool) (test : DateTest) (day : Int)
  | itemText (key : ItemText) (needle : String)
  | rawText (key : RawText) (needle : String)
  | header (field needle : String)

/-- What SEARCH takes from the email package and from Unicode: the day of a `Date` field,
case folding, and the decoded parts of a message. -/
structure TextConfig where
  sentDate : Bytes → Option Int
  casefold : String → String
  rawText : RawText → Bytes → String
  headerValue : String → Bytes → String
  headerNames : Bytes → List String
  contains : String → String → Bool
  lower : String → String

structure SearchContext where
  seqs : List Nat
  uids : List Nat
  deleted : List Nat
  raw : Item → Svc Bytes
  size : Item → Svc Nat

def DateTest.holds (test : DateTest) (date day : Int) : Bool :=
  match test with
  | .before => decide (date < day)
  | .on => decide (date = day)
  | .since => decide (day ≤ date)

variable (txt : TextConfig)

def itemTextOf (key : ItemText) (item : Item) : String :=
  match key with
  | .sender => item.from_
  | .recipients => ", ".intercalate item.to_
  | .subject => item.subject

mutual

def evaluate (item : Item) (seq : Nat) (ctx : SearchContext) : Crit → Svc Bool
  | .all => return true
  | .none => return false
  | .and args => evaluateAll item seq ctx args
  | .or a b => do
    if ← evaluate item seq ctx a then return true
    evaluate item seq ctx b
  | .not a => return !(← evaluate item seq ctx a)
  | .flag f wanted => return decide (f ∈ flagsOf item ctx.deleted) == wanted
  | .keyword label wanted => return decide (label ∈ item.labels) == wanted
  | .uidset set => return decide (item.uid ∈ selectNumbers set ctx.uids)
  | .seqset set => return decide (seq ∈ selectNumbers set ctx.seqs)
  | .size larger n => do
    let size ← ctx.size item
    return if larger then decide (n < size) else decide (size < n)
  | .date sent test day => do
    if sent then
      match txt.sentDate (← ctx.raw item) with
      | none => return false
      | some date => return test.holds date day
    else return test.holds (item.internaldate.date) day
  | .itemText key needle => return txt.contains needle (txt.casefold (itemTextOf key item))
  | .rawText key needle => do
    return txt.contains needle (txt.casefold (txt.rawText key (← ctx.raw item)))
  | .header field needle => do
    let value := txt.headerValue field (← ctx.raw item)
    if needle ≠ "" then return txt.contains needle (txt.casefold value)
    else return decide (txt.lower field ∈ txt.headerNames (← ctx.raw item))

/-- The criteria of an AND, until one fails. -/
def evaluateAll (item : Item) (seq : Nat) (ctx : SearchContext) : List Crit → Svc Bool
  | [] => return true
  | c :: cs => do
    if ← evaluate item seq ctx c then evaluateAll item seq ctx cs
    else return false

end

end Imap
end ImapGateway
