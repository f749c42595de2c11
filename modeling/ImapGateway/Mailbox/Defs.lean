/-
Mailboxes as label views, their items and snapshots.

Labels are the upstream's strings, flags are IMAP's.  A mailbox is a view over
the labels of messages, or the list of drafts.
-/
import ImapGateway.Store.UidStore
import Mathlib.Data.Finset.Basic
import Mathlib.Data.List.Sort

namespace ImapGateway
namespace Mailbox

inductive Flag where
  | seen
  | answered
  | flagged
  | deleted
  | draft
  deriving DecidableEq, Repr

def flagName : Flag → String
  | .seen => "\\Seen"
  | .answered => "\\Answered"
  | .flagged => "\\Flagged"
  | .deleted => "\\Deleted"
  | .draft => "\\Draft"

abbrev Flags := Finset Flag
abbrev Labels := Finset String

/-- The key of a mailbox: inbox id and mailbox name. -/
abbrev Key := String × String

inductive Kind where
  | messages
  | drafts
  deriving DecidableEq, Repr

structure MailboxDef where
  name : String
  kind : Kind
  queryLabels : List String := []
  excludeLabels : List String := []
  includeTrash : Bool := false
  includeSpam : Bool := false
  permanentFlags : List Flag := []
  appendable : Bool := false
  deriving DecidableEq, Repr

def hiddenLabels : List String := ["trash", "spam"]

def messagePermanent : List Flag := [.seen, .flagged, .deleted]
def trashPermanent : List Flag := [.seen, .flagged]
def draftPermanent : List Flag := [.deleted]

def inbox : MailboxDef where
  name := "INBOX"
  kind := .messages
  queryLabels := ["received"]
  excludeLabels := hiddenLabels
  permanentFlags := messagePermanent

def drafts : MailboxDef where
  name := "Drafts"
  kind := .drafts
  appendable := true
  permanentFlags := draftPermanent

def sent : MailboxDef where
  name := "Sent"
  kind := .messages
  queryLabels := ["sent"]
  excludeLabels := hiddenLabels
  permanentFlags := messagePermanent

def trash : MailboxDef where
  name := "Trash"
  kind := .messages
  queryLabels := ["trash"]
  includeTrash := true
  permanentFlags := trashPermanent

def spam : MailboxDef where
  name := "Spam"
  kind := .messages
  queryLabels := ["spam"]
  includeSpam := true
  permanentFlags := trashPermanent

def mailboxes : List MailboxDef := [inbox, drafts, sent, trash, spam]

/-- Upper case as far as `INBOX` is concerned: besides the ASCII letters only the
dotless i upper-cases to one of its letters. -/
def upper (name : String) : String :=
  name.map fun c => if c = 'ı' then 'I' else c.toUpper

def lookupMailbox (name : String) : Option MailboxDef :=
  if upper name = "INBOX" then some inbox
  else mailboxes.find? fun m => m.name == name

/-- The labels to add and to remove when a flag is set, reversed when it is
cleared. -/
def flagLabels : Flag → Option (List String × List String)
  | .seen => some (["read"], ["unread"])
  | .flagged => some (["starred"], [])
  | _ => none

def messageFlags (labels : Labels) : Flags :=
  (if "unread" ∉ labels then {Flag.seen} else ∅) ∪
    (if "starred" ∈ labels then {Flag.flagged} else ∅)

def draftFlags : Flags := {Flag.draft, Flag.seen}

/-! ## Dates -/

def isLeap (year : Nat) : Bool :=
  decide (year % 4 = 0) && (decide (year % 100 ≠ 0) || decide (year % 400 = 0))

def daysInMonth (year month : Nat) : Nat :=
  if month = 2 then if isLeap year then 29 else 28
  else if month ∈ [4, 6, 9, 11] then 30 else 31

/-- The number of a day, the first of January of the year 1 being day 1. -/
def toordinal (year month day : Nat) : Nat :=
  365 * (year - 1) + (year - 1) / 4 - (year - 1) / 100 + (year - 1) / 400 +
    (List.range month).foldl (fun days m => if m = 0 then days else days + daysInMonth year m) 0 + day

/-- An aware `datetime`: its fields as its zone has them, the month counted from 0, and how many
microseconds the zone is ahead of UTC. -/
structure Datetime where
  year : Nat
  month : Fin 12
  day : Nat
  hour : Nat
  minute : Nat
  second : Nat
  microsecond : Nat
  utcoffset : Int
  deriving DecidableEq

/-- `date().toordinal()`, in the zone of the datetime. -/
def Datetime.date (d : Datetime) : Nat := toordinal d.year (d.month.val + 1) d.day

/-- The microseconds of UTC, which datetimes are compared by whatever their zones. -/
def Datetime.instant (d : Datetime) : Int :=
  Int.ofNat ((((d.date * 24 + d.hour) * 60 + d.minute) * 60 + d.second) * 1000000 + d.microsecond) -
    d.utcoffset

/-- `datetime.fromtimestamp(0, UTC)`, the date of what has no date that can be read. -/
def Datetime.epoch : Datetime := ⟨1970, 0, 1, 0, 0, 0, 0, 0⟩

/-- White space as `str.strip` has it. -/
def isWhite (ch : Char) : Bool :=
  decide (9 ≤ ch.toNat ∧ ch.toNat ≤ 13) || decide (28 ≤ ch.toNat ∧ ch.toNat ≤ 32) ||
    decide (0x2000 ≤ ch.toNat ∧ ch.toNat ≤ 0x200A) ||
    decide (ch.toNat ∈ [0x85, 0xA0, 0x1680, 0x2028, 0x2029, 0x202F, 0x205F, 0x3000])

/-- `str.strip` -/
def stripped (text : List Char) : List Char :=
  ((text.dropWhile isWhite).reverse.dropWhile isWhite).reverse

/-! ## Items and snapshots -/

structure Item where
  uid : Nat
  remoteKey : String
  remoteId : String
  flags : Flags
  internaldate : Datetime
  sizeHint : Option Int
  labels : Labels
  from_ : String := ""
  to_ : List String := []
  subject : String := ""
  deriving DecidableEq

/-- An entry of a listing before it has a UID: its sort key, of the instant of its date and its
id, its remote key and id, and the item `build` completes with a UID. -/
structure Entry where
  sortKey : Int × String
  remoteKey : String
  remoteId : String
  item : Item
  deriving DecidableEq

def Entry.build (e : Entry) (uid : Nat) : Item := { e.item with uid := uid }

/-- `listing` numbers the listing the snapshot was built from.  The code keeps no
such number. -/
structure Snapshot where
  inboxId : String
  name : String
  uidvalidity : Nat
  uidnext : Nat
  items : List Item
  version : Nat
  syncedAt : Nat
  listing : Nat
  deriving DecidableEq

def Snapshot.key (snap : Snapshot) : Key := (snap.inboxId, snap.name)

def Snapshot.uids (snap : Snapshot) : List Nat := snap.items.map (·.uid)

/-- `by_uid`: of two items with one UID the later one counts. -/
def Snapshot.byUid (snap : Snapshot) (uid : Nat) : Option Item :=
  snap.items.reverse.find? fun item => item.uid == uid

/-- An item's flags including the persisted `\Deleted` mark. -/
def flagsOf (item : Item) (deleted : List Nat) : Flags :=
  if item.uid ∈ deleted then item.flags ∪ {Flag.deleted} else item.flags

/-- Sort keys in the order of tuples of a time and a string. -/
def sortLe (a b : Entry) : Bool :=
  decide (a.sortKey.1 < b.sortKey.1) ||
    (decide (a.sortKey.1 = b.sortKey.1) && decide (a.sortKey.2 ≤ b.sortKey.2))

def sortEntries (entries : List Entry) : List Entry :=
  entries.insertionSort fun a b => sortLe a b = true

def sortItems (items : List Item) : List Item :=
  items.insertionSort fun a b => a.uid ≤ b.uid

theorem Snapshot.byUid_some {snap : Snapshot} {uid : Nat} {item : Item}
    (h : snap.byUid uid = some item) : item ∈ snap.items ∧ item.uid = uid := by
  refine ⟨List.mem_reverse.mp (List.mem_of_find?_eq_some h), ?_⟩
  simpa using List.find?_some h

theorem Snapshot.byUid_isSome {snap : Snapshot} {uid : Nat} :
    (snap.byUid uid).isSome = true ↔ uid ∈ snap.uids := by
  simp [Snapshot.byUid, Snapshot.uids, List.find?_isSome]

theorem mem_sortItems {items : List Item} {item : Item} : item ∈ sortItems items ↔ item ∈ items :=
  List.mem_insertionSort _

theorem mem_sortEntries {entries : List Entry} {e : Entry} :
    e ∈ sortEntries entries ↔ e ∈ entries := List.mem_insertionSort _

end Mailbox
end ImapGateway
