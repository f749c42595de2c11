/-
The state of one session and what it does to it between awaits.

A session keeps the list of UIDs its client believes in and the flags it told it
last.  The log is auxiliary: it holds what the session wrote, newest first, each
response with the UIDs the session had at that moment, and notes of what the
session recorded without writing it.
-/
import ImapGateway.Mailbox.Mutate
import ImapGateway.Imap.Attributes

namespace ImapGateway
namespace Imap

open Async Mailbox

inductive State where
  | notAuthenticated
  | authenticated
  | selected
  | logout
  deriving DecidableEq, Repr

/-! ## Responses -/

inductive Code where
  | text (s : String)
  | capability
  | readOnly
  | readWrite
  | unseen (seq : Nat)
  | permanentFlags (flags : List Flag)
  | uidvalidity (n : Nat)
  | uidnext (n : Nat)
  | appenduid (uidvalidity uid : Nat)
  /-- The two uid-sets as ranges. -/
  | copyuid (uidvalidity : Nat) (source target : List (Nat × Nat))
  deriving DecidableEq

/-- One item of a FETCH response.  A body stands for the octets of the section
that `attr` names in `raw`. -/
inductive Part where
  | uid (n : Nat)
  | flags (f : Flags)
  | internaldate (d : Datetime)
  | size (n : Nat)
  | body (attr : FetchAttr) (raw : Bytes)
  deriving DecidableEq

/-- A FETCH response carries the UID of its message beside its sequence number,
whether or not the UID is among the parts, and a SEARCH response whether its
numbers are UIDs. -/
inductive Response where
  | tagged (tag status text : String) (code : Option Code)
  | ok (text : String) (code : Code)
  | bye (text : String)
  | exists (n : Nat)
  | recent (n : Nat)
  | expunge (seq : Nat)
  | fetch (seq uid : Nat) (parts : List Part)
  | search (uidMode : Bool) (hits : List Nat)
  | status (name : String) (values : List (String × Nat))
  | other (text : String)
  | continuation (length : Nat)
  deriving DecidableEq

/-! ## The session -/

inductive StoreMode where
  | replace
  | add
  | remove
  deriving DecidableEq

/-- The flags a STORE wants, given the current ones. -/
def StoreMode.wanted (mode : StoreMode) (permanent flags : List Flag) (current : Flags) : Flags :=
  match mode with
  | .add => current ∪ flags.toFinset
  | .remove => current \ flags.toFinset
  | .replace => (current \ permanent.toFinset) ∪ flags.toFinset

inductive Note where
  | sent (r : Response) (uids : List Nat)
  | deselected
  /-- A snapshot became the view of mailbox `name`, with these flags recorded. -/
  | viewed (name : String) (seen : List (Nat × Flags))
  | recorded (uid : Nat) (flags : Flags)
  /-- A silent STORE is about to answer OK. -/
  | stored (uids : List Nat) (mode : StoreMode) (permanent flags : List Flag)
  /-- CLOSE took vanished UIDs out of the view, after this many failed removals. -/
  | dropped (errors : Nat) (uids : List Nat)
  deriving DecidableEq

structure Selected where
  name : String
  readOnly : Bool
  uids : List Nat
  seqOf : Nat → Option Nat
  viewVersion : Nat
  flagsSeen : Nat → Option Flags

structure Session where
  state : State
  inboxId : Option String
  api : Option Client
  logins : Nat
  selected : Option Selected
  deferred : List Nat
  closed : Bool
  log : List Note

def Session.new : Session := ⟨.notAuthenticated, none, none, 0, none, [], false, []⟩

/-- `{uid: i + 1 for i, uid in enumerate(uids)}` -/
def seqTable (uids : List Nat) (uid : Nat) : Option Nat := (uids.zipIdx 1).reverse.lookup uid

inductive Act where
  | send (r : Response)
  | setCredentials (n : Nat) (inboxId apiKey : String)
  | clearCredentials
  | setState (st : State)
  | deselect
  | applySnapshot (snap : Snapshot) (readOnly : Bool)
  | flushPending
  /-- The silent update of CLOSE, after `errors` failed removals. -/
  | dropVanished (errors : Nat)
  | recordFlags (uid : Nat) (flags : Flags)
  | noteStored (uids : List Nat) (mode : StoreMode) (permanent flags : List Flag)
  | defer (n : Nat)
  | takeDeferred
  /-- The client is gone or does not read. -/
  | abort
  deriving DecidableEq

namespace Session

variable (s : Service) (l : Session)

def uids : List Nat := (l.selected.map (·.uids)).getD []

def write (r : Response) : Session := { l with log := .sent r l.uids :: l.log }

def note (n : Note) : Session := { l with log := n :: l.log }

/-- `mailboxes.latest` for the selected mailbox. -/
def latest (sel : Selected) : Option Snapshot :=
  l.inboxId.bind fun inboxId => (lookupMailbox sel.name).bind fun mdef =>
    s.latest (inboxId, mdef.name)

def deletedUids (name : String) : List Nat :=
  match l.inboxId, lookupMailbox name with
  | some inboxId, some mdef => s.store.deletedUids inboxId mdef.name
  | _, _ => []

/-- The flags of the items of a snapshot, each UID once. -/
def seenOf (snap : Snapshot) (deleted : List Nat) : List (Nat × Flags) :=
  snap.items.map fun item => (item.uid, flagsOf item deleted)

/-- `Selected.from_snapshot` -/
def fromSnapshot (snap : Snapshot) (readOnly : Bool) (deleted : List Nat) : Selected :=
  { name := snap.name, readOnly := readOnly, uids := snap.uids, seqOf := seqTable snap.uids,
    viewVersion := snap.version,
    flagsSeen := fun uid => (seenOf snap deleted).reverse.lookup uid }

def applySnapshot (snap : Snapshot) (readOnly : Bool) : Session :=
  let deleted := l.deletedUids s snap.name
  { l with
    selected := some (fromSnapshot snap readOnly deleted),
    state := .selected,
    log := .viewed snap.name (seenOf snap deleted) :: l.log }

/-! ### `flush_pending` -/

def setSelected (sel : Selected) : Session := { l with selected := some sel }

/-- Announce the vanished UIDs among the first `n`, the highest first. -/
def flushVanished (live : List Nat) : Nat → Session → Session
  | 0, l => l
  | n + 1, l =>
    match l.selected with
    | none => l
    | some sel =>
      match sel.uids[n]? with
      | none => flushVanished live n l
      | some uid =>
        if uid ∈ live then flushVanished live n l
        else
          flushVanished live n ((l.write (.expunge (n + 1))).setSelected
            { sel with
              uids := sel.uids.eraseIdx n,
              flagsSeen := Function.update sel.flagsSeen uid none })

/-- Announce the UIDs the view lacks. -/
def flushArrived (items : List Nat) (l : Session) : Session :=
  match l.selected with
  | none => l
  | some sel =>
    let added := items.filter fun uid => decide (uid ∉ sel.uids)
    if added = [] then l
    else
      let uids := (sel.uids ++ added).insertionSort (· ≤ ·)
      (l.setSelected { sel with uids := uids }).write (.exists uids.length)

/-- Announce the flags that differ from those told last. -/
def flushFlags (latest : Snapshot) (deleted : List Nat) : List (Nat × Nat) → Session → Session
  | [], l => l
  | (uid, seq) :: rest, l =>
    match l.selected, latest.byUid uid with
    | some sel, some item =>
      let flags := flagsOf item deleted
      let l := match sel.flagsSeen uid with
        | some previous =>
          if previous ≠ flags then l.write (.fetch seq uid [.uid uid, .flags flags]) else l
        | none => l
      flushFlags latest deleted rest
        (l.setSelected { sel with flagsSeen := Function.update sel.flagsSeen uid (some flags) })
    | _, _ => flushFlags latest deleted rest l

def flushPending : Session :=
  match l.selected with
  | none => l
  | some sel =>
    match l.latest s sel with
    | none => l
    | some latest =>
      let l := flushVanished latest.uids sel.uids.length l
      let l := flushArrived latest.uids l
      match l.selected with
      | none => l
      | some sel =>
        let l := l.setSelected { sel with
          seqOf := seqTable sel.uids, viewVersion := latest.version }
        flushFlags latest (l.deletedUids s sel.name) (sel.uids.zipIdx 1) l

/-- The silent update of the view before CLOSE. -/
def dropVanished (errors : Nat) : Session :=
  match l.selected with
  | none => l
  | some sel =>
    match l.latest s sel with
    | none => l
    | some latest =>
      let uids := sel.uids.filter fun uid => (latest.byUid uid).isSome
      (l.setSelected { sel with
        uids := uids, seqOf := seqTable uids, viewVersion := latest.version }).note
          (.dropped errors (sel.uids.filter fun uid => (latest.byUid uid).isNone))

def recordFlags (uid : Nat) (flags : Flags) : Session :=
  match l.selected with
  | none => l
  | some sel =>
    (l.setSelected { sel with flagsSeen := Function.update sel.flagsSeen uid (some flags) }).note
      (.recorded uid flags)

end Session

def Act.exec (s : Service) : Act → Session → Session
  | send r, l => l.write r
  | setCredentials n inboxId apiKey, l =>
    { l with inboxId := some inboxId, api := some ⟨n, l.logins, apiKey⟩, logins := l.logins + 1 }
  | clearCredentials, l => { l with api := none }
  | setState st, l => { l with state := st }
  | deselect, l => { l with selected := none, state := .authenticated, log := .deselected :: l.log }
  | applySnapshot snap readOnly, l => l.applySnapshot s snap readOnly
  | flushPending, l => l.flushPending s
  | dropVanished errors, l => l.dropVanished s errors
  | recordFlags uid flags, l => l.recordFlags uid flags
  | noteStored uids mode permanent flags, l => l.note (.stored uids mode permanent flags)
  | defer n, l => { l with deferred := l.deferred ++ [n] }
  | takeDeferred, l => { l with deferred := [] }
  | abort, l => { l with closed := true, state := .logout }

end Imap
end ImapGateway
