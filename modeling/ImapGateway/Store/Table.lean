/-
The tables of the UID store and the SQL statements run on them.

Rows carry the columns of the schema.  A statement either returns the tables it
leaves or fails on a constraint: the primary keys, the foreign key of `uid_map`,
and the partial unique index that lets a remote key be live at most once.
-/
import Mathlib.Data.List.Basic

namespace ImapGateway
namespace Store

structure MailboxRow where
  inboxId : String
  name : String
  uidvalidity : Nat
  nextUid : Nat
  deriving DecidableEq, Repr

structure UidRow where
  inboxId : String
  name : String
  uid : Nat
  remoteKey : String
  remoteId : String
  firstSeenAt : String
  vanishedAt : Option String
  deriving DecidableEq, Repr

structure MarkRow where
  inboxId : String
  name : String
  uid : Nat
  markedAt : String
  deriving DecidableEq, Repr

structure Db where
  mailbox : List MailboxRow
  uidMap : List UidRow
  deletedMark : List MarkRow
  deriving DecidableEq, Repr

inductive SqlError where
  /-- The statement broke a constraint of the schema. -/
  | integrity
  /-- The statement failed for a reason outside the tables: a lock, the disk. -/
  | operational
  /-- A transaction was opened inside another one, or ended outside of one. -/
  | misuse
  deriving DecidableEq, Repr

def MailboxRow.In (inboxId name : String) (r : MailboxRow) : Prop :=
  r.inboxId = inboxId ∧ r.name = name

def UidRow.In (inboxId name : String) (r : UidRow) : Prop :=
  r.inboxId = inboxId ∧ r.name = name

def MarkRow.In (inboxId name : String) (r : MarkRow) : Prop :=
  r.inboxId = inboxId ∧ r.name = name

instance (i n : String) (r : MailboxRow) : Decidable (r.In i n) :=
  inferInstanceAs (Decidable (_ ∧ _))

instance (i n : String) (r : UidRow) : Decidable (r.In i n) :=
  inferInstanceAs (Decidable (_ ∧ _))

instance (i n : String) (r : MarkRow) : Decidable (r.In i n) :=
  inferInstanceAs (Decidable (_ ∧ _))

/-- `vanished_at IS NULL`. -/
def UidRow.live (r : UidRow) : Bool := r.vanishedAt.isNone

namespace Db

def empty : Db := ⟨[], [], []⟩

/-! ## Queries -/

/-- `SELECT uidvalidity, next_uid FROM mailbox WHERE inbox_id = ? AND name = ?` -/
def selectMailbox (d : Db) (inboxId name : String) : Option (Nat × Nat) :=
  (d.mailbox.find? fun r => decide (r.In inboxId name)).map fun r => (r.uidvalidity, r.nextUid)

/-- `SELECT remote_key, uid FROM uid_map WHERE ... AND vanished_at IS NULL` -/
def liveMap (d : Db) (inboxId name : String) : List (String × Nat) :=
  (d.uidMap.filter fun r => decide (r.In inboxId name) && r.live).map fun r => (r.remoteKey, r.uid)

/-- `SELECT uid FROM deleted_mark WHERE inbox_id = ? AND name = ?` -/
def deletedUids (d : Db) (inboxId name : String) : List Nat :=
  (d.deletedMark.filter fun r => decide (r.In inboxId name)).map (·.uid)

/-- The UID of a live key. -/
def liveUid (d : Db) (inboxId name key : String) : Option Nat := (d.liveMap inboxId name).lookup key

/-- The next UID of a mailbox, whose row starts at 1. -/
def nextUid (d : Db) (inboxId name : String) : Nat :=
  ((d.selectMailbox inboxId name).map (·.2)).getD 1

/-! ## Statements -/

/-- `INSERT INTO mailbox ... VALUES (?, ?, ?, 1)` -/
def addMailbox (d : Db) (inboxId name : String) (uidvalidity : Nat) : Db :=
  { d with mailbox := d.mailbox ++ [⟨inboxId, name, uidvalidity, 1⟩] }

def insertMailbox (d : Db) (inboxId name : String) (uidvalidity : Nat) : Except SqlError Db :=
  if d.mailbox.any fun r => decide (r.In inboxId name) then .error .integrity
  else .ok (d.addMailbox inboxId name uidvalidity)

/-- `INSERT INTO uid_map ... VALUES (?, ?, ?, ?, ?, ?, NULL)` -/
def addUid (d : Db) (r : UidRow) : Db := { d with uidMap := d.uidMap ++ [r] }

def insertUid (d : Db) (r : UidRow) : Except SqlError Db :=
  if d.mailbox.any (fun m => decide (m.In r.inboxId r.name)) = false then .error .integrity
  else if d.uidMap.any fun x => decide (x.In r.inboxId r.name) && x.uid == r.uid then
    .error .integrity
  else if d.uidMap.any fun x =>
      decide (x.In r.inboxId r.name) && x.live && x.remoteKey == r.remoteKey then
    .error .integrity
  else .ok (d.addUid r)

/-- `UPDATE mailbox SET next_uid = ? WHERE inbox_id = ? AND name = ?` -/
def setNextUid (d : Db) (inboxId name : String) (nextUid : Nat) : Db :=
  { d with
    mailbox := d.mailbox.map fun r =>
      if r.In inboxId name then { r with nextUid := nextUid } else r }

/-- `UPDATE uid_map SET vanished_at = ? WHERE inbox_id = ? AND name = ? AND uid = ?` -/
def vanish (d : Db) (inboxId name : String) (uid : Nat) (now : String) : Db :=
  { d with
    uidMap := d.uidMap.map fun r =>
      if r.In inboxId name ∧ r.uid = uid then { r with vanishedAt := some now } else r }

/-- `INSERT OR IGNORE INTO deleted_mark ... VALUES (?, ?, ?, ?)` -/
def insertMark (d : Db) (r : MarkRow) : Db :=
  if d.deletedMark.any fun x => decide (x.In r.inboxId r.name) && x.uid == r.uid then d
  else { d with deletedMark := d.deletedMark ++ [r] }

/-- `DELETE FROM deleted_mark WHERE inbox_id = ? AND name = ? AND uid = ?` -/
def deleteMark (d : Db) (inboxId name : String) (uid : Nat) : Db :=
  { d with
    deletedMark := d.deletedMark.filter fun r => decide ¬(r.In inboxId name ∧ r.uid = uid) }

end Db

end Store
end ImapGateway
