/-
The operations of the UID store, as the statements they run.

`Sql` is the store's connection at work: the tables on disk, the tables an open
transaction sees, the sidecar file with the UIDVALIDITY watermark, and for each
statement still to come whether it fails.  Every operation opens one transaction
and rolls it back when a statement fails.

Beside each operation stands the function on the tables it computes when nothing
fails, under the same name in `Db`.
-/
import ImapGateway.Store.Table
import Mathlib.Data.List.Sort
import Mathlib.Algebra.Group.Nat.Defs

namespace ImapGateway
namespace Store

/-- What a store operation works on.  `faults` tells of each statement to come
whether it fails, and a statement beyond its end succeeds. -/
structure Machine where
  db : Db
  tx : Option Db
  watermark : Nat
  clock : Int
  now : String
  faults : List Bool

abbrev Sql := ExceptT SqlError (StateM Machine)

namespace Sql

variable {α : Type}

/-- One statement: it fails when its turn says so, and otherwise does `f`. -/
def statementOf (f : Machine → Except SqlError (α × Machine)) : Sql α := fun m =>
  let m' := { m with faults := m.faults.tail }
  if m.faults.headD false then (.error .operational, m')
  else match f m' with
    | .ok (a, m'') => (.ok a, m'')
    | .error e => (.error e, m')

/-- Change the tables, inside the open transaction or on disk. -/
def statement (f : Db → Except SqlError Db) : Sql Unit :=
  statementOf fun m => match m.tx with
    | some d => (f d).map fun d' => ((), { m with tx := some d' })
    | none => (f m.db).map fun d' => ((), { m with db := d' })

def query (f : Db → α) : Sql α := statementOf fun m => .ok (f (m.tx.getD m.db), m)

/-- `BEGIN IMMEDIATE` -/
def beginImmediate : Sql Unit :=
  statementOf fun m => match m.tx with
    | some _ => .error .misuse
    | none => .ok ((), { m with tx := some m.db })

def commit : Sql Unit :=
  statementOf fun m => match m.tx with
    | some d => .ok ((), { m with db := d, tx := none })
    | none => .error .misuse

/-- `except BaseException: ROLLBACK; raise` -/
def rollingBack (x : Sql α) : Sql α := fun m =>
  match x m with
  | (.ok a, m') => (.ok a, m')
  | (.error e, m') => (.error e, { m' with tx := none })

/-- The shape every writing operation has. -/
def transaction (body : Sql α) : Sql α := do
  beginImmediate
  rollingBack do
    let a ← body
    commit
    return a

def eachRow (f : α → Db → Except SqlError Db) : List α → Sql Unit
  | [] => return ()
  | x :: xs => do statement (f x); eachRow f xs

end Sql

open Sql

/-! ## Mailbox rows and UIDVALIDITY -/

/-- `_read_watermark`: an unreadable file counts as zero. -/
def readWatermark : Sql Nat := fun m =>
  (.ok (if m.faults.headD false then 0 else m.watermark), { m with faults := m.faults.tail })

/-- `_write_watermark`: a failure is logged and otherwise ignored. -/
def writeWatermark (value : Nat) : Sql Unit := fun m =>
  (.ok (), { m with
    watermark := if m.faults.headD false then m.watermark else value,
    faults := m.faults.tail })

def maxUidvalidity : Nat := 2 ^ 32 - 1

def nextUidvalidity : Sql Nat := do
  let clock := (← get).clock
  let value := max 1 (max clock.toNat ((← readWatermark) + 1))
  let value := min value maxUidvalidity
  writeWatermark value
  return value

def ensureMailbox (inboxId name : String) : Sql (Nat × Nat) := do
  match ← query fun d => d.selectMailbox inboxId name with
  | some row => return row
  | none =>
    let uidvalidity ← nextUidvalidity
    statement fun d => d.insertMailbox inboxId name uidvalidity
    return (uidvalidity, 1)

def mailboxInfo (inboxId name : String) : Sql (Nat × Nat) :=
  transaction (ensureMailbox inboxId name)

/-- The row of a mailbox, with `uidvalidity` for a row created here. -/
def Db.ensureMailbox (d : Db) (uidvalidity : Nat) (inboxId name : String) : Db × (Nat × Nat) :=
  match d.selectMailbox inboxId name with
  | some row => (d, row)
  | none => (d.addMailbox inboxId name uidvalidity, (uidvalidity, 1))

/-! ## Allocation -/

/-- The loop of `ensure_uids`: a UID for each key not live yet, in order. -/
def allocate (inboxId name now : String) :
    List (String × String) → List (String × Nat) → Nat → Sql (List (String × Nat) × Nat)
  | [], live, nextUid => return (live, nextUid)
  | (remoteKey, remoteId) :: keys, live, nextUid =>
    if (live.lookup remoteKey).isSome then allocate inboxId name now keys live nextUid
    else do
      statement fun d => d.insertUid ⟨inboxId, name, nextUid, remoteKey, remoteId, now, none⟩
      allocate inboxId name now keys (live ++ [(remoteKey, nextUid)]) (nextUid + 1)

def ensureUids (inboxId name : String) (keys : List (String × String)) :
    Sql (List (String × Nat)) :=
  transaction do
    let (_, nextUid) ← ensureMailbox inboxId name
    let live ← query fun d => d.liveMap inboxId name
    let now := (← get).now
    let (live', nextUid') ← allocate inboxId name now keys live nextUid
    if nextUid' ≠ nextUid then
      statement fun d => .ok (d.setNextUid inboxId name nextUid')
    return live'

def Db.allocate (inboxId name now : String) :
    List (String × String) → List (String × Nat) → Nat → Db → Db × List (String × Nat) × Nat
  | [], live, nextUid, d => (d, live, nextUid)
  | (remoteKey, remoteId) :: keys, live, nextUid, d =>
    if (live.lookup remoteKey).isSome then allocate inboxId name now keys live nextUid d
    else
      allocate inboxId name now keys (live ++ [(remoteKey, nextUid)]) (nextUid + 1)
        (d.addUid ⟨inboxId, name, nextUid, remoteKey, remoteId, now, none⟩)

def Db.ensureUids (d : Db) (uidvalidity : Nat) (now inboxId name : String)
    (keys : List (String × String)) : Db × List (String × Nat) :=
  let (d, _, nextUid) := d.ensureMailbox uidvalidity inboxId name
  let (d, live, nextUid') := d.allocate inboxId name now keys (d.liveMap inboxId name) nextUid
  (if nextUid' ≠ nextUid then d.setNextUid inboxId name nextUid' else d, live)

/-! ## Tombstones -/

/-- The UIDs of the live keys outside `present`, ascending. -/
def gone (present : List String) (live : List (String × Nat)) : List Nat :=
  ((live.filter fun r => decide (r.1 ∉ present)).map (·.2)).insertionSort (· ≤ ·)

def tombstoneMissing (inboxId name : String) (present : List String) : Sql (List Nat) := do
  let live ← query fun d => d.liveMap inboxId name
  let gone := gone present live
  if gone = [] then return []
  let now := (← get).now
  transaction do
    eachRow (fun uid d => .ok (d.vanish inboxId name uid now)) gone
    eachRow (fun uid d => .ok (d.deleteMark inboxId name uid)) gone
    return gone

def Db.tombstone (d : Db) (now inboxId name : String) (uids : List Nat) : Db :=
  let d := uids.foldl (fun d uid => d.vanish inboxId name uid now) d
  uids.foldl (fun d uid => d.deleteMark inboxId name uid) d

def Db.tombstoneMissing (d : Db) (now inboxId name : String) (present : List String) : Db :=
  d.tombstone now inboxId name (gone present (d.liveMap inboxId name))

/-! ## `\Deleted` marks -/

def setDeleted (inboxId name : String) (uids : List Nat) (value : Bool) : Sql Unit := do
  if uids = [] then return ()
  let now := (← get).now
  transaction do
    if value then
      eachRow (fun uid d => .ok (d.insertMark ⟨inboxId, name, uid, now⟩)) uids
    else
      eachRow (fun uid d => .ok (d.deleteMark inboxId name uid)) uids

def Db.setDeleted (d : Db) (now inboxId name : String) (uids : List Nat) (value : Bool) : Db :=
  if value then uids.foldl (fun d uid => d.insertMark ⟨inboxId, name, uid, now⟩) d
  else uids.foldl (fun d uid => d.deleteMark inboxId name uid) d

end Store
end ImapGateway
