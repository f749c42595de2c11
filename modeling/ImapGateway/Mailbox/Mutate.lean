/-
Mutations and content: APPEND, COPY into Trash, flags, removal, bytes and sizes.
-/
import ImapGateway.Mailbox.Sync

namespace ImapGateway
namespace Mailbox

open Async

variable (cfg : Config)

/-- Put the beginning and the end of a mutation on record.  `keys` are the
mailboxes it writes to, and a tolerant one goes on after an exception that is not
a cancellation. -/
def mutation {α : Type} (keys : List Key) (tolerant : Bool) (body : Svc α) : Svc α := do
  perform (.beginMutation keys tolerant)
  let r ← Coro.attempt body
  perform .endMutation
  Coro.ofExcept r

/-- `update_labels`, with the PATCH on record. -/
def updateLabels (api : Client) (inboxId messageId : String) (add remove : List String) :
    Svc PatchResult := do
  perform (.sendPatch ⟨inboxId, messageId, add, remove, none⟩)
  tryCatch (ask (.updateLabels api inboxId messageId add remove)) fun e => do
    perform .losePatch
    throw e

/-- First contact with a mailbox: what is already there gets its UIDs first. -/
def firstContact (t : Tid) (api : Client) (inboxId name : String) : Svc Unit := do
  if ((← state).latest (inboxId, name)).isNone then
    let _ ← syncForced cfg t api inboxId name

/-! ## APPEND -/

/-- What `append_draft` does with the answer to the POST. -/
def appendCreated (api : Client) (inboxId : String) (created : DraftJson) :
    Svc (Nat × Nat × Nat) :=
  let id := orEmpty created.draftId
  if id = "" then throw .unavailable
  else
    match cfg.renderDraft created inboxId with
    | none => throw .internal
    | some rendered => do
      perform (.obtained (.draft inboxId id rendered))
      perform (.appendCommit inboxId created rendered)
      let s ← state
      perform (.bump (inboxId, drafts.name))
      perform (.createTask (.resync api inboxId) 0)
      let uid := (s.store.liveUid inboxId drafts.name (contentKey cfg id rendered)).getD 0
      let uidvalidity := ((s.store.selectMailbox inboxId drafts.name).map (·.1)).getD 0
      return (uidvalidity, uid, s.nextTask)

/-- `append_draft`: the UIDVALIDITY and UID of the new draft, and the task that
lists it. -/
def appendDraft (t : Tid) (api : Client) (inboxId : String) (fields : DraftFields)
    (clientId : Option String) : Svc (Nat × Nat × Nat) :=
  mutation [(inboxId, drafts.name)] false do
    firstContact cfg t api inboxId drafts.name
    let created ← ask (.createDraft api inboxId fields clientId)
    perform .wrote
    appendCreated cfg api inboxId created

/-! ## COPY and MOVE into Trash -/

def copyMessage (api : Client) (inboxId : String) (item : Item) : Svc Unit := do
  let result ← updateLabels api inboxId item.remoteId ["trash"] []
  perform .wrote
  perform (.copyItem inboxId item result)

/-- `copy_to_trash`: the pairs of a source UID and a Trash UID. -/
def copyToTrash (t : Tid) (api : Client) (inboxId : String) (mdef : MailboxDef)
    (items : List Item) : Svc (List (Nat × Nat)) :=
  mutation [(inboxId, mdef.name), (inboxId, trash.name)] false do
    firstContact cfg t api inboxId trash.name
    perform .beginCopy
    Coro.each (copyMessage api inboxId) items
    let pairs := (← state).copied t
    if pairs ≠ [] then
      perform (.bump (inboxId, mdef.name))
      perform (.bump (inboxId, trash.name))
    return pairs

/-! ## Flags -/

def setFlag (api : Client) (inboxId : String) (mdef : MailboxDef) (item : Item) (flag : Flag)
    (value : Bool) : Svc Item :=
  match mdef.kind, flagLabels flag with
  | .messages, some (add, remove) => do
    let (add, remove) := if value then (add, remove) else (remove, add)
    let result ← updateLabels api inboxId item.remoteId add remove
    perform (.setFlagCommit (inboxId, mdef.name) item add remove result)
    return Service.flaggedItem item (Service.flaggedLabels item add remove result)
  | _, _ => throw .unavailable

/-! ## Removal -/

/-- Remove one item.  A draft edited upstream since it was listed is refused. -/
def expungeItem (api : Client) (inboxId : String) (mdef : MailboxDef) (item : Item) : Svc Unit :=
  match mdef.kind with
  | .drafts => do
    let current ← ask (.getDraft api inboxId item.remoteId)
    match cfg.renderDraft current inboxId with
    | none => throw .internal
    | some rendered =>
      if contentKey cfg item.remoteId rendered ≠ item.remoteKey then throw .unavailable
      ask (.deleteDraft api inboxId item.remoteId)
      perform .wrote
      perform (.unpin (inboxId, mdef.name) item.remoteKey)
  | .messages => do
    let result ← updateLabels api inboxId item.remoteId ["trash"] []
    perform .wrote
    perform (.expungeCommit inboxId item result)

/-- One round of the loop of `expunge_items`: the errors so far, and whether
anything was removed. -/
def expungeRound (api : Client) (inboxId : String) (mdef : MailboxDef)
    (r : List Exc × Bool) (item : Item) : Svc (List Exc × Bool) := do
  match ← Coro.attempt (expungeItem cfg api inboxId mdef item) with
  | .ok () => return (r.1, true)
  | .error .cancelled => throw .cancelled
  | .error e => return (r.1 ++ [e], r.2)

/-- `expunge_items`: the errors encountered. -/
def expungeItems (api : Client) (inboxId : String) (mdef : MailboxDef) (items : List Item) :
    Svc (List Exc) :=
  mutation [(inboxId, mdef.name)] true do
    let (errors, removed) ← Coro.foldEach (expungeRound cfg api inboxId mdef) ([], false) items
    if removed then
      perform (.bump (inboxId, mdef.name))
    return errors

/-! ## Content -/

/-- A size as the cache stores it: its decimal digits. -/
def sizeText (n : Nat) : Bytes := (Nat.toDigits 10 n).map fun c => UInt8.ofNat c.toNat

def sizeOfText (data : Bytes) : Nat := data.foldl (fun n c => 10 * n + (c.toNat - 48)) 0

def cacheGet (key : String) : Svc (Option Bytes) := do
  let found := (← state).cache.find key
  perform (.cacheGet key)
  return found

/-- The size remembered for an item. -/
def recallSize (inboxId : String) (item : Item) : Svc (Option Nat) := do
  let remembered ← cacheGet (ckey inboxId "size" item.remoteKey)
  perform (.recalled inboxId item.remoteKey (remembered.map sizeOfText))
  return remembered.map sizeOfText

/-- The octets of a message are kept if they have the size announced with the URL. -/
def keepRaw (inboxId : String) (mdef : MailboxDef) (item : Item) (size : Nat) (data : Bytes) :
    Svc Bytes :=
  if data.length ≠ size then throw .unavailable
  else do
    perform (.obtained (.raw inboxId item.remoteId size data))
    perform (.served inboxId mdef item data)
    perform (.cachePut (ckey inboxId "body" item.remoteKey) data)
    perform (.cachePut (ckey inboxId "size" item.remoteKey) (sizeText data.length))
    return data

def rawBytes (api : Client) (inboxId : String) (mdef : MailboxDef) (item : Item) : Svc Bytes := do
  perform .beginRead
  let bodyKey := ckey inboxId "body" item.remoteKey
  match ← cacheGet bodyKey with
  | some cached =>
    perform (.served inboxId mdef item cached)
    return cached
  | none =>
    match mdef.kind with
    | .drafts =>
      let full ← ask (.getDraft api inboxId item.remoteId)
      match cfg.renderDraft full inboxId with
      | none => throw .internal
      | some rendered =>
        if contentKey cfg item.remoteId rendered ≠ item.remoteKey then throw .notFound
        else do
          perform (.obtained (.draft inboxId item.remoteId rendered))
          perform (.served inboxId mdef item rendered)
          perform (.cachePut bodyKey rendered)
          return rendered
    | .messages =>
      let info ← ask (.getRawMeta api inboxId item.remoteId)
      let remembered ← recallSize inboxId item
      if remembered.any (· ≠ info.size) then throw .unavailable
      else do
        let data ← ask (.download api info.downloadUrl)
        keepRaw inboxId mdef item info.size data

def sizeOf (api : Client) (inboxId : String) (mdef : MailboxDef) (item : Item) : Svc Nat := do
  perform .beginRead
  match ← cacheGet (ckey inboxId "body" item.remoteKey) with
  | some cached =>
    perform (.sized inboxId mdef item cached.length)
    return cached.length
  | none =>
    match mdef.kind with
    | .drafts => return (← rawBytes cfg api inboxId mdef item).length
    | .messages =>
      match ← recallSize inboxId item with
      | some remembered =>
        perform (.sized inboxId mdef item remembered)
        return remembered
      | none =>
        let info ← ask (.getRawMeta api inboxId item.remoteId)
        perform (.sized inboxId mdef item info.size)
        perform (.cachePut (ckey inboxId "size" item.remoteKey) (sizeText info.size))
        return info.size

end Mailbox
end ImapGateway
