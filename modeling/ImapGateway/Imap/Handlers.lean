/-
The command handlers.
-/
import ImapGateway.Imap.Search

namespace ImapGateway
namespace Imap

open Async Mailbox

/-- A coroutine of a connection. -/
abbrev Prog (α : Type) := Coro (Service × Session) (Mailbox.Act ⊕ Act) Req Req.Answer Exc α

variable (cfg : Config) (txt : TextConfig)

/-- Run a coroutine of the service. -/
def svc {α : Type} (x : Svc α) : Prog α := x.lift Sum.inl Prod.fst

def service : Prog Service := do return (← Coro.read).1

def session : Prog Session := do return (← Coro.read).2

def act (p : Act) : Prog Unit := Coro.perform (.inr p)

def send (r : Response) : Prog Unit := act (.send r)

def bad (text : String) : Exc := .commandFailed "BAD" text none

def no (text : String) : Exc := .commandFailed "NO" text none

def noWith (text code : String) : Exc := .commandFailed "NO" text (some code)

/-- Raise the exception when the condition holds. -/
def refuse (c : Prop) [Decidable c] (e : Exc) : Prog Unit := if c then throw e else return ()

/-- Wait until the client has read what was written, or give the connection up. -/
def flush : Prog Unit := do
  if (← session).closed then return ()
  match ← Coro.attempt (svc (ask .drain)) with
  | .ok _ => return ()
  | .error .cancelled => throw .cancelled
  | .error _ => act .abort

def requireState (states : List State) : Prog Unit := do
  refuse ((← session).state ∉ states) (bad "command not allowed in this state")

def requireSelected : Prog Selected := do
  let l ← session
  match l.state, l.selected with
  | .selected, some sel => return sel
  | _, _ => throw (bad "no mailbox selected")

/-- The client and the inbox the handlers assert. -/
def context : Prog (Client × String) := do
  let l ← session
  match l.api, l.inboxId with
  | some api, some inboxId => return (api, inboxId)
  | _, _ => throw .internal

/-- The mailbox of a view that is selected. -/
def mailboxOf (name : String) : Prog MailboxDef :=
  match lookupMailbox name with
  | some mdef => return mdef
  | none => throw .internal

/-- The latest snapshot of a mailbox, listed now if there is none. -/
def latestOrSync (t : Tid) (api : Client) (inboxId : String) (mdef : MailboxDef) :
    Prog Snapshot := do
  match (← service).latest (inboxId, mdef.name) with
  | some snap => return snap
  | none => svc (syncForced cfg t api inboxId mdef.name)

/-- The sequence numbers and UIDs a command names. -/
def targets (sel : Selected) (uidMode : Bool) (set : SequenceSet) : List (Nat × Nat) :=
  if uidMode then
    (selectNumbers set sel.uids).map fun uid => ((sel.seqOf uid).getD 0, uid)
  else
    (selectNumbers set ((List.range sel.uids.length).map (· + 1))).map fun seq =>
      (seq, sel.uids.getD (seq - 1) 0)

/-! ## Any state -/

def noop (t : Tid) (tag : String) : Prog Unit := do
  let l ← session
  match l.state, l.api, l.inboxId, l.selected with
  | .selected, some api, some inboxId, some sel =>
    let _ ← svc (syncForced cfg t api inboxId sel.name)
    act .flushPending
  | _, _, _, _ => pure ()
  send (.tagged tag "OK" "NOOP completed" none)

def logout (tag : String) : Prog Unit := do
  send (.bye "logging out")
  send (.tagged tag "OK" "LOGOUT completed" none)
  act (.setState .logout)

/-- A command that only writes: it is refused, or answers with `lines`. -/
def plain (tag name : String) (states : List State) (lines : List String) : Prog Unit := do
  requireState states
  Coro.each (fun line => send (.other line)) lines
  send (.tagged tag "OK" (name ++ " completed") none)

/-! ## LOGIN -/

def printable (text : String) : Bool :=
  text ≠ "" && text.toList.all fun c => decide (0x21 ≤ c.toNat) && decide (c.toNat ≤ 0x7E)

def invalidCredentials : Exc := noWith "invalid credentials" "AUTHENTICATIONFAILED"

/-- A key that is not scoped to an inbox has to show that it can read this one. -/
def checkInbox (api : Client) (userid : String) (identity : Identity) : Prog Unit :=
  if identity.scopeType ≠ "inbox" ∨ orEmpty identity.inboxId = "" then do
    match ← Coro.attempt (svc (ask (.getInbox api userid))) with
    | .ok _ => return ()
    | .error .notFound => throw invalidCredentials
    | .error .badRequest => throw invalidCredentials
    | .error e => throw e
  else return ()

def login (n : Nat) (tag userid password : String) : Prog Unit := do
  refuse ((← session).state ≠ .notAuthenticated) (bad "already authenticated")
  refuse (!printable userid || !printable password) invalidCredentials
  refuse (cfg.allowedInboxId ≠ "" ∧ userid ≠ cfg.allowedInboxId) invalidCredentials
  act (.setCredentials n userid password)
  let (api, _) ← context
  let identity ← svc (ask (.authMe api))
  let scopedInbox := orEmpty identity.inboxId
  refuse (identity.scopeType = "inbox" ∧ scopedInbox ≠ "" ∧ scopedInbox ≠ userid) invalidCredentials
  checkInbox api userid identity
  act (.setState .authenticated)
  send (.tagged tag "OK" "LOGIN completed" (some .capability))

/-! ## SELECT and EXAMINE -/

def allFlags : List Flag := [.seen, .answered, .flagged, .deleted, .draft]

/-- The first sequence number whose item is unseen. -/
def firstUnseen (snap : Snapshot) (uids : List Nat) : Option Nat :=
  ((uids.zipIdx 1).find? fun x =>
    decide (Flag.seen ∉ ((snap.byUid x.1).map (·.flags)).getD ∅)).map (·.2)

/-- The snapshot becomes the view, and the client learns its size. -/
def openView (snap : Snapshot) (readOnly : Bool) : Prog Unit := do
  act (.applySnapshot snap readOnly)
  send (.other "FLAGS (\\Seen \\Answered \\Flagged \\Deleted \\Draft)")
  send (.exists snap.uids.length)

def sendUnseen (seq : Option Nat) : Prog Unit :=
  match seq with
  | some seq => send (.ok ("Message " ++ toString seq ++ " is first unseen") (.unseen seq))
  | none => return ()

def select (t : Tid) (tag name : String) (readOnly : Bool) : Prog Unit := do
  requireState [.authenticated, .selected]
  act .deselect
  match lookupMailbox name with
  | none => throw (no "mailbox does not exist")
  | some mdef =>
    let (api, inboxId) ← context
    let snap ← svc (syncForced cfg t api inboxId mdef.name)
    openView snap readOnly
    send (.recent 0)
    sendUnseen (firstUnseen snap snap.uids)
    send (.ok "Limited" (.permanentFlags (if readOnly then [] else mdef.permanentFlags)))
    send (.ok "UIDs valid" (.uidvalidity snap.uidvalidity))
    send (.ok "Predicted next UID" (.uidnext snap.uidnext))
    send (.tagged tag "OK" (if readOnly then "EXAMINE completed" else "SELECT completed")
      (some (if readOnly then .readOnly else .readWrite)))

/-! ## FETCH -/

/-- What a FETCH does for every message. -/
structure FetchPlan where
  attrs : List FetchAttr
  deleted : List Nat
  needsBody : Bool
  setsSeen : Bool

/-- The parts of a FETCH response, in the order of the attributes. -/
def fetchParts (api : Client) (inboxId : String) (mdef : MailboxDef) (plan : FetchPlan)
    (uid : Nat) (item : Item) (raw : Option Bytes) (parts : List Part) (attr : FetchAttr) :
    Prog (List Part) :=
  match attr.kind with
  | .uid => return parts ++ [.uid uid]
  | .flags => do
    let flags := flagsOf item plan.deleted
    act (.recordFlags uid flags)
    return parts ++ [.flags flags]
  | .internaldate => return parts ++ [.internaldate item.internaldate]
  | .size => match raw with
    | some data => return parts ++ [.size data.length]
    | none => return parts ++ [.size (← svc (sizeOf cfg api inboxId mdef item))]
  | .body => match raw with
    | some data => return parts ++ [.body attr data]
    | none => throw .internal

/-- The octets of the message, when an attribute asks for a part of them. -/
def fetchRaw (api : Client) (inboxId : String) (mdef : MailboxDef) (plan : FetchPlan)
    (item : Item) : Prog (Option Bytes) :=
  if plan.needsBody then do return some (← svc (rawBytes cfg api inboxId mdef item))
  else return none

/-- Everything FETCH says about one message. -/
def fetchItem (api : Client) (inboxId : String) (mdef : MailboxDef) (plan : FetchPlan)
    (uid : Nat) (item : Item) : Prog (List Part) := do
  let raw ← fetchRaw cfg api inboxId mdef plan item
  if plan.setsSeen ∧ Flag.seen ∉ item.flags then
    let item ← svc (setFlag api inboxId mdef item .seen true)
    let parts ← Coro.foldEach (fetchParts cfg api inboxId mdef plan uid item raw) [] plan.attrs
    if plan.attrs.any fun a => decide (a.kind = .flags) then return parts
    else do
      let flags := flagsOf item plan.deleted
      act (.recordFlags uid flags)
      return parts ++ [.flags flags]
  else
    Coro.foldEach (fetchParts cfg api inboxId mdef plan uid item raw) [] plan.attrs

def fetchOne (api : Client) (inboxId : String) (mdef : MailboxDef) (plan : FetchPlan)
    (snap : Snapshot) (target : Nat × Nat) : Prog Unit := do
  match snap.byUid target.2 with
  | none => return ()
  | some item =>
    match ← Coro.attempt (fetchItem cfg api inboxId mdef plan target.2 item) with
    | .ok parts =>
      send (.fetch target.1 target.2 parts)
      flush
    | .error .notFound => return ()
    | .error e => throw e

def fetch (t : Tid) (tag : String) (uidMode : Bool) (set : SequenceSet)
    (attrs : List FetchAttr) : Prog Unit := do
  let sel ← requireSelected
  let (api, inboxId) ← context
  let attrs := if uidMode ∧ (attrs.any fun a => decide (a.kind = .uid)) = false then
    { kind := .uid, label := "UID" } :: attrs else attrs
  let mdef ← mailboxOf sel.name
  let snap ← latestOrSync cfg t api inboxId mdef
  let deleted := (← session).deletedUids (← service) sel.name
  let needsBody := attrs.any fun a => decide (a.kind = .body)
  let setsSeen := (attrs.any fun a => decide (a.kind = .body) && !a.peek) && !sel.readOnly &&
    decide (Flag.seen ∈ mdef.permanentFlags)
  Coro.each (fetchOne cfg api inboxId mdef ⟨attrs, deleted, needsBody, setsSeen⟩ snap)
    (targets sel uidMode set)
  send (.tagged tag "OK" (if uidMode then "UID FETCH completed" else "FETCH completed") none)

/-! ## APPEND -/

def append (t : Tid) (tag name : String) (message : Except String DraftFields)
    (clientId : String) : Prog Unit := do
  requireState [.authenticated, .selected]
  match lookupMailbox name with
  | none => throw (noWith "mailbox does not exist" "TRYCREATE")
  | some mdef =>
    refuse (mdef.appendable = false) (noWith "APPEND is only supported on Drafts" "CANNOT")
    match message with
    | .error text => throw (noWith text "CANNOT")
    | .ok fields =>
      let (api, inboxId) ← context
      let (uidvalidity, uid, resync) ← svc (appendDraft cfg t api inboxId fields (some clientId))
      send (.tagged tag "OK" "APPEND completed" (some (.appenduid uidvalidity uid)))
      act (.defer resync)

/-! ## SEARCH -/

def searchOne (ctx : SearchContext) (crit : Crit) (snap : Snapshot) (uidMode : Bool)
    (hits : List Nat) (target : Nat × Nat) : Prog (List Nat) := do
  match snap.byUid target.1 with
  | none => return hits
  | some item =>
    match ← Coro.attempt (svc (evaluate txt item target.2 ctx crit)) with
    | .ok true => return hits ++ [if uidMode then target.1 else target.2]
    | .ok false => return hits
    | .error .notFound => return hits
    | .error e => throw e

def search (t : Tid) (tag : String) (uidMode : Bool) (crit : Crit) : Prog Unit := do
  let sel ← requireSelected
  let (api, inboxId) ← context
  let mdef ← mailboxOf sel.name
  let snap ← latestOrSync cfg t api inboxId mdef
  let ctx : SearchContext :=
    { seqs := (List.range sel.uids.length).map (· + 1), uids := sel.uids,
      deleted := (← session).deletedUids (← service) sel.name,
      raw := rawBytes cfg api inboxId mdef, size := sizeOf cfg api inboxId mdef }
  let hits ← Coro.foldEach (searchOne txt ctx crit snap uidMode) [] (sel.uids.zipIdx 1)
  send (.search uidMode hits)
  send (.tagged tag "OK" (if uidMode then "UID SEARCH completed" else "SEARCH completed") none)

/-! ## STORE -/

/-- What a STORE asks for. -/
structure StorePlan where
  mode : StoreMode
  silent : Bool
  flags : List Flag
  uidMode : Bool

/-- Change one flag of an item.  The loop carries the item and the `\Deleted`
marks. -/
def storeFlag (api : Client) (inboxId : String) (mdef : MailboxDef) (current wanted : Flags)
    (uid : Nat) (r : Item × List Nat) (flag : Flag) : Prog (Item × List Nat) :=
  let after := decide (flag ∈ wanted)
  if decide (flag ∈ current) = after then return r
  else if flag = .deleted then do
    svc (perform (.setDeleted (inboxId, mdef.name) [uid] after))
    return (r.1, if after then uid :: r.2 else r.2.filter (· ≠ uid))
  else if (flagLabels flag).isSome then do
    return (← svc (setFlag api inboxId mdef r.1 flag after), r.2)
  else return r

def storeOne (api : Client) (inboxId : String) (mdef : MailboxDef) (plan : StorePlan)
    (snap : Snapshot) (deleted : List Nat) (target : Nat × Nat) : Prog (List Nat) := do
  match snap.byUid target.2 with
  | none => return deleted
  | some item =>
    let current := flagsOf item deleted
    let wanted := plan.mode.wanted mdef.permanentFlags plan.flags current
    let (item, deleted) ← Coro.foldEach
      (storeFlag api inboxId mdef current wanted target.2) (item, deleted) mdef.permanentFlags
    let final := flagsOf item deleted
    act (.recordFlags target.2 final)
    if !plan.silent then
      send (.fetch target.1 target.2
        (if plan.uidMode then [.uid target.2, .flags final] else [.flags final]))
    return deleted

/-- The refusal of the first flag that the view cannot change. -/
def unchangeable (mdef : MailboxDef) (flags : List Flag) (name : String) : Exc :=
  let flag := ((flags.find? fun f => decide (f ∉ mdef.permanentFlags)).map flagName).getD ""
  noWith ("flag " ++ flag ++ " cannot be changed in " ++ name) "CANNOT"

def store (t : Tid) (tag : String) (set : SequenceSet) (plan : StorePlan) : Prog Unit := do
  let sel ← requireSelected
  let (api, inboxId) ← context
  refuse sel.readOnly (noWith "mailbox is read-only" "READ-ONLY")
  let mdef ← mailboxOf sel.name
  refuse (plan.flags.any fun f => decide (f ∉ mdef.permanentFlags))
    (unchangeable mdef plan.flags sel.name)
  let snap ← latestOrSync cfg t api inboxId mdef
  let targets := targets sel plan.uidMode set
  let deleted := (← session).deletedUids (← service) sel.name
  let _ ← Coro.foldEach (storeOne api inboxId mdef plan snap) deleted targets
  if plan.silent then
    act (.noteStored (targets.map (·.2)) plan.mode mdef.permanentFlags plan.flags)
  send (.tagged tag "OK" (if plan.uidMode then "UID STORE completed" else "STORE completed") none)

/-! ## EXPUNGE and CLOSE -/

/-- The refusal of a removal that left items behind. -/
def unremoved (errors : List Exc) : Exc :=
  noWith (toString errors.length ++ " item(s) could not be removed; try again") "UNAVAILABLE"

/-- Remove the items and show what is left. -/
def removeItems (t : Tid) (api : Client) (inboxId : String) (mdef : MailboxDef)
    (items : List Item) (silent : Bool) : Prog Unit := do
  let errors ← svc (expungeItems cfg api inboxId mdef items)
  let _ ← svc (syncForced cfg t api inboxId mdef.name)
  act (if silent then .dropVanished errors.length else .flushPending)
  refuse (errors ≠ []) (unremoved errors)

/-- The marked UIDs a removal is for, ascending. -/
def doomedUids (marked : List Nat) (onlyUids : Option (List Nat)) : List Nat :=
  (marked.filter fun uid =>
    match onlyUids with
    | none => true
    | some uids => decide (uid ∈ uids)).insertionSort (· ≤ ·)

/-- `_expunge_deleted` -/
def expungeDeleted (t : Tid) (onlyUids : Option (List Nat)) (silent : Bool) : Prog Unit := do
  let sel ← requireSelected
  let (api, inboxId) ← context
  let mdef ← mailboxOf sel.name
  refuse sel.readOnly (noWith "mailbox is read-only" "READ-ONLY")
  let marked := (← session).deletedUids (← service) sel.name
  if Flag.deleted ∉ mdef.permanentFlags then
    refuse (marked ≠ []) (noWith
      "permanent deletion is not supported; items in this view cannot be expunged" "CANNOT")
  else if doomedUids marked onlyUids = [] then return ()
  else do
    let items := match (← service).latest (inboxId, mdef.name) with
      | some snap => (doomedUids marked onlyUids).filterMap snap.byUid
      | none => []
    removeItems cfg t api inboxId mdef items silent

def expunge (t : Tid) (tag : String) : Prog Unit := do
  expungeDeleted cfg t none false
  send (.tagged tag "OK" "EXPUNGE completed" none)

def uidExpunge (t : Tid) (tag : String) (set : SequenceSet) : Prog Unit := do
  let sel ← requireSelected
  expungeDeleted cfg t (some (selectNumbers set sel.uids)) false
  send (.tagged tag "OK" "UID EXPUNGE completed" none)

/-- `close_with_expunge` -/
def close (t : Tid) (tag : String) : Prog Unit := do
  let sel ← requireSelected
  if sel.readOnly = false ∧ (← session).deletedUids (← service) sel.name ≠ [] then
    expungeDeleted cfg t none true
  act .deselect
  send (.tagged tag "OK" "CLOSE completed" none)

/-! ## COPY and MOVE -/

/-- The loop of `_uid_set` over sorted UIDs, with the run it is in. -/
def uidRuns : List Nat → Nat → Nat → List (Nat × Nat)
  | [], start, prev => [(start, prev)]
  | u :: us, start, prev =>
    if u = prev + 1 then uidRuns us start u else (start, prev) :: uidRuns us u u

/-- `_uid_set`: the sorted UIDs as ranges. -/
def uidSet (uids : List Nat) : List (Nat × Nat) :=
  match uids.insertionSort (· ≤ ·) with
  | [] => []
  | u :: us => uidRuns us u u

/-- The items of a snapshot a COPY names. -/
def copyItems (sel : Selected) (snap : Snapshot) (uidMode : Bool) (set : SequenceSet) :
    List Item := ((targets sel uidMode set).map (·.2)).filterMap snap.byUid

/-- How a COPY or MOVE was asked for. -/
structure CopyPlan where
  uidMode : Bool
  move : Bool

def CopyPlan.verb (plan : CopyPlan) : String := if plan.move then "MOVE" else "COPY"

def CopyPlan.label (plan : CopyPlan) : String :=
  if plan.uidMode then "UID " ++ plan.verb else plan.verb

/-- The loop of labelling is over: answer with the pairs. -/
def copyFinish (t : Tid) (tag : String) (plan : CopyPlan) (api : Client) (inboxId : String)
    (source : MailboxDef) (pairs : List (Nat × Nat)) : Prog Unit := do
  svc (perform (.mailboxInfo (inboxId, trash.name)))
  let uidvalidity := (((← service).store.selectMailbox inboxId trash.name).map (·.1)).getD 0
  let code := Code.copyuid uidvalidity (uidSet (pairs.map (·.1))) (uidSet (pairs.map (·.2)))
  if plan.move then do
    send (.ok "Moved" code)
    let _ ← svc (syncForced cfg t api inboxId source.name)
    act .flushPending
    send (.tagged tag "OK" (plan.label ++ " completed") none)
  else send (.tagged tag "OK" (plan.label ++ " completed") (some code))

def copy (t : Tid) (tag : String) (plan : CopyPlan) (set : SequenceSet) (name : String) :
    Prog Unit := do
  let sel ← requireSelected
  let (api, inboxId) ← context
  match lookupMailbox name with
  | none => throw (noWith "mailbox does not exist" "TRYCREATE")
  | some dest =>
    refuse (dest.name ≠ trash.name)
      (noWith (plan.verb ++ " is only supported into Trash") "CANNOT")
    let source ← mailboxOf sel.name
    refuse (source.kind ≠ .messages)
      (noWith "drafts cannot be copied to Trash; delete them instead" "CANNOT")
    refuse (plan.move ∧ sel.readOnly) (noWith "mailbox is read-only" "READ-ONLY")
    let snap ← latestOrSync cfg t api inboxId source
    let items := copyItems sel snap plan.uidMode set
    if items = [] then send (.tagged tag "OK" (plan.label ++ " completed") none)
    else do
      let pairs ← svc (copyToTrash cfg t api inboxId source items)
      copyFinish cfg t tag plan api inboxId source pairs

/-! ## STATUS -/

def status (t : Tid) (tag name : String) (wanted : List String) : Prog Unit := do
  requireState [.authenticated, .selected]
  match lookupMailbox name with
  | none => throw (no "mailbox does not exist")
  | some mdef =>
    let (api, inboxId) ← context
    let snap ← svc (sync cfg t api inboxId mdef.name false)
    let value : String → Nat := fun key =>
      match key with
      | "MESSAGES" => snap.items.length
      | "UIDNEXT" => snap.uidnext
      | "UIDVALIDITY" => snap.uidvalidity
      | "UNSEEN" => (snap.items.filter fun i => decide (Flag.seen ∉ i.flags)).length
      | _ => 0
    send (.status mdef.name (wanted.map fun key => (key, value key)))
    send (.tagged tag "OK" "STATUS completed" none)

end Imap
end ImapGateway
