/-
The state all sessions share, and what the service does to it between awaits.

Everything the service does without suspending is one action.  `Act.exec` says
what an action performed by coroutine `t` does to the state.  What a coroutine
of the service keeps in its local variables across awaits, and others have to be
told about, is kept here under its name: the listing it is collecting, the pairs
it has copied.

The fields and actions marked auxiliary record what happened and decide nothing.
-/
import ImapGateway.Mailbox.Defs

namespace ImapGateway
namespace Mailbox

/-- The coroutines: one for each connection, one for each task. -/
inductive Tid where
  | conn (n : Nat)
  | task (n : Nat)
  deriving DecidableEq, Repr

/-- An API client object.  A connection makes a new one at every LOGIN. -/
structure Client where
  owner : Nat
  serial : Nat
  apiKey : String
  deriving DecidableEq, Repr

inductive Exc where
  /-- 401 or 403. -/
  | auth (status : Nat)
  | notFound
  | badRequest
  | unavailable
  /-- A tagged NO or BAD: status, text and response code. -/
  | commandFailed (status text : String) (code : Option String)
  | timeout
  /-- The command's deadline passed.  `except Exception` does not catch it. -/
  | cancelled
  /-- Any other exception. -/
  | internal
  deriving DecidableEq, Repr

abbrev Bytes := List UInt8

/-! ## The byte cache -/

/-- Oldest first.  `size` is the sum the code keeps. -/
structure ByteCache where
  maxBytes : Nat
  items : List (String × Bytes)
  size : Nat
  deriving DecidableEq

namespace ByteCache

def find (c : ByteCache) (key : String) : Option Bytes := c.items.lookup key

def moveToEnd (c : ByteCache) (key : String) : ByteCache :=
  match c.find key with
  | some data => { c with items := (c.items.filter fun x => x.1 != key) ++ [(key, data)] }
  | none => c

/-- The loop of `put`: drop the oldest until the rest fits. -/
def evict (maxBytes : Nat) : List (String × Bytes) → Nat → List (String × Bytes) × Nat
  | [], size => ([], size)
  | x :: items, size =>
    if maxBytes < size then evict maxBytes items (size - x.2.length) else (x :: items, size)

def put (c : ByteCache) (key : String) (data : Bytes) : ByteCache :=
  if c.maxBytes < data.length then
    { c with items := c.items.filter fun x => x.1 != key }
  else
    let size := match c.find key with
      | some old => c.size - old.length
      | none => c.size
    let r := evict c.maxBytes ((c.items.filter fun x => x.1 != key) ++ [(key, data)])
      (size + data.length)
    { c with items := r.1, size := r.2 }

end ByteCache

/-- Byte-cache keys are namespaced by inbox and object kind. -/
def ckey (inboxId kind ident : String) : String :=
  inboxId ++ "\x00" ++ kind ++ "\x00" ++ ident

/-! ## The state -/

/-- A pin: an item the gateway put into a mailbox itself, shown until a listing
shows it or `expires` has passed. -/
structure Pin where
  remoteKey : String
  expires : Nat
  entry : Entry
  deriving DecidableEq

/-- Labels the gateway wrote itself, held over what listings report. -/
structure Hold where
  expires : Nat
  labels : Labels
  deriving DecidableEq

/-- An entry of `_inflight`: the task, the generation its listing was tagged
with, and the client it runs with. -/
structure Inflight where
  task : Nat
  startedGen : Nat
  owner : Client
  deriving DecidableEq

inductive Job where
  | listing (api : Client) (inboxId : String) (mdef : MailboxDef)
  /-- The follow-up listing of an APPEND. -/
  | resync (api : Client) (inboxId : String)
  deriving DecidableEq

inductive TaskState where
  | queued
  | running
  | finished (result : Except Exc Snapshot)
  deriving DecidableEq

/-- `reaped`: the callbacks of a finished task have run.  `startedGen` and `no`
are auxiliary: the tag of the listing, and its number once it has started. -/
structure Task where
  job : Job
  state : TaskState
  reaped : Bool
  startedGen : Nat
  no : Option Nat
  deriving DecidableEq

/-- A listing under way.  `no` numbers it among all listings, and `allocated` is
the mailbox's next UID at its start (both auxiliary). -/
structure Listing where
  inboxId : String
  mdef : MailboxDef
  no : Nat
  allocated : Nat
  seen : List String
  entries : List Entry
  deriving DecidableEq

def Listing.key (l : Listing) : Key := (l.inboxId, l.mdef.name)

/-! ### Auxiliary state -/

/-- A PATCH under way, and once upstream has applied it the number of its
application and the labels it left. -/
structure Patch where
  inboxId : String
  messageId : String
  add : List String
  remove : List String
  applied : Option (Nat × Labels)
  deriving DecidableEq

/-- A mutation under way: the mailboxes it is to bump, whether it goes on after an
exception that is not a cancellation, and how many listings had started before
its last successful write. -/
structure Mutation where
  keys : List Key
  tolerant : Bool
  wrote : Option Nat
  deriving DecidableEq

/-- Octets upstream returned: a download of a message, with the size announced for
it, or the rendering of a draft. -/
inductive Source where
  | raw (inboxId messageId : String) (size : Nat) (data : Bytes)
  | draft (inboxId draftId : String) (data : Bytes)
  deriving DecidableEq

/-- What the proofs remember and the code does not.

`started` counts the listings started.  `bumpedAt` is its value at the last bump
of a mailbox, `promised` its value at the last write of the mutations of the
mailbox that have ended, and `since` what was promised when a coroutine last
called `sync`.  `applied` counts the writes of labels upstream, PATCHes of the
gateway and what other clients do.  `remote` holds the labels upstream has, with
the number of the write that left them, and `heldFrom` the number of the PATCH a hold comes from.
`shown` holds the items published so far with their mailboxes, `source` what a
coroutine got from upstream last, `recalled` the item whose remembered size it
looked up in its present read and what it found, and `reported` the sizes
reported for a message. -/
structure Aux where
  started : Nat
  mutations : Tid → Option Mutation
  bumpedAt : Key → Nat
  promised : Key → Nat
  since : Tid → Nat
  patches : Tid → Option Patch
  applied : Nat
  remote : String × String → Nat × Labels
  heldFrom : String × String → Nat
  shown : List (Key × Item)
  source : Tid → Option Source
  recalled : Tid → Option (String × String × Option Nat)
  reported : String × String → List Nat

structure Service where
  store : Store.Db
  watermark : Nat
  clock : Int
  now : String
  /-- `loop.time()`, in milliseconds. -/
  time : Nat
  cache : ByteCache
  latest : Key → Option Snapshot
  inflight : Key → Option Inflight
  versions : Key → Nat
  generation : Key → Nat
  pinned : Key → List Pin
  labelOverrides : String × String → Option Hold
  tasks : Nat → Option Task
  nextTask : Nat
  listings : Tid → Option Listing
  published : Tid → Option Snapshot
  copied : Tid → List (Nat × Nat)
  aux : Aux

/-! ## What upstream answers -/

/-- `str(x or "")` -/
def orEmpty (x : Option String) : String := x.getD ""

/-- `a or b` on strings: the empty one is passed over. -/
def strOr (a b : Option String) : Option String :=
  if orEmpty a = "" then b else a

/-- `frozenset(str(x) for x in (labels or []))` -/
def labelSet (labels : Option (List String)) : Labels := (labels.getD []).toFinset

structure MessageJson where
  messageId : Option String
  labels : Option (List String)
  timestamp : Option String
  createdAt : Option String
  size : Option Int
  from_ : Option String
  to_ : Option (List String)
  subject : Option String
  deriving DecidableEq

structure DraftJson where
  draftId : Option String
  updatedAt : Option String
  createdAt : Option String
  labels : Option (List String)
  to_ : Option (List String)
  cc : Option (List String)
  bcc : Option (List String)
  replyTo : Option (List String)
  subject : Option String
  text : Option String
  deriving DecidableEq

/-- The answer to a PATCH. -/
structure PatchResult where
  labels : Option (List String)
  deriving DecidableEq

/-- The parts of the program outside the mailbox logic: the rendering of a draft
as a message (`none` when it raises), the sixteen hexadecimal digits `content_key`
takes from a hash, `datetime.fromisoformat`, and the token drawn for each connection.
`pages` bounds the pages a listing may have. -/
structure Config where
  refreshInterval : Nat
  allowedInboxId : String
  pages : Nat
  renderDraft : DraftJson → String → Option Bytes
  digest : Bytes → String
  digest_length : ∀ data, (digest data).length = 16
  /-- The datetime and whether it has a zone; `none` when it raises. -/
  fromisoformat : String → Option (Datetime × Bool)
  connId : Nat → String

def pinTtl : Nat := 120000
def overrideTtl : Nat := 60000

variable (cfg : Config)

def contentKey (draftId : String) (rendered : Bytes) : String :=
  draftId ++ "#" ++ cfg.digest rendered

/-- `parse_iso8601`.  A naive datetime is taken to be in UTC. -/
def parseIso8601 (value : Option String) : Datetime :=
  let text := stripped (orEmpty value).toList
  if text = [] then .epoch
  else
    let text := if text.getLast? = some 'Z' then text.dropLast ++ "+00:00".toList else text
    match cfg.fromisoformat (String.ofList text) with
    | none => .epoch
    | some (dt, aware) => if aware then dt else { dt with utcoffset := 0 }

/-! ## Between two awaits -/

namespace Service

variable (s : Service)

def holdLabels (inboxId messageId : String) (labels : Labels) : Service :=
  { s with
    labelOverrides :=
      Function.update s.labelOverrides (inboxId, messageId) (some ⟨s.time + overrideTtl, labels⟩) }

/-- `_effective_labels`: the labels shown for a message listed with `listed`, and
the holds left. -/
def effectiveLabels (inboxId messageId : String) (listed : Labels) :
    Labels × (String × String → Option Hold) :=
  match s.labelOverrides (inboxId, messageId) with
  | none => (listed, s.labelOverrides)
  | some hold =>
    if listed = hold.labels ∨ hold.expires < s.time then
      (listed, Function.update s.labelOverrides (inboxId, messageId) none)
    else (hold.labels, s.labelOverrides)

/-! ### The store -/

def nextUidvalidity : Nat :=
  min (max 1 (max s.clock.toNat (s.watermark + 1))) Store.maxUidvalidity

/-- The watermark after an operation that makes the mailbox's row if there is none. -/
def watermarkAfter (key : Key) : Nat :=
  if (s.store.selectMailbox key.1 key.2).isSome then s.watermark else s.nextUidvalidity

def ensureUids (key : Key) (keys : List (String × String)) : Service × List (String × Nat) :=
  let r := s.store.ensureUids s.nextUidvalidity s.now key.1 key.2 keys
  ({ s with store := r.1, watermark := s.watermarkAfter key }, r.2)

def tombstoneMissing (key : Key) (present : List String) : Service :=
  { s with store := s.store.tombstoneMissing s.now key.1 key.2 present }

def mailboxInfo (key : Key) : Service × (Nat × Nat) :=
  let r := s.store.ensureMailbox s.nextUidvalidity key.1 key.2
  ({ s with store := r.1, watermark := s.watermarkAfter key }, r.2)

/-- The three calls a listing makes: the map of UIDs, and UIDVALIDITY and UIDNEXT. -/
def reconcile (key : Key) (keys : List (String × String)) :
    Service × List (String × Nat) × (Nat × Nat) :=
  let uidMap := s.ensureUids key keys
  let info := (uidMap.1.tombstoneMissing key (keys.map (·.1))).mailboxInfo key
  (info.1, uidMap.2, info.2)

/-! ### Pins -/

/-- `_apply_pins`: the pins that stay, and the entries with theirs added. -/
def applyPins (time : Nat) (pins : List Pin) (entries : List Entry) : List Pin × List Entry :=
  let kept := pins.filter fun pin =>
    decide (pin.remoteKey ∉ entries.map (·.remoteKey)) && decide (time ≤ pin.expires)
  (kept, entries ++ kept.map (·.entry))

def unpin (key : Key) (remoteKey : String) : Service :=
  { s with
    pinned := Function.update s.pinned key
      ((s.pinned key).filter fun pin => pin.remoteKey != remoteKey) }

/-- `_pin`: a key pinned before keeps its place. -/
def pin (key : Key) (remoteKey : String) (entry : Entry) : Service :=
  let pin : Pin := ⟨remoteKey, s.time + pinTtl, entry⟩
  let pins := s.pinned key
  { s with
    pinned := Function.update s.pinned key
      (if pins.any (·.remoteKey == remoteKey) then
        pins.map fun p => if p.remoteKey = remoteKey then pin else p
      else pins ++ [pin]) }

def bump (key : Key) : Service :=
  { s with
    generation := Function.update s.generation key (s.generation key + 1),
    aux := { s.aux with bumpedAt := Function.update s.aux.bumpedAt key s.aux.started } }

/-! ### Listings -/

def startListing (t : Tid) (inboxId : String) (mdef : MailboxDef) : Service :=
  let no := s.aux.started + 1
  { s with
    listings := Function.update s.listings t
      (some ⟨inboxId, mdef, no, s.store.nextUid inboxId mdef.name, [], []⟩),
    tasks := match t with
      | .task n => Function.update s.tasks n ((s.tasks n).map fun task => { task with no := some no })
      | .conn _ => s.tasks,
    aux := { s.aux with started := no } }

def see (t : Tid) (id : String) : Service :=
  { s with
    listings := Function.update s.listings t
      ((s.listings t).map fun l => { l with seen := l.seen ++ [id] }) }

def addEntry (t : Tid) (e : Entry) : Service :=
  { s with
    listings := Function.update s.listings t
      ((s.listings t).map fun l => { l with entries := l.entries ++ [e] }) }

def messageTime (m : MessageJson) : Datetime :=
  parseIso8601 cfg (strOr m.timestamp m.createdAt)

/-- The entry of a message listed with the effective `labels`. -/
def messageEntry (m : MessageJson) (labels : Labels) : Entry :=
  let id := orEmpty m.messageId
  let ts := messageTime cfg m
  { sortKey := (ts.instant, id), remoteKey := id, remoteId := id,
    item := { uid := 0, remoteKey := id, remoteId := id, flags := messageFlags labels,
              internaldate := ts, sizeHint := m.size, labels := labels,
              from_ := orEmpty m.from_, to_ := m.to_.getD [], subject := orEmpty m.subject } }

/-- The body of the loop of `_collect_messages`, for a message with an id. -/
def collectMessage (t : Tid) (m : MessageJson) : Service :=
  match s.listings t with
  | none => s
  | some l =>
    let id := orEmpty m.messageId
    if id ∈ l.seen then s
    else
      let s := s.see t id
      let effective := s.effectiveLabels l.inboxId id (labelSet m.labels)
      let s := { s with labelOverrides := effective.2 }
      if l.mdef.excludeLabels.any (· ∈ effective.1) then s
      else s.addEntry t (messageEntry cfg m effective.1)

/-- The entry of a draft rendered as `rendered`. -/
def draftEntry (inboxId : String) (d : DraftJson) (rendered : Bytes) : Entry :=
  let id := orEmpty d.draftId
  let key := contentKey cfg id rendered
  let ts := parseIso8601 cfg d.updatedAt
  { sortKey := (ts.instant, id), remoteKey := key, remoteId := id,
    item := { uid := 0, remoteKey := key, remoteId := id, flags := draftFlags,
              internaldate := ts, sizeHint := some rendered.length, labels := labelSet d.labels,
              from_ := inboxId, to_ := d.to_.getD [], subject := orEmpty d.subject } }

/-- The rest of the loop of `_collect_drafts`, once the draft is rendered. -/
def collectDraft (t : Tid) (d : DraftJson) (rendered : Bytes) : Service :=
  match s.listings t with
  | none => s
  | some l =>
    let key := contentKey cfg (orEmpty d.draftId) rendered
    { s with cache := s.cache.put (ckey l.inboxId "body" key) rendered }.addEntry t
      (draftEntry cfg l.inboxId d rendered)

/-- The rest of `_do_sync`, once the entries are collected. -/
def publish (t : Tid) : Service :=
  match s.listings t with
  | none => s
  | some l =>
    let key := l.key
    let pins := applyPins s.time (s.pinned key) l.entries
    let entries := sortEntries pins.2
    let keys := entries.map fun e => (e.remoteKey, e.remoteId)
    let r := s.reconcile key keys
    let items := sortItems (entries.map fun e => e.build ((r.2.1.lookup e.remoteKey).getD 0))
    let version := s.versions key + 1
    let snap : Snapshot := ⟨key.1, key.2, r.2.2.1, r.2.2.2, items, version, s.time, l.no⟩
    { r.1 with
      pinned := Function.update s.pinned key pins.1,
      versions := Function.update s.versions key version,
      latest := Function.update s.latest key (some snap),
      listings := Function.update s.listings t none,
      published := Function.update s.published t (some snap),
      aux := { s.aux with shown := s.aux.shown ++ items.map fun item => (key, item) } }

def dropListing (t : Tid) : Service :=
  { s with listings := Function.update s.listings t none }

/-! ### Mutations -/

/-- `append_draft` from the answer to the POST to the pin. -/
def appendCommit (inboxId : String) (created : DraftJson) (rendered : Bytes) : Service :=
  let id := orEmpty created.draftId
  let key := contentKey cfg id rendered
  let version := ckey inboxId "draftv" (id ++ ":" ++ orEmpty created.updatedAt)
  let s := { s with cache := (s.cache.put version rendered).put (ckey inboxId "body" key) rendered }
  let s := (s.ensureUids (inboxId, drafts.name) [(key, id)]).1
  let s := (s.mailboxInfo (inboxId, drafts.name)).1
  s.pin (inboxId, drafts.name) key (draftEntry cfg inboxId created rendered)

/-- The labels a removal leaves, from the answer to its PATCH. -/
def trashedLabels (item : Item) (result : PatchResult) : Labels :=
  let labels := labelSet result.labels
  if "trash" ∈ labels then labels else item.labels ∪ {"trash"}

def trashEntry (item : Item) (labels : Labels) : Entry :=
  { sortKey := (item.internaldate.instant, item.remoteId), remoteKey := item.remoteId,
    remoteId := item.remoteId,
    item := { item with flags := messageFlags labels, labels := labels } }

/-- The body of the loop of `copy_to_trash`, after the PATCH. -/
def copyItem (t : Tid) (inboxId : String) (item : Item) (result : PatchResult) : Service :=
  let labels := trashedLabels item result
  let s := s.holdLabels inboxId item.remoteId labels
  let uids := s.ensureUids (inboxId, trash.name) [(item.remoteId, item.remoteId)]
  let trashUid := (uids.2.lookup item.remoteId).getD 0
  let s := uids.1.pin (inboxId, trash.name) item.remoteId (trashEntry item labels)
  { s with copied := Function.update s.copied t (s.copied t ++ [(item.uid, trashUid)]) }

/-- The labels `set_flag` leaves, from the answer to its PATCH. -/
def flaggedLabels (item : Item) (add remove : List String) (result : PatchResult) : Labels :=
  if result.labels.getD [] = [] then (item.labels ∪ add.toFinset) \ remove.toFinset
  else labelSet result.labels

def flaggedItem (item : Item) (labels : Labels) : Item :=
  { item with flags := messageFlags labels, labels := labels }

def replaceItem (key : Key) (updated : Item) : Service :=
  match s.latest key with
  | none => s
  | some snap =>
    if (snap.byUid updated.uid).isNone then s
    else
      let items := snap.items.map fun i => if i.uid = updated.uid then updated else i
      { s with latest := Function.update s.latest key (some { snap with items := items }) }

/-- `set_flag` after the PATCH. -/
def setFlagCommit (key : Key) (item : Item) (add remove : List String) (result : PatchResult) :
    Service :=
  let labels := flaggedLabels item add remove result
  (s.holdLabels key.1 item.remoteId labels).replaceItem key (flaggedItem item labels)

/-- What `expunge_items` does after the PATCH for a message. -/
def expungeCommit (inboxId : String) (item : Item) (result : PatchResult) : Service :=
  s.holdLabels inboxId item.remoteId (trashedLabels item result)

end Service

end Mailbox
end ImapGateway
