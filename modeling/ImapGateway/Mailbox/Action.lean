/-
The actions of the service and the requests it suspends on.
-/
import ImapGateway.Mailbox.Service
import ImapGateway.Async.Pool

namespace ImapGateway
namespace Mailbox

open Async

inductive Act where
  /-- Time passes on the loop's clock. -/
  | tick (d : Nat)
  /-- The wall clock is read again. -/
  | wall (clock : Int) (now : String)
  | createTask (job : Job) (startedGen : Nat)
  | beginTask (n : Nat)
  | finishTask (n : Nat) (result : Except Exc Snapshot)
  /-- The callbacks of a finished task run. -/
  | reap (n : Nat)
  | startListing (inboxId : String) (mdef : MailboxDef)
  | see (id : String)
  | collectMessage (m : MessageJson)
  | collectDraft (d : DraftJson) (rendered : Bytes)
  | publish
  | dropListing
  | cacheGet (key : String)
  | cachePut (key : String) (data : Bytes)
  | appendCommit (inboxId : String) (created : DraftJson) (rendered : Bytes)
  | beginCopy
  | copyItem (inboxId : String) (item : Item) (result : PatchResult)
  | bump (key : Key)
  | setFlagCommit (key : Key) (item : Item) (add remove : List String) (result : PatchResult)
  | expungeCommit (inboxId : String) (item : Item) (result : PatchResult)
  | unpin (key : Key) (remoteKey : String)
  | setDeleted (key : Key) (uids : List Nat) (value : Bool)
  | mailboxInfo (key : Key)
  /-- Auxiliary: a mutation begins, has written, has ended. -/
  | beginMutation (keys : List Key) (tolerant : Bool)
  | wrote
  | endMutation
  /-- Auxiliary: `sync(force=True)` is called and returns. -/
  | called (key : Key)
  | returned (key : Key) (snap : Snapshot)
  /-- Auxiliary: a PATCH is sent, is applied upstream, fails. -/
  | sendPatch (p : Patch)
  | applyPatch
  | losePatch
  /-- Auxiliary: another client of the API leaves a message with other labels. -/
  | relabel (inboxId messageId : String) (labels : List String)
  /-- Auxiliary: octets have come from upstream. -/
  | obtained (source : Source)
  /-- Auxiliary: a read of octets or a size begins, has looked up the size
  remembered, returns. -/
  | beginRead
  | recalled (inboxId remoteKey : String) (size : Option Nat)
  | served (inboxId : String) (mdef : MailboxDef) (item : Item) (data : Bytes)
  | sized (inboxId : String) (mdef : MailboxDef) (item : Item) (size : Nat)
  deriving DecidableEq

def Job.key : Job → Key
  | .listing _ inboxId mdef => (inboxId, mdef.name)
  | .resync _ inboxId => (inboxId, drafts.name)

variable (cfg : Config)

namespace Service

variable (s : Service)

/-- Create a task.  A listing becomes the one in flight for its mailbox. -/
def createTask (job : Job) (startedGen : Nat) : Service :=
  let n := s.nextTask
  { s with
    tasks := Function.update s.tasks n (some ⟨job, .queued, false, startedGen, none⟩),
    nextTask := n + 1,
    inflight := match job with
      | .listing api _ _ => Function.update s.inflight job.key (some ⟨n, startedGen, api⟩)
      | .resync _ _ => s.inflight }

def setTask (n : Nat) (state : TaskState) : Service :=
  { s with
    tasks := Function.update s.tasks n ((s.tasks n).map fun task => { task with state := state }) }

/-- The callback `_done`: the task leaves `_inflight` unless another one has
taken its place. -/
def reap (n : Nat) : Service :=
  match s.tasks n with
  | some ⟨job, .finished r, false, gen, no⟩ =>
    { s with
      tasks := Function.update s.tasks n (some ⟨job, .finished r, true, gen, no⟩),
      inflight := match s.inflight job.key with
        | some e => if e.task = n then Function.update s.inflight job.key none else s.inflight
        | none => s.inflight }
  | _ => s

def setDeleted (key : Key) (uids : List Nat) (value : Bool) : Service :=
  { s with store := s.store.setDeleted s.now key.1 key.2 uids value }

/-! ### Auxiliary -/

def noteWrite (t : Tid) : Service :=
  { s with
    aux := { s.aux with
      mutations := Function.update s.aux.mutations t
        ((s.aux.mutations t).map fun m => { m with wrote := some s.aux.started }) } }

/-- What a mutation that ends promises: listings that started after its last
write. -/
def promise (promised : Key → Nat) (m : Mutation) : Key → Nat := fun key =>
  match m.wrote with
  | some w => if key ∈ m.keys then max (promised key) w else promised key
  | none => promised key

def endMutation (t : Tid) : Service :=
  { s with
    aux := { s.aux with
      mutations := Function.update s.aux.mutations t none,
      promised := match s.aux.mutations t with
        | some m => promise s.aux.promised m
        | none => s.aux.promised } }

/-- Upstream applies the PATCH of `t`. -/
def applyPatch (t : Tid) : Service :=
  match s.aux.patches t with
  | some ⟨inboxId, messageId, add, remove, none⟩ =>
    let n := s.aux.applied + 1
    let labels := ((s.aux.remote (inboxId, messageId)).2 ∪ add.toFinset) \ remove.toFinset
    { s with
      aux := { s.aux with
        applied := n,
        remote := Function.update s.aux.remote (inboxId, messageId) (n, labels),
        patches := Function.update s.aux.patches t
          (some ⟨inboxId, messageId, add, remove, some (n, labels)⟩) } }
  | _ => s

/-- Another client leaves a message with `labels`. -/
def relabel (inboxId messageId : String) (labels : List String) : Service :=
  let n := s.aux.applied + 1
  { s with
    aux := { s.aux with
      applied := n,
      remote := Function.update s.aux.remote (inboxId, messageId) (n, labels.toFinset) } }

def setPatch (t : Tid) (p : Option Patch) : Service :=
  { s with aux := { s.aux with patches := Function.update s.aux.patches t p } }

/-- The answer to the PATCH of `t` has been processed: the hold on the message is
its hold. -/
def settlePatch (t : Tid) : Service :=
  match s.aux.patches t with
  | some ⟨inboxId, messageId, _, _, some (n, _)⟩ =>
    { s with
      aux := { s.aux with
        heldFrom := Function.update s.aux.heldFrom (inboxId, messageId) n,
        patches := Function.update s.aux.patches t none } }
  | _ => s.setPatch t none

def setSource (t : Tid) (source : Source) : Service :=
  { s with aux := { s.aux with source := Function.update s.aux.source t (some source) } }

def setRecalled (t : Tid) (r : Option (String × String × Option Nat)) : Service :=
  { s with aux := { s.aux with recalled := Function.update s.aux.recalled t r } }

/-- The size of a message is reported. -/
def report (inboxId : String) (mdef : MailboxDef) (item : Item) (size : Nat) : Service :=
  let key := (inboxId, item.remoteKey)
  { s with
    aux := { s.aux with
      reported := match mdef.kind with
        | .messages => Function.update s.aux.reported key (s.aux.reported key ++ [size])
        | .drafts => s.aux.reported } }

end Service

/-- What an action of coroutine `t` does. -/
def Act.exec (t : Tid) : Act → Service → Service
  | tick d, s => { s with time := s.time + d }
  | wall clock now, s => { s with clock := clock, now := now }
  | createTask job gen, s => s.createTask job gen
  | beginTask n, s => s.setTask n .running
  | finishTask n r, s => s.setTask n (.finished r)
  | reap n, s => s.reap n
  | startListing inboxId mdef, s => s.startListing t inboxId mdef
  | see id, s => s.see t id
  | collectMessage m, s => s.collectMessage cfg t m
  | collectDraft d rendered, s => s.collectDraft cfg t d rendered
  | publish, s => s.publish t
  | dropListing, s => s.dropListing t
  | cacheGet key, s => { s with cache := s.cache.moveToEnd key }
  | cachePut key data, s => { s with cache := s.cache.put key data }
  | appendCommit inboxId created rendered, s => s.appendCommit cfg inboxId created rendered
  | beginCopy, s => { s with copied := Function.update s.copied t [] }
  | copyItem inboxId item result, s => (s.copyItem t inboxId item result).settlePatch t
  | bump key, s => s.bump key
  | setFlagCommit key item add remove result, s =>
    (s.setFlagCommit key item add remove result).settlePatch t
  | expungeCommit inboxId item result, s => (s.expungeCommit inboxId item result).settlePatch t
  | unpin key remoteKey, s => s.unpin key remoteKey
  | setDeleted key uids value, s => s.setDeleted key uids value
  | mailboxInfo key, s => (s.mailboxInfo key).1
  | beginMutation keys tolerant, s =>
    { s with
      aux := { s.aux with
        mutations := Function.update s.aux.mutations t (some ⟨keys, tolerant, none⟩) } }
  | wrote, s => s.noteWrite t
  | endMutation, s => s.endMutation t
  | called key, s =>
    { s with aux := { s.aux with since := Function.update s.aux.since t (s.aux.promised key) } }
  | returned _ _, s => s
  | sendPatch p, s => s.setPatch t (some p)
  | applyPatch, s => s.applyPatch t
  | losePatch, s => s.setPatch t none
  | relabel inboxId messageId labels, s => s.relabel inboxId messageId labels
  | obtained source, s => s.setSource t source
  | beginRead, s => s.setRecalled t none
  | recalled inboxId remoteKey size, s => s.setRecalled t (some (inboxId, remoteKey, size))
  | served inboxId mdef item data, s => s.report inboxId mdef item data.length
  | sized inboxId mdef item size, s => s.report inboxId mdef item size

/-- What the loop, upstream and its other clients do by themselves. -/
def Act.ambient : Act → Bool
  | tick _ | wall _ _ | reap _ | applyPatch | relabel _ _ _ => true
  | _ => false

/-! ## Requests -/

structure Page (α : Type) where
  items : List α
  nextPageToken : Option String
  deriving DecidableEq

structure RawMeta where
  size : Nat
  downloadUrl : String
  deriving DecidableEq

structure Identity where
  scopeType : String
  inboxId : Option String
  deriving DecidableEq

structure DraftFields where
  to_ : List String
  cc : List String
  bcc : List String
  replyTo : List String
  subject : String
  text : String
  deriving DecidableEq

/-- What a coroutine suspends on: a call of the API, a task, the deferred work
of a connection, or the client reading. -/
inductive Req where
  | authMe (api : Client)
  | getInbox (api : Client) (inboxId : String)
  | listMessages (api : Client) (inboxId : String) (mdef : MailboxDef) (token : Option String)
  | listDrafts (api : Client) (inboxId : String) (token : Option String)
  | getDraft (api : Client) (inboxId draftId : String)
  | createDraft (api : Client) (inboxId : String) (fields : DraftFields) (clientId : Option String)
  | deleteDraft (api : Client) (inboxId draftId : String)
  | updateLabels (api : Client) (inboxId messageId : String) (add remove : List String)
  | getRawMeta (api : Client) (inboxId messageId : String)
  | download (api : Client) (url : String)
  | task (n : Nat)
  | deferred (n : Nat)
  | drain
  deriving DecidableEq

def Req.Value : Req → Type
  | authMe _ => Identity
  | getInbox _ _ => Unit
  | listMessages _ _ _ _ => Page MessageJson
  | listDrafts _ _ _ => Page DraftJson
  | getDraft _ _ _ => DraftJson
  | createDraft _ _ _ _ => DraftJson
  | deleteDraft _ _ _ => Unit
  | updateLabels _ _ _ _ _ => PatchResult
  | getRawMeta _ _ _ => RawMeta
  | download _ _ => Bytes
  | task _ => Snapshot
  | deferred _ => Unit
  | drain => Unit

/-- A request is answered by a value or by an exception. -/
abbrev Req.Answer (q : Req) : Type := Except Exc q.Value

/-- A coroutine of the service. -/
abbrev Svc (α : Type) := Coro Service Act Req Req.Answer Exc α

/-- Await a request. -/
def ask (q : Req) : Svc q.Value := (Coro.request q).bind Coro.ofExcept

def state : Svc Service := Coro.read

def perform (p : Act) : Svc Unit := Coro.perform p

def Service.taskState (s : Service) (n : Nat) : Option TaskState := (s.tasks n).map (·.state)

/-- `await asyncio.shield(task)`.  A task that is done is not waited for. -/
def awaitTask (n : Nat) : Svc Snapshot := do
  let s ← state
  match s.taskState n with
  | some (.finished r) => Coro.ofExcept r
  | _ => ask (.task n)

end Mailbox
end ImapGateway
