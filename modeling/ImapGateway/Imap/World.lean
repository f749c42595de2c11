/-
The gateway as a whole: its connections and tasks on one event loop.

A connection runs one command at a time.  Beside commands a connection may run a
bare call of the service, so that the service is also seen under callers other
than the handlers.  A task runs the job it was created with.  Which coroutine
goes on next, and with which answer, is up to the world: the order of the moves
and the answers of upstream are arbitrary.
-/
import ImapGateway.Imap.Dispatch

namespace ImapGateway
namespace Imap

open Async Mailbox

inductive Call where
  | sync (api : Client) (inboxId name : String) (force : Bool)
  | appendDraft (api : Client) (inboxId : String) (fields : DraftFields)
      (clientId : Option String)
  | copyToTrash (api : Client) (inboxId : String) (mdef : MailboxDef) (items : List Item)
  | setFlag (api : Client) (inboxId : String) (mdef : MailboxDef) (item : Item) (flag : Flag)
      (value : Bool)
  | expungeItems (api : Client) (inboxId : String) (mdef : MailboxDef) (items : List Item)
  | rawBytes (api : Client) (inboxId : String) (mdef : MailboxDef) (item : Item)
  | sizeOf (api : Client) (inboxId : String) (mdef : MailboxDef) (item : Item)

inductive Input where
  | command (cmd : Command)
  | call (c : Call)
  | task (job : Job)

variable (cfg : Config) (txt : TextConfig)

/-- A call, its value dropped. -/
def Call.run (t : Tid) : Call → Svc Unit
  | sync api inboxId name true => do let _ ← Mailbox.syncForced cfg t api inboxId name
  | sync api inboxId name false => do let _ ← Mailbox.sync cfg t api inboxId name false
  | appendDraft api inboxId fields clientId => do
    let _ ← Mailbox.appendDraft cfg t api inboxId fields clientId
  | copyToTrash api inboxId mdef items => do
    let _ ← Mailbox.copyToTrash cfg t api inboxId mdef items
  | setFlag api inboxId mdef item flag value => do
    let _ ← Mailbox.setFlag api inboxId mdef item flag value
  | expungeItems api inboxId mdef items => do
    let _ ← Mailbox.expungeItems cfg api inboxId mdef items
  | rawBytes api inboxId mdef item => do let _ ← Mailbox.rawBytes cfg api inboxId mdef item
  | sizeOf api inboxId mdef item => do let _ ← Mailbox.sizeOf cfg api inboxId mdef item

abbrev Shared := Service × Session

def exec (t : Tid) : Mailbox.Act ⊕ Act → Shared → Shared
  | .inl p, s => (p.exec cfg t s.1, s.2)
  | .inr p, s => (s.1, p.exec s.1 s.2)

/-- What a coroutine runs when it is started. -/
def main : Tid → Input → Prog Unit
  | .conn n, .command cmd => do
    dispatch cfg txt n cmd
    flush
  | t, .call c => svc (c.run cfg t)
  | .task n, .task job => svc (runTask cfg n job)
  | _, _ => pure ()

def ready (t : Tid) (i : Input) (s : Service) (l : Session) : Bool :=
  match t, i with
  | .conn _, .command _ => l.state ≠ .logout && !l.closed
  | .conn _, .call _ => true
  | .task n, .task job => match s.tasks n with
    | some task => decide (task.job = job) && decide (task.state = .queued)
    | none => false
  | _, _ => false

/-- The result of a task whose callbacks have run. -/
def resultOf (s : Service) (n : Nat) : Option (Except Exc Snapshot) :=
  match s.tasks n with
  | some ⟨_, .finished r, true, _, _⟩ => some r
  | _ => none

/-- Whether an answer is a cancellation, which only the deadline of a command
brings about. -/
def cancels {α : Type} : Except Exc α → Bool
  | .error .cancelled => true
  | _ => false

def mayCancel : Tid → Bool
  | .conn _ => true
  | .task _ => false

/-- A task answers with its result, unless the wait is cancelled. -/
def taskAnswers (t : Tid) (result : Option (Except Exc Snapshot)) (a : Except Exc Snapshot) :
    Bool := decide (result = some a) || (cancels a && mayCancel t)

/-- The wait for deferred work may also time out. -/
def deferredAnswers (result : Option (Except Exc Snapshot)) (a : Except Exc Unit) : Bool :=
  match a with
  | .ok _ => match result with
    | some (.ok _) => true
    | _ => false
  | .error e => decide (e = .timeout) || decide (result = some (.error e))

/-- Which answers are possible.  Upstream may answer anything. -/
def answers (t : Tid) (q : Req) (a : q.Answer) (s : Service) : Bool :=
  match q, a with
  | .task n, a => taskAnswers t (resultOf s n) a
  | .deferred n, a => deferredAnswers (resultOf s n) a
  | _, a => !cancels a || mayCancel t

def ambient : Mailbox.Act ⊕ Act → Service → Bool
  | .inl p, _ => p.ambient
  | .inr _, _ => false

def gateway : Sys Tid Service Session (Mailbox.Act ⊕ Act) Req Req.Answer Exc Input where
  exec := exec cfg
  main := main cfg txt
  ready := ready
  answers := answers
  ambient := ambient

abbrev World := Pool Tid Service Session (Mailbox.Act ⊕ Act) Req Req.Answer Exc

/-- A gateway just started on a store: nothing synced, nothing cached. -/
def startService (store : Store.Db) (watermark maxBytes : Nat)
    (remote : String × String → Labels) : Service where
  store := store
  watermark := watermark
  clock := 0
  now := ""
  time := 0
  cache := ⟨maxBytes, [], 0⟩
  latest := fun _ => none
  inflight := fun _ => none
  versions := fun _ => 0
  generation := fun _ => 0
  pinned := fun _ => []
  labelOverrides := fun _ => none
  tasks := fun _ => none
  nextTask := 0
  listings := fun _ => none
  published := fun _ => none
  copied := fun _ => []
  aux := ⟨0, fun _ => none, fun _ => 0, fun _ => 0, fun _ => 0, fun _ => none, 0,
    fun m => (0, remote m), fun _ => 0, [], fun _ => none, fun _ => none, fun _ => []⟩

def World.start (store : Store.Db) (watermark maxBytes : Nat)
    (remote : String × String → Labels) : World :=
  Pool.init (startService store watermark maxBytes remote) fun _ => Session.new

abbrev Move := Async.Move Tid Service (Mailbox.Act ⊕ Act) Req Req.Answer Input

end Imap
end ImapGateway
