/-
A connection, from the octets it is sent to the responses it writes.

`run` greets the client and then goes round a loop: what has arrived is fed to the parser, the
events the parser yields are handled one after another, and the loop ends where the session is
over, where the client is gone, and where it has been quiet for too long.  Each turn of the loop
is one input of the connection, and how the octets are cut into inputs is up to the client.
-/
import ImapGateway.Imap.Reading
import ImapGateway.Imap.Deadline
import ImapGateway.Imap.World
import ImapGateway.Mailbox.Faults

namespace ImapGateway
namespace Imap

open ImapGateway.Parser Async
open Mailbox hiding upper

/-- A connection.  There is no parser to feed before the client has been greeted. -/
structure Line where
  session : Session
  parser : Option CommandParser

/-- What a connection does: an action of the gateway, or the parser goes on. -/
inductive LineAct where
  | gateway (p : Mailbox.Act ⊕ Act)
  | parse (parser : CommandParser)

/-- A coroutine of a connection with its parser. -/
abbrev Talk (α : Type) := Coro (Service × Line) LineAct Req Req.Answer Exc α

/-- The service and the session. -/
def onLine (s : Service × Line) : Shared := (s.1, s.2.session)

/-- A coroutine of the gateway on a connection. -/
def along {α : Type} (x : Prog α) : Talk α := x.lift .gateway onLine

def LineAct.exec (cfg : Config) (t : Tid) : LineAct → Service × Line → Service × Line
  | .gateway p, s =>
    let r := Imap.exec cfg t p (onLine s)
    (r.1, { s.2 with session := r.2 })
  | .parse parser, s => (s.1, { s.2 with parser := some parser })

variable (env : Runtime) (cfg : Config) (txt : TextConfig) (limits : Limits)

/-! ## The loop -/

/-- The loop over the events of one read.  A command is read in the session as it is when its
turn comes. -/
def attend (n : Nat) : List Parser.Event → Prog Unit
  | [] => pure ()
  | event :: events => do
    let l ← session
    handleEvent cfg txt (reading env l (cfg.connId n)) n event
    flush
    let l ← session
    if l.state = .logout ∨ l.closed = true then pure ()
    else attend n events

/-- What is raised in the loop over the events ends the session. -/
def attendAll (n : Nat) (events : List Parser.Event) : Prog Unit := do
  match ← Coro.attempt (attend env cfg txt n events) with
  | .ok _ => pure ()
  | .error .cancelled => throw .cancelled
  | .error _ => do
    send (.other "BAD internal parser error")
    send (.bye "closing connection")
    act (.setState .logout)

/-- `close` -/
def hangUp : Prog Unit := do
  let l ← session
  if l.closed = true then act .clearCredentials
  else do
    flush
    act .abort
    act .clearCredentials

/-- One turn of the loop, behind the read.  The `finally` closes what the turn ends. -/
def turnOf (n : Nat) (events : List Parser.Event) : Prog Unit := do
  match ← Coro.attempt (attendAll env cfg txt n events) with
  | .ok _ => do
    let l ← session
    if l.state = .logout ∨ l.closed = true then hangUp else pure ()
  | .error e => do
    hangUp
    throw e

/-- What comes to a coroutine from outside. -/
inductive Heard where
  | connected
  | octets (data : Octets)
  /-- The wait for input has timed out. -/
  | expired
  /-- The client has closed the connection. -/
  | gone
  | task (job : Job)

/-- What a coroutine does about it. -/
def hear : Tid → Heard → Talk Unit
  | .conn _, .connected => do
    along (do
      send (.ok "imapgw ready" .capability)
      flush)
    Coro.perform (.parse (.new limits))
  | .conn n, .octets data => do
    match (← Coro.read).2.parser with
    | none => pure ()
    | some parser =>
      let drained := (parser.feed data).events
      Coro.perform (.parse drained.2)
      along (turnOf env cfg txt n drained.1)
  | .conn _, .expired => do
    match (← Coro.read).2.parser with
    | none => pure ()
    | some parser => along (do
      send (.bye (if inProgress parser then "command not completed in time" else "idle timeout"))
      hangUp)
  | .conn _, .gone => along hangUp
  | .task n, .task job => along (svc (runTask cfg n job))
  | _, _ => pure ()

/-! ## The gateway with its connections -/

/-- The loop is at its head. -/
def Line.listens (l : Line) : Bool :=
  l.parser.isSome && decide (l.session.state ≠ .logout) && !l.session.closed

/-- When a coroutine may hear something.  A connection is greeted once. -/
def hears (t : Tid) (i : Heard) (s : Service) (l : Line) : Bool :=
  match t, i with
  | .conn _, .connected => l.parser.isNone && l.session.log.isEmpty
  | .conn _, .octets _ => l.listens
  | .conn _, .expired => l.listens
  | .conn _, .gone => l.listens
  | .task n, .task job => ready (.task n) (.task job) s l.session
  | _, _ => false

/-- Upstream may answer anything but a refusal, which is the handlers' own. -/
def responds (t : Tid) (q : Req) (a : q.Answer) (s : Service) : Bool :=
  answers t q a s && (!q.outward || Req.unrefusing a)

/-- The gateway with every connection from its first octet on. -/
def server : Sys Tid Service Line LineAct Req Req.Answer Exc Heard where
  exec := LineAct.exec cfg
  main := hear env cfg txt limits
  ready := hears
  answers := responds
  ambient p s := match p with
    | .gateway p => ambient p s
    | .parse _ => false

abbrev Lines := Pool Tid Service Line LineAct Req Req.Answer Exc

/-- No client has connected yet. -/
def Lines.start (store : Store.Db) (watermark maxBytes : Nat)
    (remote : String × String → Labels) : Lines :=
  Pool.init (startService store watermark maxBytes remote) fun _ => ⟨Session.new, none⟩

end Imap
end ImapGateway
