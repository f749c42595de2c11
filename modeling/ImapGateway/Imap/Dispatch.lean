/-
Dispatch: a command, its outcome as a tagged response, and the deferred work.
-/
import ImapGateway.Imap.Handlers

namespace ImapGateway
namespace Imap

open Async Mailbox

inductive Verb where
  | login (userid password : String)
  | logout
  | noop
  | select (name : String) (readOnly : Bool)
  | fetch (uidMode : Bool) (set : SequenceSet) (attrs : List FetchAttr)
  | store (set : SequenceSet) (plan : StorePlan)
  | search (uidMode : Bool) (crit : Crit)
  | expunge
  | uidExpunge (set : SequenceSet)
  | copy (plan : CopyPlan) (set : SequenceSet) (name : String)
  | close
  | append (name : String) (message : Except String DraftFields) (clientId : String)
  | status (name : String) (wanted : List String)
  /-- CAPABILITY, LIST, LSUB, ID, NAMESPACE, SUBSCRIBE, UNSUBSCRIBE and CHECK. -/
  | plain (name : String) (states : List State) (lines : List String)
  /-- A command whose arguments are refused, or that is not supported. -/
  | refused (status text : String) (code : Option String)

structure Command where
  tag : String
  name : String
  verb : Verb

variable (cfg : Config) (txt : TextConfig)

def handler (n : Nat) (cmd : Command) : Prog Unit :=
  let t := Tid.conn n
  match cmd.verb with
  | .login userid password => login cfg n cmd.tag userid password
  | .logout => logout cmd.tag
  | .noop => noop cfg t cmd.tag
  | .select name readOnly => select cfg t cmd.tag name readOnly
  | .fetch uidMode set attrs => fetch cfg t cmd.tag uidMode set attrs
  | .store set plan => store cfg t cmd.tag set plan
  | .search uidMode crit => search cfg txt t cmd.tag uidMode crit
  | .expunge => expunge cfg t cmd.tag
  | .uidExpunge set => uidExpunge cfg t cmd.tag set
  | .copy plan set name => copy cfg t cmd.tag plan set name
  | .close => close cfg t cmd.tag
  | .append name message clientId => append cfg t cmd.tag name message clientId
  | .status name wanted => status cfg t cmd.tag name wanted
  | .plain name states lines => plain cmd.tag name states lines
  | .refused status text code => throw (.commandFailed status text code)

/-- The `except` arms of `dispatch`. -/
def report (n : Nat) (cmd : Command) (e : Exc) : Prog Unit := do
  match e with
  | .commandFailed status text code => send (.tagged cmd.tag status text (code.map .text))
  | .auth status =>
    if (← session).state = .notAuthenticated then
      send (.tagged cmd.tag "NO" "invalid credentials" (some (.text "AUTHENTICATIONFAILED")))
    else if status = 403 then
      send (.tagged cmd.tag "NO" ("this API key may not perform " ++ cmd.name)
        (some (.text "CANNOT")))
    else
      send (.bye "credentials no longer valid")
      act (.setState .logout)
  | .unavailable =>
    send (.tagged cmd.tag "NO" ("upstream unavailable, try again (" ++ cmd.name ++ ")")
      (some (.text "UNAVAILABLE")))
  | .notFound => send (.tagged cmd.tag "NO" ("upstream error (" ++ cmd.name ++ ")") none)
  | .badRequest => send (.tagged cmd.tag "NO" ("upstream error (" ++ cmd.name ++ ")") none)
  -- `asyncio.timeout` turns the cancellation at the deadline into a TimeoutError.
  | .timeout | .cancelled =>
    send (.tagged cmd.tag "NO" ("upstream timeout (" ++ cmd.name ++ ")")
      (some (.text "UNAVAILABLE")))
  | .internal => send (.tagged cmd.tag "NO" ("internal error (ref " ++ cfg.connId n ++ ")") none)

/-- `_run_deferred`: neither a slow nor a failed follow-up matters. -/
def runDeferred : Prog Unit := do
  let pending := (← session).deferred
  act .takeDeferred
  Coro.each (fun n => do let _ ← Coro.attempt (svc (ask (.deferred n)))) pending
  if pending ≠ [] ∧ (← session).state = .selected then
    act .flushPending
    flush

def dispatch (n : Nat) (cmd : Command) : Prog Unit := do
  match ← Coro.attempt (handler cfg txt n cmd) with
  | .ok () => pure ()
  | .error e => report cfg n cmd e
  let l ← session
  if l.state = .notAuthenticated ∧ l.api.isSome then act .clearCredentials
  runDeferred

end Imap
end ImapGateway
