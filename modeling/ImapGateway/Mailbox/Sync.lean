/-
Listings: `sync`, the listing it runs, and the tasks around it.
-/
import ImapGateway.Mailbox.Action
import ImapGateway.Async.Generator

namespace ImapGateway
namespace Mailbox

open Async

variable (cfg : Config)

/-! ## Collecting -/

/-- `_paginate`: ask for page after page and run `body` on every item.  `fuel`
bounds the pages, and `seen` holds the tokens followed so far. -/
def paginate {α : Type} (ask : Option String → Svc (Page α)) (body : α → Svc Unit) :
    Nat → Option String → List String → Svc Unit
  | 0, _, _ => throw .unavailable
  | fuel + 1, token, seen => do
    let page ← ask token
    Coro.each body page.items
    match strOr page.nextPageToken none with
    | none => return ()
    | some next =>
      if next ∈ seen then throw .unavailable
      else paginate ask body fuel (some next) (next :: seen)

/-- Ask for a page, run `body` on its items, and take the token of the next one. -/
def pageTurn {α : Type} (ask : Option String → Svc (Page α)) (body : α → Svc Unit)
    (token : Option String) : Svc (Option String) := do
  let page ← ask token
  Coro.each body page.items
  return strOr page.nextPageToken none

/-- A listing follows tokens as the client does, and fails where it runs out of pages. -/
theorem paginate_eq_follow {α : Type} (ask : Option String → Svc (Page α)) (body : α → Svc Unit)
    (fuel : Nat) (token : Option String) (seen : List String) :
    paginate ask body fuel token seen =
      (Coro.follow (pageTurn ask body) .unavailable fuel token seen).bind fun ended =>
        if ended then return () else throw .unavailable := by
  induction fuel generalizing token seen with
  | zero => rfl
  | succ fuel ih =>
    rw [paginate, Coro.follow, pageTurn]
    simp only [Coro.bind_eq, Coro.bind_assoc]
    congr 1
    funext page
    congr 1
    funext _
    cases strOr page.nextPageToken none with
    | none => rfl
    | some next =>
      by_cases hmem : next ∈ seen
      · simp [hmem, Coro.bind]
      · simp [hmem, Coro.bind, ih]

/-- One message of a listing.  A listing without ids cannot be trusted. -/
def collectMessage (m : MessageJson) : Svc Unit :=
  if orEmpty m.messageId = "" then throw .unavailable
  else perform (.collectMessage m)

def collectMessages (api : Client) (inboxId : String) (mdef : MailboxDef) : Svc Unit :=
  paginate (fun token => ask (.listMessages api inboxId mdef token)) collectMessage
    cfg.pages none []

/-- `_render_draft`: `none` when the draft is gone. -/
def renderDraft (api : Client) (inboxId draftId updatedAt : String) : Svc (Option Bytes) := do
  let version := ckey inboxId "draftv" (draftId ++ ":" ++ updatedAt)
  let s ← state
  match s.cache.find version with
  | some cached =>
    perform (.cacheGet version)
    return some cached
  | none =>
    match ← Coro.attempt (ask (.getDraft api inboxId draftId)) with
    | .error .notFound => return none
    | .error e => throw e
    | .ok full =>
      match cfg.renderDraft full inboxId with
      | none => throw .internal
      | some rendered =>
        perform (.obtained (.draft inboxId draftId rendered))
        perform (.cachePut version rendered)
        return some rendered

/-- One draft of a listing. -/
def collectDraft (t : Tid) (api : Client) (inboxId : String) (d : DraftJson) : Svc Unit := do
  let id := orEmpty d.draftId
  if id = "" then throw .unavailable
  let s ← state
  if id ∈ ((s.listings t).map (·.seen)).getD [] then return ()
  perform (.see id)
  match ← renderDraft cfg api inboxId id (orEmpty d.updatedAt) with
  | none => return ()
  | some rendered => perform (.collectDraft d rendered)

def collectDrafts (t : Tid) (api : Client) (inboxId : String) : Svc Unit :=
  paginate (fun token => ask (.listDrafts api inboxId token)) (collectDraft cfg t api inboxId)
    cfg.pages none []

/-- `_do_sync`, run by coroutine `t`. -/
def doSync (t : Tid) (api : Client) (inboxId : String) (mdef : MailboxDef) : Svc Snapshot := do
  perform (.startListing inboxId mdef)
  tryCatch
    (match mdef.kind with
    | .messages => collectMessages cfg api inboxId mdef
    | .drafts => collectDrafts cfg t api inboxId)
    fun e => do
      perform .dropListing
      throw e
  perform .publish
  let s ← state
  match s.published t with
  | some snap => return snap
  | none => throw .internal

/-! ## Coalescing -/

/-- `_join`: a failed authentication belongs to the credentials that made the
request. -/
def join (t : Tid) (e : Inflight) (api : Client) (inboxId : String) (mdef : MailboxDef) :
    Svc Snapshot :=
  tryCatch (awaitTask e.task) fun exc =>
    match exc with
    | .auth status => if e.owner = api then throw (.auth status) else doSync cfg t api inboxId mdef
    | exc => throw exc

/-- Run a listing as a task of its own and wait for it. -/
def launch (api : Client) (inboxId : String) (mdef : MailboxDef) (generation : Nat) :
    Svc Snapshot := do
  let n := (← state).nextTask
  perform (.createTask (.listing api inboxId mdef) generation)
  awaitTask n

/-- Let a listing finish and ignore its outcome. -/
def waitOut (n : Nat) : Svc Unit :=
  tryCatch (do let _ ← awaitTask n) fun exc =>
    match exc with
    | .cancelled => throw .cancelled
    | _ => return ()

/-- The snapshot `sync` returns without listing anything. -/
def Service.fresh (s : Service) (key : Key) : Option Snapshot :=
  match s.latest key with
  | some snap => if s.time - snap.syncedAt < cfg.refreshInterval then some snap else none
  | none => none

/-- `sync` of a mailbox that exists. -/
def syncMailbox (t : Tid) (api : Client) (inboxId : String) (mdef : MailboxDef) (force : Bool) :
    Svc Snapshot := do
  let key := (inboxId, mdef.name)
  let s ← state
  match if force then none else s.fresh cfg key with
  | some snap => return snap
  | none =>
    let generation := s.generation key
    match s.inflight key with
    | none => launch api inboxId mdef generation
    | some e =>
      if generation ≤ e.startedGen ∨ force = false then join cfg t e api inboxId mdef
      else
        -- A mutation happened after this listing started.
        waitOut e.task
        let s ← state
        match s.inflight key with
        | some e' =>
          if generation ≤ e'.startedGen then join cfg t e' api inboxId mdef
          else launch api inboxId mdef generation
        | none => launch api inboxId mdef generation

def sync (t : Tid) (api : Client) (inboxId name : String) (force : Bool) : Svc Snapshot :=
  match lookupMailbox name with
  | none => throw .notFound
  | some mdef => syncMailbox cfg t api inboxId mdef force

/-- `sync(force=True)`, with the call and the return on record. -/
def syncForced (t : Tid) (api : Client) (inboxId name : String) : Svc Snapshot :=
  match lookupMailbox name with
  | none => throw .notFound
  | some mdef => do
    perform (.called (inboxId, mdef.name))
    let snap ← syncMailbox cfg t api inboxId mdef true
    perform (.returned (inboxId, mdef.name) snap)
    return snap

/-! ## Tasks -/

/-- What the task of number `n` runs. -/
def runTask (n : Nat) (job : Job) : Svc Unit := do
  perform (.beginTask n)
  let result ← Coro.attempt (match job with
    | .listing api inboxId mdef => doSync cfg (.task n) api inboxId mdef
    | .resync api inboxId => syncForced cfg (.task n) api inboxId drafts.name)
  perform (.finishTask n result)

end Mailbox
end ImapGateway
