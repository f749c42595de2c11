/-
Runs of the gateway, and the history of its service in a run.

A run starts from a store whose tables are in order.  Its trace holds the actions
of the service and those of the sessions.  The first, on their own, are a history
of the service, since an action of a session leaves the service alone.
-/
import ImapGateway.Imap.World
import ImapGateway.Mailbox.History

namespace ImapGateway
namespace Imap

open Async Mailbox

/-- What a gateway starts with: a store with its tables in order, the watermark of
the sidecar file, the size of the byte cache, and the labels upstream has. -/
structure Boot where
  store : Store.Db
  ok : store.Ok
  watermark : Nat
  maxBytes : Nat
  remote : String × String → Labels

/-- The service of a gateway just started. -/
def Boot.service (b : Boot) : Service := startService b.store b.watermark b.maxBytes b.remote

def Boot.world (b : Boot) : World := World.start b.store b.watermark b.maxBytes b.remote

variable (cfg : Config) (txt : TextConfig)

/-- `w` is reached in a run from `b` whose moves each meet `C`. -/
abbrev RunsTo (C : World → Move → Prop) (b : Boot) (w : World) : Prop :=
  b.world.Reaches (gateway cfg txt) C w

/-- `w` is reached in some run from `b`. -/
abbrev Runs (b : Boot) (w : World) : Prop := RunsTo cfg txt (fun _ _ => True) b w

/-! ## The history of the service -/

abbrev Trace := List (Event Tid Shared (Mailbox.Act ⊕ Act))

/-- The happening of the service an event is, if it is one. -/
def happeningOf (e : Event Tid Shared (Mailbox.Act ⊕ Act)) : Option Happening :=
  match e.action with
  | .inl p => some ⟨e.tid, p, e.before.1⟩
  | .inr _ => none

def happenings (tr : Trace) : List Happening := tr.filterMap happeningOf

variable {cfg txt}

theorem history_of_linked {s₀ s : Service} {tr : Trace} (h : Linked (exec cfg) s₀ tr s) :
    History cfg s₀ (happenings tr) s := by
  induction h with
  | nil => exact .nil
  | cons e _ ih =>
    obtain ⟨t, p, s⟩ := e
    cases p with
    | inl p => exact .cons ⟨t, p, s.1⟩ ih
    | inr p => exact ih

/-- The happenings of a run are a history of the service. -/
theorem RunsTo.history {C : World → Move → Prop} {b : Boot} {w : World}
    (h : RunsTo cfg txt C b w) : History cfg b.service (happenings w.trace) w.shared :=
  history_of_linked h.linked

/-- A run whose moves were all possible and meet `C` wherever they are made. -/
theorem runsTo_of_run {C : World → Move → Prop} {b : Boot} {ms : List Move} {w : World}
    (hC : ∀ m ∈ ms, ∀ v, C v m) (h : b.world.run (gateway cfg txt) ms = some w) :
    RunsTo cfg txt C b w := by
  refine Pool.run_reaches ?_ h
  generalize b.world = v at h
  induction ms generalizing v with
  | nil => trivial
  | cons m ms ih =>
    rw [Pool.run, Option.bind_eq_some_iff] at h
    obtain ⟨v', hm, hrun⟩ := h
    refine ⟨hC m (List.mem_cons_self ..) v, ?_⟩
    rw [hm]
    exact ih (fun m hm => hC m (List.mem_cons_of_mem _ hm)) v' hrun

/-- A property of the world a run ends in, found by running it. -/
theorem exists_runsTo {C : World → Move → Prop} {b : Boot} {ms : List Move} {p : World → Bool}
    (hC : ∀ m ∈ ms, ∀ v, C v m) (h : (b.world.run (gateway cfg txt) ms).any p = true) :
    ∃ w, RunsTo cfg txt C b w ∧ p w = true := by
  cases hrun : b.world.run (gateway cfg txt) ms with
  | none =>
    rw [hrun] at h
    cases h
  | some w =>
    rw [hrun] at h
    exact ⟨w, runsTo_of_run hC hrun, h⟩

theorem exists_run {b : Boot} {ms : List Move} {p : World → Bool}
    (h : (b.world.run (gateway cfg txt) ms).any p = true) : ∃ w, Runs cfg txt b w ∧ p w = true :=
  exists_runsTo (fun _ _ _ => trivial) h

/-! ## A gateway to run

A configuration in which a draft renders as its text, and answers of an upstream
that holds what it is given. -/

/-- The number that `n` digits from the `i`-th character on write. -/
def digitsAt (text : List Char) (i n : Nat) : Option Nat :=
  let digits := (text.drop i).take n
  if digits.length = n ∧ digits.all (·.isDigit) then some (Nat.ofDigitChars 10 digits 0) else none

/-- `datetime.fromisoformat` of dates like `2026-08-17T16:00:00+00:00`. -/
def demoIso (text : List Char) : Option (Datetime × Bool) := do
  if text.length ≠ 25 ∨ [text[4]?, text[7]?, text[10]?, text[13]?, text[16]?, text[22]?] ≠
      "--T:::".toList.map some then none
  let year ← digitsAt text 0 4
  let month ← digitsAt text 5 2
  let day ← digitsAt text 8 2
  let hour ← digitsAt text 11 2
  let minute ← digitsAt text 14 2
  let second ← digitsAt text 17 2
  let sign : Int ← if text[19]? = some '+' then some 1 else if text[19]? = some '-' then some (-1) else none
  let hours ← digitsAt text 20 2
  let minutes ← digitsAt text 23 2
  if h : 1 ≤ year ∧ 1 ≤ month ∧ month ≤ 12 ∧ 1 ≤ day ∧ day ≤ daysInMonth year month ∧ hour < 24 ∧
      minute < 60 ∧ second < 60 ∧ hours < 24 ∧ minutes < 60 then
    some (⟨year, ⟨month - 1, by omega⟩, day, hour, minute, second, 0,
      sign * (hours * 60 + minutes : Nat) * 60000000⟩, true)
  else none

def demoConfig : Config where
  refreshInterval := 5000
  allowedInboxId := ""
  pages := 10
  renderDraft := fun d _ => some ((orEmpty d.text).toUTF8.toList)
  digest := fun data => String.ofList ((data.take 16).map (fun b => Char.ofNat b.toNat) ++
    List.replicate (16 - (data.take 16).length) '0')
  digest_length := by
    intro data
    simp
  fromisoformat := fun text => demoIso text.toList
  connId := fun n => toString n

def demoText : TextConfig where
  sentDate := fun _ => none
  casefold := id
  rawText := fun _ _ => ""
  headerValue := fun _ _ => ""
  headerNames := fun _ => []
  contains := fun _ _ => false
  lower := id

/-- A gateway on an empty store, with room for 1000 bytes. -/
def demoBoot : Boot where
  store := Store.Db.empty
  ok := Store.Db.ok_empty
  watermark := 0
  maxBytes := 1000
  remote := fun _ => ∅

def demoMessage (id : String) (labels : List String) : MessageJson :=
  ⟨some id, some labels, none, none, none, none, none, none⟩

def demoDraft (id text : String) : DraftJson :=
  ⟨some id, none, none, none, none, none, none, none, none, some text⟩

/-- An upstream that lists `messages` and `drafts`, and leaves a patched message
with `labels`.  Tasks answer with their results. -/
def demoAnswer (messages : List MessageJson) (drafts : List DraftJson) (labels : List String)
    (s : Service) : (q : Req) → Option q.Answer
  | .authMe _ => some (.ok ⟨"inbox", some "a@x"⟩)
  | .getInbox _ _ => some (.ok ())
  | .listMessages _ _ _ _ => some (.ok ⟨messages, none⟩)
  | .listDrafts _ _ _ => some (.ok ⟨drafts, none⟩)
  | .getDraft _ _ id => (drafts.find? fun d => decide (d.draftId = some id)).map .ok
  | .createDraft _ _ _ _ => drafts.head?.map .ok
  | .deleteDraft _ _ _ => some (.ok ())
  | .updateLabels _ _ _ _ _ => some (.ok ⟨some labels⟩)
  | .getRawMeta _ _ _ => none
  | .download _ _ => none
  | .task n => resultOf s n
  | .deferred n => match resultOf s n with
    | some (.ok _) => some (.ok ())
    | some (.error e) => some (.error e)
    | none => none
  | .drain => some (.ok ())

/-! Moves: a connection calls `sync`, a task starts to list, upstream answers or
refuses the credentials, the callbacks of a task run. -/

def syncBy (n : Nat) (name : String) : Move :=
  .launch (.conn n) (.call (.sync ⟨n, 0, "k"⟩ "a@x" name true))

def listBy (n owner : Nat) (mdef : MailboxDef) : Move :=
  .launch (.task n) (.task (.listing ⟨owner, 0, "k"⟩ "a@x" mdef))

def answerTo (t : Tid) (messages : List MessageJson) : Move :=
  .resume t (demoAnswer messages [] [])

def patchedFor (t : Tid) (labels : List String) : Move :=
  .resume t (demoAnswer [] [] labels)

def unauthorized (t : Tid) : Move := .resume t fun _ _ => some (.error (.auth 401))

def commandBy (n : Nat) (verb : Verb) : Move := .launch (.conn n) (.command ⟨"a", "", verb⟩)

/-- Upstream holds these drafts. -/
def draftsFor (t : Tid) (drafts : List DraftJson) : Move := .resume t (demoAnswer [] drafts [])

def reapOf (n : Nat) : Move := .ambient (.task n) (.inl (.reap n))

def loginMoves (n : Nat) : List Move :=
  [commandBy n (.login "a@x" "k"), answerTo (.conn n) [], answerTo (.conn n) []]

/-- A mailbox is opened, its listing `k` answered by `listed`. -/
def openMoves (n k : Nat) (mdef : MailboxDef) (readOnly : Bool) (listed : List Move) : List Move :=
  [commandBy n (.select mdef.name readOnly), listBy k n mdef] ++ listed ++
    [reapOf k, answerTo (.conn n) [], answerTo (.conn n) []]

end Imap
end ImapGateway
