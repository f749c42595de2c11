/-
One tagged answer for each command.

A handler writes its tagged line last or raises before it has written one, and
whatever it raises the dispatcher answers.  So a command is answered once, from
any state of the session and whatever upstream does meanwhile, and commands that
arrive together are answered in their order.
-/
import ImapGateway.Imap.Predictions
import ImapGateway.Async.Paths
import ImapGateway.Parser.Machine

namespace ImapGateway
namespace Imap

open Async Mailbox

variable {cfg : Config} {txt : TextConfig} {s : Service} {l l' : Session}

/-! ## What is written -/

/-- The responses written to the client so far, the last first. -/
def Session.sent (l : Session) : List Response := l.log.filterMap Note.response

def Response.isUpdate : Response → Bool
  | .exists _ => true
  | .expunge _ => true
  | .fetch _ _ _ => true
  | _ => false

/-- A response that begins with `*`. -/
def Response.isUntagged : Response → Bool
  | .tagged _ _ _ _ => false
  | .continuation _ => false
  | _ => true

theorem Response.isUntagged_of_isUpdate {r : Response} (h : r.isUpdate = true) :
    r.isUntagged = true := by
  cases r <;> first | rfl | cases h

/-- Nothing but updates is written, and the state stays. -/
structure Session.Updates (l l' : Session) : Prop where
  state : l'.state = l.state
  sent : ∃ us, l'.sent = us ++ l.sent ∧ ∀ r ∈ us, r.isUpdate = true

namespace Session

theorem Updates.of_log {l l' : Session} (hstate : l'.state = l.state) (hlog : l'.log = l.log) :
    Updates l l' :=
  ⟨hstate, [], by rw [Session.sent, Session.sent, hlog]; rfl, nofun⟩

theorem Updates.trans {l₁ l₂ l₃ : Session} (h : Updates l₁ l₂) (h' : Updates l₂ l₃) :
    Updates l₁ l₃ := by
  obtain ⟨us, hs, hus⟩ := h.sent
  obtain ⟨vs, hs', hvs⟩ := h'.sent
  refine ⟨h'.state.trans h.state, vs ++ us, by rw [hs', hs, List.append_assoc], fun r hr => ?_⟩
  rcases List.mem_append.mp hr with hr | hr
  · exact hvs r hr
  · exact hus r hr

theorem Edits.updates {uids : List Nat} {l l' : Session} (h : Edits uids l l') : Updates l l' := by
  obtain ⟨notes, hlog, hnotes⟩ := h.log
  refine ⟨h.state, notes.filterMap Note.response, ?_, fun r hr => ?_⟩
  · rw [Session.sent, hlog, List.filterMap_append]
    rfl
  · obtain ⟨n, hn, hresponse⟩ := List.mem_filterMap.mp hr
    have hupdate := hnotes n hn
    cases n with
    | sent r' us =>
      cases hresponse
      cases r <;> first | rfl | cases hupdate
    | _ => cases hupdate

theorem flushArrived_updates (items : List Nat) (l : Session) :
    Updates l (flushArrived items l) := by
  rw [flushArrived]
  cases hsel : l.selected with
  | none => exact .of_log rfl rfl
  | some sel =>
    simp only
    split
    · exact .of_log rfl rfl
    · refine ⟨rfl, [_], rfl, fun r hr => ?_⟩
      rw [List.mem_singleton.mp hr]
      rfl

/-- `flush_pending` writes updates only, whatever the session is like. -/
theorem flushPending_updates (s : Service) (l : Session) : Updates l (l.flushPending s) := by
  rw [flushPending]
  cases hsel : l.selected with
  | none => exact .of_log rfl rfl
  | some sel =>
    simp only
    cases hlatest : l.latest s sel with
    | none => exact .of_log rfl rfl
    | some latest =>
      obtain ⟨he₁, sel₁, hsel₁, _⟩ :=
        flushVanished_spec latest.uids latest.uids sel.uids.length hsel (Nat.le_refl _)
      have hu := he₁.updates.trans (flushArrived_updates latest.uids _)
      simp only
      split
      · exact hu
      · have hset : ∀ (l₂ : Session) (sel₂ : Selected), Updates l₂ (l₂.setSelected sel₂) :=
          fun _ _ => .of_log rfl rfl
        exact (hu.trans (hset _ _)).trans
          (flushFlags_spec latest _ _ (l := setSelected _ _) rfl).1.updates

end Session

/-- An action that writes nothing tagged. -/
def plainAct : Mailbox.Act ⊕ Act → Prop
  | .inr (.send r) => r.isUntagged = true
  | _ => True

/-- An action that writes nothing. -/
def silentAct : Mailbox.Act ⊕ Act → Prop
  | .inr (.send _) => False
  | .inr .flushPending => False
  | _ => True

/-- A plain action that leaves the key alone, and lets nobody out of being logged in. -/
def steadyAct : Mailbox.Act ⊕ Act → Prop
  | .inr (.send r) => r.isUntagged = true
  | .inr (.setCredentials _ _ _) => False
  | .inr .clearCredentials => False
  | .inr (.setState st) => st ≠ .notAuthenticated
  | _ => True

/-- A silent action of that kind. -/
def restingAct : Mailbox.Act ⊕ Act → Prop
  | .inr (.send _) => False
  | .inr .flushPending => False
  | .inr (.setCredentials _ _ _) => False
  | .inr .clearCredentials => False
  | .inr (.setState st) => st ≠ .notAuthenticated
  | _ => True

theorem plain_of_steady (p : Mailbox.Act ⊕ Act) (h : steadyAct p) : plainAct p := by
  cases p with
  | inl p => trivial
  | inr p => cases p <;> first | exact h | trivial

theorem silent_of_resting (p : Mailbox.Act ⊕ Act) (h : restingAct p) : silentAct p := by
  cases p with
  | inl p => trivial
  | inr p => cases p <;> first | exact h.elim | trivial

/-- The tagged line of a command is written. -/
def tagsWith (tag : String) (p : Mailbox.Act ⊕ Act) : Prop :=
  ∃ status text code, p = .inr (.send (.tagged tag status text code))

/-- What an action of the session writes. -/
theorem Act.exec_sent (p : Act) (s : Service) (l : Session) :
    (∃ r, p = .send r ∧ (p.exec s l).sent = r :: l.sent) ∨
    (p = .flushPending ∧ l.Updates (p.exec s l)) ∨
    (silentAct (.inr p) ∧ (p.exec s l).sent = l.sent) := by
  cases p with
  | send r => exact .inl ⟨r, rfl, rfl⟩
  | flushPending => exact .inr (.inl ⟨rfl, Session.flushPending_updates s l⟩)
  | dropVanished errors =>
    refine .inr (.inr ⟨trivial, ?_⟩)
    simp only [Act.exec, Session.dropVanished]
    split
    · rfl
    · split <;> rfl
  | recordFlags uid flags =>
    refine .inr (.inr ⟨trivial, ?_⟩)
    simp only [Act.exec, Session.recordFlags]
    split <;> rfl
  | _ => exact .inr (.inr ⟨trivial, rfl⟩)

/-! ## Coroutines that write nothing tagged -/

/-- Nothing tagged is written on any path, and the key is left alone. -/
abbrev Untagged {α : Type} (x : Prog α) : Prop := x.All steadyAct

theorem Untagged.plain {α : Type} {x : Prog α} (h : Untagged x) : x.All plainAct :=
  h.mono plain_of_steady

theorem untagged_svc {α : Type} (x : Svc α) : Untagged (svc x) :=
  Coro.All.lift (fun _ => trivial) x

theorem untagged_session : Untagged session := fun _ => trivial

theorem untagged_service : Untagged service := fun _ => trivial

theorem untagged_act {p : Act} (h : steadyAct (.inr p)) : Untagged (act p) := ⟨h, trivial⟩

theorem untagged_refuse (c : Prop) [Decidable c] (e : Exc) : Untagged (refuse c e) := by
  unfold refuse
  split <;> trivial

theorem untagged_requireState (states : List State) : Untagged (requireState states) :=
  fun _ => untagged_refuse _ _

theorem untagged_requireSelected : Untagged requireSelected := by
  unfold requireSelected
  simp only [Coro.bind_eq, Coro.pure_eq, Coro.throw_eq]
  refine untagged_session.bind fun l => ?_
  split <;> trivial

theorem untagged_context : Untagged context := by
  unfold context
  simp only [Coro.bind_eq, Coro.pure_eq, Coro.throw_eq]
  refine untagged_session.bind fun l => ?_
  split <;> trivial

theorem untagged_mailboxOf (name : String) : Untagged (mailboxOf name) := by
  unfold mailboxOf
  split <;> trivial

theorem untagged_latestOrSync (t : Tid) (api : Client) (inboxId : String) (mdef : MailboxDef) :
    Untagged (latestOrSync cfg t api inboxId mdef) := by
  unfold latestOrSync
  simp only [Coro.bind_eq, Coro.pure_eq]
  refine untagged_service.bind fun s => ?_
  split
  · trivial
  · exact untagged_svc _

theorem untagged_flush : Untagged flush := by
  unfold flush
  simp only [Coro.bind_eq, Coro.pure_eq, Coro.throw_eq]
  refine untagged_session.bind fun l => ?_
  split
  · trivial
  · refine (untagged_svc _).attempt.bind fun a => ?_
    split
    · trivial
    · trivial
    · exact untagged_act trivial

/-! ## Handlers -/

/-- The handler writes the tagged line of `tag` last, unless it raises, and leaves the key
alone. -/
abbrev Answers (tag : String) (x : Prog Unit) : Prop := x.Closes steadyAct (tagsWith tag) restingAct

theorem answers_send (tag status text : String) (code : Option Code) :
    Answers tag (send (.tagged tag status text code)) :=
  .inr ⟨⟨status, text, code, rfl⟩, trivial⟩

theorem Answers.bind {α : Type} {tag : String} {x : Prog α} {f : α → Prog Unit} (h : Untagged x)
    (hf : ∀ a, Answers tag (f a)) : Answers tag (x.bind f) := Coro.Closes.bind h hf

theorem untagged_removeItems (t : Tid) (api : Client) (inboxId : String) (mdef : MailboxDef)
    (items : List Item) (silent : Bool) :
    Untagged (removeItems cfg t api inboxId mdef items silent) := by
  unfold removeItems
  simp only [Coro.bind_eq]
  refine (untagged_svc _).bind fun errors => (untagged_svc _).bind fun _ => ?_
  refine (untagged_act ?_).bind fun _ => untagged_refuse _ _
  split <;> trivial

theorem untagged_expungeDeleted (t : Tid) (onlyUids : Option (List Nat)) (silent : Bool) :
    Untagged (expungeDeleted cfg t onlyUids silent) := by
  unfold expungeDeleted
  simp only [Coro.bind_eq, Coro.pure_eq]
  refine untagged_requireSelected.bind fun sel => untagged_context.bind fun c => ?_
  refine (untagged_mailboxOf _).bind fun mdef => (untagged_refuse _ _).bind fun _ => ?_
  refine untagged_session.bind fun l => untagged_service.bind fun s => ?_
  split
  · exact untagged_refuse _ _
  · split
    · trivial
    · exact untagged_service.bind fun s => untagged_removeItems _ _ _ _ _ _

/-- LOGIN answers in this way too, but for the key. -/
theorem closes_login (n : Nat) (tag userid password : String) :
    (login cfg n tag userid password).Closes plainAct (tagsWith tag) silentAct := by
  unfold login
  simp only [Coro.bind_eq]
  refine .bind untagged_session.plain fun l => .bind (untagged_refuse _ _).plain fun _ => ?_
  refine .bind (untagged_refuse _ _).plain fun _ => .bind (untagged_refuse _ _).plain fun _ => ?_
  refine .bind ⟨trivial, trivial⟩ fun _ => .bind untagged_context.plain fun c => ?_
  refine .bind (untagged_svc _).plain fun identity => .bind (untagged_refuse _ _).plain fun _ => ?_
  refine .bind (Untagged.plain ?_) fun _ => .bind ⟨trivial, trivial⟩ fun _ =>
    .inr ⟨⟨_, _, _, rfl⟩, trivial⟩
  unfold checkInbox
  simp only [Coro.bind_eq, Coro.pure_eq, Coro.throw_eq]
  split
  · refine (untagged_svc _).attempt.bind fun a => ?_
    split <;> trivial
  · trivial

theorem answers_logout (tag : String) : Answers tag (logout tag) :=
  .bind (untagged_act rfl) fun _ => .inr ⟨⟨_, _, _, rfl⟩, nofun, trivial⟩

theorem answers_noop (t : Tid) (tag : String) : Answers tag (noop cfg t tag) := by
  unfold noop
  simp only [Coro.bind_eq]
  refine .bind untagged_session fun l => ?_
  split
  · exact .bind (untagged_svc _) fun _ => .bind (untagged_act trivial) fun _ => answers_send ..
  · exact answers_send ..

theorem answers_select (t : Tid) (tag name : String) (readOnly : Bool) :
    Answers tag (select cfg t tag name readOnly) := by
  unfold select
  simp only [Coro.bind_eq, Coro.throw_eq]
  refine .bind (untagged_requireState _) fun _ => .bind (untagged_act trivial) fun _ => ?_
  split
  · trivial
  · refine .bind untagged_context fun c => .bind (untagged_svc _) fun snap => ?_
    have hopen : Untagged (openView snap readOnly) := ⟨trivial, rfl, rfl, trivial⟩
    have hunseen : ∀ seq, Untagged (sendUnseen seq) := by
      intro seq
      cases seq with
      | none => trivial
      | some seq => exact ⟨rfl, trivial⟩
    refine .bind hopen fun _ => .bind (untagged_act rfl) fun _ => .bind (hunseen _) fun _ => ?_
    refine .bind (untagged_act rfl) fun _ => .bind (untagged_act rfl) fun _ => ?_
    exact .bind (untagged_act rfl) fun _ => answers_send ..

theorem untagged_fetchItem (api : Client) (inboxId : String) (mdef : MailboxDef) (plan : FetchPlan)
    (uid : Nat) (item : Item) : Untagged (fetchItem cfg api inboxId mdef plan uid item) := by
  have hparts : ∀ item raw parts attr,
      Untagged (fetchParts cfg api inboxId mdef plan uid item raw parts attr) := by
    intro item raw parts attr
    unfold fetchParts
    simp only [Coro.bind_eq, Coro.pure_eq, Coro.throw_eq]
    split
    · trivial
    · exact ⟨trivial, trivial⟩
    · trivial
    · split
      · trivial
      · exact (untagged_svc _).bind fun _ => trivial
    · split <;> trivial
  have hraw : Untagged (fetchRaw cfg api inboxId mdef plan item) := by
    unfold fetchRaw
    simp only [Coro.bind_eq, Coro.pure_eq]
    split
    · exact (untagged_svc _).bind fun _ => trivial
    · trivial
  unfold fetchItem
  simp only [Coro.bind_eq, Coro.pure_eq]
  refine hraw.bind fun raw => ?_
  split
  · refine (untagged_svc _).bind fun item => (Coro.All.foldEach (hparts item raw) _ _).bind ?_
    intro parts
    split
    · trivial
    · exact ⟨trivial, trivial⟩
  · exact Coro.All.foldEach (hparts item raw) _ _

theorem answers_fetch (t : Tid) (tag : String) (uidMode : Bool) (set : SequenceSet)
    (attrs : List FetchAttr) : Answers tag (fetch cfg t tag uidMode set attrs) := by
  have hone : ∀ api inboxId mdef plan snap target,
      Untagged (fetchOne cfg api inboxId mdef plan snap target) := by
    intro api inboxId mdef plan snap target
    unfold fetchOne
    simp only [Coro.bind_eq, Coro.pure_eq, Coro.throw_eq]
    split
    · trivial
    · refine (untagged_fetchItem _ _ _ _ _ _).attempt.bind fun r => ?_
      split
      · exact ⟨rfl, untagged_flush⟩
      · trivial
      · trivial
  unfold fetch
  simp only [Coro.bind_eq]
  refine .bind untagged_requireSelected fun sel => .bind untagged_context fun c => ?_
  refine .bind (untagged_mailboxOf _) fun mdef => ?_
  refine .bind (untagged_latestOrSync _ _ _ _) fun snap => .bind untagged_session fun l => ?_
  refine .bind untagged_service fun s => ?_
  exact .bind (Coro.All.each (hone _ _ _ _ _) _) fun _ => answers_send ..

theorem answers_append (t : Tid) (tag name : String) (message : Except String DraftFields)
    (clientId : String) : Answers tag (append cfg t tag name message clientId) := by
  unfold append
  simp only [Coro.bind_eq, Coro.throw_eq]
  refine .bind (untagged_requireState _) fun _ => ?_
  split
  · trivial
  · refine .bind (untagged_refuse _ _) fun _ => ?_
    split
    · trivial
    · refine .bind untagged_context fun c => .bind (untagged_svc _) fun r => ?_
      exact .inr ⟨⟨_, _, _, rfl⟩, trivial, trivial⟩

theorem answers_search (t : Tid) (tag : String) (uidMode : Bool) (crit : Crit) :
    Answers tag (search cfg txt t tag uidMode crit) := by
  have hone : ∀ ctx snap hits target,
      Untagged (searchOne txt ctx crit snap uidMode hits target) := by
    intro ctx snap hits target
    unfold searchOne
    simp only [Coro.bind_eq, Coro.pure_eq, Coro.throw_eq]
    split
    · trivial
    · refine (untagged_svc _).attempt.bind fun r => ?_
      split <;> trivial
  unfold search
  simp only [Coro.bind_eq]
  refine .bind untagged_requireSelected fun sel => .bind untagged_context fun c => ?_
  refine .bind (untagged_mailboxOf _) fun mdef => ?_
  refine .bind (untagged_latestOrSync _ _ _ _) fun snap => .bind untagged_session fun l => ?_
  refine .bind untagged_service fun s => ?_
  refine .bind (Coro.All.foldEach (hone _ _) _ _) fun hits => ?_
  exact .bind (untagged_act rfl) fun _ => answers_send ..

theorem answers_store (t : Tid) (tag : String) (set : SequenceSet) (plan : StorePlan) :
    Answers tag (store cfg t tag set plan) := by
  have hflag : ∀ api inboxId mdef current wanted uid r flag,
      Untagged (storeFlag api inboxId mdef current wanted uid r flag) := by
    intro api inboxId mdef current wanted uid r flag
    unfold storeFlag
    simp only [Coro.bind_eq, Coro.pure_eq]
    split
    · trivial
    · split
      · exact (untagged_svc _).bind fun _ => trivial
      · split
        · exact (untagged_svc _).bind fun _ => trivial
        · trivial
  have hone : ∀ api inboxId mdef snap deleted target,
      Untagged (storeOne api inboxId mdef plan snap deleted target) := by
    intro api inboxId mdef snap deleted target
    unfold storeOne
    simp only [Coro.bind_eq, Coro.pure_eq]
    split
    · trivial
    · refine (Coro.All.foldEach (hflag _ _ _ _ _ _) _ _).bind fun r => ?_
      refine ⟨trivial, ?_⟩
      split
      · exact ⟨rfl, trivial⟩
      · trivial
  unfold store
  simp only [Coro.bind_eq]
  refine .bind untagged_requireSelected fun sel => .bind untagged_context fun c => ?_
  refine .bind (untagged_refuse _ _) fun _ => .bind (untagged_mailboxOf _) fun mdef => ?_
  refine .bind (untagged_refuse _ _) fun _ => .bind (untagged_latestOrSync _ _ _ _) fun snap => ?_
  refine .bind untagged_session fun l => .bind untagged_service fun s => ?_
  refine .bind (Coro.All.foldEach (hone _ _ _ _) _ _) fun _ => ?_
  split
  · exact .bind (untagged_act trivial) fun _ => answers_send ..
  · exact answers_send ..

theorem answers_expunge (t : Tid) (tag : String) : Answers tag (expunge cfg t tag) :=
  .bind (untagged_expungeDeleted _ _ _) fun _ => answers_send ..

theorem answers_uidExpunge (t : Tid) (tag : String) (set : SequenceSet) :
    Answers tag (uidExpunge cfg t tag set) :=
  .bind untagged_requireSelected fun _ =>
    .bind (untagged_expungeDeleted _ _ _) fun _ => answers_send ..

theorem answers_close (t : Tid) (tag : String) : Answers tag (close cfg t tag) := by
  unfold close
  simp only [Coro.bind_eq]
  refine .bind untagged_requireSelected fun sel => .bind untagged_session fun l => ?_
  refine .bind untagged_service fun s => ?_
  split
  · refine .bind (untagged_expungeDeleted _ _ _) fun _ => ?_
    exact .bind (untagged_act trivial) fun _ => answers_send ..
  · exact .bind (untagged_act trivial) fun _ => answers_send ..

theorem answers_copyFinish (t : Tid) (tag : String) (plan : CopyPlan) (api : Client)
    (inboxId : String) (source : MailboxDef) (pairs : List (Nat × Nat)) :
    Answers tag (copyFinish cfg t tag plan api inboxId source pairs) := by
  unfold copyFinish
  simp only [Coro.bind_eq]
  refine .bind (untagged_svc _) fun _ => .bind untagged_service fun s => ?_
  split
  · refine .bind (untagged_act rfl) fun _ => .bind (untagged_svc _) fun _ => ?_
    exact .bind (untagged_act trivial) fun _ => answers_send ..
  · exact answers_send ..

theorem answers_copy (t : Tid) (tag : String) (plan : CopyPlan) (set : SequenceSet)
    (name : String) : Answers tag (copy cfg t tag plan set name) := by
  unfold copy
  simp only [Coro.bind_eq, Coro.throw_eq]
  refine .bind untagged_requireSelected fun sel => .bind untagged_context fun c => ?_
  split
  · trivial
  · refine .bind (untagged_refuse _ _) fun _ => .bind (untagged_mailboxOf _) fun source => ?_
    refine .bind (untagged_refuse _ _) fun _ => .bind (untagged_refuse _ _) fun _ => ?_
    refine .bind (untagged_latestOrSync _ _ _ _) fun snap => ?_
    split
    · exact answers_send ..
    · exact .bind (untagged_svc _) fun pairs => answers_copyFinish _ _ _ _ _ _ _

theorem answers_status (t : Tid) (tag name : String) (wanted : List String) :
    Answers tag (status cfg t tag name wanted) := by
  unfold status
  simp only [Coro.bind_eq, Coro.throw_eq]
  refine .bind (untagged_requireState _) fun _ => ?_
  split
  · trivial
  · refine .bind untagged_context fun c => .bind (untagged_svc _) fun snap => ?_
    exact .bind (untagged_act rfl) fun _ => answers_send ..

theorem answers_plain (tag name : String) (states : List State) (lines : List String) :
    Answers tag (plain tag name states lines) := by
  have hline : ∀ line, Untagged (send (.other line)) := fun line => ⟨rfl, trivial⟩
  exact .bind (untagged_requireState _) fun _ =>
    .bind (Coro.All.each hline _) fun _ => answers_send ..

theorem answers_handler (n : Nat) {cmd : Command}
    (hlogin : ∀ userid password, cmd.verb ≠ .login userid password) :
    Answers cmd.tag (handler cfg txt n cmd) := by
  unfold handler
  simp only
  split
  · rename_i heq
    exact absurd heq (hlogin _ _)
  · exact answers_logout _
  · exact answers_noop _ _
  · exact answers_select _ _ _ _
  · exact answers_fetch _ _ _ _ _
  · exact answers_store _ _ _ _
  · exact answers_search _ _ _ _
  · exact answers_expunge _ _
  · exact answers_uidExpunge _ _ _
  · exact answers_copy _ _ _ _ _
  · exact answers_close _ _
  · exact answers_append _ _ _ _ _
  · exact answers_status _ _ _ _
  · exact answers_plain _ _ _ _
  · trivial

theorem closes_handler (n : Nat) (cmd : Command) :
    (handler cfg txt n cmd).Closes plainAct (tagsWith cmd.tag) silentAct := by
  by_cases hlogin : ∃ userid password, cmd.verb = .login userid password
  · obtain ⟨userid, password, hverb⟩ := hlogin
    unfold handler
    rw [hverb]
    exact closes_login n cmd.tag userid password
  · have hother : ∀ userid password, cmd.verb ≠ .login userid password :=
      fun userid password hverb => hlogin ⟨userid, password, hverb⟩
    exact (answers_handler n hother).mono plain_of_steady silent_of_resting

/-! ## Evaluation -/

/-- The coroutine of connection `n` goes from `s` to `s'` and ends with `out`.  At every
await anything may happen to the service, and the answer is any. -/
abbrev Evaluates {α : Type} (cfg : Config) (n : Nat) (x : Prog α) (s : Shared)
    (out : Except Exc α) (s' : Shared) : Prop :=
  x.Evals (exec cfg (.conn n)) (fun a b => b.2 = a.2) (fun _ _ _ => True) s out s'

/-- Between the two only untagged responses were written. -/
def Session.Quiet (l l' : Session) : Prop :=
  ∃ rs, l'.sent = rs ++ l.sent ∧ ∀ r ∈ rs, r.isUntagged = true

/-- Between the two one tagged line was written, as the last response. -/
def Session.Closed (tag : String) (l l' : Session) : Prop :=
  ∃ rs status text code, l'.sent = .tagged tag status text code :: (rs ++ l.sent) ∧
    ∀ r ∈ rs, r.isUntagged = true

theorem Session.Quiet.refl (l : Session) : Session.Quiet l l := ⟨[], rfl, nofun⟩

theorem Session.Quiet.write {l l' : Session} (rs : List Response) (h : Session.Quiet l l')
    {l'' : Session} (hsent : l''.sent = rs ++ l'.sent) (hrs : ∀ r ∈ rs, r.isUntagged = true) :
    Session.Quiet l l'' := by
  obtain ⟨rs', hs, hrs'⟩ := h
  refine ⟨rs ++ rs', by rw [hsent, hs, List.append_assoc], fun r hr => ?_⟩
  rcases List.mem_append.mp hr with hr | hr
  · exact hrs r hr
  · exact hrs' r hr

theorem quiet_exec {n : Nat} {p : Mailbox.Act ⊕ Act} {s : Shared} (hp : plainAct p)
    (h : Session.Quiet l s.2) : Session.Quiet l (exec cfg (.conn n) p s).2 := by
  cases p with
  | inl p => exact h
  | inr p =>
    rcases p.exec_sent s.1 s.2 with ⟨r, rfl, hsent⟩ | ⟨rfl, hu⟩ | ⟨_, hsent⟩
    · exact h.write [r] hsent fun r' hr' => by rw [List.mem_singleton.mp hr']; exact hp
    · obtain ⟨us, hsent, hus⟩ := hu.sent
      exact h.write us hsent fun r hr => Response.isUntagged_of_isUpdate (hus r hr)
    · exact h.write [] hsent nofun

theorem closed_exec {n : Nat} {tag : String} {p : Mailbox.Act ⊕ Act} {s : Shared}
    (hp : tagsWith tag p) (h : Session.Quiet l s.2) :
    Session.Closed tag l (exec cfg (.conn n) p s).2 := by
  obtain ⟨status, text, code, rfl⟩ := hp
  obtain ⟨rs, hsent, hrs⟩ := h
  refine ⟨rs, status, text, code, ?_, hrs⟩
  rw [← hsent]
  rfl

theorem closed_silent {n : Nat} {tag : String} {p : Mailbox.Act ⊕ Act} {s : Shared}
    (hp : silentAct p) (h : Session.Closed tag l s.2) :
    Session.Closed tag l (exec cfg (.conn n) p s).2 := by
  cases p with
  | inl p => exact h
  | inr p =>
    obtain ⟨rs, status, text, code, hsent, hrs⟩ := h
    rcases p.exec_sent s.1 s.2 with ⟨r, rfl, _⟩ | ⟨rfl, _⟩ | ⟨_, hsame⟩
    · cases hp
    · cases hp
    · exact ⟨rs, status, text, code, hsame.trans hsent, hrs⟩

/-- A handler that raises has written nothing tagged, and one that returns has written
its tagged line last. -/
theorem evaluates_closes {n : Nat} {tag : String} {x : Prog Unit} {s s' : Shared}
    {out : Except Exc Unit} (hx : x.Closes plainAct (tagsWith tag) silentAct)
    (h : Evaluates cfg n x s out s') :
    (Session.Quiet s.2 s'.2 ∧ ∃ e, out = .error e) ∨
      (Session.Closed tag s.2 s'.2 ∧ out = .ok ()) := by
  rcases h.closes hx (fun a => Session.Quiet s.2 a.2) (fun a => Session.Closed tag s.2 a.2)
    (fun a b ha hr => by rw [hr]; exact ha) (fun _ _ hp ha => quiet_exec hp ha)
    (fun _ _ hp ha => closed_exec hp ha) (fun _ _ hp ha => closed_silent hp ha) (.refl _)
    with hq | ⟨hc, a, hout⟩
  · exact .inl hq
  · exact .inr ⟨hc, hout⟩

/-! ## The dispatcher -/

/-- What a command is answered with: one tagged line as the last response but for
updates, or a BYE without one that ends the session. -/
inductive Replies (tag : String) (l l' : Session) : Prop
  | tagged (updates before : List Response) (status text : String) (code : Option Code)
      (sent : l'.sent = updates ++ .tagged tag status text code :: (before ++ l.sent))
      (untagged : ∀ r ∈ before, r.isUntagged = true) (after : ∀ r ∈ updates, r.isUpdate = true)
  | bye (rs : List Response) (text : String) (sent : l'.sent = rs ++ l.sent)
      (said : .bye text ∈ rs) (untagged : ∀ r ∈ rs, r.isUntagged = true)
      (state : l'.state = .logout)

/-- What deferred work may do. -/
def defersAct : Mailbox.Act ⊕ Act → Prop
  | .inl _ => True
  | .inr p => p = .takeDeferred ∨ p = .flushPending ∨ p = .abort

/-- What may follow a handler. -/
def followsUp (p : Mailbox.Act ⊕ Act) : Prop := p = .inr .clearCredentials ∨ defersAct p

/-- Updates were written, and a session that was logged out still is. -/
def Session.Follows (l l' : Session) : Prop :=
  (∃ us, l'.sent = us ++ l.sent ∧ ∀ r ∈ us, r.isUpdate = true) ∧
    (l.state = .logout → l'.state = .logout)

theorem follows_exec {n : Nat} {p : Mailbox.Act ⊕ Act} {s : Shared} (hp : followsUp p)
    (h : Session.Follows l s.2) : Session.Follows l (exec cfg (.conn n) p s).2 := by
  rcases hp with rfl | hp
  · exact h
  cases p with
  | inl p => exact h
  | inr p =>
    rcases hp with rfl | rfl | rfl
    · exact h
    · have hu := Session.flushPending_updates s.1 s.2
      obtain ⟨us, hsent, hus⟩ := h.1
      obtain ⟨vs, hsent', hvs⟩ := hu.sent
      refine ⟨⟨vs ++ us, hsent'.trans (by rw [hsent, List.append_assoc]), fun r hr => ?_⟩,
        fun hst => hu.state.trans (h.2 hst)⟩
      rcases List.mem_append.mp hr with hr | hr
      · exact hvs r hr
      · exact hus r hr
    · exact ⟨h.1, fun _ => rfl⟩

theorem defers_flush : Coro.All defersAct flush := by
  unfold flush
  simp only [Coro.bind_eq, Coro.pure_eq, Coro.throw_eq]
  refine Coro.All.bind (x := session) (fun _ => trivial) fun l => ?_
  split
  · trivial
  · refine (Coro.All.lift (fun _ => trivial) _).attempt.bind fun a => ?_
    split
    · trivial
    · trivial
    · exact ⟨.inr (.inr rfl), trivial⟩

theorem defers_runDeferred : Coro.All defersAct runDeferred := by
  unfold runDeferred
  simp only [Coro.bind_eq, Coro.pure_eq]
  refine Coro.All.bind (x := session) (fun _ => trivial) fun l => ⟨.inl rfl, ?_⟩
  refine (Coro.All.each (fun m => ?_) _).bind fun _ => ?_
  · exact ((Coro.All.lift (fun _ => trivial) _).attempt.bind fun _ => trivial)
  · refine Coro.All.bind (x := session) (fun _ => trivial) fun l => ?_
    split
    · exact ⟨.inr (.inl rfl), defers_flush⟩
    · trivial

theorem evaluates_follows {α : Type} {n : Nat} {x : Prog α} {s s' : Shared} {out : Except Exc α}
    (hx : Coro.All followsUp x) (h : Evaluates cfg n x s out s') : Session.Follows s.2 s'.2 :=
  h.all hx (fun a => Session.Follows s.2 a.2) (fun a b ha hr => by rw [hr]; exact ha)
    (fun _ _ hp ha => follows_exec hp ha) ⟨⟨[], rfl, nofun⟩, id⟩

/-- A look at the session. -/
theorem evaluates_session {α : Type} {n : Nat} {k : Session → Prog α} {s s' : Shared}
    {out : Except Exc α} (h : Evaluates cfg n (session.bind k) s out s') :
    Evaluates cfg n (k s.2) s out s' := by
  cases h with
  | get h => exact h

theorem evaluates_send {n : Nat} {r : Response} {s s' : Shared} {out : Except Exc Unit}
    (h : Evaluates cfg n (send r) s out s') : out = .ok () ∧ s'.2.sent = r :: s.2.sent := by
  cases h with
  | act h =>
    cases h
    exact ⟨rfl, rfl⟩

/-- Whatever a handler raised is answered. -/
theorem evaluates_report {n : Nat} {cmd : Command} {e : Exc} {s s' : Shared}
    {out : Except Exc Unit} (h : Evaluates cfg n (report cfg n cmd e) s out s') : out = .ok () ∧
      ((∃ status text code, s'.2.sent = .tagged cmd.tag status text code :: s.2.sent) ∨
        ∃ text, s'.2.sent = .bye text :: s.2.sent ∧ s'.2.state = .logout) := by
  have tagged : ∀ {status text : String} {code : Option Code},
      Evaluates cfg n (send (.tagged cmd.tag status text code)) s out s' → out = .ok () ∧
        ((∃ status text code, s'.2.sent = .tagged cmd.tag status text code :: s.2.sent) ∨
          ∃ text, s'.2.sent = .bye text :: s.2.sent ∧ s'.2.state = .logout) := by
    intro status text code hsend
    obtain ⟨hout, hsent⟩ := evaluates_send hsend
    exact ⟨hout, .inl ⟨status, text, code, hsent⟩⟩
  cases e with
  | auth status =>
    unfold report at h
    simp only [Coro.bind_eq] at h
    have h := evaluates_session h
    split at h
    · exact tagged h
    · split at h
      · exact tagged h
      · cases h with
        | act h =>
          cases h with
          | act h =>
            cases h
            exact ⟨rfl, .inr ⟨_, rfl, rfl⟩⟩
  | _ => exact tagged h

/-- A command is answered once, from any state and with any answers. -/
theorem dispatch_replies {n : Nat} {cmd : Command} {s s' : Shared} {out : Except Exc Unit}
    (h : Evaluates cfg n (dispatch cfg txt n cmd) s out s') : Replies cmd.tag s.2 s'.2 := by
  have hrest : ∀ s₁, Evaluates cfg n (do
      let l ← session
      if l.state = .notAuthenticated ∧ l.api.isSome then act .clearCredentials
      runDeferred) s₁ out s' → Session.Follows s₁.2 s'.2 := by
    intro s₁ h
    refine evaluates_follows ?_ h
    simp only [Coro.bind_eq]
    refine Coro.All.bind (x := session) (fun _ => trivial) fun l => ?_
    split
    · exact ⟨.inl rfl, defers_runDeferred.mono fun _ => .inr⟩
    · exact defers_runDeferred.mono fun _ => .inr
  have hend : ∀ s₁ : Shared, (Session.Closed cmd.tag s.2 s₁.2 ∨ ∃ rs text, s₁.2.sent = rs ++ s.2.sent ∧
      .bye text ∈ rs ∧ (∀ r ∈ rs, r.isUntagged = true) ∧ s₁.2.state = .logout) →
      Session.Follows s₁.2 s'.2 → Replies cmd.tag s.2 s'.2 := by
    rintro s₁ hs ⟨⟨us, hsent, hus⟩, hlogout⟩
    rcases hs with ⟨rs, status, text, code, hs, hrs⟩ | ⟨rs, text, hs, hmem, hrs, hstate⟩
    · exact .tagged us rs status text code (by rw [hsent, hs]) hrs hus
    · refine .bye (us ++ rs) text (by rw [hsent, hs, List.append_assoc])
        (List.mem_append_right _ hmem) (fun r hr => ?_) (hlogout hstate)
      rcases List.mem_append.mp hr with hr | hr
      · exact Response.isUntagged_of_isUpdate (hus r hr)
      · exact hrs r hr
  unfold dispatch at h
  simp only [Coro.bind_eq] at h
  rcases h.of_bind with ⟨e, _, he⟩ | ⟨r, s₁, hr, h⟩
  · obtain ⟨r, hok, _⟩ := he.of_attempt
    cases hok
  · obtain ⟨r', hok, hhandler⟩ := hr.of_attempt
    cases hok
    rcases evaluates_closes (closes_handler n cmd) hhandler with ⟨hq, e, rfl⟩ | ⟨hc, rfl⟩
    · rcases h.of_bind with ⟨e', hout, he⟩ | ⟨_, s₂, hreport, h⟩
      · cases (evaluates_report he).1
      · obtain ⟨rs, hsent, hrs⟩ := hq
        refine hend s₂ ?_ (hrest s₂ h)
        rcases (evaluates_report hreport).2 with ⟨status, text, code, hs⟩ | ⟨text, hs, hstate⟩
        · exact .inl ⟨rs, status, text, code, by rw [hs, hsent], hrs⟩
        · refine .inr ⟨.bye text :: rs, text, by rw [hs, hsent]; rfl, List.mem_cons_self ..,
            fun r hr => ?_, hstate⟩
          rcases List.mem_cons.mp hr with rfl | hr
          · rfl
          · exact hrs r hr
    · exact hend s₁ (.inl hc) (hrest s₁ h)

/-! ## Commands that arrive together -/

/-- How the arguments of a command are read. -/
abbrev Reading := String → List Parser.Token → Verb

/-- `_handle_event` -/
def handleEvent (cfg : Config) (txt : TextConfig) (read : Reading) (n : Nat) :
    Parser.Event → Prog Unit
  | .continuation length => send (.continuation length)
  | .error tag message fatal => do
    match tag with
    | some tag => send (.tagged (asText tag) "BAD" message none)
    | none => send (.other ("BAD " ++ message))
    if fatal then
      send (.bye "closing connection")
      act (.setState .logout)
  | .command tag name args =>
    dispatch cfg txt n ⟨asText tag, asText name, read (asText name) args⟩

/-- The loop of `run` over the events of one read. -/
def serve (cfg : Config) (txt : TextConfig) (read : Reading) (n : Nat) :
    List Parser.Event → Prog Unit
  | [] => pure ()
  | event :: events => do
    handleEvent cfg txt read n event
    flush
    let l ← session
    if l.state = .logout ∨ l.closed = true then pure ()
    else serve cfg txt read n events

/-- An event is answered: a command as `Replies` has it, a parse error by one BAD that
carries its tag if it has one. -/
inductive Answered (l l' : Session) : Parser.Event → Prop
  | continuation (length : Nat) (sent : l'.sent = .continuation length :: l.sent) :
      Answered l l' (.continuation length)
  | refused (tag : Parser.Octets) (message : String) (fatal : Bool) (byes : List Response)
      (sent : l'.sent = byes ++ .tagged (asText tag) "BAD" message none :: l.sent)
      (after : ∀ r ∈ byes, ∃ text, r = .bye text) : Answered l l' (.error (some tag) message fatal)
  | bad (message : String) (fatal : Bool) (byes : List Response)
      (sent : l'.sent = byes ++ .other ("BAD " ++ message) :: l.sent)
      (after : ∀ r ∈ byes, ∃ text, r = .bye text) : Answered l l' (.error none message fatal)
  | command (tag name : Parser.Octets) (args : List Parser.Token)
      (replies : Replies (asText tag) l l') : Answered l l' (.command tag name args)

/-- The events are answered one after another. -/
inductive InOrder : List Parser.Event → Session → Session → Prop
  | nil (l : Session) : InOrder [] l l
  | cons {e : Parser.Event} {es : List Parser.Event} {l l₁ l' : Session} (head : Answered l l₁ e)
      (tail : InOrder es l₁ l') : InOrder (e :: es) l l'

theorem handleEvent_answered {read : Reading} {n : Nat} {e : Parser.Event} {s s' : Shared}
    {out : Except Exc Unit} (h : Evaluates cfg n (handleEvent cfg txt read n e) s out s') :
    Answered s.2 s'.2 e := by
  cases e with
  | continuation length => exact .continuation length (evaluates_send h).2
  | command tag name args => exact .command tag name args (dispatch_replies h)
  | error tag message fatal =>
    have hbye : ∀ {s₁ : Shared}, Evaluates cfg n (if fatal then do
        send (.bye "closing connection")
        act (.setState .logout) else pure ()) s₁ out s' →
        ∃ byes, s'.2.sent = byes ++ s₁.2.sent ∧ ∀ r ∈ byes, ∃ text, r = .bye text := by
      intro s₁ h
      split at h
      · cases h with
        | act h =>
          cases h with
          | act h =>
            cases h
            refine ⟨[.bye "closing connection"], rfl, fun r hr => ?_⟩
            exact ⟨_, List.mem_singleton.mp hr⟩
      · cases h
        exact ⟨[], rfl, nofun⟩
    cases tag with
    | some tag =>
      unfold handleEvent at h
      cases h with
      | act h =>
        obtain ⟨byes, hsent, hbyes⟩ := hbye h
        exact .refused tag message fatal byes hsent hbyes
    | none =>
      unfold handleEvent at h
      cases h with
      | act h =>
        obtain ⟨byes, hsent, hbyes⟩ := hbye h
        exact .bad message fatal byes hsent hbyes

theorem Replies.congr {tag : String} {l₁ l₂ : Session} (h : Replies tag l l₁)
    (hsent : l₂.sent = l₁.sent) (hstate : l₁.state = .logout → l₂.state = .logout) :
    Replies tag l l₂ := by
  cases h with
  | tagged updates before status text code sent untagged after =>
    exact .tagged updates before status text code (hsent.trans sent) untagged after
  | bye rs text sent said untagged state =>
    exact .bye rs text (hsent.trans sent) said untagged (hstate state)

theorem Answered.congr {e : Parser.Event} {l₁ l₂ : Session} (h : Answered l l₁ e)
    (hsent : l₂.sent = l₁.sent) (hstate : l₁.state = .logout → l₂.state = .logout) :
    Answered l l₂ e := by
  cases h with
  | continuation length sent => exact .continuation length (hsent.trans sent)
  | refused tag message fatal byes sent after =>
    exact .refused tag message fatal byes (hsent.trans sent) after
  | bad message fatal byes sent after => exact .bad message fatal byes (hsent.trans sent) after
  | command tag name args replies => exact .command tag name args (replies.congr hsent hstate)

/-- Flushing writes nothing more. -/
theorem evaluates_flush {n : Nat} {s s' : Shared} {out : Except Exc Unit}
    (h : Evaluates cfg n flush s out s') :
    s'.2.sent = s.2.sent ∧ (s.2.state = .logout → s'.2.state = .logout) := by
  refine ⟨?_, (evaluates_follows (defers_flush.mono fun _ => .inr) h).2⟩
  have hsilent : Coro.All silentAct flush := by
    unfold flush
    simp only [Coro.bind_eq, Coro.pure_eq, Coro.throw_eq]
    refine Coro.All.bind (x := session) (fun _ => trivial) fun l => ?_
    split
    · trivial
    · refine (Coro.All.lift (fun _ => trivial) _).attempt.bind fun a => ?_
      split
      · trivial
      · trivial
      · exact ⟨trivial, trivial⟩
  refine h.all hsilent (fun a => a.2.sent = s.2.sent) (fun a b ha hr => by rw [hr]; exact ha)
    (fun p a hp ha => ?_) rfl
  cases p with
  | inl p => exact ha
  | inr p =>
    rcases p.exec_sent a.1 a.2 with ⟨r, rfl, _⟩ | ⟨rfl, _⟩ | ⟨_, hsame⟩
    · cases hp
    · cases hp
    · exact hsame.trans ha

/-- Of the events of a read the first ones are answered in their order: all of them,
unless the session ends. -/
theorem serve_inOrder {read : Reading} {n : Nat} {events : List Parser.Event} {s s' : Shared}
    {out : Except Exc Unit} (h : Evaluates cfg n (serve cfg txt read n events) s out s') :
    ∃ done, done <+: events ∧ InOrder done s.2 s'.2 ∧
      (out = .ok () → done = events ∨ s'.2.state = .logout ∨ s'.2.closed = true) := by
  induction events generalizing s with
  | nil =>
    cases h
    exact ⟨[], List.prefix_refl _, .nil _, fun _ => .inl rfl⟩
  | cons e es ih =>
    unfold serve at h
    simp only [Coro.bind_eq, Coro.pure_eq] at h
    rcases h.of_bind with ⟨_, rfl, he⟩ | ⟨_, s₁, he, h⟩
    · exact ⟨[e], List.prefix_append [e] es, .cons (handleEvent_answered he) (.nil _), nofun⟩
    · have hhead := handleEvent_answered he
      rcases h.of_bind with ⟨_, rfl, hf⟩ | ⟨_, s₂, hf, h⟩
      · obtain ⟨hsent, hstate⟩ := evaluates_flush hf
        exact ⟨[e], List.prefix_append [e] es, .cons (hhead.congr hsent hstate) (.nil _), nofun⟩
      · obtain ⟨hsent, hstate⟩ := evaluates_flush hf
        have hhead := hhead.congr hsent hstate
        have h := evaluates_session h
        split at h
        · rename_i hend
          cases h
          exact ⟨[e], List.prefix_append [e] es, .cons hhead (.nil _), fun _ => .inr hend⟩
        · obtain ⟨done, hpre, horder, hall⟩ := ih h
          refine ⟨e :: done, List.cons_prefix_cons.mpr ⟨rfl, hpre⟩, .cons hhead horder,
            fun hout => ?_⟩
          rcases hall hout with rfl | hend
          · exact .inl rfl
          · exact .inr hend

/-- Commands are answered once, in their order, and no handler fails after its answer. -/
structure AnsweredOnce (cfg : Config) (txt : TextConfig) (n : Nat) : Prop where
  ends : ∀ cmd s (others : Shared → Shared) (answer : (q : Req) → Shared → q.Answer),
    ∃ out s', (dispatch cfg txt n cmd).Evals (exec cfg (.conn n)) (fun a b => b = others a)
      (fun q a b => a = answer q b) s out s'
  once : ∀ cmd s out s', Evaluates cfg n (dispatch cfg txt n cmd) s out s' →
    Replies cmd.tag s.2 s'.2
  handled : ∀ cmd s out s', Evaluates cfg n (handler cfg txt n cmd) s out s' →
    (Session.Quiet s.2 s'.2 ∧ ∃ e, out = .error e) ∨
      (Session.Closed cmd.tag s.2 s'.2 ∧ out = .ok ())
  ordered : ∀ read events s out s', Evaluates cfg n (serve cfg txt read n events) s out s' →
    ∃ done, done <+: events ∧ InOrder done s.2 s'.2 ∧
      (out = .ok () → done = events ∨ s'.2.state = .logout ∨ s'.2.closed = true)

theorem answered_once (cfg : Config) (txt : TextConfig) (n : Nat) : AnsweredOnce cfg txt n where
  ends _ s others answer := Coro.exists_evals _ others answer s
  once _ _ _ _ h := dispatch_replies h
  handled cmd _ _ _ h := evaluates_closes (closes_handler n cmd) h
  ordered _ _ _ _ _ h := serve_inOrder h

end Imap
end ImapGateway
