/-
Whose key a request carries, and whose fault a failed authentication is.

Every request and every task of a coroutine of the service is made with the client
and the inbox the coroutine was given.  An authentication that fails is charged to
the client whose request was refused: a caller that joins the listing of another
client does not take over its failure.
-/
import ImapGateway.Mailbox.Freshness

namespace ImapGateway
namespace Mailbox

open Async

/-! ## Requests, tasks and their clients -/

/-- The client a request is made through. -/
def Req.client : Req → Option Client
  | authMe api | getInbox api _ | listMessages api _ _ _ | listDrafts api _ _ | getDraft api _ _
  | createDraft api _ _ _ | deleteDraft api _ _ | updateLabels api _ _ _ _ | getRawMeta api _ _
  | download api _ => some api
  | task _ | deferred _ | drain => none

/-- The client whose key a request carries.  A download URL gets no key. -/
def Req.key : Req → Option Client
  | download _ _ => none
  | q => q.client

def Req.inboxId : Req → Option String
  | getInbox _ inboxId | listMessages _ inboxId _ _ | listDrafts _ inboxId _
  | getDraft _ inboxId _ | createDraft _ inboxId _ _ | deleteDraft _ inboxId _
  | updateLabels _ inboxId _ _ _ | getRawMeta _ inboxId _ => some inboxId
  | authMe _ | download _ _ | task _ | deferred _ | drain => none

/-- The requests a LOGIN makes. -/
def Req.verifies : Req → Bool
  | authMe _ | getInbox _ _ => true
  | _ => false

theorem Req.client_of_key {q : Req} {c : Client} (h : q.key = some c) : q.client = some c := by
  cases q <;> first | exact h | cases h

/-- Made with no other client and for no other inbox. -/
def Req.Within (api : Client) (inboxId : String) (q : Req) : Prop :=
  (∀ c, q.client = some c → c = api) ∧ ∀ i, q.inboxId = some i → i = inboxId

def Job.client : Job → Client
  | .listing api _ _ | .resync api _ => api

def Job.inboxId : Job → String
  | .listing _ inboxId _ | .resync _ inboxId => inboxId

/-- A task is created with this client and for this inbox. -/
def Act.Within (api : Client) (inboxId : String) (p : Act) : Prop :=
  ∀ job gen, p = .createTask job gen → job.client = api ∧ job.inboxId = inboxId

/-- The actions that create or end a task. -/
def Act.spawns : Act → Bool
  | createTask _ _ | finishTask _ _ => true
  | _ => false

theorem Act.Within.of_spawns {api : Client} {inboxId : String} {p : Act} (h : p.spawns = false) :
    p.Within api inboxId := by
  rintro job gen rfl
  cases h

/-! ## Listings in flight belong to their clients -/

/-- The listing in flight for a mailbox is a task that lists it with its owner. -/
structure Service.Owned (s : Service) : Prop where
  store : s.store.Ok
  fresh : ∀ n, s.nextTask ≤ n → s.tasks n = none
  inflight : ∀ key e, s.inflight key = some e →
    ∃ task m, s.tasks e.task = some task ∧ task.job = .listing e.owner key.1 m ∧ m.name = key.2

/-- Task `n` lists this mailbox, for whomever. -/
def Service.Lists (s : Service) (n : Nat) (key : Key) : Prop :=
  ∃ task owner m, s.tasks n = some task ∧ task.job = .listing owner key.1 m ∧ m.name = key.2

/-- The tasks keep their jobs. -/
structure Follows (s s' : Service) : Prop where
  jobs : ∀ n task, s.tasks n = some task → ∃ task', s'.tasks n = some task' ∧ task'.job = task.job
  owned : s'.Owned

theorem Service.Owned.refl {s : Service} (h : s.Owned) : Follows s s :=
  ⟨fun _ task ht => ⟨task, ht, rfl⟩, h⟩

theorem Follows.trans {s₁ s₂ s₃ : Service} (h : Follows s₁ s₂) (h' : Follows s₂ s₃) :
    Follows s₁ s₃ where
  jobs n task ht := by
    obtain ⟨task', ht', hjob⟩ := h.jobs n task ht
    obtain ⟨task'', ht'', hjob'⟩ := h'.jobs n task' ht'
    exact ⟨task'', ht'', hjob'.trans hjob⟩
  owned := h'.owned

theorem Follows.lists {s s' : Service} (h : Follows s s') {n : Nat} {key : Key}
    (hn : s.Lists n key) : s'.Lists n key := by
  obtain ⟨task, owner, m, ht, hjob, hname⟩ := hn
  obtain ⟨task', ht', hjob'⟩ := h.jobs n task ht
  exact ⟨task', owner, m, ht', hjob'.trans hjob, hname⟩

variable {cfg : Config} {s s' : Service} {t : Tid}

theorem Service.Owned.exec_job (h : s.Owned) (cfg : Config) (t : Tid) (p : Act) {n : Nat}
    {task : Task} (ht : s.tasks n = some task) :
    ∃ task', (p.exec cfg t s).tasks n = some task' ∧ task'.job = task.job := by
  have hne : (p.exec cfg t s).tasks n ≠ none :=
    Act.exec_tasks_ne_none cfg h.store (by rw [ht]; nofun)
  obtain ⟨task', ht'⟩ := Option.ne_none_iff_exists'.mp hne
  refine ⟨task', ht', ?_⟩
  cases Act.exec_taskFrom cfg h.store ht' with
  | kept old hold hjob =>
    rw [ht] at hold
    cases hold
    exact hjob
  | created job gen hp hn heq =>
    rw [h.fresh n (by omega)] at ht
    cases ht

theorem Act.exec_inflight (cfg : Config) (t : Tid) (p : Act) (h : s.store.Ok) {key : Key}
    {e : Inflight} (he : (p.exec cfg t s).inflight key = some e) :
    s.inflight key = some e ∨ ∃ api i m gen, p = .createTask (.listing api i m) gen ∧
      key = (i, m.name) ∧ e = ⟨s.nextTask, gen, api⟩ := by
  by_cases hp : p.schedules = false
  · rw [(Act.exec_schedule cfg t h hp).inflight] at he
    exact .inl he
  cases p with
  | createTask job gen =>
    cases job with
    | listing api i m =>
      rcases update_some (show Function.update s.inflight (i, m.name) _ key = _ from he) with
        ⟨hk, heq⟩ | ⟨_, he⟩
      · cases heq
        exact .inr ⟨api, i, m, gen, rfl, hk, rfl⟩
      · exact .inl he
    | resync api i => exact .inl he
  | reap n => exact .inl (Service.reap_inflight he)
  | _ => first | exact .inl he | exact absurd rfl hp

theorem Service.Owned.exec (h : s.Owned) (cfg : Config) (t : Tid) (p : Act) :
    (p.exec cfg t s).Owned := by
  refine ⟨(Act.exec_uidStep cfg t p h.store).1, fun n hn => ?_, fun key e he => ?_⟩
  · cases ht : (p.exec cfg t s).tasks n with
    | none => rfl
    | some task' =>
      obtain ⟨hle, hcreate⟩ := Act.exec_nextTask (t := t) (p := p) cfg h.store
      cases Act.exec_taskFrom cfg h.store ht with
      | kept old hold =>
        rw [h.fresh n (by omega)] at hold
        cases hold
      | created job gen hp hnext =>
        have := hcreate ⟨job, gen, hp⟩
        omega
  · rcases Act.exec_inflight cfg t p h.store he with hold | ⟨api, i, m, gen, rfl, rfl, rfl⟩
    · obtain ⟨task, m, ht, hjob, hname⟩ := h.inflight key e hold
      obtain ⟨task', ht', hjob'⟩ := h.exec_job cfg t p ht
      exact ⟨task', m, ht', hjob'.trans hjob, hname⟩
    · exact ⟨_, m, Function.update_self .., rfl, rfl⟩

theorem Service.Owned.follows (h : s.Owned) (cfg : Config) (t : Tid) (p : Act) :
    Follows s (p.exec cfg t s) :=
  ⟨fun _ _ ht => h.exec_job cfg t p ht, h.exec cfg t p⟩

/-! ## The ledger of failed authentications -/

/-- The books of a coroutine: whom a refused request is charged to, which mailboxes'
listings it may wait for, which tasks it has heard to have failed to authenticate, which
of these were listings of a client, and which refusals are the fault of a client.  A
request that carries a key is charged to the client of that key. -/
structure Ledger where
  charge : Req → Option Client
  watch : Key → Prop
  heard : Nat → Nat → Prop
  listing : Nat → Client → Nat → Prop
  fault : Client → Nat → Prop
  keyed : ∀ q c, q.key = some c → charge q = some c

/-- The listings of this mailbox may be waited for, and what a listing task met with is
the fault of its client. -/
structure Ledger.Trusts (Λ : Ledger) (key : Key) : Prop where
  watch : Λ.watch key
  fair : ∀ n c status, Λ.listing n c status → Λ.fault c status

def Ledger.Fair (Λ : Ledger) : Prop := ∀ key, Λ.Trusts key

/-- The exception is a failed authentication. -/
def Exc.rejects : Exc → Bool
  | auth _ => true
  | _ => false

/-- A failed authentication is this client's own fault. -/
def Ledger.Blames (Λ : Ledger) (api : Client) (e : Exc) : Prop :=
  ∀ status, e = .auth status → Λ.fault api status

theorem Ledger.Blames.of_ne {Λ : Ledger} {api : Client} {e : Exc} (h : ∀ status, e ≠ .auth status) :
    Λ.Blames api e := fun status he => absurd he (h status)

theorem Ledger.Blames.of_accepted {Λ : Ledger} {api : Client} {e : Exc} (h : e.rejects = false) :
    Λ.Blames api e := by
  rintro status rfl
  cases h

/-- Where a coroutine of the service stands: of the listings that failed to
authenticate the books are kept, and those found in flight are heard of. -/
structure Ledger.Holds (Λ : Ledger) (s : Service) : Prop where
  owned : s.Owned
  booked : ∀ n task api i m status, s.tasks n = some task → task.job = .listing api i m →
    task.state = .finished (.error (.auth status)) → Λ.heard n status → Λ.listing n api status
  found : ∀ key e status, Λ.watch key → s.inflight key = some e →
    s.taskState e.task = some (.finished (.error (.auth status))) → Λ.heard e.task status

/-- What a coroutine learns from an answer. -/
structure Ledger.Accounts (Λ : Ledger) (q : Req) (a : q.Answer) (s : Service) : Prop where
  charged : ∀ status c, a = .error (.auth status) → Λ.charge q = some c → Λ.fault c status
  told : ∀ status n, a = .error (.auth status) → q = .task n →
    Λ.heard n status ∧ s.taskState n = some (.finished (.error (.auth status)))

/-- A listing that ends with a failed authentication is booked. -/
def Ledger.Settles (Λ : Ledger) (p : Act) (s : Service) : Prop :=
  ∀ n status, p = .finishTask n (.error (.auth status)) → Λ.heard n status ∧
    ∀ task api i m, s.tasks n = some task → task.job = .listing api i m → Λ.listing n api status

/-- A coroutine of the service that works for `api` and `inboxId`. -/
def keyLogic (cfg : Config) (t : Tid) (api : Client) (inboxId : String) (Λ : Ledger) :
    Logic Service Act Req Req.Answer where
  exec := Act.exec cfg t
  rely s s' := Λ.Holds s → Follows s s' ∧ Λ.Holds s'
  guar p s := p.Within api inboxId ∧ Λ.Settles p s
  asks q s := q.Within api inboxId ∧ ∀ n, q = .task n → ∃ key, Λ.watch key ∧ s.Lists n key
  gives q a s := Λ.Accounts q a s

variable {Λ : Ledger} {api : Client} {inboxId : String}

theorem Ledger.Holds.exec (h : Λ.Holds s) (cfg : Config) (t : Tid) {p : Act}
    (hp : Λ.Settles p s) : Λ.Holds (p.exec cfg t s) := by
  refine ⟨h.owned.exec cfg t p, fun n task' api i m status ht' hjob hfin hheard => ?_,
    fun key e status hwatch he hstate => ?_⟩
  · cases Act.exec_taskFrom cfg h.owned.store ht' with
    | kept old hold hsame _ _ hfrom =>
      have hold' : old.job = .listing api i m := hsame ▸ hjob
      rcases hfrom with hstate | ⟨_, hrun⟩ | ⟨r, rfl, hr⟩
      · exact h.booked n old api i m status hold hold' (hstate ▸ hfin) hheard
      · rw [hfin] at hrun
        cases hrun
      · rw [hfin] at hr
        cases hr
        exact (hp n status rfl).2 old api i m hold hold'
    | created _ _ _ _ heq =>
      rw [heq] at hfin
      cases hfin
  · obtain ⟨task', ht', hfin⟩ := Option.map_eq_some_iff.mp hstate
    cases Act.exec_taskFrom cfg h.owned.store ht' with
    | kept old hold _ _ _ hfrom =>
      rcases Act.exec_inflight cfg t p h.owned.store he with hin | ⟨_, _, _, gen, rfl, rfl, rfl⟩
      · rcases hfrom with hsame | ⟨_, hrun⟩ | ⟨r, rfl, hr⟩
        · refine h.found key e status hwatch hin ?_
          rw [Service.taskState, hold, Option.map_some, ← hsame, hfin]
        · rw [hfin] at hrun
          cases hrun
        · rw [hfin] at hr
          cases hr
          exact (hp _ _ rfl).1
      · rw [h.owned.fresh _ (Nat.le_refl _)] at hold
        cases hold
    | created _ _ _ _ heq =>
      rw [heq] at hfin
      cases hfin

theorem Ledger.Settles.createTask (Λ : Ledger) (s : Service) (job : Job) (gen : Nat) :
    Λ.Settles (.createTask job gen) s := fun _ _ he => by cases he

theorem Ledger.Settles.of_spawns {p : Act} (hp : p.spawns = false) : Λ.Settles p s := by
  rintro n e rfl
  cases hp

/-! ## Rules -/

/-- Whatever it does, the coroutine works for its client, and the failures it raises
are its client's own. -/
abbrev Minds {α : Type} (cfg : Config) (t : Tid) (api : Client) (inboxId : String) (Λ : Ledger)
    (x : Svc α) : Prop :=
  Coro.Raises (keyLogic cfg t api inboxId Λ) Λ.Holds (Λ.Blames api) x

/-- An action that neither creates nor ends a task. -/
theorem perform_minds {p : Act} (hp : p.spawns = false) :
    Minds cfg t api inboxId Λ (perform p) :=
  Coro.Raises.perform fun _ hs => ⟨⟨.of_spawns hp, .of_spawns hp⟩, hs.exec cfg t (.of_spawns hp)⟩

theorem act_minds {α : Type} {p : Act} {k : Unit → Svc α} (hp : p.spawns = false)
    (hk : Minds cfg t api inboxId Λ (k ())) : Minds cfg t api inboxId Λ ((perform p).bind k) :=
  (perform_minds hp).bind fun _ => hk

/-- A task is created that works for the same client and inbox. -/
theorem createTask_minds {job : Job} (hc : job.client = api) (hi : job.inboxId = inboxId)
    (gen : Nat) : Minds cfg t api inboxId Λ (perform (.createTask job gen)) :=
  Coro.Raises.perform fun _ hs => by
    refine ⟨⟨fun job' gen' he => ?_, .createTask Λ _ job gen⟩,
      hs.exec cfg t (.createTask Λ _ job gen)⟩
    cases he
    exact ⟨hc, hi⟩

theorem throw_minds {α : Type} {e : Exc} (h : e.rejects = false) :
    Minds cfg t api inboxId Λ (Coro.raise e : Svc α) := Coro.Raises.raise (.of_accepted h)

theorem state_minds {α : Type} {k : Service → Svc α} (h : ∀ s, Minds cfg t api inboxId Λ (k s)) :
    Minds cfg t api inboxId Λ (state.bind k) := Coro.Raises.read fun s hs => h s s hs

theorem ask_iff {L : Logic Service Act Req Req.Answer} {q : Req} {Q : q.Value → Service → Prop}
    {E : Exc → Service → Prop} : (ask q).wp L Q E s ↔ L.asks q s ∧ ∀ s', L.rely s s' →
      ∀ a, L.gives q a s' → (Coro.ofExcept a : Svc q.Value).wp L Q E s' := by
  rw [ask, Coro.wp_bind, Coro.wp_request]

/-- A request that is charged to the client it is made with. -/
theorem ask_minds {q : Req} (hq : q.Within api inboxId) (hc : q.client ≠ none)
    (hcharge : Λ.charge q = some api) : Minds cfg t api inboxId Λ (ask q) := by
  intro s hs
  refine ask_iff.mpr ⟨⟨hq, fun n he => ?_⟩, fun s' hr a ha => ?_⟩
  · subst he
    exact absurd rfl hc
  have hs' : Λ.Holds s' := (hr hs).2
  cases a with
  | ok v => exact hs'
  | error e => exact ⟨fun status he => ha.charged status api (he ▸ rfl) hcharge, hs'⟩

theorem Req.Within.of {q : Req} (hc : q.client = some api)
    (hi : ∀ i, q.inboxId = some i → i = inboxId) : q.Within api inboxId :=
  ⟨fun _ h => Option.some.inj (h.symm.trans hc), hi⟩

/-- A request that carries the key of its client. -/
theorem ask_key_minds {q : Req} (hkey : q.key = some api)
    (hi : ∀ i, q.inboxId = some i → i = inboxId) : Minds cfg t api inboxId Λ (ask q) := by
  have hc := Req.client_of_key hkey
  exact ask_minds (.of hc hi) (by rw [hc]; nofun) (Λ.keyed q api hkey)

theorem ask_bind_minds {α : Type} {q : Req} {k : q.Value → Svc α} (hkey : q.key = some api)
    (hi : ∀ i, q.inboxId = some i → i = inboxId) (hk : ∀ v, Minds cfg t api inboxId Λ (k v)) :
    Minds cfg t api inboxId Λ ((ask q).bind k) := (ask_key_minds hkey hi).bind hk

/-! ## Listings -/

theorem paginate_minds {α : Type} {ask : Option String → Svc (Page α)} {body : α → Svc Unit}
    (hask : ∀ token, Minds cfg t api inboxId Λ (ask token))
    (hbody : ∀ x, Minds cfg t api inboxId Λ (body x)) (fuel : Nat) (token : Option String)
    (seen : List String) : Minds cfg t api inboxId Λ (paginate ask body fuel token seen) := by
  induction fuel generalizing token seen with
  | zero => exact throw_minds rfl
  | succ fuel ih =>
    rw [paginate]
    refine (hask token).bind fun page => (Coro.Raises.each hbody _).bind fun _ => ?_
    split
    · exact Coro.Raises.ret _
    · split
      · exact throw_minds rfl
      · exact ih _ _

theorem collectMessage_minds (m : MessageJson) :
    Minds cfg t api inboxId Λ (collectMessage m) := by
  rw [collectMessage]
  split
  · exact throw_minds rfl
  · exact perform_minds rfl

theorem renderDraft_minds (draftId updatedAt : String) :
    Minds cfg t api inboxId Λ (renderDraft cfg api inboxId draftId updatedAt) := by
  rw [renderDraft]
  refine state_minds fun s => ?_
  split
  · exact act_minds rfl (Coro.Raises.ret _)
  · refine Coro.Raises.attempt_bind (ask_key_minds (q := .getDraft api inboxId draftId) rfl
      fun i hi => (Option.some.inj hi).symm) (fun full => ?_) fun e he => ?_
    · simp only
      split
      · exact throw_minds rfl
      · exact act_minds rfl (act_minds rfl (Coro.Raises.ret _))
    · cases e with
      | notFound => exact Coro.Raises.ret _
      | _ => exact Coro.Raises.raise he

theorem collectDraft_minds (d : DraftJson) :
    Minds cfg t api inboxId Λ (collectDraft cfg t api inboxId d) := by
  rw [collectDraft]
  simp only
  split
  · exact throw_minds rfl
  · refine state_minds fun s => ?_
    split
    · exact Coro.Raises.ret _
    · refine act_minds rfl ((renderDraft_minds _ _).bind fun rendered => ?_)
      cases rendered with
      | none => exact Coro.Raises.ret _
      | some data => exact perform_minds rfl

theorem doSync_minds (mdef : MailboxDef) :
    Minds cfg t api inboxId Λ (doSync cfg t api inboxId mdef) := by
  rw [doSync]
  have own : ∀ i, some inboxId = some i → i = inboxId := fun i hi => (Option.some.inj hi).symm
  refine act_minds rfl ?_
  refine Coro.Raises.bind (Coro.Raises.handle (D := Λ.Blames api) ?_ fun e he => ?_) fun _ =>
    act_minds rfl (state_minds fun s => ?_)
  · cases mdef.kind with
    | messages =>
      refine paginate_minds (fun token => ?_) collectMessage_minds _ _ _
      exact ask_key_minds (q := .listMessages api inboxId mdef token) rfl own
    | drafts =>
      refine paginate_minds (fun token => ?_) collectDraft_minds _ _ _
      exact ask_key_minds (q := .listDrafts api inboxId token) rfl own
  · exact act_minds rfl (Coro.Raises.raise he)
  · split
    · exact Coro.Raises.ret _
    · exact throw_minds rfl

/-! ## `sync` -/

section Trusts

variable {mdef : MailboxDef} (htrusts : Λ.Trusts (inboxId, mdef.name))
include htrusts

/-- Waiting for a listing: if it fails to authenticate that is its owner's fault. -/
theorem awaitTask_minds {n : Nat} {task : Task} {owner : Client} {m : MailboxDef}
    (hs : Λ.Holds s) (ht : s.tasks n = some task) (hjob : task.job = .listing owner inboxId m)
    (hname : m.name = mdef.name)
    (hfound : ∀ status, s.taskState n = some (.finished (.error (.auth status))) →
      Λ.heard n status) :
    (awaitTask n).wp (keyLogic cfg t api inboxId Λ) (fun _ => Λ.Holds)
      (fun e s => Λ.Blames owner e ∧ Λ.Holds s) s := by
  have hblames : ∀ {s : Service} {task : Task} {status : Nat}, Λ.Holds s →
      s.tasks n = some task → task.job = .listing owner inboxId m → Λ.heard n status →
      s.taskState n = some (.finished (.error (.auth status))) → Λ.fault owner status := by
    intro s task status hs ht hjob hheard hstate
    obtain ⟨task', ht', hfin⟩ := Option.map_eq_some_iff.mp hstate
    cases ht.symm.trans ht'
    exact htrusts.fair n owner status (hs.booked n task owner inboxId m status ht hjob hfin hheard)
  refine awaitTask_cases (fun r hr => ?_) ?_
  · cases r with
    | ok snap => exact hs
    | error e =>
      refine ⟨fun status he => ?_, hs⟩
      subst he
      exact hblames hs ht hjob (hfound status hr) hr
  · refine (ask_iff (q := .task n)).mpr ⟨⟨⟨nofun, nofun⟩, fun n' he => ?_⟩, fun s' hr a ha => ?_⟩
    · cases he
      exact ⟨(inboxId, mdef.name), htrusts.watch, task, owner, m, ht, hjob, hname⟩
    obtain ⟨hfollows, hs'⟩ := hr hs
    cases a with
    | ok v => exact hs'
    | error e =>
      refine ⟨fun status he => ?_, hs'⟩
      subst he
      obtain ⟨task', ht', hjob'⟩ := hfollows.jobs n task ht
      obtain ⟨hheard, hstate⟩ := ha.told status n rfl rfl
      exact hblames hs' ht' (hjob'.trans hjob) hheard hstate

theorem join_minds {e : Inflight} (hs : Λ.Holds s)
    (he : s.inflight (inboxId, mdef.name) = some e) :
    (join cfg t e api inboxId mdef).wp (keyLogic cfg t api inboxId Λ) (fun _ => Λ.Holds)
      (fun e s => Λ.Blames api e ∧ Λ.Holds s) s := by
  obtain ⟨task, m, ht, hjob, hm⟩ := hs.owned.inflight _ _ he
  rw [join]
  simp only [Coro.tryCatch_eq, Coro.throw_eq]
  refine (Coro.wp_handle _ _).mpr (Coro.wp_mono (fun _ _ h => h) (fun exc s' h => ?_)
    (awaitTask_minds htrusts hs ht hjob hm fun status hfin =>
      hs.found _ e status htrusts.watch he hfin))
  split
  · rename_i status
    split
    · -- The listing is the caller's own.
      rename_i hown
      exact ⟨hown ▸ h.1, h.2⟩
    · exact doSync_minds mdef s' h.2
  · rename_i hother
    exact ⟨.of_ne fun status heq => hother status heq, h.2⟩

theorem launch_minds (generation : Nat) :
    Minds cfg t api inboxId Λ (launch api inboxId mdef generation) := by
  rw [launch]
  simp only [Coro.bind_eq]
  refine Coro.Raises.read fun s hs => perform_bind_wp ⟨fun job gen he => ?_, .createTask Λ s _ _⟩ ?_
  · cases he
    exact ⟨rfl, rfl⟩
  · have hs' := hs.exec cfg t (.createTask Λ s (.listing api inboxId mdef) generation)
    have ht : ((Act.createTask (.listing api inboxId mdef) generation).exec cfg t s).tasks
        s.nextTask = some ⟨.listing api inboxId mdef, .queued, false, generation, none⟩ :=
      Function.update_self ..
    refine awaitTask_minds htrusts hs' ht rfl rfl fun status hfin => ?_
    obtain ⟨task, htask, hstate⟩ := Option.map_eq_some_iff.mp hfin
    cases ht.symm.trans htask
    cases hstate

/-- Whatever comes of it, nothing is raised but a cancellation. -/
theorem waitOut_minds {n : Nat} {task : Task} {owner : Client} {m : MailboxDef}
    (hs : Λ.Holds s) (ht : s.tasks n = some task) (hjob : task.job = .listing owner inboxId m)
    (hname : m.name = mdef.name)
    (hfound : ∀ status, s.taskState n = some (.finished (.error (.auth status))) →
      Λ.heard n status) :
    (waitOut n).wp (keyLogic cfg t api inboxId Λ) (fun _ => Λ.Holds)
      (fun e s => Λ.Blames api e ∧ Λ.Holds s) s := by
  rw [waitOut]
  simp only [Coro.tryCatch_eq, Coro.throw_eq, Coro.bind_eq]
  refine (Coro.wp_handle _ _).mpr ((Coro.wp_bind _ _).mpr (Coro.wp_mono (fun _ _ h => h)
    (fun exc s' h => ?_) (awaitTask_minds htrusts hs ht hjob hname hfound)))
  split
  · exact ⟨.of_accepted rfl, h.2⟩
  · exact h.2

theorem syncMailbox_minds (force : Bool) :
    Minds cfg t api inboxId Λ (syncMailbox cfg t api inboxId mdef force) := by
  rw [syncMailbox]
  simp only [Coro.bind_eq]
  refine Coro.Raises.read fun s hs => ?_
  split
  · exact hs
  · split
    · exact launch_minds htrusts _ s hs
    · rename_i e he
      split
      · exact join_minds htrusts hs he
      · obtain ⟨task, m, ht, hjob, hm⟩ := hs.owned.inflight _ _ he
        refine (Coro.wp_bind _ _).mpr (Coro.wp_mono (fun _ s' hs' => ?_) (fun _ _ h => h)
          (waitOut_minds htrusts hs ht hjob hm fun status hfin =>
            hs.found _ e status htrusts.watch he hfin))
        refine state_bind_wp ?_
        split
        · rename_i e' he'
          split
          · exact join_minds htrusts hs' he'
          · exact launch_minds htrusts _ s' hs'
        · exact launch_minds htrusts _ s' hs'

end Trusts

section Named

variable {name : String}
  (htrusts : ∀ mdef, lookupMailbox name = some mdef → Λ.Trusts (inboxId, mdef.name))
include htrusts

theorem sync_minds (force : Bool) :
    Minds cfg t api inboxId Λ (sync cfg t api inboxId name force) := by
  rw [sync]
  split
  · exact throw_minds rfl
  · rename_i mdef hlookup
    exact syncMailbox_minds (htrusts mdef hlookup) force

theorem syncForced_minds : Minds cfg t api inboxId Λ (syncForced cfg t api inboxId name) := by
  rw [syncForced]
  split
  · exact throw_minds rfl
  · rename_i mdef hlookup
    refine act_minds rfl ((syncMailbox_minds (htrusts mdef hlookup) true).bind fun snap => ?_)
    exact act_minds rfl (Coro.Raises.ret _)

theorem firstContact_minds :
    Minds cfg t api inboxId Λ (firstContact cfg t api inboxId name) := by
  rw [firstContact]
  refine state_minds fun s => ?_
  split
  · exact (syncForced_minds htrusts).bind fun _ => Coro.Raises.ret _
  · exact Coro.Raises.ret _

end Named

/-! ## Mutations -/

theorem mutation_minds {α : Type} {keys : List Key} {tolerant : Bool} {body : Svc α}
    (h : Minds cfg t api inboxId Λ body) :
    Minds cfg t api inboxId Λ (mutation keys tolerant body) := by
  rw [mutation]
  refine act_minds rfl (Coro.Raises.attempt_bind h (fun a => ?_) fun e he => ?_)
  · exact act_minds rfl (Coro.Raises.ret a)
  · exact act_minds rfl (Coro.Raises.raise he)

/-- The inbox of a request made for `inboxId`. -/
theorem own_inbox {inboxId : String} : ∀ i, some inboxId = some i → i = inboxId :=
  fun _ h => (Option.some.inj h).symm

theorem updateLabels_minds (messageId : String) (add remove : List String) :
    Minds cfg t api inboxId Λ (updateLabels api inboxId messageId add remove) := by
  rw [updateLabels]
  refine act_minds rfl (Coro.Raises.handle (D := Λ.Blames api) ?_ fun e he => ?_)
  · exact ask_key_minds (q := .updateLabels api inboxId messageId add remove) rfl own_inbox
  · exact act_minds rfl (Coro.Raises.raise he)

theorem appendCreated_minds (created : DraftJson) :
    Minds cfg t api inboxId Λ (appendCreated cfg api inboxId created) := by
  rw [appendCreated]
  simp only
  split
  · exact throw_minds rfl
  · split
    · exact throw_minds rfl
    · refine act_minds rfl (act_minds rfl (state_minds fun s => act_minds rfl ?_))
      exact (createTask_minds rfl rfl 0).bind fun _ => Coro.Raises.ret _

theorem appendDraft_minds (hfair : Λ.Fair) (fields : DraftFields) (clientId : Option String) :
    Minds cfg t api inboxId Λ (appendDraft cfg t api inboxId fields clientId) := by
  rw [appendDraft]
  refine mutation_minds ((firstContact_minds fun _ _ => hfair _).bind fun _ =>
    Coro.Raises.bind ?_ fun created => act_minds rfl (appendCreated_minds created))
  exact ask_key_minds (q := .createDraft api inboxId fields clientId) rfl own_inbox

theorem copyMessage_minds (item : Item) :
    Minds cfg t api inboxId Λ (copyMessage api inboxId item) := by
  rw [copyMessage]
  refine (updateLabels_minds _ _ _).bind fun result => act_minds rfl ?_
  exact perform_minds rfl

theorem copyToTrash_minds (hfair : Λ.Fair) (mdef : MailboxDef) (items : List Item) :
    Minds cfg t api inboxId Λ (copyToTrash cfg t api inboxId mdef items) := by
  rw [copyToTrash]
  refine mutation_minds ((firstContact_minds fun _ _ => hfair _).bind fun _ => act_minds rfl
    ((Coro.Raises.each copyMessage_minds items).bind fun _ => state_minds fun s => ?_))
  simp only
  split
  · exact act_minds rfl (act_minds rfl (Coro.Raises.ret _))
  · exact Coro.Raises.ret _

theorem setFlag_minds (mdef : MailboxDef) (item : Item) (flag : Flag) (value : Bool) :
    Minds cfg t api inboxId Λ (setFlag api inboxId mdef item flag value) := by
  rw [setFlag]
  split
  · refine (updateLabels_minds _ _ _).bind fun result => act_minds rfl (Coro.Raises.ret _)
  · exact throw_minds rfl

theorem expungeItem_minds (mdef : MailboxDef) (item : Item) :
    Minds cfg t api inboxId Λ (expungeItem cfg api inboxId mdef item) := by
  rw [expungeItem]
  split
  · refine ask_bind_minds rfl own_inbox fun current => ?_
    split
    · exact throw_minds rfl
    · split
      · exact throw_minds rfl
      · refine ask_bind_minds rfl own_inbox fun _ => act_minds rfl ?_
        exact perform_minds rfl
  · refine (updateLabels_minds _ _ _).bind fun result => act_minds rfl ?_
    exact perform_minds rfl

theorem expungeRound_minds (mdef : MailboxDef) (r : List Exc × Bool) (item : Item) :
    Minds cfg t api inboxId Λ (expungeRound cfg api inboxId mdef r item) := by
  rw [expungeRound]
  refine Coro.Raises.attempt_bind (expungeItem_minds mdef item) (fun _ => Coro.Raises.ret _)
    fun e _ => ?_
  split
  · exact Coro.Raises.ret _
  · exact throw_minds rfl
  · exact Coro.Raises.ret _

theorem expungeItems_minds (mdef : MailboxDef) (items : List Item) :
    Minds cfg t api inboxId Λ (expungeItems cfg api inboxId mdef items) := by
  rw [expungeItems]
  refine mutation_minds ((Coro.Raises.foldEach (expungeRound_minds mdef) _ items).bind fun r => ?_)
  simp only
  split
  · exact act_minds rfl (Coro.Raises.ret _)
  · exact Coro.Raises.ret _

/-! ## Content -/

theorem cacheGet_minds (key : String) : Minds cfg t api inboxId Λ (cacheGet key) := by
  rw [cacheGet]
  exact state_minds fun s => act_minds rfl (Coro.Raises.ret _)

theorem recallSize_minds (item : Item) :
    Minds cfg t api inboxId Λ (recallSize inboxId item) := by
  rw [recallSize]
  exact (cacheGet_minds _).bind fun _ => act_minds rfl (Coro.Raises.ret _)

theorem keepRaw_minds (mdef : MailboxDef) (item : Item) (size : Nat) (data : Bytes) :
    Minds cfg t api inboxId Λ (keepRaw inboxId mdef item size data) := by
  rw [keepRaw]
  split
  · exact throw_minds rfl
  · exact act_minds rfl (act_minds rfl (act_minds rfl (act_minds rfl (Coro.Raises.ret _))))

/-- Downloads are charged to the client too. -/
theorem rawBytes_minds (hcharge : ∀ url, Λ.charge (.download api url) = some api)
    (mdef : MailboxDef) (item : Item) :
    Minds cfg t api inboxId Λ (rawBytes cfg api inboxId mdef item) := by
  rw [rawBytes]
  refine act_minds rfl ((cacheGet_minds _).bind fun cached => ?_)
  split
  · exact act_minds rfl (Coro.Raises.ret _)
  · split
    · refine ask_bind_minds rfl own_inbox fun full => ?_
      split
      · exact throw_minds rfl
      · split
        · exact throw_minds rfl
        · exact act_minds rfl (act_minds rfl (act_minds rfl (Coro.Raises.ret _)))
    · refine ask_bind_minds rfl own_inbox fun info => (recallSize_minds item).bind fun r => ?_
      split
      · exact throw_minds rfl
      · refine Coro.Raises.bind ?_ fun data => keepRaw_minds mdef item _ data
        exact ask_minds (q := .download api info.downloadUrl) (.of rfl nofun) nofun (hcharge _)

theorem sizeOf_minds (hcharge : ∀ url, Λ.charge (.download api url) = some api)
    (mdef : MailboxDef) (item : Item) :
    Minds cfg t api inboxId Λ (sizeOf cfg api inboxId mdef item) := by
  rw [sizeOf]
  refine act_minds rfl ((cacheGet_minds _).bind fun cached => ?_)
  split
  · exact act_minds rfl (Coro.Raises.ret _)
  · split
    · exact (rawBytes_minds hcharge mdef item).bind fun _ => Coro.Raises.ret _
    · refine (recallSize_minds item).bind fun remembered => ?_
      split
      · exact act_minds rfl (Coro.Raises.ret _)
      · exact ask_bind_minds rfl own_inbox fun info =>
          act_minds rfl (act_minds rfl (Coro.Raises.ret _))

/-! ## Tasks -/

/-- A task works for what its job says. -/
theorem runTask_minds {n : Nat} {task : Task} (hs : Λ.Holds s) (ht : s.tasks n = some task)
    (hheard : ∀ status, Λ.heard n status)
    (hown : ∀ api i m, task.job = .listing api i m →
      ∀ c status, Λ.fault c status → Λ.listing n c status)
    (hfair : ∀ api i, task.job = .resync api i → Λ.Fair) :
    (runTask cfg n task.job).wp (keyLogic cfg (.task n) task.job.client task.job.inboxId Λ)
      (fun _ => Λ.Holds) (fun _ => Λ.Holds) s := by
  let L := keyLogic cfg (.task n) task.job.client task.job.inboxId Λ
  let J : Service → Prop := fun s => Λ.Holds s ∧ ∃ task', s.tasks n = some task' ∧
    task'.job = task.job
  have hact : ∀ p s, J s → L.guar p s → J (L.exec p s) := by
    rintro p s ⟨hholds, task', ht', hjob⟩ hg
    obtain ⟨task'', ht'', hjob'⟩ := hholds.owned.exec_job cfg (.task n) p ht'
    exact ⟨hholds.exec cfg (.task n) hg.2, task'', ht'', hjob'.trans hjob⟩
  have hrely : ∀ s s', J s → L.rely s s' → J s' := by
    rintro s s' ⟨hholds, task', ht', hjob⟩ hr
    obtain ⟨task'', ht'', hjob'⟩ := (hr hholds).1.jobs n task' ht'
    exact ⟨(hr hholds).2, task'', ht'', hjob'.trans hjob⟩
  unfold runTask
  simp only [Coro.bind_eq]
  have hbegin : L.guar (.beginTask n) s := ⟨.of_spawns rfl, .of_spawns rfl⟩
  have hs₁ : Λ.Holds (L.exec (.beginTask n) s) := hs.exec cfg (.task n) hbegin.2
  have hJ : J (L.exec (.beginTask n) s) := hact _ s ⟨hs, task, ht, rfl⟩ hbegin
  refine perform_bind_wp hbegin ((Coro.wp_bind _ _).mpr (Coro.wp_mono (fun r s' h => ?_)
    (fun _ s' h => h.1) (Coro.wp_frame (E := fun _ => Λ.Holds) hact hrely hJ
      (Coro.Raises.attempt (B := Λ.Blames task.job.client) ?_ hs₁))))
  rotate_left
  · cases hjob : task.job with
    | listing api inboxId mdef => exact doSync_minds mdef
    | resync api inboxId => exact syncForced_minds fun _ _ => hfair api inboxId hjob _
  obtain ⟨⟨hs', hblames⟩, _, task', ht', hjob⟩ := h
  have hsettles : Λ.Settles (.finishTask n r) s' := by
    intro m status he
    cases he
    refine ⟨hheard status, fun task'' api i mdef ht'' hlisting => ?_⟩
    cases ht'.symm.trans ht''
    have hclient : task.job.client = api := by rw [← hjob, hlisting]; rfl
    exact hown api i mdef (hjob ▸ hlisting) _ _ (hclient ▸ hblames _ rfl status rfl)
  refine ⟨⟨fun job gen he => ?_, hsettles⟩, hs'.exec cfg (.task n) hsettles⟩
  cases he

end Mailbox
end ImapGateway
