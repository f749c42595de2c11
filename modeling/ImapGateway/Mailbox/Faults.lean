/-
What the service raises.

A refusal is what a handler raises to answer NO or BAD.  Upstream does not raise one, so no
listing fails with one and the service passes none on: what a handler gets from the service
is an error of the API, a timeout, a cancellation or an internal one.
-/
import ImapGateway.Mailbox.Freshness

namespace ImapGateway
namespace Mailbox

open Async

variable {cfg : Config} {t : Tid} {s : Service} {p : Act}

/-- The exception answers a command. -/
def Exc.isRefusal : Exc → Bool
  | .commandFailed _ _ _ => true
  | _ => false

/-- No task has failed with a refusal. -/
structure Service.Unrefused (s : Service) : Prop where
  store : s.store.Ok
  tasks : ∀ n e, s.taskState n = some (.finished (.error e)) → e.isRefusal = false

/-- The answer is no refusal. -/
def Req.unrefusing {q : Req} (a : q.Answer) : Bool :=
  match a with
  | .ok _ => true
  | .error e => !e.isRefusal

/-- The answer comes from upstream or from the client, and not from a task. -/
def Req.outward : Req → Bool
  | .task _ => false
  | .deferred _ => false
  | _ => true

/-- The action does not end a task with a refusal. -/
def Act.Ends (p : Act) : Prop := ∀ n e, p = .finishTask n (.error e) → e.isRefusal = false

/-- The actions that do not end a task. -/
def Act.goesOn : Act → Bool
  | finishTask _ _ => false
  | _ => true

theorem Act.Ends.of_goesOn (h : p.goesOn = true) : p.Ends := by
  intro n e hp
  rw [hp] at h
  cases h

theorem Act.exec_unrefused (h : s.Unrefused) (hp : p.Ends) : (p.exec cfg t s).Unrefused where
  store := (Act.exec_uidStep cfg t p h.store).1
  tasks n e he := by
    obtain ⟨task', ht', hstate⟩ := Option.map_eq_some_iff.mp he
    cases Act.exec_taskFrom cfg h.store ht' with
    | kept task ht _ _ _ hfrom =>
      rcases hfrom with hsame | ⟨_, hrun⟩ | ⟨r, rfl, hr⟩
      · apply h.tasks n e
        rw [Service.taskState, ht, Option.map_some, ← hsame, hstate]
      · rw [hstate] at hrun
        cases hrun
      · rw [hstate] at hr
        cases hr
        exact hp n e rfl
    | created _ _ _ _ heq =>
      rw [heq] at hstate
      cases hstate

/-! ## The logic -/

/-- Nobody ends a task with a refusal, and while no task has ended so no request is answered by
one. -/
def faultLogic (cfg : Config) (t : Tid) : Logic Service Act Req Req.Answer where
  exec := Act.exec cfg t
  rely s s' := s.Unrefused → s'.Unrefused
  guar p _ := p.Ends
  asks _ _ := True
  gives _ a s := s.Unrefused → Req.unrefusing a = true

/-- What the coroutine raises is no refusal. -/
abbrev Faults {α : Type} (cfg : Config) (t : Tid) (x : Svc α) : Prop :=
  Coro.Raises (faultLogic cfg t) Service.Unrefused (fun e => e.isRefusal = false) x

theorem ret_faults {α : Type} (a : α) : Faults cfg t (Coro.ret a : Svc α) := Coro.Raises.ret a

theorem throw_faults {α : Type} {e : Exc} (h : e.isRefusal = false) :
    Faults cfg t (Coro.raise e : Svc α) := Coro.Raises.raise h

theorem perform_faults (hp : p.goesOn = true) : Faults cfg t (perform p) :=
  Coro.Raises.perform fun _ hs => ⟨.of_goesOn hp, Act.exec_unrefused hs (.of_goesOn hp)⟩

theorem act_faults {α : Type} {k : Unit → Svc α} (hp : p.goesOn = true)
    (hk : Faults cfg t (k ())) : Faults cfg t ((perform p).bind k) :=
  (perform_faults hp).bind fun _ => hk

theorem state_faults {α : Type} {k : Service → Svc α} (h : ∀ s, Faults cfg t (k s)) :
    Faults cfg t (state.bind k) := Coro.Raises.read fun s hs => h s s hs

theorem ofExcept_faults {α : Type} {r : Except Exc α}
    (h : ∀ e, r = .error e → e.isRefusal = false) : Faults cfg t (Coro.ofExcept r) := by
  cases r with
  | ok a => exact ret_faults a
  | error e => exact throw_faults (h e rfl)

theorem ask_faults (q : Req) : Faults cfg t (ask q) := by
  intro s hs
  rw [ask, Coro.wp_bind, Coro.wp_request]
  refine ⟨trivial, fun s' hr a ha => ?_⟩
  apply ofExcept_faults
  · intro e he
    subst he
    simpa [Req.unrefusing] using ha (hr hs)
  · exact hr hs

theorem ask_bind_faults {α : Type} {q : Req} {k : q.Value → Svc α} (hk : ∀ v, Faults cfg t (k v)) :
    Faults cfg t ((ask q).bind k) := (ask_faults q).bind hk

/-! ## Listings -/

theorem paginate_faults {α : Type} {ask : Option String → Svc (Page α)} {body : α → Svc Unit}
    (hask : ∀ token, Faults cfg t (ask token)) (hbody : ∀ x, Faults cfg t (body x)) (fuel : Nat)
    (token : Option String) (seen : List String) :
    Faults cfg t (paginate ask body fuel token seen) := by
  induction fuel generalizing token seen with
  | zero => exact throw_faults rfl
  | succ fuel ih =>
    rw [paginate]
    apply (hask token).bind
    intro page
    apply (Coro.Raises.each hbody _).bind
    intro _
    split
    · exact ret_faults _
    · split
      · exact throw_faults rfl
      · exact ih _ _

theorem collectMessage_faults (m : MessageJson) : Faults cfg t (collectMessage m) := by
  rw [collectMessage]
  split
  · exact throw_faults rfl
  · exact perform_faults rfl

theorem renderDraft_faults (api : Client) (inboxId draftId updatedAt : String) :
    Faults cfg t (renderDraft cfg api inboxId draftId updatedAt) := by
  rw [renderDraft]
  apply state_faults
  intro s
  split
  · exact act_faults rfl (ret_faults _)
  · apply Coro.Raises.attempt_bind (ask_faults (.getDraft api inboxId draftId))
    · intro full
      simp only
      split
      · exact throw_faults rfl
      · exact act_faults rfl (act_faults rfl (ret_faults _))
    · intro e he
      split
      · exact ret_faults _
      · exact throw_faults (by simp_all)
      · simp_all

theorem collectDraft_faults (api : Client) (inboxId : String) (d : DraftJson) :
    Faults cfg t (collectDraft cfg t api inboxId d) := by
  rw [collectDraft]
  simp only [Coro.bind_eq, Coro.pure_eq, Coro.throw_eq]
  split
  · exact throw_faults rfl
  · apply state_faults
    intro s
    split
    · exact ret_faults _
    · apply act_faults rfl
      apply (renderDraft_faults api inboxId _ _).bind
      intro r
      split
      · exact ret_faults _
      · exact perform_faults rfl

theorem doSync_faults (api : Client) (inboxId : String) (mdef : MailboxDef) :
    Faults cfg t (doSync cfg t api inboxId mdef) := by
  rw [doSync]
  simp only [Coro.bind_eq, Coro.pure_eq, Coro.throw_eq, Coro.tryCatch_eq]
  apply act_faults rfl
  apply Coro.Raises.bind
  · apply Coro.Raises.handle (D := fun e => e.isRefusal = false)
    · split
      · exact paginate_faults (fun _ => ask_faults _) collectMessage_faults _ _ _
      · exact paginate_faults (fun _ => ask_faults _) (collectDraft_faults api inboxId) _ _ _
    · exact fun e he => act_faults rfl (throw_faults he)
  · intro _
    apply act_faults rfl
    apply state_faults
    intro s
    split
    · exact ret_faults _
    · exact throw_faults rfl

theorem awaitTask_faults (n : Nat) : Faults cfg t (awaitTask n) := by
  intro s hs
  apply awaitTask_cases
  · intro r hr
    apply ofExcept_faults
    · intro e he
      rw [he] at hr
      exact hs.tasks n e hr
    · exact hs
  · exact ask_faults (.task n) s hs

theorem join_faults (e : Inflight) (api : Client) (inboxId : String) (mdef : MailboxDef) :
    Faults cfg t (join cfg t e api inboxId mdef) := by
  rw [join]
  simp only [Coro.tryCatch_eq, Coro.throw_eq]
  apply (awaitTask_faults e.task).handle
  intro exc hexc
  split
  · split
    · exact throw_faults rfl
    · exact doSync_faults api inboxId mdef
  · exact throw_faults hexc

theorem launch_faults (api : Client) (inboxId : String) (mdef : MailboxDef) (generation : Nat) :
    Faults cfg t (launch api inboxId mdef generation) :=
  state_faults fun s => act_faults rfl (awaitTask_faults s.nextTask)

theorem waitOut_faults (n : Nat) : Faults cfg t (waitOut n) := by
  rw [waitOut]
  simp only [Coro.tryCatch_eq, Coro.throw_eq, Coro.bind_eq]
  apply Coro.Raises.handle ((awaitTask_faults n).bind fun _ => ret_faults ())
  intro exc _
  split
  · exact throw_faults rfl
  · exact ret_faults _

theorem syncMailbox_faults (api : Client) (inboxId : String) (mdef : MailboxDef) (force : Bool) :
    Faults cfg t (syncMailbox cfg t api inboxId mdef force) := by
  rw [syncMailbox]
  simp only [Coro.bind_eq]
  apply state_faults
  intro s
  split
  · exact ret_faults _
  · split
    · exact launch_faults api inboxId mdef _
    · split
      · exact join_faults _ api inboxId mdef
      · apply (waitOut_faults _).bind
        intro _
        apply state_faults
        intro s'
        split
        · split
          · exact join_faults _ api inboxId mdef
          · exact launch_faults api inboxId mdef _
        · exact launch_faults api inboxId mdef _

theorem sync_faults (api : Client) (inboxId name : String) (force : Bool) :
    Faults cfg t (sync cfg t api inboxId name force) := by
  rw [sync]
  split
  · exact throw_faults rfl
  · exact syncMailbox_faults api inboxId _ force

theorem syncForced_faults (api : Client) (inboxId name : String) :
    Faults cfg t (syncForced cfg t api inboxId name) := by
  rw [syncForced]
  split
  · exact throw_faults rfl
  · apply act_faults rfl
    exact (syncMailbox_faults api inboxId _ true).bind fun _ => act_faults rfl (ret_faults _)

theorem firstContact_faults (api : Client) (inboxId name : String) :
    Faults cfg t (firstContact cfg t api inboxId name) := by
  rw [firstContact]
  apply state_faults
  intro s
  split
  · exact (syncForced_faults api inboxId name).bind fun _ => ret_faults _
  · exact ret_faults _

/-! ## Mutations -/

theorem mutation_faults {α : Type} {keys : List Key} {tolerant : Bool} {body : Svc α}
    (h : Faults cfg t body) : Faults cfg t (mutation keys tolerant body) := by
  rw [mutation]
  apply act_faults rfl
  apply Coro.Raises.attempt_bind h
  · exact fun a => act_faults rfl (ret_faults a)
  · exact fun e he => act_faults rfl (throw_faults he)

theorem updateLabels_faults (api : Client) (inboxId messageId : String) (add remove : List String) :
    Faults cfg t (updateLabels api inboxId messageId add remove) := by
  rw [updateLabels]
  apply act_faults rfl
  apply (ask_faults (.updateLabels api inboxId messageId add remove)).handle
  exact fun e he => act_faults rfl (throw_faults he)

theorem appendCreated_faults (api : Client) (inboxId : String) (created : DraftJson) :
    Faults cfg t (appendCreated cfg api inboxId created) := by
  rw [appendCreated]
  simp only
  split
  · exact throw_faults rfl
  · split
    · exact throw_faults rfl
    · apply act_faults rfl
      apply act_faults rfl
      apply state_faults
      exact fun s => act_faults rfl (act_faults rfl (ret_faults _))

theorem appendDraft_faults (api : Client) (inboxId : String) (fields : DraftFields)
    (clientId : Option String) : Faults cfg t (appendDraft cfg t api inboxId fields clientId) := by
  rw [appendDraft]
  apply mutation_faults
  apply (firstContact_faults api inboxId drafts.name).bind
  intro _
  apply ask_bind_faults (q := .createDraft api inboxId fields clientId)
  exact fun created => act_faults rfl (appendCreated_faults api inboxId created)

theorem copyMessage_faults (api : Client) (inboxId : String) (item : Item) :
    Faults cfg t (copyMessage api inboxId item) := by
  rw [copyMessage]
  apply (updateLabels_faults api inboxId _ _ _).bind
  exact fun result => act_faults rfl (perform_faults rfl)

theorem copyToTrash_faults (api : Client) (inboxId : String) (mdef : MailboxDef)
    (items : List Item) : Faults cfg t (copyToTrash cfg t api inboxId mdef items) := by
  rw [copyToTrash]
  apply mutation_faults
  apply (firstContact_faults api inboxId trash.name).bind
  intro _
  apply act_faults rfl
  apply (Coro.Raises.each (copyMessage_faults api inboxId) items).bind
  intro _
  apply state_faults
  intro s
  simp only
  split
  · exact act_faults rfl (act_faults rfl (ret_faults _))
  · exact ret_faults _

theorem setFlag_faults (api : Client) (inboxId : String) (mdef : MailboxDef) (item : Item)
    (flag : Flag) (value : Bool) : Faults cfg t (setFlag api inboxId mdef item flag value) := by
  rw [setFlag]
  split
  · apply (updateLabels_faults api inboxId _ _ _).bind
    exact fun result => act_faults rfl (ret_faults _)
  · exact throw_faults rfl

theorem expungeItem_faults (api : Client) (inboxId : String) (mdef : MailboxDef) (item : Item) :
    Faults cfg t (expungeItem cfg api inboxId mdef item) := by
  rw [expungeItem]
  split
  · apply ask_bind_faults
    intro current
    split
    · exact throw_faults rfl
    · split
      · exact throw_faults rfl
      · exact ask_bind_faults fun _ => act_faults rfl (perform_faults rfl)
  · apply (updateLabels_faults api inboxId _ _ _).bind
    exact fun result => act_faults rfl (perform_faults rfl)

theorem expungeRound_faults (api : Client) (inboxId : String) (mdef : MailboxDef)
    (r : List Exc × Bool) (item : Item) :
    Faults cfg t (expungeRound cfg api inboxId mdef r item) := by
  rw [expungeRound]
  apply Coro.Raises.attempt_bind (expungeItem_faults api inboxId mdef item)
  · exact fun _ => ret_faults _
  · intro e _
    split
    · exact ret_faults _
    · exact throw_faults rfl
    · exact ret_faults _

theorem expungeItems_faults (api : Client) (inboxId : String) (mdef : MailboxDef)
    (items : List Item) : Faults cfg t (expungeItems cfg api inboxId mdef items) := by
  rw [expungeItems]
  apply mutation_faults
  apply (Coro.Raises.foldEach (expungeRound_faults api inboxId mdef) _ items).bind
  intro r
  simp only
  split
  · exact act_faults rfl (ret_faults _)
  · exact ret_faults _

/-! ## Content -/

theorem cacheGet_faults (key : String) : Faults cfg t (cacheGet key) := by
  rw [cacheGet]
  exact state_faults fun s => act_faults rfl (ret_faults _)

theorem recallSize_faults (inboxId : String) (item : Item) :
    Faults cfg t (recallSize inboxId item) := by
  rw [recallSize]
  exact (cacheGet_faults _).bind fun _ => act_faults rfl (ret_faults _)

theorem keepRaw_faults (inboxId : String) (mdef : MailboxDef) (item : Item) (size : Nat)
    (data : Bytes) : Faults cfg t (keepRaw inboxId mdef item size data) := by
  rw [keepRaw]
  split
  · exact throw_faults rfl
  · exact act_faults rfl (act_faults rfl (act_faults rfl (act_faults rfl (ret_faults _))))

theorem rawBytes_faults (api : Client) (inboxId : String) (mdef : MailboxDef) (item : Item) :
    Faults cfg t (rawBytes cfg api inboxId mdef item) := by
  rw [rawBytes]
  apply act_faults rfl
  apply (cacheGet_faults _).bind
  intro cached
  split
  · exact act_faults rfl (ret_faults _)
  · split
    · apply ask_bind_faults
      intro full
      split
      · exact throw_faults rfl
      · split
        · exact throw_faults rfl
        · exact act_faults rfl (act_faults rfl (act_faults rfl (ret_faults _)))
    · apply ask_bind_faults
      intro info
      apply (recallSize_faults inboxId item).bind
      intro r
      split
      · exact throw_faults rfl
      · exact ask_bind_faults (q := .download api info.downloadUrl) fun data =>
          keepRaw_faults inboxId mdef item _ data

theorem sizeOf_faults (api : Client) (inboxId : String) (mdef : MailboxDef) (item : Item) :
    Faults cfg t (sizeOf cfg api inboxId mdef item) := by
  rw [sizeOf]
  apply act_faults rfl
  apply (cacheGet_faults _).bind
  intro cached
  split
  · exact act_faults rfl (ret_faults _)
  · split
    · exact (rawBytes_faults api inboxId mdef item).bind fun _ => ret_faults _
    · apply (recallSize_faults inboxId item).bind
      intro remembered
      split
      · exact act_faults rfl (ret_faults _)
      · exact ask_bind_faults fun info => act_faults rfl (act_faults rfl (ret_faults _))

/-! ## Tasks -/

theorem finishTask_faults (n : Nat) {r : Except Exc Snapshot}
    (h : ∀ e, r = .error e → e.isRefusal = false) : Faults cfg t (perform (.finishTask n r)) := by
  have hends : (Act.finishTask n r).Ends := by
    intro m e he
    cases he
    exact h e rfl
  intro s hs
  have hnext : ((Act.finishTask n r).exec cfg t s).Unrefused := Act.exec_unrefused hs hends
  exact ⟨hends, hnext⟩

/-- What a task ends with is no refusal either. -/
theorem runTask_faults (n : Nat) (job : Job) : Faults cfg (.task n) (runTask cfg n job) := by
  unfold runTask
  apply act_faults rfl
  apply Coro.Raises.attempt_bind (D := fun e => e.isRefusal = false)
  · cases job with
    | listing api inboxId mdef => exact doSync_faults api inboxId mdef
    | resync api inboxId => exact syncForced_faults api inboxId drafts.name
  · exact fun snap => finishTask_faults n (fun _ he => by cases he)
  · exact fun e he => finishTask_faults n fun e' heq => by
      cases heq
      exact he

end Mailbox
end ImapGateway
