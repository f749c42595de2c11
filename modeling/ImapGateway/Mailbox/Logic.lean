/-
The logic the coroutines of the service are proved in.

Each coroutine performs only actions it owes, and assumes of the others that
they keep the invariant and its own state.  Answers are as the regime has them,
and unless `W` it asks upstream for no label write and no deletion.
-/
import ImapGateway.Mailbox.Conduct

namespace ImapGateway
namespace Mailbox

open Async

/-- A mutation has written what its mailboxes have not been bumped for. -/
def Pending (t : Tid) (s : Service) : Prop :=
  ∃ m w key, s.aux.mutations t = some m ∧ m.wrote = some w ∧ key ∈ m.keys ∧
    s.aux.bumpedAt key < w

/-- A created draft has an id and can be rendered. -/
def Usable (cfg : Config) : (q : Req) → q.Answer → Prop
  | .createDraft _ inboxId _ _, .ok created =>
    orEmpty created.draftId ≠ "" ∧ (cfg.renderDraft created inboxId).isSome
  | _, _ => True

/-- The exception of an answer, if it is one. -/
def Req.Answer.exc {q : Req} : q.Answer → Option Exc
  | .ok _ => none
  | .error e => some e

/-- An answer that does not cut a mutation short: no exception reaches one that has
written and not yet bumped, unless it goes on after it. -/
structure Gentle (cfg : Config) (t : Tid) (q : Req) (a : q.Answer) (s : Service) : Prop where
  usable : Usable cfg q a
  exc : ∀ e, a.exc = some e → Pending t s →
    e ≠ .cancelled ∧ ∃ m, s.aux.mutations t = some m ∧ m.tolerant = true

/-- A snapshot answers only the wait for a task that has ended with it. -/
def Results : (q : Req) → q.Answer → Service → Prop
  | .task n, .ok snap, s => ∃ task, s.tasks n = some task ∧ task.state = .finished (.ok snap)
  | _, _, _ => True

/-- The answer to a PATCH carries the labels the PATCH left. -/
def Honest (t : Tid) : (q : Req) → q.Answer → Service → Prop
  | .updateLabels _ _ _ _ _, .ok result, s =>
    ∃ p n labels, s.aux.patches t = some p ∧ p.applied = some (n, labels) ∧
      labelSet result.labels = labels
  | _, _, _ => True

/-- The requests that write labels or delete a draft. -/
def Req.writes : Req → Bool
  | deleteDraft _ _ _ | updateLabels _ _ _ _ _ => true
  | _ => false

/-- The actions of the handlers alone. -/
def Act.marks : Act → Bool
  | setDeleted _ _ _ => true
  | _ => false

/-- What the others do to the state of coroutine `t`. -/
def Rely (cfg : Config) (R : Regime) (t : Tid) (s s' : Service) : Prop :=
  Inv cfg R s → Inv cfg R s' ∧ Evolve s s' ∧ Spares t s s'

def svcLogic (cfg : Config) (R : Regime) (W : Prop) (t : Tid) : Logic Service Act Req Req.Answer where
  exec := Act.exec cfg t
  rely := Rely cfg R t
  guar p s := Owes cfg R t p s ∧ p.marks = false
  asks q _ := q.writes = true → W
  gives q a s :=
    Results q a s ∧ (R.gentle → Gentle cfg t q a s) ∧ (R.honest → Honest t q a s)

variable {cfg : Config} {R : Regime} {W : Prop} {t : Tid}

theorem Rely.refl (t : Tid) (s : Service) : Rely cfg R t s s :=
  fun hi => ⟨hi, .refl s, .refl t s⟩

theorem Rely.trans {s₁ s₂ s₃ : Service} (h : Rely cfg R t s₁ s₂) (h' : Rely cfg R t s₂ s₃) :
    Rely cfg R t s₁ s₃ := fun hi =>
  ⟨(h' (h hi).1).1, (h hi).2.1.trans (h' (h hi).1).2.1, (h hi).2.2.trans (h' (h hi).1).2.2⟩

/-! ## Steps -/

/-- An action and what follows it. -/
theorem perform_bind_wp {α : Type} {L : Logic Service Act Req Req.Answer} {p : Act}
    {k : Unit → Svc α} {Q : α → Service → Prop} {E : Exc → Service → Prop} {s : Service}
    (hg : L.guar p s) (hk : (k ()).wp L Q E (L.exec p s)) : ((perform p).bind k).wp L Q E s :=
  ⟨hg, hk⟩

/-- A look at the state and what follows it. -/
theorem state_bind_wp {α : Type} {L : Logic Service Act Req Req.Answer} {k : Service → Svc α}
    {Q : α → Service → Prop} {E : Exc → Service → Prop} {s : Service} (hk : (k s).wp L Q E s) :
    (state.bind k).wp L Q E s := hk

/-! ## Asking -/

theorem ask_wp {q : Req} {Q : q.Value → Service → Prop} {E : Exc → Service → Prop} {s : Service}
    (hasks : q.writes = true → W)
    (h : ∀ s', Rely cfg R t s s' → ∀ a : q.Answer, Results q a s' →
      (R.gentle → Gentle cfg t q a s') → (R.honest → Honest t q a s') →
      (Coro.ofExcept a : Svc q.Value).wp (svcLogic cfg R W t) Q E s') :
    (ask q).wp (svcLogic cfg R W t) Q E s := by
  rw [ask, Coro.wp_bind, Coro.wp_request]
  exact ⟨hasks, fun s' hr a ha => h s' hr a ha.1 ha.2.1 ha.2.2⟩

/-- Whatever the answer, an assertion the others keep is kept. -/
theorem ask_keeps {q : Req} {I : Service → Prop} (hasks : q.writes = true → W)
    (hrely : ∀ s s', I s → Rely cfg R t s s' → I s') :
    Coro.Keeps (svcLogic cfg R W t) I (ask q) := by
  refine Coro.Keeps.bind (Coro.Keeps.request fun s hs => ⟨hasks, fun s' hr => ?_⟩)
    Coro.Keeps.ofExcept
  exact hrely s s' hs hr

/-- What no owed action can undo stays true beside the rest. -/
theorem wp_evolve {α : Type} {x : Svc α} {Q : α → Service → Prop} {E : Exc → Service → Prop}
    {K : Service → Prop} {s : Service} (hK : ∀ s s', Evolve s s' → K s → K s') (hi : Inv cfg R s)
    (hs : K s) (h : x.wp (svcLogic cfg R W t) Q E s) :
    x.wp (svcLogic cfg R W t) (fun a s => Q a s ∧ K s) (fun e s => E e s ∧ K s) s := by
  refine Coro.wp_mono (fun a s hs => ⟨hs.1, hs.2.2⟩) (fun e s hs => ⟨hs.1, hs.2.2⟩)
    (Coro.wp_frame (J := fun s => Inv cfg R s ∧ K s) (fun p s hJ hg => ?_) (fun s s' hJ hr => ?_)
      ⟨hi, hs⟩ h)
  · exact ⟨hJ.1.step hg.1, hK _ _ (hJ.1.evolve t p) hJ.2⟩
  · obtain ⟨hi', hev, _⟩ := hr hJ.1
    exact ⟨hi', hK _ _ hev hJ.2⟩

/-! ## Where a coroutine stands -/

/-- The invariant, the coroutine's mutation and what it was promised, and that it
runs if it is a task. -/
structure At (cfg : Config) (R : Regime) (t : Tid) (M : Option Mutation × Nat) (s : Service) :
    Prop where
  inv : Inv cfg R s
  mutation : s.aux.mutations t = M.1
  since : s.aux.since t = M.2
  running : ∀ n, t = .task n → ∃ task, s.tasks n = some task ∧ task.state = .running

variable {M : Option Mutation × Nat} {s s' : Service}

theorem At.rely (h : At cfg R t M s) (hr : Rely cfg R t s s') : At cfg R t M s' := by
  obtain ⟨hi, _, hsp⟩ := hr h.inv
  refine ⟨hi, hsp.mutations.trans h.mutation, hsp.since.trans h.since, fun n ht => ?_⟩
  obtain ⟨task, hn, hrun⟩ := h.running n ht
  exact ⟨task, hsp.running n task ht hn hrun, hrun⟩

/-- The actions that move neither a mutation nor a call nor the state of a task. -/
def Act.plain : Act → Bool
  | beginMutation _ _ | wrote | endMutation | called _ | beginTask _ | finishTask _ _ => false
  | _ => true

theorem Act.exec_records (cfg : Config) {p : Act} (h : s.store.Ok) (hp : p.plain = true)
    (u : Tid) : (p.exec cfg t s).aux.mutations u = s.aux.mutations u ∧
      (p.exec cfg t s).aux.since u = s.aux.since u := by
  cases p with
  | publish =>
    cases hl : s.listings t with
    | none =>
      rw [Act.exec, Service.publish_none hl]
      exact ⟨rfl, rfl⟩
    | some l =>
      obtain ⟨store, watermark, v, _, heq⟩ := Service.publish_eq h hl
      rw [Act.exec, heq]
      exact ⟨rfl, rfl⟩
  | collectMessage m =>
    rcases Service.collectMessage_cases cfg s t m with heq | ⟨l, _, _, heq⟩ <;> rw [Act.exec, heq] <;>
      exact ⟨rfl, rfl⟩
  | collectDraft d rendered =>
    simp only [Act.exec, Service.collectDraft]
    split <;> exact ⟨rfl, rfl⟩
  | copyItem inboxId item result =>
    obtain ⟨heldFrom, heq⟩ := Service.settlePatch_eq (s.copyItem t inboxId item result) t
    rw [Act.exec, heq]
    exact ⟨rfl, rfl⟩
  | setFlagCommit key item add remove result =>
    obtain ⟨heldFrom, heq⟩ := Service.settlePatch_eq (s.setFlagCommit key item add remove result) t
    rw [Act.exec, heq]
    simp only [Service.setFlagCommit, Service.replaceItem]
    split
    · exact ⟨rfl, rfl⟩
    · split <;> exact ⟨rfl, rfl⟩
  | expungeCommit inboxId item result =>
    obtain ⟨heldFrom, heq⟩ := Service.settlePatch_eq (s.expungeCommit inboxId item result) t
    rw [Act.exec, heq]
    exact ⟨rfl, rfl⟩
  | reap n =>
    simp only [Act.exec, Service.reap]
    split <;> exact ⟨rfl, rfl⟩
  | applyPatch =>
    simp only [Act.exec, Service.applyPatch]
    split <;> exact ⟨rfl, rfl⟩
  | beginMutation | wrote | endMutation | called | beginTask | finishTask => cases hp
  | _ => exact ⟨rfl, rfl⟩

/-- The actions that change the state of a task. -/
def Act.turns : Act → Bool
  | beginTask _ | finishTask _ _ => true
  | _ => false

theorem Inv.running_kept {p : Act} (hi : Inv cfg R s) (hp : p.turns = false) {n : Nat}
    {task : Task} (hn : s.tasks n = some task) (hrun : task.state = .running) :
    ∃ task', (p.exec cfg t s).tasks n = some task' ∧ task'.state = .running := by
  obtain ⟨task', hn', _⟩ := (hi.evolve t p).tasks n task hn
  refine ⟨task', hn', ?_⟩
  cases Act.exec_taskFrom cfg hi.store hn' with
  | kept task₀ ht₀ _ _ _ hstate =>
    rw [hn] at ht₀
    cases ht₀
    rcases hstate with hstate | ⟨he, _⟩ | ⟨r, he, _⟩
    · exact hstate.trans hrun
    · rw [he] at hp
      cases hp
    · rw [he] at hp
      cases hp
  | created job gen _ hnew _ =>
    have := (hi.tasks n task hn).old
    omega

theorem At.act {p : Act} (h : At cfg R t M s) (ho : Owes cfg R t p s) (hp : p.plain = true) :
    At cfg R t M (p.exec cfg t s) := by
  have hrec := Act.exec_records cfg (t := t) h.inv.store hp t
  refine ⟨h.inv.step ho, hrec.1.trans h.mutation, hrec.2.trans h.since, fun n ht => ?_⟩
  obtain ⟨task, hn, hrun⟩ := h.running n ht
  refine h.inv.running_kept ?_ hn hrun
  cases p <;> first | rfl | cases hp

end Mailbox
end ImapGateway
