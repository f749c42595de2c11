/-
The logics of the coroutines fit together, so what each owes holds in every run.

A move is `Lawful` when it starts a command or a call that minds what it is
handed, and answers a request as the regime has it.  In a run of such moves the
invariant of the service and the order of the sessions hold at every event, every
action was owed where it was performed, and every request was asked where it
could be.
-/
import ImapGateway.Imap.Changes
import ImapGateway.Imap.Runs

namespace ImapGateway
namespace Imap

open Async Mailbox

variable {cfg : Config} {txt : TextConfig} {R : Regime} {V : Prop}

/-! ## Between the moves -/

/-- The service and one session in order. -/
structure Orderly (cfg : Config) (R : Regime) (s : Shared) : Prop where
  inv : Inv cfg R s.1
  ok : s.2.Ok s.1

theorem Orderly.rests {n : Nat} {s : Shared} (h : Orderly cfg R s) : Rests cfg R (.conn n) s :=
  ⟨s.2.view, ⟨s.1.aux.mutations (.conn n), s.1.aux.since (.conn n), h.inv, rfl, rfl, nofun⟩, h.ok, rfl⟩

theorem Rests.orderly {t : Tid} {s : Shared} (h : Rests cfg R t s) : Orderly cfg R s := by
  obtain ⟨v, h⟩ := h
  exact ⟨h.inv, h.ok⟩

theorem startService_inv {store : Store.Db} (h : store.Ok) (watermark maxBytes : Nat)
    (remote : String × String → Labels) :
    Inv cfg R (startService store watermark maxBytes remote) where
  store := h
  pins _ := ⟨List.Pairwise.nil, nofun⟩
  listings _ _ h := by cases h
  latest _ _ h := by cases h
  latestShown _ _ h := by cases h
  tasks _ _ h := by cases h
  inflight _ _ h := by cases h
  bumped _ := Nat.le_refl _
  promised _ _ := Nat.le_refl _

theorem Session.Ok.new (s : Service) : Session.new.Ok s := Session.Ok.of_none rfl

/-! ## The moves -/

/-- A call is for items that have been shown, and under `V` it does not write while
its connection has a mailbox open read-only. -/
def Call.Fit (V : Prop) (s : Shared) : Call → Prop
  | .copyToTrash _ inboxId mdef items =>
    mdef.kind = .messages ∧ AllKnown inboxId mdef items s.1 ∧ (V → s.2.view.Writable)
  | .setFlag _ inboxId mdef item _ _ => s.1.Knows inboxId mdef item ∧ (V → s.2.view.Writable)
  | .expungeItems _ inboxId mdef items =>
    AllKnown inboxId mdef items s.1 ∧ (V → s.2.view.Writable)
  | .rawBytes _ inboxId mdef item => s.1.Knows inboxId mdef item
  | .sizeOf _ inboxId mdef item => s.1.Knows inboxId mdef item
  | _ => True

/-- The answer is as the regime has it. -/
def Admits (cfg : Config) (R : Regime) (t : Tid) (q : Req) (a : q.Answer) (s : Service) : Prop :=
  (R.gentle → Gentle cfg t q a s) ∧ (R.honest → Honest t q a s)

def Lawful (cfg : Config) (R : Regime) (V : Prop) (w : World) : Move → Prop
  | .launch t (.command cmd) => V → cmd.verb.Minds (w.shared, w.loc t)
  | .launch t (.call c) => c.Fit V (w.shared, w.loc t)
  | .launch _ (.task _) => True
  | .resume t f => ∀ q k a, w.prog t = .await q k → f w.shared q = some a →
    Admits cfg R t q a w.shared
  | .ambient _ _ => True

/-- Only a task that has ended with a snapshot answers with it. -/
theorem results_of_answers {t : Tid} {q : Req} {a : q.Answer} {s : Service}
    (h : answers t q a s = true) : Results q a s := by
  cases q with
  | task n =>
    cases a with
    | error e => trivial
    | ok snap =>
      simp only [answers, taskAnswers, cancels, Bool.false_and, Bool.or_false,
        decide_eq_true_eq] at h
      rw [resultOf] at h
      split at h
      · rename_i hn
        exact ⟨_, hn, congrArg TaskState.finished (Option.some.inj h)⟩
      · cases h
  | _ => trivial

theorem Call.run_wp {n : Nat} {c : Call} {v : View} {s : Shared} (hfit : c.Fit V s)
    (h : Sits cfg R (.conn n) v s) :
    (svc (c.run cfg (.conn n))).wp (gwLogic cfg R V (.conn n)) (fun _ => Sits cfg R (.conn n) v)
      (fun _ => Sits cfg R (.conn n) v) s := by
  refine Coro.wp_mono (fun _ _ hs => hs.1) (fun _ _ hs => hs.1)
    (h.svc_wp (Q := fun _ _ => True) (E := fun _ _ => True) fun m hm => ?_)
  have drop : ∀ {α : Type} {x : Svc α} {Q : α → Service → Prop} {E : Exc → Service → Prop},
      (∀ a s, Q a s → ∃ m, Stands cfg R (.conn n) m s) →
      (∀ e s, E e s → ∃ m, Stands cfg R (.conn n) m s) →
      x.wp (svcLogic cfg R (V → v.Writable) (.conn n)) Q E s.1 →
      (x.bind fun _ => Coro.ret ()).wp (svcLogic cfg R (V → v.Writable) (.conn n))
        (fun _ s => (∃ m, Stands cfg R (.conn n) m s) ∧ True)
        (fun _ s => (∃ m, Stands cfg R (.conn n) m s) ∧ True) s.1 :=
    fun hQ hE hx => (Coro.wp_bind _ _).mpr (Coro.wp_mono (fun a s hs => ⟨hQ a s hs, trivial⟩)
      (fun e s hs => ⟨hE e s hs, trivial⟩) hx)
  have hview := h.view
  cases c with
  | sync api inboxId name force =>
    cases force with
    | true => exact drop (fun _ _ hs => ⟨m, hs.1⟩) (fun _ _ hs => ⟨m, hs⟩) (syncForced_wp api name hm)
    | false =>
      obtain ⟨since, hat⟩ := hm
      exact drop (fun _ _ hs => ⟨m, since, hs.1⟩) (fun _ _ hs => ⟨m, since, hs⟩)
        (sync_wp api name false hat)
  | appendDraft api inboxId fields clientId =>
    exact drop (fun _ _ hs => ⟨none, hs.1⟩) (fun _ _ hs => ⟨none, hs⟩)
      (appendDraft_wp api inboxId fields clientId hm)
  | copyToTrash api inboxId mdef items =>
    exact drop (fun _ _ hs => ⟨none, hs.1⟩) (fun _ _ hs => ⟨none, hs⟩)
      (copyToTrash_wp (hview ▸ hfit.2.2) api inboxId mdef items hfit.1 hfit.2.1 hm)
  | setFlag api inboxId mdef item flag value =>
    exact drop (fun _ _ hs => ⟨m, hs.1.1⟩) (fun _ _ hs => ⟨m, hs.1⟩)
      (setFlag_wp (hview ▸ hfit.2) api flag value ⟨hm, hfit.1⟩)
  | expungeItems api inboxId mdef items =>
    exact drop (fun _ _ hs => ⟨none, hs⟩) (fun _ _ hs => ⟨none, hs⟩)
      (expungeItems_wp (hview ▸ hfit.2) api inboxId mdef items hfit.1 hm)
  | rawBytes api inboxId mdef item =>
    exact drop (fun _ _ hs => ⟨m, hs.1⟩) (fun _ _ hs => ⟨m, hs.1⟩) (rawBytes_wp api ⟨hm, hfit⟩)
  | sizeOf api inboxId mdef item =>
    exact drop (fun _ _ hs => ⟨m, hs.1⟩) (fun _ _ hs => ⟨m, hs.1⟩) (sizeOf_wp api ⟨hm, hfit⟩)

/-- What a coroutine runs when it is started meets its obligations. -/
theorem main_wp {t : Tid} {i : Input} {w : World} (hC : Lawful cfg R V w (.launch t i))
    (hready : ready t i w.shared (w.loc t) = true) (h : Orderly cfg R (w.shared, w.loc t)) :
    (main cfg txt t i).wp (gwLogic cfg R V t) (fun _ => Orderly cfg R) (fun _ => Orderly cfg R)
      (w.shared, w.loc t) := by
  cases t with
  | conn n =>
    obtain ⟨v, hsits⟩ := h.rests (n := n)
    cases i with
    | command cmd =>
      unfold main
      simp only [Coro.bind_eq]
      refine (Coro.wp_bind _ _).mpr (Coro.wp_mono (fun _ s hs => ?_) (fun _ _ hs => hs.orderly)
        (dispatch_wp cmd hC ⟨v, hsits⟩))
      exact Coro.wp_mono (fun _ _ hs => hs.orderly) (fun _ _ hs => hs.orderly) (flush_rests hs)
    | call c =>
      unfold main
      exact Coro.wp_mono (fun _ _ hs => ⟨hs.inv, hs.ok⟩) (fun _ _ hs => ⟨hs.inv, hs.ok⟩)
        (Call.run_wp hC hsits)
    | task job => cases hready
  | task n =>
    cases i with
    | command cmd => cases hready
    | call c => cases hready
    | task job =>
      have hn : ∃ task, w.shared.tasks n = some task ∧ task.job = job ∧ task.state = .queued := by
        rw [ready] at hready
        split at hready
        · rename_i task htask
          rw [Bool.and_eq_true, decide_eq_true_eq, decide_eq_true_eq] at hready
          exact ⟨task, htask, hready⟩
        · cases hready
      unfold main
      refine Coro.wp_mono (fun _ s hs => ⟨hs.1, hs.2.2.1⟩) (fun _ s hs => ⟨hs.1, hs.2.2.1⟩)
        (Coro.wp_lift (frames cfg R V (.task n) (w.loc (.task n)).view) ⟨h.inv, h.ok, rfl⟩
          (runTask_wp h.inv hn))

theorem sound (cfg : Config) (txt : TextConfig) (R : Regime) (V : Prop) :
    Sound (gateway cfg txt) (Lawful cfg R V) (gwLogic cfg R V) (fun _ => Orderly cfg R) where
  exec _ := rfl
  refl t a := ⟨Rely.refl t a.1, rfl⟩
  trans t a b c h h' := ⟨h.1.trans h'.1, h'.2.trans h.2⟩
  others t u htu p s lt lu hg := by
    cases p with
    | inl p =>
      refine ⟨fun hi => ?_, rfl⟩
      exact ⟨hi.step hg.1, hi.evolve t p, hi.spares hg.1 (Ne.symm htu)⟩
    | inr p => exact ⟨Rely.refl u s, rfl⟩
  ambient t u p s lt lu hp := by
    cases p with
    | inl p =>
      refine ⟨rfl, fun hi => ?_, rfl⟩
      obtain ⟨ho, hsp⟩ := hi.ambient hp t u
      exact ⟨hi.step ho, hi.evolve t p, hsp⟩
    | inr p => cases hp
  asksStable t q a b ha hr hw hV := by
    rw [hr.2]
    exact ha hw hV
  restStable t a b h hr := by
    obtain ⟨hr, hl⟩ := hr
    obtain ⟨hi, hev, _⟩ := hr h.inv
    exact ⟨hi, by rw [hl]; exact h.ok.grows hev.store⟩
  main w t i hC hready h := main_wp hC hready h
  gives w t f q k a hC hprog ha hans :=
    ⟨results_of_answers hans, hC q k a hprog ha⟩

/-! ## Runs -/

/-- A run of lawful moves. -/
abbrev LawfulRun (cfg : Config) (txt : TextConfig) (R : Regime) (V : Prop) (b : Boot) (w : World) :
    Prop := RunsTo cfg txt (Lawful cfg R V) b w

theorem Boot.holds (b : Boot) :
    Sound.Holds (gwLogic cfg R V) (fun _ => Orderly cfg R) b.world :=
  fun _ => ⟨rfl, startService_inv b.ok _ _ _, Session.Ok.new _⟩

/-- An action of the loop is owed too. -/
theorem owes_of_ambient {t : Tid} {p : Mailbox.Act} {s : Service} (h : p.ambient = true) :
    Owes cfg R t p s := by
  cases p <;> first | exact trivial | cases h

/-- Every action of the service was owed. -/
theorem LawfulRun.owed {b : Boot} {w : World} (h : LawfulRun cfg txt R V b w) :
    ∀ x ∈ happenings w.trace, Owes cfg R x.tid x.action x.before := by
  intro x hx
  obtain ⟨e, he, hex⟩ := List.mem_filterMap.mp hx
  obtain ⟨t, p, s⟩ := e
  rcases (sound cfg txt R V).guar_of_mem b.holds h _ he with hin | hamb | hguar
  · cases hin
  · cases p with
    | inl p =>
      cases hex
      exact owes_of_ambient hamb
    | inr p => cases hex
  · cases p with
    | inl p =>
      cases hex
      exact hguar.1
    | inr p => cases hex

/-- Every action of a session was owed, and found the service in order. -/
theorem LawfulRun.sessionOwed {b : Boot} {w : World} (h : LawfulRun cfg txt R V b w) {t : Tid}
    {p : Act} {s : Shared} (he : ⟨t, .inr p, s⟩ ∈ w.trace) : Inv cfg R s.1 ∧ SOwes t p s.1 s.2 := by
  rcases (sound cfg txt R V).guar_of_mem b.holds h _ he with hin | hamb | hguar
  · cases hin
  · cases hamb
  · exact hguar

/-- The history of the service in a lawful run. -/
theorem LawfulRun.conducted {b : Boot} {w : World} (h : LawfulRun cfg txt R V b w) :
    Conducted cfg R b.service (happenings w.trace) w.shared :=
  ⟨h.history, startService_inv b.ok _ _ _, h.owed⟩

/-- A run with any answers, in which the calls beside commands are for items that
have been shown. -/
abbrev ProperRun (cfg : Config) (txt : TextConfig) (b : Boot) (w : World) : Prop :=
  LawfulRun cfg txt ⟨False, False⟩ False b w

/-- A move that starts no call for an item. -/
def harmless : Move → Bool
  | .launch _ (.call (.sync _ _ _ _)) => true
  | .launch _ (.call _) => false
  | _ => true

theorem lawful_of_harmless {m : Move} (h : harmless m = true) (w : World) :
    Lawful cfg ⟨False, False⟩ False w m := by
  cases m with
  | launch t i =>
    cases i with
    | command cmd => exact False.elim
    | call c =>
      cases c with
      | sync api inboxId name force => trivial
      | _ => cases h
    | task job => trivial
  | resume t f => exact fun _ _ _ _ _ => ⟨False.elim, False.elim⟩
  | ambient t p => trivial

/-- A property of the world such a run ends in, found by running it. -/
theorem exists_properRun {b : Boot} {ms : List Move} {p : World → Bool}
    (hms : ms.all harmless = true) (h : (b.world.run (gateway cfg txt) ms).any p = true) :
    ∃ w, ProperRun cfg txt b w ∧ p w = true :=
  exists_runsTo (fun m hm w => lawful_of_harmless (List.all_eq_true.mp hms m hm) w) h

end Imap
end ImapGateway
