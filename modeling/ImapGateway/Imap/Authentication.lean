/-
Who is logged in.

The record of a run shows the LOGINs that were started and what upstream answered.
A session that is authenticated holds an inbox and a key that a LOGIN of its own has
verified, and whatever is requested for it is requested with these.
-/
import ImapGateway.Async.Record
import ImapGateway.Imap.Credentials
import ImapGateway.Imap.Runs

namespace ImapGateway
namespace Imap

open Async Mailbox

/-- What the moves of a run put on record. -/
abbrev Log := List (Entry Tid (Mailbox.Act ⊕ Act) Req Req.Answer Input)

/-! ## What is on record -/

/-- The LOGINs that were started, and what upstream answered the connections that
started them. -/
def evidence (log : Log) (binding : Prop) : Evidence where
  tried api inboxId := ∃ tag name,
    .launched (.conn api.owner) (.command ⟨tag, name, .login inboxId api.apiKey⟩) ∈ log
  granted api identity := .replied (.conn api.owner) (.authMe api) (.ok identity) ∈ log
  shown api inboxId := .replied (.conn api.owner) (.getInbox api inboxId) (.ok ()) ∈ log
  binding := binding

/-- A request of `t` that carried the key of `c` was refused. -/
def Refused (log : Log) (t : Tid) (c : Client) (status : Nat) : Prop :=
  ∃ q, q.key = some c ∧ .replied t q (.error (.auth status)) ∈ log

/-- The books kept of a run: every failure of a task is heard of, and a listing that fails
had a request of its client refused. -/
def books (log : Log) : Ledger where
  charge := Req.key
  watch _ := True
  heard _ _ := True
  listing n c status := Refused log (.task n) c status
  fault _ _ := True
  keyed _ _ h := h

/-- The books of a connection: it is its client's fault if a request of its own was
refused, or one of a listing of this client. -/
def connBooks (log : Log) (n : Nat) : Ledger where
  charge := Req.client
  watch _ := True
  heard _ _ := True
  listing n c status := Refused log (.task n) c status
  fault c status :=
    (∃ q, q.client = some c ∧ .replied (.conn n) q (.error (.auth status)) ∈ log) ∨
      ∃ m, Refused log (.task m) c status
  keyed _ _ h := Req.client_of_key h

/-- The books of a task: a listing answers for its own requests. -/
def taskBooks (log : Log) (n : Nat) (job : Job) : Ledger where
  charge := Req.key
  watch _ := True
  heard _ _ := True
  listing n c status := Refused log (.task n) c status
  fault c status := match job with
    | .listing _ _ _ => Refused log (.task n) c status
    | .resync _ _ => True
  keyed _ _ h := h

theorem connBooks_fair (log : Log) (n : Nat) : (connBooks log n).Fair :=
  fun _ => ⟨trivial, fun m _ _ h => .inr ⟨m, h⟩⟩

variable {cfg : Config} {txt : TextConfig} {ev : Evidence} {log : Log} {n : Nat}

/-! ## The logics of a run -/

/-- Every task was created with credentials that are vouched for. -/
def Tasked (ev : Evidence) (cfg : Config) (s : Service) : Prop :=
  ev.binding → ∀ n task, s.tasks n = some task → ev.Vouches cfg task.job.client task.job.inboxId

/-- An action of the service that is in order: a task is created with vouched credentials,
and one that ends is booked. -/
def Accountable (ev : Evidence) (cfg : Config) (log : Log) (p : Mailbox.Act) (s : Service) :
    Prop :=
  (ev.binding → ∀ job gen, p = .createTask job gen → ev.Vouches cfg job.client job.inboxId) ∧
    (books log).Settles p s

def taskLogic (cfg : Config) (ev : Evidence) (log : Log) (n : Nat) :
    Logic Shared (Mailbox.Act ⊕ Act) Req Req.Answer where
  exec := Imap.exec cfg (.task n)
  rely s s' := (books log).Holds s.1 →
    Mailbox.Follows s.1 s'.1 ∧ (books log).Holds s'.1 ∧ (Tasked ev cfg s.1 → Tasked ev cfg s'.1)
  guar p s := match p with
    | .inl p => Accountable ev cfg log p s.1
    | .inr _ => False
  asks q s := (books log).Holds s.1 ∧ (ev.binding → ∃ task, s.1.tasks n = some task ∧
    q.Within task.job.client task.job.inboxId ∧
    ev.Vouches cfg task.job.client task.job.inboxId)
  gives q a s := (∀ status c, a = .error (.auth status) → q.key = some c →
      Refused log (.task n) c status) ∧
    ∀ status m, a = .error (.auth status) → q = .task m →
      s.1.taskState m = some (.finished (.error (.auth status)))

def runLogic (cfg : Config) (ev : Evidence) (log : Log) :
    Tid → Logic Shared (Mailbox.Act ⊕ Act) Req Req.Answer
  | .conn n => loginLogic cfg ev (connBooks log n) n
  | .task n => taskLogic cfg ev log n

/-- Where a coroutine starts and ends. -/
def Resting (cfg : Config) (ev : Evidence) (log : Log) : Tid → Shared → Prop
  | .conn n, s => Ready (connBooks log n) ev cfg s
  | .task _, s => (books log).Holds s.1 ∧ Tasked ev cfg s.1

/-- What a move puts on record is in `log`, and where credentials are bound it starts no
bare call. -/
structure Logged (ev : Evidence) (log : Log) (w : World) (m : Move) : Prop where
  entry : ∀ e, w.entry m = some e → e ∈ log
  command : ev.binding → ∀ t c, m ≠ .launch t (.call c)

theorem Tasked.exec {s : Service} (h : Tasked ev cfg s) (hs : (books log).Holds s) {t : Tid}
    {p : Mailbox.Act} (hp : Accountable ev cfg log p s) : Tasked ev cfg (p.exec cfg t s) := by
  intro hb n task ht
  cases Act.exec_taskFrom cfg hs.owned.store ht with
  | kept old hold hjob =>
    rw [hjob]
    exact h hb n old hold
  | created job gen hc _ heq =>
    rw [heq]
    exact hp.1 hb job gen hc

theorem Accountable.of_ambient {p : Mailbox.Act} {s : Service} (h : p.ambient = true) :
    Accountable ev cfg log p s := by
  have hspawns : p.spawns = false := by
    cases p <;> first | rfl | cases h
  refine ⟨fun _ job gen he => ?_, .of_spawns hspawns⟩
  subst he
  cases h

/-- What one coroutine does in order the others may rely on. -/
theorem Accountable.rely {p : Mailbox.Act} {s : Service} (hp : Accountable ev cfg log p s)
    (t u : Tid) (l : Session) : (runLogic cfg ev log u).rely (s, l) (p.exec cfg t s, l) := by
  cases u with
  | conn n =>
    exact ⟨fun hs => ⟨hs.owned.follows cfg t p, hs.exec cfg t hp.2⟩, rfl⟩
  | task n =>
    exact fun hs => ⟨hs.owned.follows cfg t p, hs.exec cfg t hp.2, fun h => h.exec hs hp⟩

theorem Accountable.of_guar {t : Tid} {p : Mailbox.Act} {s : Shared}
    (h : (runLogic cfg ev log t).guar (.inl p) s) : Accountable ev cfg log p s.1 := by
  cases t with
  | conn n => exact h
  | task n => exact h

theorem runLogic_refl (t : Tid) (s : Shared) : (runLogic cfg ev log t).rely s s := by
  cases t with
  | conn n => exact ⟨fun hs => ⟨hs.owned.refl, hs⟩, rfl⟩
  | task n => exact fun hs => ⟨hs.owned.refl, hs, id⟩

theorem runLogic_trans (t : Tid) (a b c : Shared) (h : (runLogic cfg ev log t).rely a b)
    (h' : (runLogic cfg ev log t).rely b c) : (runLogic cfg ev log t).rely a c := by
  cases t with
  | conn n =>
    refine ⟨fun hs => ?_, h'.2.trans h.2⟩
    obtain ⟨hf, hb⟩ := h.1 hs
    obtain ⟨hf', hc⟩ := h'.1 hb
    exact ⟨hf.trans hf', hc⟩
  | task n =>
    intro hs
    obtain ⟨hf, hb, ht⟩ := h hs
    obtain ⟨hf', hc, ht'⟩ := h' hb
    exact ⟨hf.trans hf', hc, ht' ∘ ht⟩

/-! ## What a task answers with -/

/-- A wait for a task that fails to authenticate has the result of the task. -/
theorem told_of_answers {t : Tid} {m status : Nat} {s : Service}
    (h : answers t (.task m) (.error (.auth status)) s = true) :
    s.taskState m = some (.finished (.error (.auth status))) := by
  simp only [answers, taskAnswers, cancels, Bool.false_and, Bool.or_false, decide_eq_true_eq] at h
  rw [resultOf] at h
  split at h
  · rename_i ht
    rw [Service.taskState, ht]
    exact congrArg (some ∘ TaskState.finished) (Option.some.inj h)
  · cases h

theorem accounts_of_answers {Λ : Ledger} {t : Tid} {q : Req} {a : q.Answer} {s : Service}
    (hcharged : ∀ status c, a = .error (.auth status) → Λ.charge q = some c → Λ.fault c status)
    (hheard : ∀ status m, q = .task m → a = .error (.auth status) → Λ.heard m status)
    (h : answers t q a s = true) : Λ.Accounts q a s := by
  refine ⟨hcharged, fun status m ha hq => ⟨hheard status m hq ha, ?_⟩⟩
  subst hq ha
  exact told_of_answers h

/-! ## What the coroutines run -/

section Main

variable {Λ : Ledger}

def Call.client : Call → Client
  | .sync api _ _ _ | .appendDraft api _ _ _ | .copyToTrash api _ _ _ | .setFlag api _ _ _ _ _
  | .expungeItems api _ _ _ | .rawBytes api _ _ _ | .sizeOf api _ _ _ => api

def Call.inboxId : Call → String
  | .sync _ inboxId _ _ | .appendDraft _ inboxId _ _ | .copyToTrash _ inboxId _ _
  | .setFlag _ inboxId _ _ _ _ | .expungeItems _ inboxId _ _ | .rawBytes _ inboxId _ _
  | .sizeOf _ inboxId _ _ => inboxId

theorem Call.run_minds (hfair : Λ.Fair)
    (hcharge : ∀ api url, Λ.charge (.download api url) = some api) (t : Tid) (c : Call) :
    Minds cfg t c.client c.inboxId Λ (c.run cfg t) := by
  cases c with
  | sync api inboxId name force =>
    cases force with
    | true => exact (syncForced_minds fun _ _ => hfair _).bind fun _ => Coro.Raises.ret _
    | false => exact (sync_minds (fun _ _ => hfair _) false).bind fun _ => Coro.Raises.ret _
  | appendDraft api inboxId fields clientId =>
    exact (appendDraft_minds hfair fields clientId).bind fun _ => Coro.Raises.ret _
  | copyToTrash api inboxId mdef items =>
    exact (copyToTrash_minds hfair mdef items).bind fun _ => Coro.Raises.ret _
  | setFlag api inboxId mdef item flag value =>
    exact (setFlag_minds mdef item flag value).bind fun _ => Coro.Raises.ret _
  | expungeItems api inboxId mdef items =>
    exact (expungeItems_minds mdef items).bind fun _ => Coro.Raises.ret _
  | rawBytes api inboxId mdef item =>
    exact (rawBytes_minds (hcharge api) mdef item).bind fun _ => Coro.Raises.ret _
  | sizeOf api inboxId mdef item =>
    exact (sizeOf_minds (hcharge api) mdef item).bind fun _ => Coro.Raises.ret _

/-- Where credentials are not bound a bare call leaves its session as it is. -/
theorem callFrames (hb : ¬ev.binding) (api : Client) (inboxId : String) (l : Session) :
    Coro.Frames (keyLogic cfg (.conn n) api inboxId Λ) (loginLogic cfg ev Λ n) Sum.inl Prod.fst
      (fun s => Λ.Holds s.1 ∧ s.2 = l) where
  exec _ _ := rfl
  guar _ _ hs hg := ⟨⟨fun h => absurd h hb, hg.2⟩, hs.1.exec cfg (.conn n) hg.2, hs.2⟩
  rely _ _ hs hr := ⟨hr.1, (hr.1 hs.1).2, hr.2.trans hs.2⟩
  asks _ _ hs _ := ⟨hs.1, fun h => absurd h hb⟩
  gives _ _ _ h := h.1

theorem call_ready (hb : ¬ev.binding) (c : Call) {s : Shared}
    (hs : Ready (connBooks log n) ev cfg s) :
    (svc (c.run cfg (.conn n))).wp (loginLogic cfg ev (connBooks log n) n)
      (fun _ => Ready (connBooks log n) ev cfg) (fun _ => Ready (connBooks log n) ev cfg) s := by
  have hminds : Minds cfg (.conn n) c.client c.inboxId (connBooks log n) (c.run cfg (.conn n)) :=
    Call.run_minds (connBooks_fair log n) (fun _ _ => rfl) (.conn n) c
  have hrun := hminds s.1 hs.service
  have hback : ∀ s' : Shared, (connBooks log n).Holds s'.1 ∧ s'.2 = s.2 →
      Ready (connBooks log n) ev cfg s' := fun s' h => ⟨h.1, h.2 ▸ hs.session⟩
  exact Coro.wp_mono (fun _ s' h => hback s' h.2) (fun _ s' h => hback s' h.2)
    (Coro.wp_lift (callFrames hb c.client c.inboxId s.2) ⟨hs.service, rfl⟩ hrun)

/-- The job a task runs stays its job. -/
theorem jobFrames (job : Job) :
    Coro.Frames (keyLogic cfg (.task n) job.client job.inboxId (taskBooks log n job))
      (taskLogic cfg ev log n) Sum.inl Prod.fst
      (fun s => (books log).Holds s.1 ∧ Tasked ev cfg s.1 ∧
        ∃ task, s.1.tasks n = some task ∧ task.job = job) where
  exec _ _ := rfl
  guar p s hs hg := by
    obtain ⟨hholds, htasked, task, ht, hjob⟩ := hs
    have hp : Accountable ev cfg log p s.1 := by
      refine ⟨fun hb job' gen he => ?_, hg.2⟩
      obtain ⟨hc, hi⟩ := hg.1 job' gen he
      rw [hc, hi, ← hjob]
      exact htasked hb n task ht
    obtain ⟨task', ht', hjob'⟩ := hholds.owned.exec_job cfg (.task n) p ht
    exact ⟨hp, hholds.exec cfg (.task n) hg.2, htasked.exec hholds hp, task', ht',
      hjob'.trans hjob⟩
  rely s s' hs hr := by
    obtain ⟨hholds, htasked, task, ht, hjob⟩ := hs
    obtain ⟨hfollows, hholds', hkeep⟩ := hr hholds
    obtain ⟨task', ht', hjob'⟩ := hfollows.jobs n task ht
    exact ⟨fun h => ⟨hfollows, hholds'.owned, hholds'.booked, hholds'.found⟩, hholds',
      hkeep htasked, task', ht', hjob'.trans hjob⟩
  asks q s hs hq := by
    obtain ⟨hholds, htasked, task, ht, rfl⟩ := hs
    exact ⟨hholds, fun hb => ⟨task, ht, hq.1, htasked hb n task ht⟩⟩
  gives q a s h := by
    refine ⟨fun status c ha hc => ?_, fun status m ha hq => ⟨trivial, h.2 status m ha hq⟩⟩
    cases job with
    | listing api inboxId mdef => exact h.1 status c ha hc
    | resync api inboxId => trivial

theorem task_resting {job : Job} {s : Shared} (hs : (books log).Holds s.1)
    (htasked : Tasked ev cfg s.1) (ht : ∃ task, s.1.tasks n = some task ∧ task.job = job) :
    (svc (runTask cfg n job)).wp (taskLogic cfg ev log n)
      (fun _ => Resting cfg ev log (.task n)) (fun _ => Resting cfg ev log (.task n)) s := by
  obtain ⟨task, ht, rfl⟩ := ht
  have hrun : (runTask cfg n task.job).wp
      (keyLogic cfg (.task n) task.job.client task.job.inboxId (taskBooks log n task.job))
      (fun _ => (taskBooks log n task.job).Holds) (fun _ => (taskBooks log n task.job).Holds)
      s.1 := by
    refine runTask_minds ⟨hs.owned, hs.booked, hs.found⟩ ht (fun _ => trivial) ?_ ?_
    · intro api i m hjob c status hfault
      rw [hjob] at hfault
      exact hfault
    · intro api i hjob key
      rw [hjob]
      exact ⟨trivial, fun _ _ _ _ => trivial⟩
  exact Coro.wp_mono (fun _ _ h => ⟨h.2.1, h.2.2.1⟩) (fun _ _ h => ⟨h.2.1, h.2.2.1⟩)
    (Coro.wp_lift (jobFrames task.job) ⟨hs, htasked, task, ht, rfl⟩ hrun)

end Main

/-! ## Every coroutine keeps to its logic -/

theorem Ready.of_rely {s s' : Shared} (h : Ready (connBooks log n) ev cfg s)
    (hr : (loginLogic cfg ev (connBooks log n) n).rely s s') :
    Ready (connBooks log n) ev cfg s' := ⟨(hr.1 h.service).2, hr.2 ▸ h.session⟩

theorem sound_main {binding : Prop} {w : World} {t : Tid} {i : Input}
    (hC : Logged (evidence log binding) log w (.launch t i))
    (hready : ready t i w.shared (w.loc t) = true)
    (h : Resting cfg (evidence log binding) log t (w.shared, w.loc t)) :
    (main cfg txt t i).wp (runLogic cfg (evidence log binding) log t)
      (fun _ => Resting cfg (evidence log binding) log t)
      (fun _ => Resting cfg (evidence log binding) log t) (w.shared, w.loc t) := by
  have hentry := hC.entry _ rfl
  cases t with
  | conn n =>
    cases i with
    | command cmd =>
      unfold main
      simp only [Coro.bind_eq]
      refine (Coro.wp_bind _ _).mpr (Coro.wp_mono (fun _ s hs => flush_ready s hs)
        (fun _ _ hs => hs) (dispatch_ready (connBooks_fair log n) (fun _ _ => rfl) cmd ?_ h))
      intro userid password hverb serial
      exact ⟨cmd.tag, cmd.name, hverb ▸ hentry⟩
    | call c =>
      unfold main
      exact call_ready (fun hb => hC.command hb _ _ rfl) c h
    | task job => cases hready
  | task n =>
    cases i with
    | command cmd => cases hready
    | call c => cases hready
    | task job =>
      unfold main
      refine task_resting h.1 h.2 ?_
      rw [ready] at hready
      split at hready
      · rename_i task htask
        rw [Bool.and_eq_true, decide_eq_true_eq] at hready
        exact ⟨task, htask, hready.1⟩
      · cases hready

theorem sound_gives {binding : Prop} {w : World} {t : Tid} {f : Service → (q : Req) → Option q.Answer}
    {q : Req} {k : q.Answer → Prog Unit} {a : q.Answer}
    (hC : Logged (evidence log binding) log w (.resume t f)) (hprog : w.prog t = .await q k)
    (ha : f w.shared q = some a) (hans : answers t q a w.shared = true) :
    (runLogic cfg (evidence log binding) log t).gives q a (w.shared, w.loc t) := by
  have hentry : .replied t q a ∈ log := by
    refine hC.entry _ ?_
    rw [Pool.entry, hprog]
    exact congrArg (Option.map _) ha
  cases t with
  | conn n =>
    refine ⟨accounts_of_answers (fun status c he hc => ?_) (fun _ _ _ _ => trivial) hans, ?_⟩
    · subst he
      exact .inl ⟨q, hc, hentry⟩
    · unfold Evidence.Records
      split
      · rintro rfl
        exact hentry
      · rintro rfl
        exact hentry
      · trivial
  | task n =>
    refine ⟨fun status c he hc => ?_, fun status m he hq => ?_⟩
    · subst he
      exact ⟨q, hc, hentry⟩
    · subst hq he
      exact told_of_answers hans

theorem credentials_sound (cfg : Config) (txt : TextConfig) (log : Log) (binding : Prop) :
    Sound (gateway cfg txt) (Logged (evidence log binding) log)
      (runLogic cfg (evidence log binding) log) (Resting cfg (evidence log binding) log) where
  exec t := by
    cases t with
    | conn n => rfl
    | task n => rfl
  refl := runLogic_refl
  trans := runLogic_trans
  others t u htu p s lt lu hg := by
    cases p with
    | inl p => exact (Accountable.of_guar hg).rely t u lu
    | inr p => exact runLogic_refl u (s, lu)
  ambient t u p s lt lu hp := by
    cases p with
    | inl p => exact ⟨rfl, (Accountable.of_ambient hp).rely t u lu⟩
    | inr p => cases hp
  asksStable t q a b ha hr := by
    cases t with
    | conn n => exact ⟨(hr.1 ha.1).2, fun hb => hr.2 ▸ ha.2 hb⟩
    | task n =>
      obtain ⟨hf, hb, _⟩ := hr ha.1
      refine ⟨hb, fun hbind => ?_⟩
      obtain ⟨task, ht, hwithin, hv⟩ := ha.2 hbind
      obtain ⟨task', ht', hjob⟩ := hf.jobs n task ht
      exact ⟨task', ht', hjob ▸ hwithin, hjob ▸ hv⟩
  restStable t a b h hr := by
    cases t with
    | conn n => exact Ready.of_rely h hr
    | task n =>
      obtain ⟨_, hb, ht⟩ := hr h.1
      exact ⟨hb, ht h.2⟩
  main w t i hC hready h := sound_main hC hready h
  gives w t f q k a hC hprog ha hans := sound_gives hC hprog ha hans

/-- Nothing has been listed when the gateway starts. -/
theorem Boot.books_hold (b : Boot) {Λ : Ledger} : Λ.Holds b.service where
  owned := ⟨b.ok, fun _ _ => rfl, nofun⟩
  booked _ _ _ _ _ _ h := by cases h
  found _ _ _ _ h := by cases h

theorem Boot.resting (b : Boot) :
    Sound.Holds (runLogic cfg ev log) (Resting cfg ev log) b.world := by
  intro t
  refine ⟨rfl, ?_⟩
  cases t with
  | conn n =>
    refine ⟨b.books_hold, nofun, fun h => ?_⟩
    rcases h with h | h <;> cases h
  | task n => exact ⟨b.books_hold, fun _ _ _ h => by cases h⟩

/-! ## Runs -/

theorem logged_reaches {b : Boot} {w : World} (binding : Prop) {past : Log}
    (h : b.world.Recorded (gateway cfg txt) past w) (hsub : past ⊆ log)
    (hcommands : binding → ∀ t c, .launched t (.call c) ∉ log) :
    b.world.Reaches (gateway cfg txt) (Logged (evidence log binding) log) w := by
  refine h.reaches fun earlier u m u' rest _ _ _ hlog => ?_
  have hentry : ∀ e, u.entry m = some e → e ∈ log := by
    intro e he
    refine hsub ?_
    rw [hlog, he]
    exact List.mem_append_right _ (List.mem_cons_self ..)
  refine ⟨hentry, fun hb t c hm => ?_⟩
  subst hm
  exact hcommands hb t c (hentry _ rfl)

/-- At every moment of a run, with or without bare calls, the books are kept. -/
theorem books_of_recorded {b : Boot} {w : World} {past : Log}
    (h : b.world.Recorded (gateway cfg txt) past w) (hsub : past ⊆ log) :
    (books log).Holds w.shared := by
  have hreach := logged_reaches False h hsub False.elim
  obtain ⟨hsettled, hwp⟩ :=
    (credentials_sound cfg txt log False).reaches b.resting hreach (.task 0)
  cases hp : w.prog (.task 0) with
  | ret a =>
    rw [hp] at hwp
    exact hwp.1
  | raise e =>
    rw [hp] at hwp
    exact hwp.1
  | await q k =>
    rw [hp] at hwp
    exact hwp.1.1
  | get k => rw [hp] at hsettled; cases hsettled
  | act p k => rw [hp] at hsettled; cases hsettled

/-- In a run of commands, whatever the answers: a session that is authenticated holds
an inbox and a key that a LOGIN verified; a connection makes every request with what
its session holds, and unless it is to verify them these are verified; a task makes
every request with the verified credentials it was created with; and a session that
is not authenticated holds no key when its command has ended. -/
theorem authentication {b : Boot} {w : World}
    (h : b.world.Recorded (gateway cfg txt) log w) (hcommands : ∀ t c, .launched t (.call c) ∉ log) :
    (∀ n, (w.loc (.conn n)).state = .authenticated ∨ (w.loc (.conn n)).state = .selected →
      ∃ api inboxId, (w.loc (.conn n)).api = some api ∧
        (w.loc (.conn n)).inboxId = some inboxId ∧
        (evidence log True).Vouches cfg api inboxId) ∧
    (∀ n q k, w.prog (.conn n) = .await q k → (evidence log True).Asks cfg q (w.loc (.conn n))) ∧
    (∀ n q k, w.prog (.task n) = .await q k → ∃ task, w.shared.tasks n = some task ∧
      q.Within task.job.client task.job.inboxId ∧
      (evidence log True).Vouches cfg task.job.client task.job.inboxId) ∧
    ∀ n, (w.prog (.conn n)).idle = true → (w.loc (.conn n)).state = .notAuthenticated →
      (w.loc (.conn n)).api = none := by
  have hsound := credentials_sound cfg txt log True
  have hreach := logged_reaches True h (fun _ he => he) fun _ => hcommands
  have hrest := hsound.reaches b.resting hreach
  have hawait : ∀ t q k, w.prog t = .await q k →
      (runLogic cfg (evidence log True) log t).asks q (w.shared, w.loc t) := fun t q k hp =>
    hsound.asks_of_await b.resting hreach hp
  refine ⟨fun n => ?_, fun n q k hp => ((hawait _ q k hp).2 trivial).1,
    fun n q k hp => (hawait _ q k hp).2 trivial, fun n hidle hstate => ?_⟩
  · by_cases hidle : (w.prog (.conn n)).idle = true
    · exact (hsound.rest_of_idle (hrest (.conn n)) hidle).session.sealed
    · have hsettled := (hrest (.conn n)).1
      cases hp : w.prog (.conn n) with
      | await q k => exact ((hawait _ q k hp).2 trivial).2
      | ret a => exact absurd (by rw [hp]; rfl) hidle
      | raise e => exact absurd (by rw [hp]; rfl) hidle
      | get k => rw [hp] at hsettled; cases hsettled
      | act p k => rw [hp] at hsettled; cases hsettled
  · by_contra hne
    obtain ⟨api, hapi⟩ := Option.ne_none_iff_exists'.mp hne
    have hready : Ready _ _ _ _ := hsound.rest_of_idle (hrest (.conn n)) hidle
    exact (hready.session.held api hapi).1 hstate

/-! ### A run -/

/-- A run that starts no bare call has none on record. -/
theorem commands_of_record {w : World} {ms : List Move}
    (h : ms.all (fun m => match m with | .launch _ (.call _) => false | _ => true) = true) :
    ∀ t c, .launched t (.call c) ∉ w.record (gateway cfg txt) ms := by
  intro t c hmem
  obtain ⟨u, m, hm, he⟩ := Pool.mem_record hmem
  rw [Pool.entry_launched he] at hm
  cases List.all_eq_true.mp h _ hm

/-- A LOGIN that is let in. -/
theorem authentication_login : ∃ w log,
    demoBoot.world.Recorded (gateway demoConfig demoText) log w ∧
      ∃ api inboxId, (w.loc (.conn 0)).api = some api ∧ (w.loc (.conn 0)).inboxId = some inboxId ∧
        (evidence log True).Vouches demoConfig api inboxId := by
  have hrun : (demoBoot.world.run (gateway demoConfig demoText) (loginMoves 0)).any
      (fun w => (w.loc (.conn 0)).state = .authenticated) = true := by decide
  cases hw : demoBoot.world.run (gateway demoConfig demoText) (loginMoves 0) with
  | none =>
    rw [hw] at hrun
    cases hrun
  | some w =>
    rw [hw] at hrun
    refine ⟨w, _, Pool.recorded_of_run hw, ?_⟩
    exact (authentication (Pool.recorded_of_run hw) (commands_of_record (by decide))).1 0
      (.inl (of_decide_eq_true hrun))

end Imap
end ImapGateway
