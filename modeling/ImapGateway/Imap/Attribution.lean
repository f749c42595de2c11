/-
Whose failure a refused key is.

A call of `sync` that fails to authenticate was refused a request with its client's own
key, or had joined a listing of this client that was.  So a session is told that its
credentials are no longer valid only when they were refused.
-/
import ImapGateway.Imap.Authentication

namespace ImapGateway
namespace Imap

open Async Mailbox

variable {cfg : Config} {txt : TextConfig}

/-! ## One call and the run around it -/

/-- A call of `sync` in a run: when it was made, and what was put on record since. -/
structure SyncCall where
  n : Nat
  api : Client
  inboxId : String
  name : String
  force : Bool
  older : Log
  newer : Log

def SyncCall.input (c : SyncCall) : Input := .call (.sync c.api c.inboxId c.name c.force)

/-- The record of the whole run. -/
def SyncCall.log (c : SyncCall) : Log := c.newer ++ .launched (.conn c.n) c.input :: c.older

/-- The call lists this mailbox. -/
def SyncCall.Targets (c : SyncCall) (key : Key) : Prop :=
  ∃ mdef, lookupMailbox c.name = some mdef ∧ key = (c.inboxId, mdef.name)

/-- `v` is a moment of the call, in the run that ends in `w`. -/
def During (cfg : Config) (txt : TextConfig) (b : Boot) (c : SyncCall) (w v : World) : Prop :=
  ∃ past rest, b.world.Recorded (gateway cfg txt) past v ∧
    v.Recorded (gateway cfg txt) rest w ∧ c.log = rest ++ past ∧ c.older <:+ past

/-- The call met with the failure of task `m`, which lists the same mailbox: it was told of
it, or found the task ended but still in flight. -/
def Met (cfg : Config) (txt : TextConfig) (b : Boot) (c : SyncCall) (w : World) (m : Nat)
    (status : Nat) : Prop :=
  ∃ v key, During cfg txt b c w v ∧ c.Targets key ∧ v.shared.Lists m key ∧
    v.shared.taskState m = some (.finished (.error (.auth status))) ∧
    (.replied (.conn c.n) (.task m) (.error (.auth status)) ∈ c.newer ∨
      ∃ e, v.shared.inflight key = some e ∧ e.task = m)

/-- The books of the call. -/
def callBooks (cfg : Config) (txt : TextConfig) (b : Boot) (c : SyncCall) (w : World) :
    Ledger where
  charge := Req.key
  watch := c.Targets
  heard := Met cfg txt b c w
  listing m client status := Met cfg txt b c w m status ∧
    ∃ task i mdef, w.shared.tasks m = some task ∧ task.job = .listing client i mdef
  fault client status :=
    (∃ q, q.key = some client ∧ .replied (.conn c.n) q (.error (.auth status)) ∈ c.newer) ∨
      ∃ m, Met cfg txt b c w m status ∧
        ∃ task i mdef, w.shared.tasks m = some task ∧ task.job = .listing client i mdef
  keyed _ _ h := h

variable {b : Boot} {c : SyncCall} {w v v' : World} {past rest : Log}

theorem follows_of_recorded (h : v.Recorded (gateway cfg txt) rest w) (hv : v.shared.Owned) :
    Mailbox.Follows v.shared w.shared := by
  induction h with
  | refl => exact hv.refl
  | step m _ hm ih =>
    have hstep := Pool.step_rel (R := fun s s' : Service => s.Owned → Mailbox.Follows s s')
      (fun _ hs => hs.refl) (fun _ _ _ h h' hs => (h hs).trans (h' (h hs).owned))
      (fun t p s l hs => by
        cases p with
        | inl p => exact hs.follows cfg t p
        | inr p => exact hs.refl) hm
    exact ih.trans (hstep ih.owned)

theorem During.books (h : During cfg txt b c w v) : (books c.log).Holds v.shared := by
  obtain ⟨past, rest, hpast, _, hlog, _⟩ := h
  refine books_of_recorded hpast fun e he => ?_
  rw [hlog]
  exact List.mem_append_right _ he

theorem During.follows (h : During cfg txt b c w v) : Mailbox.Follows v.shared w.shared := by
  have howned := h.books.owned
  obtain ⟨_, _, _, hrest, _⟩ := h
  exact follows_of_recorded hrest howned

/-- The books of the call are kept at every moment of it. -/
theorem During.holds (h : During cfg txt b c w v) :
    (callBooks cfg txt b c w).Holds v.shared where
  owned := h.books.owned
  booked m task api i mdef status ht hjob _ hmet := by
    obtain ⟨task', ht', hjob'⟩ := h.follows.jobs m task ht
    exact ⟨hmet, task', i, mdef, ht', hjob'.trans hjob⟩
  found key e status htargets he hstate := by
    obtain ⟨task, m, ht, hjob, hname⟩ := h.books.owned.inflight key e he
    exact ⟨v, key, h, htargets, ⟨task, e.owner, m, ht, hjob, hname⟩, hstate, .inr ⟨e, he, rfl⟩⟩

theorem callBooks_trusts {key : Key} (h : c.Targets key) :
    (callBooks cfg txt b c w).Trusts key where
  watch := h
  fair m _ _ hlisting := .inr ⟨m, hlisting⟩

/-! ## The call among the other coroutines -/

def callLogic (cfg : Config) (t : Tid) (Λ : Ledger) :
    Logic Shared (Mailbox.Act ⊕ Act) Req Req.Answer where
  exec := Imap.exec cfg t
  rely s s' := Λ.Holds s.1 → Mailbox.Follows s.1 s'.1 ∧ Λ.Holds s'.1
  guar _ _ := True
  asks q s := Λ.Holds s.1 ∧ ∀ m, q = .task m → ∃ key, Λ.watch key ∧ s.1.Lists m key
  gives q a s := Λ.Accounts q a s.1

theorem ownFrames (cfg : Config) (t : Tid) (api : Client) (inboxId : String) (Λ : Ledger) :
    Coro.Frames (keyLogic cfg t api inboxId Λ) (callLogic cfg t Λ) Sum.inl Prod.fst
      (fun s => Λ.Holds s.1) where
  exec _ _ := rfl
  guar _ _ hs hg := ⟨trivial, hs.exec cfg t hg.2⟩
  rely _ _ hs hr := ⟨hr, (hr hs).2⟩
  asks _ _ hs hq := ⟨hs, hq.2⟩
  gives _ _ _ h := h

/-- What the call runs raises only failures of its client's own. -/
theorem SyncCall.main_wp (c : SyncCall) {s : Shared}
    (hs : (callBooks cfg txt b c w).Holds s.1) :
    (main cfg txt (.conn c.n) c.input).wp (callLogic cfg (.conn c.n) (callBooks cfg txt b c w))
      (fun _ _ => True) (fun e _ => (callBooks cfg txt b c w).Blames c.api e) s := by
  have htrusts : ∀ mdef, lookupMailbox c.name = some mdef →
      (callBooks cfg txt b c w).Trusts (c.inboxId, mdef.name) := fun mdef hmdef =>
    callBooks_trusts ⟨mdef, hmdef, rfl⟩
  have hrun : Minds cfg (.conn c.n) c.api c.inboxId (callBooks cfg txt b c w)
      (Call.run cfg (.conn c.n) (.sync c.api c.inboxId c.name c.force)) := by
    cases c.force with
    | true => exact (syncForced_minds htrusts).bind fun _ => Coro.Raises.ret _
    | false => exact (sync_minds htrusts false).bind fun _ => Coro.Raises.ret _
  unfold SyncCall.input main
  exact Coro.wp_mono (fun _ _ _ => trivial) (fun _ _ h => h.1.1)
    (Coro.wp_lift (ownFrames cfg (.conn c.n) c.api c.inboxId _) hs (hrun s.1 hs))

/-- A move of the run while the call goes on. -/
structure Meanwhile (cfg : Config) (txt : TextConfig) (b : Boot) (c : SyncCall) (w v : World)
    (m : Move) : Prop where
  other : ∀ i, m ≠ .launch (.conn c.n) i
  entry : ∀ e, v.entry m = some e → e ∈ c.newer
  before : During cfg txt b c w v
  after : ∀ v', v.step (gateway cfg txt) m = some v' → During cfg txt b c w v'

theorem call_hosts (cfg : Config) (txt : TextConfig) (b : Boot) (c : SyncCall) (w : World) :
    Hosts (gateway cfg txt) (Meanwhile cfg txt b c w) (.conn c.n)
      (callLogic cfg (.conn c.n) (callBooks cfg txt b c w)) (fun _ _ => True)
      (fun e _ => (callBooks cfg txt b c w).Blames c.api e) where
  exec := rfl
  refl a hs := ⟨hs.owned.refl, hs⟩
  trans a b c h h' hs := by
    obtain ⟨hf, hb⟩ := h hs
    obtain ⟨hf', hc⟩ := h' hb
    exact ⟨hf.trans hf', hc⟩
  others v v' m hC _ hm hs := by
    have hafter := hC.after v' hm
    have hone : v.Recorded (gateway cfg txt) ((v.entry m).toList ++ []) v' := .step m .refl hm
    exact ⟨follows_of_recorded hone hs.owned, hafter.holds⟩
  ambient u p s l hp := by
    cases p with
    | inl p => rfl
    | inr p => cases hp
  asksStable q a b ha hr := by
    obtain ⟨hf, hb⟩ := hr ha.1
    refine ⟨hb, fun m hq => ?_⟩
    obtain ⟨key, hwatch, hlists⟩ := ha.2 m hq
    exact ⟨key, hwatch, hf.lists hlists⟩
  retStable _ _ _ _ _ := trivial
  raiseStable _ _ _ h _ := h
  once v i hC := hC.other i rfl
  gives v f q k a hC hprog ha hans hasks := by
    have hentry : .replied (.conn c.n) q a ∈ c.newer := by
      refine hC.entry _ ?_
      rw [Pool.entry, hprog]
      exact congrArg (Option.map _) ha
    refine accounts_of_answers (fun status client he hkey => ?_) (fun status m hq he => ?_) hans
    · subst he
      exact .inl ⟨q, hkey, hentry⟩
    · subst hq he
      obtain ⟨key, htargets, hlists⟩ := hasks.2 m rfl
      exact ⟨v, key, hC.before, htargets, hlists, told_of_answers hans, .inl hentry⟩

/-- While the call goes on every move of the run is one of these. -/
theorem meanwhile_reaches {u' : World} (hstart : ∃ u, b.world.Recorded (gateway cfg txt) c.older u ∧
      u.step (gateway cfg txt) (.launch (.conn c.n) c.input) = some u')
    (hnew : ∀ i, .launched (.conn c.n) i ∉ c.newer)
    (h : u'.Recorded (gateway cfg txt) c.newer w) :
    u'.Reaches (gateway cfg txt) (Meanwhile cfg txt b c w) w := by
  obtain ⟨u, hu, hlaunch⟩ := hstart
  have hcalled : b.world.Recorded (gateway cfg txt) (.launched (.conn c.n) c.input :: c.older) u' :=
    .step _ hu hlaunch
  refine h.reaches fun past v m v' rest hv hm hrest hlog => ?_
  have hbefore := hcalled.trans hv
  have hone : v.Recorded (gateway cfg txt) ((v.entry m).toList ++ []) v' := .step m .refl hm
  rw [List.append_nil] at hone
  have hwhole : c.log = rest ++ ((v.entry m).toList ++ (past ++
      .launched (.conn c.n) c.input :: c.older)) := by
    rw [SyncCall.log, hlog, List.append_assoc, List.append_assoc]
  have holder : c.older <:+ past ++ .launched (.conn c.n) c.input :: c.older :=
    (List.suffix_cons _ _).trans (List.suffix_append _ _)
  have hentry : ∀ e, v.entry m = some e → e ∈ c.newer := by
    intro e he
    rw [hlog, he]
    exact List.mem_append_right _ (List.mem_cons_self ..)
  refine ⟨fun i he => ?_, hentry, ?_, fun v'' hm' => ?_⟩
  · subst he
    exact hnew i (hentry _ rfl)
  · refine ⟨_, _, hbefore, hone.trans hrest, ?_, holder⟩
    rw [hwhole, List.append_assoc]
  · cases hm.symm.trans hm'
    exact ⟨_, _, hbefore.trans hone, hrest, hwhole, holder.trans (List.suffix_append _ _)⟩

/-! ## Runs -/

/-- A call that has failed to authenticate was refused a request with its client's key
since it was made, or met with the failure of a task that lists the same mailbox with the
same client, and that task was refused a request with this key. -/
theorem SyncCall.owner (c : SyncCall) {status : Nat}
    (h : b.world.Recorded (gateway cfg txt) c.log w)
    (hnew : ∀ i, .launched (.conn c.n) i ∉ c.newer)
    (hend : w.prog (.conn c.n) = .raise (.auth status)) :
    (∃ q, q.key = some c.api ∧ .replied (.conn c.n) q (.error (.auth status)) ∈ c.newer) ∨
      ∃ m task mdef, w.shared.tasks m = some task ∧ task.job = .listing c.api c.inboxId mdef ∧
        c.Targets (c.inboxId, mdef.name) ∧ Met cfg txt b c w m status ∧
        Refused c.log (.task m) c.api status := by
  obtain ⟨u, u', hu, hlaunch, hrest⟩ := h.split
  have hcalled : u.Recorded (gateway cfg txt) ([.launched (.conn c.n) c.input] ++ []) u' :=
    .step _ .refl hlaunch
  have hduring : During cfg txt b c w u := by
    refine ⟨c.older, _, hu, hcalled.trans hrest, ?_, List.suffix_rfl⟩
    rw [SyncCall.log, List.append_nil, List.append_assoc]
    rfl
  have hblames := (call_hosts cfg txt b c w).raised hlaunch (c.main_wp hduring.holds)
    (meanwhile_reaches ⟨u, hu, hlaunch⟩ hnew hrest) hend
  rcases hblames status rfl with hown | ⟨m, hmet, task, i, mdef, ht, hjob⟩
  · exact .inl hown
  · have ⟨v, key, hv, htargets, ⟨task', owner, mdef', ht', hjob', hname⟩, hstate, _⟩ := hmet
    -- The task has the job it had when the call met with its failure.
    obtain ⟨task'', ht'', hsame⟩ := hv.follows.jobs m task' ht'
    cases ht.symm.trans ht''
    have heq : Job.listing c.api i mdef = .listing owner key.1 mdef' :=
      hjob.symm.trans (hsame.trans hjob')
    obtain ⟨rfl, rfl, rfl⟩ := Job.listing.inj heq
    obtain ⟨target, hlookup, rfl⟩ := htargets
    obtain ⟨fin, hfin, hstate⟩ := Option.map_eq_some_iff.mp hstate
    cases ht'.symm.trans hfin
    refine .inr ⟨m, task, mdef, ht, hjob, ⟨target, hlookup, congrArg _ hname⟩, hmet, ?_⟩
    exact hv.books.booked m task' _ _ mdef status ht' hjob' hstate trivial

/-- A session that is told that its credentials are no longer valid has had a request made
through its own client refused, or one of a listing of this client was. -/
theorem bye_owner {log : Log} (h : b.world.Recorded (gateway cfg txt) log w) {n : Nat} {s : Shared}
    (he : ⟨.conn n, .inr (.send refusedKey), s⟩ ∈ w.trace) :
    ∃ api status, s.2.api = some api ∧
      ((∃ q, q.client = some api ∧ .replied (.conn n) q (.error (.auth status)) ∈ log) ∨
        ∃ m, Refused log (.task m) api status) := by
  have hreach := logged_reaches False h (fun _ he => he) False.elim
  rcases (credentials_sound cfg txt log False).guar_of_mem b.resting hreach _ he with
    hin | hamb | hguar
  · cases hin
  · cases hamb
  · exact hguar rfl

/-- A refused key is the failure of its owner, in every run: of the calls of `sync`, and of
the sessions that are told so. -/
theorem attribution {log : Log} (h : b.world.Recorded (gateway cfg txt) log w) :
    (∀ c : SyncCall, c.log = log → (∀ i, .launched (.conn c.n) i ∉ c.newer) →
      ∀ status, w.prog (.conn c.n) = .raise (.auth status) →
        (∃ q, q.key = some c.api ∧ .replied (.conn c.n) q (.error (.auth status)) ∈ c.newer) ∨
          ∃ m task mdef, w.shared.tasks m = some task ∧
            task.job = .listing c.api c.inboxId mdef ∧ c.Targets (c.inboxId, mdef.name) ∧
            Met cfg txt b c w m status ∧ Refused log (.task m) c.api status) ∧
    ∀ n s, ⟨.conn n, .inr (.send refusedKey), s⟩ ∈ w.trace →
      ∃ api status, s.2.api = some api ∧
        ((∃ q, q.client = some api ∧ .replied (.conn n) q (.error (.auth status)) ∈ log) ∨
          ∃ m, Refused log (.task m) api status) := by
  refine ⟨fun c hlog hnew status hend => ?_, fun n s he => bye_owner h he⟩
  subst hlog
  exact c.owner h hnew hend

/-- Two sessions list a mailbox, the second joins the listing of the first, and the key of
the first is refused. -/
def refusedMoves : List Move :=
  [listBy 0 0 inbox, syncBy 1 "INBOX", unauthorized (.task 0), reapOf 0, answerTo (.conn 0) [],
    answerTo (.conn 1) []]

/-- Connection 0 has been told that its credentials were refused. -/
def toldRefused (w : World) : Bool :=
  match w.prog (.conn 0) with
  | .raise e => decide (e = .auth 401)
  | _ => false

/-- The move starts nothing on connection 0. -/
def startsOther : Move → Bool
  | .launch t _ => decide (t ≠ .conn 0)
  | _ => true

/-- The first is told so, and owns the listing that was refused. -/
theorem attribution_refused : ∃ w log c,
    demoBoot.world.Recorded (gateway demoConfig demoText) log w ∧ c.log = log ∧
      c.api = ⟨0, 0, "k"⟩ ∧ c.n = 0 ∧
      ((∃ q, q.key = some c.api ∧ .replied (.conn c.n) q (.error (.auth 401)) ∈ c.newer) ∨
        ∃ m task mdef, w.shared.tasks m = some task ∧
          task.job = .listing c.api c.inboxId mdef ∧ c.Targets (c.inboxId, mdef.name) ∧
          Met demoConfig demoText demoBoot c w m 401 ∧ Refused log (.task m) c.api 401) := by
  have hrun : ((demoBoot.world.step (gateway demoConfig demoText) (syncBy 0 "INBOX")).bind
      fun u => u.run (gateway demoConfig demoText) refusedMoves).any
        toldRefused = true := by
    decide +kernel
  cases hu : demoBoot.world.step (gateway demoConfig demoText) (syncBy 0 "INBOX") with
  | none =>
    rw [hu] at hrun
    cases hrun
  | some u =>
    cases hw : u.run (gateway demoConfig demoText) refusedMoves with
    | none =>
      rw [hu, Option.bind_some, hw] at hrun
      cases hrun
    | some w =>
      rw [hu, Option.bind_some, hw] at hrun
      let c : SyncCall := ⟨0, ⟨0, 0, "k"⟩, "a@x", "INBOX", true, [],
        u.record (gateway demoConfig demoText) refusedMoves⟩
      have hcall : demoBoot.world.Recorded (gateway demoConfig demoText)
          ([.launched (.conn 0) c.input] ++ []) u := .step _ .refl hu
      have hrecord : demoBoot.world.Recorded (gateway demoConfig demoText) c.log w :=
        hcall.trans (Pool.recorded_of_run hw)
      refine ⟨w, c.log, c, hrecord, rfl, rfl, rfl, ?_⟩
      refine (attribution hrecord).1 c rfl (fun i hmem => ?_) 401 ?_
      · obtain ⟨v, m, hm, he⟩ := Pool.mem_record hmem
        rw [Pool.entry_launched he] at hm
        have hnone : refusedMoves.all startsOther = true := by decide
        have hbad := List.all_eq_true.mp hnone _ hm
        cases hbad
      · show w.prog (.conn 0) = _
        rw [Option.any_some, toldRefused] at hrun
        split at hrun
        · rename_i e hprog
          rw [hprog, of_decide_eq_true hrun]
        · cases hrun

end Imap
end ImapGateway
