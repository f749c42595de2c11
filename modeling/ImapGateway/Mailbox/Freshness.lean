/-
What a forced `sync` returns.

The snapshot `sync` returns is valid, and if it was forced, its listing started
after the last bump of the mailbox before the call.  A listing in flight counts
only if it is tagged with the generation of the call, and then it started after
that bump; every other way to a snapshot starts a listing of its own.
-/
import ImapGateway.Mailbox.Cache
import ImapGateway.Mailbox.Logic

namespace ImapGateway
namespace Mailbox

open Async

variable {cfg : Config} {R : Regime} {W : Prop} {t : Tid} {M : Option Mutation × Nat} {s s' : Service}

/-- A snapshot of `key` that is valid and has been shown, and under `F` of a listing
later than `b`. -/
structure Fresh (F : Prop) (b : Nat) (key : Key) (snap : Snapshot) (s : Service) : Prop where
  valid : snap.Valid s.store
  shown : snap.Shown s
  key_eq : snap.key = key
  late : F → b < snap.listing

/-! ## A listing -/

/-- Coroutine `t` is collecting the listing `l`, which started after `b` others. -/
structure Collecting (cfg : Config) (R : Regime) (t : Tid) (M : Option Mutation × Nat) (b : Nat)
    (l : Listing) (s : Service) : Prop extends At cfg R t M s where
  listing : s.listings t = some l
  late : b < l.no
  own : ∀ n, t = .task n → ∃ task, s.tasks n = some task ∧ task.no = some l.no

/-- Coroutine `t` is collecting a listing of the mailbox. -/
def Gathers (cfg : Config) (R : Regime) (t : Tid) (M : Option Mutation × Nat) (b : Nat) (inboxId : String)
    (mdef : MailboxDef) (s : Service) : Prop :=
  ∃ l, Collecting cfg R t M b l s ∧ l.inboxId = inboxId ∧ l.mdef = mdef

variable {b : Nat} {l : Listing} {inboxId : String} {mdef : MailboxDef}

theorem Collecting.rely (h : Collecting cfg R t M b l s) (hr : Rely cfg R t s s') :
    Collecting cfg R t M b l s' := by
  obtain ⟨_, _, hsp⟩ := hr h.inv
  refine ⟨h.toAt.rely hr, hsp.listings.trans h.listing, h.late, fun n ht => ?_⟩
  obtain ⟨task, hn, hrun⟩ := h.running n ht
  obtain ⟨task', hn', hno⟩ := h.own n ht
  rw [hn] at hn'
  cases hn'
  exact ⟨task, hsp.running n task ht hn hrun, hno⟩

theorem Gathers.rely (h : Gathers cfg R t M b inboxId mdef s) (hr : Rely cfg R t s s') :
    Gathers cfg R t M b inboxId mdef s' := by
  obtain ⟨l, hl, hid, hdef⟩ := h
  exact ⟨l, hl.rely hr, hid, hdef⟩

/-- An action that touches neither tasks nor listings leaves a listing as it is. -/
theorem Collecting.quiet {p : Act} (h : Collecting cfg R t M b l s) (ho : Owes cfg R t p s)
    (hp : p.plain = true) (hs : p.schedules = false)
    (hl : (p.exec cfg t s).listings t = s.listings t) :
    Collecting cfg R t M b l (p.exec cfg t s) := by
  refine ⟨h.toAt.act ho hp, hl.trans h.listing, h.late, fun n ht => ?_⟩
  rw [(Act.exec_schedule cfg t h.inv.store hs).tasks]
  exact h.own n ht

/-- Collecting an item extends the listing. -/
theorem Gathers.collect {p : Act} (h : Gathers cfg R t M b inboxId mdef s) (ho : Owes cfg R t p s)
    (hp : p.collects = true) : Gathers cfg R t M b inboxId mdef (p.exec cfg t s) := by
  obtain ⟨l, hl, hid, hdef⟩ := h
  have hplain : p.plain = true := by cases p <;> first | rfl | cases hp
  have hsched : p.schedules = false := by cases p <;> first | rfl | cases hp
  cases Act.exec_listingStep cfg t p hl.inv.store with
  | start _ _ hstart => rw [hstart] at hp; cases hp
  | extend l₀ seen entries _ hl₀ listings _ =>
    rw [hl.listing] at hl₀
    cases hl₀
    refine ⟨{ l with seen := seen, entries := l.entries ++ entries },
      ⟨hl.toAt.act ho hplain, ?_, hl.late, fun n ht => ?_⟩, hid, hdef⟩
    · rw [listings, Function.update_self]
    · rw [(Act.exec_schedule cfg t hl.inv.store hsched).tasks]
      exact hl.own n ht
  | stop hstop =>
    rcases hstop with rfl | rfl <;> cases hp
  | quiet _ listings _ =>
    exact ⟨l, hl.quiet ho hplain hsched (by rw [listings]), hid, hdef⟩

theorem ask_gathers {q : Req} (hq : q.writes = false) :
    Coro.Keeps (svcLogic cfg R W t) (Gathers cfg R t M b inboxId mdef) (ask q) :=
  ask_keeps (fun h => by rw [hq] at h; cases h) fun _ _ h hr => h.rely hr

theorem paginate_keeps {α : Type} {L : Logic Service Act Req Req.Answer} {I : Service → Prop}
    {ask : Option String → Svc (Page α)} {body : α → Svc Unit}
    (hask : ∀ token, Coro.Keeps L I (ask token)) (hbody : ∀ x, Coro.Keeps L I (body x))
    (fuel : Nat) (token : Option String) (seen : List String) :
    Coro.Keeps L I (paginate ask body fuel token seen) := by
  induction fuel generalizing token seen with
  | zero => exact Coro.Keeps.raise _
  | succ fuel ih =>
    rw [paginate]
    refine (hask token).bind fun page => (Coro.Keeps.each hbody _).bind fun _ => ?_
    split
    · exact Coro.Keeps.ret _
    · split
      · exact Coro.Keeps.raise _
      · exact ih _ _

theorem collectMessage_keeps (hkind : mdef.kind = .messages) (m : MessageJson) :
    Coro.Keeps (svcLogic cfg R W t) (Gathers cfg R t M b inboxId mdef) (collectMessage m) := by
  rw [collectMessage]
  split
  · exact Coro.Keeps.raise _
  · refine Coro.Keeps.perform fun s hs => ?_
    have ho : Owes cfg R t (.collectMessage m) s := by
      intro l hl
      obtain ⟨l₀, hl₀, _, hdef⟩ := hs
      rw [hl₀.listing] at hl
      cases hl
      rw [hdef, hkind]
    exact ⟨⟨ho, rfl⟩, hs.collect ho rfl⟩

/-- Coroutine `t` has seen a draft it has not collected. -/
def Draws (cfg : Config) (R : Regime) (t : Tid) (M : Option Mutation × Nat) (b : Nat) (inboxId : String)
    (mdef : MailboxDef) (id : String) (s : Service) : Prop :=
  ∃ l, Collecting cfg R t M b l s ∧ l.inboxId = inboxId ∧ l.mdef = mdef ∧
    id ∈ l.seen ∧ id ∉ l.entries.map (·.remoteId)

theorem Draws.rely {id : String} (h : Draws cfg R t M b inboxId mdef id s)
    (hr : Rely cfg R t s s') : Draws cfg R t M b inboxId mdef id s' := by
  obtain ⟨l, hc, hrest⟩ := h
  exact ⟨l, hc.rely hr, hrest⟩

theorem Draws.quiet {id : String} {p : Act} (h : Draws cfg R t M b inboxId mdef id s)
    (ho : Owes cfg R t p s) (hp : p.plain = true) (hs : p.schedules = false)
    (hl : (p.exec cfg t s).listings t = s.listings t) :
    Draws cfg R t M b inboxId mdef id (p.exec cfg t s) := by
  obtain ⟨l, hc, hrest⟩ := h
  exact ⟨l, hc.quiet ho hp hs hl, hrest⟩

/-- A draft comes with a rendering from upstream or from the cache. -/
theorem renderDraft_wp (api : Client) (d : DraftJson)
    (h : Draws cfg R t M b inboxId mdef (orEmpty d.draftId) s) :
    (renderDraft cfg api inboxId (orEmpty d.draftId) (orEmpty d.updatedAt)).wp (svcLogic cfg R W t)
      (fun r s => Draws cfg R t M b inboxId mdef (orEmpty d.draftId) s ∧
        ∀ rendered, r = some rendered → Renders t s inboxId d rendered)
      (fun _ => Draws cfg R t M b inboxId mdef (orEmpty d.draftId)) s := by
  rw [renderDraft]
  simp only [Coro.bind_eq, Coro.pure_eq, Coro.throw_eq, Coro.attempt]
  refine state_bind_wp ?_
  split
  · rename_i cached hfound
    refine perform_bind_wp ⟨trivial, rfl⟩
      ⟨h.quiet (p := .cacheGet _) trivial rfl rfl rfl, fun rendered he => .inr ?_⟩
    cases he
    show (s.cache.moveToEnd _).find _ = some cached
    rw [ByteCache.find_moveToEnd]
    exact hfound
  · refine (Coro.wp_bind _ _).mpr ((Coro.wp_handle _ _).mpr ((Coro.wp_bind _ _).mpr ?_))
    refine ask_wp (fun h => by cases h) fun s' hr a _ _ _ => ?_
    have h' := h.rely hr
    cases a with
    | error e =>
      rw [Coro.ofExcept, Coro.wp_raise, Coro.wp_ret]
      split
      · exact ⟨h', (by simp)⟩
      · exact h'
      · rename_i hok
        cases hok
    | ok full =>
      rw [Coro.ofExcept, Coro.wp_ret, Coro.wp_ret]
      dsimp only
      split
      · exact h'
      · rename_i rendered hrendered
        have hobtained := h'.quiet (p := .obtained (.draft inboxId (orEmpty d.draftId) rendered))
          ⟨full, hrendered⟩ rfl rfl rfl
        have hsource : ((Act.obtained (.draft inboxId (orEmpty d.draftId) rendered)).exec cfg t
            s').aux.source t = some (.draft inboxId (orEmpty d.draftId) rendered) :=
          Function.update_self ..
        have hput : Owes cfg R t (.cachePut (ckey inboxId "draftv"
            (orEmpty d.draftId ++ ":" ++ orEmpty d.updatedAt)) rendered)
            ((Act.obtained (.draft inboxId (orEmpty d.draftId) rendered)).exec cfg t s') :=
          .version inboxId _ _ rendered hsource
        refine perform_bind_wp ⟨⟨full, hrendered⟩, rfl⟩ (perform_bind_wp ⟨hput, rfl⟩
          ⟨hobtained.quiet hput rfl rfl rfl, fun r he => .inl ?_⟩)
        cases he
        exact hsource

theorem collectDraft_keeps (hkind : mdef.kind = .drafts) (api : Client) (d : DraftJson) :
    Coro.Keeps (svcLogic cfg R W t) (Gathers cfg R t M b inboxId mdef)
      (collectDraft cfg t api inboxId d) := by
  intro s hs
  rw [collectDraft]
  simp only [Coro.bind_eq, Coro.pure_eq, Coro.throw_eq]
  split
  · exact hs
  · show Coro.wp _ (if _ then _ else _) _ _ s
    split
    · exact hs
    · rename_i hnew
      obtain ⟨l, hl, hid, hdef⟩ := hs
      rw [hl.listing] at hnew
      have hnew' : orEmpty d.draftId ∉ l.entries.map (·.remoteId) := by
        intro hmem
        obtain ⟨e, he, hee⟩ := List.mem_map.mp hmem
        exact hnew (hee ▸ (hl.inv.listings t l hl.listing).seen e he)
      have hsee : Draws cfg R t M b inboxId mdef (orEmpty d.draftId)
          ((Act.see (orEmpty d.draftId)).exec cfg t s) := by
        refine ⟨{ l with seen := l.seen ++ [orEmpty d.draftId] },
          ⟨hl.toAt.act trivial rfl, ?_, hl.late, hl.own⟩, hid, hdef,
          List.mem_append_right _ (List.mem_singleton_self _), hnew'⟩
        simp [Act.exec, Service.see, hl.listing]
      have forget : ∀ s, Draws cfg R t M b inboxId mdef (orEmpty d.draftId) s →
          Gathers cfg R t M b inboxId mdef s := by
        rintro s ⟨l, hc, hi, hd, _⟩
        exact ⟨l, hc, hi, hd⟩
      refine perform_bind_wp ⟨trivial, rfl⟩ ((Coro.wp_bind _ _).mpr ?_)
      refine Coro.wp_mono (fun r s hs => ?_) (fun _ s hs => forget s hs)
        (renderDraft_wp api d hsee)
      split
      · exact forget s hs.1
      · rename_i rendered
        obtain ⟨⟨l, hl, hid, hdef, hin, hnot⟩, hrender⟩ := hs
        have ho : Owes cfg R t (.collectDraft d rendered) s := by
          intro l' hl'
          rw [hl.listing] at hl'
          cases hl'
          exact ⟨⟨hdef ▸ hkind, hin, hnot⟩, hid ▸ hrender rendered rfl⟩
        exact ⟨⟨ho, rfl⟩, Gathers.collect ⟨l, hl, hid, hdef⟩ ho rfl⟩

/-- What `_do_sync` returns: the snapshot of a listing that started after `b`
others, which for a task is the one on its record. -/
structure Listed (cfg : Config) (R : Regime) (t : Tid) (M : Option Mutation × Nat) (b : Nat) (key : Key)
    (snap : Snapshot) (s : Service) : Prop extends At cfg R t M s where
  fresh : Fresh True b key snap s
  own : ∀ n, t = .task n → ∃ task, s.tasks n = some task ∧ task.no = some snap.listing

theorem collect_keeps (api : Client) : Coro.Keeps (svcLogic cfg R W t)
    (Gathers cfg R t M b inboxId mdef) (match mdef.kind with
      | .messages => collectMessages cfg api inboxId mdef
      | .drafts => collectDrafts cfg t api inboxId) := by
  split
  · rename_i hkind
    exact paginate_keeps (fun _ => ask_gathers rfl) (collectMessage_keeps hkind) _ _ _
  · rename_i hkind
    exact paginate_keeps (fun _ => ask_gathers rfl) (collectDraft_keeps hkind api) _ _ _

/-- A listing that publishes. -/
theorem Collecting.publish (h : Collecting cfg R t M b l s) :
    ∃ snap, (s.publish t).published t = some snap ∧
      Listed cfg R t M b l.key snap (s.publish t) := by
  have hat : At cfg R t M (s.publish t) := h.toAt.act (p := .publish) trivial rfl
  obtain ⟨store, watermark, v, hrec, heq⟩ := Service.publish_eq h.inv.store h.listing
  have hlatest : (s.publish t).latest l.key = some (s.publication l store v) := by
    rw [heq]
    simp
  have hcur := hat.inv.latest l.key _ hlatest
  have hshown := hat.inv.latestShown l.key _ hlatest
  refine ⟨s.publication l store v, by rw [heq]; simp, hat,
    ⟨hcur.valid, hshown, rfl, fun _ => h.late⟩, ?_⟩
  intro n ht
  have htasks := (Act.exec_schedule (p := .publish) cfg t h.inv.store rfl).tasks
  rw [show s.publish t = Act.publish.exec cfg t s from rfl, htasks]
  exact h.own n ht

theorem doSync_wp (api : Client) (h : At cfg R t M s) (hb : b ≤ s.aux.started)
    (hmdef : mdef ∈ mailboxes) :
    (doSync cfg t api inboxId mdef).wp (svcLogic cfg R W t)
      (fun snap s => Listed cfg R t M b (inboxId, mdef.name) snap s) (fun _ => At cfg R t M) s := by
  have ho : Owes cfg R t (.startListing inboxId mdef) s := by
    refine ⟨hmdef, fun n ht => ?_⟩
    obtain ⟨task, hn, hrun⟩ := h.running n ht
    rw [Service.taskState, hn, Option.map_some, hrun]
  have hstart : Gathers cfg R t M b inboxId mdef (s.startListing t inboxId mdef) := by
    refine ⟨_, ⟨h.act ho rfl, Function.update_self .., Nat.lt_succ_of_le hb, fun n ht => ?_⟩,
      rfl, rfl⟩
    subst ht
    obtain ⟨task, hn, _⟩ := h.running n rfl
    refine ⟨{ task with no := some (s.aux.started + 1) }, ?_, rfl⟩
    simp [Service.startListing, hn]
  rw [doSync]
  simp only [Coro.bind_eq, Coro.pure_eq, Coro.throw_eq, Coro.tryCatch_eq]
  refine perform_bind_wp ⟨ho, rfl⟩ ((Coro.wp_bind _ _).mpr ((Coro.wp_handle _ _).mpr ?_))
  refine Coro.wp_mono (fun _ s hs => ?_) (fun e s hs => ?_) (collect_keeps api _ hstart)
  · obtain ⟨l, hl, rfl, rfl⟩ := hs
    obtain ⟨snap, hpub, hlisted⟩ := hl.publish
    refine perform_bind_wp ⟨trivial, rfl⟩ ?_
    refine state_bind_wp ?_
    rw [show ((svcLogic cfg R W t).exec .publish s).published t = _ from hpub]
    exact hlisted
  · obtain ⟨l, hl, _⟩ := hs
    exact perform_bind_wp ⟨trivial, rfl⟩ (hl.toAt.act (p := .dropListing) trivial rfl)

/-! ## Waiting for a task -/

/-- The task `n` lists `key`, and under `F` its listing starts after `b` others. -/
structure Waits (cfg : Config) (R : Regime) (t : Tid) (M : Option Mutation × Nat) (F : Prop)
    (b : Nat) (key : Key) (n : Nat) (s : Service) : Prop extends At cfg R t M s where
  started : F → b ≤ s.aux.started
  task : ∃ task, s.tasks n = some task ∧ task.job.lists = some key ∧
    (F → ∀ no, task.no = some no → b < no)

/-- A listing in flight tagged with `gen` or later starts after `b` others. -/
structure Tagged (cfg : Config) (R : Regime) (t : Tid) (M : Option Mutation × Nat) (F : Prop)
    (b : Nat) (key : Key) (gen : Nat) (s : Service) : Prop extends At cfg R t M s where
  started : F → b ≤ s.aux.started
  reached : gen ≤ s.generation key
  tagged : F → ∀ n task, s.tasks n = some task → task.job.lists = some key →
    gen ≤ task.startedGen → ∀ no, task.no = some no → b < no

variable {F : Prop} {key : Key} {n gen : Nat}

theorem Waits.rely (h : Waits cfg R t M F b key n s) (hr : Rely cfg R t s s') :
    Waits cfg R t M F b key n s' := by
  obtain ⟨_, hev, _⟩ := hr h.inv
  obtain ⟨task, hn, hk, hno⟩ := h.task
  obtain ⟨task', hn', hjob, _, hno'⟩ := hev.tasks n task hn
  refine ⟨h.toAt.rely hr, fun hF => (h.started hF).trans hev.started, task', hn', hjob ▸ hk,
    fun hF no hsome => ?_⟩
  rcases hno' with hsame | ⟨no', hnew, hlt⟩
  · exact hno hF no (hsame ▸ hsome)
  · rw [hsome] at hnew
    cases hnew
    exact Nat.lt_of_le_of_lt (h.started hF) hlt

theorem Tagged.rely (h : Tagged cfg R t M F b key gen s) (hr : Rely cfg R t s s') :
    Tagged cfg R t M F b key gen s' := by
  obtain ⟨_, hev, _⟩ := hr h.inv
  refine ⟨h.toAt.rely hr, fun hF => (h.started hF).trans hev.started,
    h.reached.trans (hev.generation key), fun hF n task' hn' hk hgen no hno => ?_⟩
  cases hn : s.tasks n with
  | none => exact Nat.lt_of_le_of_lt (h.started hF) (hev.created n task' hn hn' no hno)
  | some task =>
    obtain ⟨task'', hn'', hjob, hgen', hno'⟩ := hev.tasks n task hn
    rw [hn'] at hn''
    cases hn''
    rcases hno' with hsame | ⟨no', hnew, hlt⟩
    · exact h.tagged hF n task hn (hjob ▸ hk) (hgen' ▸ hgen) no (hsame ▸ hno)
    · rw [hno] at hnew
      cases hnew
      exact Nat.lt_of_le_of_lt (h.started hF) hlt

/-- The result of a task is fresh. -/
theorem Waits.result (h : Waits cfg R t M F b key n s) {task : Task} {snap : Snapshot}
    (hn : s.tasks n = some task) (hstate : task.state = .finished (.ok snap)) :
    Fresh F b key snap s := by
  obtain ⟨task', hn', hk, hno⟩ := h.task
  rw [hn] at hn'
  cases hn'
  obtain ⟨hvalid, hkey, hlist⟩ := (h.inv.tasks n task hn).result snap hstate
  exact ⟨hvalid, (h.inv.tasks n task hn).shown snap hstate, hkey.trans (Job.key_of_lists hk),
    fun hF => hno hF _ (hlist key hk)⟩

/-- A task is waited for unless it is done. -/
theorem awaitTask_cases {L : Logic Service Act Req Req.Answer} {Q : Snapshot → Service → Prop}
    {E : Exc → Service → Prop}
    (hdone : ∀ r, s.taskState n = some (.finished r) →
      (Coro.ofExcept r : Svc Snapshot).wp L Q E s)
    (hask : (ask (.task n)).wp L Q E s) : (awaitTask n).wp L Q E s := by
  rw [awaitTask]
  simp only [Coro.bind_eq]
  refine state_bind_wp ?_
  cases hstate : s.taskState n with
  | none => exact hask
  | some state =>
    cases state with
    | queued => exact hask
    | running => exact hask
    | finished r => exact hdone r hstate

theorem awaitTask_wp (h : Waits cfg R t M F b key n s) :
    (awaitTask n).wp (svcLogic cfg R W t)
      (fun snap s => At cfg R t M s ∧ Fresh F b key snap s)
      (fun _ => Waits cfg R t M F b key n) s := by
  refine awaitTask_cases (fun r hr => ?_) ?_
  · obtain ⟨task, hn, hstate⟩ := Option.map_eq_some_iff.mp hr
    cases r with
    | ok snap => exact ⟨h.toAt, h.result hn hstate⟩
    | error e => exact h
  · refine ask_wp (q := .task n) nofun fun s' hr a hres _ _ => ?_
    have h' := h.rely hr
    cases a with
    | ok snap =>
      obtain ⟨task, hn, hstate⟩ := hres
      exact ⟨h'.toAt, h'.result hn hstate⟩
    | error e => exact h'

/-- Waiting keeps what the others keep. -/
theorem awaitTask_keeps {I : Service → Prop} (hrely : ∀ s s', I s → Rely cfg R t s s' → I s')
    (n : Nat) : Coro.Keeps (svcLogic cfg R W t) I (awaitTask n) := by
  intro s hs
  refine awaitTask_cases (fun r _ => ?_) ?_
  · exact Coro.Keeps.ofExcept _ s hs
  · exact ask_keeps (q := .task n) nofun hrely s hs

theorem waitOut_keeps {I : Service → Prop} (hrely : ∀ s s', I s → Rely cfg R t s s' → I s')
    (n : Nat) : Coro.Keeps (svcLogic cfg R W t) I (waitOut n) := by
  rw [waitOut]
  refine Coro.Keeps.handle ((awaitTask_keeps hrely n).bind fun _ => Coro.Keeps.ret _) fun e => ?_
  split
  · exact Coro.Keeps.raise _
  · exact Coro.Keeps.ret _

/-! ## `sync` -/

theorem launch_wp (api : Client) (h : Tagged cfg R t M F b (inboxId, mdef.name) gen s)
    (hmdef : mdef ∈ mailboxes) :
    (launch api inboxId mdef gen).wp (svcLogic cfg R W t)
      (fun snap s => At cfg R t M s ∧ Fresh F b (inboxId, mdef.name) snap s)
      (fun _ => At cfg R t M) s := by
  have ho : Owes cfg R t (.createTask (.listing api inboxId mdef) gen) s :=
    ⟨h.reached, fun _ _ _ he => by cases he; exact hmdef⟩
  have hwait : Waits cfg R t M F b (inboxId, mdef.name) s.nextTask
      ((Act.createTask (.listing api inboxId mdef) gen).exec cfg t s) :=
    ⟨h.toAt.act ho rfl, h.started, _, Function.update_self .., rfl, fun _ _ hno => by cases hno⟩
  rw [launch]
  simp only [Coro.bind_eq]
  refine state_bind_wp (perform_bind_wp ⟨ho, rfl⟩ ?_)
  exact Coro.wp_mono (fun _ _ hs => hs) (fun _ _ hs => hs.toAt) (awaitTask_wp hwait)

theorem join_wp (api : Client) {e : Inflight}
    (h : Waits cfg R t M F b (inboxId, mdef.name) e.task s) (hmdef : mdef ∈ mailboxes) :
    (join cfg t e api inboxId mdef).wp (svcLogic cfg R W t)
      (fun snap s => At cfg R t M s ∧ Fresh F b (inboxId, mdef.name) snap s)
      (fun _ => At cfg R t M) s := by
  rw [join]
  simp only [Coro.tryCatch_eq, Coro.throw_eq]
  refine (Coro.wp_handle _ _).mpr (Coro.wp_mono (fun _ _ hs => hs) (fun exc s hs => ?_)
    (awaitTask_wp h))
  split
  · split
    · exact hs.toAt
    · -- The listing is run again, and starts only now.
      have hb : (if s.aux.started < b then 0 else b) ≤ s.aux.started := by split <;> omega
      refine Coro.wp_mono (fun snap s' hs' => ⟨hs'.toAt, hs'.fresh.valid,
        hs'.fresh.shown, hs'.fresh.key_eq, fun hF => ?_⟩) (fun _ _ hs => hs) (doSync_wp api hs.toAt hb hmdef)
      have hlate := hs'.fresh.late trivial
      have := hs.started hF
      rw [if_neg (by omega)] at hlate
      exact hlate
  · exact hs.toAt

theorem syncMailbox_wp (api : Client) (force : Bool) (h : At cfg R t M s)
    (hforce : F → force = true) (hb : F → b ≤ s.aux.bumpedAt (inboxId, mdef.name))
    (hmdef : mdef ∈ mailboxes) :
    (syncMailbox cfg t api inboxId mdef force).wp (svcLogic cfg R W t)
      (fun snap s => At cfg R t M s ∧ Fresh F b (inboxId, mdef.name) snap s)
      (fun _ => At cfg R t M) s := by
  have htag : Tagged cfg R t M F b (inboxId, mdef.name) (s.generation (inboxId, mdef.name)) s := by
    refine ⟨h, fun hF => (hb hF).trans (h.inv.bumped _), Nat.le_refl _,
      fun hF n task hn hk hgen no hno => ?_⟩
    have hok := h.inv.tasks n task hn
    have htagged := hok.tagged
    rw [Job.key_of_lists hk] at htagged
    exact Nat.lt_of_le_of_lt (hb hF) (hok.barrier _ hk (by omega) no hno)
  rw [syncMailbox]
  simp only [Coro.bind_eq, Coro.pure_eq]
  refine state_bind_wp ?_
  split
  · rename_i snap hsnap
    split at hsnap
    · cases hsnap
    · rename_i hnot
      simp only [Service.fresh] at hsnap
      split at hsnap
      · rename_i latest hlatest
        split at hsnap
        · cases hsnap
          have hcur := h.inv.latest _ _ hlatest
          exact ⟨h, hcur.valid, h.inv.latestShown _ _ hlatest, hcur.key_eq,
            fun hF => absurd (hforce hF) hnot⟩
        · cases hsnap
      · cases hsnap
  · split
    · exact launch_wp api htag hmdef
    · rename_i e he
      obtain ⟨task, hn, hk, hgen⟩ := h.inv.inflight _ e he
      split
      · rename_i hjoin
        refine join_wp api ⟨h, htag.started, task, hn, hk, fun hF => ?_⟩ hmdef
        rcases hjoin with hle | hf
        · exact htag.tagged hF _ task hn hk (hgen ▸ hle)
        · rw [hforce hF] at hf
          cases hf
      · refine (Coro.wp_bind _ _).mpr (Coro.wp_mono (fun _ s' hs' => ?_) (fun _ _ hs => hs.toAt)
          (waitOut_keeps (fun _ _ hs hr => Tagged.rely hs hr) _ _ htag))
        refine state_bind_wp ?_
        split
        · rename_i e' he'
          split
          · rename_i hle
            obtain ⟨task', hn', hk', hgen'⟩ := hs'.inv.inflight _ e' he'
            exact join_wp api ⟨hs'.toAt, hs'.started, task', hn', hk',
              fun hF => hs'.tagged hF _ task' hn' hk' (hgen' ▸ hle)⟩ hmdef
          · exact launch_wp api hs' hmdef
        · exact launch_wp api hs' hmdef

theorem lookupMailbox_mem {name : String} (h : lookupMailbox name = some mdef) :
    mdef ∈ mailboxes := by
  rw [lookupMailbox] at h
  split at h
  · cases h
    exact List.mem_cons_self ..
  · exact List.mem_of_find?_eq_some h

theorem sync_wp (api : Client) (name : String) (force : Bool) (h : At cfg R t M s) :
    (sync cfg t api inboxId name force).wp (svcLogic cfg R W t)
      (fun snap s => At cfg R t M s ∧ (snap.Valid s.store ∧ snap.Shown s) ∧
        ∃ mdef, lookupMailbox name = some mdef ∧ snap.key = (inboxId, mdef.name))
      (fun _ => At cfg R t M) s := by
  rw [sync]
  split
  · exact h
  · rename_i mdef hmdef
    exact Coro.wp_mono (fun _ _ hs => ⟨hs.1, ⟨hs.2.valid, hs.2.shown⟩, mdef, hmdef, hs.2.key_eq⟩)
      (fun _ _ hs => hs) (syncMailbox_wp (F := False) (b := 0) api force h nofun nofun
        (lookupMailbox_mem hmdef))

/-- Where a coroutine stands between two calls of `sync(force=True)`. -/
def Stands (cfg : Config) (R : Regime) (t : Tid) (m : Option Mutation) (s : Service) : Prop :=
  ∃ since, At cfg R t (m, since) s

theorem Stands.rely {m : Option Mutation} (h : Stands cfg R t m s) (hr : Rely cfg R t s s') :
    Stands cfg R t m s' := by
  obtain ⟨since, h⟩ := h
  exact ⟨since, h.rely hr⟩

theorem Stands.act {m : Option Mutation} {p : Act} (h : Stands cfg R t m s) (ho : Owes cfg R t p s)
    (hp : p.plain = true) : Stands cfg R t m (p.exec cfg t s) := by
  obtain ⟨since, h⟩ := h
  exact ⟨since, h.act ho hp⟩

theorem syncForced_wp {m : Option Mutation} (api : Client) (name : String)
    (h : Stands cfg R t m s) :
    (syncForced cfg t api inboxId name).wp (svcLogic cfg R W t)
      (fun snap s => Stands cfg R t m s ∧ (snap.Valid s.store ∧ snap.Shown s) ∧
        ∃ mdef, lookupMailbox name = some mdef ∧ snap.key = (inboxId, mdef.name))
      (fun _ => Stands cfg R t m) s := by
  rw [syncForced]
  split
  · exact h
  · rename_i mdef hmdef
    simp only [Coro.bind_eq, Coro.pure_eq]
    obtain ⟨since, h⟩ := h
    have hcalled : At cfg R t (m, s.aux.promised (inboxId, mdef.name))
        ((Act.called (inboxId, mdef.name)).exec cfg t s) := by
      refine ⟨h.inv.step trivial, h.mutation, Function.update_self .., fun n ht => ?_⟩
      obtain ⟨task, hn, hrun⟩ := h.running n ht
      exact ⟨task, hn, hrun⟩
    refine perform_bind_wp ⟨trivial, rfl⟩ ((Coro.wp_bind _ _).mpr ?_)
    refine Coro.wp_mono (fun snap s' hs' => ?_) (fun _ _ hs => ⟨_, hs⟩)
      (syncMailbox_wp (F := R.gentle) api true hcalled (fun _ => rfl)
        (fun hB => h.inv.promised hB (inboxId, mdef.name)) (lookupMailbox_mem hmdef))
    obtain ⟨hat, hfresh⟩ := hs'
    have ho : Owes cfg R t (.returned (inboxId, mdef.name) snap) s' := by
      intro hB
      rw [hat.since]
      exact hfresh.late hB
    exact perform_bind_wp ⟨ho, rfl⟩
      ⟨⟨_, hat.act ho rfl⟩, ⟨hfresh.valid, hfresh.shown⟩, mdef, hmdef, hfresh.key_eq⟩

end Mailbox
end ImapGateway
