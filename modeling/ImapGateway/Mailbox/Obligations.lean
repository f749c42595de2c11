/-
The invariant of the service, and what an action owes it.

`Owes` is the condition on an action under which it keeps the invariant and
under which a history of the service can be trusted: the items it works on have
been shown, and the octets it stores or hands out have a source.  It looks at
the action, the state it is performed in and the own records of the coroutine,
so each coroutine can meet it without looking at the others.  What these may do
to the state meanwhile is `Evolve`, and what they leave alone of the own state
of a coroutine is `Spares`.
-/
import ImapGateway.Mailbox.Invariant
import ImapGateway.Mailbox.Mutate

namespace ImapGateway
namespace Mailbox

variable {cfg : Config}

/-- The mailbox a task lists. -/
def Job.lists : Job → Option Key
  | listing _ inboxId mdef => some (inboxId, mdef.name)
  | resync _ _ => none

theorem Job.key_of_lists {job : Job} {key : Key} (h : job.lists = some key) : job.key = key := by
  cases job with
  | listing _ _ _ => exact Option.some.inj h
  | resync _ _ => cases h

/-! ## Items -/

/-- One item, whatever its flags and labels. -/
structure Item.Same (a b : Item) : Prop where
  uid : a.uid = b.uid
  remoteKey : a.remoteKey = b.remoteKey
  remoteId : a.remoteId = b.remoteId
  internaldate : a.internaldate = b.internaldate

theorem Item.Same.refl (a : Item) : a.Same a := ⟨rfl, rfl, rfl, rfl⟩

theorem Item.Same.trans {a b c : Item} (h : a.Same b) (h' : b.Same c) : a.Same c :=
  ⟨h.1.trans h'.1, h.2.trans h'.2, h.3.trans h'.3, h.4.trans h'.4⟩

theorem Service.flaggedItem_same (item : Item) (labels : Labels) :
    item.Same (Service.flaggedItem item labels) := ⟨rfl, rfl, rfl, rfl⟩

/-- The item has been shown in the mailbox. -/
def Service.HasShown (s : Service) (key : Key) (item : Item) : Prop :=
  ∃ x ∈ s.aux.shown, x.1 = key ∧ x.2.Same item

/-- The item has been shown in a view of the inbox. -/
structure Service.Knows (s : Service) (inboxId : String) (mdef : MailboxDef) (item : Item) :
    Prop where
  known : mdef ∈ mailboxes
  shown : s.HasShown (inboxId, mdef.name) item

/-- Every item of the snapshot has been shown in its mailbox. -/
def Snapshot.Shown (snap : Snapshot) (s : Service) : Prop :=
  ∀ item ∈ snap.items, s.HasShown snap.key item

/-! ## The invariant -/

/-- A task: its listing is tagged with a generation its mailbox has reached, and a
listing of the current generation started after the last bump.  A snapshot it
has ended with is valid, has been shown and is, for a listing, the one its listing
published. -/
structure Task.Ok (s : Service) (n : Nat) (task : Task) : Prop where
  old : n < s.nextTask
  known : ∀ api inboxId mdef, task.job = .listing api inboxId mdef → mdef ∈ mailboxes
  tagged : task.startedGen ≤ s.generation task.job.key
  barrier : ∀ key, task.job.lists = some key → task.startedGen = s.generation key →
    ∀ no, task.no = some no → s.aux.bumpedAt key < no
  result : ∀ snap, task.state = .finished (.ok snap) → snap.Valid s.store ∧
    snap.key = task.job.key ∧ ∀ key, task.job.lists = some key → task.no = some snap.listing
  shown : ∀ snap, task.state = .finished (.ok snap) → snap.Shown s

/-- What is assumed of the answers.  A gentle one does not cut a mutation short, and
an honest one to a PATCH carries the labels the PATCH left. -/
structure Regime where
  gentle : Prop
  honest : Prop

/-- The invariant of the service.  If answers are gentle, no mutation has ended
with a write its mailboxes have not been bumped for. -/
structure Inv (cfg : Config) (R : Regime) (s : Service) : Prop where
  store : s.store.Ok
  pins : ∀ key, PinsOk (s.pinned key)
  listings : ∀ t l, s.listings t = some l → l.Ok cfg
  latest : ∀ key snap, s.latest key = some snap → snap.Current s.store key
  latestShown : ∀ key snap, s.latest key = some snap → snap.Shown s
  tasks : ∀ n task, s.tasks n = some task → task.Ok s n
  inflight : ∀ key e, s.inflight key = some e →
    ∃ task, s.tasks e.task = some task ∧ task.job.lists = some key ∧ task.startedGen = e.startedGen
  bumped : ∀ key, s.aux.bumpedAt key ≤ s.aux.started
  promised : R.gentle → ∀ key, s.aux.promised key ≤ s.aux.bumpedAt key

/-! ## What an action owes -/

/-- Octets are stored under a key: downloaded for the item that names it and
reported, rendered for the draft that does, or a size that has been reported. -/
inductive Puts (cfg : Config) (t : Tid) (s : Service) : String → Bytes → Prop
  | raw (inboxId : String) (mdef : MailboxDef) (item : Item) (n : Nat) (data : Bytes)
      (kind : mdef.kind = .messages) (known : s.Knows inboxId mdef item)
      (source : s.aux.source t = some (.raw inboxId item.remoteId n data))
      (reported : data.length ∈ s.aux.reported (inboxId, item.remoteKey)) :
      Puts cfg t s (ckey inboxId "body" item.remoteKey) data
  | size (inboxId : String) (mdef : MailboxDef) (item : Item) (n : Nat)
      (kind : mdef.kind = .messages) (known : s.Knows inboxId mdef item)
      (reported : n ∈ s.aux.reported (inboxId, item.remoteKey)) :
      Puts cfg t s (ckey inboxId "size" item.remoteKey) (sizeText n)
  | version (inboxId draftId updatedAt : String) (data : Bytes)
      (source : s.aux.source t = some (.draft inboxId draftId data)) :
      Puts cfg t s (ckey inboxId "draftv" (draftId ++ ":" ++ updatedAt)) data
  | draft (inboxId : String) (mdef : MailboxDef) (item : Item) (data : Bytes)
      (kind : mdef.kind = .drafts) (known : s.Knows inboxId mdef item)
      (source : s.aux.source t = some (.draft inboxId item.remoteId data))
      (key : contentKey cfg item.remoteId data = item.remoteKey) :
      Puts cfg t s (ckey inboxId "body" item.remoteKey) data

/-- Where the octets handed out for an item come from. -/
inductive Serves (cfg : Config) (t : Tid) (s : Service) (inboxId : String) (mdef : MailboxDef)
    (item : Item) (data : Bytes) : Prop
  | cached (found : s.cache.find (ckey inboxId "body" item.remoteKey) = some data)
  | raw (kind : mdef.kind = .messages) (n : Nat) (r : Option Nat)
      (source : s.aux.source t = some (.raw inboxId item.remoteId n data))
      (recalled : s.aux.recalled t = some (inboxId, item.remoteKey, r))
      (agrees : ∀ v, r = some v → v = data.length)
  | draft (kind : mdef.kind = .drafts)
      (source : s.aux.source t = some (.draft inboxId item.remoteId data))
      (key : contentKey cfg item.remoteId data = item.remoteKey)

/-- Where the size reported for an item comes from. -/
inductive Sizes (t : Tid) (s : Service) (inboxId : String) (mdef : MailboxDef) (item : Item)
    (n : Nat) : Prop
  | cached (data : Bytes) (found : s.cache.find (ckey inboxId "body" item.remoteKey) = some data)
      (length : n = data.length)
  | asked (kind : mdef.kind = .messages) (r : Option Nat)
      (recalled : s.aux.recalled t = some (inboxId, item.remoteKey, r))
      (agrees : ∀ v, r = some v → v = n)

/-- The rendering of a draft is in the cache under the version listed, or has just
come from upstream. -/
def Renders (t : Tid) (s : Service) (inboxId : String) (d : DraftJson) (rendered : Bytes) : Prop :=
  s.aux.source t = some (.draft inboxId (orEmpty d.draftId) rendered) ∨
    s.cache.find (ckey inboxId "draftv" (orEmpty d.draftId ++ ":" ++ orEmpty d.updatedAt)) =
      some rendered

/-- The message is known, and the answer to its PATCH is about it. -/
structure Commits (R : Regime) (t : Tid) (s : Service) (inboxId : String) (item : Item)
    (add remove : List String) (result : PatchResult) : Prop where
  known : ∃ mdef, mdef.kind = .messages ∧ s.Knows inboxId mdef item
  answered : R.honest → ∃ n labels, labelSet result.labels = labels ∧
    s.aux.patches t = some ⟨inboxId, item.remoteId, add, remove, some (n, labels)⟩

/-- What coroutine `t` owes when it performs an action. -/
def Owes (cfg : Config) (R : Regime) (t : Tid) (p : Act) (s : Service) : Prop :=
  match p with
  | .createTask job gen => gen ≤ s.generation job.key ∧
    ∀ api inboxId mdef, job = .listing api inboxId mdef → mdef ∈ mailboxes
  | .beginTask n => t = .task n ∧ s.taskState n = some .queued
  | .finishTask n r => t = .task n ∧ s.taskState n = some .running ∧ ∀ snap, r = .ok snap →
    (snap.Valid s.store ∧ snap.Shown s) ∧ ∀ task, s.tasks n = some task → snap.key = task.job.key ∧
      ∀ key, task.job.lists = some key → task.no = some snap.listing
  | .startListing _ mdef => mdef ∈ mailboxes ∧ ∀ n, t = .task n → s.taskState n = some .running
  | .collectMessage _ => ∀ l, s.listings t = some l → l.mdef.kind = .messages
  | .collectDraft d rendered => ∀ l, s.listings t = some l → (l.mdef.kind = .drafts ∧
    orEmpty d.draftId ∈ l.seen ∧ orEmpty d.draftId ∉ l.entries.map (·.remoteId)) ∧
      Renders t s l.inboxId d rendered
  | .cachePut key data => Puts cfg t s key data
  | .appendCommit inboxId created rendered =>
    s.aux.source t = some (.draft inboxId (orEmpty created.draftId) rendered)
  | .copyItem inboxId item result => Commits R t s inboxId item ["trash"] [] result ∧
    ∀ x ∈ s.copied t, x.2 < s.store.nextUid inboxId trash.name
  | .setFlagCommit key item add remove result =>
    (∃ mdef, mdef.name = key.2 ∧ s.Knows key.1 mdef item) ∧
      Commits R t s key.1 item add remove result
  | .expungeCommit inboxId item result => Commits R t s inboxId item ["trash"] [] result
  | .endMutation => R.gentle → ∀ m, s.aux.mutations t = some m → ∀ w, m.wrote = some w →
    ∀ key ∈ m.keys, w ≤ s.aux.bumpedAt key
  | .returned _ snap => R.gentle → s.aux.since t < snap.listing
  | .sendPatch p => p.applied = none
  | .obtained (.raw _ _ n data) => data.length = n
  | .obtained (.draft inboxId _ data) => ∃ d, cfg.renderDraft d inboxId = some data
  | .recalled inboxId remoteKey r =>
    r = (s.cache.find (ckey inboxId "size" remoteKey)).map sizeOfText
  | .served inboxId mdef item data =>
    s.Knows inboxId mdef item ∧ Serves cfg t s inboxId mdef item data
  | .sized inboxId mdef item n => s.Knows inboxId mdef item ∧ Sizes t s inboxId mdef item n
  | _ => True

/-! ## What the others do -/

/-- What any action may do to the state. -/
structure Evolve (s s' : Service) : Prop where
  store : s.store.Grows s'.store
  started : s.aux.started ≤ s'.aux.started
  bumped : ∀ key, s.aux.bumpedAt key ≤ s'.aux.bumpedAt key
  generation : ∀ key, s.generation key ≤ s'.generation key
  tasks : ∀ n task, s.tasks n = some task → ∃ task', s'.tasks n = some task' ∧
    task'.job = task.job ∧ task'.startedGen = task.startedGen ∧
    (task'.no = task.no ∨ ∃ no, task'.no = some no ∧ s.aux.started < no)
  created : ∀ n task', s.tasks n = none → s'.tasks n = some task' →
    ∀ no, task'.no = some no → s.aux.started < no
  shown : ∀ x ∈ s.aux.shown, x ∈ s'.aux.shown

/-- What was asked of a PATCH. -/
def Patch.asked (p : Patch) : Patch := { p with applied := none }

/-- What the others leave alone of the own state of coroutine `t`. -/
structure Spares (t : Tid) (s s' : Service) : Prop where
  listings : s'.listings t = s.listings t
  published : s'.published t = s.published t
  copied : s'.copied t = s.copied t
  since : s'.aux.since t = s.aux.since t
  mutations : s'.aux.mutations t = s.aux.mutations t
  source : s'.aux.source t = s.aux.source t
  recalled : s'.aux.recalled t = s.aux.recalled t
  patch : (s'.aux.patches t).map Patch.asked = (s.aux.patches t).map Patch.asked
  running : ∀ n task, t = .task n → s.tasks n = some task → task.state = .running →
    s'.tasks n = some task

theorem Evolve.refl (s : Service) : Evolve s s where
  store := .refl _
  started := Nat.le_refl _
  bumped _ := Nat.le_refl _
  generation _ := Nat.le_refl _
  tasks _ task h := ⟨task, h, rfl, rfl, .inl rfl⟩
  created _ _ h h' := by rw [h] at h'; cases h'
  shown _ h := h

theorem Evolve.trans {s₁ s₂ s₃ : Service} (h : Evolve s₁ s₂) (h' : Evolve s₂ s₃) :
    Evolve s₁ s₃ where
  store := h.store.trans h'.store
  started := h.started.trans h'.started
  bumped key := (h.bumped key).trans (h'.bumped key)
  generation key := (h.generation key).trans (h'.generation key)
  tasks n task ht := by
    obtain ⟨task₂, ht₂, hjob, hgen, hno⟩ := h.tasks n task ht
    obtain ⟨task₃, ht₃, hjob', hgen', hno'⟩ := h'.tasks n task₂ ht₂
    refine ⟨task₃, ht₃, hjob'.trans hjob, hgen'.trans hgen, ?_⟩
    rcases hno' with hno' | ⟨no, hno', hlt⟩
    · rw [hno']
      exact hno
    · exact .inr ⟨no, hno', Nat.lt_of_le_of_lt h.started hlt⟩
  created n task' hn ht no hno := by
    cases h₂ : s₂.tasks n with
    | none => exact Nat.lt_of_le_of_lt h.started (h'.created n task' h₂ ht no hno)
    | some task₂ =>
      obtain ⟨task₃, ht₃, _, _, hno₃⟩ := h'.tasks n task₂ h₂
      rw [ht] at ht₃
      cases ht₃
      rcases hno₃ with hsame | ⟨no', hno', hlt⟩
      · exact h.created n task₂ hn h₂ no (hsame ▸ hno)
      · rw [hno] at hno'
        cases hno'
        exact Nat.lt_of_le_of_lt h.started hlt
  shown x hx := h'.shown x (h.shown x hx)

theorem Evolve.hasShown {s s' : Service} (h : Evolve s s') {key : Key} {item : Item}
    (hs : s.HasShown key item) : s'.HasShown key item := by
  obtain ⟨x, hx, hkey, hsame⟩ := hs
  exact ⟨x, h.shown x hx, hkey, hsame⟩

theorem Evolve.knows {s s' : Service} (h : Evolve s s') {inboxId : String} {mdef : MailboxDef}
    {item : Item} (hs : s.Knows inboxId mdef item) : s'.Knows inboxId mdef item :=
  ⟨hs.known, h.hasShown hs.shown⟩

theorem Evolve.snapshotShown {s s' : Service} (h : Evolve s s') {snap : Snapshot}
    (hs : snap.Shown s) : snap.Shown s' := fun item hitem => h.hasShown (hs item hitem)

/-- What is known depends only on what has been shown. -/
theorem Service.Knows.congr {s s' : Service} {inboxId : String} {mdef : MailboxDef} {item : Item}
    (h : s.Knows inboxId mdef item) (hs : s'.aux.shown = s.aux.shown) :
    s'.Knows inboxId mdef item := by
  obtain ⟨hknown, x, hx, hrest⟩ := h
  exact ⟨hknown, x, hs ▸ hx, hrest⟩

theorem Service.Knows.same {s : Service} {inboxId : String} {mdef : MailboxDef} {item item' : Item}
    (h : s.Knows inboxId mdef item) (hsame : item.Same item') : s.Knows inboxId mdef item' := by
  obtain ⟨hknown, x, hx, hkey, hitem⟩ := h
  exact ⟨hknown, x, hx, hkey, hitem.trans hsame⟩

theorem Spares.refl (t : Tid) (s : Service) : Spares t s s :=
  ⟨rfl, rfl, rfl, rfl, rfl, rfl, rfl, rfl, fun _ _ _ h _ => h⟩

theorem Spares.trans {t : Tid} {s₁ s₂ s₃ : Service} (h : Spares t s₁ s₂) (h' : Spares t s₂ s₃) :
    Spares t s₁ s₃ where
  listings := h'.listings.trans h.listings
  published := h'.published.trans h.published
  copied := h'.copied.trans h.copied
  since := h'.since.trans h.since
  mutations := h'.mutations.trans h.mutations
  source := h'.source.trans h.source
  recalled := h'.recalled.trans h.recalled
  patch := h'.patch.trans h.patch
  running n task ht hn hrun := h'.running n task ht (h.running n task ht hn hrun) hrun

end Mailbox
end ImapGateway
