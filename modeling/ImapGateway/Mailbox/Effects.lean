/-
What each action does to the parts of the state, whoever performs it.

One lemma for each part says which actions touch it and how, so that nothing
above has to take the actions apart again.
-/
import ImapGateway.Mailbox.Obligations

namespace ImapGateway
namespace Mailbox

variable {cfg : Config}

/-! ## The schedule -/

/-- The actions that touch tasks, generations or the counts of listings. -/
def Act.schedules : Act → Bool
  | createTask _ _ | beginTask _ | finishTask _ _ | reap _ | startListing _ _ | bump _
  | endMutation => true
  | _ => false

structure SameSchedule (s s' : Service) : Prop where
  tasks : s'.tasks = s.tasks
  nextTask : s'.nextTask = s.nextTask
  inflight : s'.inflight = s.inflight
  generation : s'.generation = s.generation
  started : s'.aux.started = s.aux.started
  bumpedAt : s'.aux.bumpedAt = s.aux.bumpedAt
  promised : s'.aux.promised = s.aux.promised

theorem SameSchedule.trans {s₁ s₂ s₃ : Service} (h : SameSchedule s₁ s₂) (h' : SameSchedule s₂ s₃) :
    SameSchedule s₁ s₃ :=
  ⟨h'.1.trans h.1, h'.2.trans h.2, h'.3.trans h.3, h'.4.trans h.4, h'.5.trans h.5, h'.6.trans h.6,
    h'.7.trans h.7⟩

variable {s : Service} {t : Tid} {p : Act} 

theorem Service.settlePatch_schedule (s : Service) (t : Tid) :
    SameSchedule s (s.settlePatch t) := by
  rw [Service.settlePatch]
  split <;> exact ⟨rfl, rfl, rfl, rfl, rfl, rfl, rfl⟩

theorem Act.exec_schedule (cfg : Config) (t : Tid) (h : s.store.Ok) (hp : p.schedules = false) :
    SameSchedule s (p.exec cfg t s) := by
  cases p with
  | publish =>
    cases hl : s.listings t with
    | none =>
      rw [Act.exec, Service.publish_none hl]
      exact ⟨rfl, rfl, rfl, rfl, rfl, rfl, rfl⟩
    | some l =>
      obtain ⟨store, watermark, v, _, heq⟩ := Service.publish_eq h hl
      rw [Act.exec, heq]
      exact ⟨rfl, rfl, rfl, rfl, rfl, rfl, rfl⟩
  | collectMessage m =>
    rcases Service.collectMessage_cases cfg s t m with heq | ⟨l, _, _, heq⟩ <;> rw [Act.exec, heq] <;>
      exact ⟨rfl, rfl, rfl, rfl, rfl, rfl, rfl⟩
  | collectDraft d rendered =>
    simp only [Act.exec, Service.collectDraft]
    split <;> exact ⟨rfl, rfl, rfl, rfl, rfl, rfl, rfl⟩
  | copyItem inboxId item result =>
    have hcopy : SameSchedule s (s.copyItem t inboxId item result) :=
      ⟨rfl, rfl, rfl, rfl, rfl, rfl, rfl⟩
    exact hcopy.trans (Service.settlePatch_schedule _ t)
  | setFlagCommit key item add remove result =>
    have hset : SameSchedule s (s.setFlagCommit key item add remove result) := by
      simp only [Service.setFlagCommit, Service.replaceItem]
      split <;> (try split) <;> exact ⟨rfl, rfl, rfl, rfl, rfl, rfl, rfl⟩
    exact hset.trans (Service.settlePatch_schedule _ t)
  | expungeCommit inboxId item result =>
    have hcommit : SameSchedule s (s.expungeCommit inboxId item result) :=
      ⟨rfl, rfl, rfl, rfl, rfl, rfl, rfl⟩
    exact hcommit.trans (Service.settlePatch_schedule _ t)
  | applyPatch =>
    simp only [Act.exec, Service.applyPatch]
    split <;> exact ⟨rfl, rfl, rfl, rfl, rfl, rfl, rfl⟩
  | createTask | beginTask | finishTask | reap | startListing | bump | endMutation => cases hp
  | _ => exact ⟨rfl, rfl, rfl, rfl, rfl, rfl, rfl⟩

/-! ## Growth -/

theorem UidStep.grows {s' : Service} (h : UidStep s s' t p) : s.store.Grows s'.store := by
  cases h with
  | publish _ _ _ hrec _ => exact hrec.grows
  | pin _ _ _ hal _ _ => exact hal.grows
  | unpin _ _ _ hstore _ => exact hstore ▸ .refl _
  | quiet hstore _ => exact Store.Db.SameLive.grows hstore

/-- Only a publication takes live UIDs away, and only from its own mailbox. -/
theorem UidStep.kept {s' : Service} (h : UidStep s s' t p) {key : Key}
    (hp : ∀ l, p = .publish → s.listings t = some l → l.key ≠ key) {k : String} {u : Nat}
    (hu : s.store.liveUid key.1 key.2 k = some u) : s'.store.liveUid key.1 key.2 k = some u := by
  cases h with
  | publish l hpub hl hrec _ =>
    exact ((hrec.others _ _ fun hx => hp l hpub hl (Prod.ext hx.1.symm hx.2.symm)).1 k).trans hu
  | pin key' _ _ hal _ _ =>
    by_cases he : key = key'
    · subst he
      exact hal.kept k u hu
    · exact ((hal.others _ _ fun hx => he (Prod.ext hx.1 hx.2)).1 k).trans hu
  | unpin _ _ _ hstore _ => rw [hstore, hu]
  | quiet hstore _ => exact ((hstore _ _).1 k).trans hu

/-- Where a task of the next state comes from: it was there, perhaps in another
state or before its listing started, or it is created here. -/
inductive TaskFrom (s : Service) (t : Tid) (p : Act) (n : Nat) (task' : Task) : Prop
  | kept (task : Task) (ht : s.tasks n = some task) (job : task'.job = task.job)
      (gen : task'.startedGen = task.startedGen)
      (no : task'.no = task.no ∨
        ∃ i m, p = .startListing i m ∧ t = .task n ∧ task'.no = some (s.aux.started + 1))
      (state : task'.state = task.state ∨ (p = .beginTask n ∧ task'.state = .running) ∨
        ∃ r, p = .finishTask n r ∧ task'.state = .finished r)
  | created (job : Job) (gen : Nat) (hp : p = .createTask job gen) (hn : n = s.nextTask)
      (heq : task' = ⟨job, .queued, false, gen, none⟩)

theorem Act.exec_taskFrom (cfg : Config) (h : s.store.Ok) {n : Nat} {task' : Task}
    (ht : (p.exec cfg t s).tasks n = some task') : TaskFrom s t p n task' := by
  by_cases hp : p.schedules = false
  · rw [(Act.exec_schedule cfg t h hp).tasks] at ht
    exact .kept task' ht rfl rfl (.inl rfl) (.inl rfl)
  cases p with
  | createTask job gen =>
    rcases update_some (show Function.update s.tasks s.nextTask _ n = some task' from ht) with
      ⟨hn, he⟩ | ⟨_, ht⟩
    · exact .created job gen rfl hn (Option.some.inj he).symm
    · exact .kept task' ht rfl rfl (.inl rfl) (.inl rfl)
  | beginTask m =>
    rcases update_some (show Function.update s.tasks m _ n = some task' from ht) with
      ⟨rfl, he⟩ | ⟨_, ht⟩
    · obtain ⟨task, ht₀, rfl⟩ := Option.map_eq_some_iff.mp he
      exact .kept task ht₀ rfl rfl (.inl rfl) (.inr (.inl ⟨rfl, rfl⟩))
    · exact .kept task' ht rfl rfl (.inl rfl) (.inl rfl)
  | finishTask m r =>
    rcases update_some (show Function.update s.tasks m _ n = some task' from ht) with
      ⟨rfl, he⟩ | ⟨_, ht⟩
    · obtain ⟨task, ht₀, rfl⟩ := Option.map_eq_some_iff.mp he
      exact .kept task ht₀ rfl rfl (.inl rfl) (.inr (.inr ⟨r, rfl, rfl⟩))
    · exact .kept task' ht rfl rfl (.inl rfl) (.inl rfl)
  | reap m =>
    simp only [Act.exec, Service.reap] at ht
    split at ht
    · rename_i job r gen no hm
      rcases update_some ht with ⟨rfl, he⟩ | ⟨_, ht⟩
      · cases he
        exact .kept _ hm rfl rfl (.inl rfl) (.inl rfl)
      · exact .kept task' ht rfl rfl (.inl rfl) (.inl rfl)
    · exact .kept task' ht rfl rfl (.inl rfl) (.inl rfl)
  | startListing i m =>
    cases t with
    | conn c => exact .kept task' ht rfl rfl (.inl rfl) (.inl rfl)
    | task c =>
      rcases update_some (show Function.update s.tasks c _ n = some task' from ht) with
        ⟨rfl, he⟩ | ⟨_, ht⟩
      · obtain ⟨task, ht₀, rfl⟩ := Option.map_eq_some_iff.mp he
        exact .kept task ht₀ rfl rfl (.inr ⟨i, m, rfl, rfl, rfl⟩) (.inl rfl)
      · exact .kept task' ht rfl rfl (.inl rfl) (.inl rfl)
  | bump key => exact .kept task' ht rfl rfl (.inl rfl) (.inl rfl)
  | endMutation => exact .kept task' ht rfl rfl (.inl rfl) (.inl rfl)
  | _ => exact absurd rfl hp

theorem update_ne_none {α β : Type} [DecidableEq α] {f : α → Option β} {a b : α} {v : Option β}
    (hv : v ≠ none) (hb : f b ≠ none) : Function.update f a v b ≠ none := by
  by_cases h : b = a
  · subst h
    rwa [Function.update_self]
  · rwa [Function.update_of_ne h]

/-- A task stays a task. -/
theorem Act.exec_tasks_ne_none (cfg : Config) (h : s.store.Ok) {n : Nat} (ht : s.tasks n ≠ none) :
    (p.exec cfg t s).tasks n ≠ none := by
  by_cases hp : p.schedules = false
  · rwa [(Act.exec_schedule cfg t h hp).tasks]
  have hmap : ∀ m (f : Task → Task), Function.update s.tasks m ((s.tasks m).map f) n ≠ none := by
    intro m f
    by_cases hm : n = m
    · subst hm
      simpa using ht
    · rwa [Function.update_of_ne hm]
  cases p with
  | createTask job gen => exact update_ne_none (by simp) ht
  | beginTask m => exact hmap m _
  | finishTask m r => exact hmap m _
  | reap m =>
    simp only [Act.exec, Service.reap]
    split
    · exact update_ne_none (by simp) ht
    · exact ht
  | startListing i m =>
    cases t with
    | conn c => exact ht
    | task c => exact hmap c _
  | bump key => exact ht
  | endMutation => exact ht
  | _ => exact absurd rfl hp

theorem Act.exec_started_le (cfg : Config) (t : Tid) (p : Act) (h : s.store.Ok) :
    s.aux.started ≤ (p.exec cfg t s).aux.started :=
  (Act.exec_listingStep cfg t p h).started_le
/-- A generation and the count at its last bump stay, or the generation grows. -/
theorem Act.exec_generation (cfg : Config) (h : s.store.Ok) (key : Key) :
    ((p.exec cfg t s).generation key = s.generation key ∧
      (p.exec cfg t s).aux.bumpedAt key = s.aux.bumpedAt key) ∨
    (p = .bump key ∧ (p.exec cfg t s).generation key = s.generation key + 1 ∧
      (p.exec cfg t s).aux.bumpedAt key = s.aux.started) := by
  by_cases hp : p.schedules = false
  · have hsame := Act.exec_schedule cfg t h hp
    exact .inl ⟨congrFun hsame.generation key, congrFun hsame.bumpedAt key⟩
  cases p with
  | bump key' =>
    by_cases hk : key = key'
    · subst hk
      exact .inr ⟨rfl, Function.update_self .., Function.update_self ..⟩
    · exact .inl ⟨Function.update_of_ne hk .., Function.update_of_ne hk ..⟩
  | reap m =>
    simp only [Act.exec, Service.reap]
    split <;> exact .inl ⟨rfl, rfl⟩
  | createTask | beginTask | finishTask | startListing | endMutation => exact .inl ⟨rfl, rfl⟩
  | _ => exact absurd rfl hp

theorem Act.exec_nextTask (cfg : Config) (h : s.store.Ok) :
    s.nextTask ≤ (p.exec cfg t s).nextTask ∧
      ((∃ job gen, p = .createTask job gen) → (p.exec cfg t s).nextTask = s.nextTask + 1) := by
  by_cases hp : p.schedules = false
  · refine ⟨(Act.exec_schedule cfg t h hp).nextTask.ge, ?_⟩
    rintro ⟨_, _, rfl⟩
    cases hp
  cases p with
  | createTask job gen => exact ⟨Nat.le_succ _, fun _ => rfl⟩
  | reap m =>
    simp only [Act.exec, Service.reap]
    split <;> exact ⟨Nat.le_refl _, (by simp)⟩
  | beginTask | finishTask | startListing | bump | endMutation => exact ⟨Nat.le_refl _, (by simp)⟩
  | _ => exact absurd rfl hp

/-! ## Snapshots -/


/-- The item a change of flags puts in its place. -/
def Act.replaces (p : Act) (key : Key) (item' : Item) : Prop :=
  ∃ item add remove result, p = .setFlagCommit key item add remove result ∧
    item' = Service.flaggedItem item (Service.flaggedLabels item add remove result)

/-- Where a latest snapshot comes from: it was the latest, perhaps with an item
replaced by one of its UID, or a listing publishes it here. -/
inductive LatestFrom (s s' : Service) (t : Tid) (p : Act) (key : Key) (snap' : Snapshot) : Prop
  | kept (snap : Snapshot) (hs : s.latest key = some snap) (uids : snap'.uids = snap.uids)
      (uidnext : snap'.uidnext = snap.uidnext) (key_eq : snap'.key = snap.key)
      (items : ∀ item' ∈ snap'.items, item' ∈ snap.items ∨ p.replaces key item')
      (hp : ∀ l, p = .publish → s.listings t = some l → l.key ≠ key)
  | published (l : Listing) (v : Nat) (hp : p = .publish) (hl : s.listings t = some l)
      (hk : l.key = key) (heq : snap' = s.publication l s'.store v)

theorem Act.exec_latest (cfg : Config) (h : s.store.Ok) {key : Key} {snap' : Snapshot}
    (hs : (p.exec cfg t s).latest key = some snap') :
    LatestFrom s (p.exec cfg t s) t p key snap' := by
  have same : p ≠ .publish → (p.exec cfg t s).latest = s.latest →
      LatestFrom s (p.exec cfg t s) t p key snap' := fun hp hl =>
    .kept snap' (hl ▸ hs) rfl rfl rfl (fun _ hi => .inl hi) fun _ he => absurd he hp
  cases p with
  | publish =>
    cases hl : s.listings t with
    | none =>
      rw [Act.exec, Service.publish_none hl] at hs
      exact .kept snap' hs rfl rfl rfl (fun _ hi => .inl hi) fun _ _ he => by rw [hl] at he; cases he
    | some l =>
      obtain ⟨store, watermark, v, _, heq⟩ := Service.publish_eq h hl
      rw [Act.exec, heq] at hs ⊢
      by_cases hk : key = l.key
      · subst hk
        simp only [Function.update_self] at hs
        exact .published l v rfl hl rfl (Option.some.inj hs).symm
      · simp only [Function.update_of_ne hk] at hs
        refine .kept snap' hs rfl rfl rfl (fun _ hi => .inl hi) fun l' _ he => ?_
        rw [hl] at he
        cases he
        exact Ne.symm hk
  | setFlagCommit key' item add remove result =>
    obtain ⟨aux, haux⟩ := Service.settlePatch_eq (s.setFlagCommit key' item add remove result) t
    rw [Act.exec, haux] at hs
    simp only [Service.setFlagCommit, Service.replaceItem] at hs
    have hsame : s.latest key = some snap' →
        LatestFrom s ((Act.setFlagCommit key' item add remove result).exec cfg t s) t
          (.setFlagCommit key' item add remove result) key snap' := fun hl =>
      .kept snap' hl rfl rfl rfl (fun _ hi => .inl hi) fun _ he => by cases he
    split at hs
    · exact hsame hs
    · rename_i snap hsnap
      split at hs
      · exact hsame hs
      · rcases update_some hs with ⟨rfl, he⟩ | ⟨_, hs⟩
        · cases he
          refine .kept snap hsnap ?_ rfl rfl (fun item' hitem' => ?_) fun _ he => by cases he
          · simp only [Snapshot.uids, List.map_map]
            refine List.map_congr_left fun i _ => ?_
            simp only [Function.comp]
            split
            · rename_i hi
              exact hi.symm
            · rfl
          · obtain ⟨i, hi, rfl⟩ := List.mem_map.mp hitem'
            split
            · exact .inr ⟨item, add, remove, result, rfl, rfl⟩
            · exact .inl hi
        · exact hsame hs
  | collectMessage m =>
    refine same (by simp) ?_
    rcases Service.collectMessage_cases cfg s t m with heq | ⟨l, _, _, heq⟩ <;> rw [Act.exec, heq]
  | collectDraft d rendered =>
    refine same (by simp) ?_
    simp only [Act.exec, Service.collectDraft]
    split <;> rfl
  | copyItem inboxId item result =>
    obtain ⟨aux, haux⟩ := Service.settlePatch_eq (s.copyItem t inboxId item result) t
    exact same (by simp) (by rw [Act.exec, haux]; rfl)
  | expungeCommit inboxId item result =>
    obtain ⟨aux, haux⟩ := Service.settlePatch_eq (s.expungeCommit inboxId item result) t
    exact same (by simp) (by rw [Act.exec, haux]; rfl)
  | reap n =>
    refine same (by simp) ?_
    simp only [Act.exec, Service.reap]
    split <;> rfl
  | applyPatch =>
    refine same (by simp) ?_
    simp only [Act.exec, Service.applyPatch]
    split <;> rfl
  | _ => exact same (by simp) rfl
/-- The callbacks of a task put no listing in flight. -/
theorem Service.reap_inflight {n : Nat} {key : Key} {e : Inflight}
    (h : (s.reap n).inflight key = some e) : s.inflight key = some e := by
  simp only [Service.reap] at h
  split at h
  · rename_i job _ _ _ _
    cases hin : s.inflight job.key with
    | none => simpa only [hin] using h
    | some e' =>
      simp only [hin] at h
      split at h
      · rcases update_some h with ⟨_, he⟩ | ⟨_, he⟩
        · cases he
        · exact he
      · exact h
  · exact h
/-! ## The records of one coroutine -/

/-- The records kept for one coroutine are changed by that one alone. -/
structure SameRecords (u : Tid) (s s' : Service) : Prop where
  published : s'.published u = s.published u
  copied : s'.copied u = s.copied u
  since : s'.aux.since u = s.aux.since u
  mutations : s'.aux.mutations u = s.aux.mutations u
  source : s'.aux.source u = s.aux.source u
  recalled : s'.aux.recalled u = s.aux.recalled u
  patches : s'.aux.patches u = s.aux.patches u

theorem Act.exec_own (cfg : Config) (h : s.store.Ok) {u : Tid} (hu : u ≠ t) :
    SameRecords u s (p.exec cfg t s) := by
  have hpatches : ∀ v, Function.update s.aux.patches t v u = s.aux.patches u := fun v =>
    Function.update_of_ne hu ..
  cases p with
  | publish =>
    cases hl : s.listings t with
    | none =>
      rw [Act.exec, Service.publish_none hl]
      exact ⟨rfl, rfl, rfl, rfl, rfl, rfl, rfl⟩
    | some l =>
      obtain ⟨store, watermark, v, _, heq⟩ := Service.publish_eq h hl
      rw [Act.exec, heq]
      exact ⟨Function.update_of_ne hu .., rfl, rfl, rfl, rfl, rfl, rfl⟩
  | collectMessage m =>
    rcases Service.collectMessage_cases cfg s t m with heq | ⟨l, _, _, heq⟩ <;> rw [Act.exec, heq] <;>
      exact ⟨rfl, rfl, rfl, rfl, rfl, rfl, rfl⟩
  | collectDraft d rendered =>
    simp only [Act.exec, Service.collectDraft]
    split <;> exact ⟨rfl, rfl, rfl, rfl, rfl, rfl, rfl⟩
  | beginCopy => exact ⟨rfl, Function.update_of_ne hu .., rfl, rfl, rfl, rfl, rfl⟩
  | copyItem inboxId item result =>
    obtain ⟨heldFrom, heq⟩ := Service.settlePatch_eq (s.copyItem t inboxId item result) t
    rw [Act.exec, heq]
    exact ⟨rfl, Function.update_of_ne hu .., rfl, rfl, rfl, rfl, hpatches _⟩
  | setFlagCommit key item add remove result =>
    obtain ⟨heldFrom, heq⟩ := Service.settlePatch_eq (s.setFlagCommit key item add remove result) t
    rw [Act.exec, heq]
    simp only [Service.setFlagCommit, Service.replaceItem]
    split
    · exact ⟨rfl, rfl, rfl, rfl, rfl, rfl, hpatches _⟩
    · split <;> exact ⟨rfl, rfl, rfl, rfl, rfl, rfl, hpatches _⟩
  | expungeCommit inboxId item result =>
    obtain ⟨heldFrom, heq⟩ := Service.settlePatch_eq (s.expungeCommit inboxId item result) t
    rw [Act.exec, heq]
    exact ⟨rfl, rfl, rfl, rfl, rfl, rfl, hpatches _⟩
  | reap n =>
    simp only [Act.exec, Service.reap]
    split <;> exact ⟨rfl, rfl, rfl, rfl, rfl, rfl, rfl⟩
  | applyPatch =>
    simp only [Act.exec, Service.applyPatch]
    split
    · exact ⟨rfl, rfl, rfl, rfl, rfl, rfl, hpatches _⟩
    · exact ⟨rfl, rfl, rfl, rfl, rfl, rfl, rfl⟩
  | beginMutation | wrote | endMutation =>
    exact ⟨rfl, rfl, rfl, Function.update_of_ne hu .., rfl, rfl, rfl⟩
  | called key => exact ⟨rfl, rfl, Function.update_of_ne hu .., rfl, rfl, rfl, rfl⟩
  | obtained source => exact ⟨rfl, rfl, rfl, rfl, Function.update_of_ne hu .., rfl, rfl⟩
  | beginRead | recalled => exact ⟨rfl, rfl, rfl, rfl, rfl, Function.update_of_ne hu .., rfl⟩
  | sendPatch | losePatch => exact ⟨rfl, rfl, rfl, rfl, rfl, rfl, hpatches _⟩
  | _ => exact ⟨rfl, rfl, rfl, rfl, rfl, rfl, rfl⟩

/-! ## What has been shown -/

/-- A publication adds its items to what has been shown. -/
inductive ShownStep (s s' : Service) (t : Tid) (p : Act) : Prop
  | publish (l : Listing) (v : Nat) (hp : p = .publish) (hl : s.listings t = some l)
      (shown : s'.aux.shown = s.aux.shown ++
        (s.publication l s'.store v).items.map fun item => (l.key, item))
  | quiet (hp : ∀ l, p = .publish → s.listings t ≠ some l) (shown : s'.aux.shown = s.aux.shown)

theorem Act.exec_shownStep (cfg : Config) (t : Tid) (p : Act) (h : s.store.Ok) :
    ShownStep s (p.exec cfg t s) t p := by
  cases p with
  | publish =>
    cases hl : s.listings t with
    | none =>
      rw [Act.exec, Service.publish_none hl]
      exact .quiet (fun l _ he => by rw [hl] at he; cases he) rfl
    | some l =>
      obtain ⟨store, watermark, v, _, heq⟩ := Service.publish_eq h hl
      rw [Act.exec, heq]
      exact .publish l v rfl hl rfl
  | collectMessage m =>
    refine .quiet (by simp) ?_
    rcases Service.collectMessage_cases cfg s t m with heq | ⟨l, _, _, heq⟩ <;> rw [Act.exec, heq]
  | collectDraft d rendered =>
    refine .quiet (by simp) ?_
    simp only [Act.exec, Service.collectDraft]
    split <;> rfl
  | copyItem inboxId item result =>
    obtain ⟨heldFrom, heq⟩ := Service.settlePatch_eq (s.copyItem t inboxId item result) t
    exact .quiet (by simp) (by rw [Act.exec, heq]; rfl)
  | setFlagCommit key item add remove result =>
    obtain ⟨heldFrom, heq⟩ := Service.settlePatch_eq (s.setFlagCommit key item add remove result) t
    refine .quiet (by simp) ?_
    rw [Act.exec, heq]
    simp only [Service.setFlagCommit, Service.replaceItem]
    split
    · rfl
    · split <;> rfl
  | expungeCommit inboxId item result =>
    obtain ⟨heldFrom, heq⟩ := Service.settlePatch_eq (s.expungeCommit inboxId item result) t
    exact .quiet (by simp) (by rw [Act.exec, heq]; rfl)
  | reap n =>
    refine .quiet (by simp) ?_
    simp only [Act.exec, Service.reap]
    split <;> rfl
  | applyPatch =>
    refine .quiet (by simp) ?_
    simp only [Act.exec, Service.applyPatch]
    split <;> rfl
  | _ => exact .quiet (by simp) rfl

theorem ShownStep.grows {s' : Service} (h : ShownStep s s' t p) :
    ∀ x ∈ s.aux.shown, x ∈ s'.aux.shown := by
  intro x hx
  cases h with
  | publish l v _ _ shown =>
    rw [shown]
    exact List.mem_append_left _ hx
  | quiet _ shown =>
    rw [shown]
    exact hx

/-- What a listing publishes has been shown from then on. -/
theorem Act.exec_publish_shown (cfg : Config) (h : s.store.Ok) {l : Listing}
    (hl : s.listings t = some l) {v : Nat} :
    (s.publication l (Act.publish.exec cfg t s).store v).Shown (Act.publish.exec cfg t s) := by
  intro item hitem
  cases Act.exec_shownStep cfg t .publish h with
  | publish l' v' _ hl' shown =>
    rw [hl] at hl'
    cases hl'
    refine ⟨(l.key, item), ?_, rfl, Item.Same.refl item⟩
    rw [shown]
    exact List.mem_append_right _ (List.mem_map_of_mem hitem)
  | quiet hp _ => exact absurd hl (hp l rfl)

end Mailbox
end ImapGateway
