/-
An action that is owed keeps the invariant, and leaves the others' own state alone.
-/
import ImapGateway.Mailbox.Effects

namespace ImapGateway
namespace Mailbox

variable {cfg : Config} {s : Service} {t : Tid} {p : Act} {R : Regime}

theorem Inv.evolve (hi : Inv cfg R s) (t : Tid) (p : Act) : Evolve s (p.exec cfg t s) where
  store := (Act.exec_uidStep cfg t p hi.store).2.grows
  started := Act.exec_started_le cfg t p hi.store
  bumped key := by
    rcases Act.exec_generation cfg (t := t) (p := p) hi.store key with ⟨_, h⟩ | ⟨_, _, h⟩
    · exact h.ge
    · rw [h]
      exact hi.bumped key
  generation key := by
    rcases Act.exec_generation cfg (t := t) (p := p) hi.store key with ⟨h, _⟩ | ⟨_, h, _⟩
    · exact h.ge
    · omega
  tasks n task ht := by
    have hne : (p.exec cfg t s).tasks n ≠ none :=
      Act.exec_tasks_ne_none cfg hi.store (by rw [ht]; nofun)
    obtain ⟨task', ht'⟩ := Option.ne_none_iff_exists'.mp hne
    refine ⟨task', ht', ?_⟩
    cases Act.exec_taskFrom cfg hi.store ht' with
    | kept task₀ ht₀ hjob hgen hno _ =>
      rw [ht] at ht₀
      cases ht₀
      refine ⟨hjob, hgen, hno.imp_right ?_⟩
      rintro ⟨_, _, _, _, hno⟩
      exact ⟨_, hno, Nat.lt_succ_self _⟩
    | created job gen _ hn _ =>
      have := (hi.tasks n task ht).old
      omega
  created n task' hn ht' no hno := by
    cases Act.exec_taskFrom cfg hi.store ht' with
    | kept task₀ ht₀ _ _ _ _ =>
      rw [hn] at ht₀
      cases ht₀
    | created job gen _ _ heq =>
      rw [heq] at hno
      cases hno
  shown x hx := (Act.exec_shownStep cfg t p hi.store).grows x hx

/-! ## The invariant is kept -/

theorem Listing.Ok.message {l : Listing} (h : l.Ok cfg) {m : MessageJson}
    (hnew : orEmpty m.messageId ∉ l.seen) (hkind : l.mdef.kind = .messages) :
    Listing.Ok cfg { l with
      seen := l.seen ++ [orEmpty m.messageId]
      entries := l.entries ++ s.messageEntries cfg l m } := by
  have hids : ∀ e ∈ s.messageEntries cfg l m,
      e.remoteId = orEmpty m.messageId ∧ e.remoteKey = e.remoteId := by
    intro e he
    simp only [Service.messageEntries] at he
    split at he
    · cases he
    · rw [List.mem_singleton.mp he]
      exact ⟨rfl, rfl⟩
  refine ⟨h.known, fun e he => ?_, ?_, fun e he => ?_⟩
  · rcases List.mem_append.mp he with he | he
    · exact h.keyed e he
    · show Keyed cfg l.mdef.kind e
      rw [hkind]
      exact (hids e he).2
  · rw [List.map_append]
    refine List.Nodup.append h.ids ?_ ?_
    · simp only [Service.messageEntries]
      split
      · exact List.nodup_nil
      · exact List.nodup_singleton _
    · intro id hid hid'
      obtain ⟨e, he, rfl⟩ := List.mem_map.mp hid
      obtain ⟨e', he', hee⟩ := List.mem_map.mp hid'
      refine hnew ?_
      rw [← (hids e' he').1, hee]
      exact h.seen e he
  · rcases List.mem_append.mp he with he | he
    · exact List.mem_append_left _ (h.seen e he)
    · rw [(hids e he).1]
      exact List.mem_append_right _ (List.mem_singleton_self _)

theorem Listing.Ok.draft {l : Listing} (h : l.Ok cfg) {d : DraftJson} {rendered : Bytes}
    (hkind : l.mdef.kind = .drafts) (hin : orEmpty d.draftId ∈ l.seen)
    (hnew : orEmpty d.draftId ∉ l.entries.map (·.remoteId)) :
    Listing.Ok cfg { l with
      entries := l.entries ++ [Service.draftEntry cfg l.inboxId d rendered] } := by
  refine ⟨h.known, fun e he => ?_, ?_, fun e he => ?_⟩
  · rcases List.mem_append.mp he with he | he
    · exact h.keyed e he
    · show Keyed cfg l.mdef.kind e
      rw [List.mem_singleton.mp he, hkind]
      exact ⟨rendered, rfl⟩
  · rw [List.map_append, List.map_singleton, ← List.concat_eq_append]
    exact h.ids.concat hnew
  · rcases List.mem_append.mp he with he | he
    · exact h.seen e he
    · rw [List.mem_singleton.mp he]
      exact hin

section Step

/-- A generation that has not moved has not been bumped since. -/
theorem Act.exec_bumpedAt (cfg : Config) (h : s.store.Ok) {key : Key}
    (hgen : (p.exec cfg t s).generation key = s.generation key) :
    (p.exec cfg t s).aux.bumpedAt key = s.aux.bumpedAt key := by
  rcases Act.exec_generation cfg (t := t) (p := p) h key with ⟨_, hb⟩ | ⟨_, hg, _⟩
  · exact hb
  · omega

theorem Inv.tasks_step (hi : Inv cfg R s) (ho : Owes cfg R t p s) {n : Nat} {task' : Task}
    (ht' : (p.exec cfg t s).tasks n = some task') : task'.Ok (p.exec cfg t s) n := by
  have hev := hi.evolve t p
  have hnext := Act.exec_nextTask cfg (t := t) (p := p) hi.store
  cases Act.exec_taskFrom cfg hi.store ht' with
  | kept task ht hjob hgen hno hstate =>
    have hok := hi.tasks n task ht
    refine ⟨Nat.lt_of_lt_of_le hok.old hnext.1, hjob ▸ hok.known, ?_,
      fun key hk hcur no hno' => ?_, fun snap hsnap => ?_, fun snap hsnap => ?_⟩
    · rw [hgen, hjob]
      exact hok.tagged.trans (hev.generation _)
    · rw [hjob] at hk
      have htag := hok.tagged
      have hmono := hev.generation key
      rw [Job.key_of_lists hk] at htag
      have hsame : (p.exec cfg t s).generation key = s.generation key := by omega
      rw [Act.exec_bumpedAt cfg hi.store hsame]
      rcases hno with hno | ⟨i, m, _, _, hno⟩
      · exact hok.barrier key hk (by omega) no (by rw [← hno, hno'])
      · rw [hno'] at hno
        cases hno
        exact Nat.lt_succ_of_le (hi.bumped key)
    · rw [hjob]
      rcases hstate with hstate | ⟨_, hstate⟩ | ⟨r, hp, hstate⟩
      · obtain ⟨hvalid, hkey, hlist⟩ := hok.result snap (hstate.symm.trans hsnap)
        refine ⟨hvalid.grows hev.store, hkey, fun key hk => ?_⟩
        rcases hno with hno | ⟨i, m, hp, hn, _⟩
        · exact hno.trans (hlist key hk)
        · -- A finished task starts no listing.
          subst hp
          have hrun := ho.2 n hn
          rw [Service.taskState, ht, Option.map_some, ← hstate, hsnap] at hrun
          cases hrun
      · rw [hstate] at hsnap
        cases hsnap
      · rw [hstate] at hsnap
        cases hsnap
        subst hp
        obtain ⟨⟨hvalid, _⟩, hrest⟩ := ho.2.2 snap rfl
        obtain ⟨hkey, hlist⟩ := hrest task ht
        refine ⟨hvalid.grows hev.store, hkey, fun key hk => ?_⟩
        rcases hno with hno | ⟨_, _, hp, _⟩
        · exact hno.trans (hlist key hk)
        · cases hp
    · rcases hstate with hstate | ⟨_, hstate⟩ | ⟨r, hp, hstate⟩
      · exact hev.snapshotShown (hok.shown snap (hstate.symm.trans hsnap))
      · rw [hstate] at hsnap
        cases hsnap
      · rw [hstate] at hsnap
        cases hsnap
        subst hp
        exact hev.snapshotShown (ho.2.2 snap rfl).1.2
  | created job gen hp hn heq =>
    subst hp heq
    refine ⟨by rw [hn, hnext.2 ⟨_, _, rfl⟩]; exact Nat.lt_succ_self _, ho.2,
      ho.1.trans (hev.generation _), fun _ _ _ no hno => ?_, fun snap hsnap => ?_, fun snap hsnap => ?_⟩
    · cases hno
    · cases hsnap
    · cases hsnap

theorem Inv.pins_step (hi : Inv cfg R s) (key : Key) : PinsOk ((p.exec cfg t s).pinned key) :=
  (Act.exec_uidStep cfg t p hi.store).2.pinsOk hi.pins key

theorem Inv.listings_step (hi : Inv cfg R s) (ho : Owes cfg R t p s) {u : Tid} {l' : Listing}
    (hl' : (p.exec cfg t s).listings u = some l') : l'.Ok cfg := by
  by_cases hc : p.collects = true
  · cases p with
    | see id =>
      cases hl : s.listings t with
      | none =>
        simp only [Act.exec, Service.see, hl, Option.map_none] at hl'
        rcases update_some hl' with ⟨_, he⟩ | ⟨_, he⟩
        · cases he
        · exact hi.listings u l' he
      | some l =>
        simp only [Act.exec, Service.see, hl, Option.map_some] at hl'
        rcases update_some hl' with ⟨_, he⟩ | ⟨_, he⟩
        · cases he
          obtain ⟨hknown, hkeyed, hids, hseen⟩ := hi.listings t l hl
          exact ⟨hknown, hkeyed, hids, fun e he => List.mem_append_left _ (hseen e he)⟩
        · exact hi.listings u l' he
    | collectMessage m =>
      rcases Service.collectMessage_cases cfg s t m with heq | ⟨l, hl, hnew, heq⟩
      · rw [Act.exec, heq] at hl'
        exact hi.listings u l' hl'
      · rw [Act.exec, heq] at hl'
        rcases update_some hl' with ⟨_, he⟩ | ⟨_, he⟩
        · cases he
          exact (hi.listings t l hl).message hnew (ho l hl)
        · exact hi.listings u l' he
    | collectDraft d rendered =>
      cases hl : s.listings t with
      | none =>
        simp only [Act.exec, Service.collectDraft, hl] at hl'
        exact hi.listings u l' hl'
      | some l =>
        simp only [Act.exec, Service.collectDraft, hl, Service.addEntry, Option.map_some] at hl'
        rcases update_some hl' with ⟨_, he⟩ | ⟨_, he⟩
        · cases he
          obtain ⟨⟨hkind, hin, hnew⟩, _⟩ := ho l hl
          exact (hi.listings t l hl).draft hkind hin hnew
        · exact hi.listings u l' he
    | _ => cases hc
  · cases Act.exec_listingStep cfg t p hi.store with
    | start inboxId mdef hp listings _ =>
      rw [listings] at hl'
      rcases update_some hl' with ⟨_, he⟩ | ⟨_, he⟩
      · cases he
        subst hp
        exact ⟨ho.1, (by simp), List.nodup_nil, (by simp)⟩
      · exact hi.listings u l' he
    | extend _ _ _ hp _ _ _ => exact absurd hp hc
    | stop _ listings _ =>
      rw [listings] at hl'
      rcases update_some hl' with ⟨_, he⟩ | ⟨_, he⟩
      · cases he
      · exact hi.listings u l' he
    | quiet _ listings _ =>
      rw [listings] at hl'
      exact hi.listings u l' hl'

theorem Snapshot.Current.congr {snap snap' : Snapshot} {d d' : Store.Db} {key : Key}
    (h : snap.Current d key) (huids : snap'.uids = snap.uids) (hnext : snap'.uidnext = snap.uidnext)
    (hkey : snap'.key = snap.key) (hg : d.Grows d')
    (hkept : ∀ k u, d.liveUid key.1 key.2 k = some u → d'.liveUid key.1 key.2 k = some u) :
    snap'.Current d' key := by
  have hid : snap'.inboxId = snap.inboxId := congrArg Prod.fst hkey
  have hname : snap'.name = snap.name := congrArg Prod.snd hkey
  have hv := h.valid.grows hg
  refine ⟨hkey.trans h.key_eq, ⟨?_, ?_, ?_, ?_⟩, fun u hu => ?_⟩
  · rw [huids]
    exact hv.ascending
  · rw [huids, hnext]
    exact hv.below
  · rw [hnext, hid, hname]
    exact hv.reached
  · rw [huids, hnext, hid, hname]
    exact hv.rest
  · obtain ⟨k, hk⟩ := h.live u (huids ▸ hu)
    exact ⟨k, hkept k u hk⟩

theorem Inv.latest_step (hi : Inv cfg R s) {key : Key} {snap' : Snapshot}
    (hs : (p.exec cfg t s).latest key = some snap') :
    snap'.Current (p.exec cfg t s).store key := by
  have hstep := (Act.exec_uidStep cfg t p hi.store).2
  cases Act.exec_latest cfg hi.store hs with
  | kept snap hsnap huids hnext hkey _ hp =>
    exact (hi.latest key snap hsnap).congr huids hnext hkey (hi.evolve t p).store
      fun k u hu => hstep.kept hp hu
  | published l v hp hl hk heq =>
    subst hp hk heq
    obtain ⟨store, watermark, v', hrec, heq⟩ := Service.publish_eq hi.store hl
    rw [Act.exec, heq]
    exact publication_current (hi.listings t l hl) (hi.pins l.key) v hrec

theorem Inv.latestShown_step (hi : Inv cfg R s) (ho : Owes cfg R t p s) {key : Key}
    {snap' : Snapshot} (hs : (p.exec cfg t s).latest key = some snap') :
    snap'.Shown (p.exec cfg t s) := by
  have hev := hi.evolve t p
  cases Act.exec_latest cfg hi.store hs with
  | kept snap hsnap _ _ hkey hitems _ =>
    intro item' hitem'
    rw [hkey]
    rcases hitems item' hitem' with hold | ⟨item, add, remove, result, hp, hitem⟩
    · exact hev.hasShown (hi.latestShown key snap hsnap item' hold)
    · subst hp
      obtain ⟨mdef, hname, hknows⟩ := ho.1
      have hflagged := Service.flaggedItem_same item (Service.flaggedLabels item add remove result)
      have hshown := (hev.knows (hknows.same hflagged)).shown
      rw [(hi.latest key snap hsnap).key_eq, hitem]
      rwa [hname] at hshown
  | published l v hp hl hk heq =>
    subst hp heq
    exact Act.exec_publish_shown cfg hi.store hl

theorem Inv.inflight_step (hi : Inv cfg R s) {key : Key} {e : Inflight}
    (he : (p.exec cfg t s).inflight key = some e) :
    ∃ task, (p.exec cfg t s).tasks e.task = some task ∧ task.job.lists = some key ∧
      task.startedGen = e.startedGen := by
  have hold : s.inflight key = some e → ∃ task, (p.exec cfg t s).tasks e.task = some task ∧
      task.job.lists = some key ∧ task.startedGen = e.startedGen := by
    intro he
    obtain ⟨task, ht, hk, hgen⟩ := hi.inflight key e he
    obtain ⟨task', ht', hjob, hgen', _⟩ := (hi.evolve t p).tasks _ _ ht
    exact ⟨task', ht', hjob ▸ hk, hgen'.trans hgen⟩
  by_cases hp : p.schedules = false
  · rw [(Act.exec_schedule cfg t hi.store hp).inflight] at he
    exact hold he
  cases p with
  | createTask job gen =>
    cases job with
    | resync api inboxId => exact hold he
    | listing api inboxId mdef =>
      rcases update_some (show Function.update s.inflight (inboxId, mdef.name) _ key = _ from he) with
        ⟨rfl, he'⟩ | ⟨_, he'⟩
      · cases he'
        exact ⟨_, Function.update_self .., rfl, rfl⟩
      · exact hold he'
  | reap n =>
    exact hold (Service.reap_inflight he)
  | beginTask | finishTask | startListing | bump | endMutation => exact hold he
  | _ => exact absurd rfl hp

theorem Inv.promised_step (hi : Inv cfg R s) (ho : Owes cfg R t p s) (hB : R.gentle) (key : Key) :
    (p.exec cfg t s).aux.promised key ≤ (p.exec cfg t s).aux.bumpedAt key := by
  have hbump := (hi.evolve t p).bumped key
  have hold := (hi.promised hB key).trans hbump
  by_cases hp : p.schedules = false
  · rw [(Act.exec_schedule cfg t hi.store hp).promised]
    exact hold
  cases p with
  | endMutation =>
    simp only [Act.exec, Service.endMutation]
    cases hm : s.aux.mutations t with
    | none => exact hold
    | some m =>
      simp only [Service.promise]
      cases hw : m.wrote with
      | none => exact hold
      | some w =>
        simp only
        split
        · rename_i hk
          exact max_le hold (ho hB m hm w hw key hk)
        · exact hold
  | reap n =>
    simp only [Act.exec, Service.reap]
    split <;> exact hi.promised hB key
  | createTask | beginTask | finishTask | startListing | bump => exact hold
  | _ => exact absurd rfl hp

/-- An action that is owed keeps the invariant. -/
theorem Inv.step (hi : Inv cfg R s) (ho : Owes cfg R t p s) : Inv cfg R (p.exec cfg t s) where
  store := (Act.exec_uidStep cfg t p hi.store).1
  pins := hi.pins_step
  listings _ _ hl := hi.listings_step ho hl
  latest _ _ hs := hi.latest_step hs
  latestShown _ _ hs := hi.latestShown_step ho hs
  tasks _ _ ht := hi.tasks_step ho ht
  inflight _ _ he := hi.inflight_step he
  bumped key := by
    have hmono := (hi.evolve t p).started
    rcases Act.exec_generation cfg (t := t) (p := p) hi.store key with ⟨_, h⟩ | ⟨_, _, h⟩
    · rw [h]
      exact (hi.bumped key).trans hmono
    · rw [h]
      exact hmono
  promised := hi.promised_step ho

/-! ### What the others keep -/

/-- A running task is left alone by the others. -/
theorem Inv.running_step (hi : Inv cfg R s) (ho : Owes cfg R t p s) {n : Nat} {task : Task}
    (hu : t ≠ .task n) (ht : s.tasks n = some task) (hrun : task.state = .running) :
    (p.exec cfg t s).tasks n = some task := by
  by_cases hp : p.schedules = false
  · rw [(Act.exec_schedule cfg t hi.store hp).tasks, ht]
  cases p with
  | createTask job gen =>
    have := (hi.tasks n task ht).old
    exact (Function.update_of_ne (by omega) ..).trans ht
  | beginTask m =>
    have hm : n ≠ m := by rintro rfl; exact hu ho.1
    exact (Function.update_of_ne hm ..).trans ht
  | finishTask m r =>
    have hm : n ≠ m := by rintro rfl; exact hu ho.1
    exact (Function.update_of_ne hm ..).trans ht
  | startListing i m =>
    cases t with
    | conn c => exact ht
    | task c =>
      have hc : n ≠ c := by rintro rfl; exact hu rfl
      exact (Function.update_of_ne hc ..).trans ht
  | reap m =>
    simp only [Act.exec, Service.reap]
    split
    · rename_i hm
      refine (Function.update_of_ne (fun he => ?_) ..).trans ht
      subst he
      rw [ht] at hm
      cases hm
      cases hrun
    · exact ht
  | bump key => exact ht
  | endMutation => exact ht
  | _ => exact absurd rfl hp

theorem Inv.spares (hi : Inv cfg R s) (ho : Owes cfg R t p s) {u : Tid} (hu : u ≠ t) :
    Spares u s (p.exec cfg t s) := by
  have hown := Act.exec_own cfg (p := p) hi.store hu
  refine ⟨?_, hown.published, hown.copied, hown.since, hown.mutations, hown.source, hown.recalled,
    congrArg _ hown.patches, fun n task hn ht hrun => hi.running_step ho (hn ▸ hu.symm) ht hrun⟩
  cases Act.exec_listingStep cfg t p hi.store with
  | start _ _ _ listings _ => rw [listings, Function.update_of_ne hu]
  | extend _ _ _ _ _ listings _ => rw [listings, Function.update_of_ne hu]
  | stop _ listings _ => rw [listings, Function.update_of_ne hu]
  | quiet _ listings _ => rw [listings]

/-- What happens by itself is owed, and leaves every coroutine's own state alone. -/
theorem Inv.ambient (hi : Inv cfg R s) (hp : p.ambient = true) (t u : Tid) :
    Owes cfg R t p s ∧ Spares u s (p.exec cfg t s) := by
  have ho : Owes cfg R t p s := by
    cases p <;> first | exact trivial | cases hp
  refine ⟨ho, ?_⟩
  cases p with
  | tick d => exact ⟨rfl, rfl, rfl, rfl, rfl, rfl, rfl, rfl, fun _ _ _ h _ => h⟩
  | wall clock now => exact ⟨rfl, rfl, rfl, rfl, rfl, rfl, rfl, rfl, fun _ _ _ h _ => h⟩
  | reap n =>
    -- Whoever is made to perform it, it does the same.
    have hv : ∃ v : Tid, u ≠ v := by
      cases u with
      | conn m => exact ⟨.task m, nofun⟩
      | task m => exact ⟨.conn m, nofun⟩
    obtain ⟨v, hv⟩ := hv
    exact hi.spares (t := v) (p := .reap n) trivial hv
  | applyPatch =>
    simp only [Act.exec, Service.applyPatch]
    split
    · rename_i hpatch
      refine ⟨rfl, rfl, rfl, rfl, rfl, rfl, rfl, ?_, fun _ _ _ h _ => h⟩
      by_cases hu : u = t
      · subst hu
        simp [hpatch, Patch.asked]
      · simp [Function.update_of_ne hu]
    · exact ⟨rfl, rfl, rfl, rfl, rfl, rfl, rfl, rfl, fun _ _ _ h _ => h⟩
  | relabel => exact ⟨rfl, rfl, rfl, rfl, rfl, rfl, rfl, rfl, fun _ _ _ h _ => h⟩
  | _ => cases hp

end Step

/-! ## Histories -/

/-- A history from a service in order, in which every action was owed. -/
structure Conducted (cfg : Config) (R : Regime) (s₀ : Service) (hs : List Happening) (s : Service) :
    Prop where
  history : History cfg s₀ hs s
  start : Inv cfg R s₀
  owed : ∀ x ∈ hs, Owes cfg R x.tid x.action x.before

section Conducted

variable {cfg : Config} {R : Regime} {s₀ s : Service} {hs newer older : List Happening}
  {x : Happening}

/-- The history before an element. -/
theorem History.before (h : History cfg s₀ (newer ++ x :: older) s) :
    History cfg s₀ older x.before := by
  induction newer generalizing s with
  | nil =>
    cases h with
    | cons _ h => exact h
  | cons y newer ih =>
    cases h with
    | cons _ h => exact ih h

/-- The history after an element. -/
theorem History.after (h : History cfg s₀ (newer ++ x :: older) s) :
    History cfg (x.after cfg) newer s := by
  induction newer generalizing s with
  | nil =>
    cases h with
    | cons _ _ => exact .nil
  | cons y newer ih =>
    cases h with
    | cons _ h => exact .cons y (ih h)

/-- What holds at the start and is kept by every owed action holds all along. -/
theorem Conducted.always {P : Service → Prop} (h : Conducted cfg R s₀ hs s) (h₀ : P s₀)
    (hstep : ∀ x ∈ hs, Inv cfg R x.before → P x.before → P (x.after cfg)) :
    Inv cfg R s ∧ P s := by
  obtain ⟨hist, hi, ho⟩ := h
  induction hist with
  | nil => exact ⟨hi, h₀⟩
  | @cons hs x _ ih =>
    obtain ⟨hbefore, hP⟩ := ih (fun y hy => hstep y (List.mem_cons_of_mem _ hy))
      fun y hy => ho y (List.mem_cons_of_mem _ hy)
    have hx : x ∈ x :: hs := List.mem_cons_self ..
    exact ⟨hbefore.step (ho x hx), hstep x hx hbefore hP⟩

theorem Conducted.inv (h : Conducted cfg R s₀ hs s) : Inv cfg R s :=
  (h.always (P := fun _ => True) trivial fun _ _ _ _ => trivial).1

theorem Conducted.before (h : Conducted cfg R s₀ (newer ++ x :: older) s) :
    Conducted cfg R s₀ older x.before where
  history := h.history.before
  start := h.start
  owed y hy := h.owed y (List.mem_append_right _ (List.mem_cons_of_mem _ hy))

theorem Conducted.after (h : Conducted cfg R s₀ (newer ++ x :: older) s) :
    Conducted cfg R (x.after cfg) newer s where
  history := h.history.after
  start := h.before.inv.step (h.owed x (List.mem_append_right _ (List.mem_cons_self ..)))
  owed y hy := h.owed y (List.mem_append_left _ hy)

theorem Conducted.of_mem (h : Conducted cfg R s₀ hs s) (hx : x ∈ hs) :
    Inv cfg R x.before ∧ Owes cfg R x.tid x.action x.before := by
  obtain ⟨newer, older, rfl⟩ := List.append_of_mem hx
  exact ⟨h.before.inv, h.owed x hx⟩

/-- The service evolves along a history. -/
theorem Conducted.evolve (h : Conducted cfg R s₀ hs s) : Evolve s₀ s :=
  (h.always (P := Evolve s₀) (.refl s₀) fun x _ hi he => he.trans (hi.evolve x.tid x.action)).2

end Conducted

end Mailbox
end ImapGateway
