/-
The handlers that change a mailbox, and dispatch.

STORE, EXPUNGE, CLOSE, APPEND, COPY and MOVE write upstream or mark messages.
All but COPY refuse to do so in a mailbox that was opened read-only, so under
`V` a COPY has to be kept out by a condition on the command.
-/
import ImapGateway.Imap.Sessions

namespace ImapGateway
namespace Imap

open Async Mailbox

variable {cfg : Config} {txt : TextConfig} {R : Regime} {V : Prop} {t : Tid} {v : View}
  {K : Service → Prop} {s : Shared} {inboxId : String} {mdef : MailboxDef} {sel : Selected}
  {snap : Snapshot} {item : Item}

/-! ## Actions of the service -/

/-- One action of the service and what follows it. -/
theorem Has.own_bind {α : Type} {p : Mailbox.Act} {k : Unit → Prog α} {Q : α → Shared → Prop}
    {E : Exc → Shared → Prop} (h : Has cfg R t v K s) (hK : Stable K) (ho : Owes cfg R t p s.1)
    (hp : p.plain = true) (hm : p.marks = true → V → v.Writable)
    (hk : ∀ s', Has cfg R t v K s' → s'.1 = p.exec cfg t s.1 →
      (k ()).wp (gwLogic cfg R V t) Q E s') :
    ((svc (perform p)).bind k).wp (gwLogic cfg R V t) Q E s := by
  obtain ⟨⟨⟨m, hstands⟩, hok, hview⟩, hfacts⟩ := h
  have hev := hstands.inv.evolve t p
  refine ⟨⟨ho, fun hmarks hV => ?_⟩, hk _ ⟨⟨⟨m, hstands.act ho hp⟩, ?_, hview⟩, ?_⟩ rfl⟩
  · rw [hview]
    exact hm hmarks hV
  · exact hok.grows hev.store
  · exact hK _ _ hev hfacts

/-! ## STORE -/

theorem storeFlag_wp (api : Client) (current wanted : Flags) (uid : Nat) (r : Item × List Nat)
    (flag : Flag) (hW : V → v.Writable) (hK : Stable K)
    (h : Has cfg R t v (fun s => K s ∧ s.Knows inboxId mdef r.1) s) :
    (storeFlag api inboxId mdef current wanted uid r flag).wp (gwLogic cfg R V t)
      (fun r => Has cfg R t v fun s => K s ∧ s.Knows inboxId mdef r.1) (fun _ => Has cfg R t v K)
      s := by
  have hK' : Stable fun s => K s ∧ s.Knows inboxId mdef r.1 := hK.and (.knows _ _ _)
  rw [storeFlag]
  split
  · exact h
  · split
    · simp only [Coro.bind_eq, Coro.pure_eq]
      exact h.own_bind hK' (p := .setDeleted ..) trivial rfl (fun _ => hW) fun s hs _ => hs
    · split
      · simp only [Coro.bind_eq, Coro.pure_eq]
        have hbase : Has cfg R t v K s := ⟨h.sits, h.facts.1⟩
        exact (Coro.wp_bind _ _).mpr (Coro.wp_mono (fun item s hs => hs.1) (fun _ _ hs => hs)
          (hbase.setFlag_wp hW api flag _ hK h.facts.2))
      · exact h

theorem storeOne_wp (api : Client) (plan : StorePlan) (deleted : List Nat) (target : Nat × Nat)
    (hw : Works v inboxId mdef sel) (hW : V → v.Writable)
    (h : Has cfg R t v (Seen (inboxId, mdef.name) snap) s) :
    (storeOne api inboxId mdef plan snap deleted target).wp (gwLogic cfg R V t)
      (fun _ => Has cfg R t v (Seen (inboxId, mdef.name) snap))
      (fun _ => Has cfg R t v (Seen (inboxId, mdef.name) snap)) s := by
  rw [storeOne]
  split
  · exact h
  · rename_i item hitem
    simp only [Coro.bind_eq, Coro.pure_eq]
    have hknows := h.facts.knows hw.known (Snapshot.byUid_some hitem).1
    refine (Coro.wp_bind _ _).mpr (Coro.wp_mono (fun r s hs => ?_) (fun _ _ hs => hs)
      (Coro.wp_foldEach
        (I := fun r _ => Has cfg R t v fun s => Seen (inboxId, mdef.name) snap s ∧
          s.Knows inboxId mdef r.1)
        (fun r flag _ s hs => storeFlag_wp api _ _ target.2 r flag hW (Seen.stable _ _) hs)
        (item, deleted) mdef.permanentFlags ⟨h.sits, h.facts, hknows⟩))
    have hseen : Has cfg R t v (Seen (inboxId, mdef.name) snap) s := ⟨hs.sits, hs.facts.1⟩
    refine hseen.act_bind (p := .recordFlags ..) rfl trivial fun s hs => ?_
    split
    · refine hs.act_bind rfl (hw.tells_fetch hs.sits ?_ (hs.facts.lt hitem)) fun s hs => hs
      intro u hu
      split at hu
      · simpa [Part.uidOf] using hu
      · simp [Part.uidOf] at hu
    · exact hs

theorem store_wp (tag : String) (set : SequenceSet) (plan : StorePlan) (h : Sits cfg R t v s) :
    (store cfg t tag set plan).wp (gwLogic cfg R V t) (fun _ => Rests cfg R t)
      (fun _ => Rests cfg R t) s := by
  rw [store]
  simp only [Coro.bind_eq]
  refine requireSelected_bind ⟨v, h⟩ fun sel _ hsel => context_bind ⟨v, h⟩ fun api inboxId _ hid => ?_
  refine refuse_bind (fun _ => ⟨v, h⟩) fun hro => mailboxOf_bind ⟨v, h⟩ fun mdef hdef => ?_
  have hw := h.works hsel hid hdef
  have hW : V → v.Writable := fun _ => hw.writable (Bool.eq_false_iff.mpr hro)
  refine refuse_bind (fun _ => ⟨v, h⟩) fun _ => ?_
  refine (Coro.wp_bind _ _).mpr (Coro.wp_mono (fun snap s hs => ?_) (fun _ _ hs => ⟨v, hs⟩)
    (h.latestOrSync_wp api (lookupMailbox_self hw.known)))
  refine session_bind (service_bind ((Coro.wp_bind _ _).mpr (Coro.wp_mono (fun _ s hs => ?_)
    (fun _ _ hs => hs.rests) (Coro.wp_foldEach
      (I := fun _ _ => Has cfg R t v (Seen (inboxId, mdef.name) snap))
      (fun deleted target _ s hs => storeOne_wp api plan deleted target hw hW hs) _ _ hs.1))))
  split
  · exact hs.sits.act_bind (p := .noteStored ..) rfl trivial fun s hs _ =>
      hs.tag _ _ _ (fun _ => rfl) rfl
  · exact hs.sits.tag _ _ _ (fun _ => rfl) rfl

/-! ## EXPUNGE and CLOSE -/

/-- After a removal.  A silent one that removed everything leaves a view the client
has not followed. -/
structure Removed (cfg : Config) (R : Regime) (t : Tid) (silent : Bool) (s : Shared) : Prop where
  stands : ∃ m, Stands cfg R t m s.1
  rests : silent = false → Rests cfg R t s

theorem Sits.removed (h : Sits cfg R t v s) (silent : Bool) : Removed cfg R t silent s :=
  ⟨h.stands, fun _ => ⟨v, h⟩⟩

theorem removeItems_wp (api : Client) {items : List Item} (silent : Bool) (hW : V → v.Writable)
    (hknown : AllKnown inboxId mdef items s.1) (h : Sits cfg R t v s) :
    (removeItems cfg t api inboxId mdef items silent).wp (gwLogic cfg R V t)
      (fun _ => Removed cfg R t silent) (fun _ => Rests cfg R t) s := by
  rw [removeItems]
  simp only [Coro.bind_eq]
  refine (Coro.wp_bind _ _).mpr (Coro.wp_mono (fun errors s hs => ?_) (fun _ _ hs => ⟨v, hs.1⟩)
    (h.svc_wp (Q := fun _ _ => True) (E := fun _ _ => True) fun m hm =>
      Coro.wp_mono (fun _ _ hs => ⟨⟨none, hs⟩, trivial⟩) (fun _ _ hs => ⟨⟨none, hs⟩, trivial⟩)
        (expungeItems_wp hW api inboxId mdef items hknown hm)))
  refine (Coro.wp_bind _ _).mpr (Coro.wp_mono (fun _ s hs => ?_) (fun _ _ hs => ⟨v, hs⟩)
    (hs.1.syncForced_wp api mdef.name))
  obtain ⟨hs, _⟩ := hs
  cases silent with
  | true =>
    refine ⟨⟨hs.inv, trivial⟩, ?_⟩
    rw [refuse]
    split
    · rename_i herrors
      have hne : errors.length ≠ 0 := fun h => herrors (List.length_eq_zero_iff.mp h)
      exact ⟨_, hs.become (Session.dropVanished_ok hs.ok hne hs.inv.latest) rfl⟩
    · exact ⟨hs.stands, (by simp)⟩
  | false =>
    refine (Coro.wp_bind _ _).mpr (Coro.wp_mono (fun _ s hs => ?_) (fun _ _ hs => hs)
      hs.flushPending_wp)
    rw [refuse]
    split
    · exact hs
    · exact ⟨hs.elim fun _ hs => hs.stands, fun _ => hs⟩

theorem expungeDeleted_wp (onlyUids : Option (List Nat)) (silent : Bool) (h : Sits cfg R t v s) :
    (expungeDeleted cfg t onlyUids silent).wp (gwLogic cfg R V t)
      (fun _ => Removed cfg R t silent) (fun _ => Rests cfg R t) s := by
  rw [expungeDeleted]
  simp only [Coro.bind_eq]
  refine requireSelected_bind ⟨v, h⟩ fun sel _ hsel => context_bind ⟨v, h⟩ fun api inboxId _ hid => ?_
  refine mailboxOf_bind ⟨v, h⟩ fun mdef hdef => refuse_bind (fun _ => ⟨v, h⟩) fun hro => ?_
  have hw := h.works hsel hid hdef
  refine session_bind (service_bind ?_)
  split
  · rw [refuse]
    split
    · exact ⟨v, h⟩
    · exact h.removed silent
  · split
    · exact h.removed silent
    · refine service_bind (removeItems_wp api silent
        (fun _ => hw.writable (Bool.eq_false_iff.mpr hro)) (fun item hitem => ?_) h)
      split at hitem
      · rename_i snap hsnap
        obtain ⟨uid, _, huid⟩ := List.mem_filterMap.mp hitem
        refine ⟨hw.known, ?_⟩
        have hshown := h.inv.latestShown _ _ hsnap item (Snapshot.byUid_some huid).1
        rw [(h.inv.latest _ _ hsnap).key_eq] at hshown
        exact hshown
      · cases hitem

theorem expunge_wp (tag : String) (h : Sits cfg R t v s) :
    (expunge cfg t tag).wp (gwLogic cfg R V t) (fun _ => Rests cfg R t) (fun _ => Rests cfg R t)
      s := by
  rw [expunge]
  simp only [Coro.bind_eq]
  refine (Coro.wp_bind _ _).mpr (Coro.wp_mono (fun _ s hs => ?_) (fun _ _ hs => hs)
    (expungeDeleted_wp none false h))
  obtain ⟨v, hs⟩ := hs.rests rfl
  exact hs.tag _ _ _ (fun _ => rfl) rfl

theorem uidExpunge_wp (tag : String) (set : SequenceSet) (h : Sits cfg R t v s) :
    (uidExpunge cfg t tag set).wp (gwLogic cfg R V t) (fun _ => Rests cfg R t)
      (fun _ => Rests cfg R t) s := by
  rw [uidExpunge]
  simp only [Coro.bind_eq]
  refine requireSelected_bind ⟨v, h⟩ fun sel _ _ => ?_
  refine (Coro.wp_bind _ _).mpr (Coro.wp_mono (fun _ s hs => ?_) (fun _ _ hs => hs)
    (expungeDeleted_wp (some (selectNumbers set sel.uids)) false h))
  obtain ⟨v, hs⟩ := hs.rests rfl
  exact hs.tag _ _ _ (fun _ => rfl) rfl

theorem close_wp (tag : String) (h : Sits cfg R t v s) :
    (close cfg t tag).wp (gwLogic cfg R V t) (fun _ => Rests cfg R t) (fun _ => Rests cfg R t)
      s := by
  have hdeselect : ∀ s : Shared, (∃ m, Stands cfg R t m s.1) →
      ((act .deselect).bind fun _ => send (.tagged tag "OK" "CLOSE completed" none)).wp
        (gwLogic cfg R V t) (fun _ => Rests cfg R t) (fun _ => Rests cfg R t) s := by
    intro s hs
    have hinv : Inv cfg R s.1 := hs.elim fun _ hs => hs.inv
    have hout : Sits cfg R t ⟨s.2.inboxId, none⟩ ((gwLogic cfg R V t).exec (.inr .deselect) s) :=
      ⟨hs, Session.Ok.of_none rfl, rfl⟩
    exact ⟨⟨hinv, trivial⟩, hout.tag _ _ _ (fun _ => rfl) rfl⟩
  rw [close]
  simp only [Coro.bind_eq]
  refine requireSelected_bind ⟨v, h⟩ fun sel _ _ => session_bind (service_bind ?_)
  split
  · exact (Coro.wp_bind _ _).mpr (Coro.wp_mono (fun _ s hs => hdeselect s hs.stands)
      (fun _ _ hs => hs) (expungeDeleted_wp none true h))
  · exact hdeselect s h.stands

/-! ## APPEND -/

theorem append_wp (tag name : String) (message : Except String DraftFields) (clientId : String)
    (h : Sits cfg R t v s) : (append cfg t tag name message clientId).wp (gwLogic cfg R V t)
      (fun _ => Rests cfg R t) (fun _ => Rests cfg R t) s := by
  unfold append
  simp only [Coro.bind_eq]
  refine requireState_bind ⟨v, h⟩ fun _ => ?_
  split
  · exact ⟨v, h⟩
  · refine refuse_bind (fun _ => ⟨v, h⟩) fun _ => ?_
    split
    · exact ⟨v, h⟩
    · rename_i fields
      refine context_bind ⟨v, h⟩ fun api inboxId _ hid => ?_
      have hview : v.inboxId = some inboxId := by
        rw [← h.view]
        exact hid
      refine (Coro.wp_bind _ _).mpr (Coro.wp_mono (fun r s hs => ?_) (fun _ _ hs => ⟨v, hs.1⟩)
        (h.svc_wp (Q := fun r s => r.2.1 < s.store.nextUid inboxId drafts.name)
          (E := fun _ _ => True) fun m hm => Coro.wp_mono (fun _ _ hs => ⟨⟨none, hs.1⟩, hs.2⟩)
            (fun _ _ hs => ⟨⟨none, hs⟩, trivial⟩)
            (appendDraft_wp api inboxId fields (some clientId) hm)))
      obtain ⟨hs, hlt⟩ := hs
      have hid' : s.2.inboxId = some inboxId := by
        rw [← hview, ← hs.view]
        rfl
      refine hs.act_bind rfl ⟨fun x hx => ?_, (fun _ _ h => by cases h), fun _ => hs.ok⟩ fun s hs _ => ?_
      · rw [List.mem_singleton.mp hx, Session.here, hid']
        exact hlt
      · exact wp_rests (hs.act_wp (p := .defer _) rfl trivial) (fun _ _ hs => ⟨v, hs⟩)
          fun _ _ hs => ⟨v, hs⟩

/-! ## COPY and MOVE -/

/-- The UIDs a command names are a part of the view. -/
theorem targets_sublist (sel : Selected) (uidMode : Bool) (set : SequenceSet) :
    ((targets sel uidMode set).map (·.2)).Sublist sel.uids := by
  have hselect : ∀ ns : List Nat, (selectNumbers set ns).Sublist ns := by
    intro ns
    rw [selectNumbers]
    split
    · exact List.nil_sublist _
    · exact List.filter_sublist
  rw [targets]
  cases uidMode with
  | true =>
    rw [if_pos rfl, List.map_map]
    exact (List.map_id _).symm ▸ hselect sel.uids
  | false =>
    have hall : ((List.range sel.uids.length).map (· + 1)).map
        (fun seq => sel.uids.getD (seq - 1) 0) = sel.uids := by
      refine List.ext_getElem (by simp) fun i _ h => ?_
      simp [List.getD_eq_getElem?_getD, h]
    rw [if_neg nofun, List.map_map]
    have hsub := (hselect ((List.range sel.uids.length).map (· + 1))).map
      fun seq => sel.uids.getD (seq - 1) 0
    rw [hall] at hsub
    exact hsub

/-- The items a COPY names have ascending UIDs of the view. -/
theorem copyItems_ascending (h : sel.uids.Pairwise (· < ·)) (snap : Snapshot) (uidMode : Bool)
    (set : SequenceSet) :
    ((copyItems sel snap uidMode set).map (·.uid)).Pairwise (· < ·) := by
  have hsub : ∀ us : List Nat, ((us.filterMap snap.byUid).map (·.uid)).Sublist us := by
    intro us
    induction us with
    | nil => exact List.Sublist.refl _
    | cons u us ih =>
      cases hu : snap.byUid u with
      | none =>
        rw [List.filterMap_cons_none hu]
        exact ih.cons u
      | some item =>
        rw [List.filterMap_cons_some hu, List.map_cons, (Snapshot.byUid_some hu).2]
        exact ih.cons_cons u
  exact h.sublist ((hsub _).trans (targets_sublist sel uidMode set))

/-- A COPY of messages into Trash. -/
structure Copies (plan : CopyPlan) (set : SequenceSet) (name : String) (s : Shared) : Prop where
  copy : plan.move = false
  trash : (lookupMailbox name).map (·.name) = some trash.name
  items : ∃ sel inboxId source, s.2.selected = some sel ∧ s.2.inboxId = some inboxId ∧
    lookupMailbox sel.name = some source ∧ source.kind = .messages ∧
    ∀ snap, s.1.latest (inboxId, source.name) = some snap →
      copyItems sel snap plan.uidMode set ≠ []

theorem copyFinish_wp (tag : String) (plan : CopyPlan) (api : Client) {pairs : List (Nat × Nat)}
    (hw : Works v inboxId mdef sel) (h : Sits cfg R t v s) (hpairs : pairs = s.1.copied t)
    (hasc : (pairs.map (·.1)).Pairwise (· < ·))
    (hsource : ∀ x ∈ pairs, x.1 < s.1.store.nextUid inboxId mdef.name)
    (htarget : ∀ x ∈ pairs, x.2 < s.1.store.nextUid inboxId trash.name) :
    (copyFinish cfg t tag plan api inboxId mdef pairs).wp (gwLogic cfg R V t)
      (fun _ => Rests cfg R t) (fun _ => Rests cfg R t) s := by
  have hfacts : Has cfg R t v (fun s =>
      (∀ u ∈ pairs.map (·.1), u < s.store.nextUid inboxId mdef.name) ∧
        ∀ u ∈ pairs.map (·.2), u < s.store.nextUid inboxId trash.name) s := by
    refine ⟨h, fun u hu => ?_, fun u hu => ?_⟩
    · obtain ⟨x, hx, rfl⟩ := List.mem_map.mp hu
      exact hsource x hx
    · obtain ⟨x, hx, rfl⟩ := List.mem_map.mp hu
      exact htarget x hx
  rw [copyFinish]
  simp only [Coro.bind_eq]
  refine hfacts.own_bind ((Stable.lt_nextUid (inboxId, mdef.name) _).and
    (.lt_nextUid (inboxId, trash.name) _)) (p := .mailboxInfo (inboxId, trash.name)) trivial rfl
    nofun fun s' hs hs' => service_bind ?_
  have hpairs' : pairs = s'.1.copied t := by
    rw [hpairs, hs']
    rfl
  have hcode : ∀ n, ∀ x ∈ (Code.copyuid n (uidSet (pairs.map (·.1)))
      (uidSet (pairs.map (·.2)))).announces s'.2.here, x.2 < s'.1.store.nextUid x.1.1 x.1.2 := by
    intro _ x hx
    rw [Code.announces, hw.here hs.sits] at hx
    rcases List.mem_append.mp hx with hx | hx
    · obtain ⟨u, hu, rfl⟩ := List.mem_map.mp hx
      exact hs.facts.1 u (mem_expandSet_uidSet.mp hu)
    · obtain ⟨u, hu, rfl⟩ := List.mem_map.mp hx
      exact hs.facts.2 u (mem_expandSet_uidSet.mp hu)
  have hpaired : ∀ source target, (uidSet (pairs.map (·.1)), uidSet (pairs.map (·.2))) =
      (source, target) → source = uidSet ((s'.1.copied t).map (·.1)) ∧
        target = uidSet ((s'.1.copied t).map (·.2)) ∧
          ((s'.1.copied t).map (·.1)).Pairwise (· < ·) := by
    rintro source target heq
    cases heq
    rw [← hpairs']
    exact ⟨rfl, rfl, hasc⟩
  split
  · refine hs.sits.act_bind rfl
      ⟨fun x hx => hcode 0 x hx, fun source target heq => ?_, nofun⟩ fun s hs _ => ?_
    · exact hpaired source target (Option.some.inj heq)
    · refine (Coro.wp_bind _ _).mpr (Coro.wp_mono (fun _ s hs => ?_) (fun _ _ hs => ⟨v, hs⟩)
        (hs.syncForced_wp api mdef.name))
      refine (Coro.wp_bind _ _).mpr (Coro.wp_mono (fun _ s hs => ?_) (fun _ _ hs => hs)
        hs.1.flushPending_wp)
      obtain ⟨v, hs⟩ := hs
      exact hs.tag _ _ _ (fun _ => rfl) rfl
  · refine wp_rests (hs.sits.act_wp rfl ⟨fun x hx => hcode 0 x hx, fun source target heq => ?_,
      fun _ => hs.sits.ok⟩) (fun _ _ hs => ⟨v, hs⟩) fun _ _ hs => ⟨v, hs⟩
    exact hpaired source target (Option.some.inj heq)

theorem copy_wp (tag : String) (plan : CopyPlan) (set : SequenceSet) (name : String)
    (hV : V → Copies plan set name s → v.Writable) (h : Sits cfg R t v s) :
    (copy cfg t tag plan set name).wp (gwLogic cfg R V t) (fun _ => Rests cfg R t)
      (fun _ => Rests cfg R t) s := by
  rw [copy]
  simp only [Coro.bind_eq]
  refine requireSelected_bind ⟨v, h⟩ fun sel _ hsel => context_bind ⟨v, h⟩ fun api inboxId _ hid => ?_
  split
  · exact ⟨v, h⟩
  · rename_i dest hdest
    refine refuse_bind (fun _ => ⟨v, h⟩) fun htrash => mailboxOf_bind ⟨v, h⟩ fun mdef hdef => ?_
    have hw := h.works hsel hid hdef
    obtain ⟨_, _, _, _, _, hok⟩ := h.ok.view sel hsel
    refine refuse_bind (fun _ => ⟨v, h⟩) fun hkind => refuse_bind (fun _ => ⟨v, h⟩) fun hmove => ?_
    refine (Coro.wp_bind _ _).mpr (Coro.wp_mono (fun snap s' hs => ?_) (fun _ _ hs => ⟨v, hs⟩)
      (h.latestOrSync_wp api (lookupMailbox_self hw.known)))
    obtain ⟨hs, hlatest⟩ := hs
    split
    · exact hs.sits.tag _ _ _ (fun _ => rfl) rfl
    · rename_i hitems
      have hW : V → v.Writable := by
        intro hv
        cases hm : plan.move with
        | true =>
          refine hw.writable ?_
          cases hro : sel.readOnly with
          | false => rfl
          | true => exact absurd ⟨hm, hro⟩ hmove
        | false =>
          refine hV hv ⟨hm, ?_, sel, inboxId, mdef, hsel, hid, hdef, not_not.mp hkind,
            fun snap₀ h₀ => hlatest snap₀ h₀ ▸ hitems⟩
          rw [hdest]
          exact congrArg some (not_not.mp htrash)
      have hmem : ∀ item ∈ copyItems sel snap plan.uidMode set,
          snap.byUid item.uid = some item := by
        intro item hitem
        obtain ⟨uid, _, huid⟩ := List.mem_filterMap.mp hitem
        rw [(Snapshot.byUid_some huid).2]
        exact huid
      refine (Coro.wp_bind _ _).mpr (Coro.wp_mono (fun pairs s hs => ?_)
        (fun _ _ hs => hs.1.rests) (hs.svc_wp (Seen.stable _ _)
          (Q := fun pairs s => pairs = s.copied t ∧
            pairs.map (·.1) = (copyItems sel snap plan.uidMode set).map (·.uid) ∧
            ∀ x ∈ pairs, x.2 < s.store.nextUid inboxId trash.name)
          (E := fun _ _ => True) fun m hm => Coro.wp_mono (fun _ _ hs => ⟨⟨none, hs.1⟩, hs.2⟩)
            (fun _ _ hs => ⟨⟨none, hs⟩, trivial⟩)
            (copyToTrash_wp hW api inboxId mdef _ (not_not.mp hkind) (fun item hitem =>
              hs.facts.knows hw.known (Snapshot.byUid_some (hmem item hitem)).1) hm)))
      obtain ⟨hs, hpairs, hfirsts, htarget⟩ := hs
      refine copyFinish_wp tag plan api hw hs.sits hpairs ?_ (fun x hx => ?_) htarget
      · rw [hfirsts]
        exact copyItems_ascending hok.ascending snap plan.uidMode set
      · have hx : x.1 ∈ (copyItems sel snap plan.uidMode set).map (·.uid) :=
          hfirsts ▸ List.mem_map_of_mem hx
        obtain ⟨item, hitem, heq⟩ := List.mem_map.mp hx
        rw [← heq]
        exact hs.facts.lt (hmem item hitem)

/-! ## STATUS -/

theorem status_wp (tag name : String) (wanted : List String) (h : Sits cfg R t v s) :
    (status cfg t tag name wanted).wp (gwLogic cfg R V t) (fun _ => Rests cfg R t)
      (fun _ => Rests cfg R t) s := by
  rw [status]
  simp only [Coro.bind_eq]
  refine requireState_bind ⟨v, h⟩ fun _ => ?_
  split
  · exact ⟨v, h⟩
  · rename_i mdef _
    refine context_bind ⟨v, h⟩ fun api inboxId _ _ => ?_
    refine (Coro.wp_bind _ _).mpr (Coro.wp_mono (fun snap s hs => ?_) (fun _ _ hs => ⟨v, hs.1⟩)
      (h.svc_wp (Q := fun _ _ => True) (E := fun _ _ => True) fun m hm => ?_))
    · exact hs.1.send_bind rfl (fun _ => rfl) rfl rfl fun s hs _ => hs.tag _ _ _ (fun _ => rfl) rfl
    · obtain ⟨since, hm⟩ := hm
      exact Coro.wp_mono (fun _ _ hs => ⟨⟨m, since, hs.1⟩, trivial⟩)
        (fun _ _ hs => ⟨⟨m, since, hs⟩, trivial⟩) (sync_wp api mdef.name false hm)

/-! ## Dispatch -/

/-- The condition under which a command writes nothing in a read-only mailbox. -/
def Verb.Minds (verb : Verb) (s : Shared) : Prop :=
  match verb with
  | .copy plan set name => Copies plan set name s → s.2.view.Writable
  | _ => True

theorem handler_wp {n : Nat} (cmd : Command) (hV : V → cmd.verb.Minds s)
    (h : Sits cfg R (.conn n) v s) :
    (handler cfg txt n cmd).wp (gwLogic cfg R V (.conn n)) (fun _ => Rests cfg R (.conn n))
      (fun _ => Rests cfg R (.conn n)) s := by
  obtain ⟨tag, name, verb⟩ := cmd
  unfold handler
  cases verb with
  | login userid password => exact login_wp n tag userid password h
  | logout => exact logout_wp tag h
  | noop => exact noop_wp tag h
  | select name readOnly => exact select_wp tag name readOnly h
  | fetch uidMode set attrs => exact fetch_wp tag uidMode set attrs h
  | store set plan => exact store_wp tag set plan h
  | search uidMode crit => exact search_wp tag uidMode crit h
  | expunge => exact expunge_wp tag h
  | uidExpunge set => exact uidExpunge_wp tag set h
  | copy plan set name =>
    refine copy_wp tag plan set name (fun hv hcopies => ?_) h
    have hw := hV hv hcopies
    rw [h.view] at hw
    exact hw
  | close => exact close_wp tag h
  | append name message clientId => exact append_wp tag name message clientId h
  | status name wanted => exact status_wp tag name wanted h
  | plain name states lines => exact plain_wp tag name states lines h
  | refused status text code => exact ⟨v, h⟩

theorem report_wp (n : Nat) (cmd : Command) (e : Exc) (h : Sits cfg R t v s) :
    (report cfg n cmd e).wp (gwLogic cfg R V t) (fun _ => Rests cfg R t) (fun _ => Rests cfg R t) s := by
  unfold report
  cases e with
  | commandFailed status text code =>
    refine h.tag _ _ _ (fun _ => ?_) ?_
    · cases code <;> rfl
    · cases code <;> rfl
  | auth status =>
    simp only [Coro.bind_eq]
    refine session_bind ?_
    split
    · exact h.tag _ _ _ (fun _ => rfl) rfl
    · split
      · exact h.tag _ _ _ (fun _ => rfl) rfl
      · refine h.send_bind rfl (fun _ => rfl) rfl rfl fun s hs _ => ?_
        exact wp_rests (hs.act_wp (p := .setState .logout) rfl nofun) (fun _ _ hs => ⟨v, hs⟩)
          fun _ _ hs => ⟨v, hs⟩
  | unavailable => exact h.tag _ _ _ (fun _ => rfl) rfl
  | notFound => exact h.tag _ _ _ (fun _ => rfl) rfl
  | badRequest => exact h.tag _ _ _ (fun _ => rfl) rfl
  | timeout => exact h.tag _ _ _ (fun _ => rfl) rfl
  | cancelled => exact h.tag _ _ _ (fun _ => rfl) rfl
  | internal => exact h.tag _ _ _ (fun _ => rfl) rfl

theorem flush_rests (h : Rests cfg R t s) : flush.wp (gwLogic cfg R V t) (fun _ => Rests cfg R t)
    (fun _ => Rests cfg R t) s := by
  obtain ⟨v, h⟩ := h
  exact wp_rests (flush_keeps Stable.true s h.has) (fun _ _ hs => hs.rests) fun _ _ hs => hs.rests

theorem runDeferred_wp (h : Sits cfg R t v s) :
    runDeferred.wp (gwLogic cfg R V t) (fun _ => Rests cfg R t) (fun _ => Rests cfg R t) s := by
  rw [runDeferred]
  simp only [Coro.bind_eq, Coro.pure_eq, Coro.attempt]
  refine session_bind (h.act_bind (p := .takeDeferred) rfl trivial fun s h _ => ?_)
  refine (Coro.wp_bind _ _).mpr (Coro.wp_mono (fun _ s hs => ?_) (fun _ _ hs => ⟨v, hs⟩)
    (Coro.wp_each (I := fun _ => Sits cfg R t v) (fun n _ s hs => ?_) _ h))
  · refine session_bind ?_
    split
    · exact (Coro.wp_bind _ _).mpr (Coro.wp_mono (fun _ s hs => flush_rests hs) (fun _ _ hs => hs)
        hs.flushPending_wp)
    · exact ⟨v, hs⟩
  · refine (Coro.wp_bind _ _).mpr ((Coro.wp_handle _ _).mpr ((Coro.wp_bind _ _).mpr ?_))
    exact hs.ask_wp (q := .deferred n) rfl

/-- Dispatch, whatever the command. -/
theorem dispatch_wp {n : Nat} (cmd : Command) (hV : V → cmd.verb.Minds s)
    (h : Rests cfg R (.conn n) s) :
    (dispatch cfg txt n cmd).wp (gwLogic cfg R V (.conn n)) (fun _ => Rests cfg R (.conn n))
      (fun _ => Rests cfg R (.conn n)) s := by
  obtain ⟨v, h⟩ := h
  have hafter : ∀ s : Shared, Rests cfg R (.conn n) s → (session.bind fun l =>
      if l.state = .notAuthenticated ∧ l.api.isSome then
        (act .clearCredentials).bind fun _ => runDeferred
      else runDeferred).wp (gwLogic cfg R V (.conn n)) (fun _ => Rests cfg R (.conn n))
          (fun _ => Rests cfg R (.conn n)) s := by
    rintro s ⟨v, hs⟩
    refine session_bind ?_
    split
    · exact hs.act_bind (p := .clearCredentials) rfl trivial fun s hs _ => runDeferred_wp hs
    · exact runDeferred_wp hs
  rw [dispatch]
  simp only [Coro.bind_eq, Coro.attempt]
  refine (Coro.wp_bind _ _).mpr ((Coro.wp_handle _ _).mpr ((Coro.wp_bind _ _).mpr
    (Coro.wp_mono (fun _ s hs => hafter s hs) (fun e s hs => ?_) (handler_wp cmd hV h))))
  obtain ⟨v, hs⟩ := hs
  exact (Coro.wp_bind _ _).mpr (Coro.wp_mono (fun _ s hs => hafter s hs) (fun _ _ hs => hs)
    (report_wp n cmd e hs))

end Imap
end ImapGateway
