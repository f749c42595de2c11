/-
Every handler keeps its session in order and owes what it announces.

A handler starts from a session in order and ends, however it ends, with one in
order.  In between it works on a snapshot it was given, whose items stay known
and whose UIDs stay below the next one whatever the others do.
-/
import ImapGateway.Imap.Logic

namespace ImapGateway
namespace Imap

open Async Mailbox

variable {cfg : Config} {txt : TextConfig} {R : Regime} {V : Prop} {t : Tid} {v : View}
  {K : Service → Prop} {s : Shared}

/-- Some session in order. -/
def Rests (cfg : Config) (R : Regime) (t : Tid) (s : Shared) : Prop := ∃ v, Sits cfg R t v s

theorem Has.rests (h : Has cfg R t v K s) : Rests cfg R t s := ⟨v, h.sits⟩

theorem Sits.has (h : Sits cfg R t v s) : Has cfg R t v (fun _ => True) s := ⟨h, trivial⟩

/-- Up to its end, however it ends. -/
theorem wp_rests {α : Type} {x : Prog α} {Q : α → Shared → Prop} {E : Exc → Shared → Prop}
    (h : x.wp (gwLogic cfg R V t) Q E s) (hQ : ∀ a s, Q a s → Rests cfg R t s)
    (hE : ∀ e s, E e s → Rests cfg R t s) :
    x.wp (gwLogic cfg R V t) (fun _ => Rests cfg R t) (fun _ => Rests cfg R t) s :=
  Coro.wp_mono hQ hE h

/-! ## Responses -/

/-- A tagged response that announces nothing. -/
theorem Sits.tag (h : Sits cfg R t v s) (tag status text : String) {code : Option Code}
    (ha : ∀ key, (Response.tagged tag status text code).announces key = [])
    (hc : (Response.tagged tag status text code).copyuid = none) :
    (send (.tagged tag status text code)).wp (gwLogic cfg R V t) (fun _ => Rests cfg R t)
      (fun _ => Rests cfg R t) s :=
  wp_rests (h.act_wp rfl (Tells.of_settled (ha _) hc h.ok)) (fun _ _ hs => ⟨v, hs⟩)
    fun _ _ hs => ⟨v, hs⟩

theorem Sits.send_bind {α : Type} {r : Response} {k : Unit → Prog α} {Q : α → Shared → Prop}
    {E : Exc → Shared → Prop} (h : Sits cfg R t v s) (hp : (Act.send r).quiet = true)
    (ha : ∀ key, r.announces key = []) (hc : r.copyuid = none) (ht : r.isTagged = false)
    (hk : ∀ s', Sits cfg R t v s' → s'.1 = s.1 → (k ()).wp (gwLogic cfg R V t) Q E s') :
    ((send r).bind k).wp (gwLogic cfg R V t) Q E s :=
  h.act_bind hp (Tells.of_plain (ha _) hc ht) hk

/-- Waiting for the client to read. -/
theorem flush_keeps (hK : Stable K) : Coro.Keeps (gwLogic cfg R V t) (Has cfg R t v K) flush := by
  intro s hs
  rw [flush]
  simp only [Coro.bind_eq, Coro.pure_eq, Coro.throw_eq, Coro.attempt]
  refine session_bind ?_
  split
  · exact hs
  · have hask : (svc (ask .drain)).wp (gwLogic cfg R V t) (fun _ => Has cfg R t v K)
        (fun _ => Has cfg R t v K) s :=
      Coro.wp_mono (fun _ _ h => ⟨h.1, h.2⟩) (fun _ _ h => ⟨h.1, h.2⟩)
        (wp_grows hK hs.sits.inv hs.facts (hs.sits.ask_wp (q := .drain) rfl))
    refine (Coro.wp_bind _ _).mpr ((Coro.wp_handle _ _).mpr ((Coro.wp_bind _ _).mpr
      (Coro.wp_mono (fun a s hs => ?_) (fun e s hs => ?_) hask)))
    · exact hs
    · rw [Coro.wp_ret]
      split
      · rename_i he
        cases he
      · exact hs
      · exact hs.act_wp rfl trivial

/-- The announcements of `flush_pending`. -/
theorem Sits.flushPending_wp (h : Sits cfg R t v s) :
    (act .flushPending).wp (gwLogic cfg R V t) (fun _ => Rests cfg R t) (fun _ => Rests cfg R t)
      s := by
  refine ⟨⟨h.inv, h.ok⟩, _, h.become ?_ rfl⟩
  exact (Session.flushPending_ok h.ok h.inv.latest).1

/-! ## What handlers look up -/

theorem requireState_bind {α : Type} {L : Logic Shared (Mailbox.Act ⊕ Act) Req Req.Answer}
    {states : List State} {k : Unit → Prog α} {Q : α → Shared → Prop} {E : Exc → Shared → Prop}
    (hE : E (bad "command not allowed in this state") s)
    (hk : s.2.state ∈ states → (k ()).wp L Q E s) : ((requireState states).bind k).wp L Q E s := by
  rw [requireState]
  simp only [Coro.bind_eq]
  refine (Coro.wp_bind _ _).mpr (session_bind ?_)
  rw [refuse]
  split
  · exact hE
  · rename_i hin
    exact hk (not_not.mp hin)

theorem requireSelected_bind {α : Type} {L : Logic Shared (Mailbox.Act ⊕ Act) Req Req.Answer}
    {k : Selected → Prog α} {Q : α → Shared → Prop} {E : Exc → Shared → Prop}
    (hE : E (bad "no mailbox selected") s)
    (hk : ∀ sel, s.2.state = .selected → s.2.selected = some sel → (k sel).wp L Q E s) :
    (requireSelected.bind k).wp L Q E s := by
  rw [requireSelected]
  simp only [Coro.bind_eq, Coro.pure_eq, Coro.throw_eq]
  refine (Coro.wp_bind _ _).mpr (session_bind ?_)
  split
  · rename_i sel hstate hsel
    exact hk sel hstate hsel
  · exact hE

theorem context_bind {α : Type} {L : Logic Shared (Mailbox.Act ⊕ Act) Req Req.Answer}
    {k : Client × String → Prog α} {Q : α → Shared → Prop} {E : Exc → Shared → Prop}
    (hE : E .internal s)
    (hk : ∀ api inboxId, s.2.api = some api → s.2.inboxId = some inboxId →
      (k (api, inboxId)).wp L Q E s) : (context.bind k).wp L Q E s := by
  rw [context]
  simp only [Coro.bind_eq, Coro.pure_eq, Coro.throw_eq]
  refine (Coro.wp_bind _ _).mpr (session_bind ?_)
  split
  · rename_i api inboxId hapi hid
    exact hk api inboxId hapi hid
  · exact hE

theorem mailboxOf_bind {α : Type} {L : Logic Shared (Mailbox.Act ⊕ Act) Req Req.Answer}
    {name : String} {k : MailboxDef → Prog α} {Q : α → Shared → Prop} {E : Exc → Shared → Prop}
    (hE : E .internal s) (hk : ∀ mdef, lookupMailbox name = some mdef → (k mdef).wp L Q E s) :
    ((mailboxOf name).bind k).wp L Q E s := by
  rw [mailboxOf]
  split
  · rename_i mdef hdef
    exact hk mdef hdef
  · exact hE

/-! ## The mailbox a handler works on -/

/-- The view is of mailbox `mdef` of the inbox. -/
structure Works (v : View) (inboxId : String) (mdef : MailboxDef) (sel : Selected) : Prop where
  inbox : v.inboxId = some inboxId
  selected : v.selected = some (mdef.name, sel.readOnly, sel.uids)
  known : mdef ∈ mailboxes

theorem Sits.works {sel : Selected} {inboxId : String} {mdef : MailboxDef}
    (h : Sits cfg R t v s) (hsel : s.2.selected = some sel) (hid : s.2.inboxId = some inboxId)
    (hdef : lookupMailbox sel.name = some mdef) : Works v inboxId mdef sel := by
  obtain ⟨inboxId', mdef', hid', hdef', hname, _⟩ := h.ok.view sel hsel
  rw [hdef] at hdef'
  cases hdef'
  have hview := h.view
  subst hview
  exact ⟨hid, by rw [Session.view_of_selected hsel, hname], lookupMailbox_mem hdef⟩

variable {inboxId : String} {mdef : MailboxDef} {sel : Selected} {snap : Snapshot} {item : Item}

theorem Works.here (hw : Works v inboxId mdef sel) (h : Sits cfg R t v s) :
    s.2.here = (inboxId, mdef.name) := by
  have hview := h.view
  have hid := hw.inbox
  have hsel := hw.selected
  rw [← hview] at hid hsel
  obtain ⟨sel', hsel', hx⟩ := Option.map_eq_some_iff.mp hsel
  rw [Session.here, show s.2.inboxId = some inboxId from hid, hsel']
  simp only [Option.getD_some, Option.map_some]
  rw [show sel'.name = mdef.name from congrArg Prod.fst hx]

theorem Works.writable (hw : Works v inboxId mdef sel) (hro : sel.readOnly = false) :
    v.Writable := by
  intro x hx
  rw [hw.selected] at hx
  cases hx
  exact hro

/-- A snapshot of the mailbox that was returned by a sync. -/
structure Seen (key : Key) (snap : Snapshot) (s : Service) : Prop where
  valid : snap.Valid s.store
  shown : snap.Shown s
  key_eq : snap.key = key

theorem Seen.stable (key : Key) (snap : Snapshot) : Stable (Seen key snap) :=
  fun _ _ he hs => ⟨hs.valid.grows he.store, he.snapshotShown hs.shown, hs.key_eq⟩

theorem Seen.knows {s : Service} (h : Seen (inboxId, mdef.name) snap s) (hdef : mdef ∈ mailboxes)
    (hitem : item ∈ snap.items) : s.Knows inboxId mdef item := by
  have hshown := h.shown item hitem
  rw [h.key_eq] at hshown
  exact ⟨hdef, hshown⟩

theorem Seen.lt {s : Service} {key : Key} {uid : Nat} (h : Seen key snap s)
    (hu : snap.byUid uid = some item) : uid < s.store.nextUid key.1 key.2 := by
  have hmem : uid ∈ snap.uids := Snapshot.byUid_isSome.mp (by rw [hu]; rfl)
  have hkey := h.key_eq
  subst hkey
  exact Nat.lt_of_lt_of_le (h.valid.below uid hmem) h.valid.reached

/-- What a forced sync gives a handler. -/
theorem Sits.syncForced_wp (api : Client) (name : String) (h : Sits cfg R t v s) :
    (svc (syncForced cfg t api inboxId name)).wp (gwLogic cfg R V t)
      (fun snap s => Sits cfg R t v s ∧ ∃ mdef, lookupMailbox name = some mdef ∧
        Seen (inboxId, mdef.name) snap s.1) (fun _ => Sits cfg R t v) s := by
  refine Coro.wp_mono (fun _ _ hs => hs) (fun _ _ hs => hs.1) (h.svc_wp
    (Q := fun snap s => ∃ mdef, lookupMailbox name = some mdef ∧ Seen (inboxId, mdef.name) snap s)
    (E := fun _ _ => True) fun m hm => ?_)
  refine Coro.wp_mono (fun snap s hs => ?_) (fun _ _ hs => ⟨⟨m, hs⟩, trivial⟩)
    (Mailbox.syncForced_wp api name hm)
  obtain ⟨hstands, ⟨hvalid, hshown⟩, mdef, hdef, hkey⟩ := hs
  exact ⟨⟨m, hstands⟩, mdef, hdef, hvalid, hshown, hkey⟩

/-- The latest snapshot, or the one of a sync. -/
theorem Sits.latestOrSync_wp (api : Client) (h : Sits cfg R t v s)
    (hdef : lookupMailbox mdef.name = some mdef) :
    (latestOrSync cfg t api inboxId mdef).wp (gwLogic cfg R V t)
      (fun snap s' => Has cfg R t v (Seen (inboxId, mdef.name) snap) s' ∧
        ∀ snap₀, s.1.latest (inboxId, mdef.name) = some snap₀ → snap = snap₀)
      (fun _ => Sits cfg R t v) s := by
  rw [latestOrSync]
  simp only [Coro.bind_eq, Coro.pure_eq]
  refine service_bind ?_
  split
  · rename_i snap hsnap
    have hcur := h.inv.latest _ _ hsnap
    refine ⟨⟨h, hcur.valid, h.inv.latestShown _ _ hsnap, hcur.key_eq⟩, fun snap₀ h₀ => ?_⟩
    rw [hsnap] at h₀
    exact Option.some.inj h₀
  · rename_i hnone
    refine Coro.wp_mono (fun snap s' hs => ?_) (fun _ _ hs => hs) (h.syncForced_wp api mdef.name)
    obtain ⟨hsits, mdef', hdef', hseen⟩ := hs
    rw [hdef] at hdef'
    cases hdef'
    refine ⟨⟨hsits, hseen⟩, fun snap₀ h₀ => ?_⟩
    rw [hnone] at h₀
    cases h₀

theorem lookupMailbox_self (h : mdef ∈ mailboxes) : lookupMailbox mdef.name = some mdef := by
  have hall : ∀ m ∈ mailboxes, lookupMailbox m.name = some m := by decide +kernel
  exact hall mdef h

/-! ## Any state -/

theorem noop_wp (tag : String) (h : Sits cfg R t v s) :
    (noop cfg t tag).wp (gwLogic cfg R V t) (fun _ => Rests cfg R t) (fun _ => Rests cfg R t) s := by
  rw [noop]
  simp only [Coro.bind_eq]
  refine session_bind ?_
  split
  · refine (Coro.wp_bind _ _).mpr (Coro.wp_mono (fun snap s hs => ?_) (fun _ _ hs => ⟨v, hs⟩)
      (h.syncForced_wp _ _))
    refine (Coro.wp_bind _ _).mpr (Coro.wp_mono (fun _ s hs => ?_) (fun _ _ hs => hs)
      hs.1.flushPending_wp)
    obtain ⟨v', hs⟩ := hs
    exact hs.tag _ _ _ (fun _ => rfl) rfl
  · exact h.tag _ _ _ (fun _ => rfl) rfl

theorem logout_wp (tag : String) (h : Sits cfg R t v s) :
    (logout tag).wp (gwLogic cfg R V t) (fun _ => Rests cfg R t) (fun _ => Rests cfg R t) s := by
  rw [logout]
  simp only [Coro.bind_eq]
  refine h.send_bind rfl (fun _ => rfl) rfl rfl fun s h _ => ?_
  refine (Coro.wp_bind _ _).mpr (Coro.wp_mono (fun _ s hs => ?_) (fun _ _ hs => hs)
    (h.tag _ _ _ (fun _ => rfl) rfl))
  obtain ⟨v, hs⟩ := hs
  exact wp_rests (hs.act_wp (p := .setState .logout) rfl nofun) (fun _ _ hs => ⟨v, hs⟩)
    fun _ _ hs => ⟨v, hs⟩

theorem plain_wp (tag name : String) (states : List State) (lines : List String)
    (h : Sits cfg R t v s) :
    (plain tag name states lines).wp (gwLogic cfg R V t) (fun _ => Rests cfg R t)
      (fun _ => Rests cfg R t) s := by
  rw [plain]
  simp only [Coro.bind_eq]
  refine requireState_bind ⟨v, h⟩ fun _ => ?_
  refine (Coro.wp_bind _ _).mpr (Coro.wp_mono (fun _ s hs => hs.tag _ _ _ (fun _ => rfl) rfl)
    (fun _ _ hs => ⟨v, hs⟩) (Coro.wp_each (I := fun _ => Sits cfg R t v)
      (fun line _ s hs => hs.act_wp (p := .send (.other line)) rfl (Tells.of_plain rfl rfl rfl))
      lines h))

/-! ## LOGIN -/

theorem checkInbox_wp (api : Client) (userid : String) (identity : Identity)
    (h : Sits cfg R t v s) : (checkInbox api userid identity).wp (gwLogic cfg R V t)
      (fun _ => Sits cfg R t v) (fun _ => Sits cfg R t v) s := by
  rw [checkInbox]
  split
  · simp only [Coro.bind_eq, Coro.pure_eq, Coro.throw_eq, Coro.attempt]
    refine (Coro.wp_bind _ _).mpr ((Coro.wp_handle _ _).mpr ((Coro.wp_bind _ _).mpr
      (Coro.wp_mono (fun a s hs => hs) (fun e s hs => ?_)
        (h.ask_wp (q := .getInbox api userid) rfl))))
    rw [Coro.wp_ret]
    split
    · exact hs
    · exact hs
    · exact hs
    · exact hs
  · exact h

theorem login_wp (n : Nat) (tag userid password : String) (h : Sits cfg R t v s) :
    (login cfg n tag userid password).wp (gwLogic cfg R V t) (fun _ => Rests cfg R t)
      (fun _ => Rests cfg R t) s := by
  rw [login]
  simp only [Coro.bind_eq]
  refine session_bind (refuse_bind (fun _ => ⟨v, h⟩) fun hstate => ?_)
  refine refuse_bind (fun _ => ⟨v, h⟩) fun _ => refuse_bind (fun _ => ⟨v, h⟩) fun _ => ?_
  have hnone : s.2.selected = none := h.ok.fresh (not_not.mp hstate)
  have hset : Sits cfg R t ⟨some userid, none⟩
      ((gwLogic cfg R V t).exec (.inr (.setCredentials n userid password)) s) := by
    refine h.become (Session.Ok.of_none hnone) ?_
    show View.mk (some userid) (s.2.selected.map _) = _
    rw [hnone]
    rfl
  refine ⟨⟨h.inv, hnone⟩, context_bind ⟨_, hset⟩ fun api inboxId _ _ => ?_⟩
  refine (Coro.wp_bind _ _).mpr (Coro.wp_mono (fun identity s hs => ?_) (fun _ _ hs => ⟨_, hs⟩)
    (hset.ask_wp (q := .authMe api) rfl))
  refine refuse_bind (fun _ => ⟨_, hs⟩) fun _ => ?_
  refine (Coro.wp_bind _ _).mpr (Coro.wp_mono (fun _ s hs => ?_) (fun _ _ hs => ⟨_, hs⟩)
    (checkInbox_wp api userid identity hs))
  exact hs.act_bind (p := .setState .authenticated) rfl nofun fun s hs _ =>
    hs.tag _ _ _ (fun _ => rfl) rfl

/-! ## SELECT and EXAMINE -/

/-- The snapshot becomes the view, and the client has it too. -/
theorem Sits.openView_wp {readOnly : Bool} (h : Sits cfg R t v s) (hid : s.2.inboxId = some inboxId)
    (hdef : mdef ∈ mailboxes) (hseen : Seen (inboxId, mdef.name) snap s.1) :
    (openView snap readOnly).wp (gwLogic cfg R V t)
      (fun _ => Rests cfg R t) (fun _ => Rests cfg R t) s := by
  obtain ⟨sel, hsel, hname, _, huids, hok⟩ :=
    Session.applySnapshot_view s.2 readOnly hseen.key_eq hseen.valid
  have hview : ∀ r : Response, ((s.2.applySnapshot s.1 snap readOnly).write r).selected = some sel :=
    fun _ => hsel
  rw [openView]
  simp only [Coro.bind_eq]
  refine ⟨⟨h.inv, inboxId, mdef, hid, hdef, hseen.key_eq, hseen.valid⟩,
    ⟨h.inv, Tells.of_plain rfl rfl rfl⟩, ⟨h.inv, Tells.of_plain rfl rfl rfl⟩, _, h.stands, ?_, rfl⟩
  refine ⟨nofun, fun sel' h' => ?_, fun sel' h' => .inl ?_⟩
  · have h' : (s.2.applySnapshot s.1 snap readOnly).selected = some sel' := h'
    rw [hsel] at h'
    cases h'
    exact ⟨inboxId, mdef, hid, hname ▸ lookupMailbox_self hdef, hname.symm, hok⟩
  · have h' : (s.2.applySnapshot s.1 snap readOnly).selected = some sel' := h'
    rw [hsel] at h'
    cases h'
    let l := (s.2.applySnapshot s.1 snap readOnly).write
      (.other "FLAGS (\\Seen \\Answered \\Flagged \\Deleted \\Draft)")
    have hlist : l.uids = snap.uids := by
      rw [Session.uids, hview]
      exact huids
    show (if snap.uids.length ≤ l.uids.length then
      ClientView.viewing (l.uids.take snap.uids.length) else .lost) = .viewing sel.uids
    rw [hlist, if_pos (Nat.le_refl _), List.take_length, huids]

theorem select_wp (tag name : String) (readOnly : Bool) (h : Sits cfg R t v s) :
    (select cfg t tag name readOnly).wp (gwLogic cfg R V t) (fun _ => Rests cfg R t)
      (fun _ => Rests cfg R t) s := by
  rw [select]
  simp only [Coro.bind_eq]
  refine requireState_bind ⟨v, h⟩ fun _ => ?_
  have hnone : Sits cfg R t ⟨s.2.inboxId, none⟩ ((gwLogic cfg R V t).exec (.inr .deselect) s) :=
    h.become (Session.Ok.of_none rfl) rfl
  refine ⟨⟨h.inv, trivial⟩, ?_⟩
  split
  · exact ⟨_, hnone⟩
  · rename_i mdef hlookup
    have hdef := lookupMailbox_mem hlookup
    refine context_bind ⟨_, hnone⟩ fun api inboxId _ hid => ?_
    refine (Coro.wp_bind _ _).mpr (Coro.wp_mono (fun snap s hs => ?_) (fun _ _ hs => ⟨_, hs⟩)
      (hnone.syncForced_wp api mdef.name))
    obtain ⟨hs, mdef', hdef', hseen⟩ := hs
    rw [lookupMailbox_self hdef] at hdef'
    cases hdef'
    have hid' : s.2.inboxId = some inboxId := by
      have hview := congrArg View.inboxId hs.view
      exact hview.trans hid
    refine (Coro.wp_bind _ _).mpr (Coro.wp_mono (fun _ s hs => ?_) (fun _ _ hs => hs)
      (hs.openView_wp hid' hdef hseen))
    obtain ⟨v, hs⟩ := hs
    refine hs.send_bind rfl (fun _ => rfl) rfl rfl fun s hs _ => ?_
    have hunseen : (sendUnseen (firstUnseen snap snap.uids)).wp (gwLogic cfg R V t)
        (fun _ => Sits cfg R t v) (fun _ => Sits cfg R t v) s := by
      cases firstUnseen snap snap.uids with
      | some seq =>
        exact hs.act_wp (p := .send (.ok ("Message " ++ toString seq ++ " is first unseen")
          (.unseen seq))) rfl (Tells.of_plain rfl rfl rfl)
      | none => exact hs
    refine (Coro.wp_bind _ _).mpr (Coro.wp_mono (fun _ s hs => ?_) (fun _ _ hs => ⟨v, hs⟩) hunseen)
    refine hs.send_bind rfl (fun _ => rfl) rfl rfl fun s hs _ => ?_
    refine hs.send_bind rfl (fun _ => rfl) rfl rfl fun s hs _ => ?_
    refine hs.send_bind rfl (fun _ => rfl) rfl rfl fun s hs _ => ?_
    refine hs.tag _ _ _ (fun _ => ?_) ?_
    · cases readOnly <;> rfl
    · cases readOnly <;> rfl

/-! ## FETCH -/

/-- Reading an item keeps what a handler has. -/
theorem Has.reads_wp {α : Type} {x : Svc α} (h : Has cfg R t v K s) (hK : Stable K)
    (hitem : s.1.Knows inboxId mdef item)
    (hx : ∀ m s, Mailbox.Reads cfg R t m inboxId mdef item s →
      x.wp (svcLogic cfg R (V → v.Writable) t) (fun _ => Mailbox.Reads cfg R t m inboxId mdef item)
        (fun _ => Mailbox.Reads cfg R t m inboxId mdef item) s) :
    (svc x).wp (gwLogic cfg R V t) (fun _ => Has cfg R t v K) (fun _ => Has cfg R t v K) s :=
  Coro.wp_mono (fun _ _ hs => hs.1) (fun _ _ hs => hs.1)
    (h.svc_wp hK (Q := fun _ _ => True) (E := fun _ _ => True) fun m hm =>
      Coro.wp_mono (fun _ _ hs => ⟨⟨m, hs.1⟩, trivial⟩) (fun _ _ hs => ⟨⟨m, hs.1⟩, trivial⟩)
        (hx m s.1 ⟨hm, hitem⟩))

/-- The UIDs among the parts are that of the message. -/
def OnlyUid (uid : Nat) (parts : List Part) : Prop := ∀ u ∈ parts.filterMap Part.uidOf, u = uid

theorem OnlyUid.append {uid : Nat} {parts : List Part} {p : Part} (h : OnlyUid uid parts)
    (hp : ∀ u, p.uidOf = some u → u = uid) : OnlyUid uid (parts ++ [p]) := by
  intro u hu
  rw [List.filterMap_append, List.mem_append] at hu
  rcases hu with hu | hu
  · exact h u hu
  · obtain ⟨q, hq, hqu⟩ := List.mem_filterMap.mp hu
    rw [List.mem_singleton.mp hq] at hqu
    exact hp u hqu

theorem fetchParts_wp (api : Client) (plan : FetchPlan) (uid : Nat) (raw : Option Bytes)
    {parts : List Part} (attr : FetchAttr) (h : Has cfg R t v K s) (hK : Stable K)
    (hitem : ∀ s, K s → s.Knows inboxId mdef item) (hparts : OnlyUid uid parts) :
    (fetchParts cfg api inboxId mdef plan uid item raw parts attr).wp (gwLogic cfg R V t)
      (fun parts s => Has cfg R t v K s ∧ OnlyUid uid parts) (fun _ => Has cfg R t v K) s := by
  unfold fetchParts
  simp only [Coro.bind_eq, Coro.pure_eq, Coro.throw_eq]
  split
  · exact ⟨h, hparts.append fun u hu => (Option.some.inj hu).symm⟩
  · exact h.act_bind (p := .recordFlags ..) rfl trivial fun s hs =>
      ⟨hs, hparts.append (p := .flags _) nofun⟩
  · exact ⟨h, hparts.append (p := .internaldate _) nofun⟩
  · split
    · exact ⟨h, hparts.append (p := .size _) nofun⟩
    · exact (Coro.wp_bind _ _).mpr (Coro.wp_mono
        (fun n s hs => ⟨hs, hparts.append (p := .size n) nofun⟩) (fun _ _ hs => hs)
        (h.reads_wp hK (hitem _ h.facts) fun _ _ hs => sizeOf_wp api hs))
  · split
    · exact ⟨h, hparts.append (p := .body ..) nofun⟩
    · exact h

theorem fetchAll_wp (api : Client) (plan : FetchPlan) (uid : Nat) (raw : Option Bytes)
    (attrs : List FetchAttr) (h : Has cfg R t v K s) (hK : Stable K)
    (hitem : ∀ s, K s → s.Knows inboxId mdef item) :
    (Coro.foldEach (fetchParts cfg api inboxId mdef plan uid item raw) [] attrs).wp
      (gwLogic cfg R V t) (fun parts s => Has cfg R t v K s ∧ OnlyUid uid parts)
      (fun _ => Has cfg R t v K) s :=
  Coro.wp_foldEach (I := fun parts _ s => Has cfg R t v K s ∧ OnlyUid uid parts)
    (fun _ attr _ _ hs => fetchParts_wp api plan uid raw attr hs.1 hK hitem hs.2) [] attrs
    ⟨h, nofun⟩

theorem fetchRaw_wp (api : Client) (plan : FetchPlan) (h : Has cfg R t v K s) (hK : Stable K)
    (hitem : ∀ s, K s → s.Knows inboxId mdef item) :
    (fetchRaw cfg api inboxId mdef plan item).wp (gwLogic cfg R V t)
      (fun _ => Has cfg R t v K) (fun _ => Has cfg R t v K) s := by
  rw [fetchRaw]
  split
  · exact (Coro.wp_bind _ _).mpr (Coro.wp_mono (fun _ _ hs => hs) (fun _ _ hs => hs)
      (h.reads_wp hK (hitem _ h.facts) fun _ _ hs => rawBytes_wp api hs))
  · exact h

/-- A change of flags leaves the handler with the same item. -/
theorem Has.setFlag_wp (hW : V → v.Writable) (api : Client) (flag : Flag) (value : Bool)
    (h : Has cfg R t v K s) (hK : Stable K) (hitem : s.1.Knows inboxId mdef item) :
    (svc (setFlag api inboxId mdef item flag value)).wp (gwLogic cfg R V t)
      (fun item' s => Has cfg R t v (fun s => K s ∧ s.Knows inboxId mdef item') s ∧
        item.Same item') (fun _ => Has cfg R t v K) s :=
  Coro.wp_mono (fun _ _ hs => ⟨⟨hs.1.1, hs.1.2, hs.2.1⟩, hs.2.2⟩) (fun _ _ hs => hs.1)
    (h.svc_wp hK (Q := fun item' s => s.Knows inboxId mdef item' ∧ item.Same item')
      (E := fun _ _ => True) fun m hm =>
        Coro.wp_mono (fun _ _ hs => ⟨⟨m, hs.1.1⟩, hs.1.2, hs.2⟩) (fun _ _ hs => ⟨⟨m, hs.1⟩, trivial⟩)
          (Mailbox.setFlag_wp hW api flag value ⟨hm, hitem⟩))

theorem fetchItem_wp (api : Client) (plan : FetchPlan) (uid : Nat) (h : Has cfg R t v K s)
    (hK : Stable K) (hitem : ∀ s, K s → s.Knows inboxId mdef item)
    (hW : V → plan.setsSeen = true → v.Writable) :
    (fetchItem cfg api inboxId mdef plan uid item).wp (gwLogic cfg R V t)
      (fun parts s => Has cfg R t v K s ∧ OnlyUid uid parts) (fun _ => Has cfg R t v K) s := by
  rw [fetchItem]
  simp only [Coro.bind_eq, Coro.pure_eq]
  refine (Coro.wp_bind _ _).mpr (Coro.wp_mono (fun raw s hs => ?_) (fun _ _ hs => hs)
    (fetchRaw_wp api plan h hK hitem))
  split
  · rename_i hseen
    refine (Coro.wp_bind _ _).mpr (Coro.wp_mono (fun item' s hs => ?_) (fun _ _ hs => hs)
      (hs.setFlag_wp (fun hV => hW hV hseen.1) api .seen true hK (hitem _ hs.facts)))
    have hK' : Stable fun s => K s ∧ s.Knows inboxId mdef item' := hK.and (.knows _ _ _)
    refine (Coro.wp_bind _ _).mpr (Coro.wp_mono (fun parts s hs => ?_)
      (fun _ _ hs => ⟨hs.sits, hs.facts.1⟩)
      (fetchAll_wp api plan uid raw plan.attrs hs.1 hK' fun _ hs => hs.2))
    have hs' : Has cfg R t v K s := ⟨hs.1.sits, hs.1.facts.1⟩
    split
    · exact ⟨hs', hs.2⟩
    · exact hs'.act_bind (p := .recordFlags ..) rfl trivial fun s h =>
        ⟨h, hs.2.append (p := .flags _) nofun⟩
  · exact fetchAll_wp api plan uid raw plan.attrs hs hK hitem

/-- A response about a message of the mailbox. -/
theorem Works.tells_fetch {seq uid : Nat} {parts : List Part} (hw : Works v inboxId mdef sel)
    (h : Sits cfg R t v s) (hparts : OnlyUid uid parts)
    (hlt : uid < s.1.store.nextUid inboxId mdef.name) :
    Tells t (.fetch seq uid parts) s.1 s.2 := by
  refine ⟨fun x hx => ?_, nofun, nofun⟩
  rw [hw.here h] at hx
  obtain ⟨u, hu, rfl⟩ := List.mem_map.mp hx
  rw [hparts u hu]
  exact hlt

theorem fetchOne_wp (api : Client) (plan : FetchPlan) (target : Nat × Nat)
    (hw : Works v inboxId mdef sel)
    (h : Has cfg R t v (Seen (inboxId, mdef.name) snap) s)
    (hW : V → plan.setsSeen = true → v.Writable) :
    (fetchOne cfg api inboxId mdef plan snap target).wp (gwLogic cfg R V t)
      (fun _ => Has cfg R t v (Seen (inboxId, mdef.name) snap))
      (fun _ => Has cfg R t v (Seen (inboxId, mdef.name) snap)) s := by
  rw [fetchOne]
  split
  · exact h
  · rename_i item hitem
    simp only [Coro.bind_eq, Coro.pure_eq, Coro.throw_eq, Coro.attempt]
    refine (Coro.wp_bind _ _).mpr ((Coro.wp_handle _ _).mpr ((Coro.wp_bind _ _).mpr
      (Coro.wp_mono (fun parts s hs => ?_) (fun e s hs => ?_)
        (fetchItem_wp api plan target.2 h (Seen.stable _ _)
          (fun s hs => hs.knows hw.known (Snapshot.byUid_some hitem).1) hW))))
    · exact hs.1.act_bind rfl (hw.tells_fetch hs.1.sits hs.2 (hs.1.facts.lt hitem)) fun s hs =>
        flush_keeps (Seen.stable _ _) s hs
    · rw [Coro.wp_ret]
      split
      · rename_i he
        cases he
      · exact hs
      · exact hs

theorem fetch_wp (tag : String) (uidMode : Bool) (set : SequenceSet) (attrs : List FetchAttr)
    (h : Sits cfg R t v s) : (fetch cfg t tag uidMode set attrs).wp (gwLogic cfg R V t)
      (fun _ => Rests cfg R t) (fun _ => Rests cfg R t) s := by
  rw [fetch]
  simp only [Coro.bind_eq]
  refine requireSelected_bind ⟨v, h⟩ fun sel _ hsel => context_bind ⟨v, h⟩ fun api inboxId _ hid => ?_
  refine mailboxOf_bind ⟨v, h⟩ fun mdef hdef => ?_
  have hw := h.works hsel hid hdef
  refine (Coro.wp_bind _ _).mpr (Coro.wp_mono (fun snap s hs => ?_) (fun _ _ hs => ⟨v, hs⟩)
    (h.latestOrSync_wp api (lookupMailbox_self hw.known)))
  refine session_bind (service_bind ((Coro.wp_bind _ _).mpr (Coro.wp_mono (fun _ s hs => ?_)
    (fun _ _ hs => hs.rests) (Coro.wp_each
      (I := fun _ => Has cfg R t v (Seen (inboxId, mdef.name) snap))
      (fun target _ s hs => fetchOne_wp api _ target hw hs fun _ hseen => ?_) _ hs.1))))
  · exact hs.sits.tag _ _ _ (fun _ => rfl) rfl
  · simp only [Bool.and_eq_true, Bool.not_eq_true'] at hseen
    exact hw.writable hseen.1.2

/-! ## SEARCH -/

mutual

/-- A criterion does no more than read the octets and the size of the item. -/
theorem evaluate_raises {L : Logic Service Mailbox.Act Req Req.Answer} {I : Service → Prop}
    {B : Exc → Prop} {seq : Nat} {ctx : SearchContext} (hraw : Coro.Raises L I B (ctx.raw item))
    (hsize : Coro.Raises L I B (ctx.size item)) (crit : Crit) :
    Coro.Raises L I B (evaluate txt item seq ctx crit) := by
  cases crit with
  | and args =>
    rw [evaluate]
    exact evaluateAll_raises hraw hsize args
  | or a b =>
    rw [evaluate]
    refine (evaluate_raises hraw hsize a).bind fun found => ?_
    cases found with
    | true => exact .ret _
    | false => exact evaluate_raises hraw hsize b
  | not a =>
    rw [evaluate]
    exact (evaluate_raises hraw hsize a).bind fun _ => .ret _
  | size larger n =>
    rw [evaluate]
    exact hsize.bind fun _ => .ret _
  | date sent test day =>
    rw [evaluate]
    simp only [Coro.bind_eq]
    cases sent with
    | true =>
      refine hraw.bind fun raw => ?_
      cases txt.sentDate raw with
      | none => exact .ret _
      | some date => exact .ret _
    | false => exact .ret _
  | rawText key needle =>
    rw [evaluate]
    exact hraw.bind fun _ => .ret _
  | header field needle =>
    rw [evaluate]
    simp only [Coro.bind_eq]
    refine hraw.bind fun raw => ?_
    split
    · exact .ret _
    · exact hraw.bind fun _ => .ret _
  | all | none | flag | keyword | uidset | seqset | itemText =>
    rw [evaluate]
    exact .ret _

theorem evaluateAll_raises {L : Logic Service Mailbox.Act Req Req.Answer} {I : Service → Prop}
    {B : Exc → Prop} {seq : Nat} {ctx : SearchContext} (hraw : Coro.Raises L I B (ctx.raw item))
    (hsize : Coro.Raises L I B (ctx.size item)) (crits : List Crit) :
    Coro.Raises L I B (evaluateAll txt item seq ctx crits) := by
  cases crits with
  | nil =>
    rw [evaluateAll]
    exact .ret _
  | cons c cs =>
    rw [evaluateAll]
    refine (evaluate_raises hraw hsize c).bind fun holds => ?_
    cases holds with
    | true => exact evaluateAll_raises hraw hsize cs
    | false => exact .ret _

end

theorem evaluate_keeps {L : Logic Service Mailbox.Act Req Req.Answer} {I : Service → Prop}
    {seq : Nat} {ctx : SearchContext} (hraw : Coro.Keeps L I (ctx.raw item))
    (hsize : Coro.Keeps L I (ctx.size item)) (crit : Crit) :
    Coro.Keeps L I (evaluate txt item seq ctx crit) :=
  (evaluate_raises hraw.raises hsize.raises crit).keeps

/-- The hits of a UID SEARCH are UIDs of the snapshot. -/
def Hits (snap : Snapshot) (uidMode : Bool) (hits : List Nat) : Prop :=
  uidMode = true → ∀ u ∈ hits, (snap.byUid u).isSome = true

theorem searchOne_wp {ctx : SearchContext} {uidMode : Bool} {hits : List Nat} (api : Client)
    (crit : Crit) (target : Nat × Nat) (hraw : ctx.raw = rawBytes cfg api inboxId mdef)
    (hsize : ctx.size = sizeOf cfg api inboxId mdef) (hdef : mdef ∈ mailboxes)
    (h : Has cfg R t v (Seen (inboxId, mdef.name) snap) s) (hhits : Hits snap uidMode hits) :
    (searchOne txt ctx crit snap uidMode hits target).wp (gwLogic cfg R V t)
      (fun hits s => Has cfg R t v (Seen (inboxId, mdef.name) snap) s ∧ Hits snap uidMode hits)
      (fun _ => Has cfg R t v (Seen (inboxId, mdef.name) snap)) s := by
  rw [searchOne]
  split
  · exact ⟨h, hhits⟩
  · rename_i item hitem
    simp only [Coro.bind_eq, Coro.pure_eq, Coro.throw_eq, Coro.attempt]
    have hknows := h.facts.knows hdef (Snapshot.byUid_some hitem).1
    have hmore : Hits snap uidMode (hits ++ [if uidMode then target.1 else target.2]) := by
      intro hm u hu
      rcases List.mem_append.mp hu with hu | hu
      · exact hhits hm u hu
      · rw [if_pos hm, List.mem_singleton] at hu
        rw [hu, hitem]
        rfl
    refine (Coro.wp_bind _ _).mpr ((Coro.wp_handle _ _).mpr ((Coro.wp_bind _ _).mpr
      (Coro.wp_mono (fun found s hs => ?_) (fun e s hs => ?_)
        (h.reads_wp (Seen.stable _ _) hknows fun m s hs => evaluate_keeps
          (fun s hs => hraw ▸ rawBytes_wp api hs) (fun s hs => hsize ▸ sizeOf_wp api hs) crit s hs))))
    · cases found with
      | true => exact ⟨hs, hmore⟩
      | false => exact ⟨hs, hhits⟩
    · rw [Coro.wp_ret]
      split
      · rename_i he
        cases he
      · rename_i he
        cases he
      · exact ⟨hs, hhits⟩
      · exact hs

theorem search_wp (tag : String) (uidMode : Bool) (crit : Crit) (h : Sits cfg R t v s) :
    (search cfg txt t tag uidMode crit).wp (gwLogic cfg R V t) (fun _ => Rests cfg R t)
      (fun _ => Rests cfg R t) s := by
  rw [search]
  simp only [Coro.bind_eq]
  refine requireSelected_bind ⟨v, h⟩ fun sel _ hsel => context_bind ⟨v, h⟩ fun api inboxId _ hid => ?_
  refine mailboxOf_bind ⟨v, h⟩ fun mdef hdef => ?_
  have hw := h.works hsel hid hdef
  refine (Coro.wp_bind _ _).mpr (Coro.wp_mono (fun snap s hs => ?_) (fun _ _ hs => ⟨v, hs⟩)
    (h.latestOrSync_wp api (lookupMailbox_self hw.known)))
  refine session_bind (service_bind ((Coro.wp_bind _ _).mpr (Coro.wp_mono (fun hits s hs => ?_)
    (fun _ _ hs => hs.rests) (Coro.wp_foldEach
      (I := fun hits _ s => Has cfg R t v (Seen (inboxId, mdef.name) snap) s ∧
        Hits snap uidMode hits)
      (fun _ target _ s hs => searchOne_wp api crit target rfl rfl hw.known hs.1 hs.2)
      [] _ ⟨hs.1, fun _ => nofun⟩))))
  refine hs.1.sits.act_bind rfl ⟨fun x hx => ?_, nofun, nofun⟩ fun s hs _ =>
    hs.tag _ _ _ (fun _ => rfl) rfl
  cases hm : uidMode with
  | false =>
    rw [hm] at hx
    cases hx
  | true =>
    rw [hm] at hx
    obtain ⟨u, hu, rfl⟩ := List.mem_map.mp hx
    obtain ⟨item, hitem⟩ := Option.isSome_iff_exists.mp (hs.2 hm u hu)
    rw [hw.here hs.1.sits]
    exact hs.1.facts.lt hitem

end Imap
end ImapGateway
