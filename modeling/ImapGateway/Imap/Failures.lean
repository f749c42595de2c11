/-
A listing that fails.

Every answer a listing cannot use ends it before it publishes.  What it has done by then
lies in its own variables, the holds and the byte cache, so the snapshot, the map of
UIDs and the pins are whatever the other coroutines have made of them.
-/
import ImapGateway.Imap.Runs
import ImapGateway.Mailbox.Collecting
import ImapGateway.Mailbox.Effects

namespace ImapGateway
namespace Imap

open Async Mailbox

variable {cfg : Config} {t : Tid} {api : Client} {inboxId : String}

/-! ## Answers a listing rejects -/

/-- An answer that a listing cannot use.  A draft may be gone by the time it is fetched. -/
def Rejected (cfg : Config) (q : Req) (a : q.Answer) : Prop :=
  match q, a with
  | .getDraft _ _ _, .error .notFound => False
  | .getDraft _ inboxId _, .ok full => cfg.renderDraft full inboxId = none
  | .listMessages _ _ _ _, .ok page => ∃ m ∈ page.items, orEmpty m.messageId = ""
  | .listDrafts _ _ _, .ok page => ∃ d ∈ page.items, orEmpty d.draftId = ""
  | _, .ok _ => False
  | _, .error _ => True

theorem ask_strict {α : Type} {bad : (q : Req) → q.Answer → Prop} {q : Req} {f : q.Value → Svc α}
    (hbad : ∀ v, bad q (.ok v) → (f v).Fails) (hf : ∀ v, (f v).Strict bad) :
    ((ask q).bind f).Strict bad := by
  intro a
  cases a with
  | ok v => exact ⟨hbad v, hf v⟩
  | error e => exact ⟨fun _ => trivial, trivial⟩

/-- A listing of pages is strict if its pages are asked for strictly, and an item that makes
a page bad makes the loop raise. -/
theorem paginate_strict {α : Type} {bad : (q : Req) → q.Answer → Prop} {wrong : α → Prop}
    {page : Option String → Svc (Page α)} {body : α → Svc Unit}
    (hpage : ∀ token (f : Page α → Svc Unit), (∀ p, (∃ x ∈ p.items, wrong x) → (f p).Fails) →
      (∀ p, (f p).Strict bad) → ((page token).bind f).Strict bad)
    (hwrong : ∀ x, wrong x → (body x).Fails) (hbody : ∀ x, (body x).Strict bad)
    (fuel : Nat) (token : Option String) (seen : List String) :
    (paginate page body fuel token seen).Strict bad := by
  induction fuel generalizing token seen with
  | zero => trivial
  | succ fuel ih =>
    rw [paginate]
    apply hpage token
    · rintro p ⟨x, hx, hw⟩
      exact (Coro.Fails.each hx (hwrong x hw)).bind _
    · intro p
      apply (Coro.Strict.each hbody _).bind
      intro
      split
      · trivial
      · split
        · trivial
        · exact ih _ _

theorem collectMessage_strict {bad : (q : Req) → q.Answer → Prop} (m : MessageJson) :
    (collectMessage m).Strict bad ∧ (orEmpty m.messageId = "" → (collectMessage m).Fails) := by
  unfold collectMessage
  constructor
  · split
    · trivial
    · trivial
  · intro hid
    rw [if_pos hid]
    trivial

theorem renderDraft_strict (draftId updatedAt : String) :
    (renderDraft cfg api inboxId draftId updatedAt).Strict (Rejected cfg) := by
  rw [renderDraft]
  intro s
  simp only [Coro.bind_eq, Coro.bind]
  split
  · trivial
  · intro a
    cases a with
    | error e =>
      cases e with
      | notFound => exact ⟨fun h => h.elim, trivial⟩
      | _ => exact ⟨fun _ => trivial, trivial⟩
    | ok full =>
      constructor
      · intro hnone
        have hnone : cfg.renderDraft full inboxId = none := hnone
        simp only [Coro.ofExcept, Coro.bind, Coro.handle, hnone]
        trivial
      · simp only [Coro.ofExcept, Coro.bind, Coro.handle]
        split
        · trivial
        · trivial

theorem collectDraft_strict (d : DraftJson) :
    (collectDraft cfg t api inboxId d).Strict (Rejected cfg) ∧
      (orEmpty d.draftId = "" → (collectDraft cfg t api inboxId d).Fails) := by
  rw [collectDraft]
  simp only
  constructor
  · split
    · trivial
    · intro s
      simp only [Coro.bind_eq, Coro.bind]
      split
      · trivial
      · apply Coro.Strict.bind (renderDraft_strict _ _)
        intro r
        cases r with
        | none => trivial
        | some rendered => trivial
  · intro hid
    rw [if_pos hid]
    trivial

theorem collect_strict (mdef : MailboxDef) :
    (collect cfg t api inboxId mdef).Strict (Rejected cfg) := by
  unfold collect
  cases mdef.kind with
  | messages =>
    apply @paginate_strict _ _ fun m : MessageJson => orEmpty m.messageId = ""
    · exact fun token f hbad hf => ask_strict hbad hf
    · exact fun m => (@collectMessage_strict (Rejected cfg) m).2
    · exact fun m => (collectMessage_strict m).1
  | drafts =>
    apply @paginate_strict _ _ fun d : DraftJson => orEmpty d.draftId = ""
    · exact fun token f hbad hf => ask_strict hbad hf
    · exact fun d => (collectDraft_strict d).2
    · exact fun d => (collectDraft_strict d).1

/-! ## What the others do -/

/-- `b` comes from `a` by what the loop and coroutines other than `t` do, where every
action meets `C`. -/
def Others (cfg : Config) (t : Tid) (C : Happening → Prop) (a b : Service) : Prop :=
  ∃ hs, History cfg a hs b ∧ ∀ x ∈ hs, (x.tid ≠ t ∨ x.action.ambient = true) ∧ C x

theorem Others.refl {C : Happening → Prop} (s : Service) : Others cfg t C s s :=
  ⟨[], .nil, fun _ hx => absurd hx List.not_mem_nil⟩

/-- They leave the listing of `t` alone. -/
theorem listings_of_other {x : Happening} (hok : x.before.store.Ok)
    (hx : x.tid ≠ t ∨ x.action.ambient = true) :
    (x.after cfg).listings t = x.before.listings t := by
  by_cases ht : x.tid = t
  · have hambient := hx.resolve_left fun h => h ht
    show (x.action.exec cfg x.tid x.before).listings t = _
    cases hact : x.action with
    | tick d => rfl
    | wall clock now => rfl
    | reap n =>
      simp only [Mailbox.Act.exec, Service.reap]
      split <;> rfl
    | applyPatch =>
      simp only [Mailbox.Act.exec, Service.applyPatch]
      split <;> rfl
    | relabel => rfl
    | _ =>
      rw [hact] at hambient
      cases hambient
  · have hne : t ≠ x.tid := fun h => ht h.symm
    show (x.action.exec cfg x.tid x.before).listings t = _
    cases Mailbox.Act.exec_listingStep cfg x.tid x.action hok with
    | start _ _ _ listings _ => rw [listings, Function.update_of_ne hne]
    | extend _ _ _ _ _ listings _ => rw [listings, Function.update_of_ne hne]
    | stop _ listings _ => rw [listings, Function.update_of_ne hne]
    | quiet _ listings _ => rw [listings]

theorem Others.keeps {C : Happening → Prop} {a b : Service} (h : Others cfg t C a b)
    (hok : a.store.Ok) : b.store.Ok ∧ b.listings t = a.listings t := by
  obtain ⟨hs, hist, hothers⟩ := h
  induction hist with
  | nil => exact ⟨hok, rfl⟩
  | cons x _ ih =>
    obtain ⟨hok', hlist⟩ := ih fun y hy => hothers y (List.mem_cons_of_mem _ hy)
    have hx := hothers x List.mem_cons_self
    exact ⟨(Mailbox.Act.exec_uidStep cfg x.tid x.action hok').1,
      (listings_of_other hok' hx.1).trans hlist⟩

/-! ## What stays -/

/-- What a failed listing must leave alone of a mailbox. -/
structure Visible where
  latest : Option Snapshot
  version : Nat
  /-- The map of UIDs with its tombstones, the next UIDs and the marks. -/
  store : Store.Db
  pins : List Pin

def visible (s : Service) (key : Key) : Visible :=
  ⟨s.latest key, s.versions key, s.store, s.pinned key⟩

/-- An action of a listing that does not publish. -/
def prepares : Mailbox.Act → Bool
  | .startListing _ _ | .dropListing => true
  | p => p.gathers

theorem prepares_visible {p : Mailbox.Act} (hp : prepares p = true) (s : Service) (key : Key) :
    visible (p.exec cfg t s) key = visible s key := by
  cases p with
  | collectMessage m =>
    show visible (s.collectMessage cfg t m) key = _
    rcases Service.collectMessage_cases cfg s t m with heq | ⟨l, _, _, heq⟩ <;> rw [heq]
    rfl
  | collectDraft d rendered =>
    simp only [Mailbox.Act.exec, Service.collectDraft]
    split <;> rfl
  | startListing | dropListing | see | cacheGet | cachePut | obtained => rfl
  | _ => cases hp

/-- A listing of the mailbox published here shows `k`. -/
def Shows (key : Key) (k : String) (x : Happening) : Prop :=
  ∀ l, x.publishing = some l → l.key = key → k ∈ (x.before.collected l).map (·.remoteKey)

/-- Whoever publishes, a key that is shown keeps its UID. -/
theorem liveUid_of_shows {x : Happening} {key : Key} {k : String} {u : Nat}
    (hok : x.before.store.Ok) (hx : Shows key k x)
    (hu : x.before.store.liveUid key.1 key.2 k = some u) :
    (x.after cfg).store.liveUid key.1 key.2 k = some u := by
  have hstep := (Mailbox.Act.exec_uidStep cfg x.tid x.action hok).2
  by_cases hpub : ∃ l, x.publishing = some l ∧ l.key = key
  · obtain ⟨l, hl, rfl⟩ := hpub
    obtain ⟨hact, hlist⟩ := Happening.publishing_eq_some.mp hl
    obtain ⟨store, watermark, v, hrec, heq⟩ := Service.publish_eq hok hlist
    have hafter : x.after cfg = x.before.publish x.tid := by rw [Happening.after, hact, Mailbox.Act.exec]
    rw [hafter, heq]
    exact hrec.kept k (hx l hl rfl) u hu
  · refine hstep.kept (fun l hact hl hkey => hpub ⟨l, ?_, hkey⟩) hu
    exact Happening.publishing_eq_some.mpr ⟨hact, hl⟩

theorem liveUid_of_history {a b : Service} {hs : List Happening} (h : History cfg a hs b)
    (hok : a.store.Ok) {key : Key} {k : String} {u : Nat} (hshows : ∀ x ∈ hs, Shows key k x)
    (hu : a.store.liveUid key.1 key.2 k = some u) :
    b.store.liveUid key.1 key.2 k = some u := by
  induction h with
  | nil => exact hu
  | cons x hist ih =>
    have hbefore := ih fun y hy => hshows y (List.mem_cons_of_mem _ hy)
    exact liveUid_of_shows (hist.storeOk hok) (hshows x List.mem_cons_self) hbefore

/-- What is published shows an entry under the UID its key has. -/
theorem published_item {x : Happening} {key : Key} {k : String} {u : Nat} {l : Listing}
    (hok : x.before.store.Ok) (hx : Shows key k x)
    (hu : x.before.store.liveUid key.1 key.2 k = some u) (hl : x.publishing = some l)
    (hkey : l.key = key) {e : Entry} (he : e ∈ x.before.collected l) (hk : e.remoteKey = k) :
    ∃ snap, (x.after cfg).latest key = some snap ∧ e.build u ∈ snap.items := by
  have hlive : (x.after cfg).store.liveUid key.1 key.2 k = some u := liveUid_of_shows hok hx hu
  obtain ⟨hact, hlist⟩ := Happening.publishing_eq_some.mp hl
  obtain ⟨store, watermark, v, hrec, heq⟩ := Service.publish_eq hok hlist
  have hafter : x.after cfg = x.before.publish x.tid := by rw [Happening.after, hact, Mailbox.Act.exec]
  rw [hafter, heq] at hlive ⊢
  subst hkey
  refine ⟨x.before.publication l store v, Function.update_self .., ?_⟩
  apply mem_sortItems.mpr
  rw [List.mem_map]
  refine ⟨e, he, ?_⟩
  rw [hk]
  show e.build ((store.liveUid l.key.1 l.key.2 k).getD 0) = e.build u
  rw [show store.liveUid l.key.1 l.key.2 k = some u from hlive]
  rfl

/-! ## A failed listing -/

/-- A run of a listing by `t` that failed: it raised, none of its steps changed anything
visible, and whoever publishes later, a key that every publication has shown since the
listing started is published under the UID it had then. -/
structure FailedSync (cfg : Config) (t : Tid) (C : Happening → Prop) (s s' : Service)
    (steps : List (Coro.Step Service Mailbox.Act Req Req.Answer)) (out : Except Exc Snapshot) :
    Prop where
  raised : ∃ e, out = .error e
  unseen : ∀ p a, .did p a ∈ steps → ∀ key, visible (p.exec cfg t a) key = visible a key
  kept : ∀ key k u, (∀ x, C x → Shows key k x) → s.store.liveUid key.1 key.2 k = some u →
    ∀ later x l, History cfg s' later x.before → (∀ y ∈ later, Shows key k y) → Shows key k x →
      x.publishing = some l → l.key = key → ∀ e ∈ x.before.collected l, e.remoteKey = k →
        ∃ snap, (x.after cfg).latest key = some snap ∧ e.build u ∈ snap.items

theorem doSync_strict (mdef : MailboxDef) :
    (doSync cfg t api inboxId mdef).Strict (Rejected cfg) := by
  apply Coro.Strict.bind (show Coro.Strict _ (perform _) from trivial)
  intro
  apply Coro.Strict.bind
  · exact (collect_strict mdef).handle (fun e => trivial) fun e => trivial
  · intro _ s
    simp only [Coro.bind, Coro.pure_eq, Coro.throw_eq]
    split <;> trivial

theorem prepares_of_gathers {p : Mailbox.Act} (hp : p.gathers = true) : prepares p = true := by
  cases p with
  | see | collectMessage | collectDraft | cacheGet | cachePut | obtained => rfl
  | _ => cases hp

/-- Through a run of the collecting part a key that is shown keeps its UID. -/
theorem collect_kept {mdef : MailboxDef} {C : Happening → Prop} {s s' : Service}
    {steps : List (Coro.Step Service Mailbox.Act Req Req.Answer)} {out : Except Exc Unit}
    (h : (collect cfg t api inboxId mdef).Takes (Mailbox.Act.exec cfg t) (Others cfg t C) s steps
      out s') (hok : s.store.Ok) {key : Key} {k : String} {u : Nat}
    (hC : ∀ x, C x → Shows key k x) (hu : s.store.liveUid key.1 key.2 k = some u) :
    s'.store.Ok ∧ s'.store.liveUid key.1 key.2 k = some u := by
  refine h.all (collect_gathers mdef)
    (fun s => s.store.Ok ∧ s.store.liveUid key.1 key.2 k = some u) ?_ ?_ ⟨hok, hu⟩
  · rintro a b ⟨hok, hu⟩ hr
    have hok' := (hr.keeps hok).1
    obtain ⟨hs, hist, hothers⟩ := hr
    exact ⟨hok', liveUid_of_history hist hok (fun x hx => hC x (hothers x hx).2) hu⟩
  · rintro p a hp ⟨hok, hu⟩
    have hstore : (p.exec cfg t a).store = a.store :=
      congrArg Visible.store (prepares_visible (prepares_of_gathers hp) a key)
    rw [hstore]
    exact ⟨hok, hu⟩

/-- A listing that gets an answer it cannot use, or raises for another reason, has failed. -/
theorem failed_sync_unseen (b : Boot) {before : List Happening} {s s' : Service}
    (hs : History cfg b.service before s) {mdef : MailboxDef} {C : Happening → Prop}
    {steps : List (Coro.Step Service Mailbox.Act Req Req.Answer)} {out : Except Exc Snapshot}
    (h : (doSync cfg t api inboxId mdef).Takes (Mailbox.Act.exec cfg t) (Others cfg t C) s steps
      out s')
    (hfail : (∃ e, out = .error e) ∨ ∃ q a, .heard q a ∈ steps ∧ Rejected cfg q a) :
    FailedSync cfg t C s s' steps out := by
  have hok : s.store.Ok := hs.storeOk b.ok
  have hraised : ∃ e, out = .error e := by
    rcases hfail with herror | ⟨q, a, hheard, hbad⟩
    · exact herror
    · exact h.strict (doSync_strict mdef) hheard hbad
  obtain ⟨e, rfl⟩ := hraised
  rcases doSync_takes (fun a b hok hr => hr.keeps hok) hok h with
    ⟨_, s₁, collecting, -, rfl, hcollect, rfl⟩ | ⟨_, _, _, hreturned, _⟩
  · refine ⟨⟨e, rfl⟩, fun p a hp key => prepares_visible ?_ a key, ?_⟩
    · rcases List.mem_cons.mp hp with heq | hp
      · cases heq
        rfl
      · rcases List.mem_append.mp hp with hp | hp
        · exact prepares_of_gathers (hcollect.did (collect_gathers mdef) hp)
        · cases List.mem_singleton.mp hp
          rfl
    · intro key k u hC hu later x l hlater hshows hx hl hkey e he hk
      obtain ⟨hok₁, hu₁⟩ := collect_kept hcollect (show (s.startListing t inboxId mdef).store.Ok
        from hok) hC hu
      have hbefore := liveUid_of_history hlater hok₁ hshows hu₁
      exact published_item (hlater.storeOk hok₁) hx hbefore hl hkey he hk
  · cases hreturned

/-- Upstream gives one page of INBOX, and refuses the next. -/
def secondRefused : (q : Req) → q.Answer
  | .listMessages _ _ _ none => .ok ⟨[demoMessage "m1" ["received"]], some "p"⟩
  | _ => .error .unavailable

/-- INBOX is listed by a task of its own. -/
def listedAgain (s : Service) :
    List (Coro.Step Service Mailbox.Act Req Req.Answer) × Except Exc Snapshot × Service :=
  (doSync demoConfig (.task 1) ⟨0, 0, "k"⟩ "a@x" inbox).play
    (Mailbox.Act.exec demoConfig (.task 1)) secondRefused s

/-- The page is collected before the listing fails. -/
def failsLate (s : Service) : Bool :=
  ((listedAgain s).1.any fun x => match x with
    | .did (.collectMessage _) _ => true
    | _ => false) && match (listedAgain s).2.1 with
    | .error _ => true
    | .ok _ => false

theorem failed_sync_unseen_page : ∃ w, Runs demoConfig demoText demoBoot w ∧
    w.shared.store.liveUid "a@x" "INBOX" "m1" = some 1 ∧ failsLate w.shared = true ∧
    FailedSync demoConfig (.task 1) (Shows ("a@x", "INBOX") "m1") w.shared
      (listedAgain w.shared).2.2 (listedAgain w.shared).1 (listedAgain w.shared).2.1 := by
  have hrun : (demoBoot.world.run (gateway demoConfig demoText) (loginMoves 0 ++ openMoves 0 0 inbox
      false [answerTo (.task 0) [demoMessage "m1" ["received"]]])).any (fun w =>
      decide (w.shared.store.liveUid "a@x" "INBOX" "m1" = some 1) && failsLate w.shared) = true := by
    decide +kernel
  obtain ⟨w, hw, hok⟩ := exists_run hrun
  rw [Bool.and_eq_true, decide_eq_true_eq] at hok
  obtain ⟨hlive, hfails⟩ := hok
  have htakes : (doSync demoConfig (.task 1) ⟨0, 0, "k"⟩ "a@x" inbox).Takes
      (Mailbox.Act.exec demoConfig (.task 1))
      (Others demoConfig (.task 1) (Shows ("a@x", "INBOX") "m1")) w.shared
      (listedAgain w.shared).1 (listedAgain w.shared).2.1 (listedAgain w.shared).2.2 :=
    Coro.play_takes Others.refl secondRefused _ _
  refine ⟨w, hw, hlive, hfails, failed_sync_unseen demoBoot hw.history htakes (.inl ?_)⟩
  rw [failsLate, Bool.and_eq_true] at hfails
  cases hout : (listedAgain w.shared).2.1 with
  | ok snap =>
    rw [hout] at hfails
    cases hfails.2
  | error e => exact ⟨e, rfl⟩

end Imap
end ImapGateway
