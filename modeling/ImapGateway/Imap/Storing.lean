/-
STORE as a command.

In a reachable state, with nobody interfering and upstream echoing each label change, a STORE
that answers OK leaves every item it names with exactly the flags it asks for, tells the
client so, and changes nothing else.  Asked again, it writes nothing.
-/
import ImapGateway.Imap.Stores
import ImapGateway.Imap.Convergence

namespace ImapGateway
namespace Imap

open Async Mailbox

/-- A STORE has done what it was asked to.  `f` is what became of the items. -/
structure StoreDone (plan : StorePlan) (mdef : MailboxDef) (key : Key) (snap : Snapshot)
    (uids : List Nat) (s s' : Shared) (U U' : String → Labels) (f : Item → Item) : Prop where
  latest : s'.1.latest = Function.update s.1.latest key
    (some { snap with items := snap.items.map f })
  flags : ∀ item ∈ snap.items, item.uid ∈ uids →
    flagsOf (f item) (s'.1.store.deletedUids key.1 key.2) =
      plan.mode.wanted mdef.permanentFlags plan.flags
        (flagsOf item (s.1.store.deletedUids key.1 key.2))
  labels : ∀ item ∈ snap.items, ∀ l, (∀ g add remove, flagLabels g = some (add, remove) →
    l ∈ add ++ remove → (g ∈ item.flags ↔ g ∈ (f item).flags)) →
      (l ∈ (f item).labels ↔ l ∈ item.labels)
  fields : ∀ item, f item = { item with flags := (f item).flags, labels := (f item).labels }
  untouched : ∀ item, item.uid ∉ uids → f item = item
  marks : ∀ i n u, ((i, n) = key → u ∈ uids → u ∉ snap.uids) →
    (s'.1.store.Marked i n u ↔ s.1.store.Marked i n u)
  tables : s'.1.store.mailbox = s.1.store.mailbox ∧ s'.1.store.uidMap = s.1.store.uidMap
  upstream : mdef.kind = .messages → ∀ item ∈ snap.items, U' item.remoteId = (f item).labels
  otherLabels : ∀ id, (∀ item ∈ snap.items, item.remoteId ≠ id) → U' id = U id
  session : SameSelection s.2 s'.2

/-- A session that may do this STORE: a mailbox is open for writing, its latest snapshot is
`snap`, and the flags are permanent ones. -/
structure StoreReady (plan : StorePlan) (client : Client) (inboxId : String) (mdef : MailboxDef)
    (sel : Selected) (snap : Snapshot) (s : Shared) : Prop where
  state : s.2.state = .selected
  selected : s.2.selected = some sel
  api : s.2.api = some client
  inbox : s.2.inboxId = some inboxId
  writable : sel.readOnly = false
  mailbox : lookupMailbox sel.name = some mdef
  storable : ∀ f ∈ plan.flags, f ∈ mdef.permanentFlags
  latest : s.1.latest (inboxId, mdef.name) = some snap

section

variable {cfg : Config} {txt : TextConfig} {t : Tid} {api : Client} {inboxId : String}
  {mdef : MailboxDef} {plan : StorePlan} {snap : Snapshot} {s s' : Shared} {steps : List Taken}
  {U U' : String → Labels} {sel : Selected} {set : SequenceSet} {tag : String}
  {rely : Shared → Shared → Prop} {α β : Type}

/-! ## The guards -/

/-- The coroutine returns `a` without doing anything. -/
def Passes (cfg : Config) (t : Tid) (rely : Shared → Shared → Prop) (x : Prog α) (s : Shared)
    (a : α) : Prop :=
  ∀ steps out s', x.Takes (exec cfg t) rely s steps out s' → steps = [] ∧ out = .ok a ∧ s' = s

theorem Passes.ret (a : α) : Passes cfg t rely (.ret a) s a := fun _ _ _ h => h.of_ret

theorem Passes.session {f : Session → Prog α} {a : α} (h : Passes cfg t rely (f s.2) s a) :
    Passes cfg t rely (session.bind f) s a := fun _ _ _ hx => h _ _ _ (Coro.Takes.of_read hx)

theorem Passes.service {f : Service → Prog α} {a : α} (h : Passes cfg t rely (f s.1) s a) :
    Passes cfg t rely (service.bind f) s a := fun _ _ _ hx => h _ _ _ (Coro.Takes.of_read hx)

theorem Passes.bind {x : Prog α} {f : α → Prog β} {a : α} {out : Except Exc β}
    (hx : Passes cfg t rely x s a) (h : (x.bind f).Takes (exec cfg t) rely s steps out s') :
    (f a).Takes (exec cfg t) rely s steps out s' := by
  rcases h.of_bind with ⟨e, _, herror⟩ | ⟨b, s₁, steps₁, steps₂, rfl, hret, hf⟩
  · obtain ⟨_, hout, _⟩ := hx _ _ _ herror
    cases hout
  · obtain ⟨rfl, hout, rfl⟩ := hx _ _ _ hret
    cases hout
    exact hf

theorem Passes.refuse {c : Prop} [Decidable c] {e : Exc} (h : ¬c) :
    Passes cfg t rely (refuse c e) s () := by
  rw [Imap.refuse, if_neg h]
  exact .ret ()

theorem StoreReady.requireSelected (hr : StoreReady plan api inboxId mdef sel snap s) :
    Passes cfg t rely requireSelected s sel := by
  apply Passes.session
  rw [hr.state, hr.selected]
  exact .ret sel

theorem StoreReady.context (hr : StoreReady plan api inboxId mdef sel snap s) :
    Passes cfg t rely context s (api, inboxId) := by
  apply Passes.session
  rw [hr.api, hr.inbox]
  exact .ret _

theorem StoreReady.mailboxOf (hr : StoreReady plan api inboxId mdef sel snap s) :
    Passes cfg t rely (mailboxOf sel.name) s mdef := by
  rw [Imap.mailboxOf, hr.mailbox]
  exact .ret mdef

theorem StoreReady.latestOrSync (hr : StoreReady plan api inboxId mdef sel snap s) :
    Passes cfg t rely (latestOrSync cfg t api inboxId mdef) s snap := by
  apply Passes.service
  rw [hr.latest]
  exact .ret snap

/-- What follows the loop. -/
def storeEnd (tag : String) (mdef : MailboxDef) (plan : StorePlan) (targets : List (Nat × Nat)) :
    Prog Unit := do
  if plan.silent then
    act (.noteStored (targets.map (·.2)) plan.mode mdef.permanentFlags plan.flags)
  send (.tagged tag "OK" (if plan.uidMode then "UID STORE completed" else "STORE completed") none)

/-- The guards let the command through to its loop. -/
theorem StoreReady.loop {out : Except Exc Unit} (hr : StoreReady plan api inboxId mdef sel snap s)
    (h : (store cfg t tag set plan).Takes (exec cfg t) rely s steps out s') :
    ((Coro.foldEach (storeOne api inboxId mdef plan snap)
      (s.1.store.deletedUids inboxId mdef.name) (targets sel plan.uidMode set)).bind fun _ =>
        storeEnd tag mdef plan (targets sel plan.uidMode set)).Takes (exec cfg t) rely s steps out s' := by
  have hguard : ¬(plan.flags.any fun f => decide (f ∉ mdef.permanentFlags)) = true := by
    simpa using hr.storable
  have hmarks : s.2.deletedUids s.1 sel.name = s.1.store.deletedUids inboxId mdef.name := by
    rw [Session.deletedUids, hr.inbox, hr.mailbox]
  have h := hr.requireSelected.bind h
  have h := hr.context.bind h
  have h := (Passes.refuse (by simp [hr.writable])).bind h
  have h := hr.mailboxOf.bind h
  have h := (Passes.refuse hguard).bind h
  have h := hr.latestOrSync.bind h
  have h := Coro.Takes.of_read h
  have h := Coro.Takes.of_read h
  rw [← hmarks]
  exact h

theorem storeEnd_takes {targets : List (Nat × Nat)} {out : Except Exc Unit}
    (h : (storeEnd tag mdef plan targets).Takes (exec cfg t) rely s steps out s') :
    out = .ok () ∧ s'.1 = s.1 ∧ SameSelection s.2 s'.2 ∧
      said steps = [.tagged tag "OK"
        (if plan.uidMode then "UID STORE completed" else "STORE completed") none] ∧
      ∀ step ∈ steps, writes step = false := by
  rw [storeEnd] at h
  cases hsilent : plan.silent with
  | true =>
    rw [hsilent] at h
    obtain ⟨_, rfl, hsend⟩ := Coro.Takes.of_act h
    obtain ⟨_, rfl, hret⟩ := Coro.Takes.of_act hsend
    obtain ⟨rfl, rfl, rfl⟩ := Coro.Takes.of_ret hret
    exact ⟨rfl, rfl, ⟨rfl, rfl, rfl, rfl⟩, rfl, by simp [writes]⟩
  | false =>
    rw [hsilent] at h
    obtain ⟨_, rfl, hret⟩ := Coro.Takes.of_act h
    obtain ⟨rfl, rfl, rfl⟩ := Coro.Takes.of_ret hret
    exact ⟨rfl, rfl, ⟨rfl, rfl, rfl, rfl⟩, rfl, by simp [writes]⟩

/-- Without a PATCH upstream keeps its labels. -/
theorem Echoed.of_quiet (h : Echoed inboxId U steps U') (hquiet : ∀ x ∈ steps, writes x = false) :
    U' = U := by
  induction h with
  | nil => rfl
  | did p s _ ih => exact ih fun x hx => hquiet x (List.mem_cons_of_mem _ hx)
  | echo api id add remove result _ _ _ =>
    have hfalse := hquiet _ List.mem_cons_self
    cases hfalse

/-! ## The command -/

/-- What a reachable state says of a session that may do a STORE. -/
structure StoreSound (mdef : MailboxDef) (sel : Selected) (snap : Snapshot) : Prop where
  known : mdef ∈ mailboxes
  apart : ItemsApart snap mdef.kind
  plain : ∀ i ∈ snap.items, i.Plain mdef.kind
  uids : sel.uids.Nodup

theorem StoreSound.start (hr : StoreReady plan api inboxId mdef sel snap s)
    (hlabels : mdef.kind = .messages → ∀ item ∈ snap.items, U item.remoteId = item.labels) :
    Changed (inboxId, mdef.name) mdef.kind snap s U id (s.1.store.deletedUids inboxId mdef.name)
      s U where
  relabels _ := rfl
  latest := by
    rw [List.map_id, ← hr.latest, Function.update_eq_self]
  marks _ := Iff.rfl
  otherMarks _ _ _ _ := Iff.rfl
  mailbox := rfl
  uidMap := rfl
  labels := hlabels
  otherLabels _ _ := rfl
  session := .refl _

theorem ItemsApart.byUid {kind : Mailbox.Kind} (h : ItemsApart snap kind) {item : Item}
    (hitem : item ∈ snap.items) : snap.byUid item.uid = some item := by
  obtain ⟨i, hi⟩ := Option.isSome_iff_exists.mp
    (Snapshot.byUid_isSome.mpr (List.mem_map_of_mem (f := Item.uid) hitem))
  obtain ⟨hin, huid⟩ := Snapshot.byUid_some hi
  rw [hi, h.uids i hin item hitem huid]

/-- What the loop leaves is what was asked for. -/
theorem StoreSound.storeDone {uids marks' : List Nat} (hsound : StoreSound mdef sel snap)
    (hr : StoreReady plan api inboxId mdef sel snap s)
    (hc : Changed (inboxId, mdef.name) mdef.kind snap s U
      (plan.storedAt mdef.permanentFlags (s.1.store.deletedUids inboxId mdef.name) uids id) marks'
      s' U')
    (hmarks : ∀ u, u ∈ marks' ↔ plan.Marks mdef.permanentFlags snap
      (s.1.store.deletedUids inboxId mdef.name) uids u) :
    StoreDone plan mdef (inboxId, mdef.name) snap uids s s' U U'
      (plan.storedAt mdef.permanentFlags (s.1.store.deletedUids inboxId mdef.name) uids id) where
  latest := hc.latest
  flags item hitem huid := by
    rw [StorePlan.storedAt, if_pos huid]
    apply StorePlan.flagsOf_stored hsound.known (hsound.plain item hitem) hr.storable
    have hmark := (hc.marks item.uid).trans (hmarks item.uid)
    rw [StorePlan.Marks, hsound.apart.byUid hitem] at hmark
    dsimp only at hmark
    rw [if_pos huid] at hmark
    exact hmark
  labels item hitem l hl := by
    unfold StorePlan.storedAt at hl ⊢
    split
    · rename_i huid
      rw [if_pos huid] at hl
      exact StorePlan.stored_labels hsound.known (hsound.plain item hitem) hr.storable hl
    · exact Iff.rfl
  fields := hc.relabels
  untouched item huid := if_neg huid
  marks i n u hout := by
    by_cases hkey : (i, n) = (inboxId, mdef.name)
    · cases hkey
      refine (hc.marks u).trans ((hmarks u).trans ?_)
      unfold StorePlan.Marks
      cases hby : snap.byUid u with
      | none => exact Iff.rfl
      | some item =>
        have hin : u ∈ snap.uids := by
          apply Snapshot.byUid_isSome.mp
          rw [hby]
          rfl
        have hnot : u ∉ uids := fun hu => hout rfl hu hin
        show (if u ∈ uids then _ else u ∈ _) ↔ _
        rw [if_neg hnot]
        exact Iff.rfl
    · exact hc.otherMarks i n hkey u
  tables := ⟨hc.mailbox, hc.uidMap⟩
  upstream := hc.labels
  otherLabels := hc.otherLabels
  session := hc.session

/-- A STORE that answers OK has done what it was asked to, and told so. -/
theorem StoreSound.done (hsound : StoreSound mdef sel snap)
    (hr : StoreReady plan api inboxId mdef sel snap s)
    (hlabels : mdef.kind = .messages → ∀ item ∈ snap.items, U item.remoteId = item.labels)
    (h : (store cfg t tag set plan).Takes (exec cfg t) Undisturbed s steps (.ok ()) s')
    (he : Echoed inboxId U steps U') :
    (∃ f, StoreDone plan mdef (inboxId, mdef.name) snap
      ((targets sel plan.uidMode set).map (·.2)) s s' U U' f) ∧
    said steps = (targets sel plan.uidMode set).filterMap (plan.answer mdef.permanentFlags snap
        (s.1.store.deletedUids inboxId mdef.name)) ++
      [.tagged tag "OK" (if plan.uidMode then "UID STORE completed" else "STORE completed") none] := by
  have hnodup : ((targets sel plan.uidMode set).map (·.2)).Nodup :=
    hsound.uids.sublist (targets_sublist sel plan.uidMode set)
  rcases (hr.loop h).of_bind with ⟨e, hout, _⟩ | ⟨marks', s₁, steps₁, steps₂, rfl, hloop, hend⟩
  · cases hout
  obtain ⟨V, hfirst, hlast⟩ := he.append
  obtain ⟨hmarks, hchanged, hsaid⟩ := storeLoop_takes _ hnodup (StoreSound.start hr hlabels)
    hsound.apart hsound.known hsound.plain hr.storable (fun _ _ _ => rfl) hloop hfirst
  obtain ⟨_, hservice, hview, hsaid', hquiet⟩ := storeEnd_takes hend
  have hV := hlast.of_quiet hquiet
  subst hV
  refine ⟨⟨_, StoreSound.storeDone hsound hr ?_ hmarks⟩, by rw [said_append, hsaid, hsaid']⟩
  exact hchanged.act (by rw [hservice]) (by rw [hservice]) hview

/-! ## The same STORE again -/

theorem foldEach_ret {S A ρ : Type} {ans : ρ → Type} {ε : Type}
    {body : α → β → Coro S A ρ ans ε α} {a : α} {xs : List β} (h : ∀ x ∈ xs, body a x = .ret a) :
    Coro.foldEach body a xs = .ret a := by
  induction xs with
  | nil => rfl
  | cons x xs ih =>
    rw [Coro.foldEach, h x List.mem_cons_self]
    exact ih fun y hy => h y (List.mem_cons_of_mem _ hy)

/-- A target that has the flags asked for is only reported. -/
theorem storeOne_quiet {marks : List Nat} {target : Nat × Nat} {out : Except Exc (List Nat)}
    (hsame : ∀ item, snap.byUid target.2 = some item →
      plan.result mdef.permanentFlags marks item = flagsOf item marks)
    (h : (storeOne api inboxId mdef plan snap marks target).Takes (exec cfg t) rely s steps out s') :
    out = .ok marks ∧ ∀ x ∈ steps, writes x = false := by
  rw [storeOne] at h
  cases hby : snap.byUid target.2 with
  | none =>
    rw [hby] at h
    obtain ⟨rfl, rfl, rfl⟩ := Coro.Takes.of_ret h
    exact ⟨rfl, by simp⟩
  | some item =>
    have hwanted : plan.mode.wanted mdef.permanentFlags plan.flags (flagsOf item marks) =
        flagsOf item marks := hsame item hby
    have hloop : Coro.foldEach (storeFlag api inboxId mdef (flagsOf item marks)
        (flagsOf item marks) target.2) (item, marks) mdef.permanentFlags = .ret (item, marks) := by
      apply foldEach_ret
      intro flag _
      rw [storeFlag]
      exact if_pos rfl
    rw [hby] at h
    dsimp only at h
    rw [hwanted, hloop] at h
    obtain ⟨_, rfl, hsend⟩ := Coro.Takes.of_act h
    cases hsilent : plan.silent with
    | true =>
      rw [hsilent] at hsend
      obtain ⟨rfl, rfl, rfl⟩ := Coro.Takes.of_ret hsend
      exact ⟨rfl, by simp [writes]⟩
    | false =>
      rw [hsilent] at hsend
      obtain ⟨_, rfl, hret⟩ := Coro.Takes.of_act hsend
      obtain ⟨rfl, rfl, rfl⟩ := Coro.Takes.of_ret hret
      exact ⟨rfl, by simp [writes]⟩

theorem storeLoop_quiet {marks : List Nat} {targets : List (Nat × Nat)}
    {out : Except Exc (List Nat)}
    (hsame : ∀ target ∈ targets, ∀ item, snap.byUid target.2 = some item →
      plan.result mdef.permanentFlags marks item = flagsOf item marks)
    (h : (Coro.foldEach (storeOne api inboxId mdef plan snap) marks targets).Takes (exec cfg t) rely
      s steps out s') : out = .ok marks ∧ ∀ x ∈ steps, writes x = false := by
  induction targets generalizing s steps with
  | nil =>
    obtain ⟨rfl, rfl, rfl⟩ := Coro.Takes.of_ret h
    exact ⟨rfl, by simp⟩
  | cons target targets ih =>
    have hone := hsame target List.mem_cons_self
    rcases Coro.Takes.of_bind h with ⟨e, _, hx⟩ | ⟨a, s₁, steps₁, steps₂, rfl, hx, hrest⟩
    · have herror := (storeOne_quiet hone hx).1
      cases herror
    · obtain ⟨hout, hquiet⟩ := storeOne_quiet hone hx
      cases hout
      obtain ⟨rfl, hquiet'⟩ := ih (fun x hx => hsame x (List.mem_cons_of_mem _ hx)) hrest
      refine ⟨rfl, fun x hx => ?_⟩
      rcases List.mem_append.mp hx with hx | hx
      · exact hquiet x hx
      · exact hquiet' x hx

/-- A STORE of flags that are there already answers OK and writes nothing. -/
theorem StoreReady.quiet {out : Except Exc Unit} (hr : StoreReady plan api inboxId mdef sel snap s)
    (hsame : ∀ item ∈ snap.items, item.uid ∈ (targets sel plan.uidMode set).map (·.2) →
      plan.result mdef.permanentFlags (s.1.store.deletedUids inboxId mdef.name) item =
        flagsOf item (s.1.store.deletedUids inboxId mdef.name))
    (h : (store cfg t tag set plan).Takes (exec cfg t) rely s steps out s') :
    out = .ok () ∧ ∀ x ∈ steps, writes x = false := by
  have hsame : ∀ target ∈ targets sel plan.uidMode set, ∀ item,
      snap.byUid target.2 = some item →
        plan.result mdef.permanentFlags (s.1.store.deletedUids inboxId mdef.name) item =
          flagsOf item (s.1.store.deletedUids inboxId mdef.name) := by
    intro target htarget item hby
    obtain ⟨hitem, huid⟩ := Snapshot.byUid_some hby
    apply hsame item hitem
    rw [huid]
    exact List.mem_map_of_mem htarget
  rcases (hr.loop h).of_bind with ⟨e, _, hx⟩ | ⟨a, s₁, steps₁, steps₂, rfl, hx, hend⟩
  · have herror := (storeLoop_quiet hsame hx).1
    cases herror
  · obtain ⟨_, hquiet⟩ := storeLoop_quiet hsame hx
    obtain ⟨rfl, _, _, _, hquiet'⟩ := storeEnd_takes hend
    refine ⟨rfl, fun x hx => ?_⟩
    rcases List.mem_append.mp hx with hx | hx
    · exact hquiet x hx
    · exact hquiet' x hx

theorem Selected.bare_eq {sel sel' : Selected} (h : sel'.bare = sel.bare) :
    sel'.name = sel.name ∧ sel'.readOnly = sel.readOnly ∧ sel'.uids = sel.uids ∧
      sel'.seqOf = sel.seqOf := by
  simp only [Selected.bare, Selected.mk.injEq] at h
  obtain ⟨hname, hreadOnly, huids, hseqs, _⟩ := h
  exact ⟨hname, hreadOnly, huids, hseqs⟩

/-- The session may do the STORE again. -/
theorem StoreDone.ready {uids : List Nat} {f : Item → Item}
    (h : StoreDone plan mdef (inboxId, mdef.name) snap uids s s' U U' f)
    (hr : StoreReady plan api inboxId mdef sel snap s) :
    ∃ sel', sel'.bare = sel.bare ∧
      StoreReady plan api inboxId mdef sel' { snap with items := snap.items.map f } s' := by
  have hsel := h.session.selected
  rw [hr.selected, Option.map_some, Option.map_eq_some_iff] at hsel
  obtain ⟨sel', hsel', hbare⟩ := hsel
  obtain ⟨hname, hwritable, _, _⟩ := Selected.bare_eq hbare
  refine ⟨sel', hbare, h.session.state.trans hr.state, hsel', h.session.api.trans hr.api,
    h.session.inboxId.trans hr.inbox, hwritable.trans hr.writable, ?_, hr.storable, ?_⟩
  · rw [hname, hr.mailbox]
  · rw [h.latest, Function.update_self]

theorem targets_bare {sel sel' : Selected} (h : sel'.bare = sel.bare) (uidMode : Bool)
    (set : SequenceSet) : targets sel' uidMode set = targets sel uidMode set := by
  obtain ⟨_, _, huids, hseqs⟩ := Selected.bare_eq h
  rw [targets, targets, huids, hseqs]

/-- After a STORE that is done, the same STORE writes nothing. -/
theorem StoreDone.again {f : Item → Item} {s'' : Shared} {steps' : List Taken} {tag' : String}
    {out : Except Exc Unit}
    (h : StoreDone plan mdef (inboxId, mdef.name) snap ((targets sel plan.uidMode set).map (·.2))
      s s' U U' f) (hr : StoreReady plan api inboxId mdef sel snap s)
    (hagain : (store cfg t tag' set plan).Takes (exec cfg t) rely s' steps' out s'') :
    out = .ok () ∧ ∀ x ∈ steps', writes x = false := by
  obtain ⟨sel', hbare, hr'⟩ := h.ready hr
  apply hr'.quiet _ hagain
  intro item' hitem' huid
  obtain ⟨item, hitem, rfl⟩ := List.mem_map.mp hitem'
  rw [targets_bare hbare] at huid
  have huid' : (f item).uid = item.uid := by
    rw [h.fields item]
  rw [huid'] at huid
  rw [StorePlan.result, h.flags item hitem huid, StoreMode.wanted_wanted]

end

/-! ## In a run -/

section

variable {cfg : Config} {txt : TextConfig} {R : Regime} {V : Prop} {b : Boot} {w : World} {t : Tid}
  {api : Client} {inboxId : String} {mdef : MailboxDef} {plan : StorePlan} {snap : Snapshot}
  {sel : Selected} {set : SequenceSet} {tag tag' : String} {steps steps' : List Taken}
  {s' s'' : Shared} {U U' : String → Labels} {rely : Shared → Shared → Prop}
  {out : Except Exc Unit}

/-- What an idle connection of a reachable state may count on. -/
theorem LawfulRun.storeSound (h : LawfulRun cfg txt R V b w) (hidle : w.prog t = .ret ())
    (hr : StoreReady plan api inboxId mdef sel snap (w.shared, w.loc t)) :
    StoreSound mdef sel snap := by
  have hrests := ((sound cfg txt R V).reaches b.holds h t).2
  rw [hidle] at hrests
  have horderly : Orderly cfg R (w.shared, w.loc t) := hrests
  have hc := h.conducted
  have hdef : mdef ∈ mailboxes := lookupMailbox_mem hr.mailbox
  have hkind : kindAt (inboxId, mdef.name) = mdef.kind := kindAt_eq hdef inboxId
  have hcurrent := hc.inv.latest _ snap hr.latest
  refine ⟨hdef, ⟨?_, ?_⟩, ?_, ?_⟩
  · have hnodup : snap.uids.Nodup := hcurrent.valid.ascending.imp fun hlt => Nat.ne_of_lt hlt
    exact fun a ha a' ha' huid => List.inj_on_of_nodup_map hnodup ha ha' huid
  · intro hmessages a ha a' ha' hid
    exact hc.inv.eq_of_remoteId (hc.bound b.blank) (hc.named b.blank) hr.latest
      (hkind.trans hmessages) ha ha' hid
  · intro i hi
    rw [← hkind]
    exact (hc.plainFlags (b.blank.plainFlags fun _ => rfl)).latest _ snap hr.latest i hi
  · obtain ⟨_, _, _, _, _, hok⟩ := horderly.ok.view sel hr.selected
    exact hok.ascending.imp fun hlt => Nat.ne_of_lt hlt

/-- A STORE that nobody interferes with leaves exactly the flags asked for, everywhere. -/
theorem store_exact (b : Boot) (h : ProperRun cfg txt b w) (hidle : w.prog t = .ret ())
    (hr : StoreReady plan api inboxId mdef sel snap (w.shared, w.loc t))
    (hlabels : mdef.kind = .messages → ∀ item ∈ snap.items, U item.remoteId = item.labels)
    (hrun : (store cfg t tag set plan).Takes (exec cfg t) Undisturbed (w.shared, w.loc t) steps
      (.ok ()) s') (he : Echoed inboxId U steps U') :
    (∃ f, StoreDone plan mdef (inboxId, mdef.name) snap
      ((targets sel plan.uidMode set).map (·.2)) (w.shared, w.loc t) s' U U' f) ∧
    said steps = (targets sel plan.uidMode set).filterMap (plan.answer mdef.permanentFlags snap
        (w.shared.store.deletedUids inboxId mdef.name)) ++
      [.tagged tag "OK" (if plan.uidMode then "UID STORE completed" else "STORE completed") none] :=
  (h.storeSound hidle hr).done hr hlabels hrun he

/-- The same STORE once more answers OK, and writes nothing upstream and no mark. -/
theorem store_repeated (b : Boot) (h : ProperRun cfg txt b w) (hidle : w.prog t = .ret ())
    (hr : StoreReady plan api inboxId mdef sel snap (w.shared, w.loc t))
    (hlabels : mdef.kind = .messages → ∀ item ∈ snap.items, U item.remoteId = item.labels)
    (hrun : (store cfg t tag set plan).Takes (exec cfg t) Undisturbed (w.shared, w.loc t) steps
      (.ok ()) s') (he : Echoed inboxId U steps U')
    (hagain : (store cfg t tag' set plan).Takes (exec cfg t) rely s' steps' out s'') :
    out = .ok () ∧ ∀ x ∈ steps', writes x = false := by
  obtain ⟨⟨f, hdone⟩, _⟩ := (h.storeSound hidle hr).done hr hlabels hrun he
  exact hdone.again hr hagain

end

/-! ## A STORE of two flags -/

/-- The labels upstream has in the end, if each PATCH was answered with the labels it left. -/
def echoed (inboxId : String) : (String → Labels) → List Taken → Option (String → Labels)
  | U, [] => some U
  | U, .did _ _ :: steps => echoed inboxId U steps
  | U, .heard (.updateLabels _ i id add remove) (.ok result) :: steps =>
    if i = inboxId ∧ labelSet result.labels = patched (U id) add remove then
      echoed inboxId (Function.update U id (patched (U id) add remove)) steps
    else none
  | _, .heard _ _ :: _ => none

theorem echoed_of_check {inboxId : String} {U U' : String → Labels} {steps : List Taken}
    (h : echoed inboxId U steps = some U') : Echoed inboxId U steps U' := by
  induction steps generalizing U with
  | nil =>
    cases h
    exact .nil _
  | cons step steps ih =>
    cases step with
    | did p s => exact .did p s (ih h)
    | heard q a =>
      unfold echoed at h
      split at h
      · rename_i heq
        cases heq
      · rename_i heq
        cases heq
      · rename_i heq
        cases heq
        split at h
        · rename_i hok
          obtain ⟨rfl, hlabels⟩ := hok
          exact .echo _ _ _ _ _ hlabels (ih h)
        · cases h
      · cases h

/-- `UID STORE 1 FLAGS (\Seen \Deleted)` -/
def seenAndDeleted : StorePlan := ⟨.replace, false, [.seen, .deleted], true⟩

def firstOnly : SequenceSet := ⟨[(1, 1)]⟩

/-- The labels of the messages of `unreadBoot`. -/
def asUnread : String → Labels := fun _ => {"received", "unread"}

/-- The STORE by the first connection, where upstream leaves a message read. -/
def storedIn (w : World) (s : Shared) : List Taken × Except Exc Unit × Shared :=
  (store demoConfig (.conn 0) "a" firstOnly seenAndDeleted).play (exec demoConfig (.conn 0))
    (fun q => (demoAnswer [] [] ["received", "read"] w.shared q).getD (.error .unavailable)) s

/-- What a session needs for the STORE, if it has it. -/
def readyIn (plan : StorePlan) (s : Shared) :
    Option (Client × String × MailboxDef × Selected × Snapshot) :=
  s.2.selected.bind fun sel => s.2.api.bind fun api => s.2.inboxId.bind fun inboxId =>
    (lookupMailbox sel.name).bind fun mdef => (s.1.latest (inboxId, mdef.name)).bind fun snap =>
      if s.2.state = .selected ∧ sel.readOnly = false ∧ ∀ f ∈ plan.flags, f ∈ mdef.permanentFlags then
        some (api, inboxId, mdef, sel, snap)
      else none

theorem ready_of_check {plan : StorePlan} {s : Shared} {api : Client} {inboxId : String}
    {mdef : MailboxDef} {sel : Selected} {snap : Snapshot}
    (h : readyIn plan s = some (api, inboxId, mdef, sel, snap)) :
    StoreReady plan api inboxId mdef sel snap s := by
  simp only [readyIn, Option.bind_eq_some_iff] at h
  obtain ⟨sel', hsel, api', hapi, inboxId', hid, mdef', hdef, snap', hlatest, h⟩ := h
  split at h
  · rename_i hok
    obtain ⟨hstate, hwritable, hflags⟩ := hok
    simp only [Option.some.injEq, Prod.mk.injEq] at h
    obtain ⟨rfl, rfl, rfl, rfl, rfl⟩ := h
    exact ⟨hstate, hsel, hapi, hid, hwritable, hdef, hflags, hlatest⟩
  · cases h

/-- The connection is idle. -/
def idle {α : Type} : Prog α → Bool
  | .ret _ => true
  | _ => false

theorem eq_ret_of_idle {x : Prog Unit} (h : idle x = true) : x = .ret () := by
  cases x with
  | ret a => rfl
  | _ => cases h

/-- What the STORE said, if everything is as it should be. -/
def toldIn (w : World) : Option (List Response) :=
  let s := (w.shared, w.loc (.conn 0))
  match readyIn seenAndDeleted s, storedIn w s with
  | some (_, inboxId, _, _, snap), (steps, .ok (), _) =>
    if idle (w.prog (.conn 0)) = true ∧ (∀ item ∈ snap.items, item.labels = asUnread item.remoteId) ∧
        (echoed inboxId asUnread steps).isSome = true then
      some (said steps)
    else none
  | _, _ => none

def twoFlags : List Response :=
  [.fetch 1 1 [.uid 1, .flags {.seen, .deleted}], .tagged "a" "OK" "UID STORE completed" none]

theorem Undisturbed.refl (s : Shared) : Undisturbed s s := ⟨rfl, rfl, rfl⟩

theorem storedIn_takes {w : World} {s s' : Shared} {steps : List Taken} {out : Except Exc Unit}
    (h : storedIn w s = (steps, out, s')) :
    (store demoConfig (.conn 0) "a" firstOnly seenAndDeleted).Takes (exec demoConfig (.conn 0))
      Undisturbed s steps out s' := by
  rw [storedIn] at h
  have hplay : (store demoConfig (.conn 0) "a" firstOnly seenAndDeleted).Takes
      (exec demoConfig (.conn 0)) Undisturbed s _ _ _ := Coro.play_takes Undisturbed.refl
    (fun q => (demoAnswer [] [] ["received", "read"] w.shared q).getD (.error .unavailable)) _ s
  rw [h] at hplay
  exact hplay

theorem told_of_check {w : World} {told : List Response} (h : toldIn w = some told) :
    ∃ api inboxId mdef sel snap steps s' U', w.prog (.conn 0) = .ret () ∧
      StoreReady seenAndDeleted api inboxId mdef sel snap (w.shared, w.loc (.conn 0)) ∧
      (∀ item ∈ snap.items, asUnread item.remoteId = item.labels) ∧
      storedIn w (w.shared, w.loc (.conn 0)) = (steps, .ok (), s') ∧
      Echoed inboxId asUnread steps U' ∧ said steps = told := by
  unfold toldIn at h
  dsimp only at h
  split at h
  · rename_i api inboxId mdef sel snap steps s' hready hstored
    split at h
    · rename_i hok
      obtain ⟨hidle, hlabels, hechoed⟩ := hok
      obtain ⟨U', hU'⟩ := Option.isSome_iff_exists.mp hechoed
      exact ⟨api, inboxId, mdef, sel, snap, steps, s', U', eq_ret_of_idle hidle,
        ready_of_check hready, fun item hitem => (hlabels item hitem).symm,
        hstored, echoed_of_check hU', Option.some.inj h⟩
    · cases h
  · cases h

theorem exists_told : ∃ w, ProperRun demoConfig demoText unreadBoot w ∧
    toldIn w = some twoFlags ∧ (storedIn w (w.shared, w.loc (.conn 0))).1.any writes = true := by
  have hrun : (unreadBoot.world.run (gateway demoConfig demoText) (unreadOpened 0 0)).any (fun w =>
      decide (toldIn w = some twoFlags) &&
        (storedIn w (w.shared, w.loc (.conn 0))).1.any writes) = true := by
    decide +kernel
  obtain ⟨w, hw, hok⟩ := exists_properRun (by decide) hrun
  rw [Bool.and_eq_true, decide_eq_true_eq] at hok
  exact ⟨w, hw, hok⟩

theorem store_exact_two_flags : ∃ w, ProperRun demoConfig demoText unreadBoot w ∧
    ∃ steps, said steps = twoFlags ∧ ∃ key mdef snap uids s' U' f,
      StoreDone seenAndDeleted mdef key snap uids (w.shared, w.loc (.conn 0)) s' asUnread U' f := by
  obtain ⟨w, hw, htold, _⟩ := exists_told
  obtain ⟨api, inboxId, mdef, sel, snap, steps, s', U', hidle, hr, hlabels, hrun, he, hsaid⟩ :=
    told_of_check htold
  obtain ⟨⟨f, hdone⟩, _⟩ :=
    store_exact unreadBoot hw hidle hr (fun _ => hlabels) (storedIn_takes hrun) he
  exact ⟨w, hw, steps, hsaid, _, mdef, snap, _, s', U', f, hdone⟩

/-- The STORE is given again where the first has ended. -/
theorem store_repeated_two_flags : ∃ w, ProperRun demoConfig demoText unreadBoot w ∧
    ∃ steps s', storedIn w (w.shared, w.loc (.conn 0)) = (steps, .ok (), s') ∧
      said steps = twoFlags ∧ steps.any writes = true ∧
      (storedIn w s').2.1 = .ok () ∧ ∀ x ∈ (storedIn w s').1, writes x = false := by
  obtain ⟨w, hw, htold, hwrites⟩ := exists_told
  obtain ⟨api, inboxId, mdef, sel, snap, steps, s', U', hidle, hr, hlabels, hrun, he, hsaid⟩ :=
    told_of_check htold
  rw [hrun] at hwrites
  exact ⟨w, hw, steps, s', hrun, hsaid, hwrites, store_repeated unreadBoot hw hidle hr
    (fun _ => hlabels) (storedIn_takes hrun) he (storedIn_takes rfl)⟩

end Imap
end ImapGateway
