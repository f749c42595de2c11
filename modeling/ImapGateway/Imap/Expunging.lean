/-
EXPUNGE, UID EXPUNGE and CLOSE remove what was marked and nothing else.

The marks, the set of a UID EXPUNGE and the snapshot are read once, before the first request.
Whatever the others do from then on and however upstream answers, the writes of the command are
removals of the marked items, in the order of their UIDs, and if it succeeds they are all of them.
-/
import ImapGateway.Mailbox.Removals
import ImapGateway.Store.Marks
import ImapGateway.Imap.Answers
import ImapGateway.Imap.Agreement

namespace ImapGateway
namespace Imap

open Async
open Mailbox hiding upper

variable {cfg : Config} {txt : TextConfig} {t : Tid} {n : Nat} {s s' : Shared}
  {rely : Shared → Shared → Prop} {heard : List (Sigma Req.Answer)} {api : Client}
  {inboxId : String} {mdef : MailboxDef} {sel : Selected} {onlyUids : Option (List Nat)}

/-- The items of the latest snapshot that a command is to remove. -/
def doomedItems (s : Service) (inboxId : String) (mdef : MailboxDef)
    (onlyUids : Option (List Nat)) : List Item :=
  match s.latest (inboxId, mdef.name) with
  | some snap => (doomedUids (s.store.deletedUids inboxId mdef.name) onlyUids).filterMap snap.byUid
  | none => []

theorem mem_doomedUids {marked : List Nat} {uid : Nat} :
    uid ∈ doomedUids marked onlyUids ↔ uid ∈ marked ∧ ∀ uids, onlyUids = some uids → uid ∈ uids := by
  rw [doomedUids, List.mem_insertionSort, List.mem_filter]
  cases onlyUids with
  | none => simp
  | some uids => simp

/-- An item that is to be removed is marked, named by the command, and in the snapshot. -/
theorem doomed_of_mem {s : Service} {item : Item} (h : item ∈ doomedItems s inboxId mdef onlyUids) :
    s.store.Marked inboxId mdef.name item.uid ∧ (∀ uids, onlyUids = some uids → item.uid ∈ uids) ∧
      ∃ snap, s.latest (inboxId, mdef.name) = some snap ∧ item ∈ snap.items := by
  unfold doomedItems at h
  split at h
  · rename_i snap hsnap
    obtain ⟨uid, huid, hitem⟩ := List.mem_filterMap.mp h
    obtain ⟨hmem, rfl⟩ := Snapshot.byUid_some hitem
    obtain ⟨hmarked, honly⟩ := mem_doomedUids.mp huid
    exact ⟨hmarked, honly, snap, hsnap, hmem⟩
  · exact absurd h List.not_mem_nil

/-- The items to remove stand in the order of their UIDs, each once if each mark is there once. -/
theorem doomedItems_ascending {s : Service} (h : (s.store.deletedUids inboxId mdef.name).Nodup) :
    ((doomedItems s inboxId mdef onlyUids).map (·.uid)).Pairwise (· < ·) := by
  unfold doomedItems
  split
  · rename_i snap hsnap
    have hsorted : (doomedUids (s.store.deletedUids inboxId mdef.name) onlyUids).Pairwise (· ≤ ·) :=
      List.pairwise_insertionSort (· ≤ ·) _
    have hnodup : (doomedUids (s.store.deletedUids inboxId mdef.name) onlyUids).Nodup :=
      (List.perm_insertionSort (· ≤ ·) _).nodup_iff.mpr (h.filter _)
    have hstrict : (doomedUids (s.store.deletedUids inboxId mdef.name) onlyUids).Pairwise (· < ·) :=
      (hsorted.and hnodup).imp fun hab => Nat.lt_of_le_of_ne hab.1 hab.2
    rw [List.pairwise_map]
    apply List.Pairwise.filterMap _ _ hstrict
    intro a b hab x hx y hy
    rw [(Snapshot.byUid_some hx).2, (Snapshot.byUid_some hy).2]
    exact hab
  · exact List.Pairwise.nil

/-! ## The session -/

/-- A session with a mailbox open, as a handler finds it. -/
structure Opened (api : Client) (inboxId : String) (mdef : MailboxDef) (sel : Selected)
    (l : Session) : Prop where
  state : l.state = .selected
  selected : l.selected = some sel
  api : l.api = some api
  inboxId : l.inboxId = some inboxId
  mailbox : lookupMailbox sel.name = some mdef

theorem session_hears {α : Type} {out : Except Exc α} {k : Session → Prog α}
    (h : (session.bind k).Hears (exec cfg t) rely s heard out s') :
    (k s.2).Hears (exec cfg t) rely s heard out s' := by
  cases h with
  | get h => exact h

/-- A guard that reads the session goes on as it does in the session at hand. -/
theorem reading_hears {α β : Type} {out : Except Exc α} {f : Session → Prog β} {k : β → Prog α}
    (h : ((session.bind f).bind k).Hears (exec cfg t) rely s heard out s') :
    ((f s.2).bind k).Hears (exec cfg t) rely s heard out s' :=
  session_hears (k := fun l => (f l).bind k) h

theorem service_hears {α : Type} {out : Except Exc α} {k : Service → Prog α}
    (h : (service.bind k).Hears (exec cfg t) rely s heard out s') :
    (k s.1).Hears (exec cfg t) rely s heard out s' := by
  cases h with
  | get h => exact h

section Guards

variable {α : Type} {out : Except Exc α} (ho : Opened api inboxId mdef sel s.2)
include ho

theorem Opened.of_requireSelected {k : Selected → Prog α}
    (h : (requireSelected.bind k).Hears (exec cfg t) rely s heard out s') :
    (k sel).Hears (exec cfg t) rely s heard out s' := by
  have hread := reading_hears h
  simp only [ho.state, ho.selected] at hread
  exact hread

theorem Opened.of_context {k : Client × String → Prog α}
    (h : (context.bind k).Hears (exec cfg t) rely s heard out s') :
    (k (api, inboxId)).Hears (exec cfg t) rely s heard out s' := by
  have hread := reading_hears h
  simp only [ho.api, ho.inboxId] at hread
  exact hread

theorem Opened.of_mailboxOf {k : MailboxDef → Prog α}
    (h : ((mailboxOf sel.name).bind k).Hears (exec cfg t) rely s heard out s') :
    (k mdef).Hears (exec cfg t) rely s heard out s' := by
  rw [mailboxOf, ho.mailbox] at h
  exact h

theorem Opened.deletedUids : s.2.deletedUids s.1 sel.name =
    s.1.store.deletedUids inboxId mdef.name := by
  rw [Session.deletedUids, ho.inboxId, ho.mailbox]

end Guards

/-! ## Removal -/

section Removal

variable {out : Except Exc Unit}

/-- A guard lets the rest through, or nothing is asked. -/
theorem refuse_hears {c : Prop} [Decidable c] {e : Exc} {k : Unit → Prog Unit}
    (h : ((refuse c e).bind k).Hears (exec cfg t) rely s heard out s') :
    (heard = [] ∧ c ∧ out = .error e) ∨ ¬c ∧ (k ()).Hears (exec cfg t) rely s heard out s' := by
  rw [refuse] at h
  by_cases hc : c
  · rw [if_pos hc] at h
    cases h
    exact .inl ⟨rfl, hc, rfl⟩
  · rw [if_neg hc] at h
    exact .inr ⟨hc, h⟩

/-- A coroutine of the service hears on a connection what it hears by itself. -/
theorem svc_hears {α : Type} {x : Svc α} {out : Except Exc α}
    (h : (svc x).Hears (exec cfg t) rely s heard out s') :
    x.Hears (Mailbox.Act.exec cfg t) (fun _ _ => True) s.1 heard out s'.1 :=
  h.of_lift (fun _ _ => rfl) fun _ _ _ => trivial

theorem removeItems_hears {items : List Item} {silent : Bool}
    (h : (removeItems cfg t api inboxId mdef items silent).Hears (exec cfg t) rely s heard out s') :
    ∃ kept, Removes cfg api inboxId mdef items heard (out = .ok ()) kept := by
  have hrest : ∀ {errors : List Exc} {s heard},
      ((svc (syncForced cfg t api inboxId mdef.name)).bind fun _ =>
        (act (if silent then .dropVanished errors.length else .flushPending)).bind fun _ =>
          refuse (errors ≠ []) (unremoved errors)).Hears (exec cfg t) rely s heard out s' →
      (∀ a ∈ heard, a.1.reads = true) ∧ (out = .ok () → errors = []) := by
    intro errors s heard h
    have hsync : (svc (syncForced cfg t api inboxId mdef.name)).Asks fun q => q.reads = true :=
      Coro.Asks.lift (syncForced_looks mdef.name)
    have hend : (refuse (errors ≠ []) (unremoved errors)).Asks fun q => q.reads = true := by
      rw [refuse]
      split
      · trivial
      · trivial
    refine ⟨h.asks (hsync.bind fun _ => hend), fun hok => ?_⟩
    rcases h.of_bind with ⟨e, rfl, _⟩ | ⟨snap, s₁, heard₁, heard₂, _, _, h⟩
    · cases hok
    · have h : (refuse (errors ≠ []) (unremoved errors)).Hears (exec cfg t) rely _ heard₂ out s' :=
        h.of_perform
      rw [refuse] at h
      split at h
      · cases h
        cases hok
      · rename_i herrors
        exact not_not.mp herrors
  rw [removeItems] at h
  rcases h.of_bind with ⟨e, rfl, hitems⟩ | ⟨errors, s₁, heard₁, heard₂, rfl, hitems, h⟩
  · obtain ⟨kept, hkept⟩ := expungeItems_hears (svc_hears hitems)
    exact ⟨kept, hkept.weaken fun hout => by cases hout⟩
  · obtain ⟨kept, hkept⟩ := expungeItems_hears (svc_hears hitems)
    obtain ⟨hreads, hok⟩ := hrest h
    have hnone : Removes cfg api inboxId mdef [] heard₂ (out = .ok ()) [] := .idle hreads fun _ => rfl
    have hall := hkept.append hnone
    rw [List.append_nil, List.append_nil] at hall
    exact ⟨kept, hall.weaken fun hout => ⟨by rw [hok hout], hout⟩⟩

theorem expungeDeleted_hears (ho : Opened api inboxId mdef sel s.2) {silent : Bool}
    (h : (expungeDeleted cfg t onlyUids silent).Hears (exec cfg t) rely s heard out s') :
    ∃ kept, Removes cfg api inboxId mdef (doomedItems s.1 inboxId mdef onlyUids) heard
        (out = .ok ()) kept ∧
      (heard ≠ [] → sel.readOnly = false ∧ Flag.deleted ∈ mdef.permanentFlags) := by
  have hnothing : ∀ a ∈ ([] : List (Sigma Req.Answer)), a.1.reads = true := fun a ha =>
    absurd ha List.not_mem_nil
  have hnone : doomedUids (s.1.store.deletedUids inboxId mdef.name) onlyUids = [] →
      doomedItems s.1 inboxId mdef onlyUids = [] := by
    intro hdoomed
    unfold doomedItems
    split
    · rw [hdoomed]
      rfl
    · rfl
  rw [expungeDeleted] at h
  have h := ho.of_mailboxOf (ho.of_context (ho.of_requireSelected h))
  rcases refuse_hears h with ⟨rfl, _, rfl⟩ | ⟨hwritable, h⟩
  · exact ⟨[], .idle hnothing (fun hout => by cases hout), fun hne => absurd rfl hne⟩
  have h := service_hears (session_hears h)
  dsimp only at h
  rw [ho.deletedUids] at h
  by_cases hpermanent : Flag.deleted ∈ mdef.permanentFlags
  · rw [if_neg (not_not.mpr hpermanent)] at h
    have hwrite : sel.readOnly = false := by simpa using hwritable
    by_cases hdoomed : doomedUids (s.1.store.deletedUids inboxId mdef.name) onlyUids = []
    · rw [if_pos hdoomed] at h
      cases h
      exact ⟨[], .idle hnothing fun _ => hnone hdoomed, fun hne => absurd rfl hne⟩
    · rw [if_neg hdoomed] at h
      have h := service_hears h
      obtain ⟨kept, hkept⟩ := removeItems_hears h
      exact ⟨kept, hkept, fun _ => ⟨hwrite, hpermanent⟩⟩
  · -- A view that cannot be expunged: a mark in it is refused.
    rw [if_pos hpermanent, refuse] at h
    split at h
    · cases h
      exact ⟨[], .idle hnothing (fun hout => by cases hout), fun hne => absurd rfl hne⟩
    · rename_i hmarks
      cases h
      have hdoomed : doomedUids (s.1.store.deletedUids inboxId mdef.name) onlyUids = [] := by
        rw [not_not.mp hmarks]
        rfl
      exact ⟨[], .idle hnothing fun _ => hnone hdoomed, fun hne => absurd rfl hne⟩

/-! ## The commands -/

/-- Which marked UIDs a command that expunges is for. -/
def Verb.expunges (sel : Selected) : Verb → Option (Option (List Nat))
  | .expunge => some none
  | .close => some none
  | .uidExpunge set => some (some (selectNumbers set sel.uids))
  | _ => none

/-- What was sent for the items that a command was to remove. -/
structure Expunged (cfg : Config) (s : Service) (api : Client) (inboxId : String)
    (mdef : MailboxDef) (sel : Selected) (onlyUids : Option (List Nat))
    (heard : List (Sigma Req.Answer)) (clean : Prop) (kept : List Item) : Prop where
  removes : Removes cfg api inboxId mdef (doomedItems s inboxId mdef onlyUids) heard clean kept
  writable : heard ≠ [] → sel.readOnly = false ∧ Flag.deleted ∈ mdef.permanentFlags

/-- What follows the removals writes to the client and asks nothing. -/
theorem expunged_hears {x : Prog Unit} {k : Unit → Prog Unit}
    (hx : ∀ {heard out s'}, x.Hears (exec cfg t) rely s heard out s' →
      ∃ kept, Expunged cfg s.1 api inboxId mdef sel onlyUids heard (out = .ok ()) kept)
    (hk : ∀ {s heard out s'}, (k ()).Hears (exec cfg t) rely s heard out s' → heard = [])
    (h : (x.bind k).Hears (exec cfg t) rely s heard out s') :
    ∃ kept, Expunged cfg s.1 api inboxId mdef sel onlyUids heard (out = .ok ()) kept := by
  rcases h.of_bind with ⟨e, rfl, hrun⟩ | ⟨_, s₁, heard₁, heard₂, rfl, hrun, hrest⟩
  · obtain ⟨kept, hkept⟩ := hx hrun
    exact ⟨kept, hkept.removes.weaken (fun hout => by cases hout), hkept.writable⟩
  · obtain ⟨kept, hkept⟩ := hx hrun
    rw [hk hrest, List.append_nil]
    exact ⟨kept, hkept.removes.weaken (fun _ => rfl), hkept.writable⟩

theorem send_hears {r : Response} (h : (send r).Hears (exec cfg t) rely s heard out s') :
    heard = [] := by
  cases h with
  | act h =>
    cases h
    rfl

theorem expunge_hears (ho : Opened api inboxId mdef sel s.2) {tag : String}
    (h : (expunge cfg t tag).Hears (exec cfg t) rely s heard out s') :
    ∃ kept, Expunged cfg s.1 api inboxId mdef sel none heard (out = .ok ()) kept := by
  rw [expunge] at h
  apply expunged_hears _ send_hears h
  intro heard out s' h
  obtain ⟨kept, hkept, hwritable⟩ := expungeDeleted_hears ho h
  exact ⟨kept, hkept, hwritable⟩

theorem uidExpunge_hears (ho : Opened api inboxId mdef sel s.2) {tag : String} {set : SequenceSet}
    (h : (uidExpunge cfg t tag set).Hears (exec cfg t) rely s heard out s') :
    ∃ kept, Expunged cfg s.1 api inboxId mdef sel (some (selectNumbers set sel.uids)) heard
      (out = .ok ()) kept := by
  rw [uidExpunge] at h
  apply expunged_hears _ send_hears (ho.of_requireSelected h)
  intro heard out s' h
  obtain ⟨kept, hkept, hwritable⟩ := expungeDeleted_hears ho h
  exact ⟨kept, hkept, hwritable⟩

/-- CLOSE of a view that was opened with EXAMINE removes nothing, whatever is marked. -/
theorem close_hears (ho : Opened api inboxId mdef sel s.2) {tag : String}
    (h : (close cfg t tag).Hears (exec cfg t) rely s heard out s') :
    ∃ kept, Expunged cfg s.1 api inboxId mdef sel none heard
      (out = .ok () ∧ sel.readOnly = false) kept := by
  have hleave : ∀ {s heard out s'}, ((act .deselect).bind fun _ =>
      send (.tagged tag "OK" "CLOSE completed" none)).Hears (exec cfg t) rely s heard out s' →
        heard = [] := fun h => send_hears h.of_perform
  rw [close] at h
  have h := service_hears (session_hears (ho.of_requireSelected h))
  rw [ho.deletedUids] at h
  split at h
  · obtain ⟨kept, hkept⟩ := expunged_hears (fun hrun => by
      obtain ⟨kept, hkept, hwritable⟩ := expungeDeleted_hears ho hrun
      exact ⟨kept, hkept, hwritable⟩) hleave h
    exact ⟨kept, hkept.removes.weaken And.left, hkept.writable⟩
  · rename_i hidle
    have hnone := hleave h
    subst hnone
    refine ⟨[], .idle (fun a ha => absurd ha List.not_mem_nil) fun hclean => ?_,
      fun hne => absurd rfl hne⟩
    have hmarks : s.1.store.deletedUids inboxId mdef.name = [] := by
      by_contra hmarks
      exact hidle ⟨hclean.2, hmarks⟩
    unfold doomedItems
    rw [hmarks]
    split
    · rfl
    · rfl

/-- EXPUNGE, UID EXPUNGE and CLOSE, from any state with a mailbox open, whatever the others do
meanwhile and whatever upstream answers: the only requests that change anything upstream are
removals of items of the snapshot that are marked and that the command names, one for each at
most, in the order of their UIDs; a draft is deleted only if the command fetched it and it
rendered to the content its UID names; nothing is requested for a view that is read-only or
cannot be expunged; and if the command answers OK each of the items was removed, and upstream
confirmed it. -/
theorem expunge_removes_marked {cmd : Command} (ho : Opened api inboxId mdef sel s.2)
    (hverb : cmd.verb.expunges sel = some onlyUids)
    (h : (handler cfg txt n cmd).Hears (exec cfg (.conn n)) rely s heard out s') :
    ∃ kept, Expunged cfg s.1 api inboxId mdef sel onlyUids heard
        (out = .ok () ∧ sel.readOnly = false) kept ∧
      (∀ item ∈ kept, s.1.store.Marked inboxId mdef.name item.uid ∧
        ∀ uids, onlyUids = some uids → item.uid ∈ uids) ∧
      ((s.1.store.deletedUids inboxId mdef.name).Nodup → (kept.map (·.uid)).Pairwise (· < ·)) := by
  have hexpunged : ∃ kept, Expunged cfg s.1 api inboxId mdef sel onlyUids heard
      (out = .ok () ∧ sel.readOnly = false) kept := by
    unfold handler at h
    cases hcase : cmd.verb with
    | expunge =>
      rw [hcase] at h hverb
      cases hverb
      obtain ⟨kept, hkept⟩ := expunge_hears ho h
      exact ⟨kept, hkept.removes.weaken And.left, hkept.writable⟩
    | uidExpunge set =>
      rw [hcase] at h hverb
      cases hverb
      obtain ⟨kept, hkept⟩ := uidExpunge_hears ho h
      exact ⟨kept, hkept.removes.weaken And.left, hkept.writable⟩
    | close =>
      rw [hcase] at h hverb
      cases hverb
      exact close_hears ho h
    | _ =>
      rw [hcase] at hverb
      cases hverb
  obtain ⟨kept, hkept⟩ := hexpunged
  refine ⟨kept, hkept, fun item hitem => ?_, fun hnodup => ?_⟩
  · obtain ⟨hmarked, honly, _⟩ := doomed_of_mem (hkept.removes.among.subset hitem)
    exact ⟨hmarked, honly⟩
  · exact (doomedItems_ascending hnodup).sublist (hkept.removes.among.map _)

end Removal

/-! ## A message removed -/

/-- What a handler finds in a session, if a mailbox is open. -/
def openedIn (l : Session) : Option (Client × String × MailboxDef × Selected) :=
  l.selected.bind fun sel => l.api.bind fun api => l.inboxId.bind fun inboxId =>
    (lookupMailbox sel.name).bind fun mdef =>
      if l.state = .selected then some (api, inboxId, mdef, sel) else none

theorem opened_of_check {l : Session} (h : openedIn l = some (api, inboxId, mdef, sel)) :
    Opened api inboxId mdef sel l := by
  simp only [openedIn, Option.bind_eq_some_iff] at h
  obtain ⟨sel', hsel, api', hapi, inboxId', hid, mdef', hdef, h⟩ := h
  split at h
  · rename_i hstate
    simp only [Option.some.injEq, Prod.mk.injEq] at h
    obtain ⟨rfl, rfl, rfl, rfl⟩ := h
    exact ⟨hstate, hsel, hapi, hid, hdef⟩
  · cases h

/-- Upstream carries out what it is asked, and the mailbox lists empty. -/
def obliging : (q : Req) → q.Answer
  | .updateLabels _ _ _ _ _ => .ok ⟨some ["received", "trash"]⟩
  | .task _ => .ok ⟨"a@x", "INBOX", 1, 3, [], 1, 0, 2⟩
  | _ => .error .unavailable

/-- `UID EXPUNGE 2` -/
def secondExpunged : Command := ⟨"a", "", .uidExpunge ⟨[(2, 2)]⟩⟩

/-- Both messages of INBOX are marked. -/
def bothMarked : List Move :=
  twoInInbox ++ [commandBy 0 (.store ⟨[(1, 2)]⟩ ⟨.add, true, [.deleted], false⟩),
    answerTo (.conn 0) []]

/-- What the first connection hears during the command, and how the command ends. -/
def expungedIn (s : Shared) : List (Sigma Req.Answer) × Except Exc Unit × Shared :=
  let r := (handler demoConfig demoText 0 secondExpunged).play (exec demoConfig (.conn 0)) obliging s
  (Coro.heardOf r.1, r.2)

/-- The UIDs that are marked and those that are to go, if the command goes well. -/
def marksIn (s : Shared) : Option (List Nat × List Nat) :=
  match openedIn s.2 with
  | some (_, inboxId, mdef, sel) =>
    if (expungedIn s).2.1 = .ok () ∧ sel.readOnly = false ∧
        selectNumbers ⟨[(2, 2)]⟩ sel.uids = [2] then
      some (s.1.store.deletedUids inboxId mdef.name,
        (doomedItems s.1 inboxId mdef (some [2])).map (·.uid))
    else none
  | none => none

/-- Of two messages that are marked the command names one, and that one is removed. -/
theorem expunge_removes_marked_second : ∃ w, ProperRun demoConfig demoText demoBoot w ∧
    ∃ api inboxId mdef sel kept, w.shared.store.deletedUids inboxId mdef.name = [1, 2] ∧
      Expunged demoConfig w.shared api inboxId mdef sel (some [2])
        (expungedIn (w.shared, w.loc (.conn 0))).1 True kept ∧ kept.map (·.uid) = [2] := by
  have hrun : (demoBoot.world.run (gateway demoConfig demoText) bothMarked).any (fun w =>
      decide (marksIn (w.shared, w.loc (.conn 0)) = some ([1, 2], [2]))) = true := by
    decide +kernel
  obtain ⟨w, hw, hmarks⟩ := exists_properRun (by decide) hrun
  have hmarks := of_decide_eq_true hmarks
  unfold marksIn at hmarks
  split at hmarks
  · rename_i api inboxId mdef sel hopened
    split at hmarks
    · rename_i hwell
      obtain ⟨hout, hwritable, hnamed⟩ := hwell
      obtain ⟨hmarked, hdoomed⟩ := Prod.mk.inj (Option.some.inj hmarks)
      have hplay : (handler demoConfig demoText 0 secondExpunged).Takes (exec demoConfig (.conn 0))
          (fun _ _ => True) (w.shared, w.loc (.conn 0)) _ _ _ :=
        Coro.play_takes (fun _ => trivial) obliging _ _
      have hverb : secondExpunged.verb.expunges sel = some (some [2]) :=
        congrArg some (congrArg some hnamed)
      obtain ⟨kept, hkept, _⟩ :=
        expunge_removes_marked (opened_of_check hopened) hverb hplay.hears
      have hall := hkept.removes.weaken fun _ : True => And.intro hout hwritable
      exact ⟨w, hw, api, inboxId, mdef, sel, kept, hmarked, ⟨hall, hkept.writable⟩,
        by rw [hall.all trivial, hdoomed]⟩
    · cases hmarks
  · cases hmarks

end Imap
end ImapGateway
