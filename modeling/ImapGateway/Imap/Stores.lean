/-
What a STORE does when nobody interferes.

The loop runs over the targets and, for each, over the permanent flags of the mailbox.
Every round either changes nothing or moves one flag of one item, and with it the snapshot,
the marks and the labels upstream has.  Step by step these stay in agreement, so the FETCH
responses, the snapshot, the marks and the labels all tell the flags that were asked for.
-/
import ImapGateway.Imap.Relabeling
import ImapGateway.Imap.Changes
import ImapGateway.Imap.Sound
import ImapGateway.Mailbox.Holds
import ImapGateway.Store.Marks
import ImapGateway.Async.Steps

namespace ImapGateway
namespace Imap

open Async Mailbox

/-- A step of a command. -/
abbrev Taken := Coro.Step Shared (Mailbox.Act ⊕ Act) Req Req.Answer

/-- While an answer is awaited, snapshots, store and session stay as they are. -/
structure Undisturbed (s s' : Shared) : Prop where
  latest : s'.1.latest = s.1.latest
  store : s'.1.store = s.1.store
  session : s'.2 = s.2

/-- Upstream has the labels `U`, applies every PATCH and answers with the labels it leaves.
In the end it has `U'`. -/
inductive Echoed (inboxId : String) :
    (String → Labels) → List Taken → (String → Labels) → Prop
  | nil (U : String → Labels) : Echoed inboxId U [] U
  | did {U U' : String → Labels} {steps : List Taken} (p : Mailbox.Act ⊕ Act) (s : Shared)
      (h : Echoed inboxId U steps U') : Echoed inboxId U (.did p s :: steps) U'
  | echo {U U' : String → Labels} {steps : List Taken} (api : Client) (id : String)
      (add remove : List String) (result : PatchResult)
      (hlabels : labelSet result.labels = patched (U id) add remove)
      (h : Echoed inboxId (Function.update U id (patched (U id) add remove)) steps U') :
      Echoed inboxId U (.heard (.updateLabels api inboxId id add remove) (.ok result) :: steps) U'

/-- The responses that were sent. -/
def said (steps : List Taken) : List Response :=
  steps.filterMap fun
    | .did (.inr (.send r)) _ => some r
    | _ => none

/-- A step that writes upstream, or sets or clears a mark. -/
def writes : Taken → Bool
  | .heard _ _ => true
  | .did (.inl (.setDeleted _ _ _)) _ => true
  | _ => false

section

variable {cfg : Config} {t : Tid} {api : Client} {inboxId : String} {mdef : MailboxDef}
  {plan : StorePlan} {snap : Snapshot} {key : Key} {marks marks' : List Nat} {item : Item}
  {change : Item → Item} {s s' s₀ : Shared} {steps steps' : List Taken}
  {U U' U₀ : String → Labels} {current wanted : Flags} {flag : Flag}

theorem said_append (steps steps' : List Taken) : said (steps ++ steps') = said steps ++ said steps' :=
  List.filterMap_append

theorem Echoed.append (h : Echoed inboxId U (steps ++ steps') U') :
    ∃ V, Echoed inboxId U steps V ∧ Echoed inboxId V steps' U' := by
  induction steps generalizing U with
  | nil => exact ⟨U, .nil U, h⟩
  | cons step steps ih =>
    cases h with
    | did p s h =>
      obtain ⟨V, hfirst, hrest⟩ := ih h
      exact ⟨V, .did p s hfirst, hrest⟩
    | echo api id add remove result hlabels h =>
      obtain ⟨V, hfirst, hrest⟩ := ih h
      exact ⟨V, .echo api id add remove result hlabels hfirst, hrest⟩

/-- One PATCH and its answer. -/
theorem Echoed.of_patch {p p' : Mailbox.Act ⊕ Act} {id : String} {add remove : List String}
    {result : PatchResult} (h : Echoed inboxId U
      [.did p s, .heard (.updateLabels api inboxId id add remove) (.ok result), .did p' s'] U') :
    labelSet result.labels = patched (U id) add remove ∧
      U' = Function.update U id (patched (U id) add remove) := by
  cases h with
  | did _ _ h =>
    cases h with
    | echo _ _ _ _ _ hlabels h =>
      cases h with
      | did _ _ h =>
        cases h
        exact ⟨hlabels, rfl⟩

/-! ## The state between two rounds -/

/-- No two items of the snapshot have one UID, or are one message. -/
structure ItemsApart (snap : Snapshot) (kind : Mailbox.Kind) : Prop where
  uids : ∀ a ∈ snap.items, ∀ b ∈ snap.items, a.uid = b.uid → a = b
  ids : kind = .messages → ∀ a ∈ snap.items, ∀ b ∈ snap.items, a.remoteId = b.remoteId → a = b

/-- Only the flags and labels of an item are changed. -/
def Relabels (change : Item → Item) : Prop :=
  ∀ item, change item = { item with flags := (change item).flags, labels := (change item).labels }

/-- The selected mailbox without the flags told last. -/
def Selected.bare (sel : Selected) : Selected := { sel with flagsSeen := fun _ => none }

/-- The sessions differ at most in what was sent and which flags were told. -/
structure SameSelection (l l' : Session) : Prop where
  state : l'.state = l.state
  api : l'.api = l.api
  inboxId : l'.inboxId = l.inboxId
  selected : l'.selected.map Selected.bare = l.selected.map Selected.bare

theorem SameSelection.refl (l : Session) : SameSelection l l := ⟨rfl, rfl, rfl, rfl⟩

theorem SameSelection.trans {l l' l'' : Session} (h : SameSelection l l') (h' : SameSelection l' l'') :
    SameSelection l l'' :=
  ⟨h'.1.trans h.1, h'.2.trans h.2, h'.3.trans h.3, h'.4.trans h.4⟩

theorem SameSelection.recordFlags (l : Session) (uid : Nat) (flags : Flags) :
    SameSelection l (l.recordFlags uid flags) := by
  unfold Session.recordFlags
  cases hsel : l.selected with
  | none => exact .refl l
  | some sel => exact ⟨rfl, rfl, rfl, by rw [hsel]; rfl⟩

/-- The items of the snapshot have been changed, `marks` are set, and nothing else is different
from `s₀`, nor upstream from `U₀`. -/
structure Changed (key : Key) (kind : Mailbox.Kind) (snap : Snapshot) (s₀ : Shared)
    (U₀ : String → Labels) (change : Item → Item) (marks : List Nat) (s : Shared)
    (U : String → Labels) : Prop where
  relabels : Relabels change
  latest : s.1.latest = Function.update s₀.1.latest key
    (some { snap with items := snap.items.map change })
  marks : ∀ u, s.1.store.Marked key.1 key.2 u ↔ u ∈ marks
  otherMarks : ∀ i n, (i, n) ≠ key → ∀ u, s.1.store.Marked i n u ↔ s₀.1.store.Marked i n u
  mailbox : s.1.store.mailbox = s₀.1.store.mailbox
  uidMap : s.1.store.uidMap = s₀.1.store.uidMap
  labels : kind = .messages → ∀ item ∈ snap.items, U item.remoteId = (change item).labels
  otherLabels : ∀ id, (∀ item ∈ snap.items, item.remoteId ≠ id) → U id = U₀ id
  session : SameSelection s₀.2 s.2

/-- `g` done to the item with the UID, after `change`. -/
def changeAt (uid : Nat) (g : Item → Item) (change : Item → Item) (item : Item) : Item :=
  if item.uid = uid then g (change item) else change item

/-- The marks after one round of the loop over the permanent flags. -/
def remark (current wanted : Flags) (uid : Nat) (marks : List Nat) (flag : Flag) : List Nat :=
  if flag = .deleted ∧ ¬(flag ∈ current ↔ flag ∈ wanted) then
    if flag ∈ wanted then uid :: marks else marks.filter (· ≠ uid)
  else marks

theorem Relabels.uid (h : Relabels change) (item : Item) : (change item).uid = item.uid := by
  rw [h item]

theorem Relabels.remoteId (h : Relabels change) (item : Item) :
    (change item).remoteId = item.remoteId := by
  rw [h item]

theorem Relabels.changeAt (h : Relabels change) (uid : Nat) {g : Item → Item} (hg : Relabels g) :
    Relabels (changeAt uid g change) := by
  intro item
  unfold Imap.changeAt
  split
  · have hitem := h item
    have hnext := hg (change item)
    generalize change item = a at hitem hnext ⊢
    rw [hnext, hitem]
  · exact h item

theorem relabel_relabels (current wanted : Flags) (flag : Flag) :
    Relabels (relabel current wanted · flag) := fun item => relabel_frame current wanted item flag

section Changed

variable {kind : Mailbox.Kind} {change' g : Item → Item}

/-- What is done to the items of the snapshot is all that counts. -/
theorem Changed.congr (h : Changed key kind snap s₀ U₀ change marks s U) (hrel : Relabels change')
    (hsame : ∀ i ∈ snap.items, change' i = change i)
    (hmarks : ∀ u, u ∈ marks' ↔ u ∈ marks) :
    Changed key kind snap s₀ U₀ change' marks' s U where
  relabels := hrel
  latest := by rw [h.latest, List.map_congr_left hsame]
  marks u := (h.marks u).trans (hmarks u).symm
  otherMarks := h.otherMarks
  mailbox := h.mailbox
  uidMap := h.uidMap
  labels hkind i hi := by rw [h.labels hkind i hi, hsame i hi]
  otherLabels := h.otherLabels
  session := h.session

/-- An action that concerns neither snapshots nor the store. -/
theorem Changed.act (h : Changed key kind snap s₀ U₀ change marks s U)
    (hlatest : s'.1.latest = s.1.latest) (hstore : s'.1.store = s.1.store)
    (hview : SameSelection s.2 s'.2) : Changed key kind snap s₀ U₀ change marks s' U where
  relabels := h.relabels
  latest := hlatest.trans h.latest
  marks u := by rw [hstore]; exact h.marks u
  otherMarks i n hne u := by rw [hstore]; exact h.otherMarks i n hne u
  mailbox := by rw [hstore, h.mailbox]
  uidMap := by rw [hstore, h.uidMap]
  labels := h.labels
  otherLabels := h.otherLabels
  session := h.session.trans hview

/-- Where nothing is to be done, the item is as it was. -/
theorem Changed.changeAt_self (h : Changed key kind snap s₀ U₀ change marks s U)
    (hapart : ItemsApart snap kind) (hitem : item ∈ snap.items) (hrel : Relabels g)
    (hg : g (change item) = change item) :
    Changed key kind snap s₀ U₀ (changeAt item.uid g change) marks s U := by
  apply h.congr (h.relabels.changeAt item.uid hrel) _ fun _ => Iff.rfl
  intro i hi
  unfold changeAt
  split
  · rename_i huid
    rw [hapart.uids i hi item hitem huid, hg]
  · rfl

theorem Changed.undisturbed (h : Changed key kind snap s₀ U₀ change marks s U)
    (hs : Undisturbed s s') : Changed key kind snap s₀ U₀ change marks s' U :=
  h.act hs.latest hs.store (hs.session ▸ .refl s.2)

/-- A mark is set or cleared. -/
theorem Changed.setDeleted (h : Changed key kind snap s₀ U₀ change marks s U) (t : Tid) (uid : Nat)
    (value : Bool) : Changed key kind snap s₀ U₀ change
      (if value then uid :: marks else marks.filter (· ≠ uid))
      (exec cfg t (.inl (.setDeleted key [uid] value)) s) U where
  relabels := h.relabels
  latest := h.latest
  marks u := by
    show (s.1.store.setDeleted s.1.now key.1 key.2 [uid] value).Marked key.1 key.2 u ↔ _
    cases value with
    | true =>
      rw [Store.Db.setDeleted_true, h.marks u]
      simp [or_comm]
    | false =>
      rw [Store.Db.setDeleted_false, h.marks u]
      simp
  otherMarks i n hne u := by
    have hkey : ¬(key.1 = i ∧ key.2 = n) := fun heq => hne (Prod.ext heq.1.symm heq.2.symm)
    show (s.1.store.setDeleted s.1.now key.1 key.2 [uid] value).Marked i n u ↔ _
    cases value with
    | true =>
      rw [Store.Db.setDeleted_true, h.otherMarks i n hne u]
      simp [hkey]
    | false =>
      rw [Store.Db.setDeleted_false, h.otherMarks i n hne u]
      simp [hkey]
  mailbox := (Store.Db.setDeleted_tables s.1.store s.1.now key.1 key.2 [uid] value).1.trans h.mailbox
  uidMap := (Store.Db.setDeleted_tables s.1.store s.1.now key.1 key.2 [uid] value).2.trans h.uidMap
  labels := h.labels
  otherLabels := h.otherLabels
  session := h.session

/-- `_replace_item` for a UID the latest snapshot has. -/
theorem replaceItem_latest {s : Service} {updated : Item} (hsnap : s.latest key = some snap)
    (huid : updated.uid ∈ snap.uids) :
    (s.replaceItem key updated).latest = Function.update s.latest key (some { snap with
      items := snap.items.map fun i => if i.uid = updated.uid then updated else i }) := by
  have hsome : ¬(snap.byUid updated.uid).isNone = true := by
    obtain ⟨i, hi⟩ := Option.isSome_iff_exists.mp (Snapshot.byUid_isSome.mpr huid)
    simp [hi]
  rw [Service.replaceItem, hsnap]
  dsimp only
  rw [if_neg hsome]

theorem exec_setFlagCommit_latest (cfg : Config) (t : Tid) {s : Service} {item : Item}
    {add remove : List String} {result : PatchResult} {labels : Labels}
    (hsnap : s.latest key = some snap) (huid : item.uid ∈ snap.uids)
    (hlabels : Service.flaggedLabels item add remove result = labels) :
    ((Mailbox.Act.setFlagCommit key item add remove result).exec cfg t s).latest =
      Function.update s.latest key (some { snap with
        items := snap.items.map fun i =>
          if i.uid = item.uid then Service.flaggedItem item labels else i }) := by
  obtain ⟨heldFrom, hsettle⟩ :=
    Service.settlePatch_eq (s.setFlagCommit key item add remove result) t
  subst hlabels
  rw [Mailbox.Act.exec, hsettle]
  exact replaceItem_latest (s := s.holdLabels key.1 item.remoteId _) hsnap huid

theorem exec_setFlagCommit_store (cfg : Config) (t : Tid) (s : Service) (item : Item)
    (add remove : List String) (result : PatchResult) :
    ((Mailbox.Act.setFlagCommit key item add remove result).exec cfg t s).store = s.store := by
  obtain ⟨heldFrom, hsettle⟩ :=
    Service.settlePatch_eq (s.setFlagCommit key item add remove result) t
  rw [Mailbox.Act.exec, hsettle]
  simp only [Service.setFlagCommit, Service.replaceItem]
  split
  · rfl
  · split <;> rfl

/-- The labels of a message are changed upstream and in the snapshot. -/
theorem Changed.setFlagCommit (h : Changed key .messages snap s₀ U₀ change marks s U)
    (hapart : ItemsApart snap .messages) (hitem : item ∈ snap.items) (t : Tid)
    {add remove : List String} {result : PatchResult} {labels : Labels}
    (hlabels : Service.flaggedLabels (change item) add remove result = labels) :
    Changed key .messages snap s₀ U₀ (changeAt item.uid (Service.flaggedItem · labels) change) marks
      (exec cfg t (.inl (.setFlagCommit key (change item) add remove result)) s)
      (Function.update U item.remoteId labels) where
  relabels := h.relabels.changeAt item.uid fun _ => rfl
  latest := by
    have hsnap : s.1.latest key = some { snap with items := snap.items.map change } := by
      rw [h.latest, Function.update_self]
    show ((Mailbox.Act.setFlagCommit key (change item) add remove result).exec cfg t s.1).latest = _
    rw [exec_setFlagCommit_latest cfg t hsnap
      (List.mem_map_of_mem (List.mem_map_of_mem hitem)) hlabels, h.latest, Function.update_idem]
    congr 2
    simp only [List.map_map]
    congr 1
    apply List.map_congr_left
    intro i hi
    show (if (change i).uid = (change item).uid then _ else _) = changeAt _ _ _ i
    rw [h.relabels.uid, h.relabels.uid, changeAt]
    split
    · rename_i huid
      rw [hapart.uids i hi item hitem huid]
    · rfl
  marks u := by
    show ((Mailbox.Act.setFlagCommit key (change item) add remove result).exec cfg t
      s.1).store.Marked key.1 key.2 u ↔ _
    rw [exec_setFlagCommit_store]
    exact h.marks u
  otherMarks i n hne u := by
    show ((Mailbox.Act.setFlagCommit key (change item) add remove result).exec cfg t
      s.1).store.Marked i n u ↔ _
    rw [exec_setFlagCommit_store]
    exact h.otherMarks i n hne u
  mailbox := by
    show ((Mailbox.Act.setFlagCommit key (change item) add remove result).exec cfg t
      s.1).store.mailbox = _
    rw [exec_setFlagCommit_store, h.mailbox]
  uidMap := by
    show ((Mailbox.Act.setFlagCommit key (change item) add remove result).exec cfg t
      s.1).store.uidMap = _
    rw [exec_setFlagCommit_store, h.uidMap]
  labels hkind i hi := by
    unfold changeAt
    by_cases huid : i.uid = item.uid
    · rw [hapart.uids i hi item hitem huid, Function.update_self, if_pos rfl]
      rfl
    · have hid : i.remoteId ≠ item.remoteId := fun heq =>
        huid (congrArg Item.uid (hapart.ids rfl i hi item hitem heq))
      rw [Function.update_of_ne hid, if_neg huid]
      exact h.labels hkind i hi
  otherLabels id hid := by
    rw [Function.update_of_ne (Ne.symm (hid item hitem))]
    exact h.otherLabels id hid
  session := h.session

end Changed

/-! ## One flag -/

/-- Whether the labels came with the answer or not, they are those the PATCH leaves. -/
theorem flaggedLabels_echoed {add remove : List String} {result : PatchResult}
    (h : labelSet result.labels = patched item.labels add remove) :
    Service.flaggedLabels item add remove result = patched item.labels add remove := by
  rw [Service.flaggedLabels]
  split
  · rfl
  · exact h

/-- `set_flag` sends one PATCH. -/
theorem svc_setFlag (api : Client) (inboxId : String) (item : Item) (value : Bool)
    {add remove : List String} (hkind : mdef.kind = .messages)
    (hlabels : flagLabels flag = some (add, remove)) :
    ∃ add' remove', (add', remove') = (if value then (add, remove) else (remove, add)) ∧
      svc (setFlag api inboxId mdef item flag value) =
        .act (.inl (.sendPatch ⟨inboxId, item.remoteId, add', remove', none⟩))
          (.await (.updateLabels api inboxId item.remoteId add' remove') fun a =>
            match a with
            | .ok result =>
              .act (.inl (.setFlagCommit (inboxId, mdef.name) item add' remove' result))
                (.ret (Service.flaggedItem item (Service.flaggedLabels item add' remove' result)))
            | .error e => .act (.inl .losePatch) (.raise e)) := by
  cases value with
  | true =>
    refine ⟨add, remove, rfl, ?_⟩
    rw [setFlag, hkind, hlabels]
    show Coro.act _ (Coro.await _ _) = _
    congr 2
    funext a
    cases a <;> rfl
  | false =>
    refine ⟨remove, add, rfl, ?_⟩
    rw [setFlag, hkind, hlabels]
    show Coro.act _ (Coro.await _ _) = _
    congr 2
    funext a
    cases a <;> rfl

/-- `set_flag` on an item as upstream has it. -/
theorem setFlag_takes {value : Bool} {r : Item} {add remove : List String}
    (hc : Changed (inboxId, mdef.name) mdef.kind snap s₀ U₀ change marks s U)
    (hapart : ItemsApart snap mdef.kind) (hitem : item ∈ snap.items)
    (hlabels : flagLabels flag = some (add, remove))
    (h : (svc (setFlag api inboxId mdef (change item) flag value)).Takes (exec cfg t) Undisturbed s
      steps (.ok r) s') (he : Echoed inboxId U steps U') :
    r = Service.flaggedItem (change item) (if value then patched (change item).labels add remove
        else patched (change item).labels remove add) ∧
      Changed (inboxId, mdef.name) mdef.kind snap s₀ U₀
        (changeAt item.uid (Service.flaggedItem · r.labels) change) marks s' U' ∧
      said steps = [] := by
  cases hkind : mdef.kind with
  | drafts =>
    simp only [setFlag, hkind] at h
    cases h
  | messages =>
    rw [hkind] at hc hapart
    obtain ⟨add', remove', hvalue, heq⟩ :=
      svc_setFlag api inboxId (change item) value hkind hlabels
    rw [heq] at h
    obtain ⟨rest, rfl, hawait⟩ := h.of_act
    obtain ⟨s₁, a, rest, hr, rfl, hrest⟩ := hawait.of_await
    cases a with
    | error e =>
      obtain ⟨rest, rfl, hraise⟩ := hrest.of_act
      cases hraise
    | ok result =>
      obtain ⟨rest, rfl, hret⟩ := hrest.of_act
      obtain ⟨rfl, hout, rfl⟩ := hret.of_ret
      obtain ⟨hechoed, rfl⟩ := he.of_patch
      have hid : (change item).remoteId = item.remoteId := hc.relabels.remoteId item
      have hU : U item.remoteId = (change item).labels := hc.labels rfl item hitem
      rw [hid, hU] at hechoed ⊢
      have hflagged := flaggedLabels_echoed hechoed
      have hsent : Changed (inboxId, mdef.name) .messages snap s₀ U₀ change marks
        (exec cfg t (.inl (.sendPatch
          ⟨inboxId, (change item).remoteId, add', remove', none⟩)) s) U := hc.act rfl rfl (.refl _)
      rw [hflagged, Except.ok.injEq] at hout
      rw [hout]
      refine ⟨?_, (hsent.undisturbed hr).setFlagCommit hapart hitem t hflagged, rfl⟩
      cases value <;> (cases hvalue; rfl)

/-- One round of the loop over the permanent flags. -/
theorem storeFlag_takes {r : Item × List Nat}
    (hc : Changed (inboxId, mdef.name) mdef.kind snap s₀ U₀ change marks s U)
    (hapart : ItemsApart snap mdef.kind) (hitem : item ∈ snap.items)
    (h : (storeFlag api inboxId mdef current wanted item.uid (change item, marks) flag).Takes
      (exec cfg t) Undisturbed s steps (.ok r) s') (he : Echoed inboxId U steps U') :
    r = (relabel current wanted (change item) flag, remark current wanted item.uid marks flag) ∧
      Changed (inboxId, mdef.name) mdef.kind snap s₀ U₀
        (changeAt item.uid (relabel current wanted · flag) change) r.2 s' U' ∧
      said steps = [] := by
  have hrel := relabel_relabels current wanted flag
  rw [storeFlag] at h
  dsimp only at h
  split at h
  · -- The flag is as wanted.
    rename_i heq
    have hiff : flag ∈ current ↔ flag ∈ wanted := decide_eq_decide.mp heq
    obtain ⟨rfl, hout, rfl⟩ := h.of_ret
    cases he
    cases hout
    have hsame := relabel_of_iff (change item) hiff
    refine ⟨?_, hc.changeAt_self hapart hitem hrel hsame, rfl⟩
    rw [hsame, remark, if_neg fun h => h.2 hiff]
  · rename_i hne
    have hiff : ¬(flag ∈ current ↔ flag ∈ wanted) := fun hiff => hne (decide_eq_decide.mpr hiff)
    split at h
    · -- `\Deleted` is kept beside the items.
      rename_i hdeleted
      subst hdeleted
      obtain ⟨rest, rfl, hret⟩ := Coro.Takes.of_act h
      obtain ⟨rfl, hout, rfl⟩ := hret.of_ret
      rw [Except.ok.injEq] at hout
      cases he with
      | did _ _ he =>
        cases he
        have hsame : relabel current wanted (change item) .deleted = change item :=
          relabel_of_none rfl
        have hmarks : remark current wanted item.uid marks .deleted =
            if decide (Flag.deleted ∈ wanted) = true then item.uid :: marks
            else marks.filter (· ≠ item.uid) := by
          rw [remark, if_pos ⟨rfl, hiff⟩]
          simp
        rw [hsame, hmarks]
        rw [hout]
        exact ⟨rfl, (hc.setDeleted t item.uid _).changeAt_self hapart hitem hrel hsame, rfl⟩
    · rename_i hdeleted
      split at h
      · rename_i hlabels
        obtain ⟨⟨add, remove⟩, hlabels⟩ := Option.isSome_iff_exists.mp hlabels
        rcases Coro.Takes.of_bind h with ⟨e, hout, _⟩ | ⟨a, s₁, steps₁, steps₂, rfl, hset, hret⟩
        · cases hout
        · obtain ⟨V, hfirst, hlast⟩ := he.append
          obtain ⟨rfl, hout, rfl⟩ := Coro.Takes.of_ret hret
          cases hlast
          obtain ⟨ha, hchanged, hsaid⟩ := setFlag_takes hc hapart hitem hlabels hset hfirst
          have hround : a = relabel current wanted (change item) flag := by
            rw [ha, relabel, if_neg hne, hlabels]
            simp
          rw [Except.ok.injEq] at hout
          rw [hout, hround, remark, if_neg fun h => hdeleted h.1]
          refine ⟨rfl, hchanged.congr (hc.relabels.changeAt _ hrel) ?_ fun _ => Iff.rfl, ?_⟩
          · intro i hi
            unfold changeAt
            split
            · rename_i huid
              rw [hapart.uids i hi item hitem huid]
              show relabel current wanted (change item) flag =
                Service.flaggedItem (change item) a.labels
              rw [← hround, ha]
              rfl
            · rfl
          · rw [said_append, hsaid]
            rfl
      · rename_i hnone
        obtain ⟨rfl, hout, rfl⟩ := h.of_ret
        cases he
        cases hout
        have hsame : relabel current wanted (change item) flag = change item :=
          relabel_of_none (Option.not_isSome_iff_eq_none.mp hnone)
        refine ⟨?_, hc.changeAt_self hapart hitem hrel hsame, rfl⟩
        rw [hsame, remark, if_neg fun h => hdeleted h.1]

/-! ## One item -/

theorem foldl_relabels (current wanted : Flags) (flags : List Flag) :
    Relabels (flags.foldl (relabel current wanted)) := fun item =>
  foldl_relabel_frame current wanted flags item

/-- The loop over the permanent flags. -/
theorem storeFlags_takes {r : Item × List Nat} (flags : List Flag)
    (hc : Changed (inboxId, mdef.name) mdef.kind snap s₀ U₀ change marks s U)
    (hapart : ItemsApart snap mdef.kind) (hitem : item ∈ snap.items)
    (h : (Coro.foldEach (storeFlag api inboxId mdef current wanted item.uid) (change item, marks)
      flags).Takes (exec cfg t) Undisturbed s steps (.ok r) s') (he : Echoed inboxId U steps U') :
    r = (flags.foldl (relabel current wanted) (change item),
        flags.foldl (remark current wanted item.uid) marks) ∧
      Changed (inboxId, mdef.name) mdef.kind snap s₀ U₀
        (changeAt item.uid (flags.foldl (relabel current wanted)) change) r.2 s' U' ∧
      said steps = [] := by
  induction flags generalizing change marks s U steps with
  | nil =>
    obtain ⟨rfl, hout, rfl⟩ := Coro.Takes.of_ret h
    cases he
    cases hout
    exact ⟨rfl, hc.changeAt_self hapart hitem (foldl_relabels current wanted []) rfl, rfl⟩
  | cons flag flags ih =>
    rcases Coro.Takes.of_bind h with ⟨e, hout, _⟩ | ⟨a, s₁, steps₁, steps₂, rfl, hround, hrest⟩
    · cases hout
    · obtain ⟨V, hfirst, hlast⟩ := he.append
      obtain ⟨rfl, hchanged, hsaid⟩ := storeFlag_takes hc hapart hitem hround hfirst
      have hnow : changeAt item.uid (relabel current wanted · flag) change item =
          relabel current wanted (change item) flag := if_pos rfl
      rw [← hnow] at hrest
      obtain ⟨hr, hrest, hsaid'⟩ := ih hchanged hrest hlast
      rw [hnow] at hr
      have hrel := foldl_relabels current wanted (flag :: flags)
      refine ⟨hr, hrest.congr (hc.relabels.changeAt item.uid hrel) ?_ fun _ => Iff.rfl, ?_⟩
      · intro i _
        unfold changeAt
        split <;> rfl
      · rw [said_append, hsaid, hsaid']
        rfl

theorem remark_of_ne {uid : Nat} (h : flag ≠ .deleted) :
    remark current wanted uid marks flag = marks := if_neg fun h' => h h'.1

theorem foldl_remark_of_notMem {uid : Nat} {flags : List Flag} (h : Flag.deleted ∉ flags) :
    flags.foldl (remark current wanted uid) marks = marks := by
  induction flags with
  | nil => rfl
  | cons flag flags ih =>
    rw [List.mem_cons, not_or] at h
    rw [List.foldl_cons, remark_of_ne (Ne.symm h.1)]
    exact ih h.2

theorem mem_remark_deleted {uid : Nat} (hcurrent : Flag.deleted ∈ current ↔ uid ∈ marks) (u : Nat) :
    u ∈ remark current wanted uid marks .deleted ↔
      if u = uid then Flag.deleted ∈ wanted else u ∈ marks := by
  unfold remark
  by_cases hu : u = uid
  · subst hu
    by_cases hc : Flag.deleted ∈ current <;> by_cases hw : Flag.deleted ∈ wanted <;> simp_all
  · rw [if_neg hu]
    split
    · split <;> simp [hu]
    · exact Iff.rfl

/-- The other marks are as before, and the one of the item is as wanted. -/
theorem mem_foldl_remark {uid : Nat} {flags : List Flag} (hnodup : flags.Nodup)
    (hcurrent : Flag.deleted ∈ current ↔ uid ∈ marks)
    (hother : Flag.deleted ∉ flags → (Flag.deleted ∈ wanted ↔ Flag.deleted ∈ current)) (u : Nat) :
    u ∈ flags.foldl (remark current wanted uid) marks ↔
      if u = uid then Flag.deleted ∈ wanted else u ∈ marks := by
  induction flags with
  | nil =>
    show u ∈ marks ↔ _
    split
    · rename_i hu
      rw [hu, hother (by simp), hcurrent]
    · exact Iff.rfl
  | cons flag flags ih =>
    obtain ⟨hnot, hnodup⟩ := List.nodup_cons.mp hnodup
    rw [List.foldl_cons]
    by_cases hdeleted : flag = .deleted
    · subst hdeleted
      rw [foldl_remark_of_notMem hnot]
      exact mem_remark_deleted hcurrent u
    · rw [remark_of_ne hdeleted]
      apply ih hnodup
      intro hnone
      exact hother (by simp [hnone, Ne.symm hdeleted])

/-- The answer to one target. -/
def StorePlan.answer (plan : StorePlan) (permanent : List Flag) (snap : Snapshot)
    (marks : List Nat) (target : Nat × Nat) : Option Response :=
  if plan.silent then none
  else (snap.byUid target.2).map fun item =>
    let flags := plan.result permanent marks item
    .fetch target.1 target.2 (if plan.uidMode then [.uid target.2, .flags flags] else [.flags flags])

/-- Whether the UID is marked once the targets are stored. -/
def StorePlan.Marks (plan : StorePlan) (permanent : List Flag) (snap : Snapshot)
    (marks uids : List Nat) (u : Nat) : Prop :=
  match snap.byUid u with
  | some item => if u ∈ uids then Flag.deleted ∈ plan.result permanent marks item else u ∈ marks
  | none => u ∈ marks

theorem stored_relabels (plan : StorePlan) (permanent : List Flag) (marks : List Nat) :
    Relabels (plan.stored permanent marks) := plan.stored_frame permanent marks

/-- The round of one target. -/
theorem storeOne_takes {target : Nat × Nat}
    (hc : Changed (inboxId, mdef.name) mdef.kind snap s₀ U₀ change marks s U)
    (hapart : ItemsApart snap mdef.kind) (hdef : mdef ∈ mailboxes)
    (hplain : ∀ i ∈ snap.items, i.Plain mdef.kind)
    (hflags : ∀ f ∈ plan.flags, f ∈ mdef.permanentFlags)
    (hfresh : ∀ i ∈ snap.items, i.uid = target.2 → change i = i)
    (h : (storeOne api inboxId mdef plan snap marks target).Takes (exec cfg t) Undisturbed s steps
      (.ok marks') s') (he : Echoed inboxId U steps U') :
    (∀ u, u ∈ marks' ↔ plan.Marks mdef.permanentFlags snap marks [target.2] u) ∧
      Changed (inboxId, mdef.name) mdef.kind snap s₀ U₀
        (changeAt target.2 (plan.stored mdef.permanentFlags marks) change) marks' s' U' ∧
      said steps = (plan.answer mdef.permanentFlags snap marks target).toList := by
  rw [storeOne] at h
  cases hby : snap.byUid target.2 with
  | none =>
    rw [hby] at h
    obtain ⟨rfl, hout, rfl⟩ := Coro.Takes.of_ret h
    cases he
    cases hout
    have hnot : ∀ i ∈ snap.items, i.uid ≠ target.2 := by
      intro i hi huid
      have hsome := Snapshot.byUid_isSome.mpr (List.mem_map_of_mem (f := Item.uid) hi)
      rw [huid, hby] at hsome
      cases hsome
    refine ⟨fun u => ?_, hc.congr (hc.relabels.changeAt _ (stored_relabels _ _ _)) ?_
      fun _ => Iff.rfl, ?_⟩
    · unfold StorePlan.Marks
      split
      · rename_i item hu
        have hne : u ≠ target.2 := by
          rintro rfl
          rw [hby] at hu
          cases hu
        simp [hne]
      · exact Iff.rfl
    · intro i hi
      exact if_neg (hnot i hi)
    · simp [StorePlan.answer, hby, said]
  | some item =>
    obtain ⟨hitem, huid⟩ := Snapshot.byUid_some hby
    rw [hby] at h
    rcases Coro.Takes.of_bind h with ⟨e, hout, _⟩ | ⟨r, s₁, steps₁, steps₂, rfl, hloop, hrest⟩
    · cases hout
    · obtain ⟨V, hfirst, hlast⟩ := he.append
      have hsame : change item = item := hfresh item hitem huid
      have hplainItem := hplain item hitem
      have hmark : Flag.deleted ∈ flagsOf item marks ↔ item.uid ∈ marks :=
        deleted_mem_flagsOf hplainItem.unmarked
      have hloop : (Coro.foldEach (storeFlag api inboxId mdef (flagsOf item marks)
          (plan.result mdef.permanentFlags marks item) item.uid) (change item, marks)
          mdef.permanentFlags).Takes (exec cfg t) Undisturbed s steps₁ (.ok r) s₁ := by
        rw [hsame, huid]
        exact hloop
      obtain ⟨hr, hchanged, hsaid⟩ := storeFlags_takes _ hc hapart hitem hloop hfirst
      rw [hsame] at hr
      subst hr
      have hchanged : Changed (inboxId, mdef.name) mdef.kind snap s₀ U₀
          (changeAt target.2 (plan.stored mdef.permanentFlags marks) change)
          (mdef.permanentFlags.foldl (remark (flagsOf item marks)
            (plan.result mdef.permanentFlags marks item) item.uid) marks) s₁ V := by
        apply hchanged.congr (hc.relabels.changeAt _ (stored_relabels _ _ _)) _ fun _ => Iff.rfl
        intro i hi
        unfold changeAt
        rw [huid]
        split
        · rename_i hi'
          rw [hapart.uids i hi item hitem (hi'.trans huid.symm), hsame]
          rfl
        · rfl
      have hmarks : ∀ u, u ∈ mdef.permanentFlags.foldl (remark (flagsOf item marks)
          (plan.result mdef.permanentFlags marks item) item.uid) marks ↔
            plan.Marks mdef.permanentFlags snap marks [target.2] u := by
        intro u
        rw [mem_foldl_remark (permanentFlags_nodup hdef) hmark]
        · rw [huid]
          unfold StorePlan.Marks
          by_cases hu : u = target.2
          · subst hu
            simp [hby]
          · rw [if_neg hu]
            split <;> simp [hu]
        · exact fun hnot => StoreMode.wanted_of_notMem hflags hnot
      have hfinal : flagsOf (plan.stored mdef.permanentFlags marks item)
          (mdef.permanentFlags.foldl (remark (flagsOf item marks)
            (plan.result mdef.permanentFlags marks item) item.uid) marks) =
          plan.result mdef.permanentFlags marks item := by
        apply StorePlan.flagsOf_stored hdef hplainItem hflags
        rw [hmarks, huid]
        simp [StorePlan.Marks, hby]
      obtain ⟨rest, rfl, hsend⟩ := Coro.Takes.of_act hrest
      have hfinal' : flagsOf (mdef.permanentFlags.foldl (relabel (flagsOf item marks)
          (plan.result mdef.permanentFlags marks item)) item) _ = _ := hfinal
      rw [hfinal'] at hsend
      cases hsilent : plan.silent with
      | true =>
        rw [hsilent] at hsend
        obtain ⟨rfl, hout, rfl⟩ := Coro.Takes.of_ret hsend
        cases hlast with
        | did _ _ hlast =>
          cases hlast
          rw [Except.ok.injEq] at hout
          rw [hout]
          refine ⟨hmarks, hchanged.act rfl rfl (.recordFlags _ _ _), ?_⟩
          rw [said_append, hsaid, StorePlan.answer, hsilent]
          rfl
      | false =>
        rw [hsilent] at hsend
        obtain ⟨rest, rfl, hret⟩ := Coro.Takes.of_act hsend
        obtain ⟨rfl, hout, rfl⟩ := Coro.Takes.of_ret hret
        cases hlast with
        | did _ _ hlast =>
          cases hlast with
          | did _ _ hlast =>
            cases hlast
            rw [Except.ok.injEq] at hout
            rw [hout]
            have hview := SameSelection.recordFlags s₁.2 target.2
              (plan.result mdef.permanentFlags marks item)
            refine ⟨hmarks, hchanged.act rfl rfl (hview.trans ⟨rfl, rfl, rfl, rfl⟩), ?_⟩
            rw [said_append, hsaid, StorePlan.answer, hsilent, hby]
            rfl

/-! ## All targets -/

theorem flagsOf_congr (h : item.uid ∈ marks ↔ item.uid ∈ marks') :
    flagsOf item marks = flagsOf item marks' := by
  simp [flagsOf, h]

theorem StorePlan.result_congr {permanent : List Flag} (h : item.uid ∈ marks ↔ item.uid ∈ marks') :
    plan.result permanent marks item = plan.result permanent marks' item := by
  rw [StorePlan.result, StorePlan.result, flagsOf_congr h]

theorem StorePlan.stored_congr {permanent : List Flag} (h : item.uid ∈ marks ↔ item.uid ∈ marks') :
    plan.stored permanent marks item = plan.stored permanent marks' item := by
  rw [StorePlan.stored, StorePlan.stored, StorePlan.result_congr h, flagsOf_congr h]

/-- The items of a snapshot once those with the UIDs are stored. -/
def StorePlan.storedAt (plan : StorePlan) (permanent : List Flag) (marks uids : List Nat)
    (change : Item → Item) (item : Item) : Item :=
  if item.uid ∈ uids then plan.stored permanent marks item else change item

theorem storedAt_relabels (h : Relabels change) (permanent : List Flag) (uids : List Nat) :
    Relabels (plan.storedAt permanent marks uids change) := by
  intro i
  unfold StorePlan.storedAt
  split
  · exact stored_relabels plan permanent marks i
  · exact h i

/-- One more UID. -/
theorem StorePlan.marks_cons {permanent : List Flag} {uid : Nat} {uids : List Nat}
    (huid : uid ∉ uids) (hmarks : ∀ u, u ∈ marks' ↔ plan.Marks permanent snap marks [uid] u)
    (u : Nat) :
    plan.Marks permanent snap marks' uids u ↔ plan.Marks permanent snap marks (uid :: uids) u := by
  have hu := hmarks u
  unfold StorePlan.Marks at hu ⊢
  cases hby : snap.byUid u with
  | none =>
    rw [hby] at hu
    exact hu
  | some i =>
    rw [hby] at hu
    dsimp only at hu ⊢
    by_cases hin : u ∈ uids
    · have hne : u ≠ uid := by
        rintro rfl
        exact huid hin
      have hsame : i.uid ∈ marks' ↔ i.uid ∈ marks := by
        rw [(Snapshot.byUid_some hby).2, hu]
        simp [hne]
      rw [StorePlan.result_congr hsame]
      simp [hin]
    · rw [if_neg hin, hu]
      simp [hin]

/-- The loop over the targets. -/
theorem storeLoop_takes (targets : List (Nat × Nat)) (hnodup : (targets.map (·.2)).Nodup)
    (hc : Changed (inboxId, mdef.name) mdef.kind snap s₀ U₀ change marks s U)
    (hapart : ItemsApart snap mdef.kind) (hdef : mdef ∈ mailboxes)
    (hplain : ∀ i ∈ snap.items, i.Plain mdef.kind)
    (hflags : ∀ f ∈ plan.flags, f ∈ mdef.permanentFlags)
    (hfresh : ∀ i ∈ snap.items, i.uid ∈ targets.map (·.2) → change i = i)
    (h : (Coro.foldEach (storeOne api inboxId mdef plan snap) marks targets).Takes (exec cfg t)
      Undisturbed s steps (.ok marks') s') (he : Echoed inboxId U steps U') :
    (∀ u, u ∈ marks' ↔ plan.Marks mdef.permanentFlags snap marks (targets.map (·.2)) u) ∧
      Changed (inboxId, mdef.name) mdef.kind snap s₀ U₀
        (plan.storedAt mdef.permanentFlags marks (targets.map (·.2)) change) marks' s' U' ∧
      said steps = targets.filterMap (plan.answer mdef.permanentFlags snap marks) := by
  induction targets generalizing change marks s U steps with
  | nil =>
    obtain ⟨rfl, hout, rfl⟩ := Coro.Takes.of_ret h
    cases he
    cases hout
    refine ⟨fun u => ?_, hc.congr (storedAt_relabels hc.relabels _ _) ?_ fun _ => Iff.rfl, rfl⟩
    · unfold StorePlan.Marks
      split <;> simp
    · intro i _
      simp [StorePlan.storedAt]
  | cons target targets ih =>
    rw [List.map_cons, List.nodup_cons] at hnodup
    obtain ⟨hnot, hnodup⟩ := hnodup
    rcases Coro.Takes.of_bind h with ⟨e, hout, _⟩ | ⟨marks₁, s₁, steps₁, steps₂, rfl, hone, hrest⟩
    · cases hout
    · obtain ⟨V, hfirst, hlast⟩ := he.append
      obtain ⟨hmarks, hchanged, hsaid⟩ := storeOne_takes hc hapart hdef hplain hflags
        (fun i hi huid => hfresh i hi (by simp [huid])) hone hfirst
      -- The items still to come are as they were.
      have hother : ∀ i ∈ snap.items, i.uid ∈ targets.map (·.2) → i.uid ≠ target.2 := by
        intro i _ hi heq
        exact hnot (heq ▸ hi)
      have hsame : ∀ u ∈ targets.map (·.2), (u ∈ marks₁ ↔ u ∈ marks) := by
        intro u hu
        have hne : u ≠ target.2 := fun heq => hnot (heq ▸ hu)
        rw [hmarks u, StorePlan.Marks]
        split <;> simp [hne]
      obtain ⟨hmarks', hrest', hsaid'⟩ := ih hnodup hchanged
        (fun i hi hin => (if_neg (hother i hi hin)).trans
          (hfresh i hi (List.mem_cons_of_mem _ hin))) hrest hlast
      refine ⟨fun u => (hmarks' u).trans (StorePlan.marks_cons hnot hmarks u),
        hrest'.congr (storedAt_relabels hc.relabels _ _) ?_ fun _ => Iff.rfl, ?_⟩
      · intro i hi
        rw [List.map_cons]
        unfold StorePlan.storedAt changeAt
        by_cases hin : i.uid ∈ targets.map (·.2)
        · rw [if_pos hin, if_pos (List.mem_cons_of_mem _ hin)]
          exact StorePlan.stored_congr (hsame _ hin).symm
        · rw [if_neg hin]
          by_cases heq : i.uid = target.2
          · rw [if_pos heq, if_pos (by simp [heq]), hfresh i hi (by simp [heq])]
          · rw [if_neg heq, if_neg (List.not_mem_cons_of_ne_of_not_mem heq hin)]
      · have hanswers : targets.filterMap (plan.answer mdef.permanentFlags snap marks₁) =
            targets.filterMap (plan.answer mdef.permanentFlags snap marks) := by
          apply List.filterMap_congr
          intro target' hmem
          unfold StorePlan.answer
          cases hby : snap.byUid target'.2 with
          | none => rfl
          | some i =>
            have huid : i.uid = target'.2 := (Snapshot.byUid_some hby).2
            have hmark : i.uid ∈ marks₁ ↔ i.uid ∈ marks := by
              rw [huid]
              exact hsame _ (List.mem_map_of_mem hmem)
            rw [Option.map_some, Option.map_some, StorePlan.result_congr hmark]
        rw [said_append, hsaid, hsaid', hanswers, List.filterMap_cons]
        cases plan.answer mdef.permanentFlags snap marks target <;> rfl

end

end Imap
end ImapGateway
