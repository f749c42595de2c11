/-
`\Deleted` marks in a history of the service.
-/
import ImapGateway.Mailbox.History
import ImapGateway.Store.Marks

namespace ImapGateway
namespace Mailbox

open Store.Db

variable {cfg : Config}

/-- The marks an action sets. -/
def Act.sets (p : Act) (inboxId name : String) (uid : Nat) : Prop :=
  ∃ uids, p = .setDeleted (inboxId, name) uids true ∧ uid ∈ uids

/-- The marks an action clears. -/
def Act.clears (p : Act) (inboxId name : String) (uid : Nat) : Prop :=
  ∃ uids, p = .setDeleted (inboxId, name) uids false ∧ uid ∈ uids

theorem Act.sets_setDeleted {key : Key} {uids : List Nat} {value : Bool} {i n : String} {u : Nat} :
    (Act.setDeleted key uids value).sets i n u ↔
      value = true ∧ (key.1 = i ∧ key.2 = n) ∧ u ∈ uids := by
  constructor
  · rintro ⟨us, he, hu⟩
    cases he
    exact ⟨rfl, ⟨rfl, rfl⟩, hu⟩
  · rintro ⟨rfl, ⟨rfl, rfl⟩, hu⟩
    exact ⟨uids, rfl, hu⟩

theorem Act.clears_setDeleted {key : Key} {uids : List Nat} {value : Bool} {i n : String}
    {u : Nat} : (Act.setDeleted key uids value).clears i n u ↔
      value = false ∧ (key.1 = i ∧ key.2 = n) ∧ u ∈ uids := by
  constructor
  · rintro ⟨us, he, hu⟩
    cases he
    exact ⟨rfl, ⟨rfl, rfl⟩, hu⟩
  · rintro ⟨rfl, ⟨rfl, rfl⟩, hu⟩
    exact ⟨uids, rfl, hu⟩

/-- What an action does to the marks. -/
theorem Act.exec_marks (cfg : Config) (t : Tid) (p : Act) {s : Service} (h : s.store.Ok) :
    MarksStep p.sets p.clears s.store (p.exec cfg t s).store := by
  have plain : ∀ {d' : Store.Db}, MarksStep Never Never s.store d' →
      (∀ i n u, ¬p.sets i n u) → MarksStep p.sets p.clears s.store d' := by
    intro d' hd hsets
    refine ⟨fun i n u hm => .inl ((hd.marked i n u hm).resolve_right id), fun i n u hm => ?_,
      hd.live, fun i n u hset => absurd hset (hsets i n u)⟩
    rcases hd.kept i n u hm with hk | hk | hk
    · exact .inl hk
    · exact .inr (.inl hk)
    · exact hk.elim
  have quiet : ∀ {d' : Store.Db}, d' = s.store → (∀ i n u, ¬p.sets i n u) →
      MarksStep p.sets p.clears s.store d' := by
    intro d' hd hsets
    subst hd
    exact plain (.of_same (fun _ _ _ => Iff.rfl) fun _ _ _ hu => hu) hsets
  cases p with
  | publish =>
    refine plain ?_ (fun i n u hset => by obtain ⟨_, he, _⟩ := hset; cases he)
    cases hl : s.listings t with
    | none =>
      rw [Act.exec, Service.publish_none hl]
      exact .of_same (fun _ _ _ => Iff.rfl) fun _ _ _ hu => hu
    | some l =>
      have hstore : ∃ keys, ((Act.publish).exec cfg t s).store =
          (s.reconcile l.key keys).1.store := by
        simp only [Act.exec, Service.publish, hl]
        exact ⟨_, rfl⟩
      obtain ⟨keys, hstore⟩ := hstore
      rw [hstore]
      exact h.reconciled_marks _ _ _ _ _ _ keys
  | appendCommit inboxId created rendered =>
    refine plain ?_ (fun i n u hset => by obtain ⟨_, he, _⟩ := hset; cases he)
    have hnew := h.ensureUids_ensureMailbox_marks s.nextUidvalidity
      (Service.nextUidvalidity { s with
        store := (s.store.ensureUids s.nextUidvalidity s.now inboxId drafts.name
          [(contentKey cfg (orEmpty created.draftId) rendered, orEmpty created.draftId)]).1,
        watermark := s.watermarkAfter (inboxId, drafts.name) }) s.now inboxId drafts.name
      [(contentKey cfg (orEmpty created.draftId) rendered, orEmpty created.draftId)]
    exact hnew
  | copyItem inboxId item result =>
    refine plain ?_ (fun i n u hset => by obtain ⟨_, he, _⟩ := hset; cases he)
    obtain ⟨aux, haux⟩ := Service.settlePatch_eq (s.copyItem t inboxId item result) t
    rw [Act.exec, haux]
    exact h.ensureUids_marks s.nextUidvalidity s.now inboxId trash.name
      [(item.remoteId, item.remoteId)]
  | setDeleted key uids value =>
    have hd := setDeleted_marks s.store s.now key.1 key.2 uids value
    refine ⟨fun i n u hm => (hd.marked i n u hm).imp_right Act.sets_setDeleted.mpr,
      fun i n u hm => (hd.kept i n u hm).imp_right (.imp_right Act.clears_setDeleted.mpr),
      hd.live, fun i n u hset => hd.made i n u (Act.sets_setDeleted.mp hset)⟩
  | mailboxInfo key =>
    exact plain (ensureMailbox_marks _ _ _ _)
      (fun i n u hset => by obtain ⟨_, he, _⟩ := hset; cases he)
  | setFlagCommit key item add remove result =>
    obtain ⟨aux, haux⟩ := Service.settlePatch_eq (s.setFlagCommit key item add remove result) t
    rw [Act.exec, haux]
    refine quiet ?_ (fun i n u hset => by obtain ⟨_, he, _⟩ := hset; cases he)
    simp only [Service.setFlagCommit, Service.replaceItem]
    split <;> (try split) <;> rfl
  | expungeCommit inboxId item result =>
    obtain ⟨aux, haux⟩ := Service.settlePatch_eq (s.expungeCommit inboxId item result) t
    rw [Act.exec, haux]
    exact quiet rfl (fun i n u hset => by obtain ⟨_, he, _⟩ := hset; cases he)
  | collectMessage m =>
    refine quiet ?_ (fun i n u hset => by obtain ⟨_, he, _⟩ := hset; cases he)
    rw [Act.exec]
    rcases Service.collectMessage_cases cfg s t m with heq | ⟨l, _, _, heq⟩ <;> rw [heq]
  | collectDraft d rendered =>
    refine quiet ?_ (fun i n u hset => by obtain ⟨_, he, _⟩ := hset; cases he)
    simp only [Act.exec, Service.collectDraft]
    split <;> rfl
  | reap n =>
    refine quiet ?_ (fun i n u hset => by obtain ⟨_, he, _⟩ := hset; cases he)
    simp only [Act.exec, Service.reap]
    split <;> rfl
  | applyPatch =>
    refine quiet ?_ (fun i n u hset => by obtain ⟨_, he, _⟩ := hset; cases he)
    simp only [Act.exec, Service.applyPatch]
    split <;> rfl
  | _ => exact quiet rfl (fun i n u hset => by obtain ⟨_, he, _⟩ := hset; cases he)

/-! ## Histories -/

/-- The marks set here are set on live UIDs. -/
def Happening.SetsOnLive (x : Happening) : Prop :=
  ∀ i n u, x.action.sets i n u → x.before.store.IsLive i n u

/-- A mark stays, unless its UID is tombstoned here or it is cleared. -/
def Happening.KeepsMarks (cfg : Config) (x : Happening) : Prop :=
  ∀ i n u, x.before.store.Marked i n u → (x.after cfg).store.Marked i n u ∨
    (x.before.store.IsLive i n u ∧ ¬(x.after cfg).store.IsLive i n u) ∨ x.action.clears i n u

variable {s₀ s : Service} {hs : List Happening}

theorem History.marks (h : History cfg s₀ hs s) (hok : s₀.store.Ok) {x : Happening} (hx : x ∈ hs) :
    MarksStep x.action.sets x.action.clears x.before.store (x.after cfg).store := by
  obtain ⟨older, _, hbefore⟩ := h.before_of_mem hx
  exact Act.exec_marks cfg x.tid x.action (hbefore.storeOk hok)

/-- Setting a mark changes nothing about the live UIDs. -/
theorem Happening.live_of_sets {x : Happening} {i n : String} {u : Nat} (hset : x.action.sets i n u)
    (h : (x.after cfg).store.IsLive i n u) : x.before.store.IsLive i n u := by
  obtain ⟨uids, hact, _⟩ := hset
  unfold Happening.after at h
  rw [hact] at h
  exact ((setDeleted_sameLive x.before.store x.before.now i n uids true i n).isLive u).mp h

/-- All marks are on live UIDs after every action, if and only if every mark was set
on one. -/
theorem History.marksLive_iff (h : History cfg s₀ hs s) (hok : s₀.store.Ok)
    (hlive : s₀.store.MarksLive) :
    (∀ x ∈ hs, (x.after cfg).store.MarksLive) ↔ ∀ x ∈ hs, x.SetsOnLive := by
  constructor
  · intro hall x hx i n u hset
    have hmade := (h.marks hok hx).made i n u hset
    exact Happening.live_of_sets hset (hall x hx i n u hmade)
  · intro hsets
    have hfinal : s.store.MarksLive ∧ ∀ x ∈ hs, (x.after cfg).store.MarksLive := by
      induction h with
      | nil => exact ⟨hlive, fun x hx => absurd hx List.not_mem_nil⟩
      | cons y hy ih =>
        obtain ⟨hbefore, hrest⟩ := ih fun x hx => hsets x (List.mem_cons_of_mem _ hx)
        have hstep := Act.exec_marks cfg y.tid y.action (hy.storeOk hok)
        have hafter : (y.after cfg).store.MarksLive :=
          hstep.marksLive hbefore (hsets y (List.mem_cons_self ..))
        refine ⟨hafter, fun x hx => ?_⟩
        rcases List.mem_cons.mp hx with rfl | hx
        · exact hafter
        · exact hrest x hx
    exact hfinal.2

theorem History.keepsMarks (h : History cfg s₀ hs s) (hok : s₀.store.Ok) :
    ∀ x ∈ hs, x.KeepsMarks cfg :=
  fun _ hx => (h.marks hok hx).kept

end Mailbox
end ImapGateway
