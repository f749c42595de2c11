/-
The pairs of a copy.

`copy_to_trash` goes through the messages in the order of their UIDs.  A message that is new
to Trash gets the next UID there, above those of all messages before it, and a message that
is there already keeps the UID it has, wherever that is.
-/
import ImapGateway.Mailbox.Conduct

namespace ImapGateway
namespace Mailbox

open Async

/-- A message that is in Trash already is not below the messages copied before it. -/
def Happening.CopiesUpward (x : Happening) : Prop :=
  ∀ inboxId item result, x.action = .copyItem inboxId item result →
    ∀ u, x.before.store.liveUid inboxId trash.name item.remoteId = some u →
      ∀ pair ∈ x.before.copied x.tid, pair.2 ≤ u

/-- The Trash UIDs of the pairs ascend. -/
def Upward (pairs : List (Nat × Nat)) : Prop := pairs.Pairwise fun a b => a.2 ≤ b.2

theorem upward_concat {pairs : List (Nat × Nat)} {pair : Nat × Nat} (h : Upward pairs)
    (hlast : ∀ a ∈ pairs, a.2 ≤ pair.2) : Upward (pairs ++ [pair]) := by
  rw [Upward, List.pairwise_append]
  refine ⟨h, List.pairwise_singleton _ _, fun a ha b hb => ?_⟩
  rw [List.mem_singleton.mp hb]
  exact hlast a ha

section

variable {cfg : Config} {R : Regime} {s : Service}

/-- What an action does to the pairs. -/
inductive CopyStep (t : Tid) (p : Act) (s s' : Service) : Prop
  | start (copied : s'.copied = Function.update s.copied t [])
  | pair (inboxId : String) (item : Item) (result : PatchResult) (u : Nat)
      (hp : p = .copyItem inboxId item result)
      (copied : s'.copied = Function.update s.copied t (s.copied t ++ [(item.uid, u)]))
      (given : s.store.liveUid inboxId trash.name item.remoteId = some u ∨
        s.store.nextUid inboxId trash.name ≤ u)
  | quiet (copied : s'.copied = s.copied)

theorem Act.exec_copyStep (cfg : Config) (t : Tid) (p : Act) (h : s.store.Ok) :
    CopyStep t p s (p.exec cfg t s) := by
  cases p with
  | beginCopy => exact .start rfl
  | copyItem inboxId item result =>
    obtain ⟨store, watermark, hok, hal, heq⟩ := Service.copyItem_eq h t inboxId item result
    obtain ⟨heldFrom, hsettle⟩ := Service.settlePatch_eq (s.copyItem t inboxId item result) t
    obtain ⟨u, hu⟩ := hal.live _ (List.mem_singleton_self _)
    refine .pair inboxId item result u rfl ?_ ?_
    · rw [Act.exec, hsettle, heq, hu]
      rfl
    · cases hbefore : s.store.liveUid inboxId trash.name item.remoteId with
      | none => exact .inr (hal.fresh _ _ hbefore hu).2
      | some v =>
        rw [hal.kept _ _ hbefore] at hu
        exact .inl hu
  | publish =>
    cases hl : s.listings t with
    | none =>
      rw [Act.exec, Service.publish_none hl]
      exact .quiet rfl
    | some l =>
      obtain ⟨store, watermark, v, _, heq⟩ := Service.publish_eq h hl
      rw [Act.exec, heq]
      exact .quiet rfl
  | collectMessage m =>
    rcases Service.collectMessage_cases cfg s t m with heq | ⟨l, _, _, heq⟩
    · rw [Act.exec, heq]
      exact .quiet rfl
    · rw [Act.exec, heq]
      exact .quiet rfl
  | collectDraft d rendered =>
    simp only [Act.exec, Service.collectDraft]
    split
    · exact .quiet rfl
    · exact .quiet rfl
  | setFlagCommit key item add remove result =>
    obtain ⟨heldFrom, heq⟩ := Service.settlePatch_eq (s.setFlagCommit key item add remove result) t
    rw [Act.exec, heq]
    simp only [Service.setFlagCommit, Service.replaceItem]
    split
    · exact .quiet rfl
    · split
      · exact .quiet rfl
      · exact .quiet rfl
  | expungeCommit inboxId item result =>
    obtain ⟨heldFrom, heq⟩ := Service.settlePatch_eq (s.expungeCommit inboxId item result) t
    rw [Act.exec, heq]
    exact .quiet rfl
  | reap n =>
    simp only [Act.exec, Service.reap]
    split
    · exact .quiet rfl
    · exact .quiet rfl
  | applyPatch =>
    simp only [Act.exec, Service.applyPatch]
    split
    · exact .quiet rfl
    · exact .quiet rfl
  | _ => exact .quiet rfl

/-- A copy that goes upward leaves the pairs of every coroutine ascending. -/
theorem Happening.CopiesUpward.upward {x : Happening} (hup : x.CopiesUpward) (h : x.before.store.Ok)
    (ho : Owes cfg R x.tid x.action x.before) (hpairs : ∀ t, Upward (x.before.copied t)) (t : Tid) :
    Upward ((x.after cfg).copied t) := by
  cases x.action.exec_copyStep cfg x.tid h with
  | start copied =>
    rw [Happening.after, copied]
    by_cases ht : t = x.tid
    · rw [ht, Function.update_self]
      exact List.Pairwise.nil
    · rw [Function.update_of_ne ht]
      exact hpairs t
  | pair inboxId item result u hp copied given =>
    rw [Happening.after, copied]
    by_cases ht : t = x.tid
    · rw [ht, Function.update_self]
      apply upward_concat (hpairs x.tid)
      intro a ha
      rcases given with hlive | hfresh
      · exact hup inboxId item result hp u hlive a ha
      · rw [hp] at ho
        have hbelow := ho.2 a ha
        show a.2 ≤ u
        omega
    · rw [Function.update_of_ne ht]
      exact hpairs t
  | quiet copied =>
    rw [Happening.after, copied]
    exact hpairs t

end

end Mailbox
end ImapGateway
