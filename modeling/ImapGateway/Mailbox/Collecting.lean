/-
What a listing does before it publishes.

It looks at messages or drafts page by page and keeps what it has seen.  Until it
publishes, nothing it does reaches the store, the pins or the snapshots.
-/
import ImapGateway.Mailbox.Sync
import ImapGateway.Mailbox.History
import ImapGateway.Async.Steps

namespace ImapGateway
namespace Mailbox

open Async

variable {cfg : Config} {s : Service} {t : Tid} {api : Client} {inboxId : String}

/-- An action of a listing before it is published. -/
def Act.gathers : Act → Bool
  | .see _ | .collectMessage _ | .collectDraft _ _ | .cacheGet _ | .cachePut _ _
  | .obtained _ => true
  | _ => false

theorem collectMessage_listed (m : MessageJson) (h : (s.listings t).isSome) :
    ((s.collectMessage cfg t m).listings t).isSome := by
  unfold Service.collectMessage
  split
  · exact h
  · rename_i l hl
    dsimp only
    split
    · exact h
    · have hseen : ((s.see t (orEmpty m.messageId)).listings t).isSome := by
        show ((Function.update s.listings t _) t).isSome
        rw [Function.update_self, Option.isSome_map]
        exact h
      split
      · exact hseen
      · show ((Function.update (s.see t (orEmpty m.messageId)).listings t _) t).isSome
        rw [Function.update_self, Option.isSome_map]
        exact hseen

/-- A listing under way stays one. -/
theorem gathers_exec {p : Act} (hp : p.gathers = true) (h : (s.listings t).isSome) :
    ((p.exec cfg t s).listings t).isSome := by
  cases p with
  | see id =>
    show ((Function.update s.listings t _) t).isSome
    rw [Function.update_self, Option.isSome_map]
    exact h
  | collectMessage m => exact collectMessage_listed m h
  | collectDraft d rendered =>
    show ((s.collectDraft cfg t d rendered).listings t).isSome
    unfold Service.collectDraft
    split
    · exact h
    · show ((Function.update s.listings t _) t).isSome
      rw [Function.update_self, Option.isSome_map]
      exact h
  | cacheGet | cachePut | obtained => exact h
  | _ => cases hp

theorem ask_all {P : Act → Prop} (q : Req) : (ask q).All P := by
  intro a
  cases a <;> trivial

theorem paginate_all {α : Type} {P : Act → Prop} {page : Option String → Svc (Page α)}
    {body : α → Svc Unit} (hpage : ∀ token, (page token).All P) (hbody : ∀ a, (body a).All P)
    (fuel : Nat) (token : Option String) (seen : List String) :
    (paginate page body fuel token seen).All P := by
  induction fuel generalizing token seen with
  | zero => trivial
  | succ fuel ih =>
    rw [paginate]
    apply (hpage token).bind
    intro answer
    apply (Coro.All.each hbody _).bind
    intro
    split
    · trivial
    · split
      · trivial
      · exact ih _ _

theorem collectMessage_gathers (m : MessageJson) :
    (collectMessage m).All fun p => p.gathers = true := by
  unfold collectMessage
  split
  · trivial
  · exact ⟨rfl, trivial⟩

theorem renderDraft_gathers (draftId updatedAt : String) :
    (renderDraft cfg api inboxId draftId updatedAt).All fun p => p.gathers = true := by
  rw [renderDraft]
  intro s
  simp only [Coro.bind_eq, Coro.bind]
  split
  · exact ⟨rfl, trivial⟩
  · apply (Coro.All.attempt (ask_all _)).bind
    intro r
    split
    · trivial
    · trivial
    · split
      · trivial
      · exact ⟨rfl, rfl, trivial⟩

theorem collectDraft_gathers (d : DraftJson) :
    (collectDraft cfg t api inboxId d).All fun p => p.gathers = true := by
  rw [collectDraft]
  simp only
  split
  · trivial
  · intro s
    simp only [Coro.bind_eq, Coro.bind]
    split
    · trivial
    · refine ⟨rfl, (renderDraft_gathers _ _).bind fun r => ?_⟩
      cases r with
      | none => trivial
      | some rendered => exact ⟨rfl, trivial⟩

theorem collectMessages_gathers (mdef : MailboxDef) :
    (collectMessages cfg api inboxId mdef).All fun p => p.gathers = true :=
  paginate_all (fun _ => ask_all _) collectMessage_gathers _ _ _

theorem collectDrafts_gathers :
    (collectDrafts cfg t api inboxId).All fun p => p.gathers = true :=
  paginate_all (fun _ => ask_all _) collectDraft_gathers _ _ _

/-- The collecting part of `_do_sync`. -/
def collect (cfg : Config) (t : Tid) (api : Client) (inboxId : String) (mdef : MailboxDef) :
    Svc Unit :=
  match mdef.kind with
  | .messages => collectMessages cfg api inboxId mdef
  | .drafts => collectDrafts cfg t api inboxId

theorem collect_gathers (mdef : MailboxDef) :
    (collect cfg t api inboxId mdef).All fun p => p.gathers = true := by
  unfold collect
  cases mdef.kind with
  | messages => exact collectMessages_gathers mdef
  | drafts => exact collectDrafts_gathers

/-- A listing that publishes leaves its snapshot behind. -/
theorem publish_published (h : (s.listings t).isSome) : ((s.publish t).published t).isSome := by
  obtain ⟨l, hl⟩ := Option.isSome_iff_exists.mp h
  rw [Service.publish, hl]
  show ((Function.update s.published t _) t).isSome
  rw [Function.update_self]
  rfl

/-- The parts of a run of `_do_sync`: it fails while it collects, or it publishes and
returns. -/
theorem doSync_takes {mdef : MailboxDef} {rely : Service → Service → Prop} {s' : Service}
    {steps : List (Coro.Step Service Act Req Req.Answer)} {out : Except Exc Snapshot}
    (hrely : ∀ a b, a.store.Ok → rely a b → b.store.Ok ∧ b.listings t = a.listings t)
    (hok : s.store.Ok) (h : (doSync cfg t api inboxId mdef).Takes (Act.exec cfg t) rely s steps out s') :
    (∃ e s₁ collecting, out = .error e ∧
      steps = .did (.startListing inboxId mdef) s :: (collecting ++ [.did .dropListing s₁]) ∧
      (collect cfg t api inboxId mdef).Takes (Act.exec cfg t) rely
        (s.startListing t inboxId mdef) collecting (.error e) s₁ ∧ s' = s₁.dropListing t) ∨
    ∃ snap s₁ collecting, out = .ok snap ∧
      steps = .did (.startListing inboxId mdef) s :: (collecting ++ [.did .publish s₁]) ∧
      (collect cfg t api inboxId mdef).Takes (Act.exec cfg t) rely
        (s.startListing t inboxId mdef) collecting (.ok ()) s₁ ∧ s' = s₁.publish t ∧
      s'.published t = some snap := by
  obtain ⟨rest, rfl, hrun⟩ := Coro.Takes.of_perform h
  have hstart : ((s.startListing t inboxId mdef).listings t).isSome := by
    show ((Function.update s.listings t _) t).isSome
    rw [Function.update_self]
    rfl
  rcases Coro.Takes.of_bind hrun with ⟨e, rfl, hc⟩ | ⟨_, s₁, steps₁, steps₂, rfl, hc, hk⟩
  · rcases hc.of_handle with ⟨_, hok, _⟩ | ⟨e', s₂, steps₁, steps₂, rfl, hfail, hdrop⟩
    · cases hok
    · cases hdrop with
      | act hdrop =>
        cases hdrop
        exact Or.inl ⟨e, s₂, steps₁, rfl, rfl, hfail, rfl⟩
  · rcases hc.of_handle with ⟨_, _, hdone⟩ | ⟨e', s₂, steps₃, steps₄, rfl, hfail, hdrop⟩
    · have hsome := (hdone.all (collect_gathers mdef)
        (fun s => s.store.Ok ∧ (s.listings t).isSome)
        (fun a b ha hr => ⟨(hrely a b ha.1 hr).1, by rw [(hrely a b ha.1 hr).2]; exact ha.2⟩)
        (fun p a hp ha => ⟨(Act.exec_uidStep cfg t p ha.1).1, gathers_exec hp ha.2⟩)
        ⟨hok, hstart⟩).2
      obtain ⟨rest, rfl, hpublish⟩ := Coro.Takes.of_perform hk
      have hread := Coro.Takes.of_read hpublish
      have hpublished := publish_published hsome
      split at hread
      · rename_i snap hsnap
        cases hread
        exact Or.inr ⟨snap, s₁, steps₁, rfl, rfl, hdone, rfl, hsnap⟩
      · rename_i hnone
        have hnone : (s₁.publish t).published t = none := hnone
        rw [hnone] at hpublished
        cases hpublished
    · cases hdrop with
      | act hdrop => cases hdrop

end Mailbox
end ImapGateway
