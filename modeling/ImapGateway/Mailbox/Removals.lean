/-
What a removal sends upstream.

A listing changes nothing upstream, and neither does a wait.  `expunge_items` sends one write for
each item, a label for a message and a deletion for a draft, and it deletes a draft only if what
it has fetched just before renders to the content that the UID names.
-/
import ImapGateway.Mailbox.Rendering

namespace ImapGateway
namespace Mailbox

open Async

variable {cfg : Config} {t : Tid} {rely : Service → Service → Prop} {s s' : Service}
  {exec : Act → Service → Service} {heard heard₁ heard₂ : List (Sigma Req.Answer)}
  {api : Client} {inboxId : String} {mdef : MailboxDef} {item : Item}

/-! ## Requests that only read -/

/-- A request that changes nothing upstream. -/
def Req.reads : Req → Bool
  | .createDraft _ _ _ _ => false
  | .deleteDraft _ _ _ => false
  | .updateLabels _ _ _ _ _ => false
  | _ => true

/-- The coroutine changes nothing upstream. -/
abbrev Looks {α : Type} (x : Svc α) : Prop := x.Asks fun q => q.reads = true

section Looks

variable {α : Type}

theorem ret_looks (a : α) : Looks (Coro.ret a : Svc α) := trivial

theorem throw_looks (e : Exc) : Looks (Coro.raise e : Svc α) := trivial

theorem ask_looks {q : Req} (hq : q.reads = true) : Looks (ask q) :=
  ⟨hq, fun a => Coro.Asks.ofExcept a⟩

theorem act_looks {p : Act} {k : Unit → Svc α} (h : Looks (k ())) : Looks ((perform p).bind k) := h

theorem state_looks {k : Service → Svc α} (h : ∀ s, Looks (k s)) : Looks (state.bind k) := h

theorem paginate_looks {pageOf : Option String → Svc (Page α)} {body : α → Svc Unit}
    (hpage : ∀ token, Looks (pageOf token)) (hbody : ∀ x, Looks (body x)) (fuel : Nat)
    (token : Option String) (seen : List String) : Looks (paginate pageOf body fuel token seen) := by
  induction fuel generalizing token seen with
  | zero => exact throw_looks _
  | succ fuel ih =>
    rw [paginate]
    apply (hpage token).bind
    intro page
    apply (Coro.Asks.each hbody _).bind
    intro _
    split
    · exact ret_looks _
    · split
      · exact throw_looks _
      · exact ih _ _

theorem collectMessage_looks (m : MessageJson) : Looks (collectMessage m) := by
  rw [collectMessage]
  split
  · exact throw_looks _
  · exact act_looks (ret_looks _)

theorem renderDraft_looks (draftId updatedAt : String) :
    Looks (renderDraft cfg api inboxId draftId updatedAt) := by
  rw [renderDraft]
  apply state_looks
  intro s
  split
  · exact act_looks (ret_looks _)
  · apply (ask_looks (q := .getDraft api inboxId draftId) rfl).attempt.bind
    intro r
    split
    · exact ret_looks _
    · exact throw_looks _
    · split
      · exact throw_looks _
      · exact act_looks (act_looks (ret_looks _))

theorem collectDraft_looks (d : DraftJson) : Looks (collectDraft cfg t api inboxId d) := by
  rw [collectDraft]
  simp only [Coro.bind_eq, Coro.pure_eq, Coro.throw_eq]
  split
  · exact throw_looks _
  · apply state_looks
    intro s
    split
    · exact ret_looks _
    · apply act_looks
      apply (renderDraft_looks _ _).bind
      intro r
      split
      · exact ret_looks _
      · exact act_looks (ret_looks _)

theorem doSync_looks : Looks (doSync cfg t api inboxId mdef) := by
  rw [doSync]
  simp only [Coro.bind_eq, Coro.pure_eq, Coro.throw_eq, Coro.tryCatch_eq]
  apply act_looks
  apply Coro.Asks.bind
  · apply Coro.Asks.handle
    · split
      · exact paginate_looks (fun _ => ask_looks rfl) collectMessage_looks _ _ _
      · exact paginate_looks (fun _ => ask_looks rfl) collectDraft_looks _ _ _
    · exact fun _ => act_looks (throw_looks _)
  · intro _
    apply act_looks
    apply state_looks
    intro s
    split
    · exact ret_looks _
    · exact throw_looks _

theorem awaitTask_looks (n : Nat) : Looks (awaitTask n) := by
  have hask : Looks (ask (.task n)) := ask_looks rfl
  intro s
  simp only [Coro.bind]
  cases s.taskState n with
  | none => exact hask
  | some state =>
    cases state with
    | finished r => exact Coro.Asks.ofExcept r
    | queued => exact hask
    | running => exact hask

theorem join_looks (e : Inflight) : Looks (join cfg t e api inboxId mdef) := by
  rw [join]
  simp only [Coro.tryCatch_eq, Coro.throw_eq]
  apply (awaitTask_looks e.task).handle
  intro exc
  split
  · split
    · exact throw_looks _
    · exact doSync_looks
  · exact throw_looks _

theorem launch_looks (generation : Nat) : Looks (launch api inboxId mdef generation) :=
  state_looks fun s => act_looks (awaitTask_looks s.nextTask)

theorem waitOut_looks (n : Nat) : Looks (waitOut n) := by
  rw [waitOut]
  simp only [Coro.tryCatch_eq, Coro.throw_eq, Coro.bind_eq]
  apply Coro.Asks.handle ((awaitTask_looks n).bind fun _ => ret_looks ())
  intro exc
  split
  · exact throw_looks _
  · exact ret_looks _

theorem syncMailbox_looks (force : Bool) : Looks (syncMailbox cfg t api inboxId mdef force) := by
  rw [syncMailbox]
  simp only [Coro.bind_eq]
  apply state_looks
  intro s
  split
  · exact ret_looks _
  · split
    · exact launch_looks _
    · split
      · exact join_looks _
      · apply (waitOut_looks _).bind
        intro _
        apply state_looks
        intro s'
        split
        · split
          · exact join_looks _
          · exact launch_looks _
        · exact launch_looks _

theorem syncForced_looks (name : String) : Looks (syncForced cfg t api inboxId name) := by
  rw [syncForced]
  split
  · exact throw_looks _
  · apply act_looks
    exact (syncMailbox_looks true).bind fun _ => act_looks (ret_looks _)

end Looks

/-! ## Writes -/

/-- The requests among those answered that change something upstream, in order. -/
def writesOf (heard : List (Sigma Req.Answer)) : List Req :=
  (heard.map (·.1)).filter fun q => !q.reads

@[simp] theorem writesOf_nil : writesOf [] = [] := rfl

@[simp] theorem writesOf_append : writesOf (heard₁ ++ heard₂) = writesOf heard₁ ++ writesOf heard₂ := by
  simp [writesOf]

theorem writesOf_of_reads (h : ∀ a ∈ heard, a.1.reads = true) : writesOf heard = [] := by
  rw [writesOf, List.filter_eq_nil_iff]
  intro q hq
  obtain ⟨a, ha, rfl⟩ := List.mem_map.mp hq
  rw [h a ha]
  decide

/-- The write that removes an item from its view. -/
def removal (api : Client) (inboxId : String) (mdef : MailboxDef) (item : Item) : Req :=
  match mdef.kind with
  | .drafts => .deleteDraft api inboxId item.remoteId
  | .messages => .updateLabels api inboxId item.remoteId ["trash"] []

/-- The draft was fetched, and it renders to the content that the item's UID names. -/
def Refetched (cfg : Config) (api : Client) (inboxId : String) (item : Item)
    (heard : List (Sigma Req.Answer)) : Prop :=
  ∃ current rendered, ⟨.getDraft api inboxId item.remoteId, .ok current⟩ ∈ heard ∧
    cfg.renderDraft current inboxId = some rendered ∧
    contentKey cfg item.remoteId rendered = item.remoteKey

theorem Refetched.mono (h : Refetched cfg api inboxId item heard₁)
    (hsub : ∀ a ∈ heard₁, a ∈ heard) : Refetched cfg api inboxId item heard := by
  obtain ⟨current, rendered, hmem, hrendered, hkey⟩ := h
  exact ⟨current, rendered, hsub _ hmem, hrendered, hkey⟩

/-- What the removal of `items` sends: the removals of the items `kept` among them, in order.  A
draft is deleted only as it was listed.  If nothing failed every item was removed. -/
structure Removes (cfg : Config) (api : Client) (inboxId : String) (mdef : MailboxDef)
    (items : List Item) (heard : List (Sigma Req.Answer)) (clean : Prop) (kept : List Item) :
    Prop where
  among : kept.Sublist items
  sent : writesOf heard = kept.map (removal api inboxId mdef)
  refetched : mdef.kind = .drafts → ∀ item ∈ kept, Refetched cfg api inboxId item heard
  all : clean → kept = items
  answered : clean → ∀ a ∈ heard, a.1.reads = false → ∃ v, a.2 = .ok v

namespace Removes

variable {items items₁ items₂ kept kept₁ kept₂ : List Item} {c c₁ c₂ : Prop}

/-- Nothing was sent. -/
theorem idle (h : ∀ a ∈ heard, a.1.reads = true) (hc : c → items = []) :
    Removes cfg api inboxId mdef items heard c [] where
  among := List.nil_sublist _
  sent := writesOf_of_reads h
  refetched _ _ hmem := absurd hmem List.not_mem_nil
  all hclean := (hc hclean).symm
  answered _ a ha hwrite := by
    rw [h a ha] at hwrite
    cases hwrite

theorem weaken (h : Removes cfg api inboxId mdef items heard c kept) (hc : c₁ → c) :
    Removes cfg api inboxId mdef items heard c₁ kept where
  among := h.among
  sent := h.sent
  refetched := h.refetched
  all hclean := h.all (hc hclean)
  answered hclean := h.answered (hc hclean)

theorem append (h₁ : Removes cfg api inboxId mdef items₁ heard₁ c₁ kept₁)
    (h₂ : Removes cfg api inboxId mdef items₂ heard₂ c₂ kept₂) :
    Removes cfg api inboxId mdef (items₁ ++ items₂) (heard₁ ++ heard₂) (c₁ ∧ c₂)
      (kept₁ ++ kept₂) where
  among := h₁.among.append h₂.among
  sent := by rw [writesOf_append, h₁.sent, h₂.sent, List.map_append]
  refetched hkind item hitem := by
    rcases List.mem_append.mp hitem with hitem | hitem
    · exact (h₁.refetched hkind item hitem).mono fun a ha => List.mem_append_left _ ha
    · exact (h₂.refetched hkind item hitem).mono fun a ha => List.mem_append_right _ ha
  all hclean := by rw [h₁.all hclean.1, h₂.all hclean.2]
  answered hclean a ha := by
    rcases List.mem_append.mp ha with ha | ha
    · exact h₁.answered hclean.1 a ha
    · exact h₂.answered hclean.2 a ha

end Removes

/-! ## `expunge_items` -/

theorem updateLabels_hears {add remove : List String} {out : Except Exc PatchResult}
    (h : (updateLabels api inboxId item.remoteId add remove).Hears exec rely s heard out s') :
    heard = [⟨.updateLabels api inboxId item.remoteId add remove, out⟩] := by
  rw [updateLabels] at h
  have h := Coro.Hears.of_perform h
  rcases Coro.Hears.of_handle h with ⟨v, rfl, hask⟩ | ⟨e, s₁, heard₁, heard₂, rfl, hask, hthrow⟩
  · exact hears_ask hask
  · have hthrow := Coro.Hears.of_perform hthrow
    cases hthrow
    rw [hears_ask hask]
    rfl

theorem expungeItem_hears {out : Except Exc Unit}
    (h : (expungeItem cfg api inboxId mdef item).Hears exec rely s heard out s') :
    ∃ kept, Removes cfg api inboxId mdef [item] heard (out = .ok ()) kept := by
  rw [expungeItem] at h
  have hlook : ∀ r, (Req.getDraft api inboxId item.remoteId).reads = true → ∀ a ∈
      [(⟨.getDraft api inboxId item.remoteId, r⟩ : Sigma Req.Answer)], a.1.reads = true := by
    intro r hreads a ha
    rw [List.mem_singleton.mp ha]
    exact hreads
  split at h
  · -- A draft: it is fetched, and deleted if it is still what was listed.
    rename_i hkind
    rcases Coro.Hears.of_bind h with ⟨e, rfl, hget⟩ | ⟨current, s₁, heard₁, heard₂, rfl, hget, h⟩
    · rw [hears_ask hget]
      exact ⟨[], .idle (hlook _ rfl) (fun hout => by cases hout)⟩
    · rw [hears_ask hget]
      dsimp only at h
      split at h
      · cases h
        exact ⟨[], .idle (hlook _ rfl) (fun hout => by cases hout)⟩
      · rename_i rendered hrendered
        split at h
        · cases h
          exact ⟨[], .idle (hlook _ rfl) (fun hout => by cases hout)⟩
        · rename_i hkey
          have hdelete : ∃ r, heard₂ = [⟨.deleteDraft api inboxId item.remoteId, r⟩] ∧
              (out = .ok () → ∃ v, r = .ok v) := by
            rcases Coro.Hears.of_bind h with ⟨e, rfl, hask⟩ | ⟨v, s₂, heard₃, heard₄, rfl, hask, h⟩
            · exact ⟨_, hears_ask hask, fun hout => by cases hout⟩
            · have h := Coro.Hears.of_perform h
              cases h with
              | act h =>
                cases h
                rw [hears_ask hask]
                exact ⟨_, rfl, fun _ => ⟨v, rfl⟩⟩
          obtain ⟨r, rfl, hok⟩ := hdelete
          refine ⟨[item], List.Sublist.refl _, ?_, fun _ i hi => ?_, fun _ => rfl, ?_⟩
          · rw [List.map_singleton, removal, hkind]
            rfl
          · rw [List.mem_singleton.mp hi]
            exact ⟨current, rendered, List.mem_cons_self, hrendered, not_not.mp hkey⟩
          · intro hout a ha hwrite
            simp only [List.cons_append, List.nil_append, List.mem_cons, List.not_mem_nil,
              or_false] at ha
            rcases ha with rfl | rfl
            · cases hwrite
            · exact hok hout
  · rename_i hkind
    have hpatch : ∃ r, heard = [⟨.updateLabels api inboxId item.remoteId ["trash"] [], r⟩] ∧
        (out = .ok () → ∃ v, r = .ok v) := by
      rcases Coro.Hears.of_bind h with ⟨e, rfl, hask⟩ | ⟨v, s₂, heard₃, heard₄, rfl, hask, h⟩
      · exact ⟨_, updateLabels_hears hask, fun hout => by cases hout⟩
      · have h := Coro.Hears.of_perform h
        cases h with
        | act h =>
          cases h
          rw [updateLabels_hears hask]
          exact ⟨_, rfl, fun _ => ⟨v, rfl⟩⟩
    obtain ⟨r, rfl, hok⟩ := hpatch
    refine ⟨[item], List.Sublist.refl _, ?_, fun hdrafts => ?_, fun _ => rfl, ?_⟩
    · rw [List.map_singleton, removal, hkind]
      rfl
    · rw [hkind] at hdrafts
      cases hdrafts
    · intro hout a ha _
      rw [List.mem_singleton.mp ha]
      exact hok hout

/-- One round: an error is kept, and a cancellation ends the loop. -/
theorem expungeRound_hears {r : List Exc × Bool} {out : Except Exc (List Exc × Bool)}
    (h : (expungeRound cfg api inboxId mdef r item).Hears exec rely s heard out s') :
    ∃ kept, Removes cfg api inboxId mdef [item] heard (∃ b, out = .ok (r.1, b)) kept ∧
      ∀ r', out = .ok r' → r.1 <+: r'.1 := by
  rw [expungeRound] at h
  rcases h.of_bind with ⟨e, rfl, hattempt⟩ | ⟨r₁, s₁, heard₁, heard₂, rfl, hattempt, h⟩
  · obtain ⟨r₁, hout, _⟩ := hattempt.of_attempt
    cases hout
  · obtain ⟨r₁', hout, hitem⟩ := hattempt.of_attempt
    cases hout
    obtain ⟨kept, hkept⟩ := expungeItem_hears hitem
    split at h
    · cases h
      rw [List.append_nil]
      refine ⟨kept, hkept.weaken fun _ => rfl, fun r' hr => ?_⟩
      cases hr
      exact List.prefix_refl _
    · cases h
      rw [List.append_nil]
      refine ⟨kept, hkept.weaken fun hb => ?_, fun r' hr => by cases hr⟩
      obtain ⟨b, hb⟩ := hb
      cases hb
    · cases h
      rw [List.append_nil]
      refine ⟨kept, hkept.weaken fun hb => ?_, fun r' hr => ?_⟩
      · obtain ⟨b, hb⟩ := hb
        have hfst := congrArg Prod.fst (Except.ok.inj hb)
        simp at hfst
      · cases hr
        exact List.prefix_append _ _

/-- The loop: it is clean if it adds no error. -/
theorem expungeRounds_hears {items : List Item} {r : List Exc × Bool}
    {out : Except Exc (List Exc × Bool)}
    (h : (Coro.foldEach (expungeRound cfg api inboxId mdef) r items).Hears exec rely s heard out s') :
    ∃ kept, Removes cfg api inboxId mdef items heard (∃ b, out = .ok (r.1, b)) kept ∧
      ∀ r', out = .ok r' → r.1 <+: r'.1 := by
  have hnothing : ∀ a ∈ ([] : List (Sigma Req.Answer)), a.1.reads = true := fun a ha =>
    absurd ha List.not_mem_nil
  induction items generalizing r s heard with
  | nil =>
    cases h
    refine ⟨[], .idle hnothing fun _ => rfl, fun r' hr => ?_⟩
    cases hr
    exact List.prefix_refl _
  | cons item items ih =>
    rw [Coro.foldEach] at h
    rcases h.of_bind with ⟨e, rfl, hround⟩ | ⟨r₁, s₁, heard₁, heard₂, rfl, hround, hrest⟩
    · obtain ⟨kept, hkept, _⟩ := expungeRound_hears hround
      have hnone : Removes cfg api inboxId mdef items [] False [] := .idle hnothing False.elim
      have hall := hkept.append hnone
      rw [List.append_nil, List.append_nil] at hall
      refine ⟨kept, hall.weaken fun hb => ?_, fun r' hr => by cases hr⟩
      obtain ⟨b, hb⟩ := hb
      cases hb
    · obtain ⟨kept₁, hkept₁, hpre₁⟩ := expungeRound_hears hround
      obtain ⟨kept₂, hkept₂, hpre₂⟩ := ih hrest
      refine ⟨kept₁ ++ kept₂, (hkept₁.append hkept₂).weaken fun hb => ?_, fun r' hr => ?_⟩
      · obtain ⟨b, hb⟩ := hb
        have hback : r₁.1 <+: r.1 := hpre₂ (r.1, b) hb
        have hsame : r₁.1 = r.1 :=
          hback.eq_of_length_le (hpre₁ _ rfl).length_le
        exact ⟨⟨r₁.2, by rw [← hsame]⟩, b, by rw [hb, hsame]⟩
      · exact (hpre₁ _ rfl).trans (hpre₂ _ hr)

theorem expungeItems_hears {items : List Item} {out : Except Exc (List Exc)}
    (h : (expungeItems cfg api inboxId mdef items).Hears exec rely s heard out s') :
    ∃ kept, Removes cfg api inboxId mdef items heard (out = .ok []) kept := by
  have hbody : ∀ {s₁ heard₁ s₂ r}, ((Coro.foldEach (expungeRound cfg api inboxId mdef) ([], false)
      items).bind fun r => if r.2 then (perform (.bump (inboxId, mdef.name))).bind fun _ =>
        Coro.ret r.1 else Coro.ret r.1).Hears exec rely s₁ heard₁ r s₂ →
      ∃ kept, Removes cfg api inboxId mdef items heard₁ (r = .ok []) kept := by
    intro s₁ heard₁ s₂ r hx
    rcases hx.of_bind with ⟨e, rfl, hloop⟩ | ⟨r₁, s₃, heard₃, heard₄, rfl, hloop, hend⟩
    · obtain ⟨kept, hkept, _⟩ := expungeRounds_hears hloop
      exact ⟨kept, hkept.weaken fun hr => by cases hr⟩
    · obtain ⟨kept, hkept, _⟩ := expungeRounds_hears hloop
      have hret : heard₄ = [] ∧ r = .ok r₁.1 := by
        split at hend
        · have hend := hend.of_perform
          cases hend
          exact ⟨rfl, rfl⟩
        · cases hend
          exact ⟨rfl, rfl⟩
      obtain ⟨rfl, rfl⟩ := hret
      rw [List.append_nil]
      exact ⟨kept, hkept.weaken fun hr => ⟨r₁.2, by rw [← Except.ok.inj hr]⟩⟩
  rw [expungeItems, mutation] at h
  have h := Coro.Hears.of_perform h
  rcases Coro.Hears.of_bind h with ⟨e, rfl, hattempt⟩ | ⟨r, s₁, heard₁, heard₂, rfl, hattempt, h⟩
  · obtain ⟨r, hout, _⟩ := hattempt.of_attempt
    cases hout
  · obtain ⟨r', hout, hx⟩ := hattempt.of_attempt
    cases hout
    have h := Coro.Hears.of_perform h
    obtain ⟨rfl, rfl, _⟩ := h.ofExcept
    rw [List.append_nil]
    exact hbody hx

end Mailbox
end ImapGateway
