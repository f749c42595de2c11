/-
Two listings of one mailbox that show the same in different orders.

The one thing a listing takes from before it besides the store, the pins and the holds
is the rendering of a draft in the byte cache.  What is cached under the id and the
version of a draft is believed to be its rendering.  Where it is, nothing depends on the
order; where upstream has changed a draft without changing its version, the order of
arrival decides what is still cached.
-/
import ImapGateway.Imap.Runs
import ImapGateway.Mailbox.Arrivals

namespace ImapGateway
namespace Imap

open Async Mailbox

variable {cfg : Config} {inboxId : String}

/-- A listing numbers what it was shown and what was pinned, and nothing else. -/
structure Numbering (cfg : Config) (inboxId : String) (mdef : MailboxDef)
    (content : String → Except Exc DraftJson) (s s' : Service) (steps : Mailbox.Steps)
    (snap : Snapshot) (entries : List Entry) : Prop where
  items : snap.items = itemsOf s'.store (inboxId, mdef.name) entries
  numbered : Numbered s.store s'.store (inboxId, mdef.name) entries
  origin : ∀ e ∈ entries, Origin cfg inboxId content steps (s.pinned (inboxId, mdef.name)) e

/-- Listings that show the same messages or drafts, in any order and on any pages, leave
the same store, pins and snapshot. -/
theorem listing_order_irrelevant (b : Boot) {before : List Happening} {t₁ t₂ : Tid}
    {api₁ api₂ : Client} {mdef : MailboxDef} {content : String → Except Exc DraftJson}
    {s₁ s₂ s₁' s₂' : Service} {steps₁ steps₂ : Mailbox.Steps} {snap₁ snap₂ : Snapshot}
    (hs : History cfg b.service before s₁)
    (h₁ : ListingRun cfg t₁ api₁ inboxId mdef content s₁ steps₁ snap₁ s₁')
    (h₂ : ListingRun cfg t₂ api₂ inboxId mdef content s₂ steps₂ snap₂ s₂')
    (hview : SameView (inboxId, mdef.name) s₁ s₂) (hholds : s₂.labelOverrides = s₁.labelOverrides)
    (hmessages : (messagesOf steps₁).Perm (messagesOf steps₂))
    (hdrafts : (draftsOf steps₁).Perm (draftsOf steps₂)) :
    Agreement (inboxId, mdef.name) s₁' s₂' snap₁ snap₂ ∧
      ∃ entries, Numbering cfg inboxId mdef content s₁ s₁' steps₁ snap₁ entries := by
  have hok₁ : s₁.store.Ok := hs.storeOk b.ok
  constructor
  · exact h₁.agree h₂ hok₁ hview hholds hmessages hdrafts
  · have hpins := hs.pinsOk b.ok
      (fun _ => ⟨List.nodup_nil, fun _ hp => absurd hp List.not_mem_nil⟩) (inboxId, mdef.name)
    obtain ⟨entries, hitems, hnumbered, horigin⟩ := h₁.numbers hok₁ hpins
    exact ⟨entries, hitems, hnumbered, horigin⟩

/-! ## Runs -/

def versioned (id text : String) : DraftJson := { demoDraft id text with updatedAt := some "v" }

def fetched (text id : String) : Except Exc DraftJson :=
  .ok (versioned id (if id = "d1" then "one" else text))

/-- An upstream with a draft `d1`, and a draft `d2` of the given text, that lists `pages`. -/
def draftsAnswer (pages : Option String → Page DraftJson) (text : String) : (q : Req) → q.Answer
  | .listDrafts _ _ token => .ok (pages token)
  | .getDraft _ _ id => fetched text id
  | .authMe _ => .error .internal
  | .getInbox _ _ => .error .internal
  | .listMessages _ _ _ _ => .error .internal
  | .createDraft _ _ _ _ => .error .internal
  | .deleteDraft _ _ _ => .error .internal
  | .updateLabels _ _ _ _ _ => .error .internal
  | .getRawMeta _ _ _ => .error .internal
  | .download _ _ => .error .internal
  | .task _ => .error .internal
  | .deferred _ => .error .internal
  | .drain => .error .internal

def listDraftsBy (pages : Option String → Page DraftJson) (text : String) (s : Service) :
    Mailbox.Steps × Except Exc Snapshot × Service :=
  (doSync demoConfig (.task 0) ⟨0, 0, "k"⟩ "a@x" drafts).play
    (Mailbox.Act.exec demoConfig (.task 0)) (draftsAnswer pages text) s

def onePage : Option String → Page DraftJson :=
  fun _ => ⟨[versioned "d1" "", versioned "d2" ""], none⟩

def twoPages : Option String → Page DraftJson
  | none => ⟨[versioned "d2" ""], some "p"⟩
  | some _ => ⟨[versioned "d1" ""], none⟩

theorem listDraftsBy_fetched (pages : Option String → Page DraftJson) (text : String)
    (s : Service) : FetchedFrom (fetched text) (listDraftsBy pages text s).1 :=
  fun _ _ _ _ ha => Coro.play_heard ha

theorem listDraftsBy_ends {pages : Option String → Page DraftJson} {text : String} {s : Service}
    (h : (listDraftsBy pages text s).2.1.toBool = true) :
    ∃ snap, (listDraftsBy pages text s).2.1 = .ok snap := by
  cases hout : (listDraftsBy pages text s).2.1 with
  | ok snap => exact ⟨snap, rfl⟩
  | error e =>
    rw [hout] at h
    cases h

theorem listDraftsBy_takes {rely : Service → Service → Prop} (hrely : ∀ s, rely s s)
    {pages : Option String → Page DraftJson} {text : String} {s : Service} {snap : Snapshot}
    (hout : (listDraftsBy pages text s).2.1 = .ok snap) :
    (doSync demoConfig (.task 0) ⟨0, 0, "k"⟩ "a@x" drafts).Takes
      (Mailbox.Act.exec demoConfig (.task 0)) rely s (listDraftsBy pages text s).1 (.ok snap)
      (listDraftsBy pages text s).2.2 := by
  rw [← hout]
  exact Coro.play_takes hrely _ _ s

/-- Where nothing is cached, a run in which nobody else does anything is a listing. -/
theorem listDraftsBy_listed {pages : Option String → Page DraftJson} {text : String}
    {s : Service} {snap : Snapshot} (hout : (listDraftsBy pages text s).2.1 = .ok snap)
    (hcache : s.cache.items = []) (hdistinct : Distinct (listDraftsBy pages text s).1)
    (hapart : VersionsApart demoConfig "a@x" (fetched text)
      (draftsOf (listDraftsBy pages text s).1)) :
    ListingRun demoConfig (.task 0) ⟨0, 0, "k"⟩ "a@x" drafts (fetched text) s
      (listDraftsBy pages text s).1 snap (listDraftsBy pages text s).2.2 := by
  refine ⟨listDraftsBy_takes (fun s => .refl _ _ _ s) hout, listDraftsBy_fetched _ _ _, hdistinct,
    fun d _ data hd => ?_, hapart⟩
  rw [hcache] at hd
  cases hd

theorem listing_order_irrelevant_drafts : ∃ s₁ s₂ snap₁ snap₂,
    Agreement ("a@x", drafts.name) s₁ s₂ snap₁ snap₂ ∧ ∃ entries,
      Numbering demoConfig "a@x" drafts (fetched "two") demoBoot.service s₁
        (listDraftsBy onePage "two" demoBoot.service).1 snap₁ entries := by
  have hone : draftsOf (listDraftsBy onePage "two" demoBoot.service).1 =
      [versioned "d1" "", versioned "d2" ""] := by decide +kernel
  have htwo : draftsOf (listDraftsBy twoPages "two" demoBoot.service).1 =
      [versioned "d2" "", versioned "d1" ""] := by decide +kernel
  have hnone : messagesOf (listDraftsBy onePage "two" demoBoot.service).1 = [] := by decide +kernel
  have hnone' : messagesOf (listDraftsBy twoPages "two" demoBoot.service).1 = [] := by
    decide +kernel
  obtain ⟨snap₁, hsnap₁⟩ : ∃ snap, (listDraftsBy onePage "two" demoBoot.service).2.1 = .ok snap :=
    listDraftsBy_ends (by decide +kernel)
  obtain ⟨snap₂, hsnap₂⟩ : ∃ snap, (listDraftsBy twoPages "two" demoBoot.service).2.1 = .ok snap :=
    listDraftsBy_ends (by decide +kernel)
  have hperm : [versioned "d1" "", versioned "d2" ""].Perm [versioned "d2" "", versioned "d1" ""] :=
    .swap ..
  have hlisted₁ := listDraftsBy_listed hsnap₁ rfl ⟨by rw [hnone]; exact .nil, by rw [hone]; decide⟩
    (by rw [hone]; unfold VersionsApart; decide +kernel)
  have hlisted₂ := listDraftsBy_listed hsnap₂ rfl ⟨by rw [hnone']; exact .nil, by rw [htwo]; decide⟩
    (by rw [htwo]; unfold VersionsApart; decide +kernel)
  exact ⟨_, _, snap₁, snap₂, listing_order_irrelevant demoBoot .nil hlisted₁ hlisted₂ (.refl _ _)
    rfl (by rw [hnone, hnone']) (by rw [hone, htwo]; exact hperm)⟩

/-- A gateway with room for two texts of three letters. -/
def smallBoot : Boot := { demoBoot with maxBytes := 6 }

/-- A client has appended the draft `d2`, so it is cached. -/
def appended : Happening :=
  ⟨.task 0, .appendCommit "a@x" (versioned "d2" "two") "two".toUTF8.toList, smallBoot.service⟩

/-- Upstream has changed `d2` and not its version. Listed first, `d2` is what is cached;
listed last, it has been evicted by then. -/
theorem listing_order_matters : ∃ s before, History demoConfig smallBoot.service before s ∧
    ∃ content steps₁ steps₂ snap₁ snap₂ s₁ s₂,
      (doSync demoConfig (.task 0) ⟨0, 0, "k"⟩ "a@x" drafts).Takes
        (Mailbox.Act.exec demoConfig (.task 0)) Eq s steps₁ (.ok snap₁) s₁ ∧
      (doSync demoConfig (.task 0) ⟨0, 0, "k"⟩ "a@x" drafts).Takes
        (Mailbox.Act.exec demoConfig (.task 0)) Eq s steps₂ (.ok snap₂) s₂ ∧
      FetchedFrom content steps₁ ∧ FetchedFrom content steps₂ ∧
      ((draftsOf steps₁).map fun d => orEmpty d.draftId).Nodup ∧
      (draftsOf steps₁).Perm (draftsOf steps₂) ∧
      s₁.store.liveUid "a@x" drafts.name "d2#new0000000000000" = some 3 ∧
      s₂.store.liveUid "a@x" drafts.name "d2#new0000000000000" = none := by
  have hone : draftsOf (listDraftsBy onePage "new" (appended.after demoConfig)).1 =
      [versioned "d1" "", versioned "d2" ""] := by decide +kernel
  have htwo : draftsOf (listDraftsBy twoPages "new" (appended.after demoConfig)).1 =
      [versioned "d2" "", versioned "d1" ""] := by decide +kernel
  obtain ⟨snap₁, hsnap₁⟩ : ∃ snap,
      (listDraftsBy onePage "new" (appended.after demoConfig)).2.1 = .ok snap :=
    listDraftsBy_ends (by decide +kernel)
  obtain ⟨snap₂, hsnap₂⟩ : ∃ snap,
      (listDraftsBy twoPages "new" (appended.after demoConfig)).2.1 = .ok snap :=
    listDraftsBy_ends (by decide +kernel)
  refine ⟨_, _, .cons appended .nil, fetched "new", _, _, snap₁, snap₂, _, _,
    listDraftsBy_takes (fun s => Eq.refl s) hsnap₁, listDraftsBy_takes (fun s => Eq.refl s) hsnap₂,
    listDraftsBy_fetched _ _ _, listDraftsBy_fetched _ _ _, ?_, ?_, ?_, ?_⟩
  · rw [hone]
    decide
  · rw [hone, htwo]
    exact .swap ..
  · decide +kernel
  · decide +kernel

end Imap
end ImapGateway
