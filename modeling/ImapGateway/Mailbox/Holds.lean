/-
The labels held and the labels upstream has.

Upstream applies PATCHes one after the other, and other clients write labels between them.  The
answer to a PATCH carries the labels it left, and the answer processed last decides what is
held.  So the labels held are those upstream has unless an older answer was processed last, or
another client has written since.
-/
import ImapGateway.Mailbox.Conduct

namespace ImapGateway
namespace Mailbox

open Async

/-- The action processes the answer to a PATCH. -/
def Act.settles : Act → Bool
  | copyItem _ _ _ | setFlagCommit _ _ _ _ _ | expungeCommit _ _ _ => true
  | _ => false

/-- The action takes up a PATCH or gives one up. -/
def Act.takesUp : Act → Bool
  | sendPatch _ | losePatch => true
  | _ => false

def Patch.key (p : Patch) : String × String := (p.inboxId, p.messageId)

/-- The answer to the PATCH of the message that was applied last is still to come. -/
def Service.Awaits (s : Service) (m : String × String) : Prop :=
  ∃ t p, s.aux.patches t = some p ∧ p.key = m ∧ p.applied = some (s.aux.remote m)

/-- The labels held for the message, if the hold lasts, are those upstream has. -/
def Service.HoldsTrue (s : Service) (m : String × String) : Prop :=
  ∀ hold, s.labelOverrides m = some hold → s.time ≤ hold.expires →
    hold.labels = (s.aux.remote m).2

/-- A PATCH that has been applied is dropped, its answer unread. -/
def Happening.Drops (x : Happening) : Prop :=
  x.action.takesUp = true ∧ ∃ p, x.before.aux.patches x.tid = some p ∧ p.applied ≠ none

/-- An answer is processed after its message was written again and left with other labels, by
another client or by a PATCH whose answer has been processed. -/
def Happening.Overtaken (x : Happening) : Prop :=
  x.action.settles = true ∧ ∃ p n labels, x.before.aux.patches x.tid = some p ∧
    p.applied = some (n, labels) ∧ labels ≠ (x.before.aux.remote p.key).2 ∧
      ¬x.before.Awaits p.key

/-- `set_flag` is answered with no labels while the item has others to be left with. -/
def Happening.Guesses (x : Happening) : Prop :=
  ∃ key item add remove result, x.action = .setFlagCommit key item add remove result ∧
    result.labels.getD [] = [] ∧ (item.labels ∪ add.toFinset) \ remove.toFinset ≠ ∅

/-- Another client leaves a message with other labels than those the gateway holds for it. -/
def Happening.Intrudes (x : Happening) : Prop :=
  ∃ inboxId messageId labels hold, x.action = .relabel inboxId messageId labels ∧
    x.before.labelOverrides (inboxId, messageId) = some hold ∧ x.before.time ≤ hold.expires ∧
      hold.labels ≠ labels.toFinset

/-- The listing goes on with the message shown under `labels`, or passed over for them. -/
def Happening.ShowsAs (cfg : Config) (x : Happening) (l : Listing) (m : MessageJson)
    (labels : Labels) : Prop :=
  (x.after cfg).listings x.tid = some { l with
    seen := l.seen ++ [orEmpty m.messageId]
    entries := l.entries ++
      if l.mdef.excludeLabels.any (· ∈ labels) then [] else [Service.messageEntry cfg m labels] }

/-- A message that no PATCH is under way for, listed with the labels upstream has, is shown
with them. -/
def LabelsConverge (cfg : Config) (hs : List Happening) : Prop :=
  ∀ x ∈ hs, ∀ m l, x.action = .collectMessage m → x.before.listings x.tid = some l →
    orEmpty m.messageId ∉ l.seen →
    (∀ t p, x.before.aux.patches t = some p → p.key ≠ (l.inboxId, orEmpty m.messageId)) →
    labelSet m.labels = (x.before.aux.remote (l.inboxId, orEmpty m.messageId)).2 →
    x.ShowsAs cfg l m (x.before.aux.remote (l.inboxId, orEmpty m.messageId)).2

section

variable {cfg : Config} {R : Regime} {s s' s₀ : Service} {hs : List Happening} {t : Tid} {p : Act}
  {m : String × String} {x : Happening}

/-! ## What the actions do -/

/-- The PATCHes and the labels upstream has stay as they are. -/
structure SamePatches (s s' : Service) : Prop where
  time : s.time ≤ s'.time
  patches : s'.aux.patches = s.aux.patches
  remote : s'.aux.remote = s.aux.remote
  applied : s'.aux.applied = s.aux.applied

/-- The actions that change neither PATCHes nor holds. -/
def Act.patchFree : Act → Bool
  | collectMessage _ | copyItem _ _ _ | setFlagCommit _ _ _ _ _ | expungeCommit _ _ _
  | sendPatch _ | losePatch | applyPatch | relabel _ _ _ => false
  | _ => true

theorem Act.exec_patchFree (cfg : Config) (t : Tid) (h : s.store.Ok) (hp : p.patchFree = true) :
    SamePatches s (p.exec cfg t s) ∧ (p.exec cfg t s).labelOverrides = s.labelOverrides := by
  cases p with
  | publish =>
    cases hl : s.listings t with
    | none =>
      rw [Act.exec, Service.publish_none hl]
      exact ⟨⟨Nat.le_refl _, rfl, rfl, rfl⟩, rfl⟩
    | some l =>
      obtain ⟨store, watermark, v, _, heq⟩ := Service.publish_eq h hl
      rw [Act.exec, heq]
      exact ⟨⟨Nat.le_refl _, rfl, rfl, rfl⟩, rfl⟩
  | collectDraft d rendered =>
    simp only [Act.exec, Service.collectDraft]
    split <;> exact ⟨⟨Nat.le_refl _, rfl, rfl, rfl⟩, rfl⟩
  | reap n =>
    simp only [Act.exec, Service.reap]
    split <;> exact ⟨⟨Nat.le_refl _, rfl, rfl, rfl⟩, rfl⟩
  | tick d => exact ⟨⟨Nat.le_add_right _ _, rfl, rfl, rfl⟩, rfl⟩
  | collectMessage | copyItem | setFlagCommit | expungeCommit | sendPatch | losePatch
  | applyPatch | relabel => cases hp
  | _ => exact ⟨⟨Nat.le_refl _, rfl, rfl, rfl⟩, rfl⟩

/-- Collecting a message only ever drops its hold. -/
theorem collectMessage_patches (cfg : Config) (s : Service) (t : Tid) (msg : MessageJson) :
    SamePatches s (s.collectMessage cfg t msg) ∧
      ∀ m, (s.collectMessage cfg t msg).labelOverrides m = s.labelOverrides m ∨
        (s.collectMessage cfg t msg).labelOverrides m = none := by
  rcases Service.collectMessage_cases cfg s t msg with heq | ⟨l, _, _, heq⟩
  · rw [heq]
    exact ⟨⟨Nat.le_refl _, rfl, rfl, rfl⟩, fun m => .inl rfl⟩
  · rw [heq]
    refine ⟨⟨Nat.le_refl _, rfl, rfl, rfl⟩, fun m => ?_⟩
    simp only [Service.effectiveLabels]
    split
    · exact .inl rfl
    · split
      · by_cases hm : m = (l.inboxId, orEmpty msg.messageId)
        · right
          rw [hm]
          exact Function.update_self ..
        · exact .inl (Function.update_of_ne hm ..)
      · exact .inl rfl

/-- The answer to a PATCH of `m` that left `labels` is processed. -/
structure Settles (t : Tid) (m : String × String) (labels : Labels) (s s' : Service) : Prop where
  time : s'.time = s.time
  patches : s'.aux.patches = Function.update s.aux.patches t none
  remote : s'.aux.remote = s.aux.remote
  applied : s'.aux.applied = s.aux.applied
  holds : s'.labelOverrides =
    Function.update s.labelOverrides m (some ⟨s.time + overrideTtl, labels⟩)

theorem Act.exec_copyItem (cfg : Config) (t : Tid) (h : s.store.Ok) (inboxId : String) (item : Item)
    (result : PatchResult) :
    Settles t (inboxId, item.remoteId) (Service.trashedLabels item result) s
      ((Act.copyItem inboxId item result).exec cfg t s) := by
  obtain ⟨store, watermark, _, _, heq⟩ := Service.copyItem_eq h t inboxId item result
  obtain ⟨heldFrom, hsettle⟩ := Service.settlePatch_eq (s.copyItem t inboxId item result) t
  rw [Act.exec, hsettle, heq]
  exact ⟨rfl, rfl, rfl, rfl, rfl⟩

theorem Act.exec_setFlagCommit (cfg : Config) (t : Tid) (s : Service) (key : Key) (item : Item)
    (add remove : List String) (result : PatchResult) :
    Settles t (key.1, item.remoteId) (Service.flaggedLabels item add remove result) s
      ((Act.setFlagCommit key item add remove result).exec cfg t s) := by
  obtain ⟨heldFrom, hsettle⟩ :=
    Service.settlePatch_eq (s.setFlagCommit key item add remove result) t
  rw [Act.exec, hsettle]
  simp only [Service.setFlagCommit, Service.replaceItem]
  split
  · exact ⟨rfl, rfl, rfl, rfl, rfl⟩
  · split <;> exact ⟨rfl, rfl, rfl, rfl, rfl⟩

theorem Act.exec_expungeCommit (cfg : Config) (t : Tid) (s : Service) (inboxId : String)
    (item : Item) (result : PatchResult) :
    Settles t (inboxId, item.remoteId) (Service.trashedLabels item result) s
      ((Act.expungeCommit inboxId item result).exec cfg t s) := by
  obtain ⟨heldFrom, hsettle⟩ := Service.settlePatch_eq (s.expungeCommit inboxId item result) t
  rw [Act.exec, hsettle]
  exact ⟨rfl, rfl, rfl, rfl, rfl⟩

/-- Upstream applies the PATCH of `t`, if it has one to apply. -/
theorem Service.applyPatch_cases (s : Service) (t : Tid) :
    s.applyPatch t = s ∨ ∃ p labels, s.aux.patches t = some p ∧ p.applied = none ∧
      labels = ((s.aux.remote p.key).2 ∪ p.add.toFinset) \ p.remove.toFinset ∧
      s.applyPatch t = { s with
        aux := { s.aux with
          applied := s.aux.applied + 1,
          remote := Function.update s.aux.remote p.key (s.aux.applied + 1, labels),
          patches := Function.update s.aux.patches t
            (some { p with applied := some (s.aux.applied + 1, labels) }) } } := by
  rw [Service.applyPatch]
  split
  · rename_i inboxId messageId add remove hp
    exact .inr ⟨_, _, hp, rfl, rfl, rfl⟩
  · exact .inl rfl

/-! ## The books upstream keeps -/

/-- A PATCH carries a number given out already, if it is the last one of its message the labels
that message has, and always the labels it added. -/
structure Patch.Ok (s : Service) (p : Patch) (n : Nat) (labels : Labels) : Prop where
  number : n ≤ s.aux.applied
  last : n = (s.aux.remote p.key).1 → labels = (s.aux.remote p.key).2
  added : p.add.toFinset \ p.remove.toFinset ⊆ labels

/-- The labels held for a message are those upstream has, or will be once an answer comes. -/
structure Booked (s : Service) : Prop where
  remote : ∀ m, (s.aux.remote m).1 ≤ s.aux.applied
  patch : ∀ t p n labels, s.aux.patches t = some p → p.applied = some (n, labels) →
    p.Ok s n labels
  caught : ∀ m, s.HoldsTrue m ∨ s.Awaits m

theorem Service.Awaits.same (h : s.Awaits m) (hs : SamePatches s s') : s'.Awaits m := by
  obtain ⟨t, p, hp, hkey, happlied⟩ := h
  refine ⟨t, p, ?_, hkey, ?_⟩
  · rw [hs.patches, hp]
  · rw [hs.remote, happlied]

/-- The PATCH of another coroutine is still awaited. -/
theorem Service.Awaits.others (h : s.Awaits m) (hremote : s'.aux.remote = s.aux.remote)
    (hothers : ∀ u, u ≠ t → s'.aux.patches u = s.aux.patches u)
    (hown : ∀ p, s.aux.patches t = some p → p.key = m → p.applied ≠ some (s.aux.remote m)) :
    s'.Awaits m := by
  obtain ⟨u, p, hp, hkey, happlied⟩ := h
  have hu : u ≠ t := by
    rintro rfl
    exact hown p hp hkey happlied
  refine ⟨u, p, ?_, hkey, ?_⟩
  · rw [hothers u hu, hp]
  · rw [hremote, happlied]

theorem Booked.same (h : Booked s) (hs : SamePatches s s')
    (hholds : ∀ m, s'.labelOverrides m = s.labelOverrides m ∨ s'.labelOverrides m = none) :
    Booked s' where
  remote m := by
    rw [hs.remote, hs.applied]
    exact h.remote m
  patch t p n labels hp ha := by
    rw [hs.patches] at hp
    have hok := h.patch t p n labels hp ha
    exact ⟨by rw [hs.applied]; exact hok.number, by rw [hs.remote]; exact hok.last, hok.added⟩
  caught m := by
    rcases h.caught m with hright | hawaits
    · left
      intro hold hm hlasts
      rw [hs.remote]
      rcases hholds m with hsame | hnone
      · exact hright hold (hsame ▸ hm) (Nat.le_trans hs.time hlasts)
      · rw [hnone] at hm
        cases hm
    · exact .inr (hawaits.same hs)

theorem Booked.patchFree (h : Booked s) (hok : s.store.Ok) (hp : p.patchFree = true) :
    Booked (p.exec cfg t s) := by
  obtain ⟨hsame, hholds⟩ := Act.exec_patchFree cfg t hok hp
  exact h.same hsame fun m => .inl (congrFun hholds m)

/-- Upstream applies a PATCH, and its answer is awaited. -/
theorem Booked.applyPatch (h : Booked s) (t : Tid) : Booked (s.applyPatch t) := by
  rcases s.applyPatch_cases t with heq | ⟨p, labels, hp, hnone, hlabels, heq⟩
  · rw [heq]
    exact h
  rw [heq]
  refine ⟨fun m => ?_, fun u q n labels' hq ha => ?_, fun m => ?_⟩
  · by_cases hm : m = p.key
    · subst hm
      simp
    · simpa [Function.update_of_ne hm] using Nat.le_succ_of_le (h.remote m)
  · by_cases hu : u = t
    · subst hu
      simp only [Function.update_self, Option.some.injEq] at hq
      subst hq
      simp only [Option.some.injEq, Prod.mk.injEq] at ha
      obtain ⟨rfl, rfl⟩ := ha
      refine ⟨Nat.le_refl _, fun _ => ?_, ?_⟩
      · show labels = (Function.update s.aux.remote p.key (s.aux.applied + 1, labels) p.key).2
        rw [Function.update_self]
      · show p.add.toFinset \ p.remove.toFinset ⊆ labels
        rw [hlabels]
        exact Finset.sdiff_subset_sdiff Finset.subset_union_right (Finset.Subset.refl _)
    · simp only [Function.update_of_ne hu] at hq
      have hok := h.patch u q n labels' hq ha
      have hnumber := hok.number
      refine ⟨Nat.le_succ_of_le hnumber, fun hlast => ?_, hok.added⟩
      by_cases hkey : q.key = p.key
      · rw [hkey] at hlast
        simp only [Function.update_self] at hlast
        omega
      · simp only [Function.update_of_ne hkey] at hlast ⊢
        exact hok.last hlast
  · by_cases hm : m = p.key
    · subst hm
      right
      refine ⟨t, _, Function.update_self .., rfl, ?_⟩
      simp
    · rcases h.caught m with hright | ⟨u, q, hq, hkey, ha⟩
      · left
        intro hold hhold hlasts
        simp only [Function.update_of_ne hm]
        exact hright hold hhold hlasts
      · right
        have hu : u ≠ t := by
          rintro rfl
          rw [hp] at hq
          cases hq
          exact hm hkey.symm
        refine ⟨u, q, ?_, hkey, ?_⟩
        · simp only [Function.update_of_ne hu]
          exact hq
        · simp only [Function.update_of_ne hm]
          exact ha

/-- Another client writes labels, of a message that is not held under other ones. -/
theorem Booked.relabel (h : Booked s) {inboxId messageId : String} {labels : List String}
    (hheld : ∀ hold, s.labelOverrides (inboxId, messageId) = some hold → s.time ≤ hold.expires →
      hold.labels = labels.toFinset) : Booked (s.relabel inboxId messageId labels) where
  remote m := by
    by_cases hm : m = (inboxId, messageId)
    · subst hm
      simp [Service.relabel]
    · simpa [Service.relabel, Function.update_of_ne hm] using Nat.le_succ_of_le (h.remote m)
  patch u q n labels' hq ha := by
    have hok := h.patch u q n labels' hq ha
    have hnumber := hok.number
    refine ⟨Nat.le_succ_of_le hnumber, fun hlast => ?_, hok.added⟩
    by_cases hkey : q.key = (inboxId, messageId)
    · rw [hkey] at hlast
      simp only [Service.relabel, Function.update_self] at hlast
      omega
    · simp only [Service.relabel, Function.update_of_ne hkey] at hlast ⊢
      exact hok.last hlast
  caught m := by
    by_cases hm : m = (inboxId, messageId)
    · subst hm
      left
      intro hold hhold hlasts
      simp only [Service.relabel, Function.update_self]
      exact hheld hold hhold hlasts
    · rcases h.caught m with hright | ⟨u, q, hq, hkey, ha⟩
      · left
        intro hold hhold hlasts
        simp only [Service.relabel, Function.update_of_ne hm]
        exact hright hold hhold hlasts
      · right
        refine ⟨u, q, hq, hkey, ?_⟩
        simp only [Service.relabel, Function.update_of_ne hm]
        exact ha

/-- A coroutine takes up a PATCH, or gives up one that was not applied. -/
theorem Booked.takeUp (h : Booked s) {q : Option Patch} (hq : ∀ p, q = some p → p.applied = none)
    (hdrops : ∀ p, s.aux.patches t = some p → p.applied = none) : Booked (s.setPatch t q) where
  remote := h.remote
  patch u p n labels hp ha := by
    by_cases hu : u = t
    · subst hu
      simp only [Service.setPatch, Function.update_self] at hp
      rw [hq p hp] at ha
      cases ha
    · simp only [Service.setPatch, Function.update_of_ne hu] at hp
      have hok := h.patch u p n labels hp ha
      exact ⟨hok.number, hok.last, hok.added⟩
  caught m := by
    rcases h.caught m with hright | hawaits
    · exact .inl hright
    · right
      have hothers : ∀ u, u ≠ t → (s.setPatch t q).aux.patches u = s.aux.patches u :=
        fun u hu => Function.update_of_ne hu ..
      have hremote : (s.setPatch t q).aux.remote = s.aux.remote := rfl
      apply hawaits.others hremote hothers
      · intro p hp _
        rw [hdrops p hp]
        simp

/-- The answer to a PATCH is processed, and it has not been overtaken. -/
theorem Booked.settle (h : Booked s) {patch : Patch} {n : Nat} {labels : Labels}
    (hp : s.aux.patches t = some patch) (ha : patch.applied = some (n, labels))
    (hs : Settles t patch.key labels s s')
    (hover : labels ≠ (s.aux.remote patch.key).2 → s.Awaits patch.key) : Booked s' where
  remote m := by
    rw [hs.remote, hs.applied]
    exact h.remote m
  patch u q n' labels' hq ha' := by
    rw [hs.patches] at hq
    have hu : u ≠ t := by
      rintro rfl
      rw [Function.update_self] at hq
      cases hq
    rw [Function.update_of_ne hu] at hq
    have hok := h.patch u q n' labels' hq ha'
    exact ⟨by rw [hs.applied]; exact hok.number, by rw [hs.remote]; exact hok.last, hok.added⟩
  caught m := by
    have hothers : ∀ u, u ≠ t → s'.aux.patches u = s.aux.patches u := by
      intro u hu
      rw [hs.patches, Function.update_of_ne hu]
    by_cases hm : m = patch.key
    · subst hm
      by_cases hlabels : labels = (s.aux.remote patch.key).2
      · left
        intro hold hhold _
        rw [hs.holds, Function.update_self, Option.some.injEq] at hhold
        rw [hs.remote, ← hlabels, ← hhold]
      · right
        apply (hover hlabels).others hs.remote hothers
        intro q hq _ heq
        rw [hp, Option.some.injEq] at hq
        rw [← hq, ha, Option.some.injEq] at heq
        exact hlabels (congrArg Prod.snd heq)
    · rcases h.caught m with hright | hawaits
      · left
        intro hold hhold hlasts
        rw [hs.holds, Function.update_of_ne hm] at hhold
        rw [hs.time] at hlasts
        rw [hs.remote]
        exact hright hold hhold hlasts
      · right
        apply hawaits.others hs.remote hothers
        intro q hq hkey _
        rw [hp, Option.some.injEq] at hq
        rw [← hq] at hkey
        exact hm hkey.symm

/-! ## The labels processed are those the PATCH left -/

/-- A PATCH that adds the label `trash` left it. -/
theorem trashedLabels_eq {item : Item} {result : PatchResult} {patch : Patch} {n : Nat}
    {labels : Labels} (hlabels : labelSet result.labels = labels) (hok : patch.Ok s n labels)
    (hadd : patch.add = ["trash"]) (hremove : patch.remove = []) :
    Service.trashedLabels item result = labels := by
  have hmem : "trash" ∈ labels := by
    apply hok.added
    simp [hadd, hremove]
  simp [Service.trashedLabels, hlabels, hmem]

theorem flaggedLabels_eq {item : Item} {add remove : List String} {result : PatchResult}
    (h : result.labels.getD [] = [] → (item.labels ∪ add.toFinset) \ remove.toFinset = ∅) :
    Service.flaggedLabels item add remove result = labelSet result.labels := by
  by_cases hnone : result.labels.getD [] = []
  · rw [Service.flaggedLabels, if_pos hnone, h hnone, labelSet, hnone]
    rfl
  · rw [Service.flaggedLabels, if_neg hnone]

/-- Under honest answers, what is held afterwards is what the PATCH left. -/
theorem Booked.settles (h : Booked s) (hi : Inv cfg R s) (hR : R.honest) (hp : p.settles = true)
    (ho : Owes cfg R t p s) (hguess : ¬Happening.Guesses ⟨t, p, s⟩) :
    ∃ patch n labels, s.aux.patches t = some patch ∧ patch.applied = some (n, labels) ∧
      Settles t patch.key labels s (p.exec cfg t s) := by
  cases p with
  | copyItem inboxId item result =>
    obtain ⟨n, labels, hlabels, hpatch⟩ := ho.1.answered hR
    have hheld : Service.trashedLabels item result = labels :=
      trashedLabels_eq hlabels (h.patch t _ n labels hpatch rfl) rfl rfl
    exact ⟨_, n, labels, hpatch, rfl, hheld ▸ Act.exec_copyItem cfg t hi.store inboxId item result⟩
  | setFlagCommit key item add remove result =>
    obtain ⟨n, labels, hlabels, hpatch⟩ := ho.2.answered hR
    have hheld : Service.flaggedLabels item add remove result = labels := by
      rw [← hlabels]
      apply flaggedLabels_eq
      intro hnone
      by_contra hne
      exact hguess ⟨key, item, add, remove, result, rfl, hnone, hne⟩
    exact ⟨_, n, labels, hpatch, rfl,
      hheld ▸ Act.exec_setFlagCommit cfg t s key item add remove result⟩
  | expungeCommit inboxId item result =>
    obtain ⟨n, labels, hlabels, hpatch⟩ := ho.answered hR
    have hheld : Service.trashedLabels item result = labels :=
      trashedLabels_eq hlabels (h.patch t _ n labels hpatch rfl) rfl rfl
    exact ⟨_, n, labels, hpatch, rfl, hheld ▸ Act.exec_expungeCommit cfg t s inboxId item result⟩
  | _ => cases hp

/-! ## Histories -/

/-- Nothing is held, and nothing has been applied. -/
structure Unpatched (s : Service) : Prop where
  holds : ∀ m, s.labelOverrides m = none
  patches : ∀ t, s.aux.patches t = none
  remote : ∀ m, (s.aux.remote m).1 = 0

theorem Unpatched.booked (h : Unpatched s) : Booked s where
  remote m := by
    rw [h.remote]
    exact Nat.zero_le _
  patch t p n labels hp _ := by
    rw [h.patches] at hp
    cases hp
  caught m := by
    left
    intro hold hhold _
    rw [h.holds] at hhold
    cases hhold

/-- What happened keeps the books. -/
theorem Booked.step (h : Booked x.before) (hi : Inv cfg R x.before)
    (ho : Owes cfg R x.tid x.action x.before) (hR : R.honest) (hdrops : ¬x.Drops)
    (hover : ¬x.Overtaken) (hguess : ¬x.Guesses) (halone : ¬x.Intrudes) :
    Booked (x.after cfg) := by
  obtain ⟨t, p, s⟩ := x
  have hgiven : p.takesUp = true → ∀ q, s.aux.patches t = some q → q.applied = none := by
    intro hp q hq
    by_contra hne
    exact hdrops ⟨hp, q, hq, hne⟩
  by_cases hp : p.settles = true
  · obtain ⟨patch, n, labels, hpatch, ha, hsettles⟩ := h.settles hi hR hp ho hguess
    apply h.settle hpatch ha hsettles
    intro hne
    by_contra hawaits
    exact hover ⟨hp, patch, n, labels, hpatch, ha, hne, hawaits⟩
  · cases p with
    | sendPatch q => exact h.takeUp (fun p hq => Option.some.inj hq ▸ ho) (hgiven rfl)
    | losePatch => exact h.takeUp (by simp) (hgiven rfl)
    | applyPatch => exact h.applyPatch t
    | relabel inboxId messageId labels =>
      apply h.relabel
      intro hold hhold hlasts
      by_contra hne
      exact halone ⟨inboxId, messageId, labels, hold, rfl, hhold, hlasts, hne⟩
    | collectMessage msg =>
      obtain ⟨hsame, hholds⟩ := collectMessage_patches cfg s t msg
      exact h.same hsame hholds
    | copyItem | setFlagCommit | expungeCommit => exact absurd rfl hp
    | _ =>
      exact h.patchFree hi.store rfl

theorem Conducted.booked (h : Conducted cfg R s₀ hs s) (h₀ : Unpatched s₀) (hR : R.honest)
    (hdrops : ∀ x ∈ hs, ¬x.Drops) (hover : ∀ x ∈ hs, ¬x.Overtaken)
    (hguess : ∀ x ∈ hs, ¬x.Guesses) (halone : ∀ x ∈ hs, ¬x.Intrudes) : Booked s :=
  (h.always h₀.booked fun x hx hi hb => hb.step hi (h.owed x hx) hR (hdrops x hx) (hover x hx)
    (hguess x hx) (halone x hx)).2

/-- With no PATCH of its message under way, a hold that is true shows the labels upstream has. -/
theorem Service.HoldsTrue.effectiveLabels {i id : String} (h : s.HoldsTrue (i, id))
    (listed : Labels) (htrue : listed = (s.aux.remote (i, id)).2) :
    (s.effectiveLabels i id listed).1 = (s.aux.remote (i, id)).2 := by
  rw [Service.effectiveLabels]
  split
  · exact htrue
  · rename_i hold hhold
    split
    · exact htrue
    · rename_i hlasts
      exact h hold hhold (Nat.le_of_not_lt fun hlt => hlasts (.inr hlt))

/-- Where no answer is overtaken and no hold is written over by others, the labels shown are in
the end those upstream has. -/
theorem Conducted.labelsConverge (h : Conducted cfg R s₀ hs s) (h₀ : Unpatched s₀)
    (hR : R.honest) (hdrops : ∀ x ∈ hs, ¬x.Drops) (hover : ∀ x ∈ hs, ¬x.Overtaken)
    (hguess : ∀ x ∈ hs, ¬x.Guesses) (halone : ∀ x ∈ hs, ¬x.Intrudes) :
    LabelsConverge cfg hs := by
  intro x hx msg l hp hl hseen hfree htrue
  obtain ⟨newer, older, rfl⟩ := List.append_of_mem hx
  have hin : ∀ y ∈ older, y ∈ newer ++ x :: older := by
    intro y hy
    exact List.mem_append_right _ (List.mem_cons_of_mem _ hy)
  have hbooked : Booked x.before := h.before.booked h₀ hR (fun y hy => hdrops y (hin y hy))
    (fun y hy => hover y (hin y hy)) (fun y hy => hguess y (hin y hy)) fun y hy =>
      halone y (hin y hy)
  have hholds : x.before.HoldsTrue (l.inboxId, orEmpty msg.messageId) := by
    rcases hbooked.caught (l.inboxId, orEmpty msg.messageId) with hholds | ⟨t, p, hpatch, hkey, _⟩
    · exact hholds
    · exact absurd hkey (hfree t p hpatch)
  have hshown := hholds.effectiveLabels _ htrue
  show (x.action.exec cfg x.tid x.before).listings x.tid = _
  rw [hp, Act.exec, Service.collectMessage_unseen cfg hl hseen]
  simp only [Function.update_self, Service.messageEntries, hshown]

end

end Mailbox
end ImapGateway
