/-
The flag algebra of STORE, item by item.

STORE wants a set of flags and gets there flag by flag: `\Seen` and `\Flagged` through
the labels of the message, `\Deleted` through the marks.  The loop ends with exactly
the flags it wants, and touches no label but those of the flags that change.
-/
import ImapGateway.Mailbox.Flags
import ImapGateway.Imap.Handlers

namespace ImapGateway
namespace Imap

open Async Mailbox

/-- The flags a STORE wants an item to have that has these marks. -/
def StorePlan.result (plan : StorePlan) (permanent : List Flag) (marks : List Nat) (item : Item) :
    Flags := plan.mode.wanted permanent plan.flags (flagsOf item marks)

/-- The labels a PATCH leaves. -/
def patched (labels : Labels) (add remove : List String) : Labels :=
  (labels ∪ add.toFinset) \ remove.toFinset

/-- The item after one round of the loop over the permanent flags, where upstream has the
labels of the item. -/
def relabel (current wanted : Flags) (item : Item) (flag : Flag) : Item :=
  if decide (flag ∈ current) = decide (flag ∈ wanted) then item
  else match flagLabels flag with
    | some (add, remove) => Service.flaggedItem item
      (if flag ∈ wanted then patched item.labels add remove else patched item.labels remove add)
    | none => item

/-- The item a STORE leaves of an item. -/
def StorePlan.stored (plan : StorePlan) (permanent : List Flag) (marks : List Nat) (item : Item) :
    Item := permanent.foldl (relabel (flagsOf item marks) (plan.result permanent marks item)) item

/-! ## What STORE wants -/

theorem StoreMode.wanted_of_notMem {mode : StoreMode} {permanent flags : List Flag} {current : Flags}
    (hflags : ∀ f ∈ flags, f ∈ permanent) {f : Flag} (hf : f ∉ permanent) :
    f ∈ mode.wanted permanent flags current ↔ f ∈ current := by
  have hnot : f ∉ flags := fun hmem => hf (hflags f hmem)
  cases mode <;> simp [StoreMode.wanted, hnot, hf]

/-- Wanting the same of what is wanted changes nothing. -/
theorem StoreMode.wanted_wanted (mode : StoreMode) (permanent flags : List Flag) (current : Flags) :
    mode.wanted permanent flags (mode.wanted permanent flags current) =
      mode.wanted permanent flags current := by
  ext f
  cases mode <;> simp only [StoreMode.wanted, Finset.mem_union, Finset.mem_sdiff] <;> tauto

/-! ## One flag -/

theorem mem_messageFlags {labels : Labels} {f : Flag} : f ∈ messageFlags labels ↔
    (f = .seen ∧ "unread" ∉ labels) ∨ (f = .flagged ∧ "starred" ∈ labels) := by
  unfold messageFlags
  by_cases hseen : "unread" ∈ labels <;> by_cases hflagged : "starred" ∈ labels <;>
    simp [hseen, hflagged]

theorem mem_patched {labels : Labels} {add remove : List String} {l : String} :
    l ∈ patched labels add remove ↔ (l ∈ labels ∨ l ∈ add) ∧ l ∉ remove := by
  simp [patched]

section Relabel

variable {current wanted : Flags} {item : Item} {flag : Flag}

theorem relabel_of_iff (item : Item) (h : flag ∈ current ↔ flag ∈ wanted) :
    relabel current wanted item flag = item := by
  rw [relabel, if_pos (decide_eq_decide.mpr h)]

theorem relabel_of_none (h : flagLabels flag = none) : relabel current wanted item flag = item := by
  rw [relabel, h]
  simp

/-- Only the flags and the labels of the item change. -/
theorem relabel_frame (current wanted : Flags) (item : Item) (flag : Flag) :
    relabel current wanted item flag =
      { item with
        flags := (relabel current wanted item flag).flags
        labels := (relabel current wanted item flag).labels } := by
  unfold relabel
  split
  · rfl
  · split <;> rfl

theorem relabel_labelled (h : item.flags = messageFlags item.labels) :
    (relabel current wanted item flag).flags =
      messageFlags (relabel current wanted item flag).labels := by
  unfold relabel
  split
  · exact h
  · split
    · rfl
    · exact h

/-- A label changes only if it is one of a flag that does. -/
theorem relabel_labels {l : String}
    (h : ∀ add remove, flagLabels flag = some (add, remove) → l ∈ add ++ remove →
      (flag ∈ current ↔ flag ∈ wanted)) :
    l ∈ (relabel current wanted item flag).labels ↔ l ∈ item.labels := by
  unfold relabel
  split
  · exact Iff.rfl
  · rename_i hne
    split
    · rename_i add remove hlabels
      have hl : l ∉ add ++ remove := fun hmem => hne (decide_eq_decide.mpr (h _ _ hlabels hmem))
      rw [List.mem_append, not_or] at hl
      show l ∈ (if flag ∈ wanted then patched item.labels add remove
        else patched item.labels remove add) ↔ _
      split <;> simp [mem_patched, hl.1, hl.2]
    · exact Iff.rfl

/-- The flag of the round is as wanted afterwards. -/
theorem relabel_self {add remove : List String} (hlabels : flagLabels flag = some (add, remove))
    (hcurrent : flag ∈ item.flags ↔ flag ∈ current) :
    flag ∈ (relabel current wanted item flag).flags ↔ flag ∈ wanted := by
  by_cases h : flag ∈ current ↔ flag ∈ wanted
  · rw [relabel_of_iff _ h, hcurrent, h]
  · rw [relabel, if_neg fun heq => h (decide_eq_decide.mp heq), hlabels]
    show flag ∈ messageFlags (if flag ∈ wanted then patched item.labels add remove
      else patched item.labels remove add) ↔ _
    rw [mem_messageFlags]
    cases flag with
    | seen =>
      cases hlabels
      split <;> simp [mem_patched, *]
    | flagged =>
      cases hlabels
      split <;> simp [mem_patched, *]
    | _ => cases hlabels

/-- The other flags are as before. -/
theorem relabel_other {other : Flag} (hne : other ≠ flag)
    (hitem : item.flags = messageFlags item.labels) :
    other ∈ (relabel current wanted item flag).flags ↔ other ∈ item.flags := by
  have hlabel : ∀ l, l = "unread" ∧ flag ≠ .seen ∨ l = "starred" ∧ flag ≠ .flagged →
      (l ∈ (relabel current wanted item flag).labels ↔ l ∈ item.labels) := by
    intro l hl
    apply relabel_labels
    intro add remove hlabels hmem
    cases flag with
    | seen =>
      cases hlabels
      rcases hl with ⟨rfl, hseen⟩ | ⟨rfl, _⟩
      · exact absurd rfl hseen
      · simp at hmem
    | flagged =>
      cases hlabels
      rcases hl with ⟨rfl, _⟩ | ⟨rfl, hflagged⟩
      · simp at hmem
      · exact absurd rfl hflagged
    | _ => cases hlabels
  rw [relabel_labelled hitem, hitem, mem_messageFlags, mem_messageFlags]
  cases other with
  | seen => rw [hlabel "unread" (.inl ⟨rfl, Ne.symm hne⟩)]; simp
  | flagged => rw [hlabel "starred" (.inr ⟨rfl, Ne.symm hne⟩)]; simp
  | _ => simp

end Relabel

/-! ## The loop -/

section Loop

variable {current wanted : Flags} {item : Item} {flags : List Flag}

theorem foldl_relabel_frame (current wanted : Flags) (flags : List Flag) (item : Item) :
    flags.foldl (relabel current wanted) item =
      { item with
        flags := (flags.foldl (relabel current wanted) item).flags
        labels := (flags.foldl (relabel current wanted) item).labels } := by
  induction flags generalizing item with
  | nil => rfl
  | cons flag flags ih =>
    rw [List.foldl_cons, ih (relabel current wanted item flag)]
    have hframe := relabel_frame current wanted item flag
    generalize relabel current wanted item flag = next at hframe ⊢
    rw [hframe]

theorem foldl_relabel_labels {l : String}
    (h : ∀ flag ∈ flags, ∀ add remove, flagLabels flag = some (add, remove) → l ∈ add ++ remove →
      (flag ∈ current ↔ flag ∈ wanted)) :
    l ∈ (flags.foldl (relabel current wanted) item).labels ↔ l ∈ item.labels := by
  induction flags generalizing item with
  | nil => exact Iff.rfl
  | cons flag flags ih =>
    rw [List.foldl_cons, ih fun f hf => h f (List.mem_cons_of_mem _ hf)]
    exact relabel_labels (h flag List.mem_cons_self)

theorem foldl_relabel_of_none (h : ∀ flag ∈ flags, flagLabels flag = none) :
    flags.foldl (relabel current wanted) item = item := by
  induction flags with
  | nil => rfl
  | cons flag flags ih =>
    rw [List.foldl_cons, relabel_of_none (h flag List.mem_cons_self)]
    exact ih fun f hf => h f (List.mem_cons_of_mem _ hf)

theorem foldl_relabel_labelled (h : item.flags = messageFlags item.labels) :
    (flags.foldl (relabel current wanted) item).flags =
      messageFlags (flags.foldl (relabel current wanted) item).labels := by
  induction flags generalizing item with
  | nil => exact h
  | cons flag flags ih => exact ih (relabel_labelled h)

/-- A flag the loop is not about is as before. -/
theorem foldl_relabel_other {f : Flag} (hf : f ∉ flags)
    (hitem : item.flags = messageFlags item.labels) :
    f ∈ (flags.foldl (relabel current wanted) item).flags ↔ f ∈ item.flags := by
  induction flags generalizing item with
  | nil => exact Iff.rfl
  | cons flag flags ih =>
    rw [List.mem_cons, not_or] at hf
    rw [List.foldl_cons, ih hf.2 (relabel_labelled hitem), relabel_other hf.1 hitem]

/-- A flag with labels that the loop is about is as wanted. -/
theorem foldl_relabel_self {f : Flag} (hf : f ∈ flags) (hnodup : flags.Nodup)
    (hlabels : (flagLabels f).isSome = true) (hitem : item.flags = messageFlags item.labels)
    (hcurrent : f ∈ item.flags ↔ f ∈ current) :
    f ∈ (flags.foldl (relabel current wanted) item).flags ↔ f ∈ wanted := by
  induction flags generalizing item with
  | nil => cases hf
  | cons flag flags ih =>
    obtain ⟨hnot, hnodup⟩ := List.nodup_cons.mp hnodup
    rw [List.foldl_cons]
    by_cases heq : f = flag
    · subst heq
      obtain ⟨labels, hlabels⟩ := Option.isSome_iff_exists.mp hlabels
      rw [foldl_relabel_other hnot (relabel_labelled hitem)]
      exact relabel_self hlabels hcurrent
    · have hbefore : f ∈ (relabel current wanted item flag).flags ↔ f ∈ current :=
        (relabel_other heq hitem).trans hcurrent
      exact ih (List.mem_of_ne_of_mem heq hf) hnodup (relabel_labelled hitem) hbefore

end Loop

/-! ## The whole item -/

section Stored

variable {plan : StorePlan} {mdef : MailboxDef} {marks marks' : List Nat} {item : Item}

theorem StorePlan.stored_frame (plan : StorePlan) (permanent : List Flag) (marks : List Nat)
    (item : Item) : plan.stored permanent marks item =
      { item with
        flags := (plan.stored permanent marks item).flags
        labels := (plan.stored permanent marks item).labels } :=
  foldl_relabel_frame _ _ _ _

theorem permanentFlags_nodup (hdef : mdef ∈ mailboxes) : mdef.permanentFlags.Nodup := by
  have hall : ∀ m ∈ mailboxes, m.permanentFlags.Nodup := by decide
  exact hall mdef hdef

/-- A permanent flag other than `\Deleted` is kept in the labels of messages. -/
theorem labels_of_permanent (hdef : mdef ∈ mailboxes) {f : Flag} (hf : f ∈ mdef.permanentFlags)
    (hne : f ≠ .deleted) : (flagLabels f).isSome = true ∧ mdef.kind = .messages := by
  have hall : ∀ m ∈ mailboxes, ∀ f ∈ m.permanentFlags, f ≠ .deleted →
      (flagLabels f).isSome = true ∧ m.kind = .messages := by
    decide
  exact hall mdef hdef f hf hne

theorem mem_flagsOf {f : Flag} (hf : f ≠ .deleted) :
    f ∈ flagsOf item marks ↔ f ∈ item.flags := by
  unfold flagsOf
  split
  · simp [hf]
  · exact Iff.rfl

theorem deleted_mem_flagsOf (h : Flag.deleted ∉ item.flags) :
    Flag.deleted ∈ flagsOf item marks ↔ item.uid ∈ marks := by
  unfold flagsOf
  split <;> simp [*]

/-- STORE does not touch a draft, only its mark. -/
theorem StorePlan.stored_draft (plan : StorePlan) (hdef : mdef ∈ mailboxes)
    (hkind : mdef.kind ≠ .messages) : plan.stored mdef.permanentFlags marks item = item := by
  apply foldl_relabel_of_none
  intro f hf
  by_cases hdeleted : f = .deleted
  · rw [hdeleted]
    rfl
  · exact absurd (labels_of_permanent hdef hf hdeleted).2 hkind

theorem StorePlan.stored_plain (plan : StorePlan) (hdef : mdef ∈ mailboxes)
    (hplain : item.Plain mdef.kind) :
    (plan.stored mdef.permanentFlags marks item).Plain mdef.kind := by
  by_cases hkind : mdef.kind = .messages
  · exact .of_labels _ (foldl_relabel_labelled (hplain.labelled hkind))
  · rw [plan.stored_draft hdef hkind]
    exact hplain

/-- The flags beside the mark are the wanted ones. -/
theorem StorePlan.mem_stored (hdef : mdef ∈ mailboxes) (hplain : item.Plain mdef.kind)
    (hflags : ∀ f ∈ plan.flags, f ∈ mdef.permanentFlags) {f : Flag} (hf : f ≠ .deleted) :
    f ∈ (plan.stored mdef.permanentFlags marks item).flags ↔
      f ∈ plan.result mdef.permanentFlags marks item := by
  have hcurrent : f ∈ item.flags ↔ f ∈ flagsOf item marks := (mem_flagsOf hf).symm
  by_cases hmem : f ∈ mdef.permanentFlags
  · obtain ⟨hlabels, hkind⟩ := labels_of_permanent hdef hmem hf
    exact foldl_relabel_self hmem (permanentFlags_nodup hdef) hlabels (hplain.labelled hkind) hcurrent
  · rw [StorePlan.result, StoreMode.wanted_of_notMem hflags hmem, ← hcurrent]
    by_cases hkind : mdef.kind = .messages
    · exact foldl_relabel_other hmem (hplain.labelled hkind)
    · rw [plan.stored_draft hdef hkind]

/-- An item whose mark is as wanted has the wanted flags. -/
theorem StorePlan.flagsOf_stored (hdef : mdef ∈ mailboxes) (hplain : item.Plain mdef.kind)
    (hflags : ∀ f ∈ plan.flags, f ∈ mdef.permanentFlags)
    (hmark : item.uid ∈ marks' ↔ Flag.deleted ∈ plan.result mdef.permanentFlags marks item) :
    flagsOf (plan.stored mdef.permanentFlags marks item) marks' =
      plan.result mdef.permanentFlags marks item := by
  ext f
  by_cases hf : f = .deleted
  · subst hf
    rw [deleted_mem_flagsOf (plan.stored_plain hdef hplain).unmarked, ← hmark, plan.stored_frame]
  · rw [mem_flagsOf hf, StorePlan.mem_stored hdef hplain hflags hf]

/-- A label changes only if it is one of a flag that does. -/
theorem StorePlan.stored_labels (hdef : mdef ∈ mailboxes) (hplain : item.Plain mdef.kind)
    (hflags : ∀ f ∈ plan.flags, f ∈ mdef.permanentFlags) {l : String}
    (hl : ∀ f add remove, flagLabels f = some (add, remove) → l ∈ add ++ remove →
      (f ∈ item.flags ↔ f ∈ (plan.stored mdef.permanentFlags marks item).flags)) :
    l ∈ (plan.stored mdef.permanentFlags marks item).labels ↔ l ∈ item.labels := by
  apply foldl_relabel_labels
  intro f hf add remove hlabels hmem
  have hne : f ≠ .deleted := by
    rintro rfl
    cases hlabels
  rw [mem_flagsOf hne, hl f add remove hlabels hmem]
  exact StorePlan.mem_stored hdef hplain hflags hne

end Stored

end Imap
end ImapGateway
