/-
Words replaced in a text.

`replace` goes through a text from the left and puts a substitute in the place of a word.  The
substitute is not looked at again, so together with what stands around it, it may spell the
word, or another one replaced before.  A word that cannot touch the substitute is gone for good
once it is replaced, whatever is replaced after it.
-/
import Mathlib.Data.List.Infix

namespace ImapGateway
namespace Substitution

variable {α : Type} [DecidableEq α]

/-- `text.replace(old, new)`, for words that are not empty. -/
def replace (old new : List α) : List α → List α
  | [] => []
  | c :: rest =>
    if _h : old ≠ [] ∧ old <+: c :: rest then
      new ++ replace old new ((c :: rest).drop old.length)
    else c :: replace old new rest
termination_by text => text.length
decreasing_by
  · have hpos := List.length_pos_of_ne_nil (And.left ‹_›)
    rw [List.length_drop, List.length_cons]
    omega
  · exact Nat.lt_succ_self _

/-- No occurrence of the word can overlap the substitute. -/
structure Apart (new k : List α) : Prop where
  front : ∀ s, s ≠ [] → s <:+ new → ¬s <+: k
  back : ∀ s, s ≠ [] → s <+: new → ¬s <:+ k
  outside : ¬new <:+: k
  inside : ¬k <:+: new

variable {old new k : List α}

omit [DecidableEq α] in
theorem Apart.ne_nil (h : Apart new k) : k ≠ [] := by
  rintro rfl
  exact h.inside (List.nil_infix)

/-- The beginning of a text after a replacement was there before, or touches a substitute. -/
theorem prefix_replace {p text : List α} (h : p <+: replace old new text) :
    p <+: text ∨ (∃ s, s ≠ [] ∧ s <+: new ∧ s <:+ p) ∨ new <:+: p := by
  induction text using replace.induct old generalizing p with
  | case1 =>
    rw [replace] at h
    exact .inl h
  | case2 c rest hold ih =>
    rw [replace, dif_pos hold] at h
    by_cases hp : p = []
    · rw [hp]
      exact .inl (List.nil_prefix)
    · rcases List.prefix_or_prefix_of_prefix h (List.prefix_append _ _) with hin | hover
      · exact .inr (.inl ⟨p, hp, hin, List.suffix_rfl⟩)
      · exact .inr (.inr hover.isInfix)
  | case3 c rest hold ih =>
    rw [replace, dif_neg hold] at h
    rcases List.prefix_cons_iff.mp h with rfl | ⟨t, rfl, ht⟩
    · exact .inl (List.nil_prefix)
    · rcases ih ht with hthere | ⟨s, hs, hnew, hsuffix⟩ | hover
      · exact .inl ((List.prefix_cons_inj c).mpr hthere)
      · exact .inr (.inl ⟨s, hs, hnew, hsuffix.trans (List.suffix_cons c t)⟩)
      · exact .inr (.inr (hover.trans (List.suffix_cons c t).isInfix))

/-- A word apart from the substitute that is found after a replacement was found before, and is
not the one replaced. -/
theorem infix_replace (ha : Apart new k) {text : List α} (h : k <:+: replace old new text) :
    k <:+: text ∧ k ≠ old := by
  induction text using replace.induct old with
  | case1 =>
    rw [replace] at h
    exact absurd (List.infix_nil.mp h) ha.ne_nil
  | case2 c rest hold ih =>
    rw [replace, dif_pos hold] at h
    rcases List.infix_append_iff_ne_nil.mp h with hin | hrest | ⟨s, t, hs, -, rfl, hsuffix, -⟩
    · exact absurd hin ha.inside
    · obtain ⟨hthere, hne⟩ := ih hrest
      exact ⟨hthere.trans (List.drop_suffix _ _).isInfix, hne⟩
    · exact absurd (List.prefix_append s t) (ha.front s hs hsuffix)
  | case3 c rest hold ih =>
    rw [replace, dif_neg hold] at h
    rcases List.infix_cons_iff.mp h with hfront | hrest
    · rcases List.prefix_cons_iff.mp hfront with hnil | ⟨t, rfl, ht⟩
      · exact absurd hnil ha.ne_nil
      · -- the word begins here, so that here `old` cannot be it
        rcases prefix_replace ht with hthere | ⟨s, hs, hnew, hsuffix⟩ | hover
        · have hstart := (List.prefix_cons_inj c).mpr hthere
          refine ⟨hstart.isInfix, ?_⟩
          rintro rfl
          exact hold ⟨ha.ne_nil, hstart⟩
        · exact absurd (hsuffix.trans (List.suffix_cons c t)) (ha.back s hs hnew)
        · exact absurd (hover.trans (List.suffix_cons c t).isInfix) ha.outside
    · obtain ⟨hthere, hne⟩ := ih hrest
      exact ⟨hthere.trans (List.suffix_cons c rest).isInfix, hne⟩

/-! ## One word -/

/-- In a text shorter than the word nothing is replaced. -/
theorem replace_of_short {text : List α} (h : text.length < old.length) :
    replace old new text = text := by
  induction text with
  | nil => rw [replace]
  | cons c rest ih =>
    have hno : ¬(old ≠ [] ∧ old <+: c :: rest) := fun hold =>
      Nat.not_lt.mpr hold.2.length_le h
    rw [replace, dif_neg hno, ih (Nat.lt_of_succ_lt h)]

/-- The substitute stands where the word is found first. -/
theorem replace_first {before rest : List α} (hne : old ≠ [])
    (hfirst : ∀ i < before.length, ¬old <+: (before ++ old ++ rest).drop i) :
    replace old new (before ++ old ++ rest) = before ++ new ++ replace old new rest := by
  induction before with
  | nil =>
    obtain ⟨c, tail, rfl⟩ := List.exists_cons_of_ne_nil hne
    have hold : c :: tail ≠ [] ∧ c :: tail <+: c :: (tail ++ rest) :=
      ⟨hne, (List.prefix_cons_inj c).mpr (List.prefix_append tail rest)⟩
    rw [List.nil_append, List.cons_append, replace, dif_pos hold, ← List.cons_append,
      List.drop_left, List.nil_append]
  | cons c before ih =>
    have hno : ¬(old ≠ [] ∧ old <+: c :: (before ++ old ++ rest)) := fun hold =>
      hfirst 0 (Nat.zero_lt_succ _) hold.2
    show replace old new (c :: (before ++ old ++ rest)) = c :: (before ++ new) ++ replace old new rest
    rw [replace, dif_neg hno, ih fun i hi => hfirst (i + 1) (Nat.succ_lt_succ hi)]
    rfl

/-- Of the occurrences of a word one is the first. -/
theorem exists_first {text : List α} (h : old <:+: text) :
    ∃ before rest, text = before ++ old ++ rest ∧ ∀ i < before.length, ¬old <+: text.drop i := by
  induction text with
  | nil =>
    rw [List.infix_nil.mp h]
    exact ⟨[], [], rfl, nofun⟩
  | cons c text ih =>
    by_cases hfront : old <+: c :: text
    · obtain ⟨rest, hrest⟩ := hfront
      exact ⟨[], rest, hrest.symm, nofun⟩
    · obtain ⟨before, rest, heq, hfirst⟩ := ih ((List.infix_cons_iff.mp h).resolve_left hfront)
      refine ⟨c :: before, rest, by rw [heq]; rfl, fun i hi => ?_⟩
      cases i with
      | zero => exact hfront
      | succ i => exact hfirst i (Nat.lt_of_succ_lt_succ hi)

/-! ## Several words -/

/-- The words are replaced one after the other. -/
def replaceAll (new text : List α) (olds : List (List α)) : List α :=
  olds.foldl (fun text old => replace old new text) text

theorem infix_replaceAll (ha : Apart new k) {text : List α} {olds : List (List α)}
    (h : k <:+: replaceAll new text olds) : k <:+: text ∧ k ∉ olds := by
  induction olds generalizing text with
  | nil => exact ⟨h, List.not_mem_nil⟩
  | cons old olds ih =>
    obtain ⟨hafter, hnot⟩ := ih h
    obtain ⟨hbefore, hne⟩ := infix_replace ha hafter
    refine ⟨hbefore, fun hmem => ?_⟩
    rcases List.mem_cons.mp hmem with heq | hmem
    · exact hne heq
    · exact hnot hmem

/-- Every word is apart from the substitute, or has another of them as a part. -/
def Guarded (new : List α) (words : List α → Prop) : Prop :=
  ∀ k, words k → Apart new k ∨ ∃ k', words k' ∧ k' ≠ k ∧ k' <:+: k

/-- Of guarded words none is left, if all are replaced: of those left the shortest would be apart
from the substitute. -/
theorem not_infix_replaceAll {words : List α → Prop} (hg : Guarded new words)
    {olds : List (List α)} (hall : ∀ k, words k → k ∈ olds) (text : List α) (hk : words k) :
    ¬k <:+: replaceAll new text olds := by
  induction hn : k.length using Nat.strongRecOn generalizing k with
  | ind n ih =>
    intro h
    rcases hg k hk with ha | ⟨k', hk', hne, hpart⟩
    · exact (infix_replaceAll ha h).2 (hall k hk)
    · have hlt : k'.length < k.length := by
        apply Nat.lt_of_le_of_ne hpart.length_le
        exact fun heq => hne (hpart.eq_of_length heq)
      exact ih k'.length (hn ▸ hlt) hk' rfl (hpart.trans h)

end Substitution
end ImapGateway
