/-
The tags that are echoed.

A command has its tag from the tokenizer, which takes a section with spaces in it for a part of
an atom, and a command that is refused early has it from the first word of its line, which may
begin with `*`.  A tag is never both: what begins with `*` is a word.
-/
import ImapGateway.Parser.Printable
import ImapGateway.Parser.Tags

namespace ImapGateway
namespace Parser

open Octet Incremental

variable {limits : Limits}

/-- Printable octets without a space. -/
def IsWord (tag : Octets) : Prop := ∀ ch ∈ tag, isPrintable ch = true ∧ ch ≠ space

/-- A printable tag that no line but one about its command is taken for. -/
structure Echoable (tag : Octets) : Prop where
  printable : ∀ ch ∈ tag, isPrintable ch = true
  distinct : tag.head? ≠ some asterisk ∨ space ∉ tag

theorem IsWord.echoable {tag : Octets} (h : IsWord tag) : Echoable tag where
  printable ch hch := (h ch hch).1
  distinct := .inr fun hmem => (h space hmem).2 rfl

/-- The tag of the event, if it has one, can be echoed. -/
def Event.Echoes (e : Event) : Prop := ∀ tag, e.tag = some tag → Echoable tag

/-- A pending command has a word for its tag. -/
def Mode.Worded (mode : Mode) : Prop :=
  ∀ p tag, mode.pending = some p → p.tag = some tag → IsWord tag

theorem extractTag_word {line tag : Octets} (h : extractTag line = some tag) : IsWord tag := by
  simp only [extractTag] at h
  split at h
  · rename_i hhead
    cases h
    intro ch hch
    have hall := List.all_eq_true.mp hhead.2.2 ch hch
    simp only [Bool.and_eq_true, decide_eq_true_eq] at hall
    have hlow : 33 ≤ ch.toNat := UInt8.le_iff_toNat_le.mp hall.1
    constructor
    · simp only [isPrintable, Bool.and_eq_true, decide_eq_true_eq]
      refine ⟨?_, hall.2⟩
      rw [UInt8.le_iff_toNat_le]
      show 32 ≤ ch.toNat
      omega
    · rintro rfl
      have hspace : space.toNat = 32 := rfl
      omega
  · cases h

theorem opened_word {pending : Option Pending} {line tag : Octets}
    (h : (Mode.line pending).Worded) (ht : (opened pending line).tag = some tag) : IsWord tag := by
  cases pending with
  | some p => exact h p tag rfl ht
  | none => exact extractTag_word ht

theorem echoes_none {e : Event} (h : e.tag = none) : e.Echoes := by
  intro tag ht
  rw [h] at ht
  cases ht

theorem echoes_error {tag : Option Octets} (h : ∀ word, tag = some word → IsWord word)
    (message : String) (fatal : Bool) : (Event.error tag message fatal).Echoes :=
  fun word hword => (h word hword).echoable

theorem buildCommand_echoes {p : Pending} (h : ∀ tag, p.tag = some tag → IsWord tag) :
    (buildCommand p).Echoes := by
  have hlegible := buildCommand_legible p
  unfold buildCommand at hlegible ⊢
  split
  · exact echoes_error h _ _
  · exact echoes_none rfl
  · exact echoes_error h _ _
  · rename_i tag name args htokens
    simp only [htokens] at hlegible
    split
    · exact echoes_none rfl
    · rename_i hplain
      rw [if_neg hplain] at hlegible
      intro tag' ht
      cases ht
      refine ⟨hlegible.1, .inl fun hhead => hplain ?_⟩
      apply List.any_eq_true.mpr
      exact ⟨asterisk, List.mem_of_mem_head? hhead, rfl⟩
  · exact echoes_error h _ _

theorem worded_none : (Mode.line none).Worded := fun _ _ hp => by cases hp

/-- The event of a line echoes a word or the tag of a command, and what is left pending keeps
the word. -/
theorem consumeLine_echoes (limits : Limits) {pending : Option Pending} {line : Octets}
    (h : (Mode.line pending).Worded) :
    (consumeLine limits pending line).1.Echoes ∧ (consumeLine limits pending line).2.Worded := by
  have hopened : ∀ tag, (opened pending line).tag = some tag → IsWord tag := fun tag =>
    opened_word h
  rw [consumeLine_opened]
  generalize opened pending line = p at hopened
  simp only [consumeLine, Option.getD_some]
  split
  · exact ⟨echoes_error hopened _ _, worded_none⟩
  · split
    · split
      · exact ⟨echoes_error hopened _ _, worded_none⟩
      · split
        · exact ⟨echoes_error hopened _ _, worded_none⟩
        · refine ⟨echoes_none rfl, fun q tag hq ht => ?_⟩
          cases hq
          exact hopened tag ht
    · split
      · exact ⟨echoes_error hopened _ _, worded_none⟩
      · exact ⟨buildCommand_echoes hopened, worded_none⟩

theorem next_echoes {mode mode' : Mode} {buf rest : Octets} {evs : List Event}
    (h : mode.Worded) (hn : next limits mode buf = .take evs mode' rest) :
    (∀ e ∈ evs, e.Echoes) ∧ mode'.Worded := by
  rcases next_take_cases hn with ⟨p, data, rfl, _, rfl, rfl⟩ | ⟨pending, raw, rfl, _, _, rfl, rfl⟩
  · refine ⟨fun e he => absurd he List.not_mem_nil, fun q tag hq ht => ?_⟩
    cases hq
    exact h p tag rfl ht
  · obtain ⟨hevent, hmode⟩ := consumeLine_echoes limits h
    refine ⟨fun e he => ?_, hmode⟩
    rw [List.mem_singleton.mp he]
    exact hevent

/-- Every tag a parser yields can be echoed. -/
theorem Reached.echoes {evs : List Event} {mode : Mode} {buf : Octets}
    (h : Reached limits evs mode buf) : (∀ e ∈ evs, e.Echoes) ∧ mode.Worded := by
  induction h with
  | start => exact ⟨fun e he => absurd he List.not_mem_nil, worded_none⟩
  | fed data _ ih => exact ih
  | took _ hnext ih =>
    obtain ⟨hevs, hmode⟩ := next_echoes ih.2 hnext
    refine ⟨fun e he => ?_, hmode⟩
    rcases List.mem_append.mp he with he | he
    · exact ih.1 e he
    · exact hevs e he
  | halted _ hnext ih =>
    obtain ⟨_, rfl, rfl⟩ := next_halt_cases hnext
    refine ⟨fun e he => ?_, worded_none⟩
    rcases List.mem_append.mp he with he | he
    · exact ih.1 e he
    · rw [List.mem_singleton.mp he]
      exact echoes_none rfl

end Parser
end ImapGateway
