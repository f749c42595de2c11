/-
The tags events carry.

The tag of a command that is refused is taken from its first line, that of a command
that is built from its tokens.  Only the second is checked for the octets that begin
other lines, so a refused command may be answered with such a tag.
-/
import ImapGateway.Parser.Bounds

namespace ImapGateway
namespace Parser

open Octet Incremental

/-! ## Tags -/


/-- The octets that begin lines of other kinds. -/
def isReserved (ch : UInt8) : Bool := decide (ch = plus) || decide (ch = asterisk)

/-- A tag no line of another kind begins with. -/
structure TagSafe (tag : Octets) : Prop where
  nonempty : tag ≠ []
  plain : tag.any isReserved = false

namespace Event

def tag : Event → Option Octets
  | .command tag _ _ => some tag
  | .error tag _ _ => tag
  | .continuation _ => none

/-- The tag of the event, if it has one, is safe. -/
def Unforged (e : Event) : Prop := ∀ tag, e.tag = some tag → TagSafe tag

theorem Unforged.of_none {e : Event} (h : e.tag = none) : e.Unforged := fun tag ht => by
  rw [h] at ht
  cases ht

end Event

theorem extractTag_nonempty {line tag : Octets} (h : extractTag line = some tag) : tag ≠ [] := by
  simp only [extractTag] at h
  split at h
  · rename_i hhead
    cases h
    exact List.ne_nil_of_length_pos hhead.1
  · cases h

/-! ## Atoms of a command -/

/-- No atom among the tokens is empty. -/
def Filled (ts : List Token) : Prop := Token.atom [] ∉ ts

structure Stack.Filled (s : Stack) : Prop where
  top : Parser.Filled s.top
  below : ∀ ts ∈ s.below, Parser.Filled ts

theorem Stack.root_filled : Stack.root.Filled :=
  ⟨List.not_mem_nil, fun _ hts => by cases hts⟩

theorem Filled.append {ts : List Token} (h : Filled ts) {t : Token} (ht : t ≠ .atom []) :
    Filled (ts ++ [t]) := by
  intro hmem
  rcases List.mem_append.mp hmem with hmem | hmem
  · exact h hmem
  · exact ht (List.mem_singleton.mp hmem).symm

theorem Stack.Filled.push {s : Stack} (h : s.Filled) {t : Token} (ht : t ≠ .atom []) :
    (s.push t).Filled := ⟨h.top.append ht, h.below⟩

theorem readAtom_nonempty {line value rest : Octets} (h : readAtom line = .ok (value, rest)) :
    value ≠ [] := by
  rw [readAtom] at h
  split at h
  · cases h
  · split at h
    · cases h
    · rename_i hlen
      cases h
      apply List.ne_nil_of_length_pos
      rw [List.length_take]
      omega

theorem tokenizeLine_filled {line : Octets} {stack stack' : Stack} (hs : stack.Filled)
    (h : tokenizeLine line stack = .ok stack') : stack'.Filled := by
  fun_induction tokenizeLine line stack with
  | case1 stack =>
    cases h
    exact hs
  | case2 stack rest ih => exact ih hs h
  | case3 stack rest _ ih =>
    refine ih ⟨(fun h => by cases h), fun ts hts => ?_⟩ h
    rcases List.mem_cons.mp hts with rfl | hts
    · exact hs.top
    · exact hs.below ts hts
  | case5 stack rest outer below hbelow _ _ ih =>
    have hbelow : ∀ ts ∈ outer :: below, Filled ts := hbelow ▸ hs.below
    refine ih ⟨?_, fun ts hts => hbelow ts (List.mem_cons_of_mem _ hts)⟩ h
    exact (hbelow outer (List.mem_cons_self ..)).append (by simp)
  | case7 stack rest value rest' hread _ _ _ _ ih => exact ih (hs.push (by simp)) h
  | case11 stack ch rest _ _ _ _ _ _ value rest' hread _ ih =>
    refine ih (hs.push fun he => ?_) h
    cases he
    exact readAtom_nonempty hread rfl
  | _ => cases h

theorem tokenizeFrom_filled {pieces : List Piece} {stack stack' : Stack} (hs : stack.Filled)
    (h : tokenizeFrom pieces stack = .ok stack') : stack'.Filled := by
  induction pieces generalizing stack with
  | nil =>
    cases h
    exact hs
  | cons piece pieces ih =>
    cases piece with
    | literal data => exact ih (hs.push (t := .literal data) nofun) h
    | line data =>
      unfold tokenizeFrom at h
      split at h
      · cases h
      · rename_i stack₁ hline
        exact ih (tokenizeLine_filled hs hline) h

theorem tokenizePieces_filled {pieces : List Piece} {tokens : List Token}
    (h : tokenizePieces pieces = .ok tokens) : Filled tokens := by
  unfold tokenizePieces at h
  split at h
  · cases h
  · rename_i stack hfrom
    split at h
    · cases h
      exact (tokenizeFrom_filled Stack.root_filled hfrom).top
    · cases h

/-! ## Commands refused before their tag is checked -/

variable (limits : Limits)

/-- The tokens of a command do not get as far as its tag: they are none, or the command
has no name, or tag and name are not both atoms. -/
def misshapen (pieces : List Piece) : Bool :=
  match tokenizePieces pieces with
  | .error _ => true
  | .ok [] => false
  | .ok (.atom _ :: .atom _ :: _) => false
  | .ok _ => true

/-- The command is refused at this line, and not for its tag. -/
def refusedEarly (p : Pending) (line : Octets) : Bool :=
  decide (0 ∈ line) || match literalTail line with
    | some (_, n) => decide (limits.maxLiteral < n) ||
        decide (limits.maxLiterals < p.literalCount + 1) ||
        decide (limits.maxCommandBytes < p.totalBytes + line.length + 2 + n)
    | none => decide (limits.maxCommandBytes < p.totalBytes + line.length + 2) ||
        misshapen (p.pieces ++ [.line line])

/-- The line that comes next is one at which a command with a reserved octet in its first
word is refused early. -/
def misquotes (mode : Mode) (buf : Octets) : Bool :=
  match mode with
  | .literal _ _ => false
  | .line pending =>
    match buf.dropWhile (· != lf) with
    | [] => false
    | _ :: _ =>
      let line := stripCr (buf.takeWhile (· != lf))
      decide (line.length ≤ limits.maxLine) &&
        ((opened pending line).tag.any fun tag => tag.any isReserved) &&
        refusedEarly limits (opened pending line) line

variable {limits}

theorem buildCommand_misshapen {p : Pending} (h : misshapen p.pieces = true) :
    ∃ message, buildCommand p = .error p.tag message false := by
  unfold misshapen at h
  unfold buildCommand
  cases htokens : tokenizePieces p.pieces with
  | error message => exact ⟨message, rfl⟩
  | ok tokens =>
    rw [htokens] at h
    match tokens, h with
    | [_], _ => exact ⟨_, rfl⟩
    | .atom _ :: .quoted _ :: _, _ => exact ⟨_, rfl⟩
    | .atom _ :: .literal _ :: _, _ => exact ⟨_, rfl⟩
    | .atom _ :: .list _ :: _, _ => exact ⟨_, rfl⟩
    | .quoted _ :: t :: _, _ => cases t <;> exact ⟨_, rfl⟩
    | .literal _ :: t :: _, _ => cases t <;> exact ⟨_, rfl⟩
    | .list _ :: t :: _, _ => cases t <;> exact ⟨_, rfl⟩

theorem buildCommand_unforged {p : Pending} (h : misshapen p.pieces = false) :
    (buildCommand p).Unforged := by
  unfold misshapen at h
  unfold buildCommand
  split at h
  · cases h
  · rename_i htokens
    rw [htokens]
    exact .of_none rfl
  · rename_i tag name args htokens
    have hfilled := tokenizePieces_filled htokens
    simp only [htokens]
    split
    · exact .of_none rfl
    · rename_i hplain
      intro tag' ht
      cases ht
      refine ⟨fun he => ?_, eq_false_of_ne_true hplain⟩
      subst he
      exact hfilled (List.mem_cons_self ..)
  · cases h

/-- A command that is refused early is answered with the tag of its first line, and
otherwise no tag of an event is unsafe. -/
theorem consumeLine_tag (p : Pending) (line : Octets) :
    (refusedEarly limits p line = true →
      ∃ message, (consumeLine limits (some p) line).1 = .error p.tag message false) ∧
    (refusedEarly limits p line = false → (consumeLine limits (some p) line).1.Unforged) := by
  unfold refusedEarly consumeLine
  simp only [Option.getD_some]
  by_cases hnul : 0 ∈ line
  · simp only [hnul, decide_true, Bool.true_or]
    exact ⟨fun _ => ⟨_, rfl⟩, (by simp)⟩
  · simp only [hnul, decide_false, Bool.false_or]
    cases htail : literalTail line with
    | none =>
      simp only
      by_cases hbytes : limits.maxCommandBytes < p.totalBytes + line.length + 2
      · simp only [hbytes, decide_true, Bool.true_or]
        exact ⟨fun _ => ⟨_, rfl⟩, (by simp)⟩
      · simp only [hbytes, decide_false, Bool.false_or]
        exact ⟨fun h => buildCommand_misshapen h, fun h => buildCommand_unforged h⟩
    | some r =>
      obtain ⟨kept, n⟩ := r
      simp only
      by_cases hn : limits.maxLiteral < n
      · simp only [hn, decide_true, Bool.true_or]
        exact ⟨fun _ => ⟨_, rfl⟩, (by simp)⟩
      · simp only [hn, decide_false, Bool.false_or]
        by_cases hcaps : limits.maxLiterals < p.literalCount + 1 ∨
            limits.maxCommandBytes < p.totalBytes + line.length + 2 + n
        · rw [if_pos hcaps]
          exact ⟨fun _ => ⟨_, rfl⟩, fun h => absurd hcaps (by simpa using h)⟩
        · rw [if_neg hcaps]
          exact ⟨fun h => absurd (by simpa using h) hcaps, fun _ => .of_none rfl⟩

/-! ## Runs -/

/-- A pending command has no empty tag. -/
def Mode.Tagged (mode : Mode) : Prop :=
  ∀ p tag, mode.pending = some p → p.tag = some tag → tag ≠ []

theorem tagged_none : (Mode.line none).Tagged := fun _ _ hp => by cases hp

theorem opened_tagged {pending : Option Pending} {line tag : Octets}
    (h : (Mode.line pending).Tagged) (ht : (opened pending line).tag = some tag) : tag ≠ [] := by
  cases pending with
  | some p => exact h p tag rfl ht
  | none => exact extractTag_nonempty ht

/-- What a line leaves pending has the tag the command was opened with. -/
theorem consumeLine_tagged {pending : Option Pending} {line : Octets}
    (h : (Mode.line pending).Tagged) : (consumeLine limits pending line).2.Tagged := by
  have hopened : ∀ tag, (opened pending line).tag = some tag → tag ≠ [] := fun tag =>
    opened_tagged h
  rw [consumeLine_opened]
  generalize opened pending line = p at hopened
  simp only [consumeLine, Option.getD_some]
  split
  · exact tagged_none
  · split
    · split
      · exact tagged_none
      · split
        · exact tagged_none
        · intro q tag hq ht
          cases hq
          exact hopened tag ht
    · split
      · exact tagged_none
      · exact tagged_none

theorem next_tagged {mode mode' : Mode} {buf rest : Octets} {evs : List Event}
    (h : mode.Tagged) (hn : next limits mode buf = .take evs mode' rest) : mode'.Tagged := by
  cases mode with
  | literal p n =>
    simp only [next] at hn
    split at hn
    · cases hn
    · cases hn
      intro q tag hq ht
      cases hq
      exact h p tag rfl ht
  | line pending =>
    simp only [next] at hn
    split at hn
    · split at hn <;> cases hn
    · split at hn
      · cases hn
      · cases hn
        exact consumeLine_tagged h

/-- A line yields an event with an unsafe tag exactly if it is one at which a command with
a reserved octet in its first word is refused early. -/
theorem next_unforged {mode mode' : Mode} {buf rest : Octets} {evs : List Event}
    (h : mode.Tagged) (hn : next limits mode buf = .take evs mode' rest) :
    (∀ e ∈ evs, e.Unforged) ↔ misquotes limits mode buf = false := by
  cases mode with
  | literal p n =>
    simp only [next] at hn
    split at hn
    · cases hn
    · cases hn
      exact ⟨fun _ => rfl, (by simp)⟩
  | line pending =>
    simp only [next] at hn
    split at hn
    · split at hn <;> cases hn
    · rename_i ch tail hdrop
      split at hn
      · cases hn
      · rename_i hlen
        cases hn
        simp only [misquotes, hdrop]
        generalize stripCr (buf.takeWhile (· != lf)) = line at hlen
        have htagged : ∀ tag, (opened pending line).tag = some tag → tag ≠ [] := fun tag =>
          opened_tagged h
        rw [consumeLine_opened]
        generalize opened pending line = p at htagged
        have hline : (refusedEarly limits p line = true → ∃ message,
              (consumeLine limits (some p) line).1 = .error p.tag message false) ∧
            (refusedEarly limits p line = false →
              (consumeLine limits (some p) line).1.Unforged) := consumeLine_tag p line
        obtain ⟨hearly, hlate⟩ := hline
        have hlen : decide (line.length ≤ limits.maxLine) = true := decide_eq_true (by omega)
        rw [hlen, Bool.true_and]
        cases href : refusedEarly limits p line with
        | false =>
          rw [Bool.and_false]
          refine ⟨fun _ => rfl, fun _ e he => ?_⟩
          rw [List.mem_singleton.mp he]
          exact hlate href
        | true =>
          obtain ⟨message, hev⟩ := hearly href
          rw [hev, Bool.and_true]
          cases htag : p.tag with
          | none =>
            refine ⟨fun _ => rfl, fun _ e he => ?_⟩
            rw [List.mem_singleton.mp he]
            exact .of_none rfl
          | some tag =>
            constructor
            · intro hall
              exact (hall _ (List.mem_singleton_self _) tag rfl).plain
            · intro hplain e he tag' ht
              rw [List.mem_singleton.mp he] at ht
              cases ht
              exact ⟨htagged tag htag, hplain⟩

/-- A literal is announced to the client exactly when it is then awaited. -/
theorem next_continuation {mode mode' : Mode} {buf rest : Octets} {evs : List Event}
    (hn : next limits mode buf = .take evs mode' rest) (n : Nat) :
    .continuation n ∈ evs ↔ ∃ p, mode' = .literal p n := by
  cases mode with
  | literal p n' =>
    simp only [next] at hn
    split at hn
    · cases hn
    · cases hn
      constructor
      · intro he
        cases he
      · rintro ⟨q, hq⟩
        cases hq
  | line pending =>
    have hbuilt : ∀ p : Pending, .continuation n ∈ [buildCommand p] ↔
        ∃ q, Mode.line none = .literal q n := by
      intro p
      constructor
      · intro he
        have he := List.mem_singleton.mp he
        unfold buildCommand at he
        split at he
        · cases he
        · cases he
        · cases he
        · split at he <;> cases he
        · cases he
      · rintro ⟨q, hq⟩
        cases hq
    have herror : ∀ tag message fatal, Event.continuation n ∈ [Event.error tag message fatal] ↔
        ∃ q, Mode.line none = .literal q n := by
      intro tag message fatal
      constructor
      · intro he
        cases List.mem_singleton.mp he
      · rintro ⟨q, hq⟩
        cases hq
    simp only [next] at hn
    split at hn
    · split at hn <;> cases hn
    · split at hn
      · cases hn
      · cases hn
        simp only [consumeLine]
        split
        · exact herror ..
        · split
          · rename_i kept m _
            split
            · exact herror ..
            · split
              · exact herror ..
              · constructor
                · intro he
                  cases List.mem_singleton.mp he
                  exact ⟨_, rfl⟩
                · rintro ⟨q, hq⟩
                  cases hq
                  exact List.mem_singleton_self _
          · split
            · exact herror ..
            · exact hbuilt _

/-- A parser that may be fed at any moment, whose steps each meet `C` in the state they
are made in. -/
inductive ReachedBy (C : Mode → Octets → Prop) (limits : Limits) :
    List Event → Mode → Octets → Prop
  | start : ReachedBy C limits [] (.line none) []
  | fed {evs : List Event} {mode : Mode} {buf : Octets} (data : Octets) :
      ReachedBy C limits evs mode buf → ReachedBy C limits evs mode (buf ++ data)
  | took {evs evs' : List Event} {mode mode' : Mode} {buf rest : Octets} :
      ReachedBy C limits evs mode buf → C mode buf → next limits mode buf = .take evs' mode' rest →
      ReachedBy C limits (evs ++ evs') mode' rest
  | halted {evs evs' : List Event} {mode mode' : Mode} {buf rest : Octets} :
      ReachedBy C limits evs mode buf → C mode buf → next limits mode buf = .halt evs' mode' rest →
      ReachedBy C limits (evs ++ evs') mode' rest

/-- What halts the parser carries no tag. -/
theorem next_halt {mode mode' : Mode} {buf rest : Octets} {evs : List Event}
    (h : next limits mode buf = .halt evs mode' rest) : evs = [tooLong] ∧ mode' = .line none := by
  cases mode with
  | literal p n =>
    simp only [next] at h
    split at h <;> cases h
  | line pending =>
    simp only [next] at h
    split at h
    · split at h
      · cases h
        exact ⟨rfl, rfl⟩
      · cases h
    · split at h
      · cases h
        exact ⟨rfl, rfl⟩
      · cases h

/-- Where no command with a reserved octet in its first word is refused early, every tag
of an event is safe. -/
theorem ReachedBy.unforged {evs : List Event} {mode : Mode} {buf : Octets}
    (h : ReachedBy (fun mode buf => misquotes limits mode buf = false) limits evs mode buf) :
    mode.Tagged ∧ ∀ e ∈ evs, e.Unforged := by
  induction h with
  | start => exact ⟨tagged_none, nofun⟩
  | fed data _ ih => exact ih
  | took _ hC hn ih =>
    obtain ⟨htagged, hevs⟩ := ih
    refine ⟨next_tagged htagged hn, fun e he => ?_⟩
    rcases List.mem_append.mp he with he | he
    · exact hevs e he
    · exact (next_unforged htagged hn).mpr hC e he
  | halted _ _ hn ih =>
    obtain ⟨_, hevs⟩ := ih
    obtain ⟨rfl, rfl⟩ := next_halt hn
    refine ⟨tagged_none, fun e he => ?_⟩
    rcases List.mem_append.mp he with he | he
    · exact hevs e he
    · rw [List.mem_singleton.mp he]
      exact .of_none rfl

/-- A line that is too long is not refused for its tag. -/
theorem misquotes_of_halt {mode mode' : Mode} {buf rest : Octets} {evs : List Event}
    (h : next limits mode buf = .halt evs mode' rest) : misquotes limits mode buf = false := by
  cases mode with
  | literal p n => rfl
  | line pending =>
    unfold misquotes
    simp only [next] at h
    cases hdrop : buf.dropWhile (· != lf) with
    | nil => rfl
    | cons ch tail =>
      rw [hdrop] at h
      simp only at h ⊢
      split at h
      · rename_i hlong
        have hlen : decide ((stripCr (buf.takeWhile (· != lf))).length ≤ limits.maxLine) = false :=
          decide_eq_false (by omega)
        rw [hlen, Bool.false_and, Bool.false_and]
      · cases h

/-- All the tags of a run are safe exactly if no step of it refused a command early whose
first word has a reserved octet. -/
theorem Reached.unforged_iff {evs : List Event} {mode : Mode} {buf : Octets}
    (h : Reached limits evs mode buf) :
    (∀ e ∈ evs, e.Unforged) ↔
      ReachedBy (fun mode buf => misquotes limits mode buf = false) limits evs mode buf := by
  constructor
  · intro hevs
    induction h with
    | start => exact .start
    | fed data _ ih => exact .fed data (ih hevs)
    | took _ hn ih =>
      have hrun := ih fun e he => hevs e (List.mem_append_left _ he)
      have hstep := (next_unforged hrun.unforged.1 hn).mp fun e he =>
        hevs e (List.mem_append_right _ he)
      exact .took hrun hstep hn
    | halted _ hn ih =>
      have hrun := ih fun e he => hevs e (List.mem_append_left _ he)
      exact .halted hrun (misquotes_of_halt hn) hn
  · intro hrun
    exact hrun.unforged.2

end Parser
end ImapGateway
