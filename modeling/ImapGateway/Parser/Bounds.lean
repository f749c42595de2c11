/-
What a parser can be made to hold.

A client may open a command and go on sending literals for it.  The parser keeps
the pieces and charges them to a running total when they are announced, before
any octet of them is accepted.
-/
import ImapGateway.Parser.Chunks
import Mathlib.Algebra.GroupWithZero.Nat

namespace ImapGateway
namespace Parser

open Octet Incremental

/-! ## Runs -/

/-- A parser with these limits has yielded `evs` and stands in `mode` before `buf`.
It may be fed at any moment. -/
inductive Reached (limits : Limits) : List Event → Mode → Octets → Prop
  | start : Reached limits [] (.line none) []
  | fed {evs : List Event} {mode : Mode} {buf : Octets} (data : Octets) :
      Reached limits evs mode buf → Reached limits evs mode (buf ++ data)
  | took {evs evs' : List Event} {mode mode' : Mode} {buf rest : Octets} :
      Reached limits evs mode buf → next limits mode buf = .take evs' mode' rest →
      Reached limits (evs ++ evs') mode' rest
  | halted {evs evs' : List Event} {mode mode' : Mode} {buf rest : Octets} :
      Reached limits evs mode buf → next limits mode buf = .halt evs' mode' rest →
      Reached limits (evs ++ evs') mode' rest

variable {limits : Limits}

theorem Reached.drain {evs : List Event} {mode : Mode} {buf : Octets}
    (h : Reached limits evs mode buf) :
    Reached limits (evs ++ ((reader limits).drain mode buf).events)
      ((reader limits).drain mode buf).state ((reader limits).drain mode buf).rest := by
  induction mode, buf using (reader limits).drain_induction generalizing evs with
  | hwait mode buf hw =>
    rw [Reader.drain_wait hw, List.append_nil]
    exact h
  | hhalt mode buf evs' mode' rest hh =>
    rw [Reader.drain_halt hh]
    exact h.halted hh
  | htake mode buf evs' mode' rest ht ih =>
    have hrest := ih (h.took ht)
    rw [Reader.drain_take ht]
    show Reached limits (evs ++ (evs' ++ _)) _ _
    rw [← List.append_assoc]
    exact hrest

theorem Reached.feedAll {evs : List Event} (cs : List Octets) (p : CommandParser)
    (h : Reached p.limits evs p.mode p.buf) :
    ∃ mode buf, Reached p.limits (evs ++ p.feedAll cs) mode buf := by
  induction cs generalizing p evs with
  | nil => exact ⟨p.mode, p.buf, by rw [CommandParser.feedAll, List.append_nil]; exact h⟩
  | cons c cs ih =>
    have hdrained := (h.fed c).drain
    obtain ⟨mode, buf, hrest⟩ := ih (p.feed c).events.2 hdrained
    refine ⟨mode, buf, ?_⟩
    rw [CommandParser.feedAll, ← List.append_assoc]
    exact hrest

/-- The states of a new parser fed with chunks are reached. -/
theorem reached_feedAll (limits : Limits) (cs : List Octets) :
    ∃ mode buf, Reached limits ((CommandParser.new limits).feedAll cs) mode buf :=
  Reached.feedAll cs (CommandParser.new limits) .start

/-! ## What is held -/

def Piece.octets : Piece → Nat
  | .line data | .literal data => data.length

def Piece.isLiteral : Piece → Bool
  | .line _ => false
  | .literal _ => true

/-- The octets stored in the pieces of a command. -/
def Pending.stored (p : Pending) : Nat := (p.pieces.map Piece.octets).sum

/-- The literals among them. -/
def Pending.literals (p : Pending) : Nat := p.pieces.countP Piece.isLiteral

namespace Mode

def pending : Mode → Option Pending
  | .line pending => pending
  | .literal pending _ => some pending

/-- The octets of the literal that is awaited. -/
def awaited : Mode → Nat
  | .line _ => 0
  | .literal _ n => n

def awaitedLiterals : Mode → Nat
  | .line _ => 0
  | .literal _ _ => 1

end Mode

mutual

/-- The octets a token holds. -/
def Token.octets : Token → Nat
  | .atom value | .quoted value | .literal value => value.length
  | .list items => octetsIn items

def octetsIn : List Token → Nat
  | [] => 0
  | t :: ts => t.octets + octetsIn ts

end

def Stack.octets (s : Stack) : Nat := octetsIn s.top + (s.below.map octetsIn).sum

theorem octetsIn_append (ts us : List Token) :
    octetsIn (ts ++ us) = octetsIn ts + octetsIn us := by
  induction ts with
  | nil =>
    show octetsIn us = 0 + octetsIn us
    omega
  | cons t ts ih =>
    show t.octets + octetsIn (ts ++ us) = t.octets + octetsIn ts + octetsIn us
    omega

theorem Stack.push_octets (s : Stack) (t : Token) : (s.push t).octets = s.octets + t.octets := by
  have htop : octetsIn (s.top ++ [t]) = octetsIn s.top + (t.octets + 0) := octetsIn_append _ _
  show octetsIn (s.top ++ [t]) + (s.below.map octetsIn).sum =
    octetsIn s.top + (s.below.map octetsIn).sum + t.octets
  omega

theorem Stack.open_octets (s : Stack) : s.open.octets = s.octets := by
  show 0 + (octetsIn s.top + (s.below.map octetsIn).sum) = _
  rw [Nat.zero_add]
  rfl

/-! ## Tokens hold no more than the line -/

theorem readQuoted_octets {line out rest : Octets} (h : readQuoted line = .ok (out, rest)) :
    out.length + rest.length < line.length := by
  fun_induction readQuoted line generalizing out rest with
  | case4 escaped tail hesc out' rest' he ih =>
    have hlt := ih he
    cases h
    simp only [List.length_cons]
    omega
  | case6 tail hch =>
    cases h
    simp only [List.length_nil, List.length_cons]
    omega
  | case10 ch tail hch hq hc hn out' rest' he ih =>
    have hlt := ih he
    cases h
    simp only [List.length_cons]
    omega
  | _ => cases h

theorem readAtom_octets {line value rest : Octets} (h : readAtom line = .ok (value, rest)) :
    value.length + rest.length ≤ line.length := by
  rw [readAtom] at h
  split at h
  · cases h
  · split at h
    · cases h
    · cases h
      rw [List.length_take]
      omega

theorem tokenizeLine_octets {line : Octets} {stack stack' : Stack}
    (h : tokenizeLine line stack = .ok stack') : stack'.octets ≤ stack.octets + line.length := by
  fun_induction tokenizeLine line stack with
  | case1 stack =>
    cases h
    omega
  | case2 stack rest ih =>
    have hle := ih h
    rw [List.length_cons]
    omega
  | case3 stack rest _ ih =>
    have hle := ih h
    rw [Stack.open_octets] at hle
    rw [List.length_cons]
    omega
  | case5 stack rest outer below hbelow _ _ ih =>
    have hle := ih h
    have hclosed : (Stack.mk (outer ++ [.list stack.top]) below).octets = stack.octets := by
      have houter : octetsIn (outer ++ [.list stack.top]) =
          octetsIn outer + (octetsIn stack.top + 0) := octetsIn_append _ _
      have hsum : (stack.below.map octetsIn).sum = octetsIn outer + (below.map octetsIn).sum := by
        rw [hbelow]
        rfl
      show octetsIn (outer ++ [.list stack.top]) + (below.map octetsIn).sum =
        octetsIn stack.top + (stack.below.map octetsIn).sum
      omega
    rw [hclosed] at hle
    rw [List.length_cons]
    omega
  | case7 stack rest value rest' hread _ _ _ _ ih =>
    have hle := ih h
    have hlt := readQuoted_octets hread
    rw [Stack.push_octets] at hle
    have hvalue : (Token.quoted value).octets = value.length := rfl
    rw [List.length_cons]
    omega
  | case11 stack ch rest _ _ _ _ _ _ value rest' hread _ ih =>
    have hle := ih h
    have hlt := readAtom_octets hread
    rw [Stack.push_octets] at hle
    have hvalue : (Token.atom value).octets = value.length := rfl
    omega
  | _ => cases h

theorem tokenizeFrom_octets {pieces : List Piece} {stack stack' : Stack}
    (h : tokenizeFrom pieces stack = .ok stack') :
    stack'.octets ≤ stack.octets + (pieces.map Piece.octets).sum := by
  induction pieces generalizing stack with
  | nil =>
    cases h
    exact Nat.le_add_right _ _
  | cons piece pieces ih =>
    rw [List.map_cons, List.sum_cons]
    cases piece with
    | literal data =>
      have hle := ih h
      have hpiece : (Piece.literal data).octets = (Token.literal data).octets := rfl
      rw [Stack.push_octets] at hle
      omega
    | line data =>
      have hpiece : (Piece.line data).octets = data.length := rfl
      unfold tokenizeFrom at h
      split at h
      · cases h
      · rename_i stack₁ hline
        have hle := ih h
        have hline := tokenizeLine_octets hline
        omega

theorem tokenizePieces_octets {pieces : List Piece} {tokens : List Token}
    (h : tokenizePieces pieces = .ok tokens) :
    octetsIn tokens ≤ (pieces.map Piece.octets).sum := by
  unfold tokenizePieces at h
  split at h
  · cases h
  · rename_i stack hfrom
    split at h
    · rename_i hbelow
      cases h
      have hle := tokenizeFrom_octets hfrom
      have hroot : Stack.root.octets = 0 := rfl
      have htop : stack.octets = octetsIn stack.top := by
        unfold Stack.octets
        rw [hbelow]
        rfl
      omega
    · cases h

theorem buildCommand_octets {p : Pending} {tag name : Octets} {args : List Token}
    (h : buildCommand p = .command tag name args) :
    tag.length + name.length + octetsIn args ≤ p.stored := by
  unfold buildCommand at h
  split at h
  · cases h
  · cases h
  · cases h
  · rename_i tag' name' args' htokens
    split at h
    · cases h
    · cases h
      have hle := tokenizePieces_octets htokens
      have htag : octetsIn (.atom tag :: .atom name' :: args) =
          tag.length + (name'.length + octetsIn args) := rfl
      have hupper : (upper name').length = name'.length := List.length_map _
      show _ ≤ (p.pieces.map Piece.octets).sum
      omega
  · cases h

theorem literalTail_length {line kept : Octets} {n : Nat} (h : literalTail line = some (kept, n)) :
    kept.length ≤ line.length := by
  unfold literalTail at h
  split at h
  · cases h
  · rename_i last body hrev
    have hbody : line.length = body.length + 1 := by
      rw [← List.length_reverse, hrev, List.length_cons]
    simp only at h
    split at h
    · cases h
    · rename_i first before hdrop
      have hlen := (List.dropWhile_sublist isDigit (l := body)).length_le
      rw [hdrop, List.length_cons] at hlen
      split at h
      · cases h
        rw [List.length_reverse]
        omega
      · cases h

/-! ## The invariant -/

/-- A command that is pending, with the octets and the literals still awaited for it. -/
structure Pending.Within (limits : Limits) (p : Pending) (awaited awaitedLiterals : Nat) :
    Prop where
  counted : p.literals + awaitedLiterals = p.literalCount
  literals : p.literals + awaitedLiterals ≤ limits.maxLiterals
  stored : p.stored + awaited ≤ p.totalBytes
  total : p.totalBytes ≤ limits.maxCommandBytes

def Mode.Within (limits : Limits) (mode : Mode) : Prop :=
  ∀ p, mode.pending = some p → p.Within limits mode.awaited mode.awaitedLiterals

def Event.Within (limits : Limits) : Event → Prop
  | .command tag name args => tag.length + name.length + octetsIn args ≤ limits.maxCommandBytes
  | .continuation n => n ≤ limits.maxLiteral
  | .error _ _ _ => True

/-- The command a line belongs to: the one that is pending, or a new one. -/
def opened (pending : Option Pending) (line : Octets) : Pending :=
  pending.getD ⟨extractTag line, [], 0, 0⟩

theorem opened_within {pending : Option Pending} {line : Octets}
    (h : (Mode.line pending).Within limits) : (opened pending line).Within limits 0 0 := by
  cases pending with
  | some p => exact h p rfl
  | none => exact ⟨rfl, Nat.zero_le _, Nat.le_refl 0, Nat.zero_le _⟩

theorem stored_append (p : Pending) (piece : Piece) :
    Pending.stored { p with pieces := p.pieces ++ [piece] } = p.stored + piece.octets := by
  show ((p.pieces ++ [piece]).map Piece.octets).sum = _
  rw [List.map_append, List.sum_append]
  rfl

theorem literals_append (p : Pending) (piece : Piece) :
    Pending.literals { p with pieces := p.pieces ++ [piece] } =
      p.literals + if piece.isLiteral then 1 else 0 := by
  show (p.pieces ++ [piece]).countP Piece.isLiteral = _
  rw [List.countP_append, List.countP_singleton]
  rfl

theorem buildCommand_within {p : Pending} (h : p.stored ≤ limits.maxCommandBytes) :
    (buildCommand p).Within limits := by
  cases hbuilt : buildCommand p with
  | command tag name args => exact Nat.le_trans (buildCommand_octets hbuilt) h
  | error tag message fatal => trivial
  | continuation n =>
    unfold buildCommand at hbuilt
    split at hbuilt
    · cases hbuilt
    · cases hbuilt
    · cases hbuilt
    · split at hbuilt <;> cases hbuilt
    · cases hbuilt

theorem consumeLine_opened (pending : Option Pending) (line : Octets) :
    consumeLine limits pending line = consumeLine limits (some (opened pending line)) line := rfl

/-- A line keeps the bounds: what it announces is charged before it is awaited. -/
theorem consumeLine_within {pending : Option Pending} {line : Octets}
    (h : (Mode.line pending).Within limits) :
    (consumeLine limits pending line).1.Within limits ∧
      (consumeLine limits pending line).2.Within limits := by
  have hopened : (opened pending line).Within limits 0 0 := opened_within h
  have hnone : (Mode.line none).Within limits := fun p hp => by cases hp
  rw [consumeLine_opened]
  generalize opened pending line = p at hopened
  have hcounted := hopened.counted
  have hstored := hopened.stored
  simp only [consumeLine, Option.getD_some]
  by_cases hnul : 0 ∈ line
  · simp only [if_pos hnul]
    exact ⟨trivial, hnone⟩
  · simp only [if_neg hnul]
    cases htail : literalTail line with
    | none =>
      simp only
      split
      · exact ⟨trivial, hnone⟩
      · refine ⟨buildCommand_within ?_, hnone⟩
        have happend := stored_append p (.line line)
        have hpiece : (Piece.line line).octets = line.length := rfl
        omega
    | some r =>
      obtain ⟨kept, n⟩ := r
      have hkept := literalTail_length htail
      have happend := stored_append p (.line kept)
      have hliterals := literals_append p (.line kept)
      have hpiece : (Piece.line kept).octets = kept.length := rfl
      have hline : (if (Piece.line kept).isLiteral then 1 else 0) = 0 := rfl
      simp only
      split
      · exact ⟨trivial, hnone⟩
      · rename_i hn
        split
        · exact ⟨trivial, hnone⟩
        · rename_i hcaps
          refine ⟨Nat.le_of_not_lt hn, fun q hq => ?_⟩
          rw [not_or, Nat.not_lt, Nat.not_lt] at hcaps
          obtain ⟨hcount, htotal⟩ := hcaps
          cases hq
          refine ⟨?_, ?_, ?_, htotal⟩
          · show Pending.literals { p with pieces := p.pieces ++ [.line kept] } + 1 =
              p.literalCount + 1
            omega
          · show Pending.literals { p with pieces := p.pieces ++ [.line kept] } + 1 ≤ _
            omega
          · show Pending.stored { p with pieces := p.pieces ++ [.line kept] } + n ≤
              p.totalBytes + line.length + 2 + n
            omega

/-- A literal that has arrived is what was charged for it. -/
theorem literal_within {p : Pending} {n : Nat} {data : Octets} (hdata : data.length = n)
    (h : (Mode.literal p n).Within limits) :
    (Mode.line (some { p with pieces := p.pieces ++ [.literal data] })).Within limits := by
  intro q hq
  cases hq
  obtain ⟨hcounted, hliterals, hstored, htotal⟩ := h p rfl
  have hcounted : p.literals + 1 = p.literalCount := hcounted
  have hliterals : p.literals + 1 ≤ limits.maxLiterals := hliterals
  have hstored : p.stored + n ≤ p.totalBytes := hstored
  have happend := stored_append p (.literal data)
  have hmore := literals_append p (.literal data)
  have hpiece : (Piece.literal data).octets = data.length := rfl
  have hliteral : (if (Piece.literal data).isLiteral then 1 else 0) = 1 := rfl
  refine ⟨?_, ?_, ?_, htotal⟩
  · show Pending.literals { p with pieces := p.pieces ++ [.literal data] } + 0 = p.literalCount
    omega
  · show Pending.literals { p with pieces := p.pieces ++ [.literal data] } + 0 ≤ _
    omega
  · show Pending.stored { p with pieces := p.pieces ++ [.literal data] } + 0 ≤ p.totalBytes
    omega

/-- A round of the loop that takes a part keeps the bounds. -/
theorem take_within {mode mode' : Mode} {buf rest : Octets} {evs : List Event}
    (hnext : next limits mode buf = .take evs mode' rest) (h : mode.Within limits) :
    (∀ e ∈ evs, e.Within limits) ∧ mode'.Within limits := by
  rcases next_take_cases hnext with ⟨p, data, rfl, _, rfl, rfl⟩ | ⟨pending, raw, rfl, _, _, rfl, rfl⟩
  · exact ⟨fun e he => absurd he List.not_mem_nil, literal_within rfl h⟩
  · have hline : (consumeLine limits pending (stripCr raw)).1.Within limits ∧
        (consumeLine limits pending (stripCr raw)).2.Within limits := consumeLine_within h
    refine ⟨fun e he => ?_, hline.2⟩
    rw [List.mem_singleton.mp he]
    exact hline.1

/-- Whatever the client sends, the bounds are kept. -/
theorem Reached.within {evs : List Event} {mode : Mode} {buf : Octets}
    (h : Reached limits evs mode buf) : (∀ e ∈ evs, e.Within limits) ∧ mode.Within limits := by
  induction h with
  | start => exact ⟨fun e he => absurd he List.not_mem_nil, fun p hp => by cases hp⟩
  | fed data _ ih => exact ih
  | took _ hnext ih =>
    obtain ⟨hevs, hmode⟩ := take_within hnext ih.2
    refine ⟨fun e he => ?_, hmode⟩
    rcases List.mem_append.mp he with he | he
    · exact ih.1 e he
    · exact hevs e he
  | halted _ hnext ih =>
    obtain ⟨_, rfl, rfl⟩ := next_halt_cases hnext
    refine ⟨fun e he => ?_, fun p hp => by cases hp⟩
    rcases List.mem_append.mp he with he | he
    · exact ih.1 e he
    · rw [List.mem_singleton.mp he]
      trivial

/-! ## Refusals -/

/-- With this line the command would exceed one of its caps. -/
def Exceeds (limits : Limits) (p : Pending) (line : Octets) : Prop :=
  match literalTail line with
  | some (_, n) => limits.maxLiteral < n ∨ limits.maxLiterals < p.literalCount + 1 ∨
      limits.maxCommandBytes < p.totalBytes + line.length + 2 + n
  | none => limits.maxCommandBytes < p.totalBytes + line.length + 2

/-- A line that would exceed a cap is answered by an error, and nothing of the command
is left. -/
theorem consumeLine_refuses {pending : Option Pending} {line : Octets}
    (h : Exceeds limits (opened pending line) line) :
    ∃ tag message, consumeLine limits pending line = (.error tag message false, .line none) := by
  rw [consumeLine_opened]
  generalize opened pending line = p at h
  unfold Exceeds at h
  simp only [consumeLine, Option.getD_some]
  by_cases hnul : 0 ∈ line
  · simp only [if_pos hnul]
    exact ⟨_, _, rfl⟩
  · simp only [if_neg hnul]
    cases htail : literalTail line with
    | none =>
      rw [htail] at h
      have h : limits.maxCommandBytes < p.totalBytes + line.length + 2 := h
      simp only [if_pos h]
      exact ⟨_, _, rfl⟩
    | some r =>
      obtain ⟨kept, n⟩ := r
      rw [htail] at h
      simp only
      split
      · exact ⟨_, _, rfl⟩
      · rename_i hn
        have hcaps : limits.maxLiterals < p.literalCount + 1 ∨
            limits.maxCommandBytes < p.totalBytes + line.length + 2 + n := h.resolve_left hn
        rw [if_pos hcaps]
        exact ⟨_, _, rfl⟩

/-- After an error nothing of the command is left. -/
theorem consumeLine_error {pending : Option Pending} {line : Octets} {tag : Option Octets}
    {message : String} {fatal : Bool}
    (h : (consumeLine limits pending line).1 = .error tag message fatal) :
    (consumeLine limits pending line).2 = .line none := by
  rw [consumeLine_opened] at h ⊢
  generalize opened pending line = p at h
  simp only [consumeLine, Option.getD_some] at h ⊢
  split
  · rfl
  · rename_i hnul
    rw [if_neg hnul] at h
    split
    · rename_i kept n htail
      rw [htail] at h
      simp only at h
      split
      · rfl
      · rename_i hn
        rw [if_neg hn] at h
        split
        · rfl
        · rename_i hcaps
          rw [if_neg hcaps] at h
          cases h
    · split <;> rfl

/-- Whatever the client sends, and however it is cut. -/
structure ResourceBounds (limits : Limits) : Prop where
  requests : ∀ evs mode buf, Reached limits evs mode buf → ∀ n, Event.continuation n ∈ evs →
    n ≤ limits.maxLiteral
  held : ∀ evs mode buf, Reached limits evs mode buf → ∀ p, mode.pending = some p →
    p.literals + mode.awaitedLiterals ≤ limits.maxLiterals ∧
    p.stored + mode.awaited ≤ p.totalBytes ∧ p.totalBytes ≤ limits.maxCommandBytes
  commands : ∀ evs mode buf, Reached limits evs mode buf → ∀ tag name args,
    Event.command tag name args ∈ evs →
    tag.length + name.length + octetsIn args ≤ limits.maxCommandBytes
  refused : ∀ pending raw rest, lf ∉ raw →
    Exceeds limits (opened pending (stripCr raw)) (stripCr raw) →
    ∃ e, (next limits (.line pending) (raw ++ lf :: rest) = .take [e] (.line none) rest ∨
      next limits (.line pending) (raw ++ lf :: rest) = .halt [e] (.line none) rest) ∧
      ∃ tag message fatal, e = .error tag message fatal
  afresh : ∀ mode buf tag message fatal mode' rest,
    (next limits mode buf = .take [.error tag message fatal] mode' rest ∨
      next limits mode buf = .halt [.error tag message fatal] mode' rest) →
    (⟨limits, mode', rest⟩ : CommandParser) = (CommandParser.new limits).feed rest
  fed : ∀ cs, ∃ mode buf, Reached limits ((CommandParser.new limits).feedAll cs) mode buf

theorem resource_bounds (limits : Limits) : ResourceBounds limits where
  requests _ _ _ h n hn := h.within.1 (.continuation n) hn
  held _ _ _ h p hp :=
    ⟨(h.within.2 p hp).literals, (h.within.2 p hp).stored, (h.within.2 p hp).total⟩
  commands _ _ _ h tag name args hc := h.within.1 (.command tag name args) hc
  refused pending raw rest hraw hexceeds := by
    rw [next_line hraw]
    by_cases hlong : limits.maxLine < (stripCr raw).length
    · rw [if_pos hlong]
      exact ⟨tooLong, .inr rfl, _, _, _, rfl⟩
    · obtain ⟨tag, message, heq⟩ := consumeLine_refuses hexceeds
      rw [if_neg hlong, heq]
      exact ⟨_, .inl rfl, tag, message, false, rfl⟩
  afresh mode buf tag message fatal mode' rest h := by
    have hmode : mode' = .line none := by
      rcases h with h | h
      · rcases next_take_cases h with ⟨_, _, _, _, hevs, _⟩ | ⟨pending, raw, _, _, _, hevs, rfl⟩
        · cases hevs
        · exact consumeLine_error (List.singleton_inj.mp hevs).symm
      · exact (next_halt_cases h).2.2
    subst hmode
    rfl
  fed := reached_feedAll limits

end Parser
end ImapGateway
