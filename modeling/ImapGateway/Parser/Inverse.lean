/-
The parser reads back a command that was written out.

Written out, the literals of a command are announced at the ends of its lines,
behind a space or an opening parenthesis, and its last line ends in nothing that
looks like an announcement: every brace in it is followed by a bracket or a quote
that closes what the brace stands in.
-/
import ImapGateway.Parser.Encode
import ImapGateway.Parser.Chunks

namespace ImapGateway
namespace Parser

open Octet Incremental

/-! ## Octets of a command -/

/-- The decimal digits of a number. -/
def decimalDigits (n : Nat) : Octets :=
  if n = 0 then [0x30] else (Nat.digits 10 n).reverse.map fun d => UInt8.ofNat (d + 48)

/-- `{N}` -/
def announcement (n : Nat) : Octets := lbrace :: (decimalDigits n ++ [rbrace])

def octetsOf : List Sign → Octets
  | [] => []
  | .octet ch :: signs => ch :: octetsOf signs
  | .literal data :: signs => announcement data.length ++ cr :: lf :: (data ++ octetsOf signs)

def literalsOf : List Sign → List Octets
  | [] => []
  | .octet _ :: signs => literalsOf signs
  | .literal data :: signs => data :: literalsOf signs

/-- The line up to its end, with the announcement of the literal behind it. -/
def physicalLine : List Sign → Octets
  | [] => []
  | .octet ch :: signs => ch :: physicalLine signs
  | .literal data :: _ => announcement data.length

def laterLines : List Sign → List Octets
  | [] => []
  | .octet _ :: signs => laterLines signs
  | .literal _ :: signs => physicalLine signs :: laterLines signs

/-- A command as a client sends it. -/
def commandOctets (tag name : Octets) (args : List Token) : Octets :=
  octetsOf (commandSigns tag name args) ++ [cr, lf]

/-- The sizes are within all limits.  Lengths of literals have at most twelve digits. -/
structure Fits (limits : Limits) (signs : List Sign) : Prop where
  line : ∀ line ∈ physicalLine signs :: laterLines signs, line.length ≤ limits.maxLine
  literal : ∀ data ∈ literalsOf signs, data.length ≤ limits.maxLiteral ∧ data.length < 10 ^ 12
  count : (literalsOf signs).length ≤ limits.maxLiterals
  bytes : (octetsOf signs).length + 2 ≤ limits.maxCommandBytes

/-- A line without literals fits if it is short enough. -/
theorem Fits.line_only {limits : Limits} {line : Octets} (hline : line.length ≤ limits.maxLine)
    (hbytes : line.length + 2 ≤ limits.maxCommandBytes) : Fits limits (text line) := by
  have hparts : physicalLine (text line) = line ∧ laterLines (text line) = [] ∧
      literalsOf (text line) = [] ∧ octetsOf (text line) = line := by
    clear hline hbytes
    induction line with
    | nil => exact ⟨rfl, rfl, rfl, rfl⟩
    | cons ch line ih =>
      obtain ⟨hphysical, hlater, hliterals, hoctets⟩ := ih
      exact ⟨congrArg (ch :: ·) hphysical, hlater, hliterals, congrArg (ch :: ·) hoctets⟩
  obtain ⟨hphysical, hlater, hliterals, hoctets⟩ := hparts
  constructor
  · rw [hphysical, hlater]
    intro l hl
    rwa [List.mem_singleton.mp hl]
  · rw [hliterals]
    exact nofun
  · rw [hliterals]
    exact Nat.zero_le _
  · rwa [hoctets]

/-! ## Announcements -/

theorem isDigit_ofNat {d : Nat} (h : d < 10) : isDigit (UInt8.ofNat (d + 48)) = true ∧
    (UInt8.ofNat (d + 48)).toNat - 48 = d := by
  have hd : d ∈ List.range 10 := List.mem_range.mpr h
  revert d
  decide

theorem decimalDigits_isDigit (n : Nat) : ∀ ch ∈ decimalDigits n, isDigit ch = true := by
  rw [decimalDigits]
  split
  · decide +kernel
  · intro ch hch
    obtain ⟨d, hd, rfl⟩ := List.mem_map.mp hch
    exact (isDigit_ofNat (Nat.digits_lt_base (by omega) (List.mem_reverse.mp hd))).1

theorem decimal_decimalDigits (n : Nat) : decimal (decimalDigits n) = n := by
  rw [decimalDigits]
  split
  · rename_i h
    rw [h]
    rfl
  · rw [decimal, List.foldl_map, List.foldl_reverse]
    have hfold : ∀ L : List Nat, (∀ d ∈ L, d < 10) →
        L.foldr (fun d n => 10 * n + ((UInt8.ofNat (d + 48)).toNat - 48)) 0 = Nat.ofDigits 10 L := by
      intro L hL
      induction L with
      | nil => rfl
      | cons d L ih =>
        rw [List.foldr_cons, ih fun e he => hL e (List.mem_cons_of_mem _ he),
          (isDigit_ofNat (hL d (List.mem_cons_self ..))).2, Nat.ofDigits_cons]
        omega
    rw [hfold _ fun d hd => Nat.digits_lt_base (by omega) hd]
    exact Nat.ofDigits_digits 10 n

theorem decimalDigits_length {n : Nat} (h : n < 10 ^ 12) :
    1 ≤ (decimalDigits n).length ∧ (decimalDigits n).length ≤ 12 := by
  rw [decimalDigits]
  split
  · decide
  · rename_i hn
    rw [List.length_map, List.length_reverse]
    refine ⟨?_, (Nat.digits_length_le_iff (by omega) n).mpr h⟩
    exact List.length_pos_of_ne_nil (Nat.digits_ne_nil_iff_ne_zero.mpr hn)

/-- What may stand before an announcement. -/
def Announces (prev : Option UInt8) : Prop :=
  ∀ ch, prev = some ch → ch = space ∨ ch = lparen

theorem literalTail_announcement {line : Octets} {n : Nat} (hl : Announces line.getLast?)
    (hn : n < 10 ^ 12) : literalTail (line ++ announcement n) = some (line, n) := by
  obtain ⟨hlo, hhi⟩ := decimalDigits_length hn
  have hrev : (line ++ announcement n).reverse =
      rbrace :: ((decimalDigits n).reverse ++ lbrace :: line.reverse) := by
    simp [announcement]
  have hdig : ∀ ch ∈ (decimalDigits n).reverse, isDigit ch = true := fun ch hch =>
    decimalDigits_isDigit n ch (List.mem_reverse.mp hch)
  have htake : ((decimalDigits n).reverse ++ lbrace :: line.reverse).takeWhile isDigit =
      (decimalDigits n).reverse := by
    rw [List.takeWhile_append_of_pos hdig]
    simp [show isDigit lbrace = false from rfl]
  have hdrop : ((decimalDigits n).reverse ++ lbrace :: line.reverse).dropWhile isDigit =
      lbrace :: line.reverse := by
    rw [List.dropWhile_append_of_pos hdig]
    simp [show isDigit lbrace = false from rfl]
  have hbefore : (line.reverse.head?.all fun ch =>
      decide (ch = space) || decide (ch = lparen)) = true := by
    rw [List.head?_reverse]
    cases hlast : line.getLast? with
    | none => rfl
    | some ch => simpa using hl ch hlast
  rw [literalTail, hrev]
  simp only [htake, hdrop]
  rw [if_pos ⟨trivial, trivial, by rwa [List.length_reverse], by rwa [List.length_reverse], hbefore⟩,
    List.reverse_reverse, List.reverse_reverse, decimal_decimalDigits]

/-- Every opening brace is followed by a closing bracket or a quote. -/
def Guarded (line : Octets) : Prop :=
  ∀ a b, line = a ++ lbrace :: b → rbracket ∈ b ∨ quote ∈ b

theorem literalTail_guarded {line : Octets} (h : Guarded line) : literalTail line = none := by
  rw [literalTail]
  split
  · rfl
  · rename_i last body hrev
    split
    · rfl
    · rename_i first before hdrop
      rw [if_neg]
      rintro ⟨rfl, rfl, _⟩
      have hbody : body = body.takeWhile isDigit ++ lbrace :: before := by
        conv_lhs => rw [← List.takeWhile_append_dropWhile (p := isDigit) (l := body), hdrop]
      have hline : line = before.reverse ++ lbrace ::
          ((body.takeWhile isDigit).reverse ++ [rbrace]) := by
        have heq : line = (rbrace :: (body.takeWhile isDigit ++ lbrace :: before)).reverse := by
          rw [← hbody, ← hrev, List.reverse_reverse]
        rw [heq]
        simp
      have hno : ∀ ch, isDigit ch = false → ch ≠ rbrace →
          ch ∉ (body.takeWhile isDigit).reverse ++ [rbrace] := by
        intro ch hd hne hmem
        rcases List.mem_append.mp hmem with hmem | hmem
        · have := List.mem_takeWhile_imp (List.mem_reverse.mp hmem)
          rw [hd] at this
          cases this
        · exact hne (List.mem_singleton.mp hmem)
      rcases h _ _ hline with hb | hq
      · exact hno rbracket (by decide) (by decide) hb
      · exact hno quote (by decide) (by decide) hq

/-! ## Reading lines and literals -/

variable {limits : Limits}

/-- No octet of a line that is read ends or spoils it. -/
def Clean (line : Octets) : Prop := lf ∉ line ∧ 0 ∉ line

/-- From behind `line`, with `total` octets and `count` literals of the command read
before it, the signs can be read within the limits. -/
inductive Readable (limits : Limits) : Nat → Nat → Octets → List Sign → Prop
  | last {total count : Nat} {line : Octets} : Clean line → line.length ≤ limits.maxLine →
      Guarded line → total + line.length + 2 ≤ limits.maxCommandBytes →
      Readable limits total count line []
  | octet {total count : Nat} {line : Octets} {ch : UInt8} {signs : List Sign} :
      Readable limits total count (line ++ [ch]) signs →
      Readable limits total count line (.octet ch :: signs)
  | literal {total count : Nat} {line data : Octets} {signs : List Sign} : Clean line →
      (line ++ announcement data.length).length ≤ limits.maxLine → Announces line.getLast? →
      data.length ≤ limits.maxLiteral → data.length < 10 ^ 12 → count + 1 ≤ limits.maxLiterals →
      total + (line ++ announcement data.length).length + 2 + data.length ≤
        limits.maxCommandBytes →
      Readable limits (total + (line ++ announcement data.length).length + 2 + data.length)
        (count + 1) [] signs →
      Readable limits total count line (.literal data :: signs)

/-- What is kept of the command so far. -/
def kept (pending : Option Pending) : Pending := pending.getD ⟨none, [], 0, 0⟩

theorem announcement_clean (n : Nat) : Clean (announcement n) := by
  have hno : ∀ ch, isDigit ch = false → ch ≠ lbrace → ch ≠ rbrace → ch ∉ announcement n := by
    intro ch hd hl hr hmem
    rcases List.mem_cons.mp hmem with rfl | hmem
    · exact hl rfl
    · rcases List.mem_append.mp hmem with hmem | hmem
      · rw [decimalDigits_isDigit n ch hmem] at hd
        cases hd
      · exact hr (List.mem_singleton.mp hmem)
  exact ⟨hno _ (by decide) (by decide) (by decide), hno _ (by decide) (by decide) (by decide)⟩

theorem Clean.append {a b : Octets} (ha : Clean a) (hb : Clean b) : Clean (a ++ b) := by
  simp only [Clean, List.mem_append, not_or]
  exact ⟨⟨ha.1, hb.1⟩, ha.2, hb.2⟩

/-- A line and its end are taken as the line. -/
theorem next_crlf {pending : Option Pending} {line rest : Octets} (hc : Clean line)
    (hlen : line.length ≤ limits.maxLine) :
    next limits (.line pending) (line ++ cr :: lf :: rest) =
      .take [(consumeLine limits pending line).1] (consumeLine limits pending line).2 rest := by
  have hlf : lf ∉ line ++ [cr] := by
    rw [List.mem_append, not_or]
    exact ⟨hc.1, by decide⟩
  have hstrip : stripCr (line ++ [cr]) = line := by
    rw [stripCr, List.getLast?_concat, if_pos rfl, List.dropLast_concat]
  have heq : line ++ cr :: lf :: rest = (line ++ [cr]) ++ lf :: rest := by simp
  rw [heq, next_line hlf, hstrip, if_neg (by omega)]

theorem kept_getD (pending : Option Pending) (tag : Option Octets) :
    (pending.getD ⟨tag, [], 0, 0⟩).pieces = (kept pending).pieces ∧
      (pending.getD ⟨tag, [], 0, 0⟩).totalBytes = (kept pending).totalBytes ∧
      (pending.getD ⟨tag, [], 0, 0⟩).literalCount = (kept pending).literalCount := by
  cases pending <;> exact ⟨rfl, rfl, rfl⟩

/-- The octets of an awaited literal are taken. -/
theorem next_data (limits : Limits) (P : Pending) (data rest : Octets) :
    next limits (.literal P data.length) (data ++ rest) =
      .take [] (.line (some { P with pieces := P.pieces ++ [.literal data] })) rest :=
  next_literal rfl rest

/-- The last line of a command ends it. -/
theorem consumeLine_last (limits : Limits) (pending : Option Pending) {line : Octets} (hc : Clean line)
    (hg : Guarded line)
    (hb : (kept pending).totalBytes + line.length + 2 ≤ limits.maxCommandBytes) :
    ∃ P, P.pieces = (kept pending).pieces ++ [.line line] ∧
      consumeLine limits pending line = (buildCommand P, .line none) := by
  obtain ⟨hp, ht, _⟩ := kept_getD pending (extractTag line)
  refine ⟨{ pending.getD ⟨extractTag line, [], 0, 0⟩ with
    pieces := (pending.getD ⟨extractTag line, [], 0, 0⟩).pieces ++ [.line line] }, by rw [hp], ?_⟩
  simp only [consumeLine, literalTail_guarded hg]
  rw [if_neg hc.2, if_neg (by omega)]

/-- A line that announces a literal within the limits is answered by a continuation
request. -/
theorem consumeLine_literal (limits : Limits) (pending : Option Pending) {line : Octets} {n : Nat}
    (hc : Clean line) (ha : Announces line.getLast?) (hn : n < 10 ^ 12) (hlit : n ≤ limits.maxLiteral)
    (hcount : (kept pending).literalCount + 1 ≤ limits.maxLiterals)
    (hb : (kept pending).totalBytes + (line ++ announcement n).length + 2 + n ≤
      limits.maxCommandBytes) :
    ∃ P : Pending, P.pieces = (kept pending).pieces ++ [.line line] ∧
      P.totalBytes = (kept pending).totalBytes + (line ++ announcement n).length + 2 + n ∧
      P.literalCount = (kept pending).literalCount + 1 ∧
      consumeLine limits pending (line ++ announcement n) = (.continuation n, .literal P n) := by
  have hclean := hc.append (announcement_clean n)
  obtain ⟨hp, ht, hl⟩ := kept_getD pending (extractTag (line ++ announcement n))
  refine ⟨{ pending.getD ⟨extractTag (line ++ announcement n), [], 0, 0⟩ with
    pieces := (pending.getD ⟨extractTag (line ++ announcement n), [], 0, 0⟩).pieces ++ [.line line]
    totalBytes := (pending.getD ⟨extractTag (line ++ announcement n), [], 0, 0⟩).totalBytes +
      (line ++ announcement n).length + 2 + n
    literalCount := (pending.getD ⟨extractTag (line ++ announcement n), [], 0, 0⟩).literalCount
      + 1 }, by rw [hp], by rw [ht], by rw [hl], ?_⟩
  simp only [consumeLine, literalTail_announcement ha hn]
  rw [if_neg hclean.2, if_neg (by omega), if_neg (by omega)]

/-- Readable signs are read: a continuation request for each literal, and then the
command their pieces build. -/
theorem Readable.comes {total count : Nat} {line : Octets} {signs : List Sign}
    (h : Readable limits total count line signs) {pending : Option Pending}
    (ht : (kept pending).totalBytes = total) (hn : (kept pending).literalCount = count)
    (rest : Octets) :
    ∃ P : Pending, P.pieces = (kept pending).pieces ++
        .line (line ++ lineOf signs) :: laterPieces signs ∧
      (reader limits).Comes (.line pending) (line ++ (octetsOf signs ++ cr :: lf :: rest))
        ((literalsOf signs).map (fun data => .continuation data.length) ++ [buildCommand P])
        (.line none) rest := by
  induction h generalizing pending with
  | @last total count line hc hlen hg hb =>
    obtain ⟨P, hP, heq⟩ := consumeLine_last limits pending hc hg
      (by rw [ht]; exact hb)
    refine ⟨P, by rw [hP, lineOf_nil, List.append_nil]; rfl, ?_⟩
    have hnext : (reader limits).next (.line pending) (line ++ cr :: lf :: rest) = _ :=
      next_crlf hc hlen
    rw [heq] at hnext
    have hstep := Reader.Comes.step hnext (Reader.Comes.refl (R := reader limits) (.line none) rest)
    exact hstep
  | @octet total count line ch signs _ ih =>
    obtain ⟨P, hP, hcomes⟩ := ih ht hn
    rw [List.append_assoc] at hP hcomes
    exact ⟨P, hP, hcomes⟩
  | @literal total count line data signs hc hlen ha hlit htwelve hcount hb _ ih =>
    obtain ⟨P, hP, hPt, hPn, heq⟩ := consumeLine_literal limits pending hc ha
      htwelve hlit (by rw [hn]; exact hcount) (by rw [ht]; exact hb)
    have hclean := hc.append (announcement_clean data.length)
    have hnext : (reader limits).next (.line pending) ((line ++ announcement data.length) ++
        cr :: lf :: (data ++ (octetsOf signs ++ cr :: lf :: rest))) = _ := next_crlf hclean hlen
    rw [heq] at hnext
    have hdata : (reader limits).next (.literal P data.length)
        (data ++ (octetsOf signs ++ cr :: lf :: rest)) = _ := next_data limits P data _
    let P' : Pending := { P with pieces := P.pieces ++ [.literal data] }
    have hkept : kept (some P') = P' := rfl
    obtain ⟨Q, hQ, hcomes⟩ := @ih (some P') (hPt.trans (by rw [ht])) (hPn.trans (by rw [hn]))
    refine ⟨Q, ?_, ?_⟩
    · rw [hQ, List.nil_append, hkept, lineOf_literal, List.append_nil]
      show (P.pieces ++ [.literal data]) ++ _ = _
      rw [hP]
      simp only [List.append_assoc, List.singleton_append]
      rfl
    · have hcat : line ++ (octetsOf (.literal data :: signs) ++ cr :: lf :: rest) =
          (line ++ announcement data.length) ++
            cr :: lf :: (data ++ (octetsOf signs ++ cr :: lf :: rest)) := by
        simp [octetsOf, List.append_assoc]
      rw [hcat]
      have hstep := Reader.Comes.step hnext (Reader.Comes.step hdata hcomes)
      exact hstep

/-! ## How a command is laid out -/

/-- Every octet is printable, and what stands before a literal announces it. -/
def Placed : Option UInt8 → List Sign → Prop
  | _, [] => True
  | _, .octet ch :: signs => isPrintable ch = true ∧ Placed (some ch) signs
  | prev, .literal _ :: signs => Announces prev ∧ Placed none signs

/-- Every opening brace is followed in its line by a closing bracket or a quote. -/
def GuardedSigns (signs : List Sign) : Prop :=
  ∀ a b, signs = a ++ .octet lbrace :: b → rbracket ∈ lineOf b ∨ quote ∈ lineOf b

theorem clean_of_printable {line : Octets} (h : ∀ ch ∈ line, isPrintable ch = true) : Clean line := by
  refine ⟨fun hmem => ?_, fun hmem => ?_⟩
  · exact absurd (h _ hmem) (by decide)
  · exact absurd (h _ hmem) (by decide)

theorem guarded_of_signs {line : Octets} (h : GuardedSigns (text line)) : Guarded line := by
  intro a b heq
  have hb := h (text a) (text b) (by rw [heq]; simp [text])
  have hline : lineOf (text b) = b := by
    have := lineOf_text b []
    rwa [List.append_nil, lineOf_nil, List.append_nil] at this
  rwa [hline] at hb

/-- A command laid out well and within the limits is readable. -/
theorem readable_of_placed {signs : List Sign} {line : Octets} {total count : Nat}
    (hp : Placed line.getLast? signs) (hline : ∀ ch ∈ line, isPrintable ch = true)
    (hg : GuardedSigns (text line ++ signs))
    (hfirst : (line ++ physicalLine signs).length ≤ limits.maxLine)
    (hlater : ∀ l ∈ laterLines signs, l.length ≤ limits.maxLine)
    (hlit : ∀ data ∈ literalsOf signs, data.length ≤ limits.maxLiteral ∧ data.length < 10 ^ 12)
    (hcount : count + (literalsOf signs).length ≤ limits.maxLiterals)
    (hbytes : total + line.length + (octetsOf signs).length + 2 ≤ limits.maxCommandBytes) :
    Readable limits total count line signs := by
  induction signs generalizing line total count with
  | nil =>
    rw [List.append_nil] at hg
    simp only [octetsOf, List.length_nil, physicalLine, List.append_nil] at hbytes hfirst
    exact .last (clean_of_printable hline) hfirst (guarded_of_signs hg) (by omega)
  | cons sign signs ih =>
    cases sign with
    | octet ch =>
      have hcat : text (line ++ [ch]) ++ signs = text line ++ .octet ch :: signs := by simp [text]
      refine .octet (ih ?_ ?_ (hcat ▸ hg) ?_ hlater hlit hcount ?_)
      · rw [List.getLast?_concat]
        exact hp.2
      · intro c hc
        rcases List.mem_append.mp hc with hc | hc
        · exact hline c hc
        · rw [List.mem_singleton.mp hc]
          exact hp.1
      · rw [List.append_assoc]
        exact hfirst
      · simp only [octetsOf, List.length_cons, List.length_append, List.length_nil] at hbytes ⊢
        omega
    | literal data =>
      have hdata := hlit data (List.mem_cons_self ..)
      have hlen : (octetsOf (.literal data :: signs)).length =
          (announcement data.length).length + 2 + data.length + (octetsOf signs).length := by
        simp [octetsOf]
        omega
      rw [hlen] at hbytes
      have hlits : (literalsOf (.literal data :: signs)).length = (literalsOf signs).length + 1 := rfl
      rw [hlits] at hcount
      refine .literal (clean_of_printable hline) hfirst hp.1 hdata.1 hdata.2 (by omega) ?_
        (ih hp.2 (fun ch hch => absurd hch List.not_mem_nil) ?_ ?_ ?_ ?_ ?_ ?_)
      · rw [List.length_append]
        omega
      · intro a b heq
        have heq : signs = a ++ .octet lbrace :: b := heq
        exact hg (text line ++ .literal data :: a) b (by rw [heq]; simp)
      · exact hlater _ (List.mem_cons_self ..)
      · exact fun l hl => hlater l (List.mem_cons_of_mem _ hl)
      · exact fun d hd => hlit d (List.mem_cons_of_mem _ hd)
      · omega
      · rw [List.length_append, List.length_nil]
        omega

/-! ### Printable octets -/

theorem escape_printable {value : Octets} (h : ∀ ch ∈ value, isPrintable ch = true) :
    ∀ ch ∈ escape value, isPrintable ch = true := by
  intro ch hch
  obtain ⟨c, hc, hmem⟩ := List.mem_flatMap.mp hch
  split at hmem
  · rcases List.mem_cons.mp hmem with rfl | hmem
    · decide
    · rw [List.mem_singleton.mp hmem]
      exact h c hc
  · rw [List.mem_singleton.mp hmem]
    exact h c hc

theorem quotedText_printable {value : Octets} (h : ∀ ch ∈ value, isPrintable ch = true) :
    ∀ ch ∈ quotedText value, isPrintable ch = true := by
  intro ch hch
  rcases List.mem_cons.mp hch with rfl | hch
  · decide
  · rcases List.mem_append.mp hch with hch | hch
    · exact escape_printable h ch hch
    · rw [List.mem_singleton.mp hch]
      decide

theorem SectionText.printable {inner : Octets} (h : SectionText inner) :
    ∀ ch ∈ inner, isPrintable ch = true := by
  induction h with
  | nil => exact fun ch hch => absurd hch List.not_mem_nil
  | octet hp _ _ _ _ ih =>
    intro ch hch
    rcases List.mem_cons.mp hch with rfl | hch
    · exact hp
    · exact ih ch hch
  | quoted hv _ ih =>
    intro ch hch
    rcases List.mem_append.mp hch with hch | hch
    · exact quotedText_printable hv ch hch
    · exact ih ch hch
  | nested _ _ ih₁ ih₂ =>
    intro ch hch
    rcases List.mem_cons.mp hch with rfl | hch
    · decide
    · rcases List.mem_append.mp hch with hch | hch
      · exact ih₁ ch hch
      · rcases List.mem_cons.mp hch with rfl | hch
        · decide
        · exact ih₂ ch hch

theorem AtomText.printable {value : Octets} (h : AtomText value) :
    ∀ ch ∈ value, isPrintable ch = true := by
  induction h with
  | nil => exact fun ch hch => absurd hch List.not_mem_nil
  | octet hp _ _ _ ih =>
    intro ch hch
    rcases List.mem_cons.mp hch with rfl | hch
    · exact hp
    · exact ih ch hch
  | «section» hin _ ih =>
    intro ch hch
    rcases List.mem_cons.mp hch with rfl | hch
    · decide
    · rcases List.mem_append.mp hch with hch | hch
      · exact hin.printable ch hch
      · rcases List.mem_cons.mp hch with rfl | hch
        · decide
        · exact ih ch hch

/-! ### Where literals stand -/

theorem placed_text {octets : Octets} (h : ∀ ch ∈ octets, isPrintable ch = true)
    {signs : List Sign} (hs : ∀ prev, Placed prev signs) (prev : Option UInt8) :
    Placed prev (text octets ++ signs) := by
  induction octets generalizing prev with
  | nil => exact hs prev
  | cons ch octets ih =>
    exact ⟨h ch (List.mem_cons_self ..), ih (fun c hc => h c (List.mem_cons_of_mem _ hc)) _⟩

theorem announces_space : Announces (some space) := fun _ h => .inl (Option.some.inj h).symm

theorem announces_lparen : Announces (some lparen) := fun _ h => .inr (Option.some.inj h).symm

mutual

theorem placed_token (t : Token) (h : t.Writable) {signs : List Sign}
    (hs : ∀ prev, Placed prev signs) {prev : Option UInt8} (ha : Announces prev) :
    Placed prev (t.signs ++ signs) := by
  match t, h with
  | .atom value, .atom hv _ => exact placed_text hv.printable hs prev
  | .quoted value, .quoted hv => exact placed_text (quotedText_printable hv) hs prev
  | .literal value, .literal _ => exact ⟨ha, hs none⟩
  | .list items, .list hitems =>
    have hclose : ∀ prev, Placed prev (.octet rparen :: signs) := fun _ => ⟨by decide, hs _⟩
    have hin := placed_items items hitems hclose announces_lparen
    rw [Token.signs, List.cons_append, List.append_assoc]
    exact ⟨by decide, hin⟩

theorem placed_items (items : List Token) (h : ∀ t ∈ items, t.Writable) {signs : List Sign}
    (hs : ∀ prev, Placed prev signs) {prev : Option UInt8} (ha : Announces prev) :
    Placed prev (itemSigns items ++ signs) := by
  match items with
  | [] => exact hs prev
  | [t] =>
    rw [itemSigns]
    exact placed_token t (h t (List.mem_cons_self ..)) hs ha
  | t :: u :: ts =>
    have hts := placed_items (u :: ts) (fun t ht => h t (List.mem_cons_of_mem _ ht)) hs
      announces_space
    have hspace : ∀ prev, Placed prev (.octet space :: (itemSigns (u :: ts) ++ signs)) :=
      fun _ => ⟨by decide, hts⟩
    have ht := placed_token t (h t (List.mem_cons_self ..)) hspace ha
    rw [itemSigns, List.append_assoc, List.cons_append]
    · exact ht
    · simp

end

theorem placed_args (args : List Token) (h : ∀ t ∈ args, t.Writable) (prev : Option UInt8) :
    Placed prev (args.flatMap fun t => .octet space :: t.signs) := by
  induction args generalizing prev with
  | nil => trivial
  | cons t args ih =>
    have hargs := ih fun t ht => h t (List.mem_cons_of_mem _ ht)
    have ht := placed_token t (h t (List.mem_cons_self ..)) hargs announces_space
    rw [List.flatMap_cons, List.cons_append]
    exact ⟨by decide, ht⟩

/-! ### Braces -/

theorem lineOf_append {b : List Sign} {ch : UInt8} (h : ch ∈ lineOf b) (signs : List Sign) :
    ch ∈ lineOf (b ++ signs) := by
  induction b with
  | nil => cases h
  | cons sign b ih =>
    cases sign with
    | octet c =>
      rcases List.mem_cons.mp h with rfl | h
      · exact List.mem_cons_self ..
      · exact List.mem_cons_of_mem _ (ih h)
    | literal data => cases h

theorem GuardedSigns.append {x y : List Sign} (hx : GuardedSigns x) (hy : GuardedSigns y) :
    GuardedSigns (x ++ y) := by
  intro a b heq
  rcases List.append_eq_append_iff.mp heq with ⟨c, rfl, hc⟩ | ⟨c, rfl, hc⟩
  · exact hy c b hc
  · cases c with
    | nil => exact hy [] b hc.symm
    | cons sign c =>
      rw [List.cons_append] at hc
      obtain ⟨rfl, rfl⟩ := List.cons.inj hc
      exact (hx a c rfl).imp (fun h => lineOf_append h y) fun h => lineOf_append h y

theorem guardedSigns_nil : GuardedSigns [] := by
  intro a b heq
  cases a <;> cases heq

theorem guardedSigns_octet {ch : UInt8} (h : ch ≠ lbrace) : GuardedSigns [.octet ch] := by
  intro a b heq
  cases a with
  | nil =>
    cases heq
    exact absurd rfl h
  | cons _ a => cases a <;> cases heq

theorem guardedSigns_literal (data : Octets) : GuardedSigns [.literal data] := by
  intro a b heq
  cases a with
  | nil => cases heq
  | cons _ a => cases a <;> cases heq

/-- Text that ends in a closing bracket or a quote is guarded. -/
theorem guardedSigns_closed (octets : Octets) {ch : UInt8} (h : ch = rbracket ∨ ch = quote) :
    GuardedSigns (text (octets ++ [ch])) := by
  intro a b heq
  have hne : ch ≠ lbrace := by rcases h with rfl | rfl <;> decide
  have hlast : (a ++ .octet lbrace :: b).getLast? = some (Sign.octet ch) := by
    rw [← heq, text, List.map_append]
    exact List.getLast?_concat ..
  have hb : Sign.octet ch ∈ b := by
    cases b with
    | nil =>
      rw [List.getLast?_concat] at hlast
      cases hlast
      exact absurd rfl hne
    | cons sign b =>
      rw [List.getLast?_append_cons, List.getLast?_cons_cons] at hlast
      exact List.mem_of_getLast? hlast
  have hall : ∀ sign ∈ b, ∃ c, sign = .octet c := by
    intro sign hsign
    have hmem : sign ∈ text (octets ++ [ch]) := by
      rw [heq]
      exact List.mem_append_right _ (List.mem_cons_of_mem _ hsign)
    obtain ⟨c, _, rfl⟩ := List.mem_map.mp hmem
    exact ⟨c, rfl⟩
  have hline : ∀ signs : List Sign, (∀ sign ∈ signs, ∃ c, sign = .octet c) →
      Sign.octet ch ∈ signs → ch ∈ lineOf signs := by
    intro signs hsigns hmem
    induction signs with
    | nil => cases hmem
    | cons sign signs ih =>
      obtain ⟨c, rfl⟩ := hsigns sign (List.mem_cons_self ..)
      rcases List.mem_cons.mp hmem with he | hmem
      · cases he
        exact List.mem_cons_self ..
      · exact List.mem_cons_of_mem _ (ih (fun s hs => hsigns s (List.mem_cons_of_mem _ hs)) hmem)
  have hmem := hline b hall hb
  rcases h with rfl | rfl
  · exact .inl hmem
  · exact .inr hmem

theorem text_append (a b : Octets) : text (a ++ b) = text a ++ text b := List.map_append

theorem guardedSigns_atom {value : Octets} (h : AtomText value) : GuardedSigns (text value) := by
  induction h with
  | nil => exact guardedSigns_nil
  | @octet ch rest _ hs _ _ ih =>
    have hne : ch ≠ lbrace := fun he => hs (he ▸ by decide)
    exact (guardedSigns_octet hne).append ih
  | @«section» inner rest _ _ ih =>
    have heq : lbracket :: (inner ++ rbracket :: rest) = (lbracket :: inner ++ [rbracket]) ++ rest := by
      simp
    rw [heq, text_append]
    exact (guardedSigns_closed _ (.inl rfl)).append ih

mutual

theorem guardedSigns_token (t : Token) (h : t.Writable) : GuardedSigns t.signs := by
  match t, h with
  | .atom value, .atom hv _ => exact guardedSigns_atom hv
  | .quoted value, .quoted _ => exact guardedSigns_closed (quote :: escape value) (.inr rfl)
  | .literal value, .literal _ => exact guardedSigns_literal value
  | .list items, .list hitems =>
    have hin := guardedSigns_items items hitems
    rw [Token.signs]
    exact (guardedSigns_octet (by decide)).append (hin.append (guardedSigns_octet (by decide)))

theorem guardedSigns_items (items : List Token) (h : ∀ t ∈ items, t.Writable) :
    GuardedSigns (itemSigns items) := by
  match items with
  | [] => exact guardedSigns_nil
  | [t] => exact guardedSigns_token t (h t (List.mem_cons_self ..))
  | t :: u :: ts =>
    have ht := guardedSigns_token t (h t (List.mem_cons_self ..))
    have hts := guardedSigns_items (u :: ts) fun t ht => h t (List.mem_cons_of_mem _ ht)
    rw [itemSigns]
    · exact ht.append ((guardedSigns_octet (by decide)).append hts)
    · simp

end

theorem guardedSigns_args (args : List Token) (h : ∀ t ∈ args, t.Writable) :
    GuardedSigns (args.flatMap fun t => .octet space :: t.signs) := by
  induction args with
  | nil => exact guardedSigns_nil
  | cons t args ih =>
    have ht := guardedSigns_token t (h t (List.mem_cons_self ..))
    rw [List.flatMap_cons]
    exact ((guardedSigns_octet (by decide)).append ht).append
      (ih fun t ht => h t (List.mem_cons_of_mem _ ht))

/-! ## What comes before -/

/-- The event ends a command: nothing of it is kept. -/
def Event.concludes : Event → Bool
  | .continuation _ => false
  | _ => true

/-- Complete commands and lines refused without a fatal error: the last event is a
command or an error, none is fatal, and no octet is left. -/
structure Complete (limits : Limits) (octets : Octets) : Prop where
  concluded : ∃ e, (((CommandParser.new limits).feed octets).events.1).getLast? = some e ∧
    e.concludes = true
  nonfatal : ∀ e ∈ ((CommandParser.new limits).feed octets).events.1, e.fatal = false
  taken : ((CommandParser.new limits).feed octets).events.2.buf = []

theorem consumeLine_concludes {pending : Option Pending} {line : Octets}
    (h : (consumeLine limits pending line).1.concludes = true) :
    (consumeLine limits pending line).2 = fresh := by
  simp only [consumeLine] at h ⊢
  split
  · rfl
  · rename_i hnul
    rw [if_neg hnul] at h
    split
    · rename_i kept n htail
      rw [htail] at h
      dsimp only at h
      split
      · rfl
      · rename_i hlit
        rw [if_neg hlit] at h
        split
        · rfl
        · rename_i hbig
          rw [if_neg hbig] at h
          cases h
    · split <;> rfl

/-- No part of a new line is taken without an event. -/
theorem comes_silent {mode : Mode} {buf buf' : Octets} {evs : List Event}
    (h : (reader limits).Comes fresh buf evs mode buf') (hevs : evs = []) : mode = fresh := by
  cases h with
  | refl => rfl
  | step hnext _ =>
    have hnext : next limits fresh buf = .take _ _ _ := hnext
    rcases next_take_cases hnext with ⟨_, _, hmode, _⟩ | ⟨_, _, _, _, _, rfl, _⟩
    · cases hmode
    · cases hevs

/-- After an event that ends a command the parser reads a new line. -/
theorem comes_concluded {mode mode' : Mode} {buf buf' : Octets} {evs : List Event}
    (h : (reader limits).Comes mode buf evs mode' buf') {e : Event} (he : evs.getLast? = some e)
    (hconc : e.concludes = true) : mode' = fresh := by
  induction h with
  | refl => cases he
  | @step mode buf evs mode₁ buf₁ evs' mode₂ buf₂ hnext hcomes ih =>
    by_cases hnil : evs' = []
    · subst hnil
      rw [List.append_nil] at he
      rcases next_take_cases hnext with ⟨_, _, _, _, rfl, _⟩ | ⟨pending, raw, _, _, _, rfl, rfl⟩
      · cases he
      · cases he
        rw [consumeLine_concludes hconc] at hcomes
        exact comes_silent hcomes rfl
    · refine ih ?_
      rwa [List.getLast?_append_of_ne_nil _ hnil] at he

theorem Complete.comes {octets : Octets} (h : Complete limits octets) :
    (reader limits).Comes fresh octets ((CommandParser.new limits).feed octets).events.1 fresh [] := by
  have hhalt : ((reader limits).drain fresh octets).halted = false := by
    obtain ⟨evs, _, heq⟩ := drain_events limits fresh octets
    cases hh : ((reader limits).drain fresh octets).halted with
    | false => rfl
    | true =>
      rw [hh, if_pos rfl] at heq
      have hmem : tooLong ∈ ((CommandParser.new limits).feed octets).events.1 := by
        show tooLong ∈ ((reader limits).drain fresh octets).events
        rw [heq]
        exact List.mem_append_right _ (List.mem_singleton_self _)
      have := h.nonfatal _ hmem
      cases this
  have hcomes := Reader.comes_of_drain hhalt
  obtain ⟨e, he, hconc⟩ := h.concluded
  have hstate : ((reader limits).drain fresh octets).state = fresh := comes_concluded hcomes he hconc
  have hrest : ((reader limits).drain fresh octets).rest = [] := h.taken
  rw [hstate, hrest] at hcomes
  exact hcomes

/-! ## The parser inverts the encoding -/

theorem buildCommand_command {P : Pending} {tag name : Octets} {args : List Token}
    (htok : tokenizePieces P.pieces = .ok (.atom tag :: .atom name :: args))
    (hplain : ∀ ch ∈ tag, ch ≠ 0x2B ∧ ch ≠ 0x2A) :
    buildCommand P = .command tag (upper name) args := by
  have hany : (tag.any fun ch => decide (ch = 0x2B) || decide (ch = 0x2A)) = false := by
    rw [List.any_eq_false]
    intro ch hch
    obtain ⟨hplus, hstar⟩ := hplain ch hch
    simp [hplus, hstar]
  simp only [buildCommand, htok, hany, Bool.false_eq_true, if_false]

/-- The pieces of a command written out are tokenized to its tag, name and arguments. -/
theorem tokenize_command {tag name : Octets} {args : List Token} (htag : AtomText tag)
    (htne : tag ≠ []) (hname : AtomText name) (hnne : name ≠ []) (hargs : ∀ t ∈ args, t.Writable) :
    tokenizePieces (piecesOf (commandSigns tag name args)) =
      .ok (.atom tag :: .atom name :: args) := by
  have hargsStop : Stops (lineOf (args.flatMap fun t => Sign.octet space :: t.signs)) := by
    intro ch hch
    cases args with
    | nil => cases hch
    | cons t args =>
      cases hch
      exact .inl rfl
  have hnameStop : Stops (lineOf (.octet space ::
      (text name ++ args.flatMap fun t => Sign.octet space :: t.signs))) := by
    intro ch hch
    cases hch
    exact .inl rfl
  have hrun : tokenizeFrom (piecesOf (commandSigns tag name args)) .root =
      .ok ⟨.atom tag :: .atom name :: args, []⟩ := by
    show tokenizeSigns (commandSigns tag name args) .root = _
    rw [commandSigns, tokenizeSigns_atom htag htne hnameStop, tokenizeSigns_space,
      tokenizeSigns_atom hname hnne hargsStop, tokenizeSigns_args args hargs]
    rfl
  rw [tokenizePieces, hrun]
  rfl

theorem command_readable {tag name : Octets} {args : List Token} (htag : AtomText tag)
    (hname : AtomText name) (hargs : ∀ t ∈ args, t.Writable)
    (hfit : Fits limits (commandSigns tag name args)) :
    Readable limits 0 0 [] (commandSigns tag name args) := by
  have hrest : ∀ prev, Placed prev (.octet space ::
      (text name ++ args.flatMap fun t => .octet space :: t.signs)) := fun _ =>
    ⟨by decide, placed_text hname.printable (placed_args args hargs) _⟩
  have hplaced : Placed none (commandSigns tag name args) := placed_text htag.printable hrest none
  have hguarded : GuardedSigns (commandSigns tag name args) :=
    (guardedSigns_atom htag).append ((guardedSigns_octet (by decide)).append
      ((guardedSigns_atom hname).append (guardedSigns_args args hargs)))
  have hbytes := hfit.bytes
  have hcount := hfit.count
  refine readable_of_placed hplaced (fun ch hch => absurd hch List.not_mem_nil) hguarded
    (hfit.line _ (List.mem_cons_self ..)) (fun l hl => hfit.line l (List.mem_cons_of_mem _ hl))
    hfit.literal ?_ ?_
  · omega
  · simp only [List.length_nil]
    omega

/-- After whatever was complete, a command written out is read as a continuation
request for each of its literals and the command, and nothing of it is left. -/
theorem parser_inverts_encoding (limits : Limits) {prior : List Octets} {tag name : Octets}
    {args : List Token} (hprior : ∀ octets ∈ prior, Complete limits octets)
    (htag : AtomText tag ∧ tag ≠ [] ∧ ∀ ch ∈ tag, ch ≠ 0x2B ∧ ch ≠ 0x2A)
    (hname : AtomText name ∧ name ≠ []) (hargs : ∀ t ∈ args, t.Writable)
    (hfit : Fits limits (commandSigns tag name args)) :
    ((CommandParser.new limits).feed (prior.flatten ++ commandOctets tag name args)).events =
      ((prior.flatMap fun octets => ((CommandParser.new limits).feed octets).events.1) ++
        ((literalsOf (commandSigns tag name args)).map (fun data => .continuation data.length) ++
          [.command tag (upper name) args]),
        CommandParser.new limits) := by
  have hdrain : (reader limits).drain fresh (prior.flatten ++ commandOctets tag name args) =
      ⟨(prior.flatMap fun octets => ((CommandParser.new limits).feed octets).events.1) ++
        ((literalsOf (commandSigns tag name args)).map (fun data => .continuation data.length) ++
          [.command tag (upper name) args]), fresh, [], false⟩ := by
    induction prior with
    | nil =>
      have hread := command_readable htag.1 hname.1 hargs hfit
      have hbytes : (kept none).totalBytes = 0 := rfl
      obtain ⟨P, hP, hcomes⟩ := hread.comes hbytes rfl []
      have htok : tokenizePieces P.pieces = .ok (.atom tag :: .atom name :: args) := by
        rw [hP]
        exact tokenize_command htag.1 htag.2.1 hname.1 hname.2 hargs
      rw [buildCommand_command htok htag.2.2] at hcomes
      obtain ⟨u, hu, hafter⟩ := hcomes.drain reader_local
      have heq := hafter []
      have hwait : (reader limits).next (.line none) [] = .wait := by
        show next limits (.line none) [] = _
        rw [next_unended List.not_mem_nil, if_neg (by simp)]
      rw [← hu, Reader.drain_wait hwait] at heq
      refine Eq.trans heq ?_
      simp [Drained.after, fresh]
    | cons octets prior ih =>
      have ih := ih fun o ho => hprior o (List.mem_cons_of_mem _ ho)
      obtain ⟨u, hu, hafter⟩ := (hprior octets (List.mem_cons_self ..)).comes.drain reader_local
      rw [List.append_nil] at hu
      subst hu
      rw [List.flatten_cons, List.append_assoc, hafter, ih]
      simp [Drained.after]
  have hevents : ∀ stream : Octets, ((CommandParser.new limits).feed stream).events =
      (((reader limits).drain fresh stream).events, ⟨limits,
        ((reader limits).drain fresh stream).state, ((reader limits).drain fresh stream).rest⟩) :=
    fun _ => rfl
  rw [hevents, hdrain]
  rfl

theorem atomText_of_all {value : Octets}
    (h : (value.all fun ch => isPrintable ch && !atomStop.contains ch && ch != lbracket) = true) :
    AtomText value := by
  induction value with
  | nil => exact .nil
  | cons ch value ih =>
    rw [List.all_cons, Bool.and_eq_true] at h
    obtain ⟨hch, hrest⟩ := h
    simp only [Bool.and_eq_true, Bool.not_eq_true', bne_iff_ne, List.contains_eq_mem,
      decide_eq_false_iff_not] at hch
    exact .octet hch.1.1 hch.1.2 hch.2 (ih hrest)

theorem tagged_of_all {tag : Octets} (h : (tag.all fun ch => ch != 0x2B && ch != 0x2A) = true) :
    ∀ ch ∈ tag, ch ≠ 0x2B ∧ ch ≠ 0x2A := by
  intro ch hch
  simpa only [Bool.and_eq_true, bne_iff_ne] using List.all_eq_true.mp h ch hch

def ascii (s : String) : Octets := s.toList.map fun c => UInt8.ofNat c.toNat

/-- `A2 append Drafts (\Draft) {4}`, the literal with a line feed and a brace in it,
behind a command and an empty line. -/
theorem parser_inverts_append :
    ((CommandParser.new {}).feed ([ascii "A1 NOOP\r\n", ascii "\r\n"].flatten ++
        commandOctets (ascii "A2") (ascii "append")
          [.atom (ascii "Drafts"), .list [.atom (ascii "\\Draft")],
            .literal (ascii "\r\n\x7b0")])).events.1 =
      ([ascii "A1 NOOP\r\n", ascii "\r\n"].flatMap fun octets =>
          ((CommandParser.new {}).feed octets).events.1) ++
        [.continuation 4, .command (ascii "A2") (ascii "APPEND")
          [.atom (ascii "Drafts"), .list [.atom (ascii "\\Draft")],
            .literal (ascii "\r\n\x7b0")]] := by
  have hcomplete : ∀ octets ∈ [ascii "A1 NOOP\r\n", ascii "\r\n"], Complete {} octets := by
    intro octets hmem
    have hcheck : (([ascii "A1 NOOP\r\n", ascii "\r\n"] : List Octets).all fun octets =>
        let r := ((CommandParser.new {}).feed octets).events
        r.1.getLast?.any Event.concludes && r.1.all (fun e => !e.fatal) &&
          decide (r.2.buf = [])) = true := by decide +kernel
    have hok := List.all_eq_true.mp hcheck octets hmem
    simp only [Bool.and_eq_true, decide_eq_true_eq] at hok
    obtain ⟨e, he, hconc⟩ := (Option.any_eq_true _ _).mp hok.1.1
    refine ⟨⟨e, he, hconc⟩, fun e he => ?_, hok.2⟩
    simpa using List.all_eq_true.mp hok.1.2 e he
  have hatom : ∀ s ∈ ["A2", "append", "Drafts", "\\Draft"], AtomText (ascii s) ∧ ascii s ≠ [] := by
    simp only [List.forall_mem_cons]
    exact ⟨⟨atomText_of_all (by decide), by decide⟩, ⟨atomText_of_all (by decide), by decide⟩,
      ⟨atomText_of_all (by decide), by decide⟩, ⟨atomText_of_all (by decide), by decide⟩, nofun⟩
  have hargs : ∀ t ∈ [Token.atom (ascii "Drafts"), .list [.atom (ascii "\\Draft")],
      .literal (ascii "\r\n\x7b0")], t.Writable := by
    intro t ht
    simp only [List.mem_cons, List.not_mem_nil, or_false] at ht
    rcases ht with rfl | rfl | rfl
    · exact .atom (hatom "Drafts" (by simp)).1 (hatom "Drafts" (by simp)).2
    · refine .list fun t ht => ?_
      rw [List.mem_singleton.mp ht]
      exact .atom (hatom "\\Draft" (by simp)).1 (hatom "\\Draft" (by simp)).2
    · exact .literal _
  have hfit : Fits {} (commandSigns (ascii "A2") (ascii "append")
      [.atom (ascii "Drafts"), .list [.atom (ascii "\\Draft")],
        .literal (ascii "\r\n\x7b0")]) := by
    constructor <;> decide
  have hrun := parser_inverts_encoding {} hcomplete
    ⟨(hatom "A2" (by simp)).1, (hatom "A2" (by simp)).2, tagged_of_all (by decide)⟩
    (hatom "append" (by simp)) hargs hfit
  rw [hrun]
  rfl

end Parser
end ImapGateway
