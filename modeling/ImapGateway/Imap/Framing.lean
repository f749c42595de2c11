/-
The stream of responses as a client reads it.

A client takes a line up to its CRLF.  Only a FETCH response carries literals: an
announcement at the end of one of its lines is followed by that many octets and by the
rest of the response, and a line of another kind that ends in braces is a line.  The
client works on what it has got so far, so the stream may be cut anywhere.

A response is framed if no part of it ends its line and no other response looks like a
FETCH.  The stream of framed responses is read back as these responses.
-/
import ImapGateway.Imap.Wire

namespace ImapGateway
namespace Imap

open ImapGateway.Parser Octet Incremental
open Mailbox hiding upper

/-! ## The client -/

/-- What has been read of a response, up to a line or up to the octets of a literal. -/
inductive Got where
  | line (before : List Sign)
  | literal (before : List Sign) (n : Nat)

/-- The octets before the first CRLF, and those behind it. -/
def cutLine : Octets → Option (Octets × Octets)
  | [] => none
  | ch :: rest =>
    if ch = cr ∧ rest.head? = some lf then some ([], rest.tail)
    else (cutLine rest).map fun p => (ch :: p.1, p.2)

/-- The line without the `{N}` it ends in, and N. -/
def announced (line : Octets) : Option (Octets × Nat) :=
  match line.reverse with
  | [] => none
  | last :: body =>
    match body.dropWhile isDigit with
    | [] => none
    | first :: before =>
      if last = rbrace ∧ first = lbrace then
        some (before.reverse, decimal (body.takeWhile isDigit).reverse)
      else none

/-- The line begins as `* 1 FETCH (` does. -/
def beginsFetch (line : Octets) : Bool :=
  (ascii "* ").isPrefixOf line && (line.drop 2).head?.any isDigit &&
    (ascii " FETCH (").isPrefixOf ((line.drop 2).dropWhile isDigit)

/-- The literal a line announces, if lines of this response may announce any. -/
def awaits (before : List Sign) (line : Octets) : Option (Octets × Nat) :=
  if before.isEmpty && !beginsFetch line then none else announced line

/-- One round of reading. -/
def receive (got : Got) (buf : Octets) : Outcome Got UInt8 (List Sign) :=
  match got with
  | .literal before n =>
    if buf.length < n then .wait
    else .take [] (.line (before ++ [.literal (buf.take n)])) (buf.drop n)
  | .line before =>
    match cutLine buf with
    | none => .wait
    | some (line, rest) =>
      match awaits before line with
      | some (kept, n) => .take [] (.literal (before ++ Parser.text kept) n) rest
      | none => .take [before ++ Parser.text line] (.line []) rest

def Got.cost (got : Got) (buf : Octets) : Nat :=
  match got with
  | .line _ => 2 * buf.length
  | .literal _ _ => 2 * buf.length + 1

theorem cutLine_eq_some {buf line rest : Octets} (h : cutLine buf = some (line, rest)) :
    buf = line ++ cr :: lf :: rest := by
  induction buf generalizing line with
  | nil => cases h
  | cons ch buf ih =>
    rw [cutLine] at h
    split at h
    · rename_i hend
      obtain ⟨rfl, hlf⟩ := hend
      cases h
      cases buf with
      | nil => cases hlf
      | cons b buf =>
        cases hlf
        rfl
    · obtain ⟨p, hp, heq⟩ := Option.map_eq_some_iff.mp h
      cases heq
      rw [ih hp]
      rfl

/-- A line that has no line feed is cut off behind its CRLF. -/
theorem cutLine_append {line : Octets} (h : lf ∉ line) (rest : Octets) :
    cutLine (line ++ cr :: lf :: rest) = some (line, rest) := by
  induction line with
  | nil => rfl
  | cons ch line ih =>
    have hline : lf ∉ line := fun hmem => h (List.mem_cons_of_mem _ hmem)
    have hhead : (line ++ cr :: lf :: rest).head? ≠ some lf := by
      cases line with
      | nil =>
        intro hb
        exact absurd (Option.some.inj hb) (by decide)
      | cons b line =>
        intro hb
        apply hline
        rw [Option.some.inj hb]
        exact List.mem_cons_self
    rw [List.cons_append, cutLine, if_neg fun hend => hhead hend.2, ih hline]
    rfl

/-- A line that is complete is cut off, whatever comes behind it. -/
theorem cutLine_of_some {buf line rest : Octets} (h : cutLine buf = some (line, rest))
    (rest' : Octets) : cutLine (line ++ cr :: lf :: rest') = some (line, rest') := by
  induction buf generalizing line with
  | nil => cases h
  | cons ch buf ih =>
    have hbuf := cutLine_eq_some h
    rw [cutLine] at h
    split at h
    · cases h
      rfl
    · rename_i hgo
      obtain ⟨p, hp, heq⟩ := Option.map_eq_some_iff.mp h
      cases heq
      have hhead : (p.1 ++ cr :: lf :: rest').head? = buf.head? := by
        rw [cutLine_eq_some hp]
        cases p.1 with
        | nil => rfl
        | cons b line => rfl
      rw [List.cons_append, cutLine, hhead, if_neg hgo, ih hp]
      rfl

theorem receive_lowers {got got' : Got} {buf rest : Octets} {evs : List (List Sign)}
    (h : receive got buf = .take evs got' rest) : got'.cost rest < got.cost buf := by
  cases got with
  | literal before n =>
    simp only [receive] at h
    split at h
    · cases h
    · cases h
      simp only [Got.cost, List.length_drop]
      omega
  | line before =>
    simp only [receive] at h
    cases hcut : cutLine buf with
    | none =>
      rw [hcut] at h
      cases h
    | some p =>
      have hlen := congrArg List.length (cutLine_eq_some hcut)
      rw [hcut] at h
      simp only [List.length_append, List.length_cons] at hlen
      simp only at h
      split at h
      · cases h
        simp only [Got.cost]
        omega
      · cases h
        simp only [Got.cost]
        omega

/-- The client. -/
def client : Reader Got UInt8 (List Sign) where
  next := receive
  cost := Got.cost
  lowers h := receive_lowers h

theorem client_local : Reader.Local client := by
  intro got buf evs got' rest h
  change receive got buf = _ at h
  cases got with
  | literal before n =>
    simp only [receive] at h
    split at h
    · cases h
    · rename_i hlen
      cases h
      have htake : (buf.take n).length = n := by
        rw [List.length_take]
        omega
      refine ⟨buf.take n, (List.take_append_drop n buf).symm, fun rest' => ?_⟩
      show receive (.literal before n) (buf.take n ++ rest') = _
      have hlong : ¬(buf.take n ++ rest').length < n := by
        rw [List.length_append, htake]
        omega
      simp only [receive, if_neg hlong, List.take_left' htake, List.drop_left' htake]
  | line before =>
    simp only [receive] at h
    cases hcut : cutLine buf with
    | none =>
      rw [hcut] at h
      cases h
    | some p =>
      rw [hcut] at h
      have hbuf := cutLine_eq_some hcut
      have hline : ∀ rest', cutLine ((p.1 ++ [cr, lf]) ++ rest') = some (p.1, rest') := by
        intro rest'
        rw [List.append_assoc]
        exact cutLine_of_some hcut rest'
      have hrest : rest = p.2 := by
        simp only at h
        split at h <;> cases h <;> rfl
      refine ⟨p.1 ++ [cr, lf], by rw [hbuf, hrest, List.append_assoc]; rfl, fun rest' => ?_⟩
      show receive (.line before) (p.1 ++ [cr, lf] ++ rest') = _
      simp only [receive, hline]
      simp only at h
      split at h
      · cases h
        rfl
      · cases h
        rfl

theorem client_steady : Reader.Steady client fun _ _ => True where
  takes := client_local
  halt := by
    intro got buf more evs got' rest _ h
    change receive got buf = _ at h
    cases got with
    | literal before n =>
      simp only [receive] at h
      split at h <;> cases h
    | line before =>
      simp only [receive] at h
      cases hcut : cutLine buf with
      | none =>
        rw [hcut] at h
        cases h
      | some p =>
        rw [hcut] at h
        simp only at h
        split at h <;> cases h
  keeps := by
    intros
    trivial

/-! ## Framed responses -/

/-- The octets of the line behind the last literal. -/
def lastLine (line : Octets) : List Sign → Octets
  | [] => line
  | .octet ch :: signs => lastLine (line ++ [ch]) signs
  | .literal _ :: signs => lastLine [] signs

/-- A response a client reads back. -/
inductive Framed : List Sign → Prop
  | line {line : Octets} (whole : lf ∉ line) (other : beginsFetch line = false) :
      Framed (Parser.text line)
  | fetch {signs : List Sign} (whole : Sign.octet lf ∉ signs)
      (begins : beginsFetch (physicalLine signs) = true)
      (ends : announced (lastLine [] signs) = none) : Framed signs

theorem announced_announcement (line : Octets) (n : Nat) :
    announced (line ++ announcement n) = some (line, n) := by
  have hrev : (line ++ announcement n).reverse =
      rbrace :: ((decimalDigits n).reverse ++ lbrace :: line.reverse) := by
    simp [announcement]
  have hdigits : ∀ ch ∈ (decimalDigits n).reverse, isDigit ch = true := fun ch hch =>
    decimalDigits_isDigit n ch (List.mem_reverse.mp hch)
  have hbrace : isDigit lbrace = false := by decide
  have htake : ((decimalDigits n).reverse ++ lbrace :: line.reverse).takeWhile isDigit =
      (decimalDigits n).reverse := by
    rw [List.takeWhile_append_of_pos hdigits, List.takeWhile_cons_of_neg (by simp [hbrace]),
      List.append_nil]
  have hdrop : ((decimalDigits n).reverse ++ lbrace :: line.reverse).dropWhile isDigit =
      lbrace :: line.reverse := by
    rw [List.dropWhile_append_of_pos hdigits, List.dropWhile_cons_of_neg (by simp [hbrace])]
  rw [announced, hrev]
  simp only [hdrop, htake, List.reverse_reverse, decimal_decimalDigits, and_self, if_true]

theorem announced_of_last (line : Octets) {ch : UInt8} (h : ch ≠ rbrace) :
    announced (line ++ [ch]) = none := by
  rw [announced, List.reverse_append]
  simp only [List.reverse_cons, List.reverse_nil, List.nil_append, List.cons_append]
  split
  · rfl
  · exact if_neg fun hlast => h hlast.1

theorem lf_notMem_announcement (n : Nat) : lf ∉ announcement n := by
  intro hmem
  rcases List.mem_cons.mp hmem with h | h
  · cases h
  · rcases List.mem_append.mp h with h | h
    · have hdigit := decimalDigits_isDigit n lf h
      cases hdigit
    · cases List.mem_singleton.mp h

theorem receive_line {before : List Sign} {line rest : Octets} (hline : lf ∉ line)
    (h : awaits before line = none) :
    receive (.line before) (line ++ cr :: lf :: rest) =
      .take [before ++ Parser.text line] (.line []) rest := by
  simp only [receive, cutLine_append hline, h]

theorem receive_announcement {before : List Sign} {line rest : Octets} {n : Nat}
    (hline : lf ∉ line) (h : awaits before (line ++ announcement n) = some (line, n)) :
    receive (.line before) (line ++ announcement n ++ cr :: lf :: rest) =
      .take [] (.literal (before ++ Parser.text line) n) rest := by
  have hwhole : lf ∉ line ++ announcement n := by
    intro hmem
    rcases List.mem_append.mp hmem with h | h
    · exact hline h
    · exact lf_notMem_announcement n h
  simp only [receive, cutLine_append hwhole, h]

theorem receive_literal (before : List Sign) (data rest : Octets) :
    receive (.literal before data.length) (data ++ rest) =
      .take [] (.line (before ++ [.literal data])) rest := by
  have hlen : ¬(data ++ rest).length < data.length := by
    rw [List.length_append]
    omega
  simp only [receive, if_neg hlen, List.take_left, List.drop_left]

theorem awaits_continued {before : List Sign} {line : Octets}
    (h : before ≠ [] ∨ beginsFetch line = true) : awaits before line = announced line := by
  rw [awaits, if_neg]
  rcases h with h | h
  · simp [h]
  · simp [h]

/-- The rest of a FETCH response is read, from behind `line`.  Along the signs, what has
been read of the line grows until a literal ends it. -/
theorem drain_fetch (signs before : List Sign) (line rest : Octets) (hline : lf ∉ line)
    (hwhole : Sign.octet lf ∉ signs)
    (hbegins : before ≠ [] ∨ beginsFetch (line ++ physicalLine signs) = true)
    (hends : announced (lastLine line signs) = none) :
    client.drain (.line before) (line ++ octetsOf signs ++ cr :: lf :: rest) =
      (client.drain (.line []) rest).after [before ++ (Parser.text line ++ signs)] := by
  induction signs generalizing before line with
  | nil =>
    have hawaits : awaits before line = none := by
      rw [physicalLine, List.append_nil] at hbegins
      rw [awaits_continued hbegins]
      exact hends
    rw [octetsOf, List.append_nil, List.append_nil]
    exact Reader.drain_take (receive_line hline hawaits)
  | cons sign signs ih =>
    have htail : Sign.octet lf ∉ signs := fun hmem => hwhole (List.mem_cons_of_mem _ hmem)
    cases sign with
    | octet ch =>
      have hch : ch ≠ lf := by
        rintro rfl
        exact hwhole List.mem_cons_self
      have hnew : lf ∉ line ++ [ch] := by
        intro hmem
        rcases List.mem_append.mp hmem with h | h
        · exact hline h
        · exact hch (List.mem_singleton.mp h).symm
      have hmore : before ≠ [] ∨ beginsFetch (line ++ [ch] ++ physicalLine signs) = true := by
        rw [List.append_assoc]
        exact hbegins
      have hread := ih before (line ++ [ch]) hnew htail hmore hends
      simpa [Parser.text, octetsOf] using hread
    | literal data =>
      have hawaits : awaits before (line ++ announcement data.length) =
          some (line, data.length) := by
        have hcontinued : awaits before (line ++ announcement data.length) =
            announced (line ++ announcement data.length) := awaits_continued hbegins
        rw [hcontinued]
        exact announced_announcement line data.length
      have hread := ih (before ++ Parser.text line ++ [.literal data]) [] List.not_mem_nil htail
        (.inl (by simp)) hends
      have hoctets : line ++ octetsOf (.literal data :: signs) ++ cr :: lf :: rest =
          line ++ announcement data.length ++
            cr :: lf :: (data ++ (octetsOf signs ++ cr :: lf :: rest)) := by
        simp [octetsOf]
      rw [hoctets, Reader.drain_take (receive_announcement hline hawaits),
        Reader.drain_take (receive_literal _ data _)]
      rw [List.nil_append] at hread
      rw [hread]
      simp [Drained.after, Parser.text]

/-- A framed response is read, whatever comes behind it. -/
theorem Framed.drain {signs : List Sign} (h : Framed signs) (rest : Octets) :
    client.drain (.line []) (octetsOf signs ++ [cr, lf] ++ rest) =
      (client.drain (.line []) rest).after [signs] := by
  rw [List.append_assoc]
  cases h with
  | @line line whole other =>
    have hawaits : awaits [] line = none := by
      rw [awaits, if_pos (by simp [other])]
    have hoctets : octetsOf (Parser.text line) = line := by
      have htext := octetsOf_text line []
      rwa [List.append_nil, octetsOf, List.append_nil] at htext
    rw [hoctets]
    exact Reader.drain_take (receive_line whole hawaits)
  | fetch whole begins ends =>
    have hread := drain_fetch signs [] [] rest List.not_mem_nil whole (.inr begins) ends
    exact hread

/-- The stream of framed responses is read back, however it is cut. -/
theorem client_reads {lines : List (List Sign)} (h : ∀ signs ∈ lines, Framed signs)
    {cs : List Octets} (hcs : cs.flatten = lines.flatMap fun signs => octetsOf signs ++ [cr, lf]) :
    client.run (.line []) [] cs = lines := by
  have hdrain : client.drain (.line []) (lines.flatMap fun signs => octetsOf signs ++ [cr, lf]) =
      ⟨lines, .line [], [], false⟩ := by
    clear hcs
    induction lines with
    | nil => exact Reader.drain_wait rfl
    | cons signs lines ih =>
      rw [List.flatMap_cons, (h signs List.mem_cons_self).drain,
        ih fun signs' hmem => h signs' (List.mem_cons_of_mem _ hmem)]
      rfl
  rw [client_steady.run_eq_drain rfl trivial, List.nil_append, hcs, hdrain]

/-! ## Lines without a line feed -/

/-- The text does not end a line. -/
def Clear (text : String) : Prop := '\n' ∉ text.toList

instance (text : String) : Decidable (Clear text) :=
  inferInstanceAs (Decidable ('\n' ∉ text.toList))

theorem Clear.append {a b : String} (ha : Clear a) (hb : Clear b) : Clear (a ++ b) := by
  intro h
  rw [String.toList_append] at h
  rcases List.mem_append.mp h with h | h
  · exact ha h
  · exact hb h

theorem Clear.intercalate {sep : String} (hsep : Clear sep) {texts : List String}
    (h : ∀ text ∈ texts, Clear text) : Clear (sep.intercalate texts) := by
  induction texts with
  | nil => exact List.not_mem_nil
  | cons text texts ih =>
    have hhead := h text List.mem_cons_self
    have htail := ih fun t ht => h t (List.mem_cons_of_mem _ ht)
    by_cases hnil : texts = []
    · rw [hnil, String.intercalate_singleton]
      exact hhead
    · rw [String.intercalate_cons_of_ne_nil hnil]
      exact (hhead.append hsep).append htail

theorem clear_clean (text : String) : Clear (clean text) := by
  intro h
  rw [clean, String.toList_ofList] at h
  obtain ⟨ch, _, heq⟩ := List.mem_map.mp h
  rw [cleanChar] at heq
  split at heq
  · rename_i hclean
    rw [heq] at hclean
    exact absurd hclean (by decide)
  · exact absurd heq (by decide)

theorem clear_bracketed (code : String) : Clear (bracketed code) := by
  have hcode : Clear (cleanCode code) := by
    intro h
    rw [cleanCode, String.toList_ofList] at h
    obtain ⟨ch, hch, heq⟩ := List.mem_map.mp h
    split at heq
    · exact absurd heq (by decide)
    · split at heq
      · exact absurd heq (by decide)
      · rw [heq] at hch
        exact clear_clean code hch
  rw [bracketed]
  split
  · exact List.not_mem_nil
  · have hopen : Clear "[" := by decide
    have hclose : Clear "] " := by decide
    exact (hopen.append hcode).append hclose

theorem clear_flagList (flags : List Flag) : Clear (flagList flags) := by
  have hnames : ∀ text ∈ (flagOrder.filter fun f => decide (f ∈ flags)).map flagName,
      Clear text := by
    intro text htext
    obtain ⟨flag, _, rfl⟩ := List.mem_map.mp htext
    cases flag <;> decide
  have hspace : Clear " " := by decide
  have hopen : Clear "(" := by decide
  have hclose : Clear ")" := by decide
  exact (hopen.append (hspace.intercalate hnames)).append hclose

theorem lf_notMem_utf8 {text : String} (h : Clear text) : lf ∉ utf8 text := by
  intro hmem
  obtain ⟨ch, hch, hlf⟩ := List.mem_flatMap.mp hmem
  rcases utf8EncodeChar_cases ch with ⟨hlt, heq⟩ | ⟨_, hhigh⟩
  · rw [heq] at hlf
    have hnat := congrArg UInt8.toNat (List.mem_singleton.mp hlf)
    rw [UInt8.toNat_ofNat', Nat.mod_eq_of_lt (by omega)] at hnat
    have hnewline : ch = '\n' := Char.toNat_inj.mp hnat.symm
    exact h (hnewline ▸ hch)
  · have hle := hhigh lf hlf
    exact absurd hle (by decide)

theorem lf_notMem_decimalDigits (n : Nat) : lf ∉ decimalDigits n := fun h => by
  cases decimalDigits_isDigit n lf h

theorem lf_notMem_padded (width n : Nat) : lf ∉ padded width n := by
  intro h
  rw [padded] at h
  rcases List.mem_append.mp h with h | h
  · have hzero : lf = 0x30 := List.eq_of_mem_replicate h
    exact absurd hzero (by decide)
  · exact lf_notMem_decimalDigits n h

theorem lf_notMem_internaldate (d : Datetime) : lf ∉ internaldate d := by
  have hmonth : ∀ month : Fin 12, lf ∉ monthName month := by decide
  have hsign : lf ∉ (if 0 ≤ d.utcoffset.tdiv 1000000 then ascii "+" else ascii "-") := by
    split <;> decide
  have hquote : lf ∉ [quote] := by decide
  have hdash : lf ∉ ascii "-" := by decide
  have hblank : lf ∉ ascii " " := by decide
  have hcolon : lf ∉ ascii ":" := by decide
  delta internaldate
  simp only [List.mem_append, not_or]
  simp only [hmonth, hsign, hquote, hdash, hblank, hcolon, lf_notMem_padded, not_false_eq_true,
    and_self]

theorem mem_text {ch : UInt8} {octets : Octets} :
    Sign.octet ch ∈ Parser.text octets ↔ ch ∈ octets := by
  simp [Parser.text]

theorem lf_notMem_written {text : String} (h : Clear text) : Sign.octet lf ∉ written text :=
  fun hmem => lf_notMem_utf8 h (mem_text.mp hmem)

theorem lf_notMem_number (n : Nat) : Sign.octet lf ∉ number n :=
  fun hmem => lf_notMem_decimalDigits n (mem_text.mp hmem)

theorem lf_notMem_spaced {items : List (List Sign)} (h : ∀ item ∈ items, Sign.octet lf ∉ item) :
    Sign.octet lf ∉ spaced items := by
  induction items with
  | nil => exact List.not_mem_nil
  | cons item items ih =>
    have hhead := h item List.mem_cons_self
    have htail := ih fun i hi => h i (List.mem_cons_of_mem _ hi)
    cases items with
    | nil => exact hhead
    | cons next items =>
      intro hmem
      rcases List.mem_append.mp hmem with hmem | hmem
      · exact hhead hmem
      · rcases List.mem_cons.mp hmem with hmem | hmem
        · exact absurd (Sign.octet.inj hmem) (by decide)
        · exact htail hmem

/-! ## Responses -/

/-- The tag is a word if it begins with `*`. -/
def Unmistaken (tag : String) : Prop :=
  (utf8 (clean tag)).head? ≠ some asterisk ∨ space ∉ utf8 (clean tag)

/-- What a response that is read back holds: a status of its own, a tag that is no `*` followed
by a space, labels and names without a line feed, and no number in front of a text. -/
def Response.Plain : Response → Prop
  | .tagged tag kind _ _ => kind ∈ ["OK", "NO", "BAD"] ∧ Unmistaken tag
  | .fetch _ _ parts => ∀ attr raw, .body attr raw ∈ parts → Clear attr.label
  | .status name values => Clear name ∧ ∀ v ∈ values, Clear v.1
  | .other text => (utf8 (clean text)).head?.any isDigit = false
  | _ => True

/-- A line is another than FETCH where no digit stands behind its asterisk. -/
theorem beginsFetch_star {rest : Octets} (h : rest.head?.any isDigit = false) :
    beginsFetch (asterisk :: space :: rest) = false := by
  have hdrop : (asterisk :: space :: rest).drop 2 = rest := rfl
  rw [beginsFetch, hdrop, h, Bool.and_false, Bool.false_and]

/-- A line is another than FETCH where a word stands between its number and its end. -/
theorem beginsFetch_number (n : Nat) (rest : Octets) (h : rest.head?.any isDigit = false) :
    beginsFetch (asterisk :: space :: (decimalDigits n ++ rest)) =
      (ascii " FETCH (").isPrefixOf rest := by
  have hdrop : (asterisk :: space :: (decimalDigits n ++ rest)).drop 2 = decimalDigits n ++ rest :=
    rfl
  have hprefix : (ascii "* ").isPrefixOf (asterisk :: space :: (decimalDigits n ++ rest)) = true :=
    rfl
  have hdigits := decimalDigits_isDigit n
  have hrest : (decimalDigits n ++ rest).dropWhile isDigit = rest := by
    rw [List.dropWhile_append_of_pos hdigits]
    cases rest with
    | nil => rfl
    | cons ch rest =>
      apply List.dropWhile_cons_of_neg
      have hch : isDigit ch = false := h
      rw [hch]
      decide
  have hhead : (decimalDigits n ++ rest).head?.any isDigit = true := by
    cases hds : decimalDigits n with
    | nil =>
      have hvalue := decimal_decimalDigits n
      rw [hds] at hvalue
      subst hvalue
      cases hds
    | cons d ds =>
      rw [hds] at hdigits
      exact hdigits d List.mem_cons_self
  rw [beginsFetch, hdrop, hprefix, hhead, hrest, Bool.true_and, Bool.true_and]

theorem Framed.star {line : Octets} (whole : lf ∉ line) (h : line.head?.any isDigit = false) :
    Framed (Parser.text (asterisk :: space :: line)) := by
  have hline : lf ∉ asterisk :: space :: line := by
    intro hmem
    rcases List.mem_cons.mp hmem with hmem | hmem
    · exact absurd hmem (by decide)
    · rcases List.mem_cons.mp hmem with hmem | hmem
      · exact absurd hmem (by decide)
      · exact whole hmem
  exact .line hline (beginsFetch_star h)

/-- A line that begins with a text after its asterisk. -/
theorem Framed.words {head : Octets} {tail : String} (htail : Clear tail) (hlf : lf ∉ head)
    (hhead : head.head?.any isDigit = false) (hne : head ≠ []) :
    Framed (Parser.text (asterisk :: space :: (head ++ utf8 tail))) := by
  apply Framed.star
  · intro hmem
    rcases List.mem_append.mp hmem with hmem | hmem
    · exact hlf hmem
    · exact lf_notMem_utf8 htail hmem
  · cases head with
    | nil => exact absurd rfl hne
    | cons ch head => exact hhead

theorem Framed.count (n : Nat) {word : Octets} (hword : lf ∉ word)
    (hhead : word.head?.any isDigit = false) (h : (ascii " FETCH (").isPrefixOf word = false) :
    Framed (Parser.text (asterisk :: space :: (decimalDigits n ++ word))) := by
  have hline : lf ∉ asterisk :: space :: (decimalDigits n ++ word) := by
    intro hmem
    rcases List.mem_cons.mp hmem with hmem | hmem
    · exact absurd hmem (by decide)
    · rcases List.mem_cons.mp hmem with hmem | hmem
      · exact absurd hmem (by decide)
      · rcases List.mem_append.mp hmem with hmem | hmem
        · exact lf_notMem_decimalDigits n hmem
        · exact hword hmem
  apply Framed.line hline
  rw [beginsFetch_number n word hhead, h]

/-- Items of octets alone are a line. -/
theorem spaced_line {items : List (List Sign)}
    (h : ∀ item ∈ items, ∃ line, item = Parser.text line ∧ lf ∉ line) :
    ∃ line, spaced items = Parser.text line ∧ lf ∉ line := by
  induction items with
  | nil => exact ⟨[], rfl, List.not_mem_nil⟩
  | cons item items ih =>
    obtain ⟨first, rfl, hfirst⟩ := h item List.mem_cons_self
    obtain ⟨rest, hrest, hlf⟩ := ih fun i hi => h i (List.mem_cons_of_mem _ hi)
    cases items with
    | nil => exact ⟨first, rfl, hfirst⟩
    | cons next items =>
      refine ⟨first ++ space :: rest, ?_, ?_⟩
      · show Parser.text first ++ .octet space :: spaced (next :: items) = _
        rw [hrest]
        simp [Parser.text]
      · intro hmem
        rcases List.mem_append.mp hmem with hmem | hmem
        · exact hfirst hmem
        · rcases List.mem_cons.mp hmem with hmem | hmem
          · exact absurd hmem (by decide)
          · exact hlf hmem

theorem physicalLine_text (octets : Octets) (signs : List Sign) :
    physicalLine (Parser.text octets ++ signs) = octets ++ physicalLine signs := by
  induction octets with
  | nil => rfl
  | cons ch octets ih => exact congrArg (ch :: ·) ih

theorem lastLine_concat (line : Octets) (signs : List Sign) (ch : UInt8) :
    lastLine line (signs ++ [.octet ch]) = lastLine line signs ++ [ch] := by
  induction signs generalizing line with
  | nil => rfl
  | cons sign signs ih =>
    cases sign with
    | octet c => exact ih _
    | literal data => exact ih []

theorem lf_notMem_part {p : Part}
    (h : ∀ attr raw, p = .body attr raw → Clear attr.label) :
    Sign.octet lf ∉ p.signs := by
  have both : ∀ {a b : List Sign}, Sign.octet lf ∉ a → Sign.octet lf ∉ b →
      Sign.octet lf ∉ a ++ b := by
    intro a b ha hb hmem
    rcases List.mem_append.mp hmem with hmem | hmem
    · exact ha hmem
    · exact hb hmem
  cases p with
  | uid n => exact both (lf_notMem_written (by decide)) (lf_notMem_number n)
  | size n => exact both (lf_notMem_written (by decide)) (lf_notMem_number n)
  | flags f =>
    have hword : Clear "FLAGS " := by decide
    exact lf_notMem_written (hword.append (clear_flagList _))
  | internaldate t =>
    apply both (lf_notMem_written (by decide))
    exact fun hmem => lf_notMem_internaldate _ (mem_text.mp hmem)
  | body attr raw =>
    have hspace : Clear " " := by decide
    apply both (lf_notMem_written ((h attr raw rfl).append hspace))
    simp

/-- A tagged line is framed: it is no FETCH, since what begins with `*` is a word. -/
theorem framed_tagged {tag : Octets} {kind : UInt8} {rest : Octets} (htag : lf ∉ tag)
    (hrest : lf ∉ rest) (hkind : isDigit kind = false) (hlf : kind ≠ lf)
    (h : tag.head? ≠ some asterisk ∨ space ∉ tag) :
    Framed (Parser.text (tag ++ space :: kind :: rest)) := by
  apply Framed.line
  · intro hmem
    rcases List.mem_append.mp hmem with hmem | hmem
    · exact htag hmem
    · rcases List.mem_cons.mp hmem with hmem | hmem
      · exact absurd hmem (by decide)
      · rcases List.mem_cons.mp hmem with hmem | hmem
        · exact hlf hmem.symm
        · exact hrest hmem
  · have hstar : ∀ line, beginsFetch line = true → ∃ line', line = asterisk :: space :: line' ∧
        line'.head?.any isDigit = true := by
      intro line hline
      simp only [beginsFetch, Bool.and_eq_true] at hline
      obtain ⟨line', hline'⟩ := List.isPrefixOf_iff_prefix.mp hline.1.1
      subst hline'
      exact ⟨line', rfl, hline.1.2⟩
    apply eq_false_of_ne_true
    intro hbegins
    obtain ⟨line', hline, hdigit⟩ := hstar _ hbegins
    cases tag with
    | nil => cases hline
    | cons a tag =>
      cases tag with
      | nil =>
        cases hline
        rw [List.head?_cons, Option.any_some, hkind] at hdigit
        cases hdigit
      | cons b tag =>
        cases hline
        rcases h with h | h
        · exact h rfl
        · exact h (List.mem_cons_of_mem _ List.mem_cons_self)

/-! ### Each response -/

theorem written_star : written "* " = Parser.text [asterisk, space] :=
  congrArg Parser.text (by decide : utf8 "* " = [asterisk, space])

theorem number_star (n : Nat) (word : Octets) :
    Parser.text [asterisk, space] ++ number n ++ Parser.text word =
      Parser.text (asterisk :: space :: (decimalDigits n ++ word)) := by
  simp [Parser.text, number]

theorem framed_fetch {seq uid : Nat} {parts : List Part}
    (h : ∀ attr raw, .body attr raw ∈ parts → Clear attr.label) :
    Framed (Response.signs (.fetch seq uid parts)) := by
  have hword : written " FETCH (" = Parser.text (ascii " FETCH (") :=
      congrArg Parser.text (by decide : utf8 " FETCH (" = _)
  have hclose : written ")" = [.octet rparen] :=
    congrArg Parser.text (by decide : utf8 ")" = [rparen])
  have hparts : Sign.octet lf ∉ spaced (parts.map Part.signs) := by
    apply lf_notMem_spaced
    intro item hitem
    obtain ⟨p, hp, rfl⟩ := List.mem_map.mp hitem
    apply lf_notMem_part
    rintro attr raw rfl
    exact h attr raw hp
  rw [Response.signs, written_star, hword, number_star, hclose]
  apply Framed.fetch
  · simp only [List.mem_append, not_or]
    refine ⟨⟨?_, hparts⟩, by simp; decide⟩
    intro hmem
    rw [mem_text] at hmem
    simp only [List.mem_cons, List.mem_append] at hmem
    rcases hmem with hmem | hmem | hmem | hmem
    · exact absurd hmem (by decide)
    · exact absurd hmem (by decide)
    · exact lf_notMem_decimalDigits seq hmem
    · revert hmem
      decide
  · rw [List.append_assoc, physicalLine_text]
    have hbegins := beginsFetch_number seq (ascii " FETCH (" ++
      physicalLine (spaced (parts.map Part.signs) ++ [.octet rparen])) rfl
    rw [← List.append_assoc] at hbegins
    show beginsFetch (asterisk :: space :: (decimalDigits seq ++ ascii " FETCH (" ++ _)) = true
    rw [hbegins, List.isPrefixOf_iff_prefix]
    exact List.prefix_append _ _
  · rw [lastLine_concat]
    exact announced_of_last _ (by decide)

theorem Response.Plain.framed {r : Response} (h : r.Plain) :
    Framed r.signs := by
  have hempty : Clear "" := List.not_mem_nil
  cases r with
  | tagged tag kind text code =>
    obtain ⟨hkind, htag⟩ := h
    have hlf := lf_notMem_utf8 (clear_clean tag)
    have hrest : ∀ word : String, Clear word → lf ∉ utf8 (word ++ " " ++
        bracketed ((code.map Code.render).getD "") ++ clean text) := by
      intro word hword
      have hspace : Clear " " := by decide
      exact lf_notMem_utf8 (((hword.append hspace).append (clear_bracketed _)).append
        (clear_clean text))
    have hsplit : ∀ word : String, Response.signs (.tagged tag word text code) =
        Parser.text (utf8 (clean tag) ++ space :: utf8 (word ++ " " ++
          bracketed ((code.map Code.render).getD "") ++ clean text)) := by
      intro word
      have hspace : utf8 " " = [space] := by decide
      rw [Response.signs, written, ← List.singleton_append, ← hspace, ← utf8_append, ← utf8_append]
      simp only [String.append_assoc]
    have hfirst : ∀ (first : UInt8) (word rest : String), utf8 word = first :: utf8 rest →
        Clear rest → isDigit first = false → first ≠ lf →
        Framed (Response.signs (.tagged tag word text code)) := by
      intro first word rest hword hclear hdigit hne
      rw [hsplit]
      have hcut : utf8 (word ++ " " ++ bracketed ((code.map Code.render).getD "") ++ clean text) =
          first :: utf8 (rest ++ " " ++ bracketed ((code.map Code.render).getD "") ++
            clean text) := by
        simp only [utf8_append, hword, List.cons_append]
      rw [hcut]
      exact framed_tagged hlf (hrest rest hclear) hdigit hne htag
    simp only [List.mem_cons, List.not_mem_nil, or_false] at hkind
    rcases hkind with rfl | rfl | rfl
    · exact hfirst 0x4F "OK" "K" (by decide) (by decide) (by decide) (by decide)
    · exact hfirst 0x4E "NO" "O" (by decide) (by decide) (by decide) (by decide)
    · exact hfirst 0x42 "BAD" "AD" (by decide) (by decide) (by decide) (by decide)
  | ok text code =>
    have hhead : utf8 "* OK " = asterisk :: space :: utf8 "OK " := by decide
    have hsigns : Response.signs (.ok text code) = Parser.text (asterisk :: space ::
        (utf8 "OK " ++ utf8 (bracketed code.render ++ clean text))) := by
      rw [Response.signs, written, String.append_assoc, utf8_append, hhead]
      rfl
    rw [hsigns]
    exact Framed.words ((clear_bracketed _).append (clear_clean text)) (by decide)
      (by decide) (by decide)
  | bye text =>
    have hhead : utf8 "* BYE " = asterisk :: space :: utf8 "BYE " := by decide
    have hsigns : Response.signs (.bye text) = Parser.text (asterisk :: space ::
        (utf8 "BYE " ++ utf8 (clean text))) := by
      rw [Response.signs, written, utf8_append, hhead]
      rfl
    rw [hsigns]
    exact Framed.words (clear_clean text) (by decide) (by decide)
      (by decide)
  | «exists» n =>
    have hword : written " EXISTS" = Parser.text (ascii " EXISTS") :=
      congrArg Parser.text (by decide : utf8 " EXISTS" = _)
    rw [Response.signs, written_star, hword, number_star]
    exact Framed.count n (by decide) (by decide) (by decide)
  | recent n =>
    have hword : written " RECENT" = Parser.text (ascii " RECENT") :=
      congrArg Parser.text (by decide : utf8 " RECENT" = _)
    rw [Response.signs, written_star, hword, number_star]
    exact Framed.count n (by decide) (by decide) (by decide)
  | expunge n =>
    have hword : written " EXPUNGE" = Parser.text (ascii " EXPUNGE") :=
      congrArg Parser.text (by decide : utf8 " EXPUNGE" = _)
    rw [Response.signs, written_star, hword, number_star]
    exact Framed.count n (by decide) (by decide) (by decide)
  | fetch seq uid parts => exact framed_fetch h
  | search uidMode hits =>
    have hnumbers : ∀ item ∈ hits.map number, ∃ line, item = Parser.text line ∧ lf ∉ line := by
      intro item hitem
      obtain ⟨n, _, rfl⟩ := List.mem_map.mp hitem
      exact ⟨decimalDigits n, rfl, lf_notMem_decimalDigits n⟩
    have hhead : written "* SEARCH" = Parser.text (asterisk :: space :: ascii "SEARCH") :=
      congrArg Parser.text (by decide : utf8 "* SEARCH" = _)
    rw [Response.signs, hhead]
    cases hits with
    | nil => exact Framed.star (by decide) (by decide)
    | cons n hits =>
      obtain ⟨line, hline, hlf⟩ := spaced_line hnumbers
      have hsigns : spaced (Parser.text (asterisk :: space :: ascii "SEARCH") ::
          (n :: hits).map number) =
            Parser.text (asterisk :: space :: (ascii "SEARCH" ++ space :: line)) := by
        show _ ++ .octet space :: spaced ((n :: hits).map number) = _
        rw [hline]
        simp [Parser.text]
      rw [hsigns]
      apply Framed.star
      · simp only [List.mem_append, List.mem_cons, not_or]
        exact ⟨by decide, by decide, hlf⟩
      · rfl
  | status name values =>
    have hitems : ∀ item ∈ values.map fun v => written (v.1 ++ " ") ++ number v.2,
        ∃ line, item = Parser.text line ∧ lf ∉ line := by
      intro item hitem
      obtain ⟨v, hv, rfl⟩ := List.mem_map.mp hitem
      refine ⟨utf8 (v.1 ++ " ") ++ decimalDigits v.2, List.map_append.symm, ?_⟩
      intro hmem
      rcases List.mem_append.mp hmem with hmem | hmem
      · have hspace : Clear " " := by decide
        exact lf_notMem_utf8 ((h.2 v hv).append hspace) hmem
      · exact lf_notMem_decimalDigits _ hmem
    obtain ⟨line, hline, hlf⟩ := spaced_line hitems
    have hhead : utf8 "* STATUS " = asterisk :: space :: ascii "STATUS " := by decide
    have hclose : utf8 ")" = ascii ")" := by decide
    have hsigns : Response.signs (.status name values) = Parser.text (asterisk :: space ::
        (ascii "STATUS " ++ (utf8 (name ++ " (") ++ (line ++ ascii ")")))) := by
      rw [Response.signs, hline, written, written, hclose, String.append_assoc, utf8_append, hhead]
      simp [Parser.text]
    have hopen : Clear " (" := by decide
    rw [hsigns]
    apply Framed.star
    · simp only [List.mem_append, not_or]
      exact ⟨by decide, lf_notMem_utf8 (h.1.append hopen), hlf, by decide⟩
    · rfl
  | other text =>
    have hhead : utf8 "* " = [asterisk, space] := by decide
    have hsigns : Response.signs (.other text) =
        Parser.text (asterisk :: space :: utf8 (clean text)) := by
      rw [Response.signs, written, utf8_append, hhead, List.cons_append, List.singleton_append]
    rw [hsigns]
    exact Framed.star (lf_notMem_utf8 (clear_clean text)) h
  | continuation n =>
    have hhead : clean "+ Ready for " = "+ Ready for " := by decide
    have hbegin : utf8 "+ Ready for " = plus :: ascii " Ready for " := by decide
    have hsigns : Response.signs (.continuation n) = Parser.text (plus ::
        (ascii " Ready for " ++ utf8 (clean (toString n ++ " octets")))) := by
      rw [Response.signs, written, String.append_assoc, clean_append, hhead, utf8_append, hbegin]
      rfl
    rw [hsigns]
    apply Framed.line
    · simp only [List.mem_cons, List.mem_append, not_or]
      exact ⟨by decide, by decide, lf_notMem_utf8 (clear_clean _)⟩
    · rfl

end Imap
end ImapGateway
