/-
Search keys and how they are written.

A key is a tree.  The tokens that write it have no separators between them, so what a
key is depends on how many tokens each key in front of it takes.  Reading the tokens gives
back what the keys mean, with two exceptions: a date may be written more loosely than the
grammar has it, and keys may nest deeper than the stack.
-/
import ImapGateway.Imap.Grammar

namespace ImapGateway
namespace Imap

open ImapGateway.Parser
open Mailbox hiding upper

/-! ## Names -/

def flagWord : Flag → String
  | .answered => "ANSWERED"
  | .deleted => "DELETED"
  | .draft => "DRAFT"
  | .flagged => "FLAGGED"
  | .seen => "SEEN"

/-- A key of one token. -/
inductive Bare where
  | all
  | old
  | new
  | recent
  | flag (f : Flag) (wanted : Bool)

namespace Bare

def name : Bare → String
  | all => "ALL"
  | old => "OLD"
  | new => "NEW"
  | recent => "RECENT"
  | flag f wanted => if wanted then flagWord f else "UN" ++ flagWord f

/-- No message is recent. -/
def crit : Bare → Crit
  | all | old => .all
  | new | recent => .none
  | flag f wanted => .flag f wanted

end Bare

/-- A key with one argument. -/
inductive Leaf where
  | keyword (wanted : Bool)
  | uid
  | date (sent : Bool) (test : DateTest)
  | size (larger : Bool)
  | itemText (key : ItemText)
  | rawText (key : RawText)

def testWord : DateTest → String
  | .before => "BEFORE"
  | .on => "ON"
  | .since => "SINCE"

namespace Leaf

def name : Leaf → String
  | keyword wanted => if wanted then "KEYWORD" else "UNKEYWORD"
  | uid => "UID"
  | date sent test => if sent then "SENT" ++ testWord test else testWord test
  | size larger => if larger then "LARGER" else "SMALLER"
  | itemText .sender => "FROM"
  | itemText .recipients => "TO"
  | itemText .subject => "SUBJECT"
  | rawText .cc => "CC"
  | rawText .bcc => "BCC"
  | rawText .body => "BODY"
  | rawText .text => "TEXT"

def kind : Leaf → Kind
  | keyword _ => .text
  | uid => .set
  | date _ _ => .date
  | size _ => .number
  | itemText _ | rawText _ => .needle

def crit : (l : Leaf) → l.kind.Value → Crit
  | keyword wanted => fun label => .keyword label wanted
  | uid => .uidset
  | date sent test => fun day => .date sent test (Int.ofNat day)
  | size larger => .size larger
  | itemText key => .itemText key
  | rawText key => .rawText key

end Leaf

/-- What stands behind each name. -/
inductive Named : String → Form → Prop
  | bare (b : Bare) : Named b.name (.bare b.crit)
  | leaf (l : Leaf) : Named l.name (.one l.kind l.crit)
  | header : Named "HEADER" (.two .header)
  | not : Named "NOT" .not
  | or : Named "OR" .or

theorem formOf_bare (b : Bare) : formOf b.name = some (.bare b.crit) := by
  cases b with
  | flag f wanted => cases f <;> cases wanted <;> rfl
  | _ => rfl

theorem formOf_leaf (l : Leaf) : formOf l.name = some (.one l.kind l.crit) := by
  cases l with
  | keyword wanted => cases wanted <;> rfl
  | uid => rfl
  | date sent test => cases sent <;> cases test <;> rfl
  | size larger => cases larger <;> rfl
  | itemText key => cases key <;> rfl
  | rawText key => cases key <;> rfl

theorem flagKeys_named : ∀ entry ∈ flagKeys, entry.1 = (Bare.flag entry.2.1 entry.2.2).name := by
  decide

theorem dateKeys_named : ∀ entry ∈ dateKeys, entry.1 = (Leaf.date entry.2.1 entry.2.2).name := by
  decide

theorem itemTextKeys_named : ∀ entry ∈ itemTextKeys, entry.1 = (Leaf.itemText entry.2).name := by
  decide

theorem rawTextKeys_named : ∀ entry ∈ rawTextKeys, entry.1 = (Leaf.rawText entry.2).name := by
  decide

theorem named_of_formOf {name : String} {form : Form} (h : formOf name = some form) :
    Named name form := by
  unfold formOf at h
  by_cases hall : name = "ALL"
  · rw [if_pos hall] at h
    cases h
    exact hall ▸ .bare .all
  rw [if_neg hall] at h
  cases hflag : flagKeys.lookup name with
  | some entry =>
    rw [hflag] at h
    cases h
    rw [show name = _ from flagKeys_named _ (mem_of_lookup hflag)]
    exact .bare (.flag entry.1 entry.2)
  | none =>
  rw [hflag] at h
  dsimp only at h
  by_cases hnew : name = "NEW"
  · rw [if_pos hnew] at h
    cases h
    exact hnew ▸ .bare .new
  rw [if_neg hnew] at h
  by_cases hold : name = "OLD"
  · rw [if_pos hold] at h
    cases h
    exact hold ▸ .bare .old
  rw [if_neg hold] at h
  by_cases hrecent : name = "RECENT"
  · rw [if_pos hrecent] at h
    cases h
    exact hrecent ▸ .bare .recent
  rw [if_neg hrecent] at h
  by_cases hkeyword : name = "KEYWORD" ∨ name = "UNKEYWORD"
  · rw [if_pos hkeyword] at h
    cases h
    rcases hkeyword with rfl | rfl
    · exact .leaf (.keyword true)
    · exact .leaf (.keyword false)
  rw [if_neg hkeyword] at h
  by_cases huid : name = "UID"
  · rw [if_pos huid] at h
    cases h
    exact huid ▸ .leaf .uid
  rw [if_neg huid] at h
  by_cases hnot : name = "NOT"
  · rw [if_pos hnot] at h
    cases h
    exact hnot ▸ .not
  rw [if_neg hnot] at h
  by_cases hor : name = "OR"
  · rw [if_pos hor] at h
    cases h
    exact hor ▸ .or
  rw [if_neg hor] at h
  cases hdate : dateKeys.lookup name with
  | some entry =>
    rw [hdate] at h
    cases h
    rw [show name = _ from dateKeys_named _ (mem_of_lookup hdate)]
    exact .leaf (.date entry.1 entry.2)
  | none =>
  rw [hdate] at h
  dsimp only at h
  by_cases hsize : name = "LARGER" ∨ name = "SMALLER"
  · rw [if_pos hsize] at h
    cases h
    rcases hsize with rfl | rfl
    · exact .leaf (.size true)
    · exact .leaf (.size false)
  rw [if_neg hsize] at h
  cases hitem : itemTextKeys.lookup name with
  | some key =>
    rw [hitem] at h
    cases h
    rw [show name = _ from itemTextKeys_named _ (mem_of_lookup hitem)]
    exact .leaf (.itemText key)
  | none =>
  rw [hitem] at h
  dsimp only at h
  cases hraw : rawTextKeys.lookup name with
  | some key =>
    rw [hraw] at h
    cases h
    rw [show name = _ from rawTextKeys_named _ (mem_of_lookup hraw)]
    exact .leaf (.rawText key)
  | none =>
  rw [hraw] at h
  dsimp only at h
  by_cases hheader : name = "HEADER"
  · rw [if_pos hheader] at h
    cases h
    exact hheader ▸ .header
  · rw [if_neg hheader] at h
    cases h

theorem Named.formOf {name : String} {form : Form} (h : Named name form) :
    Imap.formOf name = some form := by
  cases h with
  | bare b => exact formOf_bare b
  | leaf l => exact formOf_leaf l
  | _ => rfl

/-- A name starts with a letter. -/
theorem Named.letter {name : String} {form : Form} (h : Named name form) :
    ∃ ch rest, name.toList = ch :: rest ∧ ch.isUpper = true := by
  cases h with
  | bare b =>
    cases b with
    | flag f wanted => cases f <;> cases wanted <;> exact ⟨_, _, rfl, rfl⟩
    | _ => exact ⟨_, _, rfl, rfl⟩
  | leaf l =>
    cases l with
    | keyword wanted => cases wanted <;> exact ⟨_, _, rfl, rfl⟩
    | uid => exact ⟨_, _, rfl, rfl⟩
    | date sent test => cases sent <;> cases test <;> exact ⟨_, _, rfl, rfl⟩
    | size larger => cases larger <;> exact ⟨_, _, rfl, rfl⟩
    | itemText key => cases key <;> exact ⟨_, _, rfl, rfl⟩
    | rawText key => cases key <;> exact ⟨_, _, rfl, rfl⟩
  | _ => exact ⟨_, _, rfl, rfl⟩

/-! ## Sets without a name -/

section

variable {text part : List Char} {ranges : List (Nat × Nat)} {n : Nat}

theorem SetEnd.chars (h : SetEnd text n) : ∀ ch ∈ text, ch.isDigit = true ∨ ch = '*' := by
  cases h with
  | star => exact fun ch hch => .inr (List.mem_singleton.mp hch)
  | number h _ => exact fun ch hch => .inl (h.digits ch hch)

theorem SetPart.chars {r : Nat × Nat} (h : SetPart part r) :
    ∀ ch ∈ part, ch.isDigit = true ∨ ch ∈ ['*', ':'] := by
  have hend : ∀ {text : List Char} {n : Nat}, SetEnd text n →
      ∀ ch ∈ text, ch.isDigit = true ∨ ch ∈ ['*', ':'] := by
    intro text n h ch hch
    rcases h.chars ch hch with hdigit | rfl
    · exact .inl hdigit
    · exact .inr List.mem_cons_self
  cases h with
  | single h => exact hend h
  | range hlo hhi =>
    intro ch hch
    rcases List.mem_append.mp hch with hch | hch
    · exact hend hlo ch hch
    · rcases List.mem_cons.mp hch with rfl | hch
      · exact .inr (by decide)
      · exact hend hhi ch hch

theorem SetPart.head {r : Nat × Nat} (h : SetPart part r) :
    ∃ ch rest, part = ch :: rest ∧ (ch.isDigit = true ∨ ch = '*') := by
  have hend : ∀ {text : List Char} {n : Nat}, SetEnd text n →
      ∃ ch rest, text = ch :: rest ∧ (ch.isDigit = true ∨ ch = '*') := by
    intro text n h
    obtain ⟨ch, rest, rfl⟩ := List.exists_cons_of_ne_nil h.ne_nil
    exact ⟨ch, rest, rfl, h.chars ch List.mem_cons_self⟩
  cases h with
  | single h => exact hend h
  | range hlo hhi =>
    obtain ⟨ch, rest, rfl, hch⟩ := hend hlo
    exact ⟨ch, _, rfl, hch⟩

theorem SetText.chars (h : SetText text ranges) :
    ∀ ch ∈ text, ch.isDigit = true ∨ ch ∈ ['*', ':', ','] := by
  obtain ⟨parts, -, rfl, hparts⟩ := h
  induction hparts with
  | nil => exact nofun
  | @cons part _ parts _ hpart _ ih =>
    have h1 : ∀ ch ∈ part, ch.isDigit = true ∨ ch ∈ ['*', ':', ','] := by
      intro ch hch
      rcases hpart.chars ch hch with hdigit | hmem
      · exact .inl hdigit
      · exact .inr (List.mem_append_left [','] hmem)
    cases parts with
    | nil => simpa using h1
    | cons next parts =>
      intro ch hch
      rw [List.intercalate_cons_cons, List.mem_append, List.mem_append] at hch
      rcases hch with (hch | hch) | hch
      · exact h1 ch hch
      · rw [List.mem_singleton.mp hch]
        exact .inr (by decide)
      · exact ih ch hch

theorem SetText.head (h : SetText text ranges) :
    ∃ ch rest, text = ch :: rest ∧ (ch.isDigit = true ∨ ch = '*') := by
  obtain ⟨parts, hne, rfl, hparts⟩ := h
  cases hparts with
  | nil => exact absurd rfl hne
  | @cons _ _ parts _ hpart _ =>
    obtain ⟨ch, rest, rfl, hch⟩ := hpart.head
    cases parts with
    | nil => exact ⟨ch, rest, by simp, hch⟩
    | cons next parts => exact ⟨ch, _, by rw [List.intercalate_cons_cons]; rfl, hch⟩

end

section

variable {value : Octets} {ranges : List (Nat × Nat)}

theorem isDigit_octet {ch : UInt8} (h : (Char.ofNat ch.toNat).isDigit = true) :
    isDigit ch = true := by
  simp only [Char.isDigit, Bool.and_eq_true, decide_eq_true_eq, ge_iff_le,
    UInt32.le_iff_toNat_le] at h
  have h1 : (Char.ofNat ch.toNat).val.toNat = ch.toNat := toNat_ofNat_octet ch
  rw [h1] at h
  simp only [isDigit, Bool.and_eq_true, decide_eq_true_eq, UInt8.le_iff_toNat_le]
  exact h

theorem mem_ascii_octet {ch : UInt8} {text : String} (h : Char.ofNat ch.toNat ∈ text.toList) :
    ch ∈ ascii text := by
  refine List.mem_map.mpr ⟨_, h, ?_⟩
  rw [toNat_ofNat_octet, UInt8.ofNat_toNat]

theorem set_octets (h : SetText (asText value).toList ranges) :
    ∀ ch ∈ value, isDigit ch = true ∨ ch ∈ ascii "*:," := by
  intro ch hch
  have hmem : Char.ofNat ch.toNat ∈ (asText value).toList := by
    rw [asText, String.toList_ofList]
    exact List.mem_map_of_mem hch
  rcases h.chars _ hmem with hdigit | hmark
  · exact .inl (isDigit_octet hdigit)
  · exact .inr (mem_ascii_octet hmark)

/-- A set has no letters. -/
theorem upper_set (h : SetText (asText value).toList ranges) : upper value = value := by
  have hsmall : ∀ ch ∈ value, (if 0x61 ≤ ch ∧ ch ≤ 0x7A then ch - 0x20 else ch) = ch := by
    intro ch hch
    rw [if_neg]
    rintro ⟨hlow, -⟩
    rcases set_octets h ch hch with hdigit | hmark
    · simp only [isDigit, Bool.and_eq_true, decide_eq_true_eq] at hdigit
      exact absurd (UInt8.le_trans hlow hdigit.2) (by decide)
    · have hmarks : ∀ mark ∈ ascii "*:,", ¬0x61 ≤ mark := by decide +kernel
      exact hmarks ch hmark hlow
  rw [upper, List.map_congr_left hsmall, List.map_id']

theorem looksLikeSeqset_set (h : SetText (asText value).toList ranges) :
    looksLikeSeqset (upper value) = true := by
  rw [upper_set h, looksLikeSeqset, Bool.and_eq_true]
  constructor
  · rw [List.all_eq_true]
    intro ch hch
    rw [Bool.or_eq_true, decide_eq_true_eq]
    exact set_octets h ch hch
  · obtain ⟨ch, rest, htext, hch⟩ := h.head
    rw [asText, String.toList_ofList, List.map_eq_cons_iff] at htext
    obtain ⟨octet, octets, rfl, rfl, -⟩ := htext
    rw [List.head?_cons, Option.any_some, Bool.or_eq_true, decide_eq_true_eq]
    rcases hch with hdigit | hstar
    · exact .inl (isDigit_octet hdigit)
    · refine .inr (mem_ascii_octet ?_)
      rw [hstar]
      decide

/-- No key is named like a set. -/
theorem formOf_set (h : SetText (asText value).toList ranges) :
    formOf (asText (upper value)) = none := by
  rw [upper_set h]
  cases hform : formOf (asText value) with
  | none => rfl
  | some form =>
    obtain ⟨ch, rest, htext, hch⟩ := h.head
    obtain ⟨ch', rest', htext', hupper⟩ := (named_of_formOf hform).letter
    rw [htext] at htext'
    cases htext'
    rcases hch with hdigit | rfl
    · simp only [Char.isDigit, Bool.and_eq_true, decide_eq_true_eq, ge_iff_le,
        UInt32.le_iff_toNat_le] at hdigit
      have h1 : (65 : Nat) ≤ ch.val.toNat := (of_decide_eq_true hupper).1
      have h2 : ch.val.toNat ≤ (57 : Nat) := hdigit.2
      omega
    · cases hupper

end

/-! ## Keys -/

/-- A search key.  A group has a key at least. -/
inductive SearchKey where
  | bare (b : Bare)
  | leaf (l : Leaf) (v : l.kind.Value)
  | header (field folded : String)
  | set (numbers : SequenceSet)
  | not (k : SearchKey)
  | or (a b : SearchKey)
  | group (first : SearchKey) (others : List SearchKey)

mutual

/-- The criterion a key stands for. -/
def SearchKey.denote : SearchKey → Crit
  | .bare b => b.crit
  | .leaf l v => l.crit v
  | .header field folded => .header field folded
  | .set numbers => .seqset numbers
  | .not k => .not k.denote
  | .or a b => .or a.denote b.denote
  | .group first others => .and (first.denote :: denoteAll others)

def denoteAll : List SearchKey → List Crit
  | [] => []
  | k :: ks => k.denote :: denoteAll ks

end

variable (uni : Unicode) (dates : Token → Nat → Prop)

mutual

/-- The tokens that write a key, with `dates` for the tokens that are dates. -/
inductive Spells : SearchKey → List Token → Prop
  | bare {b : Bare} {value : Octets} (named : asText (upper value) = b.name) :
      Spells (.bare b) [.atom value]
  | leaf {l : Leaf} {v : l.kind.Value} {value : Octets} {tok : Token}
      (named : asText (upper value) = l.name) (arg : l.kind.Spelled uni dates tok v) :
      Spells (.leaf l v) [.atom value, tok]
  | header {field folded : String} {value : Octets} {tok tok' : Token}
      (named : asText (upper value) = "HEADER") (arg : Kind.text.Spelled uni dates tok field)
      (arg' : Kind.needle.Spelled uni dates tok' folded) :
      Spells (.header field folded) [.atom value, tok, tok']
  | set {numbers : SequenceSet} {value : Octets}
      (written : SetText (asText value).toList numbers.ranges) :
      Spells (.set numbers) [.atom value]
  | not {k : SearchKey} {value : Octets} {tokens : List Token}
      (named : asText (upper value) = "NOT") (h : Spells k tokens) :
      Spells (.not k) (.atom value :: tokens)
  | or {a b : SearchKey} {value : Octets} {tokens tokens' : List Token}
      (named : asText (upper value) = "OR") (h : Spells a tokens) (h' : Spells b tokens') :
      Spells (.or a b) (.atom value :: (tokens ++ tokens'))
  | group {first : SearchKey} {others : List SearchKey} {items : List Token}
      (h : SpellsAll (first :: others) items) : Spells (.group first others) [.list items]

/-- Keys one after the other. -/
inductive SpellsAll : List SearchKey → List Token → Prop
  | nil : SpellsAll [] []
  | cons {k : SearchKey} {ks : List SearchKey} {tokens tokens' : List Token}
      (h : Spells k tokens) (hs : SpellsAll ks tokens') : SpellsAll (k :: ks) (tokens ++ tokens')

end

/-- A charset that is accepted may stand in front of the keys. -/
inductive Preceded : List Token → List Token → Prop
  | plain (items : List Token) : Preceded items items
  | charset {value : Octets} {tok : Token} {name : String} {items : List Token}
      (named : upper value = ascii "CHARSET") (carries : TextOf tok name)
      (accepted : uni.upper name ∈ ["UTF-8", "US-ASCII"]) :
      Preceded (.atom value :: tok :: items) items

/-- The tokens of a SEARCH for these keys. -/
structure Writing (ks : List SearchKey) (tokens : List Token) : Prop where
  ne_nil : ks ≠ []
  keys : ∃ items, Preceded uni tokens items ∧ SpellsAll uni dates ks items

/-! ## Reading what is written -/

/-- The value, unless the stack was too short for it. -/
def Yields {α : Type} (r : Except ArgError α) (a : α) : Prop := r = .ok a ∨ r = .error .recursion

theorem Yields.bind {α β : Type} {r : Except ArgError α} {f : α → Except ArgError β} {a : α} {b : β}
    (h : Yields r a) (hf : Yields (f a) b) : Yields (r >>= f) b := by
  rcases h with rfl | rfl
  · exact hf
  · exact .inr rfl

section

variable {uni : Unicode} {dates : Token → Nat → Prop} {frames : Nat} {k : SearchKey}
  {ks : List SearchKey} {tokens rest : List Token}

theorem Spells.ne_nil (h : Spells uni dates k tokens) : tokens ≠ [] := by
  cases h with
  | _ => exact List.cons_ne_nil _ _

/-- Keys that are spelled are read, where each of them is. -/
theorem keysBy_yields {key : List Token → Except ArgError (Crit × List Token)}
    (hkey : ∀ k tokens rest, Spells uni dates k tokens → (∀ t ∈ tokens, t.Legible) →
      Yields (key (tokens ++ rest)) (k.denote, rest))
    (h : SpellsAll uni dates ks tokens) (hl : ∀ t ∈ tokens, t.Legible) {n : Nat}
    (hn : tokens.length ≤ n) : Yields (keysBy key n tokens) (denoteAll ks) := by
  induction ks generalizing tokens n with
  | nil =>
    cases h
    cases n with
    | _ => exact .inl rfl
  | cons k ks ih =>
    cases h with
    | @cons _ _ front behind hk hks =>
      have hpos := List.length_pos_iff.mpr hk.ne_nil
      rw [List.length_append] at hn
      obtain ⟨n, rfl⟩ := Nat.exists_eq_succ_of_ne_zero (show n ≠ 0 by omega)
      obtain ⟨hl1, hl2⟩ := List.forall_mem_append.mp hl
      rw [keysBy]
      · refine (hkey k front behind hk hl1).bind ?_
        refine Yields.bind (ih hks hl2 (by omega)) (.inl rfl)
      · simp [hk.ne_nil]

theorem key_yields (h : Spells uni (LooseDate uni) k tokens) (hl : ∀ t ∈ tokens, t.Legible) :
    Yields (key uni frames (tokens ++ rest)) (k.denote, rest) := by
  induction frames generalizing k tokens rest with
  | zero => exact .inr rfl
  | succ frames ih =>
    cases h with
    | @bare b value named =>
      have form := named ▸ formOf_bare b
      refine .inl ?_
      simp only [List.singleton_append, key, form]
      rfl
    | @leaf l v value tok named arg =>
      have form := named ▸ formOf_leaf l
      have hread := (@Kind.read_eq_ok_iff uni _ (asText (upper value)) tok (hl tok (by simp)) v).mpr arg
      refine .inl ?_
      show key uni (frames + 1) (.atom value :: tok :: rest) = _
      rw [key_one form, hread]
      rfl
    | @header field folded value tok tok' named arg arg' =>
      have form := named ▸ Named.formOf .header
      have hfield := (@Kind.read_eq_ok_iff uni .text "" tok (hl tok (by simp)) field).mpr arg
      have hfolded := (@Kind.read_eq_ok_iff uni .needle "" tok' (hl tok' (by simp)) folded).mpr arg'
      refine .inl ?_
      show key uni (frames + 1) (.atom value :: tok :: tok' :: rest) = _
      rw [key_two form, show textOf tok = .ok field from hfield,
        show needle uni tok' = .ok folded from hfolded]
      rfl
    | @set numbers value written =>
      have hvalue : ∀ ch ∈ value, isPrintable ch = true := by
        cases hl _ List.mem_cons_self with
        | atom h => exact h
      refine .inl ?_
      show key uni (frames + 1) (.atom value :: rest) = _
      rw [key_set (formOf_set written) (looksLikeSeqset_set written),
        (seqset_eq_ok_iff hvalue).mpr written]
      rfl
    | @not k value tokens named h =>
      rw [List.cons_append, key_not (named ▸ Named.formOf .not)]
      exact (ih h fun t ht => hl t (List.mem_cons_of_mem _ ht)).bind (.inl rfl)
    | @or a b value tokens tokens' named h h' =>
      obtain ⟨hl1, hl2⟩ := List.forall_mem_append.mp (List.forall_mem_cons.mp hl).2
      rw [List.cons_append, key_or (named ▸ Named.formOf .or), List.append_assoc]
      refine (ih h hl1).bind ?_
      exact Yields.bind (ih h' hl2) (.inl rfl)
    | @group first others items h =>
      have hitems : ∀ t ∈ items, t.Legible := by
        cases hl _ List.mem_cons_self with
        | list h => exact h
      show Yields (key uni (frames + 1) (.list items :: rest)) _
      rw [key_group]
      refine Yields.bind (keysBy_yields (fun k tokens rest h hl => ih h hl) h hitems (le_refl _)) ?_
      exact .inl rfl

/-! ## What is read was written -/

theorem keysBy_spelled {key : List Token → Except ArgError (Crit × List Token)}
    (hkey : ∀ tokens crit rest, (∀ t ∈ tokens, t.Legible) → key tokens = .ok (crit, rest) →
      ∃ k front, tokens = front ++ rest ∧ Spells uni dates k front ∧ crit = k.denote)
    (hl : ∀ t ∈ tokens, t.Legible) {n : Nat} (hn : tokens.length ≤ n) {crits : List Crit}
    (h : keysBy key n tokens = .ok crits) :
    ∃ ks, SpellsAll uni dates ks tokens ∧ crits = denoteAll ks := by
  induction n generalizing tokens crits with
  | zero =>
    cases h
    rw [List.length_eq_zero_iff.mp (Nat.le_zero.mp hn)]
    exact ⟨[], .nil, rfl⟩
  | succ n ih =>
    cases tokens with
    | nil =>
      cases h
      exact ⟨[], .nil, rfl⟩
    | cons tok tokens =>
      rw [keysBy, bind_eq_ok_iff] at h
      · obtain ⟨⟨crit, rest⟩, hread, h⟩ := h
        obtain ⟨crits', hrest, heq⟩ := bind_eq_ok_iff.mp h
        cases heq
        obtain ⟨k, front, hsplit, hk, rfl⟩ := hkey _ _ _ hl hread
        have hpos := List.length_pos_iff.mpr hk.ne_nil
        have hlen := congrArg List.length hsplit
        rw [List.length_append] at hlen
        rw [hsplit] at hl ⊢
        obtain ⟨ks, hks, rfl⟩ := ih (List.forall_mem_append.mp hl).2 (by omega) hrest
        exact ⟨k :: ks, .cons hk hks, rfl⟩
      · exact List.cons_ne_nil _ _

/-- A key with a name, where the keys in it are spelled. -/
theorem named_spelled {value : Octets} {form : Form} {crit : Crit}
    (ih : ∀ tokens crit rest, (∀ t ∈ tokens, t.Legible) →
      key uni frames tokens = .ok (crit, rest) →
      ∃ k front, tokens = front ++ rest ∧ Spells uni (LooseDate uni) k front ∧ crit = k.denote)
    (named : Named (asText (upper value)) form) (hl : ∀ t ∈ tokens, t.Legible)
    (h : key uni (frames + 1) (.atom value :: tokens) = .ok (crit, rest)) :
    ∃ k front, .atom value :: tokens = front ++ rest ∧ Spells uni (LooseDate uni) k front ∧
      crit = k.denote := by
  have hform := named.formOf
  generalize hname : asText (upper value) = name at named hform
  cases named with
  | bare b =>
    simp only [key, hname, hform] at h
    cases h
    exact ⟨.bare b, [.atom value], rfl, .bare hname, rfl⟩
  | leaf l =>
    cases tokens with
    | nil =>
      simp only [key, hname, hform, nextToken] at h
      cases h
    | cons tok tokens =>
      rw [key_one (hname ▸ hform), bind_eq_ok_iff] at h
      obtain ⟨v, hread, h⟩ := h
      cases h
      have harg := (Kind.read_eq_ok_iff (hl tok List.mem_cons_self)).mp hread
      exact ⟨.leaf l v, [.atom value, tok], rfl, .leaf hname harg, rfl⟩
  | header =>
    rcases tokens with _ | ⟨tok, _ | ⟨tok', tokens⟩⟩
    · simp only [key, hname, hform, nextToken] at h
      cases h
    · simp only [key, hname, hform, nextToken] at h
      obtain ⟨_, h, hnext⟩ := bind_eq_ok_iff.mp h
      cases h
      obtain ⟨field, _, h⟩ := bind_eq_ok_iff.mp hnext
      cases h
    · rw [key_two (hname ▸ hform), bind_eq_ok_iff] at h
      obtain ⟨field, hfield, h⟩ := h
      obtain ⟨folded, hfolded, h⟩ := bind_eq_ok_iff.mp h
      cases h
      have harg := (@Kind.read_eq_ok_iff uni .text "" _ (hl tok (by simp)) field).mp hfield
      have harg' := (@Kind.read_eq_ok_iff uni .needle "" _ (hl tok' (by simp)) folded).mp hfolded
      exact ⟨.header field folded, [.atom value, tok, tok'], rfl, .header hname harg harg', rfl⟩
  | not =>
    rw [key_not (hname ▸ hform), bind_eq_ok_iff] at h
    obtain ⟨⟨crit', rest'⟩, hread, h⟩ := h
    cases h
    obtain ⟨k, front, rfl, hk, rfl⟩ := ih _ _ _ hl hread
    exact ⟨.not k, .atom value :: front, rfl, .not hname hk, rfl⟩
  | or =>
    rw [key_or (hname ▸ hform), bind_eq_ok_iff] at h
    obtain ⟨⟨crit₁, middle⟩, hread, h⟩ := h
    obtain ⟨⟨crit₂, rest'⟩, hread', h⟩ := bind_eq_ok_iff.mp h
    cases h
    obtain ⟨a, front, rfl, ha, rfl⟩ := ih _ _ _ hl hread
    obtain ⟨b, front', rfl, hb, rfl⟩ := ih _ _ _ (List.forall_mem_append.mp hl).2 hread'
    exact ⟨.or a b, .atom value :: (front ++ front'), by simp, .or hname ha hb, rfl⟩

theorem key_spelled {crit : Crit} (hl : ∀ t ∈ tokens, t.Legible)
    (h : key uni frames tokens = .ok (crit, rest)) :
    ∃ k front, tokens = front ++ rest ∧ Spells uni (LooseDate uni) k front ∧ crit = k.denote := by
  induction frames generalizing tokens rest crit with
  | zero => cases h
  | succ frames ih =>
    cases tokens with
    | nil => cases h
    | cons tok tokens =>
      obtain ⟨htok, htokens⟩ := List.forall_mem_cons.mp hl
      cases tok with
      | list items =>
        have hitems : ∀ t ∈ items, t.Legible := by
          cases htok with
          | list h => exact h
        rw [key_group, bind_eq_ok_iff] at h
        obtain ⟨crits, hread, h⟩ := h
        obtain ⟨ks, hks, rfl⟩ := keysBy_spelled (fun _ _ _ hl h => ih hl h) hitems (le_refl _) hread
        cases ks with
        | nil => cases h
        | cons first others =>
          cases h
          exact ⟨.group first others, [.list items], rfl, .group hks, rfl⟩
      | atom value =>
        cases hform : formOf (asText (upper value)) with
        | none =>
          by_cases looks : looksLikeSeqset (upper value) = true
          · rw [key_set hform looks, bind_eq_ok_iff] at h
            obtain ⟨numbers, hread, h⟩ := h
            cases h
            have hwritten := (@Kind.read_eq_ok_iff uni .set "" _ htok numbers).mp hread
            exact ⟨.set numbers, [.atom value], rfl, .set hwritten, rfl⟩
          · simp only [key, hform, looks] at h
            cases h
        | some form =>
          exact named_spelled (fun _ _ _ hl h => ih hl h) (named_of_formOf hform) htokens h
      | _ => cases h

end

/-! ## The charset -/

section

variable {uni : Unicode} {dates : Token → Nat → Prop} {k : SearchKey} {ks : List SearchKey}
  {value : Octets} {tokens items rest : List Token}

/-- `CHARSET` is no key. -/
theorem Spells.not_charset (h : Spells uni dates k (.atom value :: rest)) :
    upper value ≠ ascii "CHARSET" := by
  intro hcharset
  have hform : formOf (asText (upper value)) = none := by
    rw [hcharset]
    rfl
  have hnamed : ∀ {name : String} {form : Form}, asText (upper value) = name →
      ¬Named name form := by
    rintro _ form rfl named
    rw [named.formOf] at hform
    cases hform
  cases h with
  | @bare b _ named => exact hnamed named (.bare b)
  | @leaf l _ _ _ named _ => exact hnamed named (.leaf l)
  | header named _ _ => exact hnamed named .header
  | not named _ => exact hnamed named .not
  | or named _ _ => exact hnamed named .or
  | set written =>
    have hlooks := looksLikeSeqset_set written
    rw [hcharset] at hlooks
    exact absurd hlooks (by decide)

theorem SpellsAll.not_charset (h : SpellsAll uni dates ks (.atom value :: rest)) :
    upper value ≠ ascii "CHARSET" := by
  generalize htokens : .atom value :: rest = tokens at h
  cases h with
  | nil => cases htokens
  | @cons k _ front behind hk _ =>
    obtain ⟨tok, front, rfl⟩ := List.exists_cons_of_ne_nil hk.ne_nil
    cases htokens
    exact hk.not_charset

theorem withoutCharset_of_preceded (h : Preceded uni tokens items)
    (hs : SpellsAll uni dates ks items) : withoutCharset uni tokens = .ok items := by
  cases h with
  | charset named carries accepted =>
    rw [withoutCharset, if_pos named, textOf_eq_ok_iff.mpr carries]
    show (if _ then _ else _) = _
    rw [if_neg (Classical.not_not.mpr accepted)]
    rfl
  | plain =>
    cases tokens with
    | nil => rfl
    | cons tok tokens =>
      cases tok with
      | atom value => exact if_neg hs.not_charset
      | _ => rfl

theorem preceded_of_withoutCharset (h : withoutCharset uni tokens = .ok items) :
    Preceded uni tokens items := by
  unfold withoutCharset at h
  split at h
  · split at h
    · rename_i named
      split at h
      · cases h
      · rename_i tok rest
        obtain ⟨name, hname, h⟩ := bind_eq_ok_iff.mp h
        split at h
        · cases h
        · rename_i haccepted
          cases h
          exact .charset named (textOf_eq_ok_iff.mp hname) (Classical.not_not.mp haccepted)
    · cases h
      exact .plain _
  · cases h
    exact .plain _

/-- The tokens of a SEARCH are read as the keys mean. -/
theorem Writing.yields {frames : Nat} (h : Writing uni (LooseDate uni) ks tokens)
    (hl : ∀ t ∈ tokens, t.Legible) :
    Yields (parseSearch uni frames tokens) (.and (denoteAll ks)) := by
  obtain ⟨hne, items, hpreceded, hkeys⟩ := h
  have hitems := withoutCharset_of_preceded hpreceded hkeys
  have hl' : ∀ t ∈ items, t.Legible := fun t ht => hl t (withoutCharset_subset hitems ht)
  have hnonempty : ¬items.isEmpty = true := by
    cases hkeys with
    | nil => exact absurd rfl hne
    | cons hk _ => simp [hk.ne_nil]
  rw [parseSearch, hitems]
  show Yields (if _ then _ else _) _
  rw [if_neg hnonempty]
  exact Yields.bind (keysBy_yields (fun _ _ _ h hl => key_yields h hl) hkeys hl' (le_refl _))
    (.inl rfl)

/-- What is read from a SEARCH was written as keys. -/
theorem writing_of_parseSearch {frames : Nat} {crit : Crit} (hl : ∀ t ∈ tokens, t.Legible)
    (h : parseSearch uni frames tokens = .ok crit) :
    ∃ ks, Writing uni (LooseDate uni) ks tokens ∧ crit = .and (denoteAll ks) := by
  rw [parseSearch, bind_eq_ok_iff] at h
  obtain ⟨items, hitems, h⟩ := h
  have hl' : ∀ t ∈ items, t.Legible := fun t ht => hl t (withoutCharset_subset hitems ht)
  split at h
  · cases h
  · rename_i hnonempty
    obtain ⟨crits, hread, h⟩ := bind_eq_ok_iff.mp h
    cases h
    obtain ⟨ks, hks, rfl⟩ := keysBy_spelled (fun _ _ _ hl h => key_spelled hl h) hl' (le_refl _)
      hread
    refine ⟨ks, ⟨?_, items, preceded_of_withoutCharset hitems, hks⟩, rfl⟩
    rintro rfl
    cases hks
    exact hnonempty rfl

end

end Imap
end ImapGateway
