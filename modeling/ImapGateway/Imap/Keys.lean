/-
Which search keys break.

The grammar of search keys, as far as the stack lets them nest, and beside it the keys at
which the reader raises what no handler catches: an overlong number, or a key for which no
call fits any more.
-/
import ImapGateway.Imap.Arguments
import ImapGateway.Imap.Criteria

namespace ImapGateway
namespace Imap

open ImapGateway.Parser
open Mailbox hiding upper

variable (uni : Unicode)

/-! ## Search keys -/

/-- A token that a key can take. -/
def Kind.Fits : Kind → Token → Prop
  | .text, tok | .needle, tok => Accepts (textOf tok)
  | .set, .atom value => SetReads uni (asText value).toList
  | .date, tok => Accepts (dateOf uni tok)
  | .number, .atom value => uni.isDigits (asText value).toList = true ∧
      (asText value).toList.length ≤ maxIntDigits
  | _, _ => False

/-- A token with an overlong number where a key takes one. -/
def Kind.Fault : Kind → Token → Prop
  | .set, .atom value => SetFault uni (asText value).toList
  | .number, .atom value => Overlong uni (asText value).toList
  | _, _ => False

section

variable {α : Type} (R : List α → List α → Prop) (B : List α → Prop)

/-- Keys up to the end, where `R` reads one. -/
inductive Keys : List α → Prop
  | nil : Keys []
  | cons {tokens rest : List α} : R tokens rest → Keys rest → Keys tokens

/-- Keys of which one breaks, behind some that are read. -/
inductive KeysBreak : List α → Prop
  | here {tokens : List α} : tokens ≠ [] → B tokens → KeysBreak tokens
  | later {tokens rest : List α} : R tokens rest → KeysBreak rest → KeysBreak tokens

end

/-- The key in front of the tokens can be read, where `R` reads the keys nested in it. -/
inductive KeyReads (R : List Token → List Token → Prop) : List Token → List Token → Prop
  | bare {value : Octets} {rest : List Token} {crit : Crit}
      (form : formOf (asText (upper value)) = some (.bare crit)) :
      KeyReads R (.atom value :: rest) rest
  | one {value : Octets} {tok : Token} {rest : List Token} {kind : Kind} {crit : kind.Value → Crit}
      (form : formOf (asText (upper value)) = some (.one kind crit)) (fits : kind.Fits uni tok) :
      KeyReads R (.atom value :: tok :: rest) rest
  | two {value : Octets} {tok tok' : Token} {rest : List Token} {crit : String → String → Crit}
      (form : formOf (asText (upper value)) = some (.two crit)) (fits : Kind.text.Fits uni tok)
      (fits' : Kind.needle.Fits uni tok') : KeyReads R (.atom value :: tok :: tok' :: rest) rest
  | not {value : Octets} {tokens rest : List Token}
      (form : formOf (asText (upper value)) = some .not) (h : R tokens rest) :
      KeyReads R (.atom value :: tokens) rest
  | or {value : Octets} {tokens rest rest' : List Token}
      (form : formOf (asText (upper value)) = some .or) (h : R tokens rest) (h' : R rest rest') :
      KeyReads R (.atom value :: tokens) rest'
  | set {value : Octets} {rest : List Token} (form : formOf (asText (upper value)) = none)
      (looks : looksLikeSeqset (upper value) = true) (fits : Kind.set.Fits uni (.atom value)) :
      KeyReads R (.atom value :: rest) rest
  | group {items rest : List Token} (h : Keys R items) (hne : items ≠ []) :
      KeyReads R (.list items :: rest) rest

/-- The key in front of the tokens breaks at an overlong number, or at a key nested in it
that breaks by `B`. -/
inductive KeyBreaks (R : List Token → List Token → Prop) (B : List Token → Prop) :
    List Token → Prop
  | one {value : Octets} {tok : Token} {rest : List Token} {kind : Kind} {crit : kind.Value → Crit}
      (form : formOf (asText (upper value)) = some (.one kind crit)) (fault : kind.Fault uni tok) :
      KeyBreaks R B (.atom value :: tok :: rest)
  | not {value : Octets} {tokens : List Token} (form : formOf (asText (upper value)) = some .not)
      (h : B tokens) : KeyBreaks R B (.atom value :: tokens)
  | orLeft {value : Octets} {tokens : List Token} (form : formOf (asText (upper value)) = some .or)
      (h : B tokens) : KeyBreaks R B (.atom value :: tokens)
  | orRight {value : Octets} {tokens rest : List Token}
      (form : formOf (asText (upper value)) = some .or) (h : R tokens rest) (h' : B rest) :
      KeyBreaks R B (.atom value :: tokens)
  | set {value : Octets} {rest : List Token} (form : formOf (asText (upper value)) = none)
      (looks : looksLikeSeqset (upper value) = true) (fault : Kind.set.Fault uni (.atom value)) :
      KeyBreaks R B (.atom value :: rest)
  | group {items rest : List Token} (h : KeysBreak R B items) : KeyBreaks R B (.list items :: rest)

/-- A key that can be read when `frames` nested calls fit on the stack. -/
def Reads : Nat → List Token → List Token → Prop
  | 0 => fun _ _ => False
  | frames + 1 => KeyReads uni (Reads frames)

/-- A key that breaks.  Where no call fits any more, every key does. -/
def Breaks : Nat → List Token → Prop
  | 0 => fun _ => True
  | frames + 1 => KeyBreaks uni (Reads uni frames) (Breaks frames)

/-- The first key behind the charset that cannot be read breaks. -/
def SearchFault (frames : Nat) (tokens : List Token) : Prop :=
  ∃ items, withoutCharset uni tokens = .ok items ∧
    KeysBreak (Reads uni frames) (Breaks uni frames) items

section

variable {uni : Unicode} {frames : Nat}

theorem textOf_not_escapes (tok : Token) : ¬Escapes (textOf tok) := by
  intro h
  unfold textOf at h
  split at h
  · exact absurd ((escapes_error_iff _).mp h) Bool.noConfusion
  · split at h
    · exact absurd ((escapes_error_iff _).mp h) Bool.noConfusion
    · exact not_escapes_ok _ h

theorem dateOf_not_escapes (tok : Token) : ¬Escapes (dateOf uni tok) := by
  intro h
  rw [dateOf, escapes_bind_iff] at h
  rcases h with h | ⟨text, _, h⟩
  · exact textOf_not_escapes tok h
  · split at h
    · exact absurd ((escapes_error_iff _).mp h) Bool.noConfusion
    · split at h
      · exact absurd ((escapes_error_iff _).mp h) Bool.noConfusion
      · split at h
        · split at h
          · exact absurd ((escapes_error_iff _).mp h) Bool.noConfusion
          · exact not_escapes_ok _ h
        · exact absurd ((escapes_error_iff _).mp h) Bool.noConfusion

/-- A `FetchSyntaxError` is raised anew as a `SearchSyntaxError`, and nothing else changes. -/
theorem seqset_accepts_iff {value : Octets} (h : ∀ ch ∈ value, isPrintable ch = true) :
    Accepts (seqset uni (.atom value)) ↔ SetReads uni (asText value).toList := by
  rw [← parseSequenceSet_atom_accepts_iff h, seqset]
  split
  · rename_i text heq
    rw [heq]
    exact ⟨fun h => absurd h (not_accepts_error _), fun h => absurd h (not_accepts_error _)⟩
  · exact Iff.rfl

theorem seqset_escapes_iff {value : Octets} (h : ∀ ch ∈ value, isPrintable ch = true) :
    Escapes (seqset uni (.atom value)) ↔ SetFault uni (asText value).toList := by
  rw [← parseSequenceSet_atom_escapes_iff h, seqset]
  split
  · rename_i text heq
    rw [heq, escapes_error_iff, escapes_error_iff]
    exact Iff.rfl
  · exact Iff.rfl

theorem numberOf_accepts_iff {name : String} {value : Octets}
    (h : ∀ ch ∈ value, isPrintable ch = true) : Accepts (numberOf uni name (.atom value)) ↔
      uni.isDigits (asText value).toList = true ∧
        (asText value).toList.length ≤ maxIntDigits := by
  rw [numberOf]
  by_cases hdigits : uni.isDigits (asText value).toList = true
  · rw [if_pos hdigits, int_accepts_iff (asText_ascii h) hdigits]
    exact ⟨fun hlen => ⟨hdigits, hlen⟩, fun h => h.2⟩
  · rw [if_neg hdigits]
    exact ⟨fun h => absurd h (not_accepts_error _), fun h => absurd h.1 hdigits⟩

theorem numberOf_escapes_iff {name : String} {value : Octets}
    (h : ∀ ch ∈ value, isPrintable ch = true) :
    Escapes (numberOf uni name (.atom value)) ↔ Overlong uni (asText value).toList := by
  rw [numberOf, Overlong]
  by_cases hdigits : uni.isDigits (asText value).toList = true
  · rw [if_pos hdigits, int_escapes_iff (asText_ascii h) hdigits]
    exact ⟨fun hlen => ⟨hdigits, hlen⟩, fun h => h.2⟩
  · rw [if_neg hdigits, escapes_error_iff]
    exact ⟨Bool.noConfusion, fun h => absurd h.1 hdigits⟩

theorem Kind.read_accepts_iff {kind : Kind} {name : String} {tok : Token} (h : tok.Legible) :
    Accepts (kind.read uni name tok) ↔ kind.Fits uni tok := by
  cases kind with
  | text => exact Iff.rfl
  | needle => exact accepts_return_iff
  | date => exact Iff.rfl
  | set =>
    cases h with
    | atom hvalue => exact seqset_accepts_iff hvalue
    | _ => exact ⟨fun h => absurd h (not_accepts_error _), fun h => h.elim⟩
  | number =>
    cases h with
    | atom hvalue => exact numberOf_accepts_iff hvalue
    | _ => exact ⟨fun h => absurd h (not_accepts_error _), fun h => h.elim⟩

theorem Kind.read_escapes_iff {kind : Kind} {name : String} {tok : Token} (h : tok.Legible) :
    Escapes (kind.read uni name tok) ↔ kind.Fault uni tok := by
  cases kind with
  | text => exact ⟨fun h => absurd h (textOf_not_escapes tok), fun h => h.elim⟩
  | needle =>
    exact ⟨fun h => absurd (escapes_return_iff.mp h) (textOf_not_escapes tok), fun h => h.elim⟩
  | date => exact ⟨fun h => absurd h (dateOf_not_escapes tok), fun h => h.elim⟩
  | set =>
    cases h with
    | atom hvalue => exact seqset_escapes_iff hvalue
    | _ => exact ⟨fun h => absurd ((escapes_error_iff _).mp h) Bool.noConfusion, fun h => h.elim⟩
  | number =>
    cases h with
    | atom hvalue => exact numberOf_escapes_iff hvalue
    | _ => exact ⟨fun h => absurd ((escapes_error_iff _).mp h) Bool.noConfusion, fun h => h.elim⟩

end

/-! ## Reading keys -/

theorem bind_eq_ok_iff {α β : Type} {r : Except ArgError α} {f : α → Except ArgError β} {b : β} :
    r >>= f = .ok b ↔ ∃ a, r = .ok a ∧ f a = .ok b := by
  cases r with
  | error e =>
    constructor
    · intro h
      cases h
    · rintro ⟨a, h, _⟩
      cases h
  | ok a =>
    constructor
    · exact fun h => ⟨a, rfl, h⟩
    · rintro ⟨a', h, hf⟩
      cases h
      exact hf

/-- Of legible tokens, `key` reads what `R` says and breaks where `B` says. -/
structure Follows (key : List Token → Except ArgError (Crit × List Token))
    (R : List Token → List Token → Prop) (B : List Token → Prop) : Prop where
  reads : ∀ tokens rest, (∀ t ∈ tokens, t.Legible) →
    ((∃ crit, key tokens = .ok (crit, rest)) ↔ R tokens rest)
  breaks : ∀ tokens, (∀ t ∈ tokens, t.Legible) → (Escapes (key tokens) ↔ B tokens)
  taken : ∀ tokens rest, R tokens rest → ∃ taken, taken ≠ [] ∧ tokens = taken ++ rest

section

variable {key : List Token → Except ArgError (Crit × List Token)}
  {R : List Token → List Token → Prop} {B : List Token → Prop} {tokens rest : List Token} {n : Nat}

theorem Follows.shorter (h : Follows key R B) (hread : R tokens rest) :
    rest.length < tokens.length := by
  obtain ⟨taken, hne, rfl⟩ := h.taken _ _ hread
  have hpos := List.length_pos_iff.mpr hne
  rw [List.length_append]
  omega

theorem Follows.legible (h : Follows key R B) (hl : ∀ t ∈ tokens, t.Legible)
    (hread : R tokens rest) : ∀ t ∈ rest, t.Legible := by
  obtain ⟨taken, _, rfl⟩ := h.taken _ _ hread
  exact fun t ht => hl t (List.mem_append_right _ ht)

theorem Follows.keys_accepts_iff (h : Follows key R B) (hn : tokens.length ≤ n)
    (hl : ∀ t ∈ tokens, t.Legible) : Accepts (keysBy key n tokens) ↔ Keys R tokens := by
  induction n generalizing tokens with
  | zero =>
    rw [List.length_eq_zero_iff.mp (Nat.le_zero.mp hn)]
    exact ⟨fun _ => .nil, fun _ => accepts_ok _⟩
  | succ n ih =>
    cases tokens with
    | nil => exact ⟨fun _ => .nil, fun _ => accepts_ok _⟩
    | cons tok tokens =>
      rw [keysBy, accepts_bind_iff]
      · constructor
        · rintro ⟨⟨crit, rest⟩, hkey, hrest⟩
          have hread := (h.reads _ rest hl).mp ⟨crit, hkey⟩
          have hshort := h.shorter hread
          refine .cons hread ((ih ?_ (h.legible hl hread)).mp (accepts_return_iff.mp hrest))
          omega
        · intro hkeys
          cases hkeys with
          | @cons _ rest hread hkeys =>
            obtain ⟨crit, hkey⟩ := (h.reads _ rest hl).mpr hread
            have hshort := h.shorter hread
            refine ⟨_, hkey, accepts_return_iff.mpr ((ih ?_ (h.legible hl hread)).mpr hkeys)⟩
            omega
      · exact List.cons_ne_nil _ _

theorem Follows.keys_escapes_iff (h : Follows key R B) (hn : tokens.length ≤ n)
    (hl : ∀ t ∈ tokens, t.Legible) : Escapes (keysBy key n tokens) ↔ KeysBreak R B tokens := by
  have hnil : ∀ r : Except ArgError (List Crit), r = .ok [] →
      (Escapes r ↔ KeysBreak R B []) := by
    rintro _ rfl
    constructor
    · exact fun h => absurd h (not_escapes_ok _)
    · intro hbreak
      cases hbreak with
      | here hne _ => exact absurd rfl hne
      | later hread _ => exact absurd (h.shorter hread) (Nat.not_lt_zero _)
  induction n generalizing tokens with
  | zero =>
    rw [List.length_eq_zero_iff.mp (Nat.le_zero.mp hn)]
    exact hnil _ rfl
  | succ n ih =>
    cases tokens with
    | nil => exact hnil _ rfl
    | cons tok tokens =>
      rw [keysBy, escapes_bind_iff, h.breaks _ hl]
      · constructor
        · rintro (hbreak | ⟨⟨crit, rest⟩, hkey, hrest⟩)
          · exact .here (List.cons_ne_nil _ _) hbreak
          · have hread := (h.reads _ rest hl).mp ⟨crit, hkey⟩
            have hshort := h.shorter hread
            refine .later hread ((ih ?_ (h.legible hl hread)).mp (escapes_return_iff.mp hrest))
            omega
        · intro hkeys
          cases hkeys with
          | here _ hbreak => exact .inl hbreak
          | @later _ rest hread hkeys =>
            obtain ⟨crit, hkey⟩ := (h.reads _ rest hl).mpr hread
            have hshort := h.shorter hread
            refine .inr ⟨_, hkey, escapes_return_iff.mpr ((ih ?_ (h.legible hl hread)).mpr hkeys)⟩
            omega
      · exact List.cons_ne_nil _ _

/-- There is a criterion for every key. -/
theorem keysBy_isEmpty {crits : List Crit} (h : keysBy key tokens.length tokens = .ok crits) :
    crits.isEmpty = tokens.isEmpty := by
  cases tokens with
  | nil =>
    cases h
    rfl
  | cons tok tokens =>
    rw [List.length_cons, keysBy, bind_eq_ok_iff] at h
    · obtain ⟨⟨crit, rest⟩, _, hrest⟩ := h
      obtain ⟨crits', _, heq⟩ := bind_eq_ok_iff.mp hrest
      cases heq
      rfl
    · exact List.cons_ne_nil _ _

end

section

variable {uni : Unicode} {frames : Nat}

theorem reads_taken {R : List Token → List Token → Prop}
    (hR : ∀ tokens rest, R tokens rest → ∃ taken, taken ≠ [] ∧ tokens = taken ++ rest)
    {tokens rest : List Token} (h : KeyReads uni R tokens rest) :
    ∃ taken, taken ≠ [] ∧ tokens = taken ++ rest := by
  cases h with
  | @bare value _ _ _ => exact ⟨[.atom value], List.cons_ne_nil _ _, rfl⟩
  | @one value tok _ _ _ _ _ => exact ⟨[.atom value, tok], List.cons_ne_nil _ _, rfl⟩
  | @two value tok tok' _ _ _ _ _ => exact ⟨[.atom value, tok, tok'], List.cons_ne_nil _ _, rfl⟩
  | @not value tokens _ _ h =>
    obtain ⟨taken, _, rfl⟩ := hR _ _ h
    exact ⟨.atom value :: taken, List.cons_ne_nil _ _, rfl⟩
  | @or value tokens _ _ _ h h' =>
    obtain ⟨taken, _, rfl⟩ := hR _ _ h
    obtain ⟨taken', _, rfl⟩ := hR _ _ h'
    exact ⟨.atom value :: (taken ++ taken'), List.cons_ne_nil _ _,
      by rw [List.cons_append, List.append_assoc]⟩
  | @set value _ _ _ _ => exact ⟨[.atom value], List.cons_ne_nil _ _, rfl⟩
  | @group items _ _ _ => exact ⟨[.list items], List.cons_ne_nil _ _, rfl⟩

/-- A key that takes one token. -/
theorem key_one {value : Octets} {kind : Kind} {crit : kind.Value → Crit}
    (form : formOf (asText (upper value)) = some (.one kind crit)) (tok : Token)
    (rest : List Token) : key uni (frames + 1) (.atom value :: tok :: rest) =
      (do let v ← kind.read uni (asText (upper value)) tok; return (crit v, rest)) := by
  simp only [key, form]
  rfl

theorem key_two {value : Octets} {crit : String → String → Crit}
    (form : formOf (asText (upper value)) = some (.two crit)) (tok tok' : Token)
    (rest : List Token) : key uni (frames + 1) (.atom value :: tok :: tok' :: rest) =
      (do let field ← textOf tok; let v ← needle uni tok'; return (crit field v, rest)) := by
  simp only [key, form]
  rfl

theorem key_not {value : Octets} (form : formOf (asText (upper value)) = some .not)
    (rest : List Token) : key uni (frames + 1) (.atom value :: rest) =
      (do let r ← key uni frames rest; return (.not r.1, r.2)) := by
  simp only [key, form]

theorem key_or {value : Octets} (form : formOf (asText (upper value)) = some .or)
    (rest : List Token) : key uni (frames + 1) (.atom value :: rest) =
      (do let a ← key uni frames rest; let b ← key uni frames a.2; return (.or a.1 b.1, b.2)) := by
  simp only [key, form]

theorem key_set {value : Octets} (form : formOf (asText (upper value)) = none)
    (looks : looksLikeSeqset (upper value) = true) (rest : List Token) :
    key uni (frames + 1) (.atom value :: rest) =
      (do let set ← seqset uni (.atom value); return (.seqset set, rest)) := by
  simp only [key, form, looks, if_true]

theorem key_group (items rest : List Token) : key uni (frames + 1) (.list items :: rest) =
    (do let crits ← keysBy (key uni frames) items.length items
        if crits.isEmpty then throw (.searchSyntax "empty search group")
        return (.and crits, rest)) := rfl

variable {R : List Token → List Token → Prop} {B : List Token → Prop}

/-- What stands behind an atom, by the form of the key. -/
theorem keyReads_atom_iff {value : Octets} {tokens rest : List Token} :
    KeyReads uni R (.atom value :: tokens) rest ↔ match formOf (asText (upper value)) with
      | some (.bare _) => rest = tokens
      | some (.one kind _) => ∃ tok, tokens = tok :: rest ∧ kind.Fits uni tok
      | some (.two _) => ∃ tok tok', tokens = tok :: tok' :: rest ∧
          Kind.text.Fits uni tok ∧ Kind.needle.Fits uni tok'
      | some .not => R tokens rest
      | some .or => ∃ mid, R tokens mid ∧ R mid rest
      | none => looksLikeSeqset (upper value) = true ∧ rest = tokens ∧
          Kind.set.Fits uni (.atom value) := by
  constructor
  · intro h
    cases h with
    | bare form => rw [form]
    | one form fits =>
      rw [form]
      exact ⟨_, rfl, fits⟩
    | two form fits fits' =>
      rw [form]
      exact ⟨_, _, rfl, fits, fits'⟩
    | not form h =>
      rw [form]
      exact h
    | or form h h' =>
      rw [form]
      exact ⟨_, h, h'⟩
    | set form looks fits =>
      rw [form]
      exact ⟨looks, rfl, fits⟩
  · intro h
    cases hform : formOf (asText (upper value)) with
    | none =>
      rw [hform] at h
      obtain ⟨looks, rfl, fits⟩ := h
      exact .set hform looks fits
    | some form =>
      rw [hform] at h
      cases form with
      | bare crit =>
        rw [show rest = tokens from h]
        exact .bare hform
      | one kind crit =>
        obtain ⟨tok, rfl, fits⟩ := h
        exact .one hform fits
      | two crit =>
        obtain ⟨tok, tok', rfl, fits, fits'⟩ := h
        exact .two hform fits fits'
      | not => exact .not hform h
      | or =>
        obtain ⟨mid, h, h'⟩ := h
        exact .or hform h h'

theorem keyBreaks_atom_iff {value : Octets} {tokens : List Token} :
    KeyBreaks uni R B (.atom value :: tokens) ↔ match formOf (asText (upper value)) with
      | some (.one kind _) => ∃ tok rest, tokens = tok :: rest ∧ kind.Fault uni tok
      | some .not => B tokens
      | some .or => B tokens ∨ ∃ mid, R tokens mid ∧ B mid
      | none => looksLikeSeqset (upper value) = true ∧ Kind.set.Fault uni (.atom value)
      | _ => False := by
  constructor
  · intro h
    cases h with
    | one form fault =>
      rw [form]
      exact ⟨_, _, rfl, fault⟩
    | not form h =>
      rw [form]
      exact h
    | orLeft form h =>
      rw [form]
      exact .inl h
    | orRight form h h' =>
      rw [form]
      exact .inr ⟨_, h, h'⟩
    | set form looks fault =>
      rw [form]
      exact ⟨looks, fault⟩
  · intro h
    cases hform : formOf (asText (upper value)) with
    | none =>
      rw [hform] at h
      exact .set hform h.1 h.2
    | some form =>
      rw [hform] at h
      cases form with
      | bare crit => exact h.elim
      | one kind crit =>
        obtain ⟨tok, rest, rfl, fault⟩ := h
        exact .one hform fault
      | two crit => exact h.elim
      | not => exact .not hform h
      | or =>
        rcases h with h | ⟨mid, h, h'⟩
        · exact .orLeft hform h
        · exact .orRight hform h h'

/-- Of the tokens, `key` reads and breaks as `R` and `B` say of the keys nested in it. -/
structure Steps (uni : Unicode) (frames : Nat) (R : List Token → List Token → Prop)
    (B : List Token → Prop) (tokens : List Token) : Prop where
  reads : ∀ rest, (∃ crit, key uni (frames + 1) tokens = .ok (crit, rest)) ↔
    KeyReads uni R tokens rest
  breaks : Escapes (key uni (frames + 1) tokens) ↔ KeyBreaks uni R B tokens

/-- Where no key can be read, the error is declared. -/
theorem Steps.refused {tokens : List Token} (haccepts : ¬Accepts (key uni (frames + 1) tokens))
    (hescapes : ¬Escapes (key uni (frames + 1) tokens))
    (hread : ∀ rest, ¬KeyReads uni R tokens rest) (hbreak : ¬KeyBreaks uni R B tokens) :
    Steps uni frames R B tokens where
  reads rest := ⟨fun ⟨_, h⟩ => absurd ⟨_, h⟩ haccepts, fun h => absurd h (hread rest)⟩
  breaks := ⟨fun h => absurd h hescapes, fun h => absurd h hbreak⟩

theorem searchSyntax_not_escapes {α : Type} (text : String) :
    ¬Escapes (.error (.searchSyntax text) : Except ArgError α) :=
  fun h => absurd ((escapes_error_iff _).mp h) Bool.noConfusion

/-- A result with the tokens behind it. -/
theorem exists_ok_iff {α : Type} {r : Except ArgError α} {crit : α → Crit}
    {tokens rest : List Token} :
    (∃ c, (do let v ← r; return (crit v, tokens)) = (.ok (c, rest) : Except ArgError _)) ↔
      rest = tokens ∧ Accepts r := by
  constructor
  · rintro ⟨c, h⟩
    obtain ⟨v, hv, hrest⟩ := bind_eq_ok_iff.mp h
    cases hrest
    exact ⟨rfl, v, hv⟩
  · rintro ⟨rfl, v, rfl⟩
    exact ⟨_, rfl⟩

section Forms

variable {value : Octets} {tokens : List Token}

theorem steps_set (form : formOf (asText (upper value)) = none)
    (hvalue : (Token.atom value).Legible) : Steps uni frames R B (.atom value :: tokens) := by
  by_cases looks : looksLikeSeqset (upper value) = true
  · constructor
    · intro rest
      rw [key_set form looks, exists_ok_iff, keyReads_atom_iff, form]
      have hset := @Kind.read_accepts_iff uni .set "" _ hvalue
      exact ⟨fun h => ⟨looks, h.1, hset.mp h.2⟩, fun h => ⟨h.2.1, hset.mpr h.2.2⟩⟩
    · rw [key_set form looks, escapes_return_iff, keyBreaks_atom_iff, form]
      have hset := @Kind.read_escapes_iff uni .set "" _ hvalue
      exact ⟨fun h => ⟨looks, hset.mp h⟩, fun h => hset.mpr h.2⟩
  · have h : key uni (frames + 1) (.atom value :: tokens) =
        .error (.searchSyntax "unsupported search key") := by
      simp only [key, form, looks, Bool.false_eq_true, if_false]
      rfl
    apply Steps.refused
    · rw [h]
      exact not_accepts_error _
    · rw [h]
      exact searchSyntax_not_escapes _
    · intro rest hread
      rw [keyReads_atom_iff, form] at hread
      exact looks hread.1
    · intro hbreak
      rw [keyBreaks_atom_iff, form] at hbreak
      exact looks hbreak.1

theorem steps_bare {crit : Crit} (form : formOf (asText (upper value)) = some (.bare crit)) :
    Steps uni frames R B (.atom value :: tokens) := by
  have h : key uni (frames + 1) (.atom value :: tokens) = .ok (crit, tokens) := by
    simp only [key, form]
    rfl
  constructor
  · intro rest
    rw [h, keyReads_atom_iff, form]
    constructor
    · rintro ⟨c, hc⟩
      cases hc
      rfl
    · exact fun heq => ⟨crit, by rw [show rest = tokens from heq]⟩
  · rw [h, keyBreaks_atom_iff, form]
    exact ⟨fun h => absurd h (not_escapes_ok _), fun h => h.elim⟩

theorem steps_one {kind : Kind} {crit : kind.Value → Crit}
    (form : formOf (asText (upper value)) = some (.one kind crit))
    (hl : ∀ t ∈ tokens, t.Legible) : Steps uni frames R B (.atom value :: tokens) := by
  cases tokens with
  | nil =>
    have h : key uni (frames + 1) [.atom value] =
        .error (.searchSyntax "incomplete search key") := by
      simp only [key, form]
      rfl
    apply Steps.refused
    · rw [h]
      exact not_accepts_error _
    · rw [h]
      exact searchSyntax_not_escapes _
    · intro rest hread
      rw [keyReads_atom_iff, form] at hread
      obtain ⟨tok, heq, _⟩ := hread
      cases heq
    · intro hbreak
      rw [keyBreaks_atom_iff, form] at hbreak
      obtain ⟨tok, rest, heq, _⟩ := hbreak
      cases heq
  | cons tok tokens =>
    have htok := hl tok List.mem_cons_self
    constructor
    · intro rest
      rw [key_one form, exists_ok_iff, Kind.read_accepts_iff htok, keyReads_atom_iff, form]
      constructor
      · rintro ⟨rfl, fits⟩
        exact ⟨tok, rfl, fits⟩
      · rintro ⟨tok', heq, fits⟩
        cases heq
        exact ⟨rfl, fits⟩
    · rw [key_one form, escapes_return_iff, Kind.read_escapes_iff htok, keyBreaks_atom_iff, form]
      constructor
      · exact fun fault => ⟨tok, tokens, rfl, fault⟩
      · rintro ⟨tok', rest, heq, fault⟩
        cases heq
        exact fault

theorem steps_two {crit : String → String → Crit}
    (form : formOf (asText (upper value)) = some (.two crit)) :
    Steps uni frames R B (.atom value :: tokens) := by
  have hbreak : ¬KeyBreaks uni R B (.atom value :: tokens) := by
    rw [keyBreaks_atom_iff, form]
    exact fun h => h
  rcases tokens with _ | ⟨tok, _ | ⟨tok', tokens⟩⟩
  · have h : key uni (frames + 1) [.atom value] =
        .error (.searchSyntax "incomplete search key") := by
      simp only [key, form]
      rfl
    apply Steps.refused
    · rw [h]
      exact not_accepts_error _
    · rw [h]
      exact searchSyntax_not_escapes _
    · intro rest hread
      rw [keyReads_atom_iff, form] at hread
      obtain ⟨_, _, heq, _⟩ := hread
      cases heq
    · exact hbreak
  · have h : key uni (frames + 1) [.atom value, tok] =
        (do let _ ← textOf tok; throw (.searchSyntax "incomplete search key")) := by
      simp only [key, form]
      rfl
    apply Steps.refused
    · rw [h, accepts_bind_iff]
      rintro ⟨_, _, h⟩
      exact not_accepts_error _ h
    · rw [h, escapes_bind_iff]
      rintro (h | ⟨_, _, h⟩)
      · exact textOf_not_escapes tok h
      · exact searchSyntax_not_escapes _ h
    · intro rest hread
      rw [keyReads_atom_iff, form] at hread
      obtain ⟨_, _, heq, _⟩ := hread
      cases heq
    · exact hbreak
  · constructor
    · intro rest
      rw [key_two form, keyReads_atom_iff, form]
      constructor
      · rintro ⟨c, h⟩
        obtain ⟨field, hfield, hrest⟩ := bind_eq_ok_iff.mp h
        obtain ⟨text, htext, heq⟩ := bind_eq_ok_iff.mp hrest
        cases heq
        exact ⟨tok, tok', rfl, ⟨field, hfield⟩, accepts_return_iff.mp ⟨text, htext⟩⟩
      · rintro ⟨tok₁, tok₂, heq, ⟨field, hfield⟩, fits⟩
        cases heq
        obtain ⟨text, htext⟩ := (accepts_return_iff (f := uni.casefold)).mpr fits
        refine ⟨crit field text, ?_⟩
        rw [hfield, show needle uni tok' = .ok text from htext]
        rfl
    · rw [key_two form, escapes_bind_iff]
      constructor
      · rintro (h | ⟨field, _, h⟩)
        · exact absurd h (textOf_not_escapes tok)
        · have hneedle := escapes_return_iff.mp (escapes_return_iff.mp h)
          exact absurd hneedle (textOf_not_escapes tok')
      · exact fun h => absurd h hbreak

theorem steps_not (ih : Follows (key uni frames) R B)
    (form : formOf (asText (upper value)) = some .not) (hl : ∀ t ∈ tokens, t.Legible) :
    Steps uni frames R B (.atom value :: tokens) := by
  constructor
  · intro rest
    rw [key_not form, keyReads_atom_iff, form, ← ih.reads _ _ hl]
    constructor
    · rintro ⟨c, h⟩
      obtain ⟨⟨crit, rest'⟩, hkey, heq⟩ := bind_eq_ok_iff.mp h
      cases heq
      exact ⟨crit, hkey⟩
    · rintro ⟨crit, hkey⟩
      exact ⟨.not crit, by rw [hkey]; rfl⟩
  · rw [key_not form, escapes_return_iff, keyBreaks_atom_iff, form]
    exact ih.breaks _ hl

theorem steps_or (ih : Follows (key uni frames) R B)
    (form : formOf (asText (upper value)) = some .or) (hl : ∀ t ∈ tokens, t.Legible) :
    Steps uni frames R B (.atom value :: tokens) := by
  constructor
  · intro rest
    rw [key_or form, keyReads_atom_iff, form]
    constructor
    · rintro ⟨c, h⟩
      obtain ⟨⟨a, mid⟩, ha, hrest⟩ := bind_eq_ok_iff.mp h
      obtain ⟨⟨b, rest'⟩, hb, heq⟩ := bind_eq_ok_iff.mp hrest
      cases heq
      have hread := (ih.reads _ _ hl).mp ⟨a, ha⟩
      exact ⟨mid, hread, (ih.reads _ _ (ih.legible hl hread)).mp ⟨b, hb⟩⟩
    · rintro ⟨mid, hread, hread'⟩
      obtain ⟨a, ha⟩ := (ih.reads _ _ hl).mpr hread
      obtain ⟨b, hb⟩ := (ih.reads _ _ (ih.legible hl hread)).mpr hread'
      refine ⟨.or a b, ?_⟩
      rw [ha]
      show (do let b ← key uni frames mid; return (Crit.or a b.1, b.2)) = _
      rw [hb]
      rfl
  · rw [key_or form, escapes_bind_iff, keyBreaks_atom_iff, form]
    constructor
    · rintro (h | ⟨⟨a, mid⟩, ha, h⟩)
      · exact .inl ((ih.breaks _ hl).mp h)
      · have hread := (ih.reads _ _ hl).mp ⟨a, ha⟩
        exact .inr ⟨mid, hread, (ih.breaks _ (ih.legible hl hread)).mp (escapes_return_iff.mp h)⟩
    · rintro (h | ⟨mid, hread, h⟩)
      · exact .inl ((ih.breaks _ hl).mpr h)
      · obtain ⟨a, ha⟩ := (ih.reads _ _ hl).mpr hread
        exact .inr ⟨(a, mid), ha,
          escapes_return_iff.mpr ((ih.breaks _ (ih.legible hl hread)).mpr h)⟩

theorem steps_group (ih : Follows (key uni frames) R B) {items : List Token}
    (hl : ∀ t ∈ items, t.Legible) : Steps uni frames R B (.list items :: tokens) := by
  have haccepts := ih.keys_accepts_iff (Nat.le_refl _) hl
  have hescapes := ih.keys_escapes_iff (Nat.le_refl _) hl
  constructor
  · intro rest
    rw [key_group]
    constructor
    · rintro ⟨c, h⟩
      obtain ⟨crits, hcrits, hrest⟩ := bind_eq_ok_iff.mp h
      have hempty := keysBy_isEmpty hcrits
      cases items with
      | nil =>
        rw [hempty] at hrest
        cases hrest
      | cons tok items =>
        rw [hempty] at hrest
        cases hrest
        exact .group (haccepts.mp ⟨crits, hcrits⟩) (List.cons_ne_nil _ _)
    · intro hread
      cases hread with
      | group hkeys hne =>
        obtain ⟨crits, hcrits⟩ := haccepts.mpr hkeys
        have hempty := keysBy_isEmpty hcrits
        refine ⟨.and crits, ?_⟩
        rw [hcrits]
        show (if crits.isEmpty then _ else _) = _
        rw [hempty, if_neg (by simpa using hne)]
        rfl
  · rw [key_group, escapes_bind_iff, hescapes]
    constructor
    · rintro (h | ⟨crits, _, h⟩)
      · exact .group h
      · by_cases hempty : crits.isEmpty = true
        · rw [if_pos hempty] at h
          exact absurd h (searchSyntax_not_escapes _)
        · rw [if_neg hempty] at h
          exact absurd h (not_escapes_ok _)
    · intro h
      cases h with
      | group h => exact .inl h

end Forms

theorem steps_nil : Steps uni frames R B [] := by
  apply Steps.refused
  · exact not_accepts_error _
  · exact searchSyntax_not_escapes _
  · intro rest h
    cases h
  · intro h
    cases h

theorem key_steps (ih : Follows (key uni frames) R B) {tokens : List Token}
    (hl : ∀ t ∈ tokens, t.Legible) : Steps uni frames R B tokens := by
  cases tokens with
  | nil => exact steps_nil
  | cons tok tokens =>
    have htok := hl tok List.mem_cons_self
    have htokens : ∀ t ∈ tokens, t.Legible := fun t ht => hl t (List.mem_cons_of_mem _ ht)
    cases tok with
    | atom value =>
      cases hform : formOf (asText (upper value)) with
      | none => exact steps_set hform htok
      | some form =>
        cases form with
        | bare crit => exact steps_bare hform
        | one kind crit => exact steps_one hform htokens
        | two crit => exact steps_two hform
        | not => exact steps_not ih hform htokens
        | or => exact steps_or ih hform htokens
    | list items =>
      cases htok with
      | list hitems => exact steps_group ih hitems
    | _ =>
      apply Steps.refused
      · exact not_accepts_error _
      · exact searchSyntax_not_escapes _
      · intro rest h
        cases h
      · intro h
        cases h

/-- `_Parser.key` reads the keys of the grammar, and breaks where a key of it breaks. -/
theorem key_follows (frames : Nat) :
    Follows (key uni frames) (Reads uni frames) (Breaks uni frames) := by
  induction frames with
  | zero =>
    refine ⟨fun tokens rest _ => ?_, fun tokens _ => ?_, fun _ _ h => h.elim⟩
    · constructor
      · rintro ⟨crit, h⟩
        cases h
      · exact fun h => h.elim
    · exact ⟨fun _ => trivial, fun _ => ⟨.recursion, rfl, rfl⟩⟩
  | succ frames ih =>
    exact ⟨fun tokens rest hl => (key_steps ih hl).reads rest,
      fun tokens hl => (key_steps ih hl).breaks, fun _ _ h => reads_taken ih.taken h⟩

theorem withoutCharset_not_escapes (tokens : List Token) : ¬Escapes (withoutCharset uni tokens) := by
  intro h
  unfold withoutCharset at h
  split at h
  · split at h
    · split at h
      · exact searchSyntax_not_escapes _ h
      · rename_i tok rest
        rw [escapes_bind_iff] at h
        rcases h with h | ⟨text, _, h⟩
        · exact textOf_not_escapes tok h
        · split at h
          · exact absurd ((escapes_error_iff _).mp h) Bool.noConfusion
          · exact not_escapes_ok _ h
    · exact not_escapes_ok _ h
  · exact not_escapes_ok _ h

/-- What is left behind the charset was there before. -/
theorem withoutCharset_subset {tokens items : List Token}
    (h : withoutCharset uni tokens = .ok items) : items ⊆ tokens := by
  unfold withoutCharset at h
  split at h
  · split at h
    · split at h
      · cases h
      · rename_i tok rest
        obtain ⟨text, _, hrest⟩ := bind_eq_ok_iff.mp h
        split at hrest
        · cases hrest
        · cases hrest
          exact List.subset_cons_of_subset _ (List.subset_cons_self _ _)
    · cases h
      exact List.Subset.refl _
  · cases h
    exact List.Subset.refl _

theorem parseSearch_escapes_iff {tokens : List Token} (hl : ∀ t ∈ tokens, t.Legible) :
    Escapes (parseSearch uni frames tokens) ↔ SearchFault uni frames tokens := by
  unfold parseSearch SearchFault
  rw [escapes_bind_iff]
  have hfollows := @key_follows uni frames
  constructor
  · rintro (h | ⟨items, hitems, h⟩)
    · exact absurd h (withoutCharset_not_escapes tokens)
    · have hlegible : ∀ t ∈ items, t.Legible := fun t ht => hl t (withoutCharset_subset hitems ht)
      by_cases hempty : items.isEmpty = true
      · rw [if_pos hempty] at h
        exact absurd h (searchSyntax_not_escapes _)
      · rw [if_neg hempty] at h
        exact ⟨items, hitems,
          (hfollows.keys_escapes_iff (Nat.le_refl _) hlegible).mp (escapes_return_iff.mp h)⟩
  · rintro ⟨items, hitems, hbreak⟩
    have hlegible : ∀ t ∈ items, t.Legible := fun t ht => hl t (withoutCharset_subset hitems ht)
    have hne : ¬items.isEmpty = true := by
      intro hempty
      rw [List.isEmpty_iff.mp hempty] at hbreak
      cases hbreak with
      | here hne _ => exact hne rfl
      | later hread _ => exact absurd (hfollows.shorter hread) (Nat.not_lt_zero _)
    refine .inr ⟨items, hitems, ?_⟩
    rw [if_neg hne]
    exact escapes_return_iff.mpr ((hfollows.keys_escapes_iff (Nat.le_refl _) hlegible).mpr hbreak)

end

/-! ## The arguments of a command -/

/-- A value, or an error that is declared. -/
def Settles {α : Type} (r : Except ArgError α) : Prop :=
  (∃ a, r = .ok a) ∨ ∃ e, r = .error e ∧ e.declared = true

theorem settles_iff {α : Type} {r : Except ArgError α} : Settles r ↔ ¬Escapes r := by
  cases r with
  | ok a => exact ⟨fun _ => not_escapes_ok a, fun _ => .inl ⟨a, rfl⟩⟩
  | error e =>
    rw [escapes_error_iff, Bool.not_eq_false]
    constructor
    · rintro (⟨a, h⟩ | ⟨e', h, hdeclared⟩)
      · cases h
      · cases h
        exact hdeclared
    · exact fun h => .inr ⟨e, rfl, h⟩

/-- The readers of the arguments raise nothing but what they declare. -/
structure Guarded (frames : Nat) (args : List Token) : Prop where
  sets : ∀ value, .atom value ∈ args → Settles (parseSequenceSet uni (asText value))
  attributes : ∀ token ∈ args, Settles (parseFetchAttributes token)
  search : Settles (parseSearch uni frames args)

/-- No reader comes to an overlong number, nor to search keys that nest deeper than the
stack. -/
structure Harmless (frames : Nat) (args : List Token) : Prop where
  sets : ∀ value, .atom value ∈ args → ¬SetFault uni (asText value).toList
  attributes : ∀ token ∈ args, ¬FetchFault token
  search : ¬SearchFault uni frames args

/-- Whatever a client sends, the readers of the arguments of its commands raise nothing
but what they declare if and only if the arguments are harmless. -/
theorem guarded_iff_harmless {evs : List Event} {mode : Mode} {buf : Octets}
    (h : Reached {} evs mode buf) {tag name : Octets} {args : List Token}
    (hcommand : .command tag name args ∈ evs) (frames : Nat) :
    Guarded uni frames args ↔ Harmless uni frames args := by
  obtain ⟨-, -, hlegible⟩ := h.legible _ hcommand
  have hset : ∀ value, .atom value ∈ args →
      (Settles (parseSequenceSet uni (asText value)) ↔ ¬SetFault uni (asText value).toList) := by
    intro value hvalue
    cases hlegible _ hvalue with
    | atom hprintable => rw [settles_iff, parseSequenceSet_atom_escapes_iff hprintable]
  have hattributes : ∀ token, Settles (parseFetchAttributes token) ↔ ¬FetchFault token :=
    fun token => by rw [settles_iff, parseFetchAttributes_escapes_iff]
  have hsearch : Settles (parseSearch uni frames args) ↔ ¬SearchFault uni frames args := by
    rw [settles_iff, parseSearch_escapes_iff hlegible]
  constructor
  · intro h
    exact ⟨fun value hvalue => (hset value hvalue).mp (h.sets value hvalue),
      fun token htoken => (hattributes token).mp (h.attributes token htoken),
      hsearch.mp h.search⟩
  · intro h
    exact ⟨fun value hvalue => (hset value hvalue).mpr (h.sets value hvalue),
      fun token htoken => (hattributes token).mpr (h.attributes token htoken),
      hsearch.mpr h.search⟩

/-- The arguments of `FETCH 9…9 FLAGS`. -/
def fetchNines (n : Nat) : List Token :=
  [.atom (List.replicate n 0x39), .atom (Parser.ascii "FLAGS")]

theorem fetchNines_reached : ∃ evs mode buf, Reached {} evs mode buf ∧
    .command (Parser.ascii "A") (Parser.ascii "FETCH") (fetchNines 4301) ∈ evs := by
  have hdigits : AtomText (List.replicate 4301 0x39) := by
    refine atomText_of_all (List.all_eq_true.mpr fun ch hch => ?_)
    rw [List.eq_of_mem_replicate hch]
    decide
  have htag : AtomText (Parser.ascii "A") := atomText_of_all (by decide)
  have hname : AtomText (Parser.ascii "FETCH") := atomText_of_all (by decide)
  refine reached_command htag (by decide) (tagged_of_all (by decide)) hname (by decide)
    (fun t ht => ?_) ?_
  · rcases List.mem_cons.mp ht with rfl | ht
    · exact .atom hdigits (by decide)
    · rw [List.mem_singleton.mp ht]
      exact .atom (atomText_of_all (by decide)) (by decide)
  · have hsigns : commandSigns (Parser.ascii "A") (Parser.ascii "FETCH") (fetchNines 4301) =
        Parser.text (Parser.ascii "A" ++ Octet.space :: (Parser.ascii "FETCH" ++ Octet.space ::
          (List.replicate 4301 0x39 ++ Octet.space :: Parser.ascii "FLAGS"))) := by
      simp only [commandSigns, fetchNines, Token.signs, Parser.text, List.flatMap_cons,
        List.flatMap_nil, List.append_nil, List.map_append, List.map_cons, List.cons_append]
    have hwords : (Parser.ascii "A").length = 1 ∧ (Parser.ascii "FETCH").length = 5 ∧
        (Parser.ascii "FLAGS").length = 5 := by decide
    rw [hsigns]
    apply Fits.line_only
    · simp only [List.length_append, List.length_cons, List.length_replicate, hwords]
      decide
    · simp only [List.length_append, List.length_cons, List.length_replicate, hwords]
      decide

theorem guarded_iff_harmless_nines : ∃ evs mode buf, Reached {} evs mode buf ∧
    (Guarded Unicode.ofAscii 900 (fetchNines 4301) ↔
      Harmless Unicode.ofAscii 900 (fetchNines 4301)) := by
  obtain ⟨evs, mode, buf, hreached, hcommand⟩ := fetchNines_reached
  exact ⟨evs, mode, buf, hreached, guarded_iff_harmless _ hreached hcommand 900⟩

/-- A number that is too long is a fault of the set that it is. -/
theorem setFault_of_overlong {text : List Char} (h : Overlong uni text)
    (hcomma : ',' ∉ text) (hcolon : ':' ∉ text) : SetFault uni text := by
  have hsplit : text.splitOn ',' = [text] := by
    apply List.splitOnP_eq_singleton
    intro ch hch
    rw [beq_eq_false_iff_ne]
    exact fun heq => hcomma (heq ▸ hch)
  have hplain : ∀ ch ∈ text, decide (ch ≠ ':') = true := by
    intro ch hch
    rw [decide_eq_true_eq]
    exact fun heq => hcolon (heq ▸ hch)
  have hpart : partition text = (text, none) := by
    rw [partition, List.takeWhile_eq_self_iff.mpr hplain, List.dropWhile_eq_nil_iff.mpr hplain]
  have hne : text ≠ [] := by
    rintro rfl
    exact Nat.not_lt_zero _ h.2
  rw [SetFault, hsplit]
  apply FirstOf.here
  rw [PartFault, ends, hpart]
  exact ⟨hne, (by simp), .inl h⟩

/-- A sequence number of 4301 digits is an internal error. -/
theorem sequence_number_escapes : ∃ evs mode buf, Reached {} evs mode buf ∧
    .command (Parser.ascii "A") (Parser.ascii "FETCH") (fetchNines 4301) ∈ evs ∧
    ¬Guarded Unicode.ofAscii 900 (fetchNines 4301) := by
  obtain ⟨evs, mode, buf, hreached, hcommand⟩ := fetchNines_reached
  have hprintable : ∀ ch ∈ List.replicate 4301 (0x39 : UInt8), isPrintable ch = true := by
    intro ch hch
    rw [List.eq_of_mem_replicate hch]
    decide
  have hnines : (asText (List.replicate 4301 0x39)).toList = List.replicate 4301 '9' := by
    rw [asText, String.toList_ofList, List.map_replicate]
    rfl
  have hoverlong : Overlong Unicode.ofAscii (List.replicate 4301 '9') := by
    constructor
    · rw [Unicode.isDigits, Bool.and_eq_true, List.all_replicate]
      exact ⟨rfl, rfl⟩
    · rw [List.length_replicate]
      decide
  refine ⟨evs, mode, buf, hreached, hcommand, fun h => ?_⟩
  have hsettles := h.sets _ List.mem_cons_self
  rw [settles_iff, parseSequenceSet_atom_escapes_iff hprintable, hnines] at hsettles
  exact hsettles (setFault_of_overlong _ hoverlong
    (fun hmem => by cases List.eq_of_mem_replicate hmem)
    fun hmem => by cases List.eq_of_mem_replicate hmem)

end Imap
end ImapGateway
