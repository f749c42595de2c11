/-
What the commands that are read can put on the line.

A command repeats its arguments in one place only, the labels of a FETCH, and these are made
of octets of printable atoms.  Every other word of a command that is written is one of the
code's own, and a command that is refused is refused with NO or BAD.
-/
import ImapGateway.Imap.Reading
import ImapGateway.Imap.Framing
import ImapGateway.Imap.Labels
import ImapGateway.Imap.Keys

namespace ImapGateway
namespace Imap

open ImapGateway.Parser Async
open Mailbox hiding upper

/-! ## Texts that can be written -/

/-- The line does not begin with a number. -/
def Unnumbered (line : String) : Prop := (utf8 (clean line)).head?.any isDigit = false

instance (line : String) : Decidable (Unnumbered line) :=
  inferInstanceAs (Decidable (_ = false))

/-- If the exception is a refusal it says NO or BAD. -/
def Spoken (e : Exc) : Prop :=
  ∀ status text code, e = .commandFailed status text code → status = "NO" ∨ status = "BAD"

theorem spoken_bad (text : String) : Spoken (bad text) := by
  intro status text' code he
  cases he
  exact .inr rfl

theorem spoken_no (text : String) : Spoken (no text) := by
  intro status text' code he
  cases he
  exact .inl rfl

theorem spoken_noWith (text code : String) : Spoken (noWith text code) := by
  intro status text' code' he
  cases he
  exact .inl rfl

/-- What the handler of a command writes out of the command can be read back. -/
def Verb.Plain : Verb → Prop
  | .fetch _ _ attrs => ∀ a ∈ attrs, Clear a.label
  | .status _ wanted => ∀ key ∈ wanted, Clear key
  | .plain _ _ lines => ∀ line ∈ lines, Unnumbered line
  | .refused kind _ _ => kind = "NO" ∨ kind = "BAD"
  | _ => True

/-! ## Labels -/

/-- Octets an atom may hold. -/
abbrev Printed (octets : Octets) : Prop := ∀ ch ∈ octets, isPrintable ch = true

theorem clear_asText {octets : Octets} (h : Printed octets) : Clear (asText octets) := by
  intro hmem
  rw [asText, String.toList_ofList] at hmem
  obtain ⟨ch, hch, heq⟩ := List.mem_map.mp hmem
  have hprintable := h ch hch
  simp only [isPrintable, Bool.and_eq_true, decide_eq_true_eq] at hprintable
  have hlow : 32 ≤ ch.toNat := UInt8.le_iff_toNat_le.mp hprintable.1
  have hnat := congrArg Char.toNat heq
  rw [toNat_ofNat_octet] at hnat
  have hnewline : '\n'.toNat = 10 := rfl
  omega

theorem replacePair_subset (a b : UInt8) (octets : Octets) :
    ∀ ch ∈ replacePair a b b octets, ch ∈ octets := by
  fun_induction replacePair a b b octets with
  | case1 rest x y h ih =>
    intro ch hch
    rcases List.mem_cons.mp hch with rfl | hch
    · rw [h.2]
      exact List.mem_cons_of_mem _ List.mem_cons_self
    · exact List.mem_cons_of_mem _ (List.mem_cons_of_mem _ (ih ch hch))
  | case2 rest x y h ih =>
    intro ch hch
    rcases List.mem_cons.mp hch with rfl | hch
    · exact List.mem_cons_self
    · exact List.mem_cons_of_mem _ (ih ch hch)
  | case3 octets _ => exact fun ch hch => hch

theorem quotedName_subset {octets name rest : Octets} (h : quotedName octets = some (name, rest)) :
    (∀ ch ∈ name, ch ∈ octets) ∧ ∀ ch ∈ rest, ch ∈ octets := by
  fun_induction quotedName octets generalizing name rest with
  | case2 tail =>
    cases h
    exact ⟨fun ch hch => absurd hch List.not_mem_nil, fun ch hch => List.mem_cons_of_mem _ hch⟩
  | case4 escaped tail _ ih =>
    obtain ⟨r, hr, heq⟩ := Option.map_eq_some_iff.mp h
    cases heq
    obtain ⟨hname, hrest⟩ := ih hr
    refine ⟨fun ch hch => ?_, fun ch hch => ?_⟩
    · rcases List.mem_cons.mp hch with rfl | hch
      · exact List.mem_cons_self
      · rcases List.mem_cons.mp hch with rfl | hch
        · exact List.mem_cons_of_mem _ List.mem_cons_self
        · exact List.mem_cons_of_mem _ (List.mem_cons_of_mem _ (hname ch hch))
    · exact List.mem_cons_of_mem _ (List.mem_cons_of_mem _ (hrest ch hch))
  | case5 ch tail _ _ ih =>
    obtain ⟨r, hr, heq⟩ := Option.map_eq_some_iff.mp h
    cases heq
    obtain ⟨hname, hrest⟩ := ih hr
    refine ⟨fun c hc => ?_, fun c hc => List.mem_cons_of_mem _ (hrest c hc)⟩
    rcases List.mem_cons.mp hc with rfl | hc
    · exact List.mem_cons_self
    · exact List.mem_cons_of_mem _ (hname c hc)
  | _ => cases h

theorem unescape_subset (name : Octets) : ∀ ch ∈ unescape name, ch ∈ name := fun ch hch =>
  replacePair_subset _ _ _ ch (replacePair_subset _ _ _ ch hch)

/-- A field name is made of octets of the section. -/
theorem splitFieldNames_subset (octets : Octets) :
    ∀ name ∈ splitFieldNames octets, ∀ ch ∈ name, ch ∈ octets := by
  have hword : ∀ (ch : UInt8) (rest : Octets),
      ∀ c ∈ (ch :: rest).takeWhile (!isSpace ·), c ∈ ch :: rest := fun ch rest c hc =>
    (List.takeWhile_sublist _).subset hc
  have hdrop : ∀ (ch : UInt8) (rest : Octets),
      ∀ c ∈ rest.dropWhile (!isSpace ·), c ∈ ch :: rest := fun ch rest c hc =>
    List.mem_cons_of_mem _ ((List.dropWhile_sublist _).subset hc)
  fun_induction splitFieldNames octets with
  | case1 => exact fun name hname => absurd hname List.not_mem_nil
  | case2 ch rest _ ih =>
    exact fun name hname c hc => List.mem_cons_of_mem _ (ih name hname c hc)
  | case3 rest name' rest' hq _ _ ih =>
    obtain ⟨hname', hrest'⟩ := quotedName_subset hq
    intro name hname c hc
    rcases List.mem_cons.mp hname with rfl | hname
    · exact List.mem_cons_of_mem _ (hname' c (unescape_subset _ c hc))
    · exact List.mem_cons_of_mem _ (hrest' c (ih name hname c hc))
  | case4 rest _ word hq ih =>
    intro name hname c hc
    rcases List.mem_cons.mp hname with rfl | hname
    · exact hword _ rest c hc
    · exact hdrop _ rest c (ih name hname c hc)
  | case5 ch rest _ word hq ih =>
    intro name hname c hc
    rcases List.mem_cons.mp hname with rfl | hname
    · exact hword ch rest c hc
    · exact hdrop ch rest c (ih name hname c hc)

theorem matchFields_subset {octets names : Octets} {invert : Bool}
    (h : matchFields octets = some (invert, names)) : ∀ ch ∈ names, ch ∈ octets := by
  have hcut : ∀ n, ∀ ch rest, (octets.drop n).dropWhile isSpace = ch :: rest →
      ∀ c ∈ rest.dropLast, c ∈ octets := by
    intro n ch rest heq c hc
    have hrest : c ∈ (octets.drop n).dropWhile isSpace := by
      rw [heq]
      exact List.mem_cons_of_mem _ ((List.dropLast_sublist _).subset hc)
    exact List.mem_of_mem_drop ((List.dropWhile_sublist _).subset hrest)
  unfold matchFields at h
  dsimp only at h
  split at h
  · cases h
  · rename_i invert' rest hnamed
    split at h
    · cases h
    · rename_i ch tail hdrop
      split at h
      · cases h
        split at hnamed
        · cases hnamed
          exact hcut _ ch tail hdrop
        · split at hnamed
          · cases hnamed
            exact hcut _ ch tail hdrop
          · cases hnamed
      · cases h

theorem parseSection_printed {octets : Octets} {r : Section × List Octets} (ho : Printed octets)
    (h : parseSection octets = .ok r) : ∀ name ∈ r.2, Printed name := by
  unfold parseSection at h
  split at h
  · cases h
    exact fun name hname => absurd hname List.not_mem_nil
  split at h
  · cases h
    exact fun name hname => absurd hname List.not_mem_nil
  split at h
  · cases h
    exact fun name hname => absurd hname List.not_mem_nil
  split at h
  · rename_i invert names hmatch
    split at h
    · cases h
    · cases h
      intro name hname
      obtain ⟨field, hfield, rfl⟩ := List.mem_map.mp hname
      apply upper_printable
      intro ch hch
      exact ho ch (matchFields_subset hmatch ch (splitFieldNames_subset names field hfield ch hch))
  · split at h <;> cases h

theorem clear_number (n : Nat) : Clear (toString n) := by
  intro hmem
  rw [Nat.toString_eq_repr, Nat.toList_repr] at hmem
  have hdigit := Nat.isDigit_of_mem_toDigits (b := 10) (by omega) (by omega) hmem
  exact absurd hdigit (by decide)

/-- The label of a section whose field names are printable. -/
theorem clear_bodyLabel (part : Section) {fields : List Octets} (range : Option (Nat × Nat))
    (h : ∀ name ∈ fields, Printed name) : Clear (bodyLabel part fields range) := by
  have hspace : Clear " " := by decide
  have hopen : Clear " (" := by decide
  have hclose : Clear ")" := by decide
  have hbody : Clear "BODY[" := by decide
  have hend : Clear "]" := by decide
  have hless : Clear "<" := by decide
  have hgreater : Clear ">" := by decide
  have hempty : Clear "" := by decide
  have hname : Clear part.name := by cases part <;> decide
  have hfields : Clear (" ".intercalate (fields.map asText)) := by
    apply hspace.intercalate
    intro text htext
    obtain ⟨name, hmem, rfl⟩ := List.mem_map.mp htext
    exact clear_asText (h name hmem)
  have hlist : Clear (part.name ++ " (" ++ " ".intercalate (fields.map asText) ++ ")") :=
    ((hname.append hopen).append hfields).append hclose
  unfold bodyLabel
  dsimp only
  apply Clear.append
  · apply Clear.append _ hend
    apply hbody.append
    cases part with
    | headerFields => exact hlist
    | headerFieldsNot => exact hlist
    | _ => exact hname
  · cases range with
    | none => exact hempty
    | some r => exact (hless.append (clear_number r.1)).append hgreater

theorem strip_subset (octets : Octets) : ∀ ch ∈ strip octets, ch ∈ octets := by
  intro ch hch
  rw [strip, List.mem_reverse] at hch
  have hmem := (List.dropWhile_sublist _).subset hch
  rw [List.mem_reverse] at hmem
  exact (List.dropWhile_sublist _).subset hmem

theorem matchBody_subset {name text : Octets} {peek : Bool} {range : Option (Octets × Octets)}
    (h : matchBody name = some (peek, text, range)) : ∀ ch ∈ text, ch ∈ name := by
  have hcut : ∀ n, ∀ ch before, (name.drop n).reverse.dropWhile (· ≠ Octet.rbracket) = ch :: before →
      ∀ c ∈ before.reverse, c ∈ name := by
    intro n ch before heq c hc
    have hmem : c ∈ (name.drop n).reverse.dropWhile (· ≠ Octet.rbracket) := by
      rw [heq]
      exact List.mem_cons_of_mem _ (List.mem_reverse.mp hc)
    exact List.mem_of_mem_drop (List.mem_reverse.mp ((List.dropWhile_sublist _).subset hmem))
  unfold matchBody at h
  dsimp only at h
  split at h
  · cases h
  · rename_i peek' rest hopened
    split at h
    · cases h
    · rename_i ch before hdrop
      obtain ⟨r, _, heq⟩ := Option.map_eq_some_iff.mp h
      cases heq
      split at hopened
      · cases hopened
        exact hcut _ ch before hdrop
      · split at hopened
        · cases hopened
          exact hcut _ ch before hdrop
        · cases hopened

theorem bodyAttr_printed {peek : Bool} {text : Octets} {range : Option (Octets × Octets)}
    {a : FetchAttr} (htext : Printed text) (h : bodyAttr peek text range = .ok a) :
    ∀ name ∈ a.fields, Printed name := by
  have hstrip : Printed (strip text) := fun ch hch => htext ch (strip_subset text ch hch)
  unfold bodyAttr at h
  cases hrange : rangeOf range with
  | error e => simp [hrange, bind, Except.bind] at h
  | ok range =>
    cases hpart : parseSection (strip text) with
    | error e => simp [hrange, hpart, bind, Except.bind] at h
    | ok r =>
      have ha := h.symm
      simp only [hrange, hpart, bind, Except.bind, pure, Except.pure, Except.ok.injEq] at ha
      rw [ha]
      exact parseSection_printed hstrip hpart

theorem parseAttr_clear {name : Octets} {a : FetchAttr} (hname : Printed name)
    (h : parseAttr name = .ok a) : Clear a.label := by
  have hplain : ∀ b ∈ plainAttrs, Clear b.label := by decide
  rcases parseAttr_body h with hmem | ⟨peek, text, range, hmatch, hbody⟩
  · exact hplain a hmem
  · have htext : Printed text := fun ch hch => hname ch (matchBody_subset hmatch ch hch)
    rw [(bodyAttr_isBody hbody).label]
    exact clear_bodyLabel _ _ (bodyAttr_printed htext hbody)

/-! ## FETCH -/

/-- The atoms of a legible token are printable. -/
theorem fetchNames_printed {token : Token} {names : List Octets} (ht : token.Legible)
    (h : fetchNames token = .ok names) : ∀ name ∈ names, Printed name := by
  cases ht with
  | atom hvalue =>
    rw [fetchNames] at h
    split at h
    · cases h
      have hfast : ([ascii "FLAGS", ascii "INTERNALDATE", ascii "RFC822.SIZE"].all
          fun name => name.all isPrintable) = true := by
        decide
      intro name hname ch hch
      exact List.all_eq_true.mp (List.all_eq_true.mp hfast name hname) ch hch
    · split at h
      · cases h
      · cases h
        intro name hname
        rw [List.mem_singleton.mp hname]
        exact hvalue
  | quoted value => cases h
  | literal value => cases h
  | list hitems =>
    obtain ⟨read, hread, hrest⟩ := bind_eq_ok_iff.mp h
    have heq : read = names := by
      split at hrest
      · cases hrest
      · exact Except.ok.inj hrest
    intro name hname
    obtain ⟨item, hitem, hatom⟩ := mapM_ok_right hread (heq ▸ hname)
    cases hitems item hitem with
    | atom hvalue =>
      cases hatom
      exact hvalue
    | _ => cases hatom

theorem parseFetchAttributes_clear {token : Token} {attrs : List FetchAttr} (ht : token.Legible)
    (h : parseFetchAttributes token = .ok attrs) : ∀ a ∈ attrs, Clear a.label := by
  obtain ⟨reqs, hreqs, rfl⟩ := parseFetchAttributes_requests h
  obtain ⟨names, hnames, hread⟩ := bind_eq_ok_iff.mp hreqs
  intro a ha
  obtain ⟨q, hq, halike⟩ := (merged_foldl reqs).asked a ha
  obtain ⟨name, hname, hattr⟩ := mapM_ok_right hread hq
  rw [halike.label]
  exact parseAttr_clear (fetchNames_printed ht hnames name hname) hattr

/-! ## Reading -/

/-- What is read meets `Q`, and what is refused is refused with NO or BAD. -/
structure Worded {α : Type} (Q : α → Prop) (r : Except Exc α) : Prop where
  read : ∀ a, r = .ok a → Q a
  refused : ∀ e, r = .error e → Spoken e

/-- Nothing is said of what is read. -/
abbrev Refuses {α : Type} (r : Except Exc α) : Prop := Worded (fun _ => True) r

namespace Worded

variable {α β : Type} {Q : α → Prop} {R : β → Prop}

theorem ok {a : α} (h : Q a) : Worded Q (.ok a : Except Exc α) where
  read b hb := Except.ok.inj hb ▸ h
  refused _ he := by cases he

theorem error {e : Exc} (h : Spoken e) : Worded Q (.error e : Except Exc α) where
  read _ hb := by cases hb
  refused _ he := Except.error.inj he ▸ h

theorem bind {r : Except Exc α} {f : α → Except Exc β} (h : Worded Q r)
    (hf : ∀ a, Q a → Worded R (f a)) : Worded R (r >>= f) := by
  cases r with
  | ok a => exact hf a (h.read a rfl)
  | error e => exact error (h.refused e rfl)

theorem mapM {f : α → Except Exc β} (hf : ∀ a, Worded R (f a)) (xs : List α) :
    Worded (fun ys => ∀ y ∈ ys, R y) (xs.mapM f) := by
  induction xs with
  | nil => exact ok fun y hy => absurd hy List.not_mem_nil
  | cons x xs ih =>
    rw [List.mapM_cons]
    apply (hf x).bind
    intro y hy
    apply ih.bind
    intro ys hys
    apply ok
    intro z hz
    rcases List.mem_cons.mp hz with rfl | hz
    · exact hy
    · exact hys z hz

theorem refuses {r : Except Exc α} (h : Worded Q r) : Refuses r :=
  ⟨fun _ _ => trivial, h.refused⟩

end Worded

theorem spoken_internal : Spoken .internal := by
  intro status text code he
  cases he

theorem argued_worded {α : Type} (r : Except ArgError α) :
    Worded (fun a => r = .ok a) (argued r) := by
  cases r with
  | ok a => exact .ok rfl
  | error e =>
    cases e with
    | badCharset name => exact .error (spoken_noWith _ _)
    | value => exact .error spoken_internal
    | recursion => exact .error spoken_internal
    | _ => exact .error (spoken_bad _)

theorem argText_refuses (name : String) (args : List Token) (index : Nat) (what : String) :
    Refuses (argText name args index what) := by
  unfold argText
  split
  · exact .error (spoken_bad _)
  · exact .error (spoken_bad _)
  · split
    · exact .ok trivial
    · exact .error (spoken_bad _)

variable {env : Runtime} {l : Session} {args : List Token}

theorem inState_refuses (states : List State) : Refuses (inState l states) := by
  unfold inState
  split
  · exact .ok trivial
  · exact .error (spoken_bad _)

theorem hasView_refuses : Refuses (hasView l) := by
  unfold hasView
  split
  · exact .ok trivial
  · exact .error (spoken_bad _)

theorem listArguments_refuses (name : String) : Refuses (listArguments l name args) := by
  unfold listArguments
  apply (inState_refuses loggedIn).bind
  intro _ _
  split
  · exact .error (spoken_bad _)
  · apply (argText_refuses ..).bind
    intro _ _
    exact (argText_refuses ..).bind fun _ _ => .ok trivial

/-- A line begins as its first word does. -/
theorem Unnumbered.append {a b : String} (h : Unnumbered a) (hne : utf8 (clean a) ≠ []) :
    Unnumbered (a ++ b) := by
  rw [Unnumbered, clean_append, utf8_append, List.head?_append_of_ne_nil _ hne]
  exact h

theorem unnumbered_listed {verb : String} (h : Unnumbered verb) (hne : utf8 (clean verb) ≠ [])
    (mark name : String) : Unnumbered (listed verb mark name) := by
  rw [listed, String.append_assoc, String.append_assoc, String.append_assoc]
  exact h.append hne

theorem readList_worded : Worded Verb.Plain (readList env l args) := by
  have hname : Unnumbered "LIST" := by decide
  have hne : utf8 (clean "LIST") ≠ [] := by decide
  unfold readList
  apply (listArguments_refuses "LIST").bind
  rintro ⟨reference, pattern⟩ _
  dsimp only
  split
  · apply Worded.ok
    intro line hline
    rw [List.mem_singleton.mp hline]
    exact unnumbered_listed hname hne _ _
  · split
    · exact .error (spoken_bad _)
    · apply Worded.ok
      intro line hline
      obtain ⟨name, _, rfl⟩ := List.mem_map.mp hline
      exact unnumbered_listed hname hne _ _

theorem readLsub_worded : Worded Verb.Plain (readLsub env l args) := by
  have hname : Unnumbered "LSUB" := by decide
  have hne : utf8 (clean "LSUB") ≠ [] := by decide
  unfold readLsub
  apply (listArguments_refuses "LSUB").bind
  rintro ⟨reference, pattern⟩ _
  dsimp only
  split
  · exact .error (spoken_bad _)
  · apply Worded.ok
    intro line hline
    obtain ⟨name, _, rfl⟩ := List.mem_map.mp hline
    exact unnumbered_listed hname hne _ _

theorem bare_worded (name : String) {verb : Verb} (h : verb.Plain) :
    Worded Verb.Plain (bare name args verb) := by
  unfold bare
  split
  · exact .ok h
  · exact .error (spoken_bad _)

theorem readLogin_worded : Worded Verb.Plain (readLogin l args) := by
  unfold readLogin
  dsimp only
  split
  · exact .error (spoken_bad _)
  · split
    · exact .error (spoken_bad _)
    · apply (argText_refuses ..).bind
      intro _ _
      exact (argText_refuses ..).bind fun _ _ => .ok trivial

theorem mailboxName_refuses (name : String) : Refuses (mailboxName l name args) := by
  unfold mailboxName
  apply (inState_refuses loggedIn).bind
  intro _ _
  split
  · exact .error (spoken_bad _)
  · exact argText_refuses ..

theorem readSelect_worded (name : String) (readOnly : Bool) :
    Worded Verb.Plain (readSelect l name readOnly args) :=
  (mailboxName_refuses name).bind fun _ _ => .ok trivial

theorem readSubscribe_worded (name : String) : Worded Verb.Plain (readSubscribe l name args) := by
  unfold readSubscribe
  apply (mailboxName_refuses name).bind
  intro mailbox _
  split
  · exact .error (spoken_no _)
  · exact .ok fun line hline => absurd hline List.not_mem_nil

theorem statusItem_worded (tok : Token) : Worded Clear (statusItem tok) := by
  have hitems : ∀ item ∈ statusItems, Clear item := by decide
  unfold statusItem
  split
  · split
    · rename_i hmem
      exact .ok (hitems _ hmem)
    · exact .error (spoken_bad _)
  · exact .error (spoken_bad _)

theorem readStatus_worded : Worded Verb.Plain (readStatus l args) := by
  unfold readStatus
  apply (inState_refuses loggedIn).bind
  intro _ _
  split
  · apply (argText_refuses ..).bind
    intro name _
    split
    · exact .error (spoken_no _)
    · apply (Worded.mapM statusItem_worded _).bind
      exact fun items hitems => .ok hitems
  · exact .error (spoken_bad _)

theorem appendMessage_refuses : Refuses (appendMessage args) := by
  unfold appendMessage
  split
  · exact .ok trivial
  · exact .ok trivial
  · exact .error (spoken_bad _)

theorem readAppend_worded : Worded Verb.Plain (readAppend env l args) := by
  unfold readAppend
  dsimp only
  apply (inState_refuses loggedIn).bind
  intro _ _
  split
  · exact .error (spoken_bad _)
  · apply (argText_refuses ..).bind
    intro name _
    apply appendMessage_refuses.bind
    intro raw _
    split
    · exact .error (spoken_bad _)
    · split
      · exact .error (spoken_bad _)
      · exact .ok trivial

theorem readSet_refuses (value : Octets) : Refuses (readSet env value) :=
  (argued_worded _).refuses

theorem readFetch_worded (uidMode : Bool) (h : ∀ t ∈ args, t.Legible) :
    Worded Verb.Plain (readFetch env l uidMode args) := by
  unfold readFetch
  apply hasView_refuses.bind
  intro _ _
  split
  · rename_i first attrs
    split
    · apply (readSet_refuses _).bind
      intro set _
      apply (argued_worded _).bind
      intro attributes hread
      apply Worded.ok
      exact parseFetchAttributes_clear (h attrs (by simp)) hread
    · exact .error (spoken_bad _)
  · exact .error (spoken_bad _)

theorem readSearch_worded (uidMode : Bool) : Worded Verb.Plain (readSearch env l uidMode args) := by
  unfold readSearch
  apply hasView_refuses.bind
  intro _ _
  exact (argued_worded _).bind fun _ _ => .ok trivial

theorem canonicalFlag_refuses (tok : Token) : Refuses (canonicalFlag tok) := by
  unfold canonicalFlag
  split
  · split
    · exact .ok trivial
    · split
      · exact .error (spoken_noWith _ _)
      · exact .error (spoken_noWith _ _)
  · exact .error (spoken_bad _)

theorem readStore_worded (uidMode : Bool) : Worded Verb.Plain (readStore env l uidMode args) := by
  unfold readStore
  apply hasView_refuses.bind
  intro _ _
  split
  · split
    · exact .error (spoken_bad _)
    · apply (Worded.mapM canonicalFlag_refuses _).bind
      intro flags _
      exact (readSet_refuses _).bind fun _ _ => .ok trivial
  · exact .error (spoken_bad _)

theorem readCopy_worded (name : String) (plan : CopyPlan) :
    Worded Verb.Plain (readCopy env l name plan args) := by
  unfold readCopy
  apply hasView_refuses.bind
  intro _ _
  split
  · apply (argText_refuses ..).bind
    intro dest _
    exact (readSet_refuses _).bind fun _ _ => .ok trivial
  · exact .error (spoken_bad _)

theorem readUidExpunge_worded : Worded Verb.Plain (readUidExpunge env args) := by
  unfold readUidExpunge
  split
  · exact (readSet_refuses _).bind fun _ _ => .ok trivial
  · exact .error (spoken_bad _)

theorem readUid_worded (h : ∀ t ∈ args, t.Legible) : Worded Verb.Plain (readUid env l args) := by
  unfold readUid
  apply hasView_refuses.bind
  intro _ _
  split
  · rename_i sub rest
    have hrest : ∀ t ∈ rest, t.Legible := fun t ht => h t (List.mem_cons_of_mem _ ht)
    split
    · exact readFetch_worded true hrest
    · exact readSearch_worded true
    · exact readStore_worded true
    · exact readUidExpunge_worded
    · exact readCopy_worded _ _
    · exact readCopy_worded _ _
    · exact .error (spoken_bad _)
  · exact .error (spoken_bad _)

/-- A command with legible arguments is refused with NO or BAD, or can be answered. -/
theorem readCommand_worded (name : String) (h : ∀ t ∈ args, t.Legible) :
    Worded Verb.Plain (readCommand env l name args) := by
  have hcapability : ∀ line ∈ ["CAPABILITY " ++ " ".intercalate capabilities], Unnumbered line := by
    decide
  have hid : ∀ line ∈ ["ID (\"name\" \"imapgw\" \"version\" \"0.1.0\")"], Unnumbered line := by
    decide
  have hnamespace : ∀ line ∈ ["NAMESPACE ((\"\" NIL)) NIL NIL"], Unnumbered line := by
    decide
  unfold readCommand
  split
  · exact bare_worded _ hcapability
  · exact bare_worded _ trivial
  · exact .ok trivial
  · exact readLogin_worded
  · exact .error (spoken_noWith _ _)
  · exact .error (spoken_noWith _ _)
  · exact readList_worded
  · exact readLsub_worded
  · exact readSelect_worded _ _
  · exact readSelect_worded _ _
  · exact readFetch_worded false h
  · exact readUid_worded h
  · exact readAppend_worded
  · exact readSearch_worded false
  · exact readStore_worded false
  · exact bare_worded _ trivial
  · exact .ok trivial
  · exact readStatus_worded
  · exact .ok hid
  · exact .ok hnamespace
  · exact readSubscribe_worded _
  · exact readSubscribe_worded _
  · apply hasView_refuses.bind
    exact fun _ _ => .ok fun line hline => absurd hline List.not_mem_nil
  · exact readCopy_worded _ _
  · exact readCopy_worded _ _
  · exact .error (spoken_noWith _ _)
  · exact .error (spoken_noWith _ _)
  · exact .error (spoken_noWith _ _)
  · exact .error (spoken_noWith _ _)
  · exact .error (spoken_bad _)

theorem reading_plain (ref name : String) (h : ∀ t ∈ args, t.Legible) :
    (reading env l ref name args).Plain := by
  have hworded : Worded Verb.Plain (readCommand env l name args) := readCommand_worded name h
  rw [reading, verbOf.eq_def]
  split
  · rename_i verb hread
    exact hworded.read verb hread
  · rename_i status text code hread
    exact hworded.refused _ hread status text code rfl
  · exact .inl rfl

end Imap
end ImapGateway
