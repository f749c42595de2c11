/-
Which FETCH attributes share a label.

Two requests of one label are answered by one attribute.  The label keeps the section, the
field names with blanks between them and the offset; the count of a partial is not in it,
nor is where a quoted name begins and ends.
-/
import ImapGateway.Imap.Attributes
import ImapGateway.Stream.Cuts
import Mathlib.Data.List.Nodup

namespace ImapGateway
namespace Imap

open ImapGateway.Parser
open Mailbox hiding upper

/-! ## Labels -/

/-- The names of a label. -/
def joined (fields : List Octets) : String := " ".intercalate (fields.map asText)

def sectionLabel (part : Section) (fields : List Octets) : String :=
  match part with
  | .headerFields | .headerFieldsNot => part.name ++ " (" ++ joined fields ++ ")"
  | _ => part.name

def rangeLabel : Option (Nat × Nat) → List Char
  | none => []
  | some (offset, _) => '<' :: Nat.toDigits 10 offset ++ ['>']

theorem bodyLabel_toList (part : Section) (fields : List Octets) (range : Option (Nat × Nat)) :
    (bodyLabel part fields range).toList =
      "BODY[".toList ++ ((sectionLabel part fields).toList ++ ']' :: rangeLabel range) := by
  cases range <;> cases part <;>
    simp [bodyLabel, String.toList_append, sectionLabel, joined, rangeLabel, Nat.repr]

theorem sectionLabel_inj {part part' : Section} {fields fields' : List Octets}
    (h : sectionLabel part fields = sectionLabel part' fields') :
    part = part' ∧
      (part = .headerFields ∨ part = .headerFieldsNot → joined fields = joined fields') := by
  have hchars := congrArg String.toList h
  cases part <;> cases part' <;>
    simp [sectionLabel, Section.name, String.toList_append] at hchars ⊢
  all_goals exact String.toList_inj.mp hchars

theorem mark_notMem_digits (n : Nat) : '<' ∉ (Nat.toDigits 10 n).reverse := by
  intro hmem
  have hdigit := Nat.isDigit_of_mem_toDigits (by decide) (by decide) (List.mem_reverse.mp hmem)
  simp at hdigit

/-- A label gives back what stands in the brackets, and the offset. -/
theorem rangeLabel_inj {xs ys : List Char} {range range' : Option (Nat × Nat)}
    (h : xs ++ ']' :: rangeLabel range = ys ++ ']' :: rangeLabel range') :
    xs = ys ∧ range.map Prod.fst = range'.map Prod.fst := by
  have hrev := congrArg List.reverse h
  cases range with
  | none =>
    cases range' with
    | none => exact ⟨List.append_cancel_right h, rfl⟩
    | some r => simp [rangeLabel] at hrev
  | some r =>
    cases range' with
    | none => simp [rangeLabel] at hrev
    | some r' =>
      simp only [rangeLabel, List.reverse_append, List.reverse_cons, List.reverse_nil,
        List.nil_append, List.append_assoc, List.cons_append, List.cons.injEq, true_and] at hrev
      obtain ⟨hdigits, hrest⟩ :=
        Cuts.append_separator_inj (mark_notMem_digits r.1) (mark_notMem_digits r'.1) hrev
      have hoffset : r.1 = r'.1 := by
        rw [← Nat.ofDigitChars_ten_toDigits (n := r.1), List.reverse_inj.mp hdigits,
          Nat.ofDigitChars_ten_toDigits]
      have hxs : xs = ys := List.reverse_inj.mp (List.tail_eq_of_cons_eq hrest)
      exact ⟨hxs, congrArg some hoffset⟩

/-! ## What is read of a request -/

/-- The attributes that are no `BODY[...]`. -/
def plainAttrs : List FetchAttr :=
  [{ kind := .uid, label := "UID" }, { kind := .flags, label := "FLAGS" },
    { kind := .internaldate, label := "INTERNALDATE" }, { kind := .size, label := "RFC822.SIZE" },
    { kind := .body, label := "RFC822", peek := false },
    { kind := .body, label := "RFC822.HEADER", part := .header },
    { kind := .body, label := "RFC822.TEXT", peek := false, part := .text }]

/-- An attribute of `BODY[...]`, labelled as what it asks for. -/
structure IsBody (a : FetchAttr) : Prop where
  kind : a.kind = .body
  label : a.label = bodyLabel a.part a.fields a.range
  fields : ¬ (a.part = .headerFields ∨ a.part = .headerFieldsNot) → a.fields = []

theorem parseSection_fields {octets : Octets} {r : Section × List Octets}
    (h : parseSection octets = .ok r) :
    ¬ (r.1 = .headerFields ∨ r.1 = .headerFieldsNot) → r.2 = [] := by
  unfold parseSection at h
  intro hplain
  split at h
  · cases h
    rfl
  split at h
  · cases h
    rfl
  split at h
  · cases h
    rfl
  split at h
  · next invert names _ =>
    split at h
    · cases h
    · cases h
      cases invert
      · exact absurd (Or.inl rfl) hplain
      · exact absurd (Or.inr rfl) hplain
  · split at h <;> cases h

theorem bodyAttr_isBody {peek : Bool} {text : Octets} {partial_ : Option (Octets × Octets)}
    {a : FetchAttr} (h : bodyAttr peek text partial_ = .ok a) : IsBody a := by
  unfold bodyAttr at h
  cases hrange : rangeOf partial_ with
  | error e => simp [hrange, bind, Except.bind] at h
  | ok range =>
    cases hpart : parseSection (strip text) with
    | error e => simp [hrange, hpart, bind, Except.bind] at h
    | ok r =>
      have ha := h.symm
      simp only [hrange, hpart, bind, Except.bind, pure, Except.pure, Except.ok.injEq] at ha
      rw [ha]
      exact ⟨rfl, rfl, parseSection_fields hpart⟩

/-- What comes of the name of an attribute. -/
inductive AttrRead (name : Octets) : Except ArgError FetchAttr → Prop
  | plain {a : FetchAttr} (h : a ∈ plainAttrs) : AttrRead name (.ok a)
  | unsupported (text : String) : AttrRead name (.error (.unsupported text))
  | malformed (h : matchBody name = none) :
      AttrRead name (.error (.fetchSyntax "invalid fetch item"))
  | body {peek text range r} (h : matchBody name = some (peek, text, range))
      (hr : bodyAttr peek text range = r) : AttrRead name r

theorem AttrRead.ite {name : Octets} {p : Prop} [Decidable p] {r r' : Except ArgError FetchAttr}
    (h : AttrRead name r) (h' : AttrRead name r') : AttrRead name (if p then r else r') := by
  by_cases hp : p
  · rwa [if_pos hp]
  · rwa [if_neg hp]

theorem attrRead_parseAttr (name : Octets) : AttrRead name (parseAttr name) := by
  unfold parseAttr
  refine .ite (.plain (by decide)) ?_
  refine .ite (.plain (by decide)) ?_
  refine .ite (.plain (by decide)) ?_
  refine .ite (.plain (by decide)) ?_
  refine .ite (.plain (by decide)) ?_
  refine .ite (.plain (by decide)) ?_
  refine .ite (.plain (by decide)) ?_
  refine .ite (.unsupported _) ?_
  cases hmatch : matchBody name with
  | none => exact .malformed hmatch
  | some r => exact .body hmatch rfl

/-- An attribute that is no `BODY[...]`, or what stands in its brackets. -/
theorem parseAttr_body {name : Octets} {a : FetchAttr} (h : parseAttr name = .ok a) :
    a ∈ plainAttrs ∨ ∃ peek text range, matchBody name = some (peek, text, range) ∧
      bodyAttr peek text range = .ok a := by
  have hread := attrRead_parseAttr name
  rw [h] at hread
  cases hread with
  | plain hplain => exact .inl hplain
  | body hmatch hbody => exact .inr ⟨_, _, _, hmatch, hbody⟩

theorem parseAttr_cases {name : Octets} {a : FetchAttr} (h : parseAttr name = .ok a) :
    a ∈ plainAttrs ∨ IsBody a := by
  rcases parseAttr_body h with hplain | ⟨peek, text, range, _, hbody⟩
  · exact .inl hplain
  · exact .inr (bodyAttr_isBody hbody)

/-! ## Merging -/

/-- What each name of a FETCH asks for. -/
def requests (token : Token) : Except ArgError (List FetchAttr) := do
  let names ← fetchNames token
  names.mapM parseAttr

/-- The same but for the side effect. -/
def FetchAttr.Alike (a b : FetchAttr) : Prop :=
  { a with peek := true } = { b with peek := true }

/-- The attributes that requests are merged to. -/
structure Merged (reqs attrs : List FetchAttr) : Prop where
  asked : ∀ a ∈ attrs, ∃ q ∈ reqs, a.Alike q
  answered : ∀ q ∈ reqs, ∃ a ∈ attrs, a.label = q.label ∧ (q.peek = false → a.peek = false)
  order : (attrs.map (·.label)).Pairwise fun x y =>
    (reqs.map (·.label)).idxOf x < (reqs.map (·.label)).idxOf y

theorem FetchAttr.Alike.eq {a b : FetchAttr} (h : a.Alike b) :
    a.kind = b.kind ∧ a.label = b.label ∧ a.part = b.part ∧ a.fields = b.fields ∧
      a.range = b.range := by
  unfold FetchAttr.Alike at h
  simp only [FetchAttr.mk.injEq] at h
  obtain ⟨hkind, hlabel, -, hpart, hfields, hrange⟩ := h
  exact ⟨hkind, hlabel, hpart, hfields, hrange⟩

theorem FetchAttr.Alike.label {a b : FetchAttr} (h : a.Alike b) : a.label = b.label := h.eq.2.1

theorem mergeAttr_labels (attrs : List FetchAttr) (q : FetchAttr) :
    (mergeAttr attrs q).map (·.label) =
      if q.label ∈ attrs.map (·.label) then attrs.map (·.label)
      else attrs.map (·.label) ++ [q.label] := by
  unfold mergeAttr
  cases hfind : attrs.find? fun e => e.label == q.label with
  | none =>
    have hnew : q.label ∉ attrs.map (·.label) := by
      intro hmem
      obtain ⟨e, he, hlabel⟩ := List.mem_map.mp hmem
      have hne := List.find?_eq_none.mp hfind e he
      simp [hlabel] at hne
    rw [if_neg hnew]
    simp
  | some e =>
    have he : e.label = q.label := by simpa using List.find?_some hfind
    have hold : q.label ∈ attrs.map (·.label) :=
      List.mem_map.mpr ⟨e, List.mem_of_find?_eq_some hfind, he⟩
    rw [if_pos hold]
    dsimp only
    split
    · rw [List.map_map]
      apply List.map_congr_left
      intro e' _
      show (if e'.label = q.label then { e' with peek := false } else e').label = e'.label
      split <;> rfl
    · rfl

/-- What a merge makes of an attribute that was there. -/
theorem mem_mergeAttr_of_mem {attrs : List FetchAttr} (q : FetchAttr) {a : FetchAttr}
    (ha : a ∈ attrs) : ∃ a' ∈ mergeAttr attrs q, a'.Alike a ∧ (a.peek = false → a'.peek = false) := by
  unfold mergeAttr
  split
  · exact ⟨a, List.mem_append_left _ ha, rfl, id⟩
  · split
    · refine ⟨_, List.mem_map_of_mem ha, ?_, ?_⟩
      · split <;> rfl
      · intro hpeek
        split
        · rfl
        · exact hpeek
    · exact ⟨a, ha, rfl, id⟩

theorem mem_mergeAttr_cases {attrs : List FetchAttr} {q a : FetchAttr}
    (ha : a ∈ mergeAttr attrs q) : a = q ∨ ∃ e ∈ attrs, a.Alike e := by
  unfold mergeAttr at ha
  split at ha
  · rcases List.mem_append.mp ha with h | h
    · exact Or.inr ⟨a, h, rfl⟩
    · exact Or.inl (List.mem_singleton.mp h)
  · split at ha
    · obtain ⟨e, he, rfl⟩ := List.mem_map.mp ha
      refine Or.inr ⟨e, he, ?_⟩
      split <;> rfl
    · exact Or.inr ⟨a, ha, rfl⟩

/-- The request that was merged is answered, and not without its side effect. -/
theorem mergeAttr_answers (attrs : List FetchAttr) (q : FetchAttr) :
    ∃ a ∈ mergeAttr attrs q, a.label = q.label ∧ (q.peek = false → a.peek = false) := by
  unfold mergeAttr
  cases hfind : attrs.find? fun e => e.label == q.label with
  | none => exact ⟨q, List.mem_append_right _ (List.mem_singleton_self q), rfl, id⟩
  | some e =>
    have he : e.label = q.label := by simpa using List.find?_some hfind
    have hmem := List.mem_of_find?_eq_some hfind
    dsimp only
    cases hpeek : e.peek && !q.peek with
    | true =>
      refine ⟨_, List.mem_map_of_mem hmem, ?_, ?_⟩
      · rw [if_pos he]
        exact he
      · intro _
        rw [if_pos he]
    | false =>
      refine ⟨e, hmem, he, fun hq => ?_⟩
      simpa [hq] using hpeek

/-- One request more. -/
theorem Merged.step {reqs attrs : List FetchAttr} (h : Merged reqs attrs) (q : FetchAttr) :
    Merged (reqs ++ [q]) (mergeAttr attrs q) := by
  have hlabels : ∀ x ∈ attrs.map (·.label), x ∈ reqs.map (·.label) := by
    intro x hx
    obtain ⟨a, ha, rfl⟩ := List.mem_map.mp hx
    obtain ⟨q', hq', halike⟩ := h.asked a ha
    exact List.mem_map.mpr ⟨q', hq', halike.label.symm⟩
  have hpos : ∀ x ∈ attrs.map (·.label),
      ((reqs ++ [q]).map (·.label)).idxOf x = (reqs.map (·.label)).idxOf x := by
    intro x hx
    rw [List.map_append, List.idxOf_append, if_pos (hlabels x hx)]
  have horder : (attrs.map (·.label)).Pairwise fun x y =>
      ((reqs ++ [q]).map (·.label)).idxOf x < ((reqs ++ [q]).map (·.label)).idxOf y :=
    h.order.imp_of_mem fun hx hy hlt => by rwa [hpos _ hx, hpos _ hy]
  constructor
  · intro a ha
    rcases mem_mergeAttr_cases ha with rfl | ⟨e, he, halike⟩
    · exact ⟨a, List.mem_append_right _ (List.mem_singleton_self a), rfl⟩
    · obtain ⟨q', hq', halike'⟩ := h.asked e he
      exact ⟨q', List.mem_append_left _ hq', halike.trans halike'⟩
  · intro q' hq'
    rcases List.mem_append.mp hq' with hq' | hq'
    · obtain ⟨a, ha, hlabel, hpeek⟩ := h.answered q' hq'
      obtain ⟨a', ha', halike, hkeeps⟩ := mem_mergeAttr_of_mem q ha
      exact ⟨a', ha', halike.label.trans hlabel, fun hp => hkeeps (hpeek hp)⟩
    · rw [List.mem_singleton.mp hq']
      exact mergeAttr_answers attrs q
  · rw [mergeAttr_labels]
    split
    · exact horder
    · next hnew =>
      rw [List.pairwise_append]
      refine ⟨horder, List.pairwise_singleton _ _, ?_⟩
      intro x hx y hy
      rw [List.mem_singleton.mp hy, hpos x hx]
      have hx' := List.idxOf_lt_length_of_mem (hlabels x hx)
      by_cases hq : q.label ∈ reqs.map (·.label)
      · obtain ⟨q', hq', hlabel⟩ := List.mem_map.mp hq
        obtain ⟨a, ha, hsame, -⟩ := h.answered q' hq'
        exact absurd (List.mem_map.mpr ⟨a, ha, hsame.trans hlabel⟩) hnew
      · rw [List.map_append, List.idxOf_append, if_neg hq]
        omega

theorem merged_foldl (reqs : List FetchAttr) : Merged reqs (reqs.foldl mergeAttr []) := by
  induction reqs using List.reverseRecOn with
  | nil => exact ⟨nofun, nofun, List.Pairwise.nil⟩
  | append_singleton reqs q ih =>
    rw [List.foldl_append]
    exact ih.step q

/-- Each request is served by an attribute that asks for the same and does what it does; the
labels stand in the order of the first request of each. -/
structure Served (reqs attrs : List FetchAttr) : Prop where
  serves : ∀ q ∈ reqs, ∃ a ∈ attrs, a.label = q.label ∧ a.kind = q.kind ∧ a.part = q.part ∧
    a.fields = q.fields ∧ a.range = q.range ∧ (q.peek = false → a.peek = false)
  asked : ∀ a ∈ attrs, ∃ q ∈ reqs, q.label = a.label
  order : (attrs.map (·.label)).Pairwise fun x y =>
    (reqs.map (·.label)).idxOf x < (reqs.map (·.label)).idxOf y
  bytes : ∀ raw, ∀ q ∈ reqs, ∃ a ∈ attrs, a.label = q.label ∧
    sectionBytes raw a = sectionBytes raw q

/-- No two requests have section, names and offset alike and not the names, one by one, and
the count. -/
def Apart (reqs : List FetchAttr) : Prop :=
  ∀ q ∈ reqs, ∀ q' ∈ reqs, q.part = q'.part → joined q.fields = joined q'.fields →
    q.range.map Prod.fst = q'.range.map Prod.fst → q.fields = q'.fields ∧ q.range = q'.range

theorem sectionBytes_congr {a b : FetchAttr} (hpart : a.part = b.part)
    (hfields : a.fields = b.fields) (hrange : a.range = b.range) (raw : Bytes) :
    sectionBytes raw a = sectionBytes raw b := by
  unfold sectionBytes
  rw [hpart, hfields, hrange]

theorem plainAttrs_label : ∀ a ∈ plainAttrs, ∀ b ∈ plainAttrs, a.label = b.label → a = b := by
  decide

theorem plainAttrs_bare : ∀ a ∈ plainAttrs, a.fields = [] ∧ a.range = none ∧
    ¬ (a.part = .headerFields ∨ a.part = .headerFieldsNot) := by
  decide

theorem plainAttrs_start : ∀ a ∈ plainAttrs, ¬ "BODY[".toList <+: a.label.toList := by
  decide

theorem IsBody.start {a : FetchAttr} (h : IsBody a) : "BODY[".toList <+: a.label.toList := by
  rw [h.label, bodyLabel_toList]
  exact List.prefix_append _ _

/-- What two attributes of one label have in common. -/
theorem label_eq {a b : FetchAttr} (ha : a ∈ plainAttrs ∨ IsBody a) (hb : b ∈ plainAttrs ∨ IsBody b)
    (h : a.label = b.label) :
    a.kind = b.kind ∧ a.part = b.part ∧ joined a.fields = joined b.fields ∧
      a.range.map Prod.fst = b.range.map Prod.fst := by
  rcases ha with ha | ha <;> rcases hb with hb | hb
  · rw [plainAttrs_label a ha b hb h]
    exact ⟨rfl, rfl, rfl, rfl⟩
  · exact absurd (h ▸ hb.start) (plainAttrs_start a ha)
  · exact absurd (h ▸ ha.start) (plainAttrs_start b hb)
  · have hchars := congrArg String.toList h
    rw [ha.label, hb.label, bodyLabel_toList, bodyLabel_toList] at hchars
    obtain ⟨hsection, hoffset⟩ := rangeLabel_inj (List.append_cancel_left hchars)
    obtain ⟨hpart, hnames⟩ := sectionLabel_inj (String.toList_inj.mp hsection)
    refine ⟨ha.kind.trans hb.kind.symm, hpart, ?_, hoffset⟩
    by_cases hfields : a.part = .headerFields ∨ a.part = .headerFieldsNot
    · exact hnames hfields
    · rw [ha.fields hfields, hb.fields (hpart ▸ hfields)]

theorem bodyLabel_congr {part : Section} {fields fields' : List Octets}
    {range range' : Option (Nat × Nat)} (hnames : joined fields = joined fields')
    (hoffset : range.map Prod.fst = range'.map Prod.fst) :
    bodyLabel part fields range = bodyLabel part fields' range' := by
  have hrange : rangeLabel range = rangeLabel range' := by
    cases range <;> cases range' <;> simp_all [rangeLabel]
  apply String.toList_inj.mp
  rw [bodyLabel_toList, bodyLabel_toList, hrange]
  cases part <;> simp only [sectionLabel, hnames]

theorem requests_cases {token : Token} {reqs : List FetchAttr} (h : requests token = .ok reqs) :
    ∀ q ∈ reqs, q ∈ plainAttrs ∨ IsBody q := by
  unfold requests at h
  cases hnames : fetchNames token with
  | error e => simp [hnames, bind, Except.bind] at h
  | ok names =>
    intro q hq
    rw [hnames] at h
    obtain ⟨name, -, hname⟩ := mapM_ok_right h hq
    exact parseAttr_cases hname

theorem parseFetchAttributes_requests {token : Token} {attrs : List FetchAttr}
    (h : parseFetchAttributes token = .ok attrs) :
    ∃ reqs, requests token = .ok reqs ∧ attrs = reqs.foldl mergeAttr [] := by
  unfold parseFetchAttributes at h
  unfold requests
  cases hnames : fetchNames token with
  | error e => simp [hnames, bind, Except.bind] at h
  | ok names =>
    cases hreqs : names.mapM parseAttr with
    | error e => simp [hnames, hreqs, bind, Except.bind] at h
    | ok reqs =>
      refine ⟨reqs, hreqs, ?_⟩
      simpa [hnames, hreqs, bind, Except.bind, pure, Except.pure] using h.symm

/-- Attributes of one label are one attribute. -/
theorem Served.unique {reqs attrs : List FetchAttr} (h : Served reqs attrs) {a b : FetchAttr}
    (ha : a ∈ attrs) (hb : b ∈ attrs) (hlabel : a.label = b.label) : a = b := by
  have hnodup : (attrs.map (·.label)).Nodup := h.order.imp fun hlt heq => by
    rw [heq] at hlt
    omega
  exact List.inj_on_of_nodup_map hnodup ha hb hlabel

/-- The requests of a FETCH are served just when no two of them differ in what a label
leaves out. -/
theorem served_iff_apart {token : Token} {attrs reqs : List FetchAttr}
    (h : parseFetchAttributes token = .ok attrs) (hreqs : requests token = .ok reqs) :
    Served reqs attrs ↔ Apart reqs := by
  have hcases := requests_cases hreqs
  obtain ⟨reqs', hreqs', rfl⟩ := parseFetchAttributes_requests h
  rw [hreqs] at hreqs'
  cases hreqs'
  have hmerged := merged_foldl reqs
  constructor
  · intro hserved q hq q' hq' hpart hnames hoffset
    by_cases hplain : IsBody q ∧ IsBody q'
    · have hlabel : q.label = q'.label := by
        rw [hplain.1.label, hplain.2.label, hpart]
        exact bodyLabel_congr hnames hoffset
      obtain ⟨a, ha, hal, -, -, hfields, hrange, -⟩ := hserved.serves q hq
      obtain ⟨b, hb, hbl, -, -, hfields', hrange', -⟩ := hserved.serves q' hq'
      have hab : a = b := hserved.unique ha hb (hal.trans (hlabel.trans hbl.symm))
      rw [← hfields, ← hrange, ← hfields', ← hrange', hab]
      exact ⟨rfl, rfl⟩
    · -- One of the two is bare, and the section of the other has no names either.
      have hbare : ∀ q ∈ reqs, ¬ (q.part = .headerFields ∨ q.part = .headerFieldsNot) →
          q.fields = [] := fun q hq hnot =>
        (hcases q hq).elim (fun hp => (plainAttrs_bare q hp).1) fun hb => hb.fields hnot
      have hnone : ¬ (q.part = .headerFields ∨ q.part = .headerFieldsNot) ∧
          (q.range = none ∨ q'.range = none) := by
        rcases hcases q hq with hp | hb
        · exact ⟨(plainAttrs_bare q hp).2.2, Or.inl (plainAttrs_bare q hp).2.1⟩
        · rcases hcases q' hq' with hp' | hb'
          · exact ⟨hpart ▸ (plainAttrs_bare q' hp').2.2, Or.inr (plainAttrs_bare q' hp').2.1⟩
          · exact absurd ⟨hb, hb'⟩ hplain
      refine ⟨?_, ?_⟩
      · rw [hbare q hq hnone.1, hbare q' hq' (hpart ▸ hnone.1)]
      · rcases hnone.2 with hr | hr
        · rw [hr] at hoffset ⊢
          exact (Option.map_eq_none_iff.mp hoffset.symm).symm
        · rw [hr] at hoffset ⊢
          exact Option.map_eq_none_iff.mp hoffset
  · intro hapart
    have hserves : ∀ q ∈ reqs, ∃ a ∈ reqs.foldl mergeAttr [], a.label = q.label ∧
        a.kind = q.kind ∧ a.part = q.part ∧ a.fields = q.fields ∧ a.range = q.range ∧
          (q.peek = false → a.peek = false) := by
      intro q hq
      obtain ⟨a, ha, hlabel, hpeek⟩ := hmerged.answered q hq
      obtain ⟨q', hq', halike⟩ := hmerged.asked a ha
      obtain ⟨hkind, hlabel', hpart, hfields, hrange⟩ := halike.eq
      obtain ⟨hkind', hpart', hnames, hoffset⟩ :=
        label_eq (hcases q' hq') (hcases q hq) (hlabel'.symm.trans hlabel)
      obtain ⟨hf, hr⟩ := hapart q' hq' q hq hpart' hnames hoffset
      exact ⟨a, ha, hlabel, hkind.trans hkind', hpart.trans hpart', hfields.trans hf,
        hrange.trans hr, hpeek⟩
    refine ⟨hserves, ?_, hmerged.order, ?_⟩
    · intro a ha
      obtain ⟨q, hq, halike⟩ := hmerged.asked a ha
      exact ⟨q, hq, halike.label.symm⟩
    · intro raw q hq
      obtain ⟨a, ha, hlabel, -, hpart, hfields, hrange, -⟩ := hserves q hq
      exact ⟨a, ha, hlabel, sectionBytes_congr hpart hfields hrange raw⟩

theorem served_iff_apart_peek :
    ∃ attrs reqs, (Served reqs attrs ↔ Apart reqs) ∧ reqs.length = 3 ∧ attrs.length = 2 := by
  have hboth : parseFetchAttributes
        (.list [.atom (ascii "BODY.PEEK[]"), .atom (ascii "UID"), .atom (ascii "BODY[]")]) =
      .ok [{ kind := .body, label := "BODY[]", peek := false }, { kind := .uid, label := "UID" }] ∧
      requests (.list [.atom (ascii "BODY.PEEK[]"), .atom (ascii "UID"), .atom (ascii "BODY[]")]) =
        .ok [{ kind := .body, label := "BODY[]" }, { kind := .uid, label := "UID" },
          { kind := .body, label := "BODY[]", peek := false }] := by decide
  exact ⟨_, _, served_iff_apart hboth.1 hboth.2, rfl, rfl⟩

/-- `(BODY[]<0.10> BODY[]<0.20>)` is answered with ten octets once. -/
theorem count_is_lost :
    ∃ attrs reqs, parseFetchAttributes
        (.list [.atom (ascii "BODY[]<0.10>"), .atom (ascii "BODY[]<0.20>")]) = .ok attrs ∧
      requests (.list [.atom (ascii "BODY[]<0.10>"), .atom (ascii "BODY[]<0.20>")]) = .ok reqs ∧
      ¬ Served reqs attrs := by
  refine ⟨[{ kind := .body, label := "BODY[]<0>", peek := false, range := some (0, 10) }],
    [{ kind := .body, label := "BODY[]<0>", peek := false, range := some (0, 10) },
      { kind := .body, label := "BODY[]<0>", peek := false, range := some (0, 20) }],
    by decide, by decide, fun hserved => ?_⟩
  obtain ⟨a, ha, -, -, -, -, hrange, -⟩ :=
    hserved.serves { kind := .body, label := "BODY[]<0>", peek := false, range := some (0, 20) }
      (by decide)
  rw [List.mem_singleton.mp ha] at hrange
  cases hrange

end Imap
end ImapGateway
