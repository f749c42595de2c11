/-
HEADER.FIELDS and HEADER.FIELDS.NOT.

The one should be the fields of a message that have one of the names, the other the rest
of them.  The reader of fields ends a line at a bare CR, so that what stands behind the CR
is given as a field of its own.  Whatever names are asked for, this shows: no output of the
reader has a CR before anything but LF, a blank, a tab or CRLF.
-/
import ImapGateway.Imap.Headers

namespace ImapGateway
namespace Imap

open ImapGateway.Parser Cuts
open Mailbox hiding upper

/-! ## What the two outputs should be -/

/-- The name of a field: what stands before the colon, in capitals. -/
def fieldName (field : Bytes) : Octets := upper (strip (field.takeWhile (· ≠ 0x3A)))

def named (names : List Octets) (field : Bytes) : Bool :=
  (names.map upper).contains (fieldName field)

/-- A field, with CRLF behind an unterminated last line. -/
def ended (field : Bytes) : Bytes := if field.getLast? = some 10 then field else field ++ [13, 10]

/-- The fields that have one of the names, or the others, and the blank line. -/
def selected (fields : List Bytes) (names : List Octets) (invert : Bool) : Bytes :=
  (fields.filter fun field => named names field != invert).flatMap ended ++ [13, 10]

/-- The two outputs are what they should be of the fields of the message. -/
structure Complements (raw : Bytes) (names : List Octets) : Prop where
  fields : sectionBytes raw (bodyOf .headerFields names) =
    selected (fieldsOf (fieldBytes raw)) names false
  others : sectionBytes raw (bodyOf .headerFieldsNot names) =
    selected (fieldsOf (fieldBytes raw)) names true

/-- A CR stands before LF, a blank or a tab, at the end, or before a CRLF at the end. -/
def CrsFolded (octets : Bytes) : Prop :=
  ∀ u v, octets = u ++ 13 :: v → v = [] ∨ v = [13, 10] ∨ ∃ ch ∈ v.head?, ch = 10 ∨ folds ch = true

theorem filterHeader_selected (header : Bytes) (names : List Octets) (invert : Bool) :
    filterHeader header names invert = selected (headerLines header) names invert := by
  unfold filterHeader selected
  simp only [named, List.contains_eq_mem]
  rfl

/-- The fields that are read of a message. -/
theorem headerLines_split (raw : Bytes) :
    headerLines (splitMessage raw).1 = join folds (readLines (fieldBytes raw)) := by
  obtain ⟨hstarts, hclosed | hall⟩ := (splitMessage_splits raw).closes
  · rw [headerLines_join, readLines_fieldBytes, fieldBytes_prefix hstarts hclosed]
  · rw [hall, headerLines_join, readLines_fieldBytes]

theorem complements_selected (raw : Bytes) (names : List Octets) :
    Complements raw names ↔ ∀ invert,
      selected (join folds (readLines (fieldBytes raw))) names invert =
        selected (fieldsOf (fieldBytes raw)) names invert := by
  rw [← headerLines_split]
  simp only [← filterHeader_selected]
  constructor
  · intro h invert
    cases invert with
    | false => exact h.fields
    | true => exact h.others
  · exact fun h => ⟨h false, h true⟩

/-! ## Fields as pieces -/

/-- The reader of fields ends a field at a bare CR as well. -/
def breaksField (ch : UInt8) (next : Option UInt8) : Bool := breaksLine ch next && !next.any folds

def endsField (ch : UInt8) (next : Option UInt8) : Bool := endsLine ch next && !next.any folds

theorem fieldsOf_cut (header : Bytes) : fieldsOf header = cut endsField header := join_cut _ _ _

/-- Each CR but the last octet stands before LF, a blank or a tab. -/
def Calm (octets : Bytes) : Prop :=
  ∀ u ch v, octets = u ++ 13 :: ch :: v → ch = 10 ∨ folds ch = true

theorem breaksField_cr {ch : UInt8} (h : ch = 10 ∨ folds ch = true) :
    breaksField 13 (some ch) = false := by
  unfold breaksField breaksLine
  rcases h with rfl | h
  · rfl
  · simp [h]

theorem breaksField_cr_eq {ch : UInt8} (h : breaksField 13 (some ch) = false) :
    ch = 10 ∨ folds ch = true := by
  by_cases hlf : ch = 10
  · exact Or.inl hlf
  · unfold breaksField breaksLine at h
    simpa [hlf] using h

theorem breaksField_ne {ch : UInt8} (h : ch ≠ 13) (next : Option UInt8) :
    breaksField ch next = endsField ch next := by
  unfold breaksField endsField breaksLine endsLine
  simp [h]

/-- Where every CR is calm, fields are read as they are. -/
theorem Calm.cut {octets : Bytes} (h : Calm octets) :
    Cuts.cut breaksField octets = fieldsOf octets := by
  rw [fieldsOf_cut]
  apply cut_congr
  intro u ch next v hsplit
  by_cases hcr : ch = 13
  · rw [hcr] at hsplit ⊢
    rw [breaksField_cr (h u next v hsplit)]
    rfl
  · exact breaksField_ne hcr _

/-- What is read is cut at bare CRs. -/
theorem join_readLines (octets : Bytes) :
    join folds (readLines octets) = Cuts.cut breaksField (readLines octets).flatten := by
  have hcut : Cuts.cut breaksLine (readLines octets).flatten = readLines octets := by
    apply cut_flatten_of_append
    rw [← physicalLines_cut]
    exact List.takeWhile_append_dropWhile.symm
  conv => lhs; rw [← hcut]
  exact join_cut _ _ _

/-! ## CRs in what is sent -/

/-- Each CR stands before LF, a blank or a tab, or before CRLF. -/
def Tame (octets : Bytes) : Prop :=
  ∀ u v, octets = u ++ 13 :: v → (∃ ch ∈ v.head?, ch = 10 ∨ folds ch = true) ∨ [13, 10] <+: v

/-- Where a member of two lists stands. -/
theorem mem_append_split {α : Type} {xs ys u v : List α} {x : α} (h : xs ++ ys = u ++ x :: v) :
    (∃ v', xs = u ++ x :: v' ∧ v = v' ++ ys) ∨ ∃ u', ys = u' ++ x :: v := by
  rcases List.append_eq_append_iff.mp h with ⟨us, -, hys⟩ | ⟨bs, hxs, hv⟩
  · exact Or.inr ⟨us, hys⟩
  · cases bs with
    | nil => exact Or.inr ⟨[], hv.symm⟩
    | cons b bs =>
      have hb : x = b := List.head_eq_of_cons_eq hv
      exact Or.inl ⟨bs, by rw [hxs, hb], List.tail_eq_of_cons_eq hv⟩

theorem head_append {α : Type} {P : α → Prop} {v : List α} (ys : List α)
    (h : ∃ ch ∈ v.head?, P ch) : ∃ ch ∈ (v ++ ys).head?, P ch := by
  cases v with
  | nil =>
    obtain ⟨ch, hch, -⟩ := h
    cases hch
  | cons ch v => exact h

theorem Tame.append {xs ys : Bytes} (hx : Tame xs) (hy : Tame ys) : Tame (xs ++ ys) := by
  intro u v h
  rcases mem_append_split h with ⟨v', hxs, rfl⟩ | ⟨u', hys⟩
  · rcases hx u v' hxs with hch | hcrlf
    · exact Or.inl (head_append ys hch)
    · exact Or.inr (hcrlf.trans (List.prefix_append _ _))
  · exact hy u' v hys

theorem tame_crlf : Tame [13, 10] := by
  intro u v h
  cases u with
  | nil =>
    have hv : [10] = v := List.tail_eq_of_cons_eq h
    rw [← hv]
    exact Or.inl ⟨10, rfl, Or.inl rfl⟩
  | cons c u =>
    have htail : [10] = u ++ 13 :: v := List.tail_eq_of_cons_eq h
    cases u with
    | nil => cases htail
    | cons c u =>
      have hlen := congrArg List.length htail
      simp at hlen

theorem tame_nil : Tame [] := fun u v h => by
  have hlen := congrArg List.length h
  simp at hlen

theorem tame_flatMap {fields : List Bytes} (h : ∀ field ∈ fields, Tame (ended field)) :
    Tame (fields.flatMap ended) := by
  induction fields with
  | nil => exact tame_nil
  | cons field fields ih =>
    rw [List.flatMap_cons]
    exact (h field List.mem_cons_self).append (ih fun f hf => h f (List.mem_cons_of_mem _ hf))

theorem ended_last (field : Bytes) : (ended field).getLast? = some 10 := by
  unfold ended
  by_cases h : field.getLast? = some 10
  · rw [if_pos h, h]
  · rw [if_neg h, List.getLast?_append]
    rfl

/-- What ends with LF is tame where it is in something tame. -/
theorem Tame.of_infix {octets xs ys : Bytes} (hlast : octets.getLast? = some 10)
    (h : Tame (xs ++ (octets ++ ys))) : Tame octets := by
  intro u v hsplit
  have hwhole : xs ++ (octets ++ ys) = (xs ++ u) ++ 13 :: (v ++ ys) := by
    rw [hsplit]
    simp
  have hend : (13 :: v).getLast? = some 10 := by
    rw [hsplit, List.getLast?_append] at hlast
    simpa using hlast
  cases v with
  | nil => cases hend
  | cons ch v =>
    rcases h _ _ hwhole with hch | hcrlf
    · exact Or.inl hch
    · obtain ⟨rest, hrest⟩ := hcrlf
      have hch : 13 = ch := List.head_eq_of_cons_eq hrest
      have htail : 10 :: rest = v ++ ys := List.tail_eq_of_cons_eq hrest
      cases v with
      | nil =>
        rw [← hch] at hend
        cases hend
      | cons ch' v =>
        have hch' : 10 = ch' := List.head_eq_of_cons_eq htail
        rw [← hch, ← hch']
        exact Or.inr ⟨v, rfl⟩

/-- What the reader of fields sends of a field is tame. -/
theorem tame_ended {octets field : Bytes} (h : field ∈ cut breaksField octets) :
    Tame (ended field) := by
  have hcr : ∀ u ch v, field = u ++ 13 :: ch :: v → ch = 10 ∨ folds ch = true := fun u ch v hf =>
    breaksField_cr_eq (not_cut_within h hf)
  unfold ended
  intro u v hsplit
  by_cases hlast : field.getLast? = some 10
  · rw [if_pos hlast] at hsplit
    cases v with
    | nil =>
      rw [hsplit, List.getLast?_concat] at hlast
      cases hlast
    | cons ch v => exact Or.inl ⟨ch, rfl, hcr u ch v hsplit⟩
  · rw [if_neg hlast] at hsplit
    rcases mem_append_split hsplit with ⟨v', hfield, rfl⟩ | ⟨u', hcrlf⟩
    · cases v' with
      | nil => exact Or.inr (List.prefix_refl _)
      | cons ch v' => exact Or.inl ⟨ch, rfl, hcr u ch v' hfield⟩
    · exact tame_crlf u' v hcrlf

theorem tame_selected {octets : Bytes} (names : List Octets) (invert : Bool) :
    Tame (selected (cut breaksField octets) names invert) :=
  (tame_flatMap fun _ hfield => tame_ended (List.mem_filter.mp hfield).1).append tame_crlf

/-- A field is in one of the two outputs. -/
theorem tame_of_selected {fields : List Bytes} {names : List Octets}
    (h : ∀ invert, Tame (selected fields names invert)) {field : Bytes} (hfield : field ∈ fields) :
    Tame (ended field) := by
  have hin : field ∈ fields.filter fun f => named names f != !named names field := by
    rw [List.mem_filter]
    refine ⟨hfield, ?_⟩
    cases named names field <;> rfl
  have htame := h (!named names field)
  obtain ⟨before, behind, hsplit⟩ := List.append_of_mem hin
  unfold selected at htame
  rw [hsplit, List.flatMap_append, List.flatMap_cons, List.append_assoc, List.append_assoc] at htame
  exact htame.of_infix (ended_last field)

/-! ## What is sent of the fields together -/

/-- Fields are sent as they are, but for an unterminated last one. -/
theorem flatMap_ended (octets : Bytes) :
    (fieldsOf octets).flatMap ended = octets ∨
      (fieldsOf octets).flatMap ended = octets ++ [13, 10] := by
  have hflat : (fieldsOf octets).flatten = octets := by rw [fieldsOf_cut, cut_flatten]
  rcases List.eq_nil_or_concat' (fieldsOf octets) with hnil | ⟨pre, last, hfields⟩
  · rw [hnil] at hflat ⊢
    exact Or.inl hflat
  · have hpre : pre.flatMap ended = pre.flatten := by
      rw [List.flatMap_def]
      congr 1
      conv => rhs; rw [← List.map_id pre]
      apply List.map_congr_left
      intro field hfield
      rw [fieldsOf_cut] at hfields
      obtain ⟨ch, next, hch, hends⟩ := cut_ends hfields field hfield
      unfold endsField endsLine at hends
      rw [Bool.and_eq_true, decide_eq_true_iff] at hends
      exact if_pos (by rw [hch, hends.1])
    have hall : (fieldsOf octets).flatMap ended = pre.flatten ++ ended last := by
      rw [hfields, List.flatMap_append, hpre, List.flatMap_singleton]
    have hoctets : octets = pre.flatten ++ last := by
      rw [← hflat, hfields, List.flatten_append, List.flatten_singleton]
    rw [hall]
    unfold ended
    split
    · exact Or.inl hoctets.symm
    · exact Or.inr (by rw [hoctets, List.append_assoc])

theorem length_flatMap_filter {α β : Type} (p : α → Bool) (f : α → List β) (xs : List α) :
    ((xs.filter fun x => p x != false).flatMap f).length +
      ((xs.filter fun x => p x != true).flatMap f).length = (xs.flatMap f).length := by
  induction xs with
  | nil => rfl
  | cons x xs ih =>
    cases hp : p x with
    | true =>
      simp only [List.filter_cons, hp, List.flatMap_cons, List.length_append] at ih ⊢
      simp only [bne_self_eq_false, Bool.false_eq_true, if_false]
      simp only [show (true != false) = true from rfl, if_true, List.flatMap_cons,
        List.length_append]
      omega
    | false =>
      simp only [List.filter_cons, hp, List.flatMap_cons, List.length_append] at ih ⊢
      simp only [bne_self_eq_false, Bool.false_eq_true, if_false]
      simp only [show (false != true) = true from rfl, if_true, List.flatMap_cons,
        List.length_append]
      omega

/-- The two outputs are as long as all fields, with the two blank lines. -/
theorem selected_length (fields : List Bytes) (names : List Octets) :
    (selected fields names false).length + (selected fields names true).length =
      (fields.flatMap ended).length + 4 := by
  unfold selected
  rw [← length_flatMap_filter (named names) ended fields, List.length_append, List.length_append]
  show _ + 2 + (_ + 2) = _
  omega

/-! ## The two outputs of a message -/

theorem ended_crlf {field : Bytes} (h : field.getLast? = some 13) :
    ended (field ++ [13, 10]) = ended field := by
  have hlast : (field ++ [13, 10]).getLast? = some 10 := by
    rw [List.getLast?_append]
    rfl
  have hnot : ¬ field.getLast? = some 10 := by
    rw [h]
    decide
  unfold ended
  rw [if_pos hlast, if_neg hnot]

theorem fieldName_crlf (field : Bytes) : fieldName (field ++ [13, 10]) = fieldName field := by
  have hstrip : ∀ octets : Bytes, strip (octets ++ [13, 10]) = strip octets := by
    intro octets
    unfold strip
    rw [List.dropWhile_append]
    split
    · next hnil =>
      rw [List.isEmpty_iff] at hnil
      rw [hnil]
      rfl
    · rw [List.reverse_append]
      rfl
  unfold fieldName
  congr 1
  rw [List.takeWhile_append]
  split
  · next hall =>
    rw [(List.takeWhile_prefix _).eq_of_length hall]
    exact hstrip field
  · rfl

/-- A CR that strays before the CRLF at the end is sent as it is. -/
theorem selected_stray (u : Bytes) (names : List Octets) (invert : Bool) :
    selected (fieldsOf ((u ++ [13]) ++ [13, 10])) names invert =
      selected (fieldsOf (u ++ [13])) names invert := by
  have hlast : (u ++ [13]).getLast? = some 13 := List.getLast?_concat
  obtain ⟨pre, last, hfields, hspan, hend⟩ :=
    @cut_append_span _ endsField _ [13, 10] [13, 10] [] 13 hlast rfl rfl
  rw [fieldsOf_cut, fieldsOf_cut, hfields, hspan]
  unfold selected
  rw [List.filter_append, List.filter_append]
  have hnamed : named names (last ++ [13, 10]) = named names last := by
    unfold named
    rw [fieldName_crlf]
  simp only [List.filter_cons, hnamed, List.filter_nil]
  split
  · rw [List.flatMap_append, List.flatMap_append, List.flatMap_singleton, List.flatMap_singleton,
      ended_crlf hend]
  · rfl

theorem calm_of_folded {octets : Bytes} (h : CrsFolded octets) (hstray : ¬ strayCr <:+: octets) :
    Calm octets := by
  intro u ch v hsplit
  rcases h u _ hsplit with hnil | hcrlf | ⟨ch', hch', hgood⟩
  · cases hnil
  · exact absurd ⟨u, [], by rw [hsplit, hcrlf, strayCr]; simp⟩ hstray
  · cases hch'
    exact hgood

/-- The fields that are read are sent as the fields, where every CR is before LF, a blank or
a tab, or at the end. -/
theorem selected_of_folded {octets : Bytes}
    (hplain : ∀ line ∈ wireLines octets, isEmptyLine line = false) (h : CrsFolded octets)
    (names : List Octets) (invert : Bool) :
    selected (join folds (readLines octets)) names invert =
      selected (fieldsOf octets) names invert := by
  rw [join_readLines]
  rcases readLines_cases hplain with hread | ⟨u, w, hread, hsplit⟩
  · rw [hread, (calm_of_folded h (not_stray_of_read hread)).cut]
  · have hw : w = [] := by
      have hcr : octets = u ++ 13 :: (13 :: 10 :: w) := by
        rw [hsplit]
        simp
      rcases h u _ hcr with hnil | hcrlf | ⟨ch, hch, hgood⟩
      · cases hnil
      · exact List.tail_eq_of_cons_eq (List.tail_eq_of_cons_eq hcrlf)
      · cases hch
        exact absurd hgood (by decide)
    rw [hw, List.append_nil] at hsplit
    have hcalm : Calm (u ++ [13]) := by
      intro u' ch v hcr
      have hwhole : octets = u' ++ 13 :: (ch :: (v ++ [13, 10])) := by
        rw [hsplit, hcr]
        simp
      rcases h u' _ hwhole with hnil | hcrlf | ⟨ch', hch', hgood⟩
      · cases hnil
      · have hlen := congrArg List.length hcrlf
        simp at hlen
      · cases hch'
        exact hgood
    rw [hread, hcalm.cut, ← selected_stray, ← hsplit]

/-- What every CR stands before, if the fields are sent as they should be. -/
theorem cr_of_selected {octets : Bytes} {names : List Octets}
    (h : ∀ invert, selected (join folds (readLines octets)) names invert =
      selected (fieldsOf octets) names invert) {u v : Bytes} (hsplit : octets = u ++ 13 :: v) :
    v = [] ∨ (∃ ch ∈ v.head?, ch = 10 ∨ folds ch = true) ∨ [13, 10] <+: v := by
  have htames : ∀ invert, Tame (selected (fieldsOf octets) names invert) := by
    intro invert
    rw [← h invert, join_readLines]
    exact tame_selected names invert
  have htame : Tame ((fieldsOf octets).flatMap ended) :=
    tame_flatMap fun _ hfield => tame_of_selected htames hfield
  rcases flatMap_ended octets with hall | hall
  · rw [hall] at htame
    exact Or.inr (htame u v hsplit)
  · rw [hall] at htame
    have hwhole : octets ++ [13, 10] = u ++ 13 :: (v ++ [13, 10]) := by
      rw [hsplit]
      simp
    rcases htame u _ hwhole with hch | hcrlf
    · cases v with
      | nil => exact Or.inl rfl
      | cons ch v => exact Or.inr (Or.inl hch)
    · cases v with
      | nil => exact Or.inl rfl
      | cons ch v =>
        obtain ⟨rest, hrest⟩ := hcrlf
        have hch : 13 = ch := List.head_eq_of_cons_eq hrest
        have htail : 10 :: rest = v ++ [13, 10] := List.tail_eq_of_cons_eq hrest
        cases v with
        | nil => cases htail
        | cons ch' v =>
          have hch' : 10 = ch' := List.head_eq_of_cons_eq htail
          rw [← hch, ← hch']
          exact Or.inr (Or.inr ⟨v, rfl⟩)

/-- If the fields are sent as they should be, only the last line has a CR that strays before
its CRLF. -/
theorem folded_of_selected {octets : Bytes}
    (hplain : ∀ line ∈ wireLines octets, isEmptyLine line = false) {names : List Octets}
    (h : ∀ invert, selected (join folds (readLines octets)) names invert =
      selected (fieldsOf octets) names invert) : CrsFolded octets := by
  intro u v hsplit
  rcases cr_of_selected h hsplit with hnil | hch | ⟨w, rfl⟩
  · exact Or.inl hnil
  · exact Or.inr (Or.inr hch)
  refine Or.inr (Or.inl ?_)
  rcases readLines_cases hplain with hread | ⟨u₀, w₀, hread, hsplit₀⟩
  · exact absurd ⟨u, w, by rw [hsplit, strayCr]; simp⟩ (not_stray_of_read hread)
  · have hcalm : Calm (u₀ ++ [13]) := by
      have hstray : ¬ strayCr <:+: u₀ ++ [13] := by
        rw [← hread]
        apply not_stray_of_read
        have hcut : physicalLines (readLines octets).flatten = readLines octets := by
          rw [physicalLines_cut]
          apply cut_flatten_of_append
          rw [← physicalLines_cut]
          exact List.takeWhile_append_dropWhile.symm
        have hagain : readLines (readLines octets).flatten = readLines octets := by
          rw [readLines, hcut]
          exact List.takeWhile_eq_self_iff.mpr fun line hline =>
            List.mem_takeWhile_imp (p := (!isEmptyLine ·)) hline
        rw [hagain]
      intro u' ch v' hcr
      have hwhole : octets = u' ++ 13 :: (ch :: (v' ++ ([13, 10] ++ w₀))) := by
        rw [hsplit₀, hcr]
        simp
      rcases cr_of_selected h hwhole with hnil | ⟨ch', hch', hgood⟩ | ⟨rest, hrest⟩
      · cases hnil
      · cases hch'
        exact hgood
      · have hch : 13 = ch := List.head_eq_of_cons_eq hrest
        have htail : 10 :: rest = v' ++ ([13, 10] ++ w₀) := List.tail_eq_of_cons_eq hrest
        cases v' with
        | nil => cases htail
        | cons ch' v' =>
          have hch' : 10 = ch' := List.head_eq_of_cons_eq htail
          exact absurd ⟨u', v', by rw [hcr, ← hch, ← hch', strayCr]; simp⟩ hstray
    have hfields : join folds (readLines octets) = fieldsOf (u₀ ++ [13]) := by
      rw [join_readLines, hread, hcalm.cut]
    have hlen : ((fieldsOf (u₀ ++ [13])).flatMap ended).length =
        ((fieldsOf octets).flatMap ended).length := by
      have hboth := selected_length (fieldsOf octets) names
      rw [← h false, ← h true, hfields, selected_length] at hboth
      omega
    have hw₀ : w₀ = [] := by
      apply List.eq_nil_of_length_eq_zero
      have htotal := congrArg List.length hsplit₀
      simp only [List.length_append, List.length_cons, List.length_nil] at htotal
      rcases flatMap_ended (u₀ ++ [13]) with hk | hk <;> rcases flatMap_ended octets with hf | hf <;>
        rw [hk, hf] at hlen <;>
        simp only [List.length_append, List.length_cons, List.length_nil] at hlen <;> omega
    rw [hw₀, List.append_nil, hsplit] at hsplit₀
    -- Were there more behind the CRLF, the two CRs would be among what is read.
    rcases List.eq_nil_or_concat' w with rfl | ⟨w, last, rfl⟩
    · rfl
    · have hlast : u ++ 13 :: (13 :: 10 :: w) = u₀ ++ [13] ++ [13] := by
        have heq : (u ++ 13 :: (13 :: 10 :: w)) ++ [last] = (u₀ ++ [13] ++ [13]) ++ [10] := by
          simpa using hsplit₀
        exact (List.append_inj' heq rfl).1
      rcases List.eq_nil_or_concat' w with rfl | ⟨w, last', rfl⟩
      · have hend := congrArg List.getLast? hlast
        rw [List.getLast?_concat, List.getLast?_append] at hend
        cases hend
      · have hinside : u₀ ++ [13] = u ++ 13 :: 13 :: (10 :: w) := by
          have heq : (u₀ ++ [13]) ++ [13] = (u ++ 13 :: 13 :: (10 :: w)) ++ [last'] := by
            rw [← hlast]
            simp
          exact (List.append_inj' heq rfl).1
        exact absurd (hcalm u 13 (10 :: w) hinside) (by decide)

/-- The two outputs are what they should be just when every CR among the fields stands
before LF, a blank or a tab, or at the end. -/
theorem complements_iff (raw : Bytes) (names : List Octets) :
    Complements raw names ↔ CrsFolded (fieldBytes raw) := by
  rw [complements_selected]
  exact ⟨folded_of_selected (fieldBytes_plain raw),
    fun h => selected_of_folded (fieldBytes_plain raw) h names⟩

/-- What stands behind a bare CR is sent as a field. -/
theorem forged_field :
    sectionBytes (ascii "Subject: a\rTo: b\r\n\r\n") (bodyOf .headerFields [ascii "TO"]) =
        ascii "To: b\r\n\r\n" ∧
      ¬ Complements (ascii "Subject: a\rTo: b\r\n\r\n") [ascii "TO"] := by
  refine ⟨by decide +kernel, fun h => ?_⟩
  have hnone : selected (fieldsOf (fieldBytes (ascii "Subject: a\rTo: b\r\n\r\n"))) [ascii "TO"]
      false = ascii "\r\n" := by decide +kernel
  have hsent : sectionBytes (ascii "Subject: a\rTo: b\r\n\r\n")
      (bodyOf .headerFields [ascii "TO"]) = ascii "To: b\r\n\r\n" := by decide +kernel
  have hfields := h.fields
  rw [hnone, hsent] at hfields
  exact absurd hfields (by decide +kernel)

end Imap
end ImapGateway
