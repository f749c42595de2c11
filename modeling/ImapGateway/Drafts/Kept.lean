/-
What the flattener keeps of the text of a document.

Data is to be kept from the start of the body on, or throughout in a document without a
head, and outside of scripts, styles, titles and templates.  It is kept where the tags
before it close what they open; whether they do is seen on every stretch of them that ends
there.
-/
import ImapGateway.Drafts.HtmlToText
import Mathlib.Algebra.Order.BigOperators.Group.List
import Mathlib.Algebra.Order.Group.Nat
import Mathlib.Algebra.GroupWithZero.Nat

namespace ImapGateway
namespace Drafts

/-! ## What is to be kept -/

/-- The elements whose data is not text of the document. -/
def hiddenTags : List String := ["script", "style", "title", "template"]

/-- The hidden elements that are open, and whether the body has started. -/
structure Place where
  hidden : List String := []
  body : Bool := false

namespace Place

def opened (p : Place) (tag : String) : Place :=
  if tag ∈ hiddenTags then { p with hidden := tag :: p.hidden }
  else if tag = "body" ∧ p.hidden = [] then { p with body := true }
  else p

def closed (p : Place) (tag : String) : Place := { p with hidden := p.hidden.erase tag }

def step (p : Place) : Event → Place
  | .startTag tag _ => p.opened tag
  | .startEndTag tag _ => (p.opened tag).closed tag
  | .endTag tag => p.closed tag
  | .data _ => p

/-- Data here is text of the document. -/
def shows (p : Place) (headless : Bool) : Bool := p.hidden.isEmpty && (p.body || headless)

end Place

def Event.isHead : Event → Bool
  | .startTag tag _ | .startEndTag tag _ => decide (tag = "head")
  | _ => false

/-- A document without a head. -/
def headless (events : List Event) : Bool := !events.any Event.isHead

/-- The characters that are no white space. -/
def solid (text : List Char) : List Char := text.filter (!isSpace ·)

def shownFrom (bare : Bool) (p : Place) : List Event → List Char
  | [] => []
  | .data text :: rest => (if p.shows bare then solid text else []) ++ shownFrom bare p rest
  | event :: rest => shownFrom bare (p.step event) rest

/-- The text of a document, without white space. -/
def shown (events : List Event) : List Char := shownFrom (headless events) {} events

def placeAfter (events : List Event) : Place := events.foldl Place.step {}

/-- The same tags, whatever the data. -/
def Event.tag : Event → Event
  | .data _ => .data []
  | event => event

/-- The text of the document is in what the flattener makes of it, in order, whatever the
data says. -/
def Keeps (lower : List Char → List Char) (events : List Event) : Prop :=
  ∀ others : List Event, others.map Event.tag = events.map Event.tag →
    (shown others).Sublist (htmlToText lower others)

def Event.opens : Event → Nat
  | .startTag tag _ | .startEndTag tag _ => if tag ∈ skipTags then 1 else 0
  | _ => 0

def Event.closes : Event → Nat
  | .startEndTag tag _ | .endTag tag => if tag ∈ skipTags then 1 else 0
  | _ => 0

/-- No stretch of tags that ends here opens more skipped elements than it closes. -/
def Balanced (events : List Event) : Prop :=
  ∀ stretch : List Event, stretch <:+ events →
    (stretch.map Event.opens).sum ≤ (stretch.map Event.closes).sum

/-- The tags before all data that is to be kept are balanced. -/
def BalancedBeforeText (events : List Event) : Prop :=
  ∀ before text behind, events = before ++ .data text :: behind →
    (placeAfter before).shows (headless events) = true → Balanced before

/-! ## White space -/

theorem solid_append (xs ys : List Char) : solid (xs ++ ys) = solid xs ++ solid ys :=
  List.filter_append ..

theorem solid_space {c : Char} (h : isSpace c = true) (xs : List Char) :
    solid (c :: xs) = solid xs := List.filter_cons_of_neg (by simp [h])

theorem solid_cons {c : Char} (h : isSpace c = false) (xs : List Char) :
    solid (c :: xs) = c :: solid xs := List.filter_cons_of_pos (by simp [h])

theorem solid_dropWhile {p : Char → Bool} (hp : ∀ c, p c = true → isSpace c = true)
    (xs : List Char) : solid (xs.dropWhile p) = solid xs := by
  induction xs with
  | nil => rfl
  | cons c xs ih =>
    cases h : p c with
    | true => rw [List.dropWhile_cons_of_pos h, ih, solid_space (hp c h)]
    | false => rw [List.dropWhile_cons_of_neg (by rw [h]; exact Bool.false_ne_true)]

theorem solid_reverse (xs : List Char) : solid xs.reverse = (solid xs).reverse :=
  List.filter_reverse

theorem solid_rstrip (xs : List Char) : solid (HtmlToText.rstrip xs) = solid xs := by
  rw [HtmlToText.rstrip, solid_reverse, solid_dropWhile fun _ h => h, solid_reverse,
    List.reverse_reverse]

theorem isSpace_lineEnd {c : Char} (h : decide (c = '\n') = true) : isSpace c = true := by
  rw [of_decide_eq_true h]
  decide

theorem solid_stripEnds (xs : List Char) : solid (HtmlToText.stripEnds xs) = solid xs := by
  rw [HtmlToText.stripEnds, solid_reverse, solid_dropWhile fun _ h => isSpace_lineEnd h,
    solid_reverse, List.reverse_reverse, solid_dropWhile fun _ h => isSpace_lineEnd h]

theorem solid_squeeze (ends : Nat) (xs : List Char) :
    solid (HtmlToText.squeeze ends xs) = solid xs := by
  have hend : isSpace '\n' = true := by decide
  fun_induction HtmlToText.squeeze ends xs with
  | case1 => rfl
  | case2 ends rest _ ih => rw [solid_space hend, solid_space hend, ih]
  | case3 ends rest _ ih => rw [solid_space hend, ih]
  | case4 ends c rest _ ih =>
    unfold solid at ih ⊢
    rw [List.filter_cons, List.filter_cons, ih]

theorem solid_collapse (inRun : Bool) (xs : List Char) :
    solid (HtmlToText.collapse inRun xs) = solid xs := by
  have hblank : isSpace ' ' = true := by decide
  fun_induction HtmlToText.collapse inRun xs with
  | case1 => rfl
  | case2 c rest hspace ih => rw [solid_space hspace, ih]
  | case3 inRun c rest hspace hrun ih => rw [solid_space hspace, solid_space hblank, ih]
  | case4 inRun c rest hsolid ih =>
    rw [solid_cons (eq_false_of_ne_true hsolid), solid_cons (eq_false_of_ne_true hsolid), ih]

theorem solid_intercalate (ls : List (List Char)) :
    solid (['\n'].intercalate ls) = (ls.map solid).flatten := by
  have hend : isSpace '\n' = true := by decide
  induction ls with
  | nil => rfl
  | cons l ls ih =>
    cases ls with
    | nil => rw [List.intercalate_singleton, List.map_singleton, List.flatten_singleton]
    | cons l' ls =>
      rw [List.intercalate_cons_cons, solid_append, solid_append, ih, solid_space hend]
      simp [solid]

/-- The text is what was written, but for white space. -/
theorem solid_text (s : HtmlToText) : solid s.text = solid s.out.flatten := by
  have hlines : solid (['\n'].intercalate ((s.out.flatten.splitOn '\n').map HtmlToText.rstrip)) =
      solid s.out.flatten := by
    rw [solid_intercalate, List.map_map]
    have hstrip : (solid ∘ HtmlToText.rstrip) = solid := funext solid_rstrip
    rw [hstrip, ← solid_intercalate, List.intercalate_splitOn]
  unfold HtmlToText.text
  have hwhole : solid (HtmlToText.stripEnds (HtmlToText.squeeze 0
      (['\n'].intercalate ((s.out.flatten.splitOn '\n').map HtmlToText.rstrip)))) =
        solid s.out.flatten := by
    rw [solid_stripEnds, solid_squeeze, hlines]
  dsimp only
  split
  · next hnil => rw [← hwhole, hnil]
  · rw [solid_append, hwhole]
    exact List.append_nil _

theorem solid_nbsp (text : List Char) :
    solid (text.map fun c => if c = Char.ofNat 0xA0 then ' ' else c) = solid text := by
  induction text with
  | nil => rfl
  | cons c text ih =>
    rw [List.map_cons]
    by_cases h : c = Char.ofNat 0xA0
    · rw [if_pos h, solid_space (by decide), ih, h, solid_space (by decide)]
    · rw [if_neg h]
      unfold solid at ih ⊢
      rw [List.filter_cons, List.filter_cons, ih]

/-! ## What one event writes -/

variable {lower : List Char → List Char}

theorem handleStarttag_out (s : HtmlToText) (tag : String)
    (attrs : List (String × Option (List Char))) :
    ∃ pieces, (s.handleStarttag tag attrs).out = s.out ++ pieces := by
  have hsame : ∃ pieces, s.out = s.out ++ pieces := ⟨[], (List.append_nil _).symm⟩
  unfold HtmlToText.handleStarttag
  by_cases hskip : tag ∈ skipTags
  · rw [if_pos hskip]
    exact hsame
  rw [if_neg hskip]
  by_cases hnested : s.skip ≠ 0
  · rw [if_pos hnested]
    exact hsame
  rw [if_neg hnested]
  by_cases hbreak : tag = "br"
  · rw [if_pos hbreak]
    exact ⟨_, rfl⟩
  rw [if_neg hbreak]
  by_cases hpre : tag = "pre"
  · rw [if_pos hpre]
    exact ⟨_, rfl⟩
  rw [if_neg hpre]
  by_cases hparagraph : tag ∈ paragraphTags
  · rw [if_pos hparagraph]
    exact ⟨_, rfl⟩
  rw [if_neg hparagraph]
  by_cases hblock : tag ∈ blockTags
  · rw [if_pos hblock]
    dsimp only
    split
    · exact ⟨_, List.append_assoc ..⟩
    · exact ⟨_, rfl⟩
  rw [if_neg hblock]
  by_cases hlink : tag = "a"
  · rw [if_pos hlink]
    exact hsame
  rw [if_neg hlink]
  by_cases himage : tag = "img"
  · rw [if_pos himage]
    split
    · split
      · exact hsame
      · exact ⟨_, rfl⟩
    · exact hsame
  rw [if_neg himage]
  exact hsame

theorem handleEndtag_out (s : HtmlToText) (tag : String) :
    ∃ pieces, (s.handleEndtag lower tag).out = s.out ++ pieces := by
  have hsame : ∃ pieces, s.out = s.out ++ pieces := ⟨[], (List.append_nil _).symm⟩
  unfold HtmlToText.handleEndtag
  split
  · exact hsame
  split
  · exact hsame
  split
  · exact ⟨_, rfl⟩
  split
  · exact ⟨_, rfl⟩
  split
  · exact ⟨_, rfl⟩
  split
  · dsimp only
    split
    · exact hsame
    · split
      · exact hsame
      · exact ⟨_, rfl⟩
  · exact hsame

theorem append_out (s : HtmlToText) (text : List Char) : (s.append text).out = s.out ++ [text] := by
  unfold HtmlToText.append
  dsimp only
  split <;> rfl

/-- Data is written where nothing is skipped. -/
theorem handleData_out (s : HtmlToText) (text : List Char) :
    ∃ pieces, (s.handleData text).out = s.out ++ pieces ∧
      (s.skip = 0 → solid pieces.flatten = solid text) := by
  unfold HtmlToText.handleData
  split
  · next hskip => exact ⟨[], (List.append_nil _).symm, fun h => absurd h hskip⟩
  split
  · exact ⟨[text], append_out s text, fun _ => by rw [List.flatten_singleton]⟩
  · dsimp only
    generalize hdata : (if s.atLineStart then _ else _ : List Char) = data
    have hsolid : solid data = solid text := by
      rw [← hdata]
      split
      · rw [solid_dropWhile, solid_collapse, solid_nbsp]
        intro c hc
        rw [of_decide_eq_true hc]
        decide
      · rw [solid_collapse, solid_nbsp]
    split
    · next hnil =>
      exact ⟨[], (List.append_nil _).symm, fun _ => by rw [← hsolid, hnil]; rfl⟩
    · exact ⟨[data], append_out s data, fun _ => by rw [List.flatten_singleton, hsolid]⟩

theorem step_out (s : HtmlToText) (event : Event) :
    ∃ pieces, (s.step lower event).out = s.out ++ pieces ∧
      ∀ text, event = .data text → s.skip = 0 → solid pieces.flatten = solid text := by
  cases event with
  | startTag tag attrs =>
    obtain ⟨pieces, h⟩ := handleStarttag_out s tag attrs
    exact ⟨pieces, h, nofun⟩
  | startEndTag tag attrs =>
    obtain ⟨pieces, h⟩ := handleStarttag_out s tag attrs
    show ∃ pieces, (s.handleStartendtag lower tag attrs).out = _ ∧ _
    unfold HtmlToText.handleStartendtag
    dsimp only
    split
    · exact ⟨pieces, h, nofun⟩
    · obtain ⟨more, h'⟩ : ∃ more, ((s.handleStarttag tag attrs).handleEndtag lower tag).out =
          (s.handleStarttag tag attrs).out ++ more := handleEndtag_out _ _
      exact ⟨pieces ++ more, by rw [h', h, List.append_assoc], nofun⟩
  | endTag tag =>
    obtain ⟨pieces, h⟩ : ∃ pieces, (s.handleEndtag lower tag).out = s.out ++ pieces :=
      handleEndtag_out s tag
    exact ⟨pieces, h, nofun⟩
  | data text =>
    obtain ⟨pieces, h, hsolid⟩ := handleData_out s text
    refine ⟨pieces, h, fun text' heq => ?_⟩
    cases heq
    exact hsolid

/-! ## What is skipped -/

theorem handleStarttag_skip (s : HtmlToText) (tag : String)
    (attrs : List (String × Option (List Char))) :
    (s.handleStarttag tag attrs).skip = s.skip + if tag ∈ skipTags then 1 else 0 := by
  unfold HtmlToText.handleStarttag
  by_cases hskip : tag ∈ skipTags
  · rw [if_pos hskip, if_pos hskip]
  rw [if_neg hskip, if_neg hskip]
  by_cases hnested : s.skip ≠ 0
  · rw [if_pos hnested]
    rfl
  rw [if_neg hnested]
  by_cases hbreak : tag = "br"
  · rw [if_pos hbreak]
    rfl
  rw [if_neg hbreak]
  by_cases hpre : tag = "pre"
  · rw [if_pos hpre]
    rfl
  rw [if_neg hpre]
  by_cases hparagraph : tag ∈ paragraphTags
  · rw [if_pos hparagraph]
    rfl
  rw [if_neg hparagraph]
  by_cases hblock : tag ∈ blockTags
  · rw [if_pos hblock]
    dsimp only
    split <;> rfl
  rw [if_neg hblock]
  by_cases hlink : tag = "a"
  · rw [if_pos hlink]
    rfl
  rw [if_neg hlink]
  by_cases himage : tag = "img"
  · rw [if_pos himage]
    split
    · split <;> rfl
    · rfl
  rw [if_neg himage]
  rfl

theorem handleEndtag_skip (s : HtmlToText) (tag : String) :
    (s.handleEndtag lower tag).skip = s.skip - if tag ∈ skipTags then 1 else 0 := by
  unfold HtmlToText.handleEndtag
  by_cases h : tag ∈ skipTags
  · rw [if_pos h, if_pos h]
  · rw [if_neg h, if_neg h]
    dsimp only
    repeat' split
    all_goals rfl

theorem handleData_skip (s : HtmlToText) (text : List Char) :
    (s.handleData text).skip = s.skip := by
  have happend : ∀ text, (s.append text).skip = s.skip := by
    intro text
    unfold HtmlToText.append
    dsimp only
    split <;> rfl
  unfold HtmlToText.handleData
  split
  · rfl
  split
  · exact happend text
  · dsimp only
    generalize (if s.atLineStart then _ else _ : List Char) = data
    split
    · rfl
    · exact happend data

theorem step_skip (s : HtmlToText) (event : Event) :
    (s.step lower event).skip = s.skip + event.opens - event.closes := by
  cases event with
  | startTag tag attrs => exact handleStarttag_skip s tag attrs
  | startEndTag tag attrs =>
    show (s.handleStartendtag lower tag attrs).skip = _
    unfold HtmlToText.handleStartendtag
    dsimp only
    split
    · next hvoid =>
      have hplain : tag ∉ skipTags := by
        intro hmem
        have hapart : ∀ t ∈ ["br", "img", "hr"], t ∉ skipTags := by decide
        exact hapart tag hvoid hmem
      rw [handleStarttag_skip]
      simp only [Event.opens, Event.closes, hplain, if_false]
      rfl
    · rw [handleEndtag_skip, handleStarttag_skip]
      rfl
  | endTag tag => exact handleEndtag_skip s tag
  | data text => exact handleData_skip s text

theorem foldl_skip (events : List Event) (s : HtmlToText) :
    (events.foldl (HtmlToText.step lower) s).skip =
      events.foldl (fun k e => k + e.opens - e.closes) s.skip := by
  induction events generalizing s with
  | nil => rfl
  | cons e events ih => rw [List.foldl_cons, List.foldl_cons, ih, step_skip]

/-- What is counted as open is the most that a stretch at the end opens beyond what it
closes. -/
theorem skip_le_iff (events : List Event) (k : Nat) :
    events.foldl (fun k e => k + e.opens - e.closes) 0 ≤ k ↔
      ∀ stretch : List Event, stretch <:+ events →
        (stretch.map Event.opens).sum ≤ (stretch.map Event.closes).sum + k := by
  induction events using List.reverseRecOn generalizing k with
  | nil =>
    constructor
    · intro _ stretch hstretch
      rw [List.suffix_nil.mp hstretch]
      exact Nat.zero_le _
    · exact fun _ => Nat.zero_le k
  | append_singleton events e ih =>
    rw [List.foldl_append, List.foldl_cons, List.foldl_nil]
    generalize hskip : events.foldl (fun k e => k + e.opens - e.closes) 0 = skip at ih
    have hsuffix : (∀ stretch : List Event, stretch <:+ events ++ [e] →
          (stretch.map Event.opens).sum ≤ (stretch.map Event.closes).sum + k) ↔
        ∀ stretch : List Event, stretch <:+ events →
          (stretch.map Event.opens).sum + e.opens ≤
            (stretch.map Event.closes).sum + e.closes + k := by
      constructor
      · intro h stretch hstretch
        have hmore := h (stretch ++ [e])
          (List.suffix_concat_iff.mpr (Or.inr ⟨stretch, rfl, hstretch⟩))
        simpa using hmore
      · intro h stretch hstretch
        rcases List.suffix_concat_iff.mp hstretch with rfl | ⟨rest, rfl, hrest⟩
        · exact Nat.zero_le _
        · have hless := h rest hrest
          simpa using hless
    rw [hsuffix]
    by_cases hroom : e.opens ≤ e.closes + k
    · have hle := ih (e.closes + k - e.opens)
      constructor
      · intro h stretch hstretch
        have hmore := hle.mp (by omega) stretch hstretch
        omega
      · intro h
        have hless := hle.mpr fun stretch hstretch => by
          have hmore := h stretch hstretch
          omega
        omega
    · constructor
      · intro h
        omega
      · intro h
        have hmore := h [] List.nil_suffix
        simp only [List.map_nil, List.sum_nil] at hmore
        omega

theorem balanced_iff (lower : List Char → List Char) (events : List Event) :
    Balanced events ↔ (events.foldl (HtmlToText.step lower) {}).skip = 0 := by
  rw [foldl_skip, ← Nat.le_zero, skip_le_iff]
  rfl

/-! ## What is kept -/

/-- From a point on, what is to be kept is written where the tags before it are balanced. -/
theorem shownFrom_sublist {bare : Bool} {before rest : List Event} {p : Place} {s : HtmlToText}
    (hp : placeAfter before = p) (hs : before.foldl (HtmlToText.step lower) {} = s)
    (hbalanced : ∀ mid text behind, rest = mid ++ .data text :: behind →
      (placeAfter (before ++ mid)).shows bare = true → Balanced (before ++ mid)) :
    ∃ pieces, (rest.foldl (HtmlToText.step lower) s).out = s.out ++ pieces ∧
      (shownFrom bare p rest).Sublist (solid pieces.flatten) := by
  induction rest generalizing before p s with
  | nil => exact ⟨[], (List.append_nil _).symm, List.Sublist.refl _⟩
  | cons event rest ih =>
    have hp' : placeAfter (before ++ [event]) = p.step event := by
      rw [placeAfter, List.foldl_append, ← hp]
      rfl
    have hs' : (before ++ [event]).foldl (HtmlToText.step lower) {} = s.step lower event := by
      rw [List.foldl_append, hs]
      rfl
    obtain ⟨more, hmore, hsub⟩ := ih hp' hs' fun mid text behind hrest => by
      rw [List.append_assoc]
      exact hbalanced (event :: mid) text behind (by rw [hrest]; rfl)
    obtain ⟨pieces, hpieces, hdata⟩ := @step_out lower s event
    refine ⟨pieces ++ more, ?_, ?_⟩
    · rw [List.foldl_cons, hmore, hpieces, List.append_assoc]
    · rw [List.flatten_append, solid_append]
      cases event with
      | data text =>
        rw [shownFrom]
        apply List.Sublist.append _ hsub
        split
        · next hshows =>
          have hnow := hbalanced [] text rest rfl
          rw [List.append_nil, hp] at hnow
          have hskip := (balanced_iff lower before).mp (hnow hshows)
          rw [hs] at hskip
          rw [hdata text rfl hskip]
        · exact List.nil_sublist _
      | startTag tag attrs => exact List.sublist_append_of_sublist_right hsub
      | startEndTag tag attrs => exact List.sublist_append_of_sublist_right hsub
      | endTag tag => exact List.sublist_append_of_sublist_right hsub

theorem shown_sublist {events : List Event} (h : BalancedBeforeText events) :
    (shown events).Sublist (htmlToText lower events) := by
  obtain ⟨pieces, hout, hsub⟩ :=
    @shownFrom_sublist lower (headless events) [] events {} {} rfl rfl h
  have hsolid : solid (htmlToText lower events) = solid pieces.flatten := by
    rw [htmlToText, solid_text, hout]
    rfl
  exact hsub.trans (hsolid ▸ List.filter_sublist)

/-! ## What is lost -/

/-- How often a letter is written in attributes. -/
def Event.mark : Event → Nat
  | .startTag _ attrs | .startEndTag _ attrs =>
    (attrs.map fun a => (a.2.getD []).count 'x').sum
  | _ => 0

/-- How often it is written, or in the target that waits for the end of its link. -/
def HtmlToText.marks (s : HtmlToText) : Nat :=
  s.out.flatten.count 'x' + (s.href.getD []).count 'x'

theorem attr_count {attrs : List (String × Option (List Char))} {name : String} {value : List Char}
    (h : HtmlToText.attr attrs name = some value) :
    value.count 'x' ≤ (attrs.map fun a => (a.2.getD []).count 'x').sum := by
  obtain ⟨v, hlookup, rfl⟩ : ∃ v, attrs.reverse.lookup name = some v ∧ v = some value := by
    unfold HtmlToText.attr at h
    cases hv : attrs.reverse.lookup name with
    | none =>
      rw [hv] at h
      cases h
    | some v =>
      rw [hv] at h
      exact ⟨v, rfl, h⟩
  have hmem : (name, some value) ∈ attrs := by
    obtain ⟨l, l', heq, -⟩ := List.lookup_eq_some_iff.mp hlookup
    rw [← List.mem_reverse, heq]
    exact List.mem_append_right _ List.mem_cons_self
  have hcount : (((some value : Option (List Char)).getD []).count 'x') ∈
      attrs.map fun a => (a.2.getD []).count 'x' :=
    List.mem_map.mpr ⟨_, hmem, rfl⟩
  exact List.single_le_sum (fun _ _ => Nat.zero_le _) _ hcount

theorem emit_marks (s : HtmlToText) (piece : List Char) :
    (s.emit piece).marks = s.marks + piece.count 'x' := by
  unfold HtmlToText.marks HtmlToText.emit
  simp only [List.flatten_append, List.flatten_singleton, List.count_append]
  omega

theorem handleStarttag_marks (s : HtmlToText) (tag : String)
    (attrs : List (String × Option (List Char))) :
    (s.handleStarttag tag attrs).marks ≤
      s.marks + (attrs.map fun a => (a.2.getD []).count 'x').sum := by
  unfold HtmlToText.handleStarttag
  by_cases hskip : tag ∈ skipTags
  · rw [if_pos hskip]
    exact Nat.le_add_right _ _
  rw [if_neg hskip]
  by_cases hnested : s.skip ≠ 0
  · rw [if_pos hnested]
    exact Nat.le_add_right _ _
  rw [if_neg hnested]
  by_cases hbreak : tag = "br"
  · rw [if_pos hbreak]
    rw [emit_marks]
    exact Nat.le_add_right _ _
  rw [if_neg hbreak]
  by_cases hpre : tag = "pre"
  · rw [if_pos hpre]
    rw [emit_marks]
    exact Nat.le_add_right _ _
  rw [if_neg hpre]
  by_cases hparagraph : tag ∈ paragraphTags
  · rw [if_pos hparagraph]
    rw [emit_marks]
    exact Nat.le_add_right _ _
  rw [if_neg hparagraph]
  by_cases hblock : tag ∈ blockTags
  · rw [if_pos hblock]
    dsimp only
    split
    · rw [emit_marks, emit_marks]
      exact Nat.le_add_right _ _
    · rw [emit_marks]
      exact Nat.le_add_right _ _
  rw [if_neg hblock]
  by_cases hlink : tag = "a"
  · rw [if_pos hlink]
    unfold HtmlToText.marks
    dsimp only
    cases hattr : HtmlToText.attr attrs "href" with
    | none =>
      show _ + 0 ≤ _
      omega
    | some href =>
      have hle := attr_count hattr
      by_cases hnil : href = []
      · simp only [hnil, if_true, Option.getD_none, List.count_nil]
        omega
      · have hstrip : (HtmlToText.rstrip (HtmlToText.lstrip href)).count 'x' ≤ href.count 'x' := by
          rw [HtmlToText.rstrip, List.count_reverse]
          apply ((List.dropWhile_sublist _).count_le _).trans
          rw [List.count_reverse]
          exact (List.dropWhile_sublist _).count_le _
        simp only [hnil, if_false, Option.getD_some]
        omega
  rw [if_neg hlink]
  by_cases himage : tag = "img"
  · rw [if_pos himage]
    split
    · next alt hattr =>
      have hle := attr_count hattr
      split
      · exact Nat.le_add_right _ _
      · rw [emit_marks]
        omega
    · exact Nat.le_add_right _ _
  rw [if_neg himage]
  exact Nat.le_add_right _ _

theorem target_count {href text t : List Char} (h : HtmlToText.target lower href text = some t) :
    t.count 'x' ≤ href.count 'x' := by
  unfold HtmlToText.target at h
  split at h
  · cases h
  · have hle : ∀ mailto : Prop, [Decidable mailto] →
        (if mailto then href.drop 7 else href).count 'x' ≤ href.count 'x' := by
      intro mailto _
      split
      · exact (List.drop_sublist _ _).count_le _
      · exact Nat.le_refl _
    dsimp only at h
    have hlink := hle (HtmlToText.startsWith lower href "mailto:" = true)
    generalize (if HtmlToText.startsWith lower href "mailto:" = true then href.drop 7 else href) =
      link at h hlink
    split at h
    · rwa [← Option.some.inj h]
    · cases h

theorem handleEndtag_marks (s : HtmlToText) (tag : String) :
    (s.handleEndtag lower tag).marks ≤ s.marks := by
  unfold HtmlToText.handleEndtag
  split
  · exact Nat.le_refl _
  split
  · exact Nat.le_refl _
  split
  · rw [emit_marks]
    exact Nat.le_refl _
  split
  · rw [emit_marks]
    exact Nat.le_refl _
  split
  · rw [emit_marks]
    exact Nat.le_refl _
  split
  · dsimp only
    have hnone : ({ s with href := none } : HtmlToText).marks ≤ s.marks := by
      unfold HtmlToText.marks
      exact Nat.add_le_add_left (Nat.zero_le _) _
    cases hhref : s.href with
    | none => exact hnone
    | some href =>
      dsimp only
      split
      · exact hnone
      · next t htarget =>
        have hle := target_count htarget
        rw [emit_marks]
        unfold HtmlToText.marks
        simp only [hhref, Option.getD_some, Option.getD_none, List.count_append, List.count_nil]
        have hplain : List.count 'x' [' ', '<'] = 0 ∧ List.count 'x' ['>'] = 0 := by decide
        omega
  · exact Nat.le_refl _

/-- Data is empty, or skipped. -/
theorem handleData_marks (s : HtmlToText) {text : List Char} (h : text = [] ∨ s.skip ≠ 0) :
    (s.handleData text).marks = s.marks := by
  unfold HtmlToText.handleData
  split
  · rfl
  · next hskip =>
    have hnil : text = [] := h.resolve_right hskip
    have happend : (s.append []).marks = s.marks := by
      unfold HtmlToText.append HtmlToText.emit HtmlToText.marks
      dsimp only
      split <;> simp
    rw [hnil]
    split
    · exact happend
    · show (if (if s.atLineStart = true then [] else []) = [] then s else _ : HtmlToText).marks = _
      rw [ite_self, if_pos rfl]

theorem step_marks (s : HtmlToText) {event : Event}
    (h : ∀ text, event = .data text → text = [] ∨ s.skip ≠ 0) :
    (s.step lower event).marks ≤ s.marks + event.mark := by
  cases event with
  | startTag tag attrs => exact handleStarttag_marks s tag attrs
  | startEndTag tag attrs =>
    show (s.handleStartendtag lower tag attrs).marks ≤ _
    unfold HtmlToText.handleStartendtag
    dsimp only
    split
    · exact handleStarttag_marks s tag attrs
    · exact (handleEndtag_marks _ _).trans (handleStarttag_marks s tag attrs)
  | endTag tag => exact handleEndtag_marks s tag
  | data text => exact (handleData_marks s (h text rfl)).le

theorem foldl_marks {events : List Event} (s : HtmlToText) (h : ∀ text, .data text ∈ events → text = []) :
    (events.foldl (HtmlToText.step lower) s).marks ≤ s.marks + (events.map Event.mark).sum := by
  induction events generalizing s with
  | nil => exact Nat.le_refl _
  | cons event events ih =>
    have hstep : (s.step lower event).marks ≤ s.marks + event.mark :=
      step_marks s fun text heq => Or.inl (h text (heq ▸ List.mem_cons_self))
    have hrest := ih (s.step lower event) fun text hmem => h text (List.mem_cons_of_mem _ hmem)
    rw [List.foldl_cons, List.map_cons, List.sum_cons]
    omega

/-! ### The same tags without data -/

theorem tag_tag (e : Event) : e.tag.tag = e.tag := by cases e <;> rfl

theorem tag_data {events : List Event} {text : List Char} (h : .data text ∈ events.map Event.tag) :
    text = [] := by
  obtain ⟨e, -, he⟩ := List.mem_map.mp h
  cases e with
  | data _ => exact (Event.data.inj he).symm
  | _ => cases he

theorem tag_place (p : Place) (e : Event) : p.step e.tag = p.step e := by cases e <;> rfl

theorem placeAfter_tag (events : List Event) :
    placeAfter (events.map Event.tag) = placeAfter events := by
  unfold placeAfter
  rw [List.foldl_map]
  congr 1
  funext p e
  exact tag_place p e

theorem headless_of_tags {events others : List Event}
    (h : others.map Event.tag = events.map Event.tag) : headless others = headless events := by
  have hany : ∀ es : List Event, (es.map Event.tag).any Event.isHead = es.any Event.isHead := by
    intro es
    rw [List.any_map]
    congr 1
    funext e
    cases e <;> rfl
  unfold headless
  rw [← hany others, h, hany]

theorem balanced_tag (events : List Event) :
    Balanced (events.map Event.tag) ↔ Balanced events := by
  rw [balanced_iff id, balanced_iff id, foldl_skip, foldl_skip,
    List.foldl_map]
  have hsame : (fun k e => k + (Event.tag e).opens - (Event.tag e).closes) =
      fun (k : Nat) (e : Event) => k + e.opens - e.closes := by
    funext k e
    cases e <;> rfl
  rw [hsame]

/-- Where there is no data before it, what is to be kept begins further on. -/
theorem shownFrom_tags (bare : Bool) (p : Place) {events : List Event} (rest : List Event)
    (h : ∀ text, .data text ∈ events → text = []) :
    shownFrom bare p (events ++ rest) = shownFrom bare (events.foldl Place.step p) rest := by
  induction events generalizing p with
  | nil => rfl
  | cons event events ih =>
    have htail := fun q => ih q fun text hmem => h text (List.mem_cons_of_mem _ hmem)
    cases event with
    | data text =>
      have hnil := h text List.mem_cons_self
      rw [List.cons_append, shownFrom, htail, hnil]
      split <;> rfl
    | startTag tag attrs => exact htail _
    | startEndTag tag attrs => exact htail _
    | endTag tag => exact htail _

/-- If tags before data that is to be kept are not balanced, some data there is lost. -/
theorem balanced_of_keeps {events : List Event} (h : Keeps lower events) :
    BalancedBeforeText events := by
  intro before text behind hsplit hshows
  by_contra hunbalanced
  let count := ((before ++ behind).map Event.mark).sum
  let word : List Char := List.replicate (count + 1) 'x'
  let others : List Event := before.map Event.tag ++ .data word :: behind.map Event.tag
  have htags : others.map Event.tag = events.map Event.tag := by
    have htagtag : Event.tag ∘ Event.tag = Event.tag := funext tag_tag
    rw [hsplit]
    simp only [others, List.map_append, List.map_cons, List.map_map, htagtag]
    rfl
  have hbefore : ∀ text, .data text ∈ before.map Event.tag → text = [] := fun _ => tag_data
  have hbehind : ∀ text, .data text ∈ behind.map Event.tag → text = [] := fun _ => tag_data
  have hshown : shown others = word := by
    have hend := shownFrom_tags (headless events) (placeAfter before) [] hbehind
    rw [List.append_nil] at hend
    unfold shown
    rw [headless_of_tags htags, shownFrom_tags _ _ _ hbefore]
    show shownFrom (headless events) (placeAfter (before.map Event.tag)) _ = _
    rw [placeAfter_tag, shownFrom, hshows, hend]
    simp [solid, word, shownFrom, isSpace]
  have hskip : ((before.map Event.tag).foldl (HtmlToText.step lower) {}).skip ≠ 0 := by
    intro hzero
    exact hunbalanced ((balanced_tag before).mp ((balanced_iff lower _).mpr hzero))
  have hmarks : (htmlToText lower others).count 'x' ≤ count := by
    have hmark : ∀ es : List Event, ((es.map Event.tag).map Event.mark).sum =
        (es.map Event.mark).sum := by
      intro es
      rw [List.map_map]
      congr 2
      funext e
      cases e <;> rfl
    have hfirst := @foldl_marks lower _ {} hbefore
    have hlast := @foldl_marks lower _
      (((before.map Event.tag).foldl (HtmlToText.step lower) {}).handleData word) hbehind
    rw [handleData_marks _ (Or.inr hskip)] at hlast
    rw [hmark] at hfirst hlast
    have hsolid : ∀ xs : List Char, (solid xs).count 'x' = xs.count 'x' := fun xs =>
      List.count_filter (by decide)
    have htext : (htmlToText lower others).count 'x' ≤ ((behind.map Event.tag).foldl
        (HtmlToText.step lower) (((before.map Event.tag).foldl
          (HtmlToText.step lower) {}).handleData word)).marks := by
      rw [htmlToText, ← hsolid, solid_text, hsolid, List.foldl_append]
      exact Nat.le_add_right _ _
    have hzero : ({} : HtmlToText).marks = 0 := rfl
    simp only [count, List.map_append, List.sum_append]
    omega
  have hkept := (h others htags).count_le 'x'
  rw [hshown, List.count_replicate_self] at hkept
  omega

theorem BalancedBeforeText.of_tags {events others : List Event} (h : BalancedBeforeText events)
    (htags : others.map Event.tag = events.map Event.tag) : BalancedBeforeText others := by
  intro before text behind hsplit hshows
  rw [hsplit, List.map_append, List.map_cons] at htags
  obtain ⟨before', rest, rfl, hbefore, hrest⟩ := List.map_eq_append_iff.mp htags.symm
  obtain ⟨e, behind', rfl, he, -⟩ := List.map_eq_cons_iff.mp hrest
  obtain ⟨text', rfl⟩ : ∃ text', e = .data text' := by
    cases e with
    | data text' => exact ⟨text', rfl⟩
    | _ => cases he
  have hsame : others.map Event.tag = (before' ++ .data text' :: behind').map Event.tag := by
    rw [← htags, hsplit, List.map_append, List.map_cons]
  rw [headless_of_tags hsame, ← placeAfter_tag, ← hbefore, placeAfter_tag] at hshows
  rw [← balanced_tag, ← hbefore, balanced_tag]
  exact h before' text' behind' rfl hshows

/-- The text of a document is kept, whatever it says, just when the tags before all of it
are balanced. -/
theorem keeps_iff_balanced (lower : List Char → List Char) (events : List Event) :
    Keeps lower events ↔ BalancedBeforeText events := by
  constructor
  · exact balanced_of_keeps
  · exact fun h others htags => shown_sublist (h.of_tags htags)

/-- `<head><body>hi`: an end tag that may be left out is left out, and so is the text. -/
theorem open_head_loses_body :
    shown [.startTag "head" [], .startTag "body" [], .data ['h', 'i']] = ['h', 'i'] ∧
      htmlToText id [.startTag "head" [], .startTag "body" [], .data ['h', 'i']] = [] ∧
      ¬ Keeps id [.startTag "head" [], .startTag "body" [], .data ['h', 'i']] := by
  have hshown : shown [.startTag "head" [], .startTag "body" [], .data ['h', 'i']] =
      ['h', 'i'] := by decide
  have htext : htmlToText id [.startTag "head" [], .startTag "body" [], .data ['h', 'i']] = [] := by
    decide
  refine ⟨hshown, htext, fun hkeeps => ?_⟩
  have hsub := hkeeps _ rfl
  rw [hshown, htext] at hsub
  exact absurd (List.sublist_nil.mp hsub) (List.cons_ne_nil _ _)

end Drafts
end ImapGateway
