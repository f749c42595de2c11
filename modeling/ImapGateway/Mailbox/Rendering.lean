/-
Rendering a draft.

A draft is written as a message whose headers hold the values upstream returned as they
are.  The `email` package takes a header value of one line only, so a draft with a line
break in one of them cannot be rendered, and neither can a mailbox that lists it.
-/
import ImapGateway.Mailbox.Mutate
import ImapGateway.Mailbox.Collecting

namespace ImapGateway
namespace Mailbox

open Async

/-! ## Lines -/

/-- The characters at which `str.splitlines` ends a line. -/
def isLineBreak (ch : Char) : Bool :=
  ch.toNat ∈ [0x0A, 0x0B, 0x0C, 0x0D, 0x1C, 0x1D, 0x1E, 0x85, 0x2028, 0x2029]

/-- `str.splitlines`, with `line` read of the line under way. -/
def splitFrom (line : List Char) : List Char → List (List Char)
  | [] => if line = [] then [] else [line]
  | '\r' :: '\n' :: rest => line :: splitFrom [] rest
  | ch :: rest =>
    if isLineBreak ch then line :: splitFrom [] rest else splitFrom (line ++ [ch]) rest

def splitlines (value : String) : List (List Char) := splitFrom [] value.toList

def SingleLine (value : String) : Prop := (splitlines value).length ≤ 1

instance (value : String) : Decidable (SingleLine value) :=
  inferInstanceAs (Decidable ((splitlines value).length ≤ 1))

theorem splitFrom_plain {chs : List Char} (h : ∀ ch ∈ chs, isLineBreak ch = false)
    (line : List Char) : (splitFrom line chs).length ≤ 1 := by
  induction chs generalizing line with
  | nil =>
    rw [splitFrom]
    split
    · exact Nat.zero_le _
    · exact Nat.le_refl _
  | cons ch chs ih =>
    have hch := h ch (List.mem_cons_self ..)
    have hcr : ch ≠ '\r' := by
      rintro rfl
      cases hch
    rw [splitFrom]
    · rw [if_neg (by rw [hch]; exact Bool.false_ne_true)]
      exact ih (fun c hc => h c (List.mem_cons_of_mem _ hc)) _
    · intro rest he
      exact absurd he hcr

theorem splitFrom_pos {line chs : List Char} (h : line ≠ [] ∨ chs ≠ []) :
    1 ≤ (splitFrom line chs).length := by
  fun_induction splitFrom line chs with
  | case1 => exact absurd rfl (h.resolve_right fun hne => hne rfl)
  | case2 line hne => exact Nat.le_refl _
  | case3 line rest ih =>
    rw [List.length_cons]
    omega
  | case4 line ch rest _ hbreak ih =>
    rw [List.length_cons]
    omega
  | case5 line ch rest _ hbreak ih => exact ih (.inl (List.append_ne_nil_of_right_ne_nil _ nofun))

/-- What stands before a character that is no break holds no break, if all is one line. -/
theorem plain_of_splitFrom {line chs cs : List Char} {last : Char}
    (hlast : isLineBreak last = false) (hcs : cs = chs ++ [last])
    (h : (splitFrom line cs).length ≤ 1) : ∀ ch ∈ chs, isLineBreak ch = false := by
  have hmore : ∀ {rest chs' : List Char}, rest = chs' ++ [last] →
      1 ≤ (splitFrom [] rest).length := by
    intro rest chs' hrest
    apply splitFrom_pos
    rw [hrest]
    exact .inr (List.append_ne_nil_of_right_ne_nil _ nofun)
  fun_induction splitFrom line cs generalizing chs with
  | case1 => exact absurd hcs.symm (List.append_ne_nil_of_right_ne_nil _ nofun)
  | case2 line hne => exact absurd hcs.symm (List.append_ne_nil_of_right_ne_nil _ nofun)
  | case3 line rest ih =>
    match chs, hcs with
    | [_], hcs =>
      obtain ⟨_, hcs⟩ := List.cons.inj hcs
      obtain ⟨rfl, _⟩ := List.cons.inj hcs
      cases hlast
    | _ :: _ :: chs, hcs =>
      obtain ⟨_, hcs⟩ := List.cons.inj hcs
      obtain ⟨_, hcs⟩ := List.cons.inj hcs
      have hpos := hmore hcs
      rw [List.length_cons] at h
      omega
  | case4 line ch rest _ hbreak ih =>
    match chs, hcs with
    | [], hcs =>
      obtain ⟨rfl, _⟩ := List.cons.inj hcs
      rw [hlast] at hbreak
      cases hbreak
    | _ :: chs, hcs =>
      obtain ⟨_, hcs⟩ := List.cons.inj hcs
      have hpos := hmore hcs
      rw [List.length_cons] at h
      omega
  | case5 line ch rest _ hbreak ih =>
    match chs, hcs with
    | [], _ => exact nofun
    | _ :: chs, hcs =>
      obtain ⟨rfl, hrest⟩ := List.cons.inj hcs
      intro c hc
      rcases List.mem_cons.mp hc with rfl | hc
      · exact eq_false_of_ne_true hbreak
      · exact ih hrest h c hc

/-- A part of a line that ends in a character is a line. -/
theorem SingleLine.part (a b c : String) {last : Char} (hlast : isLineBreak last = false)
    (h : SingleLine (a ++ b ++ (c ++ String.singleton last))) : SingleLine b := by
  apply splitFrom_plain
  have hcs : (a ++ b ++ (c ++ String.singleton last)).toList =
      (a.toList ++ b.toList ++ c.toList) ++ [last] := by
    simp only [String.toList_append, String.toList_singleton, List.append_assoc]
  intro ch hch
  apply plain_of_splitFrom hlast hcs h
  exact List.mem_append_left _ (List.mem_append_right _ hch)

/-! ## `render_draft` -/

/-- What rendering uses of the `email` package: how a timestamp of the API is written as a
date, and the octets of a message with these headers and this text. -/
structure EmailPackage where
  formatDatetime : String → String
  formatDatetime_line : ∀ timestamp, SingleLine (formatDatetime timestamp)
  asBytes : List (String × String) → String → Bytes

/-- `_as_list` -/
def asList (value : Option (List String)) : List String :=
  (value.getD []).filter fun v => decide (v ≠ "")

def joined (value : Option (List String)) : String := ", ".intercalate (asList value)

/-- The part of an address after its last `@`. -/
def domainOf (inboxId : String) : String :=
  let chs := inboxId.toList
  if '@' ∈ chs then String.ofList (chs.reverse.takeWhile (· ≠ '@')).reverse else "imapgw.local"

def messageIdOf (d : DraftJson) (inboxId : String) : String :=
  let id := if orEmpty d.draftId = "" then "draft" else orEmpty d.draftId
  "<" ++ id ++ "@" ++ domainOf inboxId ++ ">"

/-- A header that is set if there is something to put in it. -/
def optionalHeader (name value : String) (set : Bool) : List (String × String) :=
  if set then [(name, value)] else []

/-- The headers `render_draft` assigns, in its order. -/
def draftHeaders (email : EmailPackage) (d : DraftJson) (inboxId : String) :
    List (String × String) :=
  [("From", inboxId)] ++
    optionalHeader "To" (joined d.to_) (decide (asList d.to_ ≠ [])) ++
    optionalHeader "Cc" (joined d.cc) (decide (asList d.cc ≠ [])) ++
    optionalHeader "Bcc" (joined d.bcc) (decide (asList d.bcc ≠ [])) ++
    optionalHeader "Reply-To" (joined d.replyTo) (decide (asList d.replyTo ≠ [])) ++
    optionalHeader "Subject" (orEmpty d.subject) (decide (orEmpty d.subject ≠ "")) ++
    [("Date", email.formatDatetime (orEmpty (strOr d.createdAt d.updatedAt)))] ++
    [("Message-ID", messageIdOf d inboxId)] ++
    optionalHeader "X-AgentMail-Draft-Id" (orEmpty d.draftId) (decide (orEmpty d.draftId ≠ ""))

/-- `text.replace("\r\n", "\n").replace("\r", "\n")` -/
def normalizeText : List Char → List Char
  | [] => []
  | '\r' :: '\n' :: rest => '\n' :: normalizeText rest
  | ch :: rest => (if ch = '\r' then '\n' else ch) :: normalizeText rest

/-- `render_draft`: `none` when a header value is refused. -/
def EmailPackage.renderDraft (email : EmailPackage) (d : DraftJson) (inboxId : String) :
    Option Bytes :=
  let headers := draftHeaders email d inboxId
  if ∀ h ∈ headers, SingleLine h.2 then
    some (email.asBytes headers (String.ofList (normalizeText (orEmpty d.text).toList)))
  else none

/-- The values of a draft that come into its headers are single lines. -/
structure OneLine (d : DraftJson) (inboxId : String) : Prop where
  inbox : SingleLine inboxId
  to_ : SingleLine (joined d.to_)
  cc : SingleLine (joined d.cc)
  bcc : SingleLine (joined d.bcc)
  replyTo : SingleLine (joined d.replyTo)
  subject : SingleLine (orEmpty d.subject)
  messageId : SingleLine (messageIdOf d inboxId)

theorem singleLine_empty : SingleLine "" := by decide

theorem optionalHeader_line (name : String) {value : String} {set : Bool}
    (hempty : set = false → value = "") :
    (∀ h ∈ optionalHeader name value set, SingleLine h.2) ↔ SingleLine value := by
  cases set with
  | true =>
    constructor
    · intro h
      exact h (name, value) (List.mem_singleton_self _)
    · intro h x hx
      rw [List.mem_singleton.mp hx]
      exact h
  | false =>
    rw [hempty rfl]
    exact ⟨fun _ => singleLine_empty, fun _ _ hx => by cases hx⟩

theorem joined_of_unset (value : Option (List String))
    (h : decide (asList value ≠ []) = false) : joined value = "" := by
  rw [decide_eq_false_iff_not, not_not] at h
  rw [joined, h]
  rfl

/-- The draft id is part of the message id. -/
theorem OneLine.draftId {d : DraftJson} {inboxId : String} (h : OneLine d inboxId) :
    SingleLine (orEmpty d.draftId) := by
  by_cases hid : orEmpty d.draftId = ""
  · rw [hid]
    exact singleLine_empty
  · have hmessage := h.messageId
    rw [messageIdOf, if_neg hid, String.append_assoc, String.append_assoc] at hmessage
    have hpart : SingleLine ("<" ++ orEmpty d.draftId ++
        ("@" ++ domainOf inboxId ++ String.singleton '>')) := by
      rw [String.append_assoc, String.append_assoc]
      exact hmessage
    exact hpart.part _ _ _ rfl

/-- A draft can be rendered exactly if what comes into its headers is single lines. -/
theorem renderDraft_isSome (email : EmailPackage) (d : DraftJson) (inboxId : String) :
    (email.renderDraft d inboxId).isSome ↔ OneLine d inboxId := by
  have hto := optionalHeader_line "To" (joined_of_unset d.to_)
  have hcc := optionalHeader_line "Cc" (joined_of_unset d.cc)
  have hbcc := optionalHeader_line "Bcc" (joined_of_unset d.bcc)
  have hreply := optionalHeader_line "Reply-To" (joined_of_unset d.replyTo)
  have hunset : ∀ v : String, decide (v ≠ "") = false → v = "" := by
    intro v hv
    exact not_not.mp (of_decide_eq_false hv)
  have hsubject := optionalHeader_line "Subject" (hunset (orEmpty d.subject))
  have hid := optionalHeader_line "X-AgentMail-Draft-Id" (hunset (orEmpty d.draftId))
  have hdate := email.formatDatetime_line (orEmpty (strOr d.createdAt d.updatedAt))
  have hall : (∀ h ∈ draftHeaders email d inboxId, SingleLine h.2) ↔ OneLine d inboxId := by
    simp only [draftHeaders, List.forall_mem_append, List.forall_mem_singleton, hto, hcc, hbcc,
      hreply, hsubject, hid]
    constructor
    · rintro ⟨⟨⟨⟨⟨⟨⟨⟨hfrom, hto⟩, hcc⟩, hbcc⟩, hreply⟩, hsubject⟩, _⟩, hmessage⟩, _⟩
      exact ⟨hfrom, hto, hcc, hbcc, hreply, hsubject, hmessage⟩
    · intro h
      exact ⟨⟨⟨⟨⟨⟨⟨⟨h.inbox, h.to_⟩, h.cc⟩, h.bcc⟩, h.replyTo⟩, h.subject⟩, hdate⟩, h.messageId⟩,
        h.draftId⟩
  rw [← hall]
  unfold EmailPackage.renderDraft
  simp only
  split
  · rename_i hlines
    exact ⟨fun _ => hlines, fun _ => rfl⟩
  · rename_i hlines
    exact ⟨nofun, fun h => absurd h hlines⟩

/-! ## What a listing hears -/

/-- The configuration that renders drafts with this package. -/
def Config.mailing (cfg : Config) (email : EmailPackage) : Config :=
  { cfg with renderDraft := email.renderDraft }

/-- The request did not fail.  That a draft is gone when it is fetched is no failure. -/
def Succeeded : Sigma Req.Answer → Prop
  | ⟨_, .ok _⟩ => True
  | ⟨.getDraft _ _ _, .error e⟩ => e = .notFound
  | ⟨_, .error _⟩ => False

def fetchedDraft : Sigma Req.Answer → Option DraftJson
  | ⟨.getDraft _ _ _, .ok d⟩ => some d
  | _ => none

/-- The drafts that were fetched. -/
def fetched (heard : List (Sigma Req.Answer)) : List DraftJson := heard.filterMap fetchedDraft

def listedPage : Sigma Req.Answer → Option (Page DraftJson)
  | ⟨.listDrafts _ _ _, .ok page⟩ => some page
  | _ => none

/-- The pages of a listing of drafts. -/
def pagesOf (heard : List (Sigma Req.Answer)) : List (Page DraftJson) := heard.filterMap listedPage

def tokensOf (pages : List (Page DraftJson)) : List String :=
  pages.filterMap fun page => strOr page.nextPageToken none

/-- A listing nobody can rely on: a draft without an id, or pages that do not end. -/
def Untrusted (fuel : Nat) (seen : List String) (pages : List (Page DraftJson)) : Prop :=
  (∃ page ∈ pages, ∃ d ∈ page.items, orEmpty d.draftId = "") ∨
    ¬ (tokensOf pages ++ seen).Nodup ∨ fuel ≤ pages.length

/-- What becomes of a part of a listing of drafts: it goes on, it is given up as
untrusted, or a draft that was fetched could not be rendered. -/
inductive Collected (inboxId : String) (heard : List (Sigma Req.Answer)) (untrusted : Prop) :
    Except Exc Unit → Prop
  | ok (lines : ∀ d ∈ fetched heard, OneLine d inboxId) : Collected inboxId heard untrusted (.ok ())
  | untrusted (h : untrusted) (lines : ∀ d ∈ fetched heard, OneLine d inboxId) :
      Collected inboxId heard untrusted (.error .unavailable)
  | unrendered (h : ∃ d ∈ fetched heard, ¬ OneLine d inboxId) :
      Collected inboxId heard untrusted (.error .internal)

variable {cfg : Config} {email : EmailPackage} {t : Tid} {api : Client} {inboxId : String}
  {rely : Service → Service → Prop} {s s' : Service} {heard : List (Sigma Req.Answer)}
  {exec : Act → Service → Service}

/-- Before the part nothing was fetched that could not be rendered. -/
theorem Collected.after {heard₁ heard₂ : List (Sigma Req.Answer)} {p q : Prop}
    {out : Except Exc Unit} (h : Collected inboxId heard₂ p out)
    (hlines : ∀ d ∈ fetched heard₁, OneLine d inboxId) (hpq : p → q) :
    Collected inboxId (heard₁ ++ heard₂) q out := by
  have hsplit : fetched (heard₁ ++ heard₂) = fetched heard₁ ++ fetched heard₂ :=
    List.filterMap_append
  have hboth : (∀ d ∈ fetched heard₂, OneLine d inboxId) →
      ∀ d ∈ fetched (heard₁ ++ heard₂), OneLine d inboxId := by
    intro h₂ d hd
    rw [hsplit] at hd
    rcases List.mem_append.mp hd with hd | hd
    · exact hlines d hd
    · exact h₂ d hd
  cases h with
  | ok lines => exact .ok (hboth lines)
  | untrusted h lines => exact .untrusted (hpq h) (hboth lines)
  | unrendered h =>
    obtain ⟨d, hd, hline⟩ := h
    refine .unrendered ⟨d, ?_, hline⟩
    rw [hsplit]
    exact List.mem_append_right _ hd

theorem lines_nil : ∀ d ∈ fetched [], OneLine d inboxId := fun _ hd => absurd hd List.not_mem_nil

theorem lines_of_none {a : Sigma Req.Answer} (h : fetchedDraft a = none) :
    ∀ d ∈ fetched [a], OneLine d inboxId := by
  intro d hd
  rw [fetched, List.filterMap_cons_none h] at hd
  exact absurd hd List.not_mem_nil

theorem hears_ask {q : Req} {out : Except Exc q.Value}
    (h : (ask q).Hears exec rely s heard out s') : heard = [⟨q, out⟩] := by
  cases h with
  | await hr a h =>
    obtain ⟨hheard, hout, _⟩ := Coro.Hears.ofExcept h
    rw [hheard, hout]

/-- `_render_draft` raises exactly if a draft it fetched cannot be rendered. -/
theorem renderDraft_hears {draftId updatedAt : String} {out : Except Exc (Option Bytes)}
    (h : (renderDraft (cfg.mailing email) api inboxId draftId updatedAt).Hears exec rely s heard
      out s') (hok : ∀ a ∈ heard, Succeeded a) :
    pagesOf heard = [] ∧ (((∃ r, out = .ok r) ∧ ∀ d ∈ fetched heard, OneLine d inboxId) ∨
      (out = .error .internal ∧ ∃ d ∈ fetched heard, ¬ OneLine d inboxId)) := by
  unfold renderDraft at h
  have h := Coro.Hears.of_read h
  split at h
  · have h := Coro.Hears.of_perform h
    cases h
    exact ⟨rfl, .inl ⟨⟨_, rfl⟩, lines_nil⟩⟩
  · rcases Coro.Hears.of_bind h with ⟨e, rfl, ha⟩ | ⟨r, s₁, heard₁, heard₂, rfl, ha, hk⟩
    · obtain ⟨r, hr, _⟩ := ha.of_attempt
      cases hr
    · obtain ⟨r', hr, hask⟩ := ha.of_attempt
      cases hr
      have hheard := hears_ask hask
      subst hheard
      have hsucc := hok _ (List.mem_append_left _ (List.mem_singleton_self _))
      cases r with
      | error e =>
        have he : e = .notFound := hsucc
        subst he
        cases hk
        exact ⟨rfl, .inl ⟨⟨_, rfl⟩, lines_of_none rfl⟩⟩
      | ok full =>
        have hsome := renderDraft_isSome email full inboxId
        have hconfig : (cfg.mailing email).renderDraft full inboxId =
            email.renderDraft full inboxId := rfl
        simp only at hk
        rw [hconfig] at hk
        cases hrender : email.renderDraft full inboxId with
        | none =>
          rw [hrender] at hk hsome
          cases hk
          refine ⟨rfl, .inr ⟨rfl, full, List.mem_singleton_self _, fun hline => ?_⟩⟩
          cases hsome.mpr hline
        | some rendered =>
          rw [hrender] at hk hsome
          have hk := Coro.Hears.of_perform (Coro.Hears.of_perform hk)
          cases hk
          refine ⟨rfl, .inl ⟨⟨_, rfl⟩, fun d hd => ?_⟩⟩
          rw [List.mem_singleton.mp hd]
          exact hsome.mp rfl

theorem collectDraft_hears {d : DraftJson} {out : Except Exc Unit}
    (h : (collectDraft (cfg.mailing email) t api inboxId d).Hears exec rely s heard out s')
    (hok : ∀ a ∈ heard, Succeeded a) :
    pagesOf heard = [] ∧ Collected inboxId heard (orEmpty d.draftId = "") out := by
  unfold collectDraft at h
  simp only at h
  split at h
  · rename_i hid
    cases h
    exact ⟨rfl, .untrusted hid lines_nil⟩
  · have h := Coro.Hears.of_read h
    split at h
    · cases h
      exact ⟨rfl, .ok lines_nil⟩
    · have h := Coro.Hears.of_perform h
      rcases Coro.Hears.of_bind h with ⟨e, rfl, hr⟩ | ⟨r, s₁, heard₁, heard₂, rfl, hr, hk⟩
      · obtain ⟨hpages, ⟨⟨r, hr⟩, _⟩ | ⟨he, hmany⟩⟩ := renderDraft_hears hr hok
        · cases hr
        · cases he
          exact ⟨hpages, .unrendered hmany⟩
      · obtain ⟨hpages, ⟨_, hlines⟩ | ⟨he, _⟩⟩ :=
          renderDraft_hears hr fun a ha => hok a (List.mem_append_left _ ha)
        · have hend : heard₂ = [] ∧ out = .ok () := by
            cases r with
            | none =>
              cases hk
              exact ⟨rfl, rfl⟩
            | some rendered =>
              cases hk with
              | act hk =>
                cases hk
                exact ⟨rfl, rfl⟩
          obtain ⟨rfl, rfl⟩ := hend
          rw [List.append_nil]
          exact ⟨hpages, .ok hlines⟩
        · cases he

theorem each_hears {items : List DraftJson} {out : Except Exc Unit}
    (h : (Coro.each (collectDraft (cfg.mailing email) t api inboxId) items).Hears exec rely s heard
      out s') (hok : ∀ a ∈ heard, Succeeded a) :
    pagesOf heard = [] ∧ Collected inboxId heard (∃ d ∈ items, orEmpty d.draftId = "") out := by
  induction items generalizing s heard with
  | nil =>
    cases h
    exact ⟨rfl, .ok lines_nil⟩
  | cons d items ih =>
    rcases Coro.Hears.of_bind h with ⟨e, rfl, hd⟩ | ⟨_, s₁, heard₁, heard₂, rfl, hd, hk⟩
    · obtain ⟨hpages, hcollected⟩ := collectDraft_hears hd hok
      exact ⟨hpages, hcollected.after lines_nil fun hid => ⟨d, List.mem_cons_self .., hid⟩⟩
    · obtain ⟨hpages₁, hcollected⟩ :=
        collectDraft_hears hd fun a ha => hok a (List.mem_append_left _ ha)
      obtain ⟨hpages₂, hrest⟩ := ih hk fun a ha => hok a (List.mem_append_right _ ha)
      have hpages : pagesOf (heard₁ ++ heard₂) = pagesOf heard₁ ++ pagesOf heard₂ :=
        List.filterMap_append
      cases hcollected with
      | ok hlines =>
        refine ⟨by rw [hpages, hpages₁, hpages₂]; rfl, hrest.after hlines ?_⟩
        rintro ⟨d', hd', hid⟩
        exact ⟨d', List.mem_cons_of_mem _ hd', hid⟩

theorem untrusted_cons {fuel : Nat} {seen : List String} {page : Page DraftJson}
    {pages : List (Page DraftJson)} {next : String}
    (hnext : strOr page.nextPageToken none = some next) (h : Untrusted fuel (next :: seen) pages) :
    Untrusted (fuel + 1) seen (page :: pages) := by
  have htokens : tokensOf (page :: pages) = next :: tokensOf pages := by
    rw [tokensOf, List.filterMap_cons, hnext]
    rfl
  rcases h with ⟨p, hp, hd⟩ | hnodup | hfuel
  · exact .inl ⟨p, List.mem_cons_of_mem _ hp, hd⟩
  · refine .inr (.inl fun hall => hnodup ?_)
    rw [htokens] at hall
    exact (List.perm_middle.nodup_iff).mpr hall
  · refine .inr (.inr ?_)
    rw [List.length_cons]
    omega

theorem paginate_hears {pageOf : Option String → Svc (Page DraftJson)}
    (hpage : pageOf = fun token => ask (.listDrafts api inboxId token)) {fuel : Nat}
    {token : Option String} {seen : List String} {out : Except Exc Unit}
    (h : (paginate pageOf (collectDraft (cfg.mailing email) t api inboxId) fuel token seen).Hears
      exec rely s heard out s') (hok : ∀ a ∈ heard, Succeeded a) :
    Collected inboxId heard (Untrusted fuel seen (pagesOf heard)) out := by
  induction fuel generalizing s heard token seen with
  | zero =>
    cases h
    exact .untrusted (.inr (.inr (Nat.zero_le _))) lines_nil
  | succ fuel ih =>
    rw [paginate] at h
    rcases Coro.Hears.of_bind h with ⟨e, rfl, hask⟩ | ⟨page, s₁, heard₁, rest, rfl, hask, hk⟩
    · rw [hpage] at hask
      have hheard := hears_ask hask
      subst hheard
      cases hok _ (List.mem_singleton_self _)
    · rw [hpage] at hask
      have hheard := hears_ask hask
      subst hheard
      have hok : ∀ a ∈ rest, Succeeded a := fun a ha => hok a (List.mem_cons_of_mem _ ha)
      have hnone : ∀ d ∈ fetched [⟨.listDrafts api inboxId token, .ok page⟩], OneLine d inboxId :=
        lines_of_none rfl
      show Collected inboxId _ (Untrusted (fuel + 1) seen (page :: pagesOf rest)) out
      rcases Coro.Hears.of_bind hk with ⟨e, rfl, heach⟩ | ⟨_, s₂, heard₁, heard₂, rfl, heach, hk⟩
      · obtain ⟨hpages, hcollected⟩ := each_hears heach hok
        refine hcollected.after hnone fun hid => .inl ⟨page, List.mem_cons_self .., hid⟩
      · obtain ⟨hpages, hcollected⟩ :=
          each_hears heach fun a ha => hok a (List.mem_append_left _ ha)
        have hsplit : pagesOf (heard₁ ++ heard₂) = pagesOf heard₂ := by
          rw [pagesOf, List.filterMap_append]
          show pagesOf heard₁ ++ _ = _
          rw [hpages]
          rfl
        rw [hsplit]
        cases hcollected with
        | ok hlines =>
          refine Collected.after ?_ hnone id
          split at hk
          · cases hk
            rw [List.append_nil]
            exact .ok hlines
          · rename_i next hnext
            split at hk
            · rename_i hseen
              cases hk
              rw [List.append_nil]
              refine .untrusted (.inr (.inl fun hall => ?_)) hlines
              rw [tokensOf, List.filterMap_cons, hnext] at hall
              exact (List.nodup_cons.mp hall).1 (List.mem_append_right _ hseen)
            · refine (ih hk fun a ha => hok a (List.mem_append_right _ ha)).after hlines ?_
              exact untrusted_cons hnext

/-! ## The listing -/

/-- What a listing of Drafts comes to: a snapshot, or it is given up as untrusted, or a
draft that was fetched could not be rendered. -/
structure ListsDrafts (cfg : Config) (inboxId : String) (heard : List (Sigma Req.Answer))
    (out : Except Exc Snapshot) : Prop where
  rendered : (∀ d ∈ fetched heard, OneLine d inboxId) ↔ out ≠ .error .internal
  trusted : ∀ e, out = .error e → e ≠ .internal →
    e = .unavailable ∧ Untrusted cfg.pages [] (pagesOf heard)

theorem Collected.lists {out : Except Exc Unit} {r : Except Exc Snapshot}
    (h : Collected inboxId heard (Untrusted cfg.pages [] (pagesOf heard)) out)
    (hr : ∀ e, r = .error e ↔ out = .error e) : ListsDrafts cfg inboxId heard r := by
  have hinternal : (∀ d ∈ fetched heard, OneLine d inboxId) ↔ out ≠ .error .internal := by
    cases h with
    | ok lines => exact ⟨fun _ => nofun, fun _ => lines⟩
    | untrusted _ lines => exact ⟨fun _ => nofun, fun _ => lines⟩
    | unrendered h =>
      obtain ⟨d, hd, hline⟩ := h
      exact ⟨fun hlines => absurd (hlines d hd) hline, fun hne => absurd rfl hne⟩
  constructor
  · rw [hinternal]
    exact not_congr (hr .internal).symm
  · intro e he hne
    rw [hr] at he
    subst he
    cases h with
    | untrusted h _ => exact ⟨rfl, h⟩
    | unrendered => exact absurd rfl hne

theorem doSync_hears {out : Except Exc Snapshot}
    (h : (doSync (cfg.mailing email) t api inboxId drafts).Hears (Act.exec (cfg.mailing email) t)
      (fun a b => b.listings t = a.listings t) s heard out s') (hok : ∀ a ∈ heard, Succeeded a) :
    ListsDrafts cfg inboxId heard out := by
  have h := Coro.Hears.of_perform h
  have hstart :
      ((Act.exec (cfg.mailing email) t (.startListing inboxId drafts) s).listings t).isSome := by
    show ((Function.update s.listings t _) t).isSome
    rw [Function.update_self]
    rfl
  have hpages : ∀ {s₁ s₂ : Service} {heard₁ : List (Sigma Req.Answer)} {r : Except Exc Unit},
      (collectDrafts (cfg.mailing email) t api inboxId).Hears (Act.exec (cfg.mailing email) t)
        (fun a b => b.listings t = a.listings t) s₁ heard₁ r s₂ → (∀ a ∈ heard₁, Succeeded a) →
      Collected inboxId heard₁ (Untrusted cfg.pages [] (pagesOf heard₁)) r :=
    fun h hok => paginate_hears rfl h hok
  rcases Coro.Hears.of_bind h with ⟨e, rfl, hc⟩ | ⟨_, s₁, heard₁, heard₂, rfl, hc, hk⟩
  · rcases hc.of_handle with ⟨a, ha, _⟩ | ⟨e', s₂, heard₁, heard₂, rfl, hfail, hdrop⟩
    · cases ha
    · cases hdrop with
      | act hdrop =>
        cases hdrop
        rw [List.append_nil]
        refine (hpages hfail fun a ha => hok a (List.mem_append_left _ ha)).lists fun e => ?_
        constructor <;> rintro ⟨⟩ <;> rfl
  · rcases hc.of_handle with ⟨_, _, hdone⟩ | ⟨e', s₂, heard₃, heard₄, rfl, hfail, hdrop⟩
    · have hsome := hdone.all collectDrafts_gathers (fun s => (s.listings t).isSome)
        (fun a b ha hr => by rw [hr]; exact ha) (fun p a hp ha => gathers_exec hp ha) hstart
      have hcollected := hpages hdone fun a ha => hok a (List.mem_append_left _ ha)
      have hk := Coro.Hears.of_read (Coro.Hears.of_perform hk)
      have hpublished :
          ((Act.exec (cfg.mailing email) t .publish s₁).published t).isSome := by
        show ((s₁.publish t).published t).isSome
        obtain ⟨l, hl⟩ := Option.isSome_iff_exists.mp hsome
        rw [Service.publish, hl]
        show ((Function.update s₁.published t _) t).isSome
        rw [Function.update_self]
        rfl
      split at hk
      · cases hk
        rw [List.append_nil]
        refine hcollected.lists fun e => ?_
        constructor <;> rintro ⟨⟩
      · rename_i hnone
        rw [hnone] at hpublished
        cases hpublished
    · cases hdrop with
      | act hdrop => cases hdrop

/-- What the task of a listing of Drafts ends with. -/
theorem runTask_hears {n : Nat} {out : Except Exc Unit}
    (h : (runTask (cfg.mailing email) n (.listing api inboxId drafts)).Hears
      (Act.exec (cfg.mailing email) (.task n)) (fun a b => b.listings (.task n) = a.listings (.task n))
      s heard out s') (hok : ∀ a ∈ heard, Succeeded a) (r : Except Exc Snapshot)
    (hr : s'.taskState n = some (.finished r)) : ListsDrafts cfg inboxId heard r := by
  have h := Coro.Hears.of_perform h
  rcases Coro.Hears.of_bind h with ⟨e, rfl, ha⟩ | ⟨result, s₁, heard₁, heard₂, rfl, ha, hk⟩
  · obtain ⟨_, he, _⟩ := ha.of_attempt
    cases he
  · obtain ⟨_, he, hsync⟩ := ha.of_attempt
    cases he
    cases hk with
    | act hk =>
      cases hk
      have hlists := doSync_hears hsync fun a ha => hok a (List.mem_append_left _ ha)
      have hresult : result = r := by
        have hstate : (Option.map (·.state) (Function.update s₁.tasks n
            ((s₁.tasks n).map fun task => { task with state := .finished result }) n)) =
            some (.finished r) := hr
        rw [Function.update_self, Option.map_map] at hstate
        cases htask : s₁.tasks n with
        | none =>
          rw [htask] at hstate
          cases hstate
        | some task =>
          rw [htask] at hstate
          cases hstate
          rfl
      rw [List.append_nil]
      rw [← hresult]
      exact hlists

/-- No task has failed. -/
def Service.Calm (s : Service) : Prop := ∀ n e, s.taskState n ≠ some (.finished (.error e))

theorem createTask_calm (h : s.Calm) (job : Job) (gen : Nat) : (s.createTask job gen).Calm := by
  intro n e hn
  by_cases hnext : n = s.nextTask
  · subst hnext
    have hqueued : (s.createTask job gen).taskState s.nextTask = some .queued := by
      show Option.map _ (Function.update s.tasks s.nextTask _ s.nextTask) = _
      rw [Function.update_self]
      rfl
    rw [hqueued] at hn
    cases hn
  · apply h n e
    rw [← hn]
    show _ = Option.map _ (Function.update s.tasks s.nextTask _ n)
    rw [Function.update_of_ne hnext]
    rfl

section Sync

variable {cfg : Config} (hrely : ∀ a b, a.Calm → rely a b → b.Calm)
include hrely

/-- As long as no task fails, the wait for one yields a snapshot. -/
theorem awaitTask_hears {n : Nat} {out : Except Exc Snapshot}
    (h : (awaitTask n).Hears exec rely s heard out s') (hs : s.Calm)
    (hok : ∀ a ∈ heard, Succeeded a) : (∃ snap, out = .ok snap) ∧ s'.Calm := by
  have h := Coro.Hears.of_read h
  have hask : (ask (.task n)).Hears exec rely s heard out s' →
      (∃ snap, out = .ok snap) ∧ s'.Calm := by
    intro hask
    cases hask with
    | await hr a hask =>
      obtain ⟨rfl, rfl, rfl⟩ := Coro.Hears.ofExcept hask
      have hsucc := hok _ (List.mem_singleton_self _)
      cases out with
      | ok snap => exact ⟨⟨snap, rfl⟩, hrely _ _ hs hr⟩
      | error e => cases hsucc
  cases hstate : s.taskState n with
  | none =>
    rw [hstate] at h
    exact hask h
  | some state =>
    rw [hstate] at h
    cases state with
    | finished r =>
      obtain ⟨_, rfl, rfl⟩ := Coro.Hears.ofExcept h
      cases out with
      | ok snap => exact ⟨⟨snap, rfl⟩, hs⟩
      | error e => exact absurd hstate (hs n e)
    | queued => exact hask h
    | running => exact hask h

theorem join_hears {e : Inflight} {mdef : MailboxDef} {out : Except Exc Snapshot}
    (h : (join cfg t e api inboxId mdef).Hears exec rely s heard out s') (hs : s.Calm)
    (hok : ∀ a ∈ heard, Succeeded a) : ∃ snap, out = .ok snap := by
  rcases Coro.Hears.of_handle h with ⟨snap, rfl, _⟩ | ⟨e', s₁, heard₁, heard₂, rfl, hwait, _⟩
  · exact ⟨snap, rfl⟩
  · obtain ⟨⟨snap, hsnap⟩, _⟩ :=
      awaitTask_hears hrely hwait hs fun a ha => hok a (List.mem_append_left _ ha)
    cases hsnap

theorem waitOut_hears {n : Nat} {out : Except Exc Unit}
    (h : (waitOut n).Hears exec rely s heard out s') (hs : s.Calm)
    (hok : ∀ a ∈ heard, Succeeded a) : out = .ok () ∧ s'.Calm := by
  rcases Coro.Hears.of_handle h with ⟨_, rfl, hw⟩ | ⟨e, s₁, heard₁, heard₂, rfl, hw, _⟩
  · rcases Coro.Hears.of_bind hw with ⟨_, he, _⟩ | ⟨_, s₁, heard₁, heard₂, rfl, hwait, hk⟩
    · cases he
    · cases hk
      obtain ⟨_, hcalm⟩ :=
        awaitTask_hears hrely hwait hs fun a ha => hok a (List.mem_append_left _ ha)
      exact ⟨rfl, hcalm⟩
  · rcases Coro.Hears.of_bind hw with ⟨_, _, hwait⟩ | ⟨_, s₂, heard₃, heard₄, _, _, hk⟩
    · obtain ⟨⟨snap, hsnap⟩, _⟩ :=
        awaitTask_hears hrely hwait hs fun a ha => hok a (List.mem_append_left _ ha)
      cases hsnap
    · cases hk

theorem launch_hears {mdef : MailboxDef} {gen : Nat} {out : Except Exc Snapshot}
    (h : (launch api inboxId mdef gen).Hears (Act.exec cfg t) rely s heard out s') (hs : s.Calm)
    (hok : ∀ a ∈ heard, Succeeded a) : ∃ snap, out = .ok snap := by
  have h := Coro.Hears.of_perform (Coro.Hears.of_read h)
  exact (awaitTask_hears hrely h (createTask_calm hs _ _) hok).1

/-- As long as no task fails, `sync` returns a snapshot. -/
theorem sync_hears {name : String} {force : Bool} {out : Except Exc Snapshot}
    (h : (sync cfg t api inboxId name force).Hears (Act.exec cfg t) rely s heard out s')
    (hname : (lookupMailbox name).isSome) (hs : s.Calm) (hok : ∀ a ∈ heard, Succeeded a) :
    ∃ snap, out = .ok snap := by
  rw [sync] at h
  split at h
  · rename_i hnone
    rw [hnone] at hname
    cases hname
  · rename_i mdef hmdef
    have h := Coro.Hears.of_read h
    split at h
    · rename_i snap hsnap
      cases h
      exact ⟨snap, rfl⟩
    · split at h
      · exact launch_hears hrely h hs hok
      · rename_i e he
        simp only at h
        split at h
        · exact join_hears hrely h hs hok
        · rcases Coro.Hears.of_bind h with ⟨_, rfl, hw⟩ | ⟨_, s₁, heard₁, heard₂, rfl, hw, hk⟩
          · obtain ⟨hout, _⟩ := waitOut_hears hrely hw hs hok
            cases hout
          · obtain ⟨_, hcalm⟩ :=
              waitOut_hears hrely hw hs fun a ha => hok a (List.mem_append_left _ ha)
            have hok : ∀ a ∈ heard₂, Succeeded a := fun a ha => hok a (List.mem_append_right _ ha)
            have hk := Coro.Hears.of_read hk
            split at hk
            · split at hk
              · exact join_hears hrely hk hcalm hok
              · exact launch_hears hrely hk hcalm hok
            · exact launch_hears hrely hk hcalm hok

end Sync

/-! ## APPEND -/

/-- A request that creates no draft. -/
def Req.creates : Req → Bool
  | .createDraft _ _ _ _ => true
  | _ => false

theorem ask_asks {q : Req} (hq : q.creates = false) : (ask q).Asks fun q => q.creates = false := by
  refine ⟨hq, fun a => ?_⟩
  cases a <;> trivial

theorem perform_asks {α : Type} {p : Act} {f : Unit → Svc α} (h : (f ()).Asks fun q => q.creates = false) :
    ((perform p).bind f).Asks fun q => q.creates = false := h

theorem doSync_asks (mdef : MailboxDef) :
    (doSync cfg t api inboxId mdef).Asks fun q => q.creates = false := by
  have hpages : ∀ {α : Type} (pageOf : Option String → Svc (Page α)) (body : α → Svc Unit),
      (∀ token, (pageOf token).Asks fun q => q.creates = false) →
      (∀ x, (body x).Asks fun q => q.creates = false) → ∀ fuel token seen,
      (paginate pageOf body fuel token seen).Asks fun q => q.creates = false := by
    intro α pageOf body hpage hbody fuel
    induction fuel with
    | zero => exact fun _ _ => trivial
    | succ fuel ih =>
      intro token seen
      rw [paginate]
      refine (hpage token).bind fun page => (Coro.Asks.each hbody _).bind fun _ => ?_
      split
      · trivial
      · split
        · trivial
        · exact ih _ _
  have hrender : ∀ draftId updatedAt,
      (renderDraft cfg api inboxId draftId updatedAt).Asks fun q => q.creates = false := by
    intro draftId updatedAt
    rw [renderDraft]
    refine Coro.Asks.bind (fun _ => trivial) fun s => ?_
    split
    · trivial
    · refine Coro.Asks.bind (Coro.Asks.attempt (ask_asks rfl)) fun r => ?_
      split
      · trivial
      · trivial
      · split <;> trivial
  have hdraft : ∀ d, (collectDraft cfg t api inboxId d).Asks fun q => q.creates = false := by
    intro d
    rw [collectDraft]
    simp only
    split
    · trivial
    · refine Coro.Asks.bind (fun _ => trivial) fun s => ?_
      split
      · trivial
      · refine perform_asks (Coro.Asks.bind (hrender _ _) fun r => ?_)
        cases r <;> trivial
  have hmessage : ∀ m, (collectMessage m).Asks fun q => q.creates = false := by
    intro m
    rw [collectMessage]
    split <;> trivial
  rw [doSync]
  refine perform_asks (Coro.Asks.bind (Coro.Asks.handle ?_ fun e => perform_asks trivial)
    fun _ => perform_asks fun s => ?_)
  · cases mdef.kind with
    | messages => exact hpages _ _ (fun token => ask_asks rfl) hmessage _ _ _
    | drafts => exact hpages _ _ (fun token => ask_asks rfl) hdraft _ _ _
  · simp only [Coro.bind]
    split <;> trivial

theorem awaitTask_asks (n : Nat) : (awaitTask n).Asks fun q => q.creates = false := by
  intro s
  simp only [Coro.bind]
  have hask : (ask (.task n)).Asks fun q => q.creates = false := ask_asks rfl
  cases s.taskState n with
  | none => exact hask
  | some state =>
    cases state with
    | finished r => exact Coro.Asks.ofExcept r
    | queued => exact hask
    | running => exact hask

theorem sync_asks (mdef : MailboxDef) (force : Bool) :
    (syncMailbox cfg t api inboxId mdef force).Asks fun q => q.creates = false := by
  have hlaunch : ∀ gen, (launch api inboxId mdef gen).Asks fun q => q.creates = false :=
    fun gen s => awaitTask_asks _
  have hjoin : ∀ e, (join cfg t e api inboxId mdef).Asks fun q => q.creates = false := by
    intro e
    refine Coro.Asks.handle (awaitTask_asks _) fun exc => ?_
    cases exc with
    | auth status =>
      simp only
      split
      · trivial
      · exact doSync_asks mdef
    | _ => trivial
  have hwait : ∀ n, (waitOut n).Asks fun q => q.creates = false := by
    intro n
    refine Coro.Asks.handle (Coro.Asks.bind (awaitTask_asks n) fun _ => trivial) fun exc => ?_
    cases exc <;> trivial
  rw [syncMailbox]
  intro s
  simp only [Coro.bind_eq, Coro.bind]
  split
  · trivial
  · split
    · exact hlaunch _
    · split
      · exact hjoin _
      · refine Coro.Asks.bind (hwait _) fun _ => fun s => ?_
        simp only [Coro.bind]
        split
        · split
          · exact hjoin _
          · exact hlaunch _
        · exact hlaunch _

theorem firstContact_asks (name : String) :
    (firstContact cfg t api inboxId name).Asks fun q => q.creates = false := by
  intro s
  simp only [Coro.bind]
  split
  · refine Coro.Asks.bind ?_ fun _ => trivial
    rw [syncForced]
    split
    · trivial
    · exact perform_asks (Coro.Asks.bind (sync_asks _ _) fun _ => trivial)
  · trivial

theorem appendCreated_hears {created : DraftJson} {out : Except Exc (Nat × Nat × Nat)}
    (h : (appendCreated (cfg.mailing email) api inboxId created).Hears exec rely s heard out s') :
    heard = [] ∧ (orEmpty created.draftId ≠ "" →
      ((∃ r, out = .ok r) ↔ OneLine created inboxId)) := by
  rw [appendCreated] at h
  simp only at h
  split at h
  · rename_i hid
    cases h
    exact ⟨rfl, fun hne => absurd hid hne⟩
  · have hsome := renderDraft_isSome email created inboxId
    have hconfig : (cfg.mailing email).renderDraft created inboxId =
        email.renderDraft created inboxId := rfl
    rw [hconfig] at h
    cases hrender : email.renderDraft created inboxId with
    | none =>
      rw [hrender] at h hsome
      cases h
      refine ⟨rfl, fun _ => ⟨fun ⟨r, hr⟩ => ?_, fun hline => ?_⟩⟩
      · cases hr
      · cases hsome.mpr hline
    | some rendered =>
      rw [hrender] at h hsome
      have h := Coro.Hears.of_read (Coro.Hears.of_perform (Coro.Hears.of_perform h))
      have h := Coro.Hears.of_perform (Coro.Hears.of_perform h)
      cases h
      exact ⟨rfl, fun _ => ⟨fun _ => hsome.mp rfl, fun _ => ⟨_, rfl⟩⟩⟩

/-- Once the POST has succeeded, `append_draft` returns exactly if the draft it created can be
rendered. -/
theorem appendDraft_hears {fields : DraftFields} {clientId : Option String} {d : DraftJson}
    {out : Except Exc (Nat × Nat × Nat)}
    (h : (appendDraft (cfg.mailing email) t api inboxId fields clientId).Hears exec rely s heard
      out s') (hpost : ⟨.createDraft api inboxId fields clientId, .ok d⟩ ∈ heard)
    (hid : orEmpty d.draftId ≠ "") : (∃ r, out = .ok r) ↔ OneLine d inboxId := by
  have hcreates : ∀ {s₁ s₂ : Service} {heard₁ : List (Sigma Req.Answer)} {r : Except Exc Unit},
      (firstContact (cfg.mailing email) t api inboxId drafts.name).Hears exec rely s₁ heard₁ r s₂ →
      ⟨.createDraft api inboxId fields clientId, .ok d⟩ ∉ heard₁ := by
    intro s₁ s₂ heard₁ r hfirst hmem
    cases hfirst.asks (firstContact_asks _) _ hmem
  have h := Coro.Hears.of_perform h
  rcases Coro.Hears.of_bind h with ⟨_, _, ha⟩ | ⟨r, s₁, heard₁, heard₂, rfl, ha, hk⟩
  · obtain ⟨_, he, _⟩ := ha.of_attempt
    cases he
  · obtain ⟨_, he, hbody⟩ := ha.of_attempt
    cases he
    have hk := Coro.Hears.of_perform hk
    obtain ⟨rfl, rfl, _⟩ := Coro.Hears.ofExcept hk
    rw [List.append_nil] at hpost
    rcases Coro.Hears.of_bind hbody with ⟨_, _, hfirst⟩ | ⟨_, s₂, heard₃, heard₄, rfl, hfirst, hk⟩
    · exact absurd hpost (hcreates hfirst)
    · have hpost := (List.mem_append.mp hpost).resolve_left (hcreates hfirst)
      rcases Coro.Hears.of_bind hk with ⟨e, rfl, hask⟩ | ⟨created, s₃, heard₅, heard₆, rfl, hask, hk⟩
      · rw [hears_ask hask] at hpost
        cases List.mem_singleton.mp hpost
      · obtain ⟨hnil, hiff⟩ := appendCreated_hears (Coro.Hears.of_perform hk)
        rw [hears_ask hask, hnil, List.append_nil] at hpost
        cases List.mem_singleton.mp hpost
        exact hiff hid

/-- What comes of the values of drafts that upstream returns. -/
structure DraftRendering (cfg : Config) (email : EmailPackage) : Prop where
  renders : ∀ d inboxId, (email.renderDraft d inboxId).isSome ↔ OneLine d inboxId
  appends : ∀ t api inboxId fields clientId d rely s heard out s',
    (appendDraft (cfg.mailing email) t api inboxId fields clientId).Hears
      (Act.exec (cfg.mailing email) t) rely s heard out s' →
    ⟨.createDraft api inboxId fields clientId, .ok d⟩ ∈ heard → orEmpty d.draftId ≠ "" →
    ((∃ r, out = .ok r) ↔ OneLine d inboxId)
  /-- A listing without a failed request, run as a task or by itself. -/
  lists : ∀ t api inboxId s heard out s',
    (doSync (cfg.mailing email) t api inboxId drafts).Hears (Act.exec (cfg.mailing email) t)
      (fun a b => b.listings t = a.listings t) s heard out s' → (∀ a ∈ heard, Succeeded a) →
    ListsDrafts cfg inboxId heard out
  finishes : ∀ n api inboxId s heard out s' r,
    (runTask (cfg.mailing email) n (.listing api inboxId drafts)).Hears
      (Act.exec (cfg.mailing email) (.task n)) (fun a b => b.listings (.task n) = a.listings (.task n))
      s heard out s' → (∀ a ∈ heard, Succeeded a) → s'.taskState n = some (.finished r) →
    ListsDrafts cfg inboxId heard r
  /-- `sync` fails by itself only where a task has failed. -/
  syncs : ∀ t api inboxId force rely s heard out s', (∀ a b, a.Calm → rely a b → b.Calm) →
    (sync (cfg.mailing email) t api inboxId drafts.name force).Hears
      (Act.exec (cfg.mailing email) t) rely s heard out s' → s.Calm → (∀ a ∈ heard, Succeeded a) →
    ∃ snap, out = .ok snap

/-- Drafts whose header values are single lines, and no others, are rendered, appended and
listed. -/
theorem drafts_render (cfg : Config) (email : EmailPackage) : DraftRendering cfg email where
  renders := renderDraft_isSome email
  appends _ _ _ _ _ _ _ _ _ _ _ h hpost hid := appendDraft_hears h hpost hid
  lists _ _ _ _ _ _ _ h hok := doSync_hears h hok
  finishes _ _ _ _ _ _ _ r h hok hr := runTask_hears h hok r hr
  syncs _ _ _ _ _ _ _ _ _ hrely h hs hok := sync_hears hrely h (by decide +kernel) hs hok

/-- A package that writes each header on a line of its own, then an empty line and the text, and
knows one date. -/
def plainEmail : EmailPackage where
  formatDatetime _ := "Mon, 17 Aug 2026 16:00:00 +0000"
  formatDatetime_line _ := by decide
  asBytes headers text :=
    let lines := headers.map fun h => h.1 ++ ": " ++ h.2 ++ "\r\n"
    (String.join lines ++ "\r\n" ++ text).toList.map fun ch => ch.toNat.toUInt8

example : (plainEmail.renderDraft
    ⟨some "d1", none, none, none, none, none, none, none, some "one", none⟩ "a@x").isSome := by
  decide

/-- A draft with a line break in its subject. -/
def brokenDraft : DraftJson :=
  ⟨some "d1", none, none, none, none, none, none, none, some "a\nb", none⟩

theorem brokenDraft_unrendered (email : EmailPackage) :
    email.renderDraft brokenDraft "i" = none := by
  rw [← Option.not_isSome_iff_eq_none, renderDraft_isSome]
  intro h
  have hsubject : ¬ SingleLine "a\nb" := by decide
  exact hsubject h.subject

/-- It cannot be rendered, an APPEND that is answered with it fails after its POST, and so does
every listing that fetches it. -/
theorem broken_draft_poisons : Nonempty EmailPackage ∧
    ∀ (cfg : Config) (email : EmailPackage) (t : Tid) (api : Client) (fields : DraftFields)
      (s : Service), (s.latest ("i", drafts.name)).isSome →
    email.renderDraft brokenDraft "i" = none ∧
    (∃ s', (appendDraft (cfg.mailing email) t api "i" fields none).Hears
      (Act.exec (cfg.mailing email) t) (fun a b => b = a) s
      [⟨.createDraft api "i" fields none, .ok brokenDraft⟩] (.error .internal) s') ∧
    ∀ heard out s', (doSync (cfg.mailing email) t api "i" drafts).Hears
      (Act.exec (cfg.mailing email) t) (fun a b => b.listings t = a.listings t) s heard out s' →
      (∀ a ∈ heard, Succeeded a) → brokenDraft ∈ fetched heard → out = .error .internal := by
  refine ⟨⟨plainEmail⟩, ?_⟩
  intro cfg email t api fields s hs
  have hunrendered := brokenDraft_unrendered email
  refine ⟨hunrendered, ?_, fun heard out s' h hok hmem => ?_⟩
  · let s₀ := Act.exec (cfg.mailing email) t (.beginMutation [("i", drafts.name)] false) s
    have hfirst : (firstContact (cfg.mailing email) t api "i" drafts.name).Hears
        (Act.exec (cfg.mailing email) t) (fun a b => b = a) s₀ [] (.ok ()) s₀ := by
      have hnone : (s₀.latest ("i", drafts.name)).isNone = false := by
        rw [← Option.not_isSome]
        show (!(s.latest ("i", drafts.name)).isSome) = false
        rw [hs]
        rfl
      refine .get ?_
      simp only [Coro.bind, hnone, Bool.false_eq_true, if_false]
      exact .ret () s₀
    have hpost : (ask (.createDraft api "i" fields none)).Hears (Act.exec (cfg.mailing email) t)
        (fun a b => b = a) s₀ [⟨.createDraft api "i" fields none, .ok brokenDraft⟩]
        (.ok brokenDraft) s₀ := by
      apply Coro.Hears.await
      · rfl
      · exact .ret brokenDraft s₀
    have hcreated : appendCreated (cfg.mailing email) api "i" brokenDraft = .raise .internal := by
      have hid : orEmpty brokenDraft.draftId ≠ "" := by decide
      have hconfig : (cfg.mailing email).renderDraft brokenDraft "i" = none := hunrendered
      rw [appendCreated]
      simp only
      rw [if_neg hid, hconfig]
      rfl
    have hrest : ((perform .wrote).bind fun _ =>
        appendCreated (cfg.mailing email) api "i" brokenDraft).Hears (Act.exec (cfg.mailing email) t)
        (fun a b => b = a) s₀ [] (.error .internal) (Act.exec (cfg.mailing email) t .wrote s₀) := by
      rw [hcreated]
      exact .act (.raise Exc.internal _)
    have hbody := hfirst.bind (f := fun _ => (ask (.createDraft api "i" fields none)).bind
      fun created => (perform .wrote).bind fun _ =>
        appendCreated (cfg.mailing email) api "i" created) (hpost.bind hrest)
    have hend : ((perform .endMutation).bind fun _ =>
        (Coro.ofExcept (.error .internal) : Svc (Nat × Nat × Nat))).Hears
        (Act.exec (cfg.mailing email) t) (fun a b => b = a)
        (Act.exec (cfg.mailing email) t .wrote s₀) [] (.error .internal)
        (Act.exec (cfg.mailing email) t .endMutation (Act.exec (cfg.mailing email) t .wrote s₀)) :=
      .act (.raise Exc.internal _)
    exact ⟨_, .act (hbody.attempt_error.bind
      (f := fun r => (perform .endMutation).bind fun _ => Coro.ofExcept r) hend)⟩
  · by_contra hout
    have hlines := (doSync_hears h hok).rendered.mpr hout
    have hsome := (renderDraft_isSome email brokenDraft "i").mpr (hlines brokenDraft hmem)
    rw [hunrendered] at hsome
    cases hsome

end Mailbox
end ImapGateway
