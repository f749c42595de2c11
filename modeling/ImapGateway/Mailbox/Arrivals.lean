/-
Listings of one mailbox that show the same in different orders.

A listing keeps what it is shown in the order in which it is shown.  Sorted, and joined
with the pins, this no longer depends on the order, so neither do the UIDs handed out.
-/
import ImapGateway.Mailbox.Collecting
import ImapGateway.Mailbox.Cache
import ImapGateway.Mailbox.Invariant
import ImapGateway.Stream.Sorting

namespace ImapGateway
namespace Mailbox

open Async

variable {cfg : Config} {t : Tid} {api : Client} {inboxId : String}

abbrev Steps := List (Coro.Step Service Act Req Req.Answer)

/-! ## What a listing is shown -/

/-- The messages of an answer. -/
def pageMessages : Coro.Step Service Act Req Req.Answer → List MessageJson
  | .heard (.listMessages _ _ _ _) (.ok page) => page.items
  | _ => []

def pageDrafts : Coro.Step Service Act Req Req.Answer → List DraftJson
  | .heard (.listDrafts _ _ _) (.ok page) => page.items
  | _ => []

/-- The messages a listing was shown, in order. -/
def messagesOf (steps : Steps) : List MessageJson := steps.flatMap pageMessages

def draftsOf (steps : Steps) : List DraftJson := steps.flatMap pageDrafts

/-- Every GET of a draft was answered by `content`. -/
def FetchedFrom (content : String → Except Exc DraftJson) (steps : Steps) : Prop :=
  ∀ api i id a, .heard (.getDraft api i id) a ∈ steps → a = content id

/-- The rendering of a draft that upstream holds. -/
def renderingOf (cfg : Config) (inboxId : String) (content : String → Except Exc DraftJson)
    (d : DraftJson) : Option Bytes :=
  match content (orEmpty d.draftId) with
  | .ok full => cfg.renderDraft full inboxId
  | .error _ => none

/-- The key a rendering is cached under. -/
def versionKey (inboxId : String) (d : DraftJson) : String :=
  ckey inboxId "draftv" (orEmpty d.draftId ++ ":" ++ orEmpty d.updatedAt)

/-- The cache holds nothing for a draft of `ds` but its rendering. -/
def InLine (cfg : Config) (inboxId : String) (content : String → Except Exc DraftJson)
    (ds : List DraftJson) (s : Service) : Prop :=
  ∀ d ∈ ds, ∀ data, (versionKey inboxId d, data) ∈ s.cache.items →
    renderingOf cfg inboxId content d = some data

/-- Drafts of one cache key have one rendering. -/
def VersionsApart (cfg : Config) (inboxId : String) (content : String → Except Exc DraftJson)
    (ds : List DraftJson) : Prop :=
  ∀ d ∈ ds, ∀ d' ∈ ds, versionKey inboxId d = versionKey inboxId d' →
    renderingOf cfg inboxId content d = renderingOf cfg inboxId content d'

/-! ## What else it depends on -/

/-- Two services that agree on the store, the clocks and the pins of a mailbox. -/
structure SameView (key : Key) (a b : Service) : Prop where
  store : b.store = a.store
  watermark : b.watermark = a.watermark
  clock : b.clock = a.clock
  now : b.now = a.now
  time : b.time = a.time
  pinned : b.pinned key = a.pinned key

theorem SameView.refl (key : Key) (a : Service) : SameView key a a := ⟨rfl, rfl, rfl, rfl, rfl, rfl⟩

theorem SameView.symm {key : Key} {a b : Service} (h : SameView key a b) : SameView key b a :=
  ⟨h.store.symm, h.watermark.symm, h.clock.symm, h.now.symm, h.time.symm, h.pinned.symm⟩

theorem SameView.trans {key : Key} {a b c : Service} (h : SameView key a b)
    (h' : SameView key b c) : SameView key a c :=
  ⟨h'.store.trans h.store, h'.watermark.trans h.watermark, h'.clock.trans h.clock,
    h'.now.trans h.now, h'.time.trans h.time, h'.pinned.trans h.pinned⟩

/-- What others may do while `t` lists the mailbox: they leave alone what the listing
depends on. -/
structure Beside (cfg : Config) (t : Tid) (inboxId : String) (key : Key)
    (content : String → Except Exc DraftJson) (ds : List DraftJson) (a b : Service) : Prop where
  view : SameView key a b
  holds : b.labelOverrides = a.labelOverrides
  listing : b.listings t = a.listings t
  cached : InLine cfg inboxId content ds a → InLine cfg inboxId content ds b

theorem Beside.refl (content : String → Except Exc DraftJson) (ds : List DraftJson) (key : Key)
    (s : Service) : Beside cfg t inboxId key content ds s s :=
  ⟨.refl key s, rfl, rfl, id⟩

/-! ## Loops over what is shown -/

section Loops

variable {α : Type} {rely : Service → Service → Prop} {shown : Steps → List α} {idOf : α → String}
  {I : List α → Service → Prop} {ok : Steps → Prop} {page : Option String → Svc (Page α)}
  {body : α → Svc Unit} {among : List α}

/-- What one item of a page adds: nothing is shown besides, and the item joins those done. -/
def Adds (t : Tid) (cfg : Config) (rely : Service → Service → Prop) (shown : Steps → List α)
    (idOf : α → String) (I : List α → Service → Prop) (ok : Steps → Prop) (among : List α)
    (body : α → Svc Unit) : Prop :=
  ∀ x done s steps s', (body x).Takes (Act.exec cfg t) rely s steps (.ok ()) s' → ok steps →
    x ∈ among → idOf x ∉ done.map idOf → I done s → shown steps = [] ∧ I (done ++ [x]) s'

/-- What asking for a page does: the page is shown, and nothing else happens. -/
def Pages (t : Tid) (cfg : Config) (rely : Service → Service → Prop) (shown : Steps → List α)
    (I : List α → Service → Prop) (page : Option String → Svc (Page α)) : Prop :=
  ∀ token s steps p s', (page token).Takes (Act.exec cfg t) rely s steps (.ok p) s' →
    shown steps = p.items ∧ ∀ done, I done s → I done s'

theorem each_adds (happend : ∀ a b, shown (a ++ b) = shown a ++ shown b)
    (hsplit : ∀ a b, ok (a ++ b) → ok a ∧ ok b)
    (hbody : Adds t cfg rely shown idOf I ok among body) {xs done : List α} {s s' : Service}
    {steps : Steps}
    (h : (Coro.each body xs).Takes (Act.exec cfg t) rely s steps (.ok ()) s') (hok : ok steps)
    (hxs : ∀ x ∈ xs, x ∈ among) (hdistinct : ((done ++ xs).map idOf).Nodup) (hI : I done s) :
    shown steps = shown [] ∧ I (done ++ xs) s' := by
  induction xs generalizing done s steps with
  | nil =>
    cases h
    rw [List.append_nil]
    exact ⟨rfl, hI⟩
  | cons x xs ih =>
    rcases Coro.Takes.of_bind h with ⟨e, herror, _⟩ | ⟨⟨⟩, s₁, steps₁, steps₂, rfl, hx, hrest⟩
    · cases herror
    · obtain ⟨hok₁, hok₂⟩ := hsplit _ _ hok
      have hnew : idOf x ∉ done.map idOf := by
        rw [List.map_append, List.nodup_append] at hdistinct
        intro hmem
        exact hdistinct.2.2 _ hmem _ List.mem_cons_self rfl
      obtain ⟨hnone, hI₁⟩ := hbody x done s steps₁ s₁ hx hok₁ (hxs x List.mem_cons_self) hnew hI
      have hdistinct' : (((done ++ [x]) ++ xs).map idOf).Nodup := by
        rwa [List.append_assoc, List.singleton_append]
      obtain ⟨hrest', hI'⟩ := ih hrest hok₂ (fun y hy => hxs y (List.mem_cons_of_mem _ hy))
        hdistinct' hI₁
      rw [List.append_assoc, List.singleton_append] at hI'
      exact ⟨by rw [happend, hnone, hrest', List.nil_append], hI'⟩

/-- A listing that ends has done everything it was shown, in order. -/
theorem paginate_adds (hnil : shown [] = [])
    (happend : ∀ a b, shown (a ++ b) = shown a ++ shown b)
    (hsplit : ∀ a b, ok (a ++ b) → ok a ∧ ok b) (hpage : Pages t cfg rely shown I page)
    (hbody : Adds t cfg rely shown idOf I ok among body) {fuel : Nat} {token : Option String}
    {seen : List String} {done : List α} {s s' : Service} {steps : Steps}
    (h : (paginate page body fuel token seen).Takes (Act.exec cfg t) rely s steps (.ok ()) s')
    (hok : ok steps) (hshown : ∀ x ∈ shown steps, x ∈ among)
    (hdistinct : ((done ++ shown steps).map idOf).Nodup) (hI : I done s) :
    I (done ++ shown steps) s' := by
  induction fuel generalizing token seen done s steps with
  | zero => cases h
  | succ fuel ih =>
    rw [paginate] at h
    rcases Coro.Takes.of_bind h with ⟨e, herror, _⟩ | ⟨p, s₁, steps₁, steps₂, rfl, hp, hrest⟩
    · cases herror
    rcases Coro.Takes.of_bind hrest with ⟨e, herror, _⟩ | ⟨⟨⟩, s₂, steps₃, steps₄, rfl, heach, hk⟩
    · cases herror
    obtain ⟨-, hok₂⟩ := hsplit _ _ hok
    obtain ⟨hok₃, hok₄⟩ := hsplit _ _ hok₂
    obtain ⟨hpage₁, hI₁⟩ := hpage token s steps₁ p s₁ hp
    rw [happend, happend, hpage₁] at hshown hdistinct ⊢
    have hdistinct₁ : ((done ++ p.items).map idOf).Nodup := by
      rw [← List.append_assoc, List.map_append] at hdistinct
      exact (List.nodup_append.mp hdistinct).1
    obtain ⟨hnone, hI₂⟩ := each_adds happend hsplit hbody heach hok₃
      (fun x hx => hshown x (List.mem_append_left _ hx)) hdistinct₁ (hI₁ done hI)
    rw [hnone, hnil, List.nil_append] at hshown hdistinct ⊢
    split at hk
    · cases hk
      rw [hnil, List.append_nil]
      exact hI₂
    · split at hk
      · cases hk
      · rw [← List.append_assoc] at hdistinct ⊢
        exact ih hk hok₄ (fun x hx => hshown x (List.mem_append_right _ hx)) hdistinct hI₂

end Loops

/-! ## Messages -/

/-- A listing of `t` that has come so far from the service `a`. -/
structure Gathered (t : Tid) (a : Service) (l : Listing) (ids : List String)
    (entries : List Entry) (s : Service) : Prop where
  view : SameView l.key a s
  listing : s.listings t = some { l with seen := ids, entries := entries }

theorem Service.effectiveLabels_congr {a b : Service} {i id : String}
    (hholds : b.labelOverrides (i, id) = a.labelOverrides (i, id)) (htime : b.time = a.time)
    (listed : Labels) : (b.effectiveLabels i id listed).1 = (a.effectiveLabels i id listed).1 := by
  simp only [Service.effectiveLabels, hholds, htime]
  split
  · rfl
  · split <;> rfl

/-- The hold of another message stays. -/
theorem Service.effectiveLabels_others (s : Service) {i id id' : String} (hne : id' ≠ id)
    (listed : Labels) :
    (s.effectiveLabels i id listed).2 (i, id') = s.labelOverrides (i, id') := by
  have hkey : (i, id') ≠ (i, id) := fun h => hne (Prod.ext_iff.mp h).2
  simp only [Service.effectiveLabels]
  split
  · rfl
  · split
    · exact Function.update_of_ne hkey ..
    · rfl

theorem Service.messageEntries_congr {a b : Service} {l l' : Listing} {m : MessageJson}
    (hmdef : l'.mdef = l.mdef) (hid : l'.inboxId = l.inboxId)
    (hholds : b.labelOverrides (l.inboxId, orEmpty m.messageId) =
      a.labelOverrides (l.inboxId, orEmpty m.messageId)) (htime : b.time = a.time) :
    b.messageEntries cfg l' m = a.messageEntries cfg l m := by
  simp only [Service.messageEntries, hmdef, hid, Service.effectiveLabels_congr hholds htime]

/-- The messages of `done` are gathered, and the holds of the others are as they were. -/
structure MessagesDone (cfg : Config) (t : Tid) (a : Service) (l : Listing)
    (done : List MessageJson) (s : Service) : Prop where
  gathered : Gathered t a l (done.map fun m => orEmpty m.messageId)
    (done.flatMap (a.messageEntries cfg l)) s
  holds : ∀ id ∉ done.map (fun m => orEmpty m.messageId),
    s.labelOverrides (l.inboxId, id) = a.labelOverrides (l.inboxId, id)

section

variable {a s s' : Service} {l : Listing} {content : String → Except Exc DraftJson}
  {ds : List DraftJson}

theorem Gathered.beside {ids : List String} {entries : List Entry}
    (h : Gathered t a l ids entries s) (hr : Beside cfg t inboxId l.key content ds s s') :
    Gathered t a l ids entries s' :=
  ⟨h.view.trans hr.view, hr.listing.trans h.listing⟩

theorem MessagesDone.beside {done : List MessageJson} (h : MessagesDone cfg t a l done s)
    (hr : Beside cfg t inboxId l.key content ds s s') : MessagesDone cfg t a l done s' :=
  ⟨h.gathered.beside hr, fun id hid => by rw [hr.holds, h.holds id hid]⟩

theorem MessagesDone.collect {done : List MessageJson} {m : MessageJson}
    (h : MessagesDone cfg t a l done s)
    (hnew : orEmpty m.messageId ∉ done.map fun m => orEmpty m.messageId) :
    MessagesDone cfg t a l (done ++ [m]) (s.collectMessage cfg t m) := by
  have hentries : s.messageEntries cfg { l with
      seen := done.map fun m => orEmpty m.messageId
      entries := done.flatMap (a.messageEntries cfg l) } m = a.messageEntries cfg l m :=
    Service.messageEntries_congr rfl rfl (h.holds _ hnew) h.gathered.view.time
  rw [Service.collectMessage_unseen cfg h.gathered.listing hnew]
  constructor
  · refine ⟨⟨h.gathered.view.store, h.gathered.view.watermark, h.gathered.view.clock,
      h.gathered.view.now, h.gathered.view.time, h.gathered.view.pinned⟩, ?_⟩
    rw [List.map_append, List.flatMap_append, List.flatMap_singleton]
    show Function.update s.listings t _ t = _
    rw [Function.update_self, hentries]
    rfl
  · intro id hid
    rw [List.map_append, List.mem_append, not_or] at hid
    have hne : id ≠ orEmpty m.messageId := fun heq => hid.2 (heq ▸ List.mem_singleton_self _)
    show (s.effectiveLabels l.inboxId (orEmpty m.messageId) (labelSet m.labels)).2 _ = _
    rw [s.effectiveLabels_others hne, h.holds id hid.1]

theorem collectMessages_done {mdef : MailboxDef} {steps : Steps}
    (h : (collectMessages cfg api inboxId mdef).Takes (Act.exec cfg t)
      (Beside cfg t inboxId l.key content ds) s steps (.ok ()) s')
    (hdistinct : ((messagesOf steps).map fun m => orEmpty m.messageId).Nodup)
    (hs : MessagesDone cfg t a l [] s) : MessagesDone cfg t a l (messagesOf steps) s' := by
  have hpage : Pages t cfg (Beside cfg t inboxId l.key content ds) messagesOf
      (MessagesDone cfg t a l) fun token => ask (.listMessages api inboxId mdef token) := by
    intro token s₁ steps₁ p s₂ hp
    cases hp with
    | await hr answer hanswer =>
      cases answer with
      | error e => cases hanswer
      | ok page =>
        cases hanswer
        exact ⟨List.append_nil _, fun done hI => hI.beside hr⟩
  have hbody : Adds t cfg (Beside cfg t inboxId l.key content ds) messagesOf
      (fun m => orEmpty m.messageId) (MessagesDone cfg t a l) (fun _ => True) (messagesOf steps)
      collectMessage := by
    intro m done s₁ steps₁ s₂ hm _ _ hnew hI
    unfold collectMessage at hm
    split at hm
    · cases hm
    · cases hm with
      | act hm =>
        cases hm
        exact ⟨rfl, hI.collect hnew⟩
  exact paginate_adds rfl (fun _ _ => List.flatMap_append) (fun _ _ _ => ⟨trivial, trivial⟩) hpage
    hbody h trivial (fun _ hx => hx) hdistinct hs

/-! ## Drafts -/

/-- The entries of a draft: none when it is gone. -/
def draftEntries (cfg : Config) (inboxId : String) (content : String → Except Exc DraftJson)
    (d : DraftJson) : List Entry :=
  (renderingOf cfg inboxId content d).toList.map (Service.draftEntry cfg inboxId d)

structure DraftsDone (cfg : Config) (t : Tid) (a : Service) (l : Listing)
    (content : String → Except Exc DraftJson) (ds done : List DraftJson) (s : Service) : Prop where
  gathered : Gathered t a l (done.map fun d => orEmpty d.draftId)
    (done.flatMap (draftEntries cfg l.inboxId content)) s
  inLine : InLine cfg l.inboxId content ds s

theorem DraftsDone.beside {done : List DraftJson} (h : DraftsDone cfg t a l content ds done s)
    (hr : Beside cfg t l.inboxId l.key content ds s s') : DraftsDone cfg t a l content ds done s' :=
  ⟨h.gathered.beside hr, hr.cached h.inLine⟩

/-- Only the cache differs. -/
theorem Gathered.cached {ids : List String} {entries : List Entry}
    (h : Gathered t a l ids entries s) (cache : ByteCache) :
    Gathered t a l ids entries { s with cache := cache } :=
  ⟨⟨h.view.store, h.view.watermark, h.view.clock, h.view.now, h.view.time, h.view.pinned⟩,
    h.listing⟩

theorem body_ne_version (inboxId key : String) (d : DraftJson) :
    versionKey inboxId d ≠ ckey inboxId "body" key := by
  intro h
  have hlist := congrArg String.toList h
  simp only [versionKey, ckey, String.toList_append, List.append_assoc,
    List.append_cancel_left_eq] at hlist
  simp at hlist

/-- What comes of `_render_draft` is the rendering upstream holds. -/
theorem renderDraft_takes {ids : List String} {entries : List Entry} {d : DraftJson}
    {r : Option Bytes} {steps : Steps}
    (h : (renderDraft cfg api inboxId (orEmpty d.draftId) (orEmpty d.updatedAt)).Takes
      (Act.exec cfg t) (Beside cfg t inboxId l.key content ds) s steps (.ok r) s')
    (hfetched : FetchedFrom content steps) (hd : d ∈ ds)
    (hapart : VersionsApart cfg inboxId content ds) (hs : Gathered t a l ids entries s)
    (hline : InLine cfg inboxId content ds s) :
    r = renderingOf cfg inboxId content d ∧ draftsOf steps = [] ∧ Gathered t a l ids entries s' ∧
      InLine cfg inboxId content ds s' := by
  rw [renderDraft] at h
  have h := Coro.Takes.of_read h
  split at h
  · rename_i cached hcached
    cases h with
    | act h =>
      cases h
      have hrendering := hline d hd cached (ByteCache.mem_of_find hcached)
      exact ⟨hrendering.symm, rfl, hs.cached _,
        fun d' hd' data hmem => hline d' hd' data (ByteCache.mem_moveToEnd hmem)⟩
  · cases h with
    | await hr answer h =>
      have hcontent : answer = content (orEmpty d.draftId) := hfetched _ _ _ _ List.mem_cons_self
      have hs₁ := hs.beside hr
      have hline₁ := hr.cached hline
      cases answer with
      | error e =>
        cases e with
        | notFound =>
          cases h
          refine ⟨?_, rfl, hs₁, hline₁⟩
          rw [renderingOf, ← hcontent]
        | _ => cases h
      | ok full =>
        have hrendering : renderingOf cfg inboxId content d = cfg.renderDraft full inboxId := by
          rw [renderingOf, ← hcontent]
        simp only [Coro.ofExcept, Coro.bind, Coro.handle] at h
        cases hrender : cfg.renderDraft full inboxId with
        | none =>
          rw [hrender] at h
          cases h
        | some rendered =>
          rw [hrender] at h hrendering
          cases h with
          | act h =>
            cases h with
            | act h =>
              cases h
              refine ⟨hrendering.symm, rfl, ⟨⟨hs₁.view.store, hs₁.view.watermark,
                hs₁.view.clock, hs₁.view.now, hs₁.view.time, hs₁.view.pinned⟩, hs₁.listing⟩, ?_⟩
              intro d' hd' data hmem
              rcases ByteCache.mem_put hmem with hold | hnew
              · exact hline₁ d' hd' data hold
              · obtain ⟨hkey, rfl⟩ := Prod.ext_iff.mp hnew
                rw [hapart d' hd' d hd hkey, hrendering]

/-- A draft not seen yet is marked seen. -/
theorem Gathered.see {ids : List String} {entries : List Entry} (h : Gathered t a l ids entries s)
    (id : String) : Gathered t a l (ids ++ [id]) entries (s.see t id) := by
  refine ⟨⟨h.view.store, h.view.watermark, h.view.clock, h.view.now, h.view.time,
    h.view.pinned⟩, ?_⟩
  show Function.update s.listings t _ t = _
  rw [Function.update_self, h.listing]
  rfl

/-- A draft that is rendered joins the entries. -/
theorem DraftsDone.collect {done : List DraftJson} {d : DraftJson} {rendered : Bytes}
    (hs : Gathered t a l ((done ++ [d]).map fun d => orEmpty d.draftId)
      (done.flatMap (draftEntries cfg l.inboxId content)) s)
    (hline : InLine cfg l.inboxId content ds s)
    (hrendered : renderingOf cfg l.inboxId content d = some rendered) :
    DraftsDone cfg t a l content ds (done ++ [d]) (s.collectDraft cfg t d rendered) := by
  unfold Service.collectDraft
  rw [hs.listing]
  constructor
  · refine ⟨⟨hs.view.store, hs.view.watermark, hs.view.clock, hs.view.now, hs.view.time,
      hs.view.pinned⟩, ?_⟩
    rw [List.flatMap_append, List.flatMap_singleton, draftEntries, hrendered]
    show Function.update s.listings t _ t = _
    rw [Function.update_self, hs.listing]
    rfl
  · intro d' hd' data hmem
    rcases ByteCache.mem_put hmem with hold | hnew
    · exact hline d' hd' data hold
    · exact absurd (Prod.ext_iff.mp hnew).1 (body_ne_version _ _ _)

theorem collectDraft_takes {done : List DraftJson} {d : DraftJson} {steps : Steps}
    (h : (collectDraft cfg t api l.inboxId d).Takes (Act.exec cfg t)
      (Beside cfg t l.inboxId l.key content ds) s steps (.ok ()) s')
    (hfetched : FetchedFrom content steps) (hd : d ∈ ds)
    (hapart : VersionsApart cfg l.inboxId content ds)
    (hnew : orEmpty d.draftId ∉ done.map fun d => orEmpty d.draftId)
    (hs : DraftsDone cfg t a l content ds done s) :
    draftsOf steps = [] ∧ DraftsDone cfg t a l content ds (done ++ [d]) s' := by
  rw [collectDraft] at h
  simp only at h
  split at h
  · cases h
  · have h := Coro.Takes.of_read h
    have hunseen : orEmpty d.draftId ∉ ((s.listings t).map (·.seen)).getD [] := by
      rw [hs.gathered.listing]
      exact hnew
    rw [if_neg hunseen] at h
    obtain ⟨rest, rfl, hrender⟩ := Coro.Takes.of_perform h
    have hfetched₁ : FetchedFrom content rest := fun api i id a ha =>
      hfetched api i id a (List.mem_cons_of_mem _ ha)
    have hsee := hs.gathered.see (orEmpty d.draftId)
    rw [← List.map_singleton (f := fun d : DraftJson => orEmpty d.draftId), ← List.map_append]
      at hsee
    rcases Coro.Takes.of_bind hrender with ⟨e, herror, _⟩ |
      ⟨r, s₁, steps₁, steps₂, rfl, hr, hk⟩
    · cases herror
    · obtain ⟨rfl, hnone, hs₁, hline₁⟩ := renderDraft_takes hr
        (fun api i id a ha => hfetched₁ api i id a (List.mem_append_left _ ha)) hd hapart hsee
        hs.inLine
      cases hrendered : renderingOf cfg l.inboxId content d with
      | none =>
        rw [hrendered] at hk
        cases hk
        rw [List.append_nil]
        refine ⟨hnone, ⟨?_, hline₁⟩⟩
        rw [List.flatMap_append, List.flatMap_singleton, draftEntries, hrendered]
        exact (List.append_nil _).symm ▸ hs₁
      | some rendered =>
        rw [hrendered] at hk
        cases hk with
        | act hk =>
          cases hk
          refine ⟨?_, DraftsDone.collect hs₁ hline₁ hrendered⟩
          show draftsOf (steps₁ ++ _) = []
          rw [draftsOf, List.flatMap_append]
          exact (congrArg (· ++ _) hnone).trans rfl

theorem collectDrafts_done {steps : Steps}
    (h : (collectDrafts cfg t api l.inboxId).Takes (Act.exec cfg t)
      (Beside cfg t l.inboxId l.key content ds) s steps (.ok ()) s')
    (hfetched : FetchedFrom content steps) (hds : draftsOf steps ⊆ ds)
    (hapart : VersionsApart cfg l.inboxId content ds)
    (hdistinct : ((draftsOf steps).map fun d => orEmpty d.draftId).Nodup)
    (hs : DraftsDone cfg t a l content ds [] s) :
    DraftsDone cfg t a l content ds (draftsOf steps) s' := by
  have hpage : Pages t cfg (Beside cfg t l.inboxId l.key content ds) draftsOf
      (DraftsDone cfg t a l content ds) fun token => ask (.listDrafts api l.inboxId token) := by
    intro token s₁ steps₁ p s₂ hp
    cases hp with
    | await hr answer hanswer =>
      cases answer with
      | error e => cases hanswer
      | ok page =>
        cases hanswer
        exact ⟨List.append_nil _, fun done hI => hI.beside hr⟩
  have hbody : Adds t cfg (Beside cfg t l.inboxId l.key content ds) draftsOf
      (fun d => orEmpty d.draftId) (DraftsDone cfg t a l content ds) (FetchedFrom content) ds
      (collectDraft cfg t api l.inboxId) :=
    fun d done s₁ steps₁ s₂ hd hok hmem hnew hI => collectDraft_takes hd hok hmem hapart hnew hI
  have hsplit : ∀ x y : Steps, FetchedFrom content (x ++ y) →
      FetchedFrom content x ∧ FetchedFrom content y := fun x y hok =>
    ⟨fun api i id a ha => hok api i id a (List.mem_append_left _ ha),
      fun api i id a ha => hok api i id a (List.mem_append_right _ ha)⟩
  exact paginate_adds rfl (fun _ _ => List.flatMap_append) hsplit hpage hbody h hfetched hds
    hdistinct hs

/-! ## The entries of a listing -/

/-- The entries of what a listing was shown, in order. -/
def entriesOf (cfg : Config) (a : Service) (l : Listing) (content : String → Except Exc DraftJson)
    (steps : Steps) : List Entry :=
  match l.mdef.kind with
  | .messages => (messagesOf steps).flatMap (a.messageEntries cfg l)
  | .drafts => (draftsOf steps).flatMap (draftEntries cfg l.inboxId content)

/-- An entry is sorted by its time and its id, and keyed as its mailbox keys it. -/
structure Entry.Placed (cfg : Config) (kind : Kind) (e : Entry) : Prop where
  id : e.sortKey.2 = e.remoteId
  keyed : Keyed cfg kind e

theorem messageEntries_placed {m : MessageJson} {e : Entry} (he : e ∈ a.messageEntries cfg l m) :
    e.Placed cfg .messages ∧ e.remoteId = orEmpty m.messageId := by
  simp only [Service.messageEntries] at he
  split at he
  · cases he
  · rw [List.mem_singleton.mp he]
    exact ⟨⟨rfl, rfl⟩, rfl⟩

theorem draftEntries_placed {d : DraftJson} {e : Entry}
    (he : e ∈ draftEntries cfg inboxId content d) :
    e.Placed cfg .drafts ∧ e.remoteId = orEmpty d.draftId := by
  obtain ⟨rendered, _, rfl⟩ := List.mem_map.mp he
  exact ⟨⟨rfl, rendered, rfl⟩, rfl⟩

/-- Where each element gives at most one entry, of its own id, distinct ids stay distinct. -/
theorem flatMap_ids {α : Type} {f : α → List Entry} {idOf : α → String} {xs : List α}
    (hone : ∀ x, (f x).length ≤ 1) (hid : ∀ x, ∀ e ∈ f x, e.remoteId = idOf x) :
    ((xs.flatMap f).map (·.remoteId)).Sublist (xs.map idOf) := by
  induction xs with
  | nil => exact List.Sublist.refl _
  | cons x xs ih =>
    rw [List.flatMap_cons, List.map_append, List.map_cons]
    have hx := hone x
    have hids := hid x
    cases hf : f x with
    | nil => exact ih.cons _
    | cons e rest =>
      rw [hf] at hx hids
      cases rest with
      | nil =>
        rw [← hids e List.mem_cons_self]
        exact ih.cons_cons _
      | cons e' rest =>
        simp only [List.length_cons] at hx
        omega

theorem messageEntries_length (m : MessageJson) : (a.messageEntries cfg l m).length ≤ 1 := by
  simp only [Service.messageEntries]
  split
  · exact Nat.zero_le _
  · exact Nat.le_refl _

theorem draftEntries_length (d : DraftJson) : (draftEntries cfg inboxId content d).length ≤ 1 := by
  rw [draftEntries, List.length_map]
  cases renderingOf cfg inboxId content d with
  | none => exact Nat.zero_le _
  | some rendered => exact Nat.le_refl _

/-- The ids a listing was shown differ. -/
structure Distinct (steps : Steps) : Prop where
  messages : ((messagesOf steps).map fun m => orEmpty m.messageId).Nodup
  drafts : ((draftsOf steps).map fun d => orEmpty d.draftId).Nodup

variable {steps : Steps}

theorem entriesOf_ids (h : Distinct steps) :
    ((entriesOf cfg a l content steps).map (·.remoteId)).Nodup := by
  unfold entriesOf
  cases l.mdef.kind with
  | messages =>
    exact h.messages.sublist (flatMap_ids messageEntries_length
      fun _ _ he => (messageEntries_placed he).2)
  | drafts =>
    exact h.drafts.sublist (flatMap_ids draftEntries_length
      fun _ _ he => (draftEntries_placed he).2)

theorem entriesOf_placed {e : Entry} (he : e ∈ entriesOf cfg a l content steps) :
    e.Placed cfg l.mdef.kind := by
  unfold entriesOf at he
  cases hkind : l.mdef.kind with
  | messages =>
    rw [hkind] at he
    obtain ⟨m, _, he⟩ := List.mem_flatMap.mp he
    exact (messageEntries_placed he).1
  | drafts =>
    rw [hkind] at he
    obtain ⟨d, _, he⟩ := List.mem_flatMap.mp he
    exact (draftEntries_placed he).1

/-- The order of a listing tells its entries apart. -/
theorem entriesOf_apart (h : Distinct steps) :
    (entriesOf cfg a l content steps).Pairwise
      (Sorting.Apart fun x y => sortLe x y = true) := by
  have hids : (entriesOf cfg a l content steps).Pairwise fun x y => x.remoteId ≠ y.remoteId :=
    List.pairwise_map.mp (entriesOf_ids h)
  refine hids.imp_of_mem fun {x y} hx hy hne hboth => hne ?_
  obtain ⟨hxy, hyx⟩ := hboth
  simp only [sortLe, Bool.or_eq_true, Bool.and_eq_true, decide_eq_true_eq] at hxy hyx
  rw [← (entriesOf_placed hx).id, ← (entriesOf_placed hy).id]
  rcases hxy with hlt | ⟨heq, hle⟩
  · rcases hyx with hlt' | ⟨heq', _⟩
    · omega
    · omega
  · rcases hyx with hlt' | ⟨_, hle'⟩
    · omega
    · exact String.le_antisymm hle hle'

/-! ## Publication -/

instance : Std.Total fun x y : Entry => sortLe x y = true where
  total x y := by
    simp only [sortLe, Bool.or_eq_true, Bool.and_eq_true, decide_eq_true_eq]
    have hkey := String.le_total x.sortKey.2 y.sortKey.2
    by_cases hlt : x.sortKey.1 < y.sortKey.1
    · exact Or.inl (Or.inl hlt)
    · by_cases heq : x.sortKey.1 = y.sortKey.1
      · exact hkey.imp (fun h => Or.inr ⟨heq, h⟩) fun h => Or.inr ⟨heq.symm, h⟩
      · exact Or.inr (Or.inl (by omega))

instance : IsTrans Entry fun x y => sortLe x y = true where
  trans x y z hxy hyz := by
    simp only [sortLe, Bool.or_eq_true, Bool.and_eq_true, decide_eq_true_eq] at hxy hyz ⊢
    rcases hxy with hlt | ⟨heq, hle⟩
    · rcases hyz with hlt' | ⟨heq', _⟩
      · exact Or.inl (by omega)
      · exact Or.inl (by omega)
    · rcases hyz with hlt' | ⟨heq', hle'⟩
      · exact Or.inl (by omega)
      · exact Or.inr ⟨heq.trans heq', String.le_trans hle hle'⟩

/-- The pins that stay depend on what was found, not on its order. -/
theorem applyPins_perm {entries entries' : List Entry} (h : entries.Perm entries') (time : Nat)
    (pins : List Pin) :
    (Service.applyPins time pins entries).1 = (Service.applyPins time pins entries').1 := by
  apply List.filter_congr
  intro pin _
  have hmem := (h.map (·.remoteKey)).mem_iff (a := pin.remoteKey)
  simp only [hmem]

theorem Service.collected_perm {b : Service} {l' : Listing} (hview : SameView l.key a b)
    (hkey : l'.key = l.key) (hperm : l.entries.Perm l'.entries)
    (hapart : l.entries.Pairwise (Sorting.Apart fun x y => sortLe x y = true)) :
    b.collected l' = a.collected l := by
  have hpins := applyPins_perm hperm a.time (a.pinned l.key)
  rw [Service.collected, Service.collected, hkey, hview.time, hview.pinned]
  show sortEntries (l'.entries ++ (Service.applyPins a.time (a.pinned l.key) l'.entries).1.map _) =
    sortEntries (l.entries ++ (Service.applyPins a.time (a.pinned l.key) l.entries).1.map _)
  rw [← hpins]
  exact (Sorting.insertionSort_arrivals hperm hapart _).symm

theorem Service.reconcile_congr {b : Service} {key : Key} (h : SameView key a b) (key' : Key)
    (keys : List (String × String)) :
    (b.reconcile key' keys).1.store = (a.reconcile key' keys).1.store ∧
      (b.reconcile key' keys).2 = (a.reconcile key' keys).2 := by
  obtain ⟨hstore, hwatermark, hclock, hnow, -, -⟩ := h
  simp only [Service.reconcile, Service.ensureUids, Service.tombstoneMissing, Service.mailboxInfo,
    Service.nextUidvalidity, Service.watermarkAfter, hstore, hwatermark, hclock, hnow, and_self]

theorem Service.reconcile_store (s : Service) (key : Key) (keys : List (String × String)) :
    (s.reconcile key keys).1.store =
      (((s.store.ensureUids s.nextUidvalidity s.now key.1 key.2 keys).1.tombstoneMissing s.now key.1
        key.2 (keys.map (·.1))).ensureMailbox
        ((s.ensureUids key keys).1.tombstoneMissing key (keys.map (·.1))).nextUidvalidity key.1
        key.2).1 := rfl

/-- What a publication leaves of a mailbox: the store, its pins and the snapshot. -/
theorem Service.publish_leaves {t : Tid} (hl : s.listings t = some l) :
    let keys := (s.collected l).map fun e => (e.remoteKey, e.remoteId)
    let r := s.reconcile l.key keys
    (s.publish t).store = r.1.store ∧
    (s.publish t).pinned l.key = (Service.applyPins s.time (s.pinned l.key) l.entries).1 ∧
    (s.publish t).published t = some ⟨l.key.1, l.key.2, r.2.2.1, r.2.2.2,
      sortItems ((s.collected l).map fun e => e.build ((r.2.1.lookup e.remoteKey).getD 0)),
      s.versions l.key + 1, s.time, l.no⟩ := by
  have hcollected : sortEntries (Service.applyPins s.time (s.pinned l.key) l.entries).2 =
      s.collected l := rfl
  simp only [Service.publish, hl, hcollected, Function.update_self, and_self]

/-- Two publications of one mailbox leave the same behind. -/
structure Agreement (key : Key) (s₁ s₂ : Service) (snap₁ snap₂ : Snapshot) : Prop where
  store : s₁.store = s₂.store
  pinned : s₁.pinned key = s₂.pinned key
  uidvalidity : snap₁.uidvalidity = snap₂.uidvalidity
  uidnext : snap₁.uidnext = snap₂.uidnext
  items : snap₁.items = snap₂.items

theorem Service.publish_perm {t₁ t₂ : Tid} {b : Service} {l' : Listing} {snap₁ snap₂ : Snapshot}
    (hview : SameView l.key a b) (hl : a.listings t₁ = some l) (hl' : b.listings t₂ = some l')
    (hkey : l'.key = l.key) (hperm : l.entries.Perm l'.entries)
    (hapart : l.entries.Pairwise (Sorting.Apart fun x y => sortLe x y = true))
    (hsnap₁ : (a.publish t₁).published t₁ = some snap₁)
    (hsnap₂ : (b.publish t₂).published t₂ = some snap₂) :
    Agreement l.key (a.publish t₁) (b.publish t₂) snap₁ snap₂ := by
  obtain ⟨hstore₁, hpins₁, hpublished₁⟩ := a.publish_leaves hl
  obtain ⟨hstore₂, hpins₂, hpublished₂⟩ := b.publish_leaves hl'
  have hcollected := Service.collected_perm hview hkey hperm hapart
  rw [hkey] at hstore₂ hpins₂ hpublished₂
  rw [hcollected] at hstore₂ hpublished₂
  obtain ⟨hstore, hreply⟩ := Service.reconcile_congr hview l.key
    ((a.collected l).map fun e => (e.remoteKey, e.remoteId))
  rw [hsnap₁] at hpublished₁
  rw [hsnap₂, hreply] at hpublished₂
  cases hpublished₁
  cases hpublished₂
  refine ⟨hstore₁.trans (hstore.symm.trans hstore₂.symm), ?_, rfl, rfl, rfl⟩
  rw [hpins₁, hpins₂, hview.time, hview.pinned, applyPins_perm hperm]

/-- How a publication numbers its entries: in ascending order, known keys keep their UIDs
and the others get consecutive ones. -/
structure Numbered (d d' : Store.Db) (key : Key) (entries : List Entry) : Prop where
  ascending : entries.Pairwise fun x y => sortLe x y = true
  kept : ∀ e ∈ entries, ∀ u, d.liveUid key.1 key.2 e.remoteKey = some u →
    d'.liveUid key.1 key.2 e.remoteKey = some u
  consecutive :
    let new := entries.filter fun e => (d.liveUid key.1 key.2 e.remoteKey).isNone
    new.map (fun e => d'.liveUid key.1 key.2 e.remoteKey) =
      (List.range' (d.nextUid key.1 key.2) new.length).map some

theorem Service.publish_numbered {t : Tid} (hok : s.store.Ok) (hl : s.listings t = some l)
    (hkeys : ((s.collected l).map (·.remoteKey)).Nodup) :
    Numbered s.store (s.publish t).store l.key (s.collected l) := by
  obtain ⟨hstore, -, -⟩ := s.publish_leaves hl
  have hfilter : ((s.collected l).map fun e => (e.remoteKey, e.remoteId)).filter
      (fun key => (s.store.liveUid l.key.1 l.key.2 key.1).isNone) =
      ((s.collected l).filter fun e => (s.store.liveUid l.key.1 l.key.2 e.remoteKey).isNone).map
        fun e => (e.remoteKey, e.remoteId) := List.filter_map
  have hnodup : (((s.collected l).map fun e => (e.remoteKey, e.remoteId)).map (·.1)).Nodup := by
    rw [List.map_map]
    exact hkeys
  generalize (s.collected l).map (fun e => (e.remoteKey, e.remoteId)) = keys
    at hstore hfilter hnodup
  refine ⟨List.pairwise_insertionSort _ _, fun e he u hu => ?_, ?_⟩
  · obtain ⟨store, watermark, v, hrec, heq⟩ := Service.publish_eq hok hl
    rw [heq]
    exact hrec.kept _ (List.mem_map_of_mem he) u hu
  · have hnew := hok.reconciled_consecutive s.nextUidvalidity
      ((s.ensureUids l.key keys).1.tombstoneMissing l.key (keys.map (·.1))).nextUidvalidity s.now
      s.now l.key.1 l.key.2 hnodup
    dsimp only at hnew ⊢
    rw [hfilter, List.map_map, List.length_map, ← Service.reconcile_store, ← hstore] at hnew
    exact hnew

end

/-! ## Two listings -/

/-- A listing of a mailbox that has ended: what it was shown, and what it had to go by. -/
structure ListingRun (cfg : Config) (t : Tid) (api : Client) (inboxId : String) (mdef : MailboxDef)
    (content : String → Except Exc DraftJson) (s : Service) (steps : Steps) (snap : Snapshot)
    (s' : Service) : Prop where
  run : (doSync cfg t api inboxId mdef).Takes (Act.exec cfg t)
    (Beside cfg t inboxId (inboxId, mdef.name) content (draftsOf steps)) s steps (.ok snap) s'
  fetched : FetchedFrom content steps
  distinct : Distinct steps
  inLine : InLine cfg inboxId content (draftsOf steps) s
  apart : VersionsApart cfg inboxId content (draftsOf steps)

section

variable {mdef : MailboxDef} {content : String → Except Exc DraftJson} {s s' : Service}
  {steps : Steps} {snap : Snapshot}

/-- A listing under way that has nothing yet. -/
def Service.opened (s : Service) (inboxId : String) (mdef : MailboxDef) : Listing :=
  ⟨inboxId, mdef, s.aux.started + 1, s.store.nextUid inboxId mdef.name, [], []⟩

theorem startListing_gathered :
    Gathered t (s.startListing t inboxId mdef) (s.opened inboxId mdef) [] []
      (s.startListing t inboxId mdef) :=
  ⟨.refl _ _, Function.update_self ..⟩

/-- When a listing publishes, it has the entries of what it was shown. -/
theorem ListingRun.gathers (h : ListingRun cfg t api inboxId mdef content s steps snap s')
    (hok : s.store.Ok) : ∃ c l, SameView (inboxId, mdef.name) s c ∧ c.listings t = some l ∧
      l.inboxId = inboxId ∧ l.mdef = mdef ∧
      l.entries = entriesOf cfg s (s.opened inboxId mdef) content steps ∧
      s' = c.publish t ∧ s'.published t = some snap := by
  have hrely : ∀ a b, a.store.Ok →
      Beside cfg t inboxId (inboxId, mdef.name) content (draftsOf steps) a b →
        b.store.Ok ∧ b.listings t = a.listings t :=
    fun a b hok hr => ⟨hr.view.store ▸ hok, hr.listing⟩
  rcases doSync_takes hrely hok h.run with
    ⟨_, _, _, herror, _⟩ | ⟨_, c, collecting, hout, hsteps, hcollect, hs', hpublished⟩
  · cases herror
  · cases hout
    have hmessages : messagesOf steps = messagesOf collecting := by
      rw [hsteps]
      show messagesOf (collecting ++ _) = _
      rw [messagesOf, List.flatMap_append]
      exact List.append_nil _
    have hdrafts : draftsOf steps = draftsOf collecting := by
      rw [hsteps]
      show draftsOf (collecting ++ _) = _
      rw [draftsOf, List.flatMap_append]
      exact List.append_nil _
    have hview : SameView (inboxId, mdef.name) s (s.startListing t inboxId mdef) :=
      ⟨rfl, rfl, rfl, rfl, rfl, rfl⟩
    have hentries : entriesOf cfg (s.startListing t inboxId mdef) (s.opened inboxId mdef) content
        steps = entriesOf cfg s (s.opened inboxId mdef) content steps := by
      have hmsg : (s.startListing t inboxId mdef).messageEntries cfg (s.opened inboxId mdef) =
          s.messageEntries cfg (s.opened inboxId mdef) :=
        funext fun m => Service.messageEntries_congr rfl rfl rfl rfl
      simp only [entriesOf, hmsg]
    have hgathered : ∃ ids, Gathered t (s.startListing t inboxId mdef) (s.opened inboxId mdef) ids
        (entriesOf cfg s (s.opened inboxId mdef) content steps) c := by
      rw [← hentries, entriesOf, hmessages, hdrafts]
      have hkind : (s.opened inboxId mdef).mdef.kind = mdef.kind := rfl
      unfold collect at hcollect
      cases hcase : mdef.kind with
      | messages =>
        rw [hcase] at hcollect
        have hdone := collectMessages_done (l := s.opened inboxId mdef) hcollect
          (hmessages ▸ h.distinct.messages) ⟨startListing_gathered, fun _ _ => rfl⟩
        rw [hkind, hcase]
        exact ⟨_, hdone.gathered⟩
      | drafts =>
        rw [hcase] at hcollect
        have hfetched : FetchedFrom content collecting := fun api i id a ha => h.fetched api i id a
          (by rw [hsteps]; exact List.mem_cons_of_mem _ (List.mem_append_left _ ha))
        have hdone := collectDrafts_done (l := s.opened inboxId mdef) hcollect hfetched
          (fun d hd => by rw [hdrafts]; exact hd) h.apart (hdrafts ▸ h.distinct.drafts)
          ⟨startListing_gathered, h.inLine⟩
        rw [hkind, hcase]
        exact ⟨_, hdone.gathered⟩
    obtain ⟨ids, hgathered⟩ := hgathered
    exact ⟨c, _, hview.trans hgathered.view, hgathered.listing, rfl, rfl, rfl, hs', hpublished⟩

/-- Where an entry of a listing comes from: a message or a draft it was shown, or a pin. -/
inductive Origin (cfg : Config) (inboxId : String) (content : String → Except Exc DraftJson)
    (steps : Steps) (pins : List Pin) (e : Entry) : Prop
  | message (m : MessageJson) (hm : m ∈ messagesOf steps)
      (sortKey : e.sortKey = ((Service.messageTime cfg m).instant, orEmpty m.messageId))
      (remoteKey : e.remoteKey = orEmpty m.messageId)
  | draft (d : DraftJson) (rendered : Bytes) (hd : d ∈ draftsOf steps)
      (hrendered : renderingOf cfg inboxId content d = some rendered)
      (entry : e = Service.draftEntry cfg inboxId d rendered)
  | pin (p : Pin) (hp : p ∈ pins) (entry : e = p.entry)

theorem entriesOf_origin {a : Service} {l : Listing} {pins : List Pin} {e : Entry}
    (he : e ∈ entriesOf cfg a l content steps) :
    Origin cfg l.inboxId content steps pins e := by
  unfold entriesOf at he
  cases hkind : l.mdef.kind with
  | messages =>
    rw [hkind] at he
    obtain ⟨m, hm, he⟩ := List.mem_flatMap.mp he
    simp only [Service.messageEntries] at he
    split at he
    · cases he
    · rw [List.mem_singleton.mp he]
      exact .message m hm rfl rfl
  | drafts =>
    rw [hkind] at he
    obtain ⟨d, hd, he⟩ := List.mem_flatMap.mp he
    obtain ⟨rendered, hrendered, rfl⟩ := List.mem_map.mp he
    exact .draft d rendered hd (Option.mem_toList.mp hrendered) rfl

/-- Listings that show the same in different orders leave the same behind. -/
theorem ListingRun.agree {t₁ t₂ : Tid} {api₁ api₂ : Client} {s₁ s₂ s₁' s₂' : Service}
    {steps₁ steps₂ : Steps} {snap₁ snap₂ : Snapshot}
    (h₁ : ListingRun cfg t₁ api₁ inboxId mdef content s₁ steps₁ snap₁ s₁')
    (h₂ : ListingRun cfg t₂ api₂ inboxId mdef content s₂ steps₂ snap₂ s₂')
    (hok : s₁.store.Ok) (hview : SameView (inboxId, mdef.name) s₁ s₂)
    (hholds : s₂.labelOverrides = s₁.labelOverrides)
    (hmessages : (messagesOf steps₁).Perm (messagesOf steps₂))
    (hdrafts : (draftsOf steps₁).Perm (draftsOf steps₂)) :
    Agreement (inboxId, mdef.name) s₁' s₂' snap₁ snap₂ := by
  obtain ⟨c₁, l₁, hview₁, hl₁, hid₁, hmdef₁, hentries₁, rfl, hpublished₁⟩ := h₁.gathers hok
  obtain ⟨c₂, l₂, hview₂, hl₂, hid₂, hmdef₂, hentries₂, rfl, hpublished₂⟩ :=
    h₂.gathers (hview.store ▸ hok)
  have hkey₁ : l₁.key = (inboxId, mdef.name) := by rw [Listing.key, hid₁, hmdef₁]
  have hkey₂ : l₂.key = l₁.key := by rw [hkey₁, Listing.key, hid₂, hmdef₂]
  have hmsg : s₂.messageEntries cfg (s₂.opened inboxId mdef) =
      s₁.messageEntries cfg (s₁.opened inboxId mdef) :=
    funext fun m => Service.messageEntries_congr rfl rfl (congrFun hholds _) hview.time
  have hperm : l₁.entries.Perm l₂.entries := by
    rw [hentries₁, hentries₂]
    have hkind₁ : (s₁.opened inboxId mdef).mdef.kind = mdef.kind := rfl
    have hkind₂ : (s₂.opened inboxId mdef).mdef.kind = mdef.kind := rfl
    cases hkind : mdef.kind with
    | messages =>
      simp only [entriesOf, hmsg, hkind₁, hkind₂, hkind]
      exact hmessages.flatMap_right _
    | drafts =>
      simp only [entriesOf, hkind₁, hkind₂, hkind]
      exact hdrafts.flatMap_right _
  have hapart : l₁.entries.Pairwise (Sorting.Apart fun x y => sortLe x y = true) := by
    rw [hentries₁]
    exact entriesOf_apart h₁.distinct
  rw [← hkey₁]
  refine Service.publish_perm ?_ hl₁ hl₂ hkey₂ hperm hapart hpublished₁ hpublished₂
  rw [hkey₁]
  exact hview₁.symm.trans (hview.trans hview₂)

/-- A listing numbers what it was shown and what is pinned besides. -/
theorem ListingRun.numbers (h : ListingRun cfg t api inboxId mdef content s steps snap s')
    (hok : s.store.Ok) (hpins : PinsOk (s.pinned (inboxId, mdef.name))) :
    ∃ entries, snap.items = itemsOf s'.store (inboxId, mdef.name) entries ∧
      Numbered s.store s'.store (inboxId, mdef.name) entries ∧
      ∀ e ∈ entries, Origin cfg inboxId content steps (s.pinned (inboxId, mdef.name)) e := by
  obtain ⟨c, l, hview, hl, hid, hmdef, hentries, rfl, hpublished⟩ := h.gathers hok
  have hkey : l.key = (inboxId, mdef.name) := by rw [Listing.key, hid, hmdef]
  have hokc : c.store.Ok := hview.store ▸ hok
  have hids : (l.entries.map (·.remoteId)).Nodup := by
    rw [hentries]
    exact entriesOf_ids h.distinct
  have hkeyed : ∀ e ∈ l.entries, Keyed cfg l.mdef.kind e := by
    intro e he
    rw [hentries] at he
    rw [hmdef]
    exact (entriesOf_placed he).keyed
  have hnumbered := c.publish_numbered hokc hl
    (collected_nodup (keys_nodup hkeyed hids) (by rw [hkey, hview.pinned]; exact hpins))
  rw [hkey, hview.store] at hnumbered
  refine ⟨c.collected l, ?_, hnumbered, fun e he => ?_⟩
  · obtain ⟨store, watermark, v, -, heq⟩ := Service.publish_eq hokc hl
    rw [heq] at hpublished ⊢
    simp only [Function.update_self, Option.some.injEq] at hpublished
    rw [← hpublished, ← hkey]
    rfl
  · rcases mem_collected.mp he with he | ⟨p, hp, _, _, rfl⟩
    · rw [hentries] at he
      exact entriesOf_origin he
    · rw [hkey, hview.pinned] at hp
      exact .pin p hp rfl

end

end Mailbox
end ImapGateway
