/-
Where the octets and sizes come from that are handed out for an item.

The byte cache holds the bodies of messages and drafts, the versions of drafts
and the sizes of messages of all inboxes under strings.  Everything in it was put
there by an action that owed a source, so what is found under a key can be traced
to upstream as far as the key tells the objects apart.
-/
import ImapGateway.Mailbox.Publications
import ImapGateway.Mailbox.Cache
import ImapGateway.Stream.Cuts

namespace ImapGateway
namespace Mailbox

variable {cfg : Config} {R : Regime} {s₀ s : Service} {t : Tid} {p : Act} {x y : Happening}
  {hs newer older : List Happening}

/-! ## Keys and sizes -/

/-- A key tells the inbox, the kind and the object, if the first two have no NUL. -/
theorem ckey_inj {i i' kind kind' ident ident' : String} (hi : '\x00' ∉ i.toList)
    (hi' : '\x00' ∉ i'.toList) (hk : '\x00' ∉ kind.toList) (hk' : '\x00' ∉ kind'.toList)
    (h : ckey i kind ident = ckey i' kind' ident') : i = i' ∧ kind = kind' ∧ ident = ident' := by
  have hl := congrArg String.toList h
  have hnul : ("\x00" : String).toList = ['\x00'] := rfl
  simp only [ckey, String.toList_append, hnul, List.append_assoc, List.cons_append,
    List.nil_append] at hl
  obtain ⟨hinbox, hrest⟩ := Cuts.append_separator_inj hi hi' hl
  obtain ⟨hkind, hident⟩ := Cuts.append_separator_inj hk hk' hrest
  exact ⟨String.toList_inj.mp hinbox, String.toList_inj.mp hkind, String.toList_inj.mp hident⟩

theorem ckey_start (i kind ident : String) : (ckey i kind "").toList <+: (ckey i kind ident).toList :=
  ⟨ident.toList, by simp only [ckey, String.toList_append, String.toList_empty, List.append_nil]⟩

theorem sizeOfText_sizeText (n : Nat) : sizeOfText (sizeText n) = n := by
  have hdigit : ∀ c ∈ Nat.toDigits 10 n, (UInt8.ofNat c.toNat).toNat = c.toNat := by
    intro c hc
    have hd := Nat.isDigit_of_mem_toDigits (by decide) (by decide) hc
    have hle : c.toNat ≤ 57 := by
      simp only [Char.isDigit, Bool.and_eq_true, decide_eq_true_eq] at hd
      exact hd.2
    rw [UInt8.toNat_ofNat']
    omega
  have hfold : ∀ (cs : List Char) (init : Nat),
      (∀ c ∈ cs, (UInt8.ofNat c.toNat).toNat = c.toNat) →
      (cs.map fun c => UInt8.ofNat c.toNat).foldl (fun n c => 10 * n + (c.toNat - 48)) init =
        Nat.ofDigitChars 10 cs init := by
    intro cs
    induction cs with
    | nil => intro init _; rfl
    | cons c cs ih =>
      intro init hcs
      rw [List.map_cons, List.foldl_cons, hcs c (List.mem_cons_self ..),
        ih _ fun c hc => hcs c (List.mem_cons_of_mem _ hc), Nat.ofDigitChars_cons]
      rfl
  rw [sizeOfText, sizeText, hfold _ _ hdigit, Nat.ofDigitChars_ten_toDigits]

/-! ## What is in the cache -/

/-- What an action puts into the cache. -/
def Act.stores (cfg : Config) (s : Service) (t : Tid) : Act → List (String × Bytes)
  | cachePut key data => [(key, data)]
  | collectDraft d rendered => match s.listings t with
    | some l => [(ckey l.inboxId "body" (contentKey cfg (orEmpty d.draftId) rendered), rendered)]
    | none => []
  | appendCommit inboxId created rendered =>
    let id := orEmpty created.draftId
    [(ckey inboxId "draftv" (id ++ ":" ++ orEmpty created.updatedAt), rendered),
      (ckey inboxId "body" (contentKey cfg id rendered), rendered)]
  | _ => []

def Happening.stores (cfg : Config) (x : Happening) : List (String × Bytes) :=
  x.action.stores cfg x.before x.tid

/-- What is in the cache was there before, or is put there. -/
theorem Act.exec_cache (cfg : Config) (t : Tid) (p : Act) (h : s.store.Ok) {c : String × Bytes}
    (hc : c ∈ (p.exec cfg t s).cache.items) : c ∈ s.cache.items ∨ c ∈ p.stores cfg s t := by
  cases p with
  | cachePut key data =>
    exact (ByteCache.mem_put hc).imp_right fun he => by rw [he]; exact List.mem_singleton_self _
  | cacheGet key => exact .inl (ByteCache.mem_moveToEnd hc)
  | collectDraft d rendered =>
    simp only [Act.exec, Service.collectDraft] at hc
    cases hl : s.listings t with
    | none =>
      rw [hl] at hc
      exact .inl hc
    | some l =>
      rw [hl] at hc
      refine (ByteCache.mem_put hc).imp_right fun he => ?_
      rw [he, Act.stores, hl]
      exact List.mem_singleton_self _
  | appendCommit inboxId created rendered =>
    have hcache : ((Act.appendCommit inboxId created rendered).exec cfg t s).cache =
        (s.cache.put (ckey inboxId "draftv"
          (orEmpty created.draftId ++ ":" ++ orEmpty created.updatedAt)) rendered).put
            (ckey inboxId "body" (contentKey cfg (orEmpty created.draftId) rendered)) rendered := rfl
    rw [hcache] at hc
    rcases ByteCache.mem_put hc with hc | he
    · rcases ByteCache.mem_put hc with hc | he
      · exact .inl hc
      · rw [he]
        exact .inr (List.mem_cons_self ..)
    · rw [he]
      exact .inr (List.mem_cons_of_mem _ (List.mem_singleton_self _))
  | publish =>
    cases hl : s.listings t with
    | none =>
      rw [Act.exec, Service.publish_none hl] at hc
      exact .inl hc
    | some l =>
      obtain ⟨store, watermark, v, _, heq⟩ := Service.publish_eq h hl
      rw [Act.exec, heq] at hc
      exact .inl hc
  | copyItem inboxId item result =>
    obtain ⟨heldFrom, heq⟩ := Service.settlePatch_eq (s.copyItem t inboxId item result) t
    rw [Act.exec, heq] at hc
    exact .inl hc
  | setFlagCommit key item add remove result =>
    obtain ⟨heldFrom, heq⟩ := Service.settlePatch_eq (s.setFlagCommit key item add remove result) t
    rw [Act.exec, heq] at hc
    simp only [Service.setFlagCommit, Service.replaceItem] at hc
    split at hc
    · exact .inl hc
    · split at hc <;> exact .inl hc
  | expungeCommit inboxId item result =>
    obtain ⟨heldFrom, heq⟩ := Service.settlePatch_eq (s.expungeCommit inboxId item result) t
    rw [Act.exec, heq] at hc
    exact .inl hc
  | collectMessage m =>
    rcases Service.collectMessage_cases cfg s t m with heq | ⟨l, _, _, heq⟩ <;>
      rw [Act.exec, heq] at hc <;> exact .inl hc
  | reap n =>
    simp only [Act.exec, Service.reap] at hc
    split at hc <;> exact .inl hc
  | applyPatch =>
    simp only [Act.exec, Service.applyPatch] at hc
    split at hc <;> exact .inl hc
  | _ => exact .inl hc

/-! ## What a coroutine got and what was reported -/

/-- The size a call reports here for a message of an inbox. -/
def Act.reports : Act → Option ((String × String) × Nat)
  | served inboxId mdef item data =>
    if mdef.kind = .messages then some ((inboxId, item.remoteKey), data.length) else none
  | sized inboxId mdef item size =>
    if mdef.kind = .messages then some ((inboxId, item.remoteKey), size) else none
  | _ => none

theorem Service.report_eq (s : Service) (inboxId : String) (mdef : MailboxDef) (item : Item)
    (size : Nat) : (s.report inboxId mdef item size).aux.source = s.aux.source ∧
      (s.report inboxId mdef item size).aux.recalled = s.aux.recalled ∧
      ∀ k n, n ∈ (s.report inboxId mdef item size).aux.reported k ↔ n ∈ s.aux.reported k ∨
        (if mdef.kind = .messages then some ((inboxId, item.remoteKey), size) else none) =
          some (k, n) := by
  refine ⟨rfl, rfl, fun k n => ?_⟩
  simp only [Service.report]
  cases mdef.kind with
  | drafts => simp
  | messages =>
    simp only [if_true, Option.some.injEq, Prod.mk.injEq]
    by_cases hk : k = (inboxId, item.remoteKey)
    · subst hk
      rw [Function.update_self, List.mem_append, List.mem_singleton]
      exact or_congr_right ⟨fun h => ⟨rfl, h.symm⟩, fun h => h.2.symm⟩
    · rw [Function.update_of_ne hk]
      exact ⟨.inl, fun h => h.elim id fun h => absurd h.1.symm hk⟩

/-- What an action does to what its coroutine got last, what it recalled and what has
been reported. -/
structure ReadStep (s s' : Service) (t : Tid) (p : Act) : Prop where
  source : ∀ u src, s'.aux.source u = some src → s.aux.source u = some src ∨ p = .obtained src
  recalled : ∀ u i k r, s'.aux.recalled u = some (i, k, r) →
    s.aux.recalled u = some (i, k, r) ∨ p = .recalled i k r
  reported : ∀ k n, n ∈ s'.aux.reported k ↔ n ∈ s.aux.reported k ∨ p.reports = some (k, n)

theorem Act.exec_readStep (cfg : Config) (t : Tid) (p : Act) (h : s.store.Ok) :
    ReadStep s (p.exec cfg t s) t p := by
  have quiet : ∀ {s' : Service}, s'.aux.source = s.aux.source → s'.aux.recalled = s.aux.recalled →
      s'.aux.reported = s.aux.reported → p.reports = none → ReadStep s s' t p := by
    intro s' hs hr hn hp
    refine ⟨fun u src h => .inl (hs ▸ h), fun u i k r h => .inl (hr ▸ h), fun k n => ?_⟩
    rw [hn, hp]
    simp
  cases p with
  | obtained source =>
    refine ⟨fun u src h => ?_, fun u i k r h => .inl h, fun k n => ?_⟩
    · rcases update_some h with ⟨_, he⟩ | ⟨_, he⟩
      · exact .inr (congrArg Act.obtained (Option.some.inj he))
      · exact .inl he
    · exact ⟨.inl, fun h => h.elim id nofun⟩
  | beginRead =>
    refine ⟨fun u src h => .inl h, fun u i k r h => ?_, fun k n => ⟨.inl, fun h => h.elim id nofun⟩⟩
    rcases update_some h with ⟨_, he⟩ | ⟨_, he⟩
    · cases he
    · exact .inl he
  | recalled inboxId remoteKey size =>
    refine ⟨fun u src h => .inl h, fun u i k r h => ?_, fun k n => ⟨.inl, fun h => h.elim id nofun⟩⟩
    rcases update_some h with ⟨_, he⟩ | ⟨_, he⟩
    · cases he
      exact .inr rfl
    · exact .inl he
  | served inboxId mdef item data =>
    obtain ⟨hs, hr, hn⟩ := Service.report_eq s inboxId mdef item data.length
    exact ⟨fun u src h => .inl (by rw [Act.exec, hs] at h; exact h),
      fun u i k r h => .inl (by rw [Act.exec, hr] at h; exact h), hn⟩
  | sized inboxId mdef item size =>
    obtain ⟨hs, hr, hn⟩ := Service.report_eq s inboxId mdef item size
    exact ⟨fun u src h => .inl (by rw [Act.exec, hs] at h; exact h),
      fun u i k r h => .inl (by rw [Act.exec, hr] at h; exact h), hn⟩
  | publish =>
    cases hl : s.listings t with
    | none =>
      rw [Act.exec, Service.publish_none hl]
      exact quiet rfl rfl rfl rfl
    | some l =>
      obtain ⟨store, watermark, v, _, heq⟩ := Service.publish_eq h hl
      rw [Act.exec, heq]
      exact quiet rfl rfl rfl rfl
  | collectMessage m =>
    rcases Service.collectMessage_cases cfg s t m with heq | ⟨l, _, _, heq⟩ <;> rw [Act.exec, heq] <;>
      exact quiet rfl rfl rfl rfl
  | collectDraft d rendered =>
    simp only [Act.exec, Service.collectDraft]
    split <;> exact quiet rfl rfl rfl rfl
  | copyItem inboxId item result =>
    obtain ⟨heldFrom, heq⟩ := Service.settlePatch_eq (s.copyItem t inboxId item result) t
    rw [Act.exec, heq]
    exact quiet rfl rfl rfl rfl
  | setFlagCommit key item add remove result =>
    obtain ⟨heldFrom, heq⟩ := Service.settlePatch_eq (s.setFlagCommit key item add remove result) t
    rw [Act.exec, heq]
    simp only [Service.setFlagCommit, Service.replaceItem]
    split
    · exact quiet rfl rfl rfl rfl
    · split <;> exact quiet rfl rfl rfl rfl
  | expungeCommit inboxId item result =>
    obtain ⟨heldFrom, heq⟩ := Service.settlePatch_eq (s.expungeCommit inboxId item result) t
    rw [Act.exec, heq]
    exact quiet rfl rfl rfl rfl
  | reap n =>
    simp only [Act.exec, Service.reap]
    split <;> exact quiet rfl rfl rfl rfl
  | applyPatch =>
    simp only [Act.exec, Service.applyPatch]
    split <;> exact quiet rfl rfl rfl rfl
  | _ => exact quiet rfl rfl rfl rfl

/-- Upstream answered with this. -/
def Obtained (hs : List Happening) (src : Source) : Prop := ∃ y ∈ hs, y.action = .obtained src

/-- This size has been reported. -/
def Reported (hs : List Happening) (k : String × String) (n : Nat) : Prop :=
  ∃ y ∈ hs, y.action.reports = some (k, n)

/-- What coroutines got, what they recalled and what has been reported, as the history
has it. -/
structure Recorded (hs : List Happening) (s : Service) : Prop where
  source : ∀ u src, s.aux.source u = some src → Obtained hs src
  recalled : ∀ u i k r, s.aux.recalled u = some (i, k, r) →
    ∃ y ∈ hs, y.action = .recalled i k r
  reported : ∀ k n, n ∈ s.aux.reported k ↔ Reported hs k n

/-- Nothing has come from upstream, and nothing has been reported. -/
structure Unread (s : Service) : Prop where
  cache : s.cache.items = []
  source : ∀ u, s.aux.source u = none
  recalled : ∀ u, s.aux.recalled u = none
  reported : ∀ k, s.aux.reported k = []

theorem Conducted.recorded (h : Conducted cfg R s₀ hs s) (h₀ : Unread s₀) : Recorded hs s := by
  obtain ⟨hist, hi, ho⟩ := h
  induction hist with
  | nil =>
    refine ⟨fun u src hu => ?_, fun u i k r hu => ?_, fun k n => ?_⟩
    · rw [h₀.source] at hu
      cases hu
    · rw [h₀.recalled] at hu
      cases hu
    · simp [h₀.reported, Reported]
  | @cons hs x hx ih =>
    have hc : Conducted cfg R s₀ hs x.before :=
      ⟨hx, hi, fun y hy => ho y (List.mem_cons_of_mem _ hy)⟩
    have hold := ih hc.owed
    have hstep := Act.exec_readStep cfg x.tid x.action hc.inv.store
    refine ⟨fun u src hu => ?_, fun u i k r hu => ?_, fun k n => ?_⟩
    · rcases hstep.source u src hu with hu | hnew
      · obtain ⟨y, hy, hact⟩ := hold.source u src hu
        exact ⟨y, List.mem_cons_of_mem _ hy, hact⟩
      · exact ⟨x, List.mem_cons_self .., hnew⟩
    · rcases hstep.recalled u i k r hu with hu | hnew
      · obtain ⟨y, hy, hact⟩ := hold.recalled u i k r hu
        exact ⟨y, List.mem_cons_of_mem _ hy, hact⟩
      · exact ⟨x, List.mem_cons_self .., hnew⟩
    · show n ∈ (x.action.exec cfg x.tid x.before).aux.reported k ↔ _
      rw [hstep.reported k n, hold.reported k n, or_comm]
      exact (List.exists_mem_cons_iff (fun y : Happening => y.action.reports = some (k, n)) x hs).symm

/-! ## Objects told apart -/

/-- The inboxes whose objects are met here. -/
def Happening.inboxes (cfg : Config) (x : Happening) : List String :=
  (x.dates cfg).map (·.1.2.1) ++ match x.action with
    | .obtained (.raw inboxId _ _ _) => [inboxId]
    | .obtained (.draft inboxId _ _) => [inboxId]
    | _ => []

def NulFree (cfg : Config) (hs : List Happening) : Prop :=
  ∀ x ∈ hs, ∀ i ∈ x.inboxes cfg, '\x00' ∉ i.toList

/-- No message has the key of a draft of its inbox. -/
def KindsApart (cfg : Config) (hs : List Happening) : Prop :=
  ∀ x ∈ hs, ∀ y ∈ hs, ∀ a ∈ x.dates cfg, ∀ b ∈ y.dates cfg,
    a.1.1 = .messages → b.1.1 = .drafts → a.1.2 ≠ b.1.2

/-- The cache keys under which the rendering of a draft is kept or looked for here,
with the id of the draft. -/
def Happening.draftKeys (x : Happening) : List (String × String) :=
  let version := fun inboxId (d : DraftJson) =>
    (ckey inboxId "draftv" (orEmpty d.draftId ++ ":" ++ orEmpty d.updatedAt), orEmpty d.draftId)
  match x.action with
  | .collectDraft d _ => match x.before.listings x.tid with
    | some l => [version l.inboxId d]
    | none => []
  | .appendCommit inboxId created _ => [version inboxId created]
  | .cachePut key _ => match x.before.aux.source x.tid with
    | some (.draft inboxId id _) =>
      -- The source may be an old one where a size is put.
      if (ckey inboxId "draftv" "").toList <+: key.toList then [(key, id)] else []
    | _ => []
  | _ => []

/-- No cache key is used for two drafts. -/
def DraftsApart (hs : List Happening) : Prop :=
  ∀ x ∈ hs, ∀ y ∈ hs, ∀ a ∈ x.draftKeys, ∀ b ∈ y.draftKeys, a.1 = b.1 → a.2 = b.2

instance : Decidable (NulFree cfg hs) :=
  inferInstanceAs (Decidable (∀ x ∈ hs, ∀ i ∈ x.inboxes cfg, '\x00' ∉ i.toList))

instance : Decidable (KindsApart cfg hs) :=
  inferInstanceAs (Decidable (∀ x ∈ hs, ∀ y ∈ hs, ∀ a ∈ x.dates cfg, ∀ b ∈ y.dates cfg,
    a.1.1 = .messages → b.1.1 = .drafts → a.1.2 ≠ b.1.2))

instance : Decidable (DraftsApart hs) :=
  inferInstanceAs (Decidable (∀ x ∈ hs, ∀ y ∈ hs, ∀ a ∈ x.draftKeys, ∀ b ∈ y.draftKeys,
    a.1 = b.1 → a.2 = b.2))

theorem NulFree.before (h : NulFree cfg (newer ++ x :: older)) : NulFree cfg older :=
  fun y hy => h y (List.mem_append_right _ (List.mem_cons_of_mem _ hy))

theorem KindsApart.before (h : KindsApart cfg (newer ++ x :: older)) : KindsApart cfg older :=
  fun y hy z hz => h y (List.mem_append_right _ (List.mem_cons_of_mem _ hy))
    z (List.mem_append_right _ (List.mem_cons_of_mem _ hz))

theorem DraftsApart.before (h : DraftsApart (newer ++ x :: older)) : DraftsApart older :=
  fun y hy z hz => h y (List.mem_append_right _ (List.mem_cons_of_mem _ hy))
    z (List.mem_append_right _ (List.mem_cons_of_mem _ hz))

theorem NulFree.tail (h : NulFree cfg (x :: older)) : NulFree cfg older :=
  fun y hy => h y (List.mem_cons_of_mem _ hy)

theorem KindsApart.tail (h : KindsApart cfg (x :: older)) : KindsApart cfg older :=
  fun y hy z hz => h y (List.mem_cons_of_mem _ hy) z (List.mem_cons_of_mem _ hz)

theorem DraftsApart.tail (h : DraftsApart (x :: older)) : DraftsApart older :=
  fun y hy z hz => h y (List.mem_cons_of_mem _ hy) z (List.mem_cons_of_mem _ hz)

/-- An object that has been listed or created. -/
def Met (cfg : Config) (hs : List Happening) (k : Kind × String × String) : Prop :=
  ∃ n, ∃ y ∈ hs, (k, n) ∈ y.dates cfg

/-- What is known has been met. -/
theorem Conducted.met (h : Conducted cfg R s₀ hs s) (h₀ : Blank s₀) {i : String}
    {mdef : MailboxDef} {item : Item} (hknown : s.Knows i mdef item) :
    Met cfg hs (mdef.kind, i, item.remoteKey) := by
  have hdated := h.dated (P := fun k n => ∃ y ∈ hs, (k, n) ∈ y.dates cfg) h₀
    fun y hy a ha => ⟨y, hy, ha⟩
  obtain ⟨hmem, x, hx, hkey, hsame⟩ := hknown
  have hdate := hdated.shown x hx
  rw [hkey, kindAt_eq hmem, hsame.remoteKey] at hdate
  exact ⟨_, hdate⟩

theorem NulFree.met (h : NulFree cfg hs) {k : Kind × String × String} (hk : Met cfg hs k) :
    '\x00' ∉ k.2.1.toList := by
  obtain ⟨n, y, hy, hd⟩ := hk
  exact h y hy _ (List.mem_append_left _ (List.mem_map.mpr ⟨_, hd, rfl⟩))

theorem NulFree.draft (h : NulFree cfg hs) {i id : String} {data : Bytes}
    (hk : Obtained hs (.draft i id data)) : '\x00' ∉ i.toList := by
  obtain ⟨y, hy, hact⟩ := hk
  refine h y hy i (List.mem_append_right _ ?_)
  rw [hact]
  exact List.mem_singleton_self _

theorem KindsApart.not_met (h : KindsApart cfg hs) {i k : String} (hm : Met cfg hs (.messages, i, k)) :
    ¬Met cfg hs (.drafts, i, k) := by
  obtain ⟨n, y, hy, hm⟩ := hm
  rintro ⟨n', z, hz, hd⟩
  exact h y hy z hz _ hm _ hd rfl rfl rfl

/-! ## What is in the cache comes from somewhere -/

/-- Octets are kept under a key: downloaded and reported, a reported size, or the
rendering of a draft.  Whose rendering it is depends on the versions being told
apart. -/
inductive Kept (cfg : Config) (hs : List Happening) : String → Bytes → Prop
  | raw (i k : String) (data : Bytes) (met : Met cfg hs (.messages, i, k))
      (source : Obtained hs (.raw i k data.length data))
      (reported : Reported hs (i, k) data.length) : Kept cfg hs (ckey i "body" k) data
  | size (i k : String) (n : Nat) (met : Met cfg hs (.messages, i, k))
      (reported : Reported hs (i, k) n) : Kept cfg hs (ckey i "size" k) (sizeText n)
  | version (i id v : String) (data : Bytes) (source : Obtained hs (.draft i id data))
      (used : ∃ y ∈ hs, (ckey i "draftv" v, id) ∈ y.draftKeys) :
      Kept cfg hs (ckey i "draftv" v) data
  | draft (i id : String) (data : Bytes) (met : Met cfg hs (.drafts, i, contentKey cfg id data))
      (source : NulFree cfg hs → DraftsApart hs → Obtained hs (.draft i id data)) :
      Kept cfg hs (ckey i "body" (contentKey cfg id data)) data

theorem Obtained.cons {src : Source} (h : Obtained hs src) : Obtained (x :: hs) src :=
  h.imp fun _ hy => ⟨List.mem_cons_of_mem _ hy.1, hy.2⟩

theorem Reported.cons {k : String × String} {n : Nat} (h : Reported hs k n) :
    Reported (x :: hs) k n :=
  h.imp fun _ hy => ⟨List.mem_cons_of_mem _ hy.1, hy.2⟩

theorem Met.cons {k : Kind × String × String} (h : Met cfg hs k) : Met cfg (x :: hs) k :=
  h.imp fun _ => .imp fun _ hy => ⟨List.mem_cons_of_mem _ hy.1, hy.2⟩

theorem Kept.cons {key : String} {data : Bytes} (h : Kept cfg hs key data) :
    Kept cfg (x :: hs) key data := by
  cases h with
  | raw i k data met source reported => exact .raw i k data met.cons source.cons reported.cons
  | size i k n met reported => exact .size i k n met.cons reported.cons
  | version i id v data source used =>
    exact .version i id v data source.cons
      (used.imp fun _ hy => ⟨List.mem_cons_of_mem _ hy.1, hy.2⟩)
  | draft i id data met source =>
    exact .draft i id data met.cons fun hn hd =>
      (source hn.tail hd.tail).cons

/-- Where something is put into the cache. -/
theorem Happening.stores_cases {key : String} {data : Bytes} (h : (key, data) ∈ x.stores cfg) :
    x.action = .cachePut key data ∨
    (∃ d l, x.action = .collectDraft d data ∧ x.before.listings x.tid = some l ∧
      key = ckey l.inboxId "body" (contentKey cfg (orEmpty d.draftId) data)) ∨
    ∃ i created, x.action = .appendCommit i created data ∧
      (key = ckey i "draftv" (orEmpty created.draftId ++ ":" ++ orEmpty created.updatedAt) ∨
        key = ckey i "body" (contentKey cfg (orEmpty created.draftId) data)) := by
  obtain ⟨t, p, s⟩ := x
  cases p with
  | cachePut key' data' =>
    cases List.mem_singleton.mp h
    exact .inl rfl
  | collectDraft d rendered =>
    simp only [Happening.stores, Act.stores] at h
    cases hl : s.listings t with
    | none =>
      rw [hl] at h
      cases h
    | some l =>
      rw [hl] at h
      cases List.mem_singleton.mp h
      exact .inr (.inl ⟨d, l, rfl, rfl, rfl⟩)
  | appendCommit i created rendered =>
    simp only [Happening.stores, Act.stores, List.mem_cons, List.not_mem_nil, or_false,
      Prod.mk.injEq] at h
    rcases h with ⟨rfl, rfl⟩ | ⟨rfl, rfl⟩
    · exact .inr (.inr ⟨i, created, rfl, .inl rfl⟩)
    · exact .inr (.inr ⟨i, created, rfl, .inr rfl⟩)
  | _ => cases h

theorem Obtained.size_eq {i id : String} {n : Nat} {data : Bytes} (hsource : Obtained hs (.raw i id n data))
    (ho : ∀ y ∈ hs, Owes cfg R y.tid y.action y.before) : n = data.length := by
  obtain ⟨y, hy, hact⟩ := hsource
  have howed := ho y hy
  rw [hact] at howed
  exact howed.symm

/-- What a `put` of a session stores is kept. -/
theorem Puts.kept {key : String} {data : Bytes} (h : Puts cfg x.tid x.before key data)
    (hact : x.action = .cachePut key data) (hc : Conducted cfg R s₀ hs x.before) (hb : Blank s₀)
    (hr : Recorded hs x.before) : Kept cfg (x :: hs) key data := by
  have hn := hc.named hb
  cases h with
  | raw i mdef item n data kind known source reported =>
    have hkey := hn.message kind known
    have hsource := hr.source _ _ source
    rw [Obtained.size_eq hsource hc.owed, ← hkey] at hsource
    have hmet := hc.met hb known
    rw [kind] at hmet
    exact (Kept.raw i item.remoteKey data hmet hsource ((hr.reported _ _).mp reported)).cons
  | size i mdef item n kind known reported =>
    have hmet := hc.met hb known
    rw [kind] at hmet
    exact (Kept.size i item.remoteKey n hmet ((hr.reported _ _).mp reported)).cons
  | version i draftId updatedAt data source =>
    refine .version i draftId _ data (hr.source _ _ source).cons ⟨x, List.mem_cons_self .., ?_⟩
    unfold Happening.draftKeys
    rw [hact]
    simp only [source]
    rw [if_pos (ckey_start i "draftv" _)]
    exact List.mem_singleton_self _
  | draft i mdef item data kind known source key =>
    have hmet := hc.met hb known
    rw [kind, ← key] at hmet
    rw [← key]
    exact (Kept.draft i item.remoteId data hmet fun _ _ => hr.source _ _ source).cons

/-- A rendering found under a version is of the draft it was kept for. -/
theorem Kept.version_source {i v : String} {data : Bytes} (h : Kept cfg hs (ckey i "draftv" v) data)
    (hi : '\x00' ∉ i.toList) (hnul : NulFree cfg hs) : ∃ id, Obtained hs (.draft i id data) ∧
      ∃ y ∈ hs, (ckey i "draftv" v, id) ∈ y.draftKeys := by
  generalize hkey : ckey i "draftv" v = key at h
  cases h with
  | raw i' k data met _ _ =>
    exact absurd (ckey_inj hi (hnul.met met) (by decide) (by decide) hkey).2.1 (by decide)
  | size i' k n met _ =>
    exact absurd (ckey_inj hi (hnul.met met) (by decide) (by decide) hkey).2.1 (by decide)
  | version i' id v' data source used =>
    obtain ⟨rfl, _, _⟩ := ckey_inj hi (hnul.draft source) (by decide) (by decide) hkey
    exact ⟨id, source, used⟩
  | draft i' id data met _ =>
    exact absurd (ckey_inj hi (hnul.met met) (by decide) (by decide) hkey).2.1 (by decide)

/-- What is put into the cache is kept. -/
theorem Kept.step {key : String} {data : Bytes} (hc : Conducted cfg R s₀ hs x.before) (hb : Blank s₀)
    (hr : Recorded hs x.before) (ho : Owes cfg R x.tid x.action x.before)
    (hold : ∀ c ∈ x.before.cache.items, Kept cfg hs c.1 c.2) (h : (key, data) ∈ x.stores cfg) :
    Kept cfg (x :: hs) key data := by
  rcases Happening.stores_cases h with hact | ⟨d, l, hact, hl, rfl⟩ | ⟨i, created, hact, hkey⟩
  · rw [hact] at ho
    exact Puts.kept ho hact hc hb hr
  · rw [hact] at ho
    obtain ⟨⟨hkind, _⟩, hrenders⟩ := ho l hl
    have hdate : ∃ n, ((Kind.drafts, l.inboxId, contentKey cfg (orEmpty d.draftId) data), n) ∈
        x.dates cfg := by
      have he : Service.draftEntry cfg l.inboxId d data ∈ x.action.adds cfg x.before l := by
        rw [hact]
        exact List.mem_singleton_self _
      have hd := Happening.mem_dates hl he
      rw [hkind] at hd
      exact ⟨_, hd⟩
    have hmet : Met cfg (x :: hs) (.drafts, l.inboxId, contentKey cfg (orEmpty d.draftId) data) :=
      hdate.imp fun _ hd => ⟨x, List.mem_cons_self .., hd⟩
    refine .draft l.inboxId _ data hmet fun hnul hapart => ?_
    rcases hrenders with hsource | hfound
    · exact (hr.source _ _ hsource).cons
    · have hversion := hold _ (ByteCache.mem_of_find hfound)
      obtain ⟨id, hsource, y, hy, hused⟩ := hversion.version_source (hnul.met hmet)
        hnul.tail
      have hlooked : (ckey l.inboxId "draftv" (orEmpty d.draftId ++ ":" ++ orEmpty d.updatedAt),
          orEmpty d.draftId) ∈ x.draftKeys := by
        unfold Happening.draftKeys
        rw [hact]
        simp only [hl]
        exact List.mem_singleton_self _
      have hid := hapart y (List.mem_cons_of_mem _ hy) x (List.mem_cons_self ..) _ hused _ hlooked rfl
      have hid : id = orEmpty d.draftId := hid
      rw [← hid]
      exact hsource.cons
  · rw [hact] at ho
    have hsource : Obtained (x :: hs) (.draft i (orEmpty created.draftId) data) :=
      (hr.source _ _ ho).cons
    rcases hkey with rfl | rfl
    · refine .version i _ _ data hsource ⟨x, List.mem_cons_self .., ?_⟩
      unfold Happening.draftKeys
      rw [hact]
      exact List.mem_singleton_self _
    · have hdate : ((Kind.drafts, i, contentKey cfg (orEmpty created.draftId) data),
          (Service.draftEntry cfg i created data).item.internaldate) ∈ x.dates cfg := by
        unfold Happening.dates
        rw [hact]
        exact List.mem_singleton_self _
      exact .draft i _ data ⟨_, x, List.mem_cons_self .., hdate⟩ fun _ _ => hsource

/-- Everything in the cache is kept. -/
theorem Conducted.kept (h : Conducted cfg R s₀ hs s) (hb : Blank s₀) (hu : Unread s₀) :
    ∀ c ∈ s.cache.items, Kept cfg hs c.1 c.2 := by
  obtain ⟨hist, hi, ho⟩ := h
  induction hist with
  | nil =>
    intro c hc
    rw [hu.cache] at hc
    cases hc
  | @cons hs x hx ih =>
    intro c hmem
    have hc : Conducted cfg R s₀ hs x.before :=
      ⟨hx, hi, fun y hy => ho y (List.mem_cons_of_mem _ hy)⟩
    rcases Act.exec_cache cfg x.tid x.action hc.inv.store hmem with hold | hnew
    · exact (ih hc.owed c hold).cons
    · exact Kept.step hc hb (hc.recorded hu) (ho x (List.mem_cons_self ..)) (ih hc.owed) hnew

/-- A body found is of the message or of the draft that has the key. -/
theorem Kept.body {i k : String} {data : Bytes} (h : Kept cfg hs (ckey i "body" k) data)
    (hi : '\x00' ∉ i.toList) (hnul : NulFree cfg hs) :
    (Met cfg hs (.messages, i, k) ∧ Obtained hs (.raw i k data.length data) ∧
      Reported hs (i, k) data.length) ∨
    (Met cfg hs (.drafts, i, k) ∧ ∃ id, contentKey cfg id data = k ∧
      (DraftsApart hs → Obtained hs (.draft i id data))) := by
  generalize hkey : ckey i "body" k = key at h
  cases h with
  | raw i' k' data met source reported =>
    obtain ⟨rfl, _, rfl⟩ := ckey_inj hi (hnul.met met) (by decide) (by decide) hkey
    exact .inl ⟨met, source, reported⟩
  | size i' k' n met _ =>
    exact absurd (ckey_inj hi (hnul.met met) (by decide) (by decide) hkey).2.1 (by decide)
  | version i' id v data source _ =>
    exact absurd (ckey_inj hi (hnul.draft source) (by decide) (by decide) hkey).2.1 (by decide)
  | draft i' id data met source =>
    obtain ⟨rfl, _, rfl⟩ := ckey_inj hi (hnul.met met) (by decide) (by decide) hkey
    exact .inr ⟨met, id, rfl, source hnul⟩

/-- A size found has been reported. -/
theorem Kept.sizes {i k : String} {data : Bytes} (h : Kept cfg hs (ckey i "size" k) data)
    (hi : '\x00' ∉ i.toList) (hnul : NulFree cfg hs) : Reported hs (i, k) (sizeOfText data) := by
  generalize hkey : ckey i "size" k = key at h
  cases h with
  | raw i' k' data met _ _ =>
    exact absurd (ckey_inj hi (hnul.met met) (by decide) (by decide) hkey).2.1 (by decide)
  | size i' k' n met reported =>
    obtain ⟨rfl, _, rfl⟩ := ckey_inj hi (hnul.met met) (by decide) (by decide) hkey
    rw [sizeOfText_sizeText]
    exact reported
  | version i' id v data source _ =>
    exact absurd (ckey_inj hi (hnul.draft source) (by decide) (by decide) hkey).2.1 (by decide)
  | draft i' id data met _ =>
    exact absurd (ckey_inj hi (hnul.met met) (by decide) (by decide) hkey).2.1 (by decide)

/-! ## What is handed out -/

/-- The octets are those of the item: downloaded for the message with the size
announced, or rendered for the draft with the digest of its key. -/
def Authentic (cfg : Config) (hs : List Happening) (i : String) (mdef : MailboxDef) (item : Item)
    (data : Bytes) : Prop :=
  match mdef.kind with
  | .messages => Obtained hs (.raw i item.remoteId data.length data)
  | .drafts => contentKey cfg item.remoteId data = item.remoteKey ∧
    Obtained hs (.draft i item.remoteId data)

section Handed

variable (h : Conducted cfg R s₀ hs s) (hb : Blank s₀) (hu : Unread s₀) (hnul : NulFree cfg hs)
  (hkinds : KindsApart cfg hs)

include h hb hu hnul hkinds

theorem Conducted.authentic (hdrafts : DraftsApart hs) {i : String} {mdef : MailboxDef}
    {item : Item} {data : Bytes} (ho : Owes cfg R t (.served i mdef item data) s) :
    Authentic cfg hs i mdef item data := by
  obtain ⟨known, hserves⟩ := ho
  have hr := h.recorded hu
  have hn := h.named hb
  have hmet := h.met hb known
  unfold Authentic
  cases hserves with
  | cached found =>
    have hkept := h.kept hb hu _ (ByteCache.mem_of_find found)
    rcases hkept.body (hnul.met hmet) hnul with ⟨hm, hsource, _⟩ | ⟨hd, id, hkey, hsource⟩
    · cases hkind : mdef.kind with
      | messages =>
        show Obtained hs _
        rw [← hn.message hkind known]
        exact hsource
      | drafts =>
        rw [hkind] at hmet
        exact absurd hmet (hkinds.not_met hm)
    · cases hkind : mdef.kind with
      | messages =>
        rw [hkind] at hmet
        exact absurd hd (hkinds.not_met hmet)
      | drafts =>
        obtain ⟨hmem, y, hy, hykey, hsame⟩ := known
        have hkeyed := (hn.shown y hy).same hsame
        rw [hykey, kindAt_eq hmem, hkind] at hkeyed
        obtain ⟨rendered, hrendered⟩ := hkeyed
        have hid : id = item.remoteId := contentKey_inj (hkey.trans hrendered)
        rw [hid] at hkey hsource
        exact ⟨hkey, hsource hdrafts⟩
  | raw kind n r source recalled agrees =>
    rw [kind]
    have hsource := hr.source _ _ source
    rw [Obtained.size_eq hsource h.owed] at hsource
    exact hsource
  | draft kind source key =>
    rw [kind]
    exact ⟨key, hr.source _ _ source⟩

/-- A size that was found when it was looked up has been reported. -/
theorem Conducted.recalled {i k : String} {v : Nat} (hi : '\x00' ∉ i.toList)
    (hrec : s.aux.recalled t = some (i, k, some v)) : Reported hs (i, k) v := by
  obtain ⟨y, hy, hact⟩ := (h.recorded hu).recalled _ _ _ _ hrec
  obtain ⟨newer, older, rfl⟩ := List.append_of_mem hy
  have ho := h.owed y hy
  rw [hact] at ho
  obtain ⟨data, hfound, hv⟩ := Option.map_eq_some_iff.mp (Eq.symm ho)
  have hkept := h.before.kept hb hu _ (ByteCache.mem_of_find hfound)
  obtain ⟨z, hz, hreports⟩ := hkept.sizes hi hnul.before
  rw [hv] at hreports
  exact ⟨z, List.mem_append_right _ (List.mem_cons_of_mem _ hz), hreports⟩

/-- A size reported has been reported before, unless its call remembered none. -/
theorem Conducted.reports (ho : Owes cfg R t p s) {k : String × String} {n : Nat}
    (hp : p.reports = some (k, n)) :
    Reported hs k n ∨ s.aux.recalled t = some (k.1, k.2, none) := by
  have asked : ∀ {i : String} {mdef : MailboxDef} {item : Item} {m : Nat} {r : Option Nat},
      s.Knows i mdef item → s.aux.recalled t = some (i, item.remoteKey, r) →
      (∀ v, r = some v → v = m) → Reported hs (i, item.remoteKey) m ∨
        s.aux.recalled t = some (i, item.remoteKey, none) := by
    intro i mdef item m r known hrec hagrees
    cases r with
    | none => exact .inr hrec
    | some v =>
      rw [← hagrees v rfl]
      exact .inl (h.recalled hb hu hnul hkinds (hnul.met (h.met hb known)) hrec)
  have cached : ∀ {i : String} {mdef : MailboxDef} {item : Item} {data : Bytes},
      s.Knows i mdef item → mdef.kind = .messages →
      s.cache.find (ckey i "body" item.remoteKey) = some data →
        Reported hs (i, item.remoteKey) data.length := by
    intro i mdef item data known kind found
    have hmet := h.met hb known
    have hkept := h.kept hb hu _ (ByteCache.mem_of_find found)
    rcases hkept.body (hnul.met hmet) hnul with ⟨_, _, hreported⟩ | ⟨hd, _⟩
    · exact hreported
    · rw [kind] at hmet
      exact absurd hd (hkinds.not_met hmet)
  cases p with
  | served i mdef item data =>
    obtain ⟨known, hserves⟩ := ho
    simp only [Act.reports] at hp
    split at hp
    · rename_i kind
      cases hp
      cases hserves with
      | cached found => exact .inl (cached known kind found)
      | raw _ _ r _ recalled agrees => exact asked known recalled agrees
      | draft hdrafts _ _ =>
        rw [kind] at hdrafts
        cases hdrafts
    · cases hp
  | sized i mdef item size =>
    obtain ⟨known, hsizes⟩ := ho
    simp only [Act.reports] at hp
    split at hp
    · rename_i kind
      cases hp
      cases hsizes with
      | cached data found length =>
        rw [length]
        exact .inl (cached known kind found)
      | asked _ r recalled agrees => exact asked known recalled agrees
    · cases hp
  | _ => cases hp

end Handed

/-- A call that remembered no size reports one only where none was reported. -/
def Happening.First (x : Happening) : Prop :=
  ∀ r ∈ x.action.reports, x.before.aux.recalled x.tid = some (r.1.1, r.1.2, none) →
    x.before.aux.reported r.1 = []

instance : Decidable x.First :=
  inferInstanceAs (Decidable (∀ r ∈ x.action.reports,
    x.before.aux.recalled x.tid = some (r.1.1, r.1.2, none) → x.before.aux.reported r.1 = []))

/-- Where calls that remembered nothing are first, all sizes reported for a message
are one. -/
theorem Conducted.sizes (h : Conducted cfg R s₀ hs s) (hb : Blank s₀) (hu : Unread s₀)
    (hnul : NulFree cfg hs) (hkinds : KindsApart cfg hs) (hfirst : ∀ x ∈ hs, x.First)
    {k : String × String} {n n' : Nat} (hn : Reported hs k n) (hn' : Reported hs k n') : n = n' := by
  induction hs generalizing s n n' with
  | nil =>
    obtain ⟨y, hy, _⟩ := hn
    cases hy
  | cons x older ih =>
    have hc : Conducted cfg R s₀ older x.before :=
      (show Conducted cfg R s₀ ([] ++ x :: older) s from h).before
    have ho := h.owed x (List.mem_cons_self ..)
    have hnul' : NulFree cfg older := hnul.tail
    have hkinds' : KindsApart cfg older := hkinds.tail
    have hold : ∀ {n n'}, Reported older k n → Reported older k n' → n = n' :=
      ih hc hnul' hkinds' fun y hy => hfirst y (List.mem_cons_of_mem _ hy)
    have hnew : ∀ {n}, x.action.reports = some (k, n) → ∀ m, Reported older k m → m = n := by
      intro n hx m hm
      rcases hc.reports hb hu hnul' hkinds' ho hx with hrep | hrec
      · exact hold hm hrep
      · have hnone := hfirst x (List.mem_cons_self ..) (k, n) hx hrec
        have hmem := ((hc.recorded hu).reported k m).mpr hm
        rw [hnone] at hmem
        cases hmem
    obtain ⟨y, hy, hact⟩ := hn
    obtain ⟨z, hz, hact'⟩ := hn'
    rcases List.mem_cons.mp hy with rfl | hyold
    · rcases List.mem_cons.mp hz with rfl | hzold
      · rw [hact] at hact'
        cases hact'
        rfl
      · exact (hnew hact n' ⟨z, hzold, hact'⟩).symm
    · rcases List.mem_cons.mp hz with rfl | hzold
      · exact hnew hact' n ⟨y, hyold, hact⟩
      · exact hold ⟨y, hyold, hact⟩ ⟨z, hzold, hact'⟩

/-- The size `n` is reported here for an item of a message view, by itself or as the
length of the octets. -/
def Happening.Reports (x : Happening) (i : String) (mdef : MailboxDef) (item : Item) (n : Nat) :
    Prop :=
  mdef.kind = .messages ∧ (x.action = .sized i mdef item n ∨
    ∃ data, x.action = .served i mdef item data ∧ n = data.length)

/-- All sizes reported for a UID are one. -/
def SizesConstant (hs : List Happening) : Prop :=
  ∀ x ∈ hs, ∀ y ∈ hs, ∀ i mdef item item' n n', x.Reports i mdef item n →
    y.Reports i mdef item' n' → item.uid = item'.uid → n = n'

theorem Happening.Reports.reports {i : String} {mdef : MailboxDef} {item : Item}
    {n : Nat} (h : x.Reports i mdef item n) :
    x.action.reports = some ((i, item.remoteKey), n) := by
  obtain ⟨hkind, hact | ⟨data, hact, rfl⟩⟩ := h
  · rw [hact, Act.reports, if_pos hkind]
  · rw [hact, Act.reports, if_pos hkind]

/-! ## What is known was published -/

theorem Happening.publishes_of_shown {l : Listing} {v : Nat} {item : Item} (hok : x.before.store.Ok)
    (hact : x.action = .publish) (hl : x.before.listings x.tid = some l)
    (hitem : item ∈ (x.before.publication l (x.after cfg).store v).items) :
    ∃ snap, x.Publishes cfg l.key snap ∧ item ∈ snap.items := by
  obtain ⟨store, watermark, v', _, heq⟩ := Service.publish_eq hok hl
  have hafter : x.after cfg = x.before.publish x.tid := by
    rw [Happening.after, hact, Act.exec]
  rw [hafter, heq] at hitem
  refine ⟨x.before.publication l store v',
    ⟨l, Happening.publishing_eq_some.mpr ⟨hact, hl⟩, rfl, ?_⟩, hitem⟩
  rw [hafter, heq]
  exact Function.update_self ..

theorem Conducted.published (h : Conducted cfg R s₀ hs s) (h₀ : Blank s₀) :
    ∀ a ∈ s.aux.shown, ∃ y ∈ hs, ∃ snap, y.Publishes cfg a.1 snap ∧ a.2 ∈ snap.items := by
  refine (h.always (P := fun s => ∀ a ∈ s.aux.shown, ∃ y ∈ hs, ∃ snap, y.Publishes cfg a.1 snap ∧
    a.2 ∈ snap.items) (fun a ha => ?_) fun x hx hi hold a ha => ?_).2
  · rw [h₀.shown] at ha
    cases ha
  · cases Act.exec_shownStep cfg x.tid x.action hi.store with
    | publish l v hp hl shown =>
      rw [Happening.after, shown] at ha
      rcases List.mem_append.mp ha with ha | ha
      · exact hold a ha
      · obtain ⟨item, hitem, rfl⟩ := List.mem_map.mp ha
        obtain ⟨snap, hsnap⟩ := Happening.publishes_of_shown hi.store hp hl hitem
        exact ⟨x, hx, snap, hsnap⟩
    | quiet _ shown =>
      rw [Happening.after, shown] at ha
      exact hold a ha

/-- A known item was published with its UID and key. -/
theorem Conducted.known_published (h : Conducted cfg R s₀ hs s) (h₀ : Blank s₀) {i : String}
    {mdef : MailboxDef} {item : Item} (hknown : s.Knows i mdef item) :
    ∃ y ∈ hs, ∃ snap, y.Publishes cfg (i, mdef.name) snap ∧ ∃ a ∈ snap.items, a.Same item := by
  obtain ⟨_, a, ha, hkey, hsame⟩ := hknown
  obtain ⟨y, hy, snap, hp, hitem⟩ := h.published h₀ a ha
  rw [hkey] at hp
  exact ⟨y, hy, snap, hp, a.2, hitem, hsame⟩

end Mailbox
end ImapGateway
