/-
The octets and sizes that are handed out in a run.

As long as the keys of the cache tell the objects apart, octets are those of
the very item they are handed out for, and what is behind a UID of Drafts never
changes.  A size is reported as it is remembered; but it is remembered in the
cache of the octets, which forgets, and a call looks it up before it waits for
upstream, so two calls may report two sizes for one message.
-/
import ImapGateway.Imap.Snapshots
import ImapGateway.Mailbox.Content

namespace ImapGateway
namespace Imap

open Async Mailbox

variable {cfg : Config} {txt : TextConfig}

theorem Boot.unread (b : Boot) : Unread b.service := ⟨rfl, fun _ => rfl, fun _ => rfl, fun _ => rfl⟩

/-! ## Items and their UIDs -/

/-- Items known under one UID of a mailbox have one key, across restarts too. -/
theorem Lives.known_keys {ws : List World} (h : Lives cfg txt ws) {x y : Happening}
    (hx : x ∈ chronicle ws) (hy : y ∈ chronicle ws) {i : String} {mdef : MailboxDef}
    {item item' : Item} (hknown : x.before.Knows i mdef item)
    (hknown' : y.before.Knows i mdef item') (huid : item.uid = item'.uid) :
    item.remoteKey = item'.remoteKey := by
  have known : ∀ {x : Happening} {item : Item}, x ∈ chronicle ws → x.before.Knows i mdef item →
      ∃ z ∈ chronicle ws, ∃ snap, z.Publishes cfg (i, mdef.name) snap ∧
        ∃ a ∈ snap.items, a.Same item := by
    intro x item hx hknown
    obtain ⟨w, hw, hxw⟩ := mem_chronicle.mp hx
    obtain ⟨b, hc⟩ := h.conducted w hw
    obtain ⟨newer, older, heq⟩ := List.append_of_mem hxw
    rw [heq] at hc
    obtain ⟨z, hz, hp⟩ := hc.before.known_published b.blank hknown
    refine ⟨z, mem_chronicle.mpr ⟨w, hw, ?_⟩, hp⟩
    rw [heq]
    exact List.mem_append_right _ (List.mem_cons_of_mem _ hz)
  obtain ⟨z, hz, snap, hp, a, ha, hsame⟩ := known hx hknown
  obtain ⟨z', hz', snap', hp', a', ha', hsame'⟩ := known hy hknown'
  have huid : a.uid = a'.uid := by rw [hsame.uid, hsame'.uid, huid]
  have hkeys : a.remoteKey = a'.remoteKey :=
    h.keys_constant z hz z' hz' _ snap snap' hp hp' a ha a' ha' huid
  rw [← hsame.remoteKey, ← hsame'.remoteKey, hkeys]

/-! ## Bodies -/

/-- What is handed out is authentic, and the octets handed out for a UID of Drafts
are the same for ever if the digest tells them apart. -/
structure BodiesAuthentic (cfg : Config) (ws : List World) : Prop where
  authentic : ∀ w ∈ ws, ∀ newer x older, happenings w.trace = newer ++ x :: older →
    ∀ i mdef item data, x.action = .served i mdef item data → Authentic cfg older i mdef item data
  constant : ∀ x ∈ chronicle ws, ∀ y ∈ chronicle ws, ∀ i item item' data data',
    x.action = .served i drafts item data → y.action = .served i drafts item' data' →
    item.uid = item'.uid → (cfg.digest data = cfg.digest data' → data = data') → data = data'

theorem contentKey_digest {id : String} {data data' : Bytes}
    (h : contentKey cfg id data = contentKey cfg id data') : cfg.digest data = cfg.digest data' := by
  have hl := congrArg String.toList h
  simp only [contentKey, String.toList_append] at hl
  exact String.toList_inj.mp (List.append_cancel_left hl)

theorem bodies_authentic {ws : List World} (h : Lives cfg txt ws)
    (hnul : ∀ w ∈ ws, NulFree cfg (happenings w.trace))
    (hkinds : ∀ w ∈ ws, KindsApart cfg (happenings w.trace))
    (hdrafts : ∀ w ∈ ws, DraftsApart (happenings w.trace)) : BodiesAuthentic cfg ws := by
  have hauthentic : ∀ w ∈ ws, ∀ newer x older, happenings w.trace = newer ++ x :: older →
      ∀ i mdef item data, x.action = .served i mdef item data →
        Authentic cfg older i mdef item data := by
    intro w hw newer x older heq i mdef item data hact
    obtain ⟨b, hc⟩ := h.conducted w hw
    have hn := hnul w hw
    have hk := hkinds w hw
    have hd := hdrafts w hw
    have ho := hc.owed x (by rw [heq]; exact List.mem_append_right _ (List.mem_cons_self ..))
    rw [heq] at hc hn hk hd
    rw [hact] at ho
    exact hc.before.authentic b.blank b.unread hn.before hk.before hd.before ho
  refine ⟨hauthentic, ?_⟩
  intro x hx y hy i item item' data data' hact hact' huid hdigest
  have served : ∀ {x : Happening} {item : Item} {data : Bytes}, x ∈ chronicle ws →
      x.action = .served i drafts item data → x.before.Knows i drafts item ∧
        contentKey cfg item.remoteId data = item.remoteKey := by
    intro x item data hx hact
    obtain ⟨w, hw, hxw⟩ := mem_chronicle.mp hx
    obtain ⟨b, hc⟩ := h.conducted w hw
    obtain ⟨newer, older, heq⟩ := List.append_of_mem hxw
    have ho := hc.owed x hxw
    rw [hact] at ho
    exact ⟨ho.1, (hauthentic w hw newer x older heq i drafts item data hact).1⟩
  obtain ⟨hknown, hkey⟩ := served hx hact
  obtain ⟨hknown', hkey'⟩ := served hy hact'
  have hkeys := h.known_keys hx hy hknown hknown' huid
  rw [← hkey, ← hkey'] at hkeys
  rw [contentKey_inj hkeys] at hkeys
  exact hdigest (contentKey_digest hkeys)

/-- A client reads the first drafts there are, as listed. -/
def readDrafts (listed : List Move) (n : Nat) : List Move :=
  loginMoves 0 ++ openMoves 0 0 drafts false listed ++
    [commandBy 0 (.fetch false ⟨[(1, n)]⟩ [{ kind := .body, label := "BODY[]" }])] ++
    List.replicate n (answerTo (.conn 0) [])

/-- The draft is read from the cache it was put into when it was listed. -/
theorem bodies_authentic_listed : ∃ ws, Lives demoConfig demoText ws ∧
    (chronicle ws).any (fun x => match x.action with
      | .served _ _ _ _ => true
      | _ => false) = true ∧ BodiesAuthentic demoConfig ws := by
  have hrun : (demoBoot.world.run (gateway demoConfig demoText) (readDrafts
      (List.replicate 2 (draftsFor (.task 0) [draftAt "a" "b:c" "one"])) 1)).any (fun w =>
        decide (NulFree demoConfig (happenings w.trace)) &&
        decide (KindsApart demoConfig (happenings w.trace)) &&
        decide (DraftsApart (happenings w.trace)) &&
        (chronicle [w]).any fun x => match x.action with
          | .served _ _ _ _ => true
          | _ => false) = true := by
    decide +kernel
  obtain ⟨w, hw, hok⟩ := exists_properRun (by decide) hrun
  simp only [Bool.and_eq_true, decide_eq_true_eq] at hok
  obtain ⟨⟨⟨hnul, hkinds⟩, hdrafts⟩, hserved⟩ := hok
  have hlives : Lives demoConfig demoText [w] := .cons demoBoot w [] hw nofun .nil
  exact ⟨[w], hlives, hserved, bodies_authentic hlives
    (fun v hv => List.mem_singleton.mp hv ▸ hnul) (fun v hv => List.mem_singleton.mp hv ▸ hkinds)
    fun v hv => List.mem_singleton.mp hv ▸ hdrafts⟩

/-- Octets are handed out for a draft none have come for. -/
def misserved (hs : List Happening) : Bool :=
  hs.any fun x => match x.action with
    | .served i mdef item data => decide (mdef.kind = .drafts) &&
      hs.all fun y => decide (y.action ≠ .obtained (.draft i item.remoteId data))
    | _ => false

/-- Two drafts are listed whose ids and times of update, joined by a colon, are one
text. -/
theorem draft_of_another : ∃ ws, Lives demoConfig demoText ws ∧
    (∀ w ∈ ws, NulFree demoConfig (happenings w.trace)) ∧ ¬BodiesAuthentic demoConfig ws := by
  have hrun : (demoBoot.world.run (gateway demoConfig demoText) (readDrafts
      (List.replicate 2 (draftsFor (.task 0) [draftAt "a" "b:c" "one", draftAt "a:b" "c" "two"]))
        2)).any (fun w => decide (NulFree demoConfig (happenings w.trace)) &&
          misserved (happenings w.trace)) = true := by
    decide +kernel
  obtain ⟨w, hw, hok⟩ := exists_properRun (by decide) hrun
  rw [Bool.and_eq_true, decide_eq_true_eq] at hok
  obtain ⟨hnul, hmis⟩ := hok
  refine ⟨[w], .cons demoBoot w [] hw nofun .nil, fun v hv => List.mem_singleton.mp hv ▸ hnul,
    fun h => ?_⟩
  obtain ⟨x, hx, hmis⟩ := List.any_eq_true.mp hmis
  obtain ⟨newer, older, heq⟩ := List.append_of_mem hx
  split at hmis
  · rename_i i mdef item data hact
    rw [Bool.and_eq_true, decide_eq_true_eq] at hmis
    have hauth := h.authentic w (List.mem_singleton_self w) newer x older heq i mdef item data hact
    unfold Authentic at hauth
    rw [hmis.1] at hauth
    obtain ⟨_, y, hy, hsource⟩ := hauth
    have hmem : y ∈ happenings w.trace := by
      rw [heq]
      exact List.mem_append_right _ (List.mem_cons_of_mem _ hy)
    exact of_decide_eq_true (List.all_eq_true.mp hmis.2 y hmem) hsource
  · cases hmis

/-! ## Sizes -/

theorem sizes_constant (b : Boot) {w : World} (h : ProperRun cfg txt b w)
    (hnul : NulFree cfg (happenings w.trace)) (hkinds : KindsApart cfg (happenings w.trace))
    (hfirst : ∀ x ∈ happenings w.trace, x.First) : SizesConstant (happenings w.trace) := by
  have hlives : Lives cfg txt [w] := .cons b w [] h nofun .nil
  have hmem : ∀ {x}, x ∈ happenings w.trace → x ∈ chronicle [w] :=
    fun hx => mem_chronicle.mpr ⟨w, List.mem_singleton_self w, hx⟩
  have known : ∀ {x : Happening} {i : String} {mdef : MailboxDef} {item : Item} {n : Nat},
      x ∈ happenings w.trace → x.Reports i mdef item n → x.before.Knows i mdef item := by
    intro x i mdef item n hx hrep
    have ho := h.conducted.owed x hx
    obtain ⟨_, hact | ⟨data, hact, _⟩⟩ := hrep
    · rw [hact] at ho
      exact ho.1
    · rw [hact] at ho
      exact ho.1
  intro x hx y hy i mdef item item' n n' hrep hrep' huid
  have hkeys := hlives.known_keys (hmem hx) (hmem hy) (known hx hrep) (known hy hrep') huid
  have hreports := hrep.reports
  rw [hkeys] at hreports
  exact h.conducted.sizes b.blank b.unread hnul hkinds hfirst ⟨x, hx, hreports⟩
    ⟨y, hy, hrep'.reports⟩

/-- Upstream says how long a message is. -/
def sizeFor (n size : Nat) : Move := .resume (.conn n) fun _ q => match q with
  | .getRawMeta _ _ _ => some (.ok ⟨size, ""⟩)
  | _ => none

def openInbox (n : Nat) : List Move :=
  loginMoves n ++ openMoves n n inbox false [answerTo (.task n) [demoMessage "m1" ["received"]]]

def fetchSize (n : Nat) : Move :=
  commandBy n (.fetch false ⟨[(1, 1)]⟩ [{ kind := .size, label := "RFC822.SIZE" }])

/-- Two clients ask for the size, one after the other. -/
theorem sizes_constant_asked_twice : ∃ w, ProperRun demoConfig demoText demoBoot w ∧
    ((happenings w.trace).filterMap fun x => x.action.reports).length = 2 ∧
    SizesConstant (happenings w.trace) := by
  have hrun : (demoBoot.world.run (gateway demoConfig demoText) (openInbox 0 ++ openInbox 1 ++
      [fetchSize 0, sizeFor 0 10, answerTo (.conn 0) [], fetchSize 1])).any (fun w =>
        decide (NulFree demoConfig (happenings w.trace)) &&
        decide (KindsApart demoConfig (happenings w.trace)) &&
        ((happenings w.trace).all fun x => decide x.First) &&
        decide (((happenings w.trace).filterMap fun x => x.action.reports).length = 2)) = true := by
    decide +kernel
  obtain ⟨w, hw, hok⟩ := exists_properRun (by decide) hrun
  simp only [Bool.and_eq_true, decide_eq_true_eq, List.all_eq_true] at hok
  obtain ⟨⟨⟨hnul, hkinds⟩, hfirst⟩, hlength⟩ := hok
  exact ⟨w, hw, hlength, sizes_constant demoBoot hw hnul hkinds hfirst⟩

def conflictingSizes (hs : List Happening) : Bool :=
  hs.any fun x => hs.any fun y => match x.action, y.action with
    | .sized i mdef item n, .sized i' mdef' item' n' =>
      decide (i = i' ∧ mdef = mdef' ∧ item.uid = item'.uid ∧ mdef.kind = .messages ∧ n ≠ n')
    | _, _ => false

/-- They ask at once, and upstream says 10 to the one and 20 to the other. -/
theorem two_sizes_reported : ∃ w, ProperRun demoConfig demoText demoBoot w ∧
    NulFree demoConfig (happenings w.trace) ∧ KindsApart demoConfig (happenings w.trace) ∧
    ¬SizesConstant (happenings w.trace) := by
  have hrun : (demoBoot.world.run (gateway demoConfig demoText) (openInbox 0 ++ openInbox 1 ++
      [fetchSize 0, fetchSize 1, sizeFor 0 10, sizeFor 1 20])).any (fun w =>
        decide (NulFree demoConfig (happenings w.trace)) &&
        decide (KindsApart demoConfig (happenings w.trace)) &&
        conflictingSizes (happenings w.trace)) = true := by
    decide +kernel
  obtain ⟨w, hw, hok⟩ := exists_properRun (by decide) hrun
  simp only [Bool.and_eq_true, decide_eq_true_eq] at hok
  obtain ⟨⟨hnul, hkinds⟩, hconf⟩ := hok
  refine ⟨w, hw, hnul, hkinds, fun hconst => ?_⟩
  obtain ⟨x, hx, hconf⟩ := List.any_eq_true.mp hconf
  obtain ⟨y, hy, hconf⟩ := List.any_eq_true.mp hconf
  split at hconf
  · rename_i i mdef item n i' mdef' item' n' hact hact'
    obtain ⟨rfl, rfl, huid, hkind, hne⟩ := of_decide_eq_true hconf
    exact hne (hconst x hx y hy i mdef item item' n n' ⟨hkind, .inl hact⟩ ⟨hkind, .inl hact'⟩ huid)
  · cases hconf

end Imap
end ImapGateway
