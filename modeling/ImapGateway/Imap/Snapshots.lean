/-
The snapshots of a run: what they say of the store, of drafts and of dates.

Snapshots agree with the map of UIDs, and a UID stands for one object, across
restarts too.  What else a snapshot says of an object is the listing's: a pin
keeps an old version of a draft beside the new one, and the date of a draft is
that of its last update, which can change under a UID.
-/
import ImapGateway.Imap.Sound
import ImapGateway.Mailbox.Publications

namespace ImapGateway
namespace Imap

open Async Mailbox

variable {cfg : Config} {txt : TextConfig}

theorem Boot.blank (b : Boot) : Blank b.service := ⟨fun _ => rfl, fun _ => rfl, rfl⟩

/-! ## Snapshots and the map of UIDs -/

theorem snapshots_agree (b : Boot) {w : World} (h : ProperRun cfg txt b w) :
    SnapshotsAgree cfg (happenings w.trace) :=
  h.conducted.snapshotsAgree b.blank

/-- INBOX shows one message and then another one beside it. -/
def arrivalMoves : List Move :=
  [syncBy 0 "INBOX", listBy 0 0 inbox, answerTo (.task 0) [demoMessage "m1" ["received"]],
    reapOf 0, answerTo (.conn 0) [], syncBy 0 "INBOX", listBy 1 0 inbox,
    answerTo (.task 1) [demoMessage "m2" ["received"], demoMessage "m1" ["received"]]]

theorem snapshots_agree_arrival : ∃ w, ProperRun demoConfig demoText demoBoot w ∧
    (publications (happenings w.trace)).length = 2 ∧
    SnapshotsAgree demoConfig (happenings w.trace) := by
  have hrun : (demoBoot.world.run (gateway demoConfig demoText) arrivalMoves).any (fun w =>
      decide ((publications (happenings w.trace)).length = 2)) = true := by
    decide +kernel
  obtain ⟨w, hw, hlength⟩ := exists_properRun (by decide) hrun
  exact ⟨w, hw, of_decide_eq_true hlength, snapshots_agree demoBoot hw⟩

/-! ## Versions of a draft -/

/-- A published snapshot shows each draft once exactly when the pins it keeps are of
drafts that were not listed, each of another one. -/
theorem drafts_shown_once (b : Boot) {w : World} (h : ProperRun cfg txt b w) :
    ∀ x ∈ happenings w.trace, ∀ key snap, x.Publishes cfg key snap →
      ((snap.items.map (·.remoteId)).Nodup ↔ ∃ l, x.publishing = some l ∧ x.before.PinsApart l) := by
  intro x hx key snap hp
  obtain ⟨newer, older, heq⟩ := List.append_of_mem hx
  have hc := h.conducted
  rw [heq] at hc
  exact hp.ids_nodup hc.before.inv (hc.before.named b.blank)

def draftAt (id updatedAt text : String) : DraftJson :=
  ⟨some id, some updatedAt, none, none, none, none, none, none, none, some text⟩

/-- The client appends a draft, which is listed afterwards as `draft`. -/
def appendMoves (draft : DraftJson) : List Move :=
  [commandBy 0 (.login "a@x" "k"), draftsFor (.conn 0) [], draftsFor (.conn 0) [],
    commandBy 0 (.append "Drafts" (.ok ⟨[], [], [], [], "", "one"⟩) "c"),
    listBy 0 0 drafts, draftsFor (.task 0) [], reapOf 0, draftsFor (.conn 0) [],
    draftsFor (.conn 0) [draftAt "d1" "now" "one"],
    .launch (.task 1) (.task (.resync ⟨0, 0, "k"⟩ "a@x")), listBy 2 0 drafts,
    draftsFor (.task 2) [draft], draftsFor (.task 2) [draft]]

/-- What is published last, if `p` holds of it. -/
def lastShows (p : Snapshot → Bool) (w : World) : Bool :=
  (happenings w.trace).any fun x =>
    x.publishing.any fun l => ((x.after demoConfig).latest l.key).any p

theorem publishes_of_lastShows {p : Snapshot → Bool} {w : World} (h : lastShows p w = true) :
    ∃ x ∈ happenings w.trace, ∃ key snap, x.Publishes demoConfig key snap ∧ p snap = true := by
  obtain ⟨x, hx, hp⟩ := List.any_eq_true.mp h
  obtain ⟨l, hl, hp⟩ := (Option.any_eq_true _ _).mp hp
  obtain ⟨snap, hsnap, hp⟩ := (Option.any_eq_true _ _).mp hp
  exact ⟨x, hx, l.key, snap, ⟨l, hl, rfl, hsnap⟩, hp⟩

/-- The draft is listed as it was appended. -/
theorem drafts_shown_once_listed : ∃ w, ProperRun demoConfig demoText demoBoot w ∧
    ∃ x ∈ happenings w.trace, ∃ key snap, x.Publishes demoConfig key snap ∧
      snap.items.length = 1 ∧ ((snap.items.map (·.remoteId)).Nodup ↔
        ∃ l, x.publishing = some l ∧ x.before.PinsApart l) := by
  have hrun : (demoBoot.world.run (gateway demoConfig demoText)
      ((appendMoves (draftAt "d1" "now" "one")).take 12)).any
        (lastShows fun snap => decide (snap.items.length = 1)) = true := by
    decide +kernel
  obtain ⟨w, hw, hshown⟩ := exists_properRun (by decide) hrun
  obtain ⟨x, hx, key, snap, hp, hlength⟩ := publishes_of_lastShows hshown
  exact ⟨w, hw, x, hx, key, snap, hp, of_decide_eq_true hlength,
    drafts_shown_once demoBoot hw x hx key snap hp⟩

/-- The draft is edited upstream before it is listed. -/
theorem draft_shown_twice : ∃ w, ProperRun demoConfig demoText demoBoot w ∧
    ∃ x ∈ happenings w.trace, ∃ key snap, x.Publishes demoConfig key snap ∧
      key.2 = drafts.name ∧ ¬(snap.items.map (·.remoteId)).Nodup := by
  have hrun : (demoBoot.world.run (gateway demoConfig demoText)
      (appendMoves (draftAt "d1" "later" "two"))).any (lastShows fun snap =>
        decide (snap.name = drafts.name) && !decide (snap.items.map (·.remoteId)).Nodup) = true := by
    decide +kernel
  obtain ⟨w, hw, hshown⟩ := exists_properRun (by decide) hrun
  obtain ⟨x, hx, key, snap, hp, hok⟩ := publishes_of_lastShows hshown
  rw [Bool.and_eq_true, decide_eq_true_eq, Bool.not_eq_true', decide_eq_false_iff_not] at hok
  have hkey := ((snapshots_agree demoBoot hw).agree x hx key snap hp).1
  exact ⟨w, hw, x, hx, key, snap, hp, hkey ▸ hok.1, hok.2⟩

/-! ## Gateways one after another on one store -/

/-- Gateways that ran one after another, the last one first.  Each started on what
its predecessor had committed when it stopped, perhaps in the middle of an
action. -/
inductive Lives (cfg : Config) (txt : TextConfig) : List World → Prop
  | nil : Lives cfg txt []
  | cons (b : Boot) (w : World) (ws : List World) (run : ProperRun cfg txt b w)
      (store : ∀ v ∈ ws.head?, v.shared.store.Grows b.store) (lives : Lives cfg txt ws) :
      Lives cfg txt (w :: ws)

/-- What happened in all of them. -/
def chronicle (ws : List World) : List Happening := ws.flatMap fun w => happenings w.trace

theorem mem_chronicle {ws : List World} {x : Happening} :
    x ∈ chronicle ws ↔ ∃ w ∈ ws, x ∈ happenings w.trace := List.mem_flatMap

theorem Lives.grows {ws : List World} (h : Lives cfg txt ws) :
    ((chronicle ws).Pairwise fun y x => (x.after cfg).store.Grows y.before.store) ∧
      ∀ v ∈ ws.head?, ∀ x ∈ chronicle ws, (x.after cfg).store.Grows v.shared.store := by
  induction h with
  | nil => exact ⟨List.Pairwise.nil, nofun⟩
  | cons b w ws run store lives ih =>
    have hc := run.conducted
    have hboot : ∀ x ∈ chronicle ws, (x.after cfg).store.Grows b.service.store := by
      intro x hx
      cases ws with
      | nil => cases hx
      | cons v ws => exact (ih.2 v rfl x hx).trans (store v rfl)
    have hfrom : ∀ y ∈ happenings w.trace, b.service.store.Grows y.before.store := by
      intro y hy
      obtain ⟨newer, older, heq⟩ := List.append_of_mem hy
      rw [heq] at hc
      exact hc.before.evolve.store
    rw [chronicle, List.flatMap_cons]
    refine ⟨List.pairwise_append.mpr ⟨hc.grows, ih.1, fun y hy x hx =>
      (hboot x hx).trans (hfrom y hy)⟩, fun v hv x hx => ?_⟩
    cases hv
    rcases List.mem_append.mp hx with hx | hx
    · obtain ⟨newer, older, heq⟩ := List.append_of_mem hx
      rw [heq] at hc
      exact hc.after.evolve.store
    · exact (hboot x hx).trans hc.evolve.store

theorem Lives.conducted {ws : List World} (h : Lives cfg txt ws) :
    ∀ w ∈ ws, ∃ b : Boot, Conducted cfg ⟨False, False⟩ b.service (happenings w.trace) w.shared := by
  induction h with
  | nil => nofun
  | cons b w ws run _ _ ih =>
    intro v hv
    rcases List.mem_cons.mp hv with rfl | hv
    · exact ⟨b, run.conducted⟩
    · exact ih v hv

/-- The service is in order wherever something happens. -/
theorem Lives.ordered {ws : List World} (h : Lives cfg txt ws) {x : Happening}
    (hx : x ∈ chronicle ws) : Inv cfg ⟨False, False⟩ x.before ∧ Mailbox.Named cfg x.before := by
  obtain ⟨w, hw, hx⟩ := mem_chronicle.mp hx
  obtain ⟨b, hc⟩ := h.conducted w hw
  obtain ⟨newer, older, heq⟩ := List.append_of_mem hx
  rw [heq] at hc
  exact ⟨hc.before.inv, hc.before.named b.blank⟩

/-! ## What a UID stands for -/

/-- Items published under one UID of a mailbox, here and there, agree on `f`. -/
def Constant {α : Type} (cfg : Config) (f : Item → α) (hs : List Happening) : Prop :=
  ∀ x ∈ hs, ∀ y ∈ hs, ∀ key snap snap', x.Publishes cfg key snap → y.Publishes cfg key snap' →
    ∀ a ∈ snap.items, ∀ a' ∈ snap'.items, a.uid = a'.uid → f a = f a'

/-- Of two publications the later one has no old UID under another key. -/
theorem keys_agree {R : Regime} {x y : Happening} {key : Key} {snap snap' : Snapshot}
    (hx : Inv cfg R x.before) (hy : Inv cfg R y.before) (hnx : Mailbox.Named cfg x.before)
    (hny : Mailbox.Named cfg y.before) (hg : (x.after cfg).store.Grows y.before.store)
    (hp : x.Publishes cfg key snap) (hp' : y.Publishes cfg key snap') {a a' : Item}
    (ha : a ∈ snap.items) (ha' : a' ∈ snap'.items) (huid : a.uid = a'.uid) :
    a.remoteKey = a'.remoteKey := by
  have hcur := hp.current hx
  have hcur' := hp'.current hy
  have hkey := hcur.key_eq
  subst hkey
  have hsame : snap'.inboxId = snap.inboxId ∧ snap'.name = snap.name :=
    ⟨congrArg Prod.fst hcur'.key_eq, congrArg Prod.snd hcur'.key_eq⟩
  have hlive := ((hp.agrees hx hnx).live a.remoteKey a.uid).mpr ⟨a, ha, rfl, rfl⟩
  have hlive' := ((hp'.agrees hy hny).live a'.remoteKey a'.uid).mpr ⟨a', ha', rfl, rfl⟩
  rw [hsame.1, hsame.2, ← huid] at hlive'
  have hgrow := hg.trans (hy.evolve y.tid y.action).store
  have hbelow : a.uid < (x.after cfg).store.nextUid snap.inboxId snap.name :=
    Nat.lt_of_lt_of_le (hcur.valid.below _ (List.mem_map_of_mem ha)) hcur.valid.reached
  have hok : (x.after cfg).store.Ok := (Act.exec_uidStep cfg x.tid x.action hx.store).1
  rcases (hgrow snap.inboxId snap.name).2 _ _ hlive' with hback | hnew
  · exact hok.liveUid_inj hlive hback
  · omega

theorem Lives.keys_constant {ws : List World} (h : Lives cfg txt ws) :
    Constant cfg (·.remoteKey) (chronicle ws) := by
  let Agree := fun x y : Happening => ∀ key snap snap', x.Publishes cfg key snap →
    y.Publishes cfg key snap' → ∀ a ∈ snap.items, ∀ a' ∈ snap'.items, a.uid = a'.uid →
      a.remoteKey = a'.remoteKey
  have hsymm : ∀ x y, Agree x y → Agree y x := fun x y hxy key snap snap' hp hp' a ha a' ha' huid =>
    (hxy key snap' snap hp' hp a' ha' a ha huid.symm).symm
  have hself : ∀ x ∈ chronicle ws, Agree x x := by
    intro x hx key snap snap' hp hp' a ha a' ha' huid
    obtain ⟨l, _, _, hlatest⟩ := hp'
    have hsnap := hp
    obtain ⟨_, _, _, hlatest'⟩ := hsnap
    rw [hlatest'] at hlatest
    cases hlatest
    obtain ⟨hi, hn⟩ := h.ordered hx
    have hbyUid := (hp.agrees hi hn).byUid
    have h₁ := (hbyUid a.uid a).mpr ⟨ha, rfl⟩
    rw [(hbyUid a.uid a').mpr ⟨ha', huid.symm⟩] at h₁
    cases h₁
    rfl
  have hpairs : (chronicle ws).Pairwise Agree := by
    refine h.grows.1.imp_of_mem fun {y x} hy hx hg => hsymm x y ?_
    intro key snap snap' hp hp' a ha a' ha' huid
    obtain ⟨hix, hnx⟩ := h.ordered hx
    obtain ⟨hiy, hny⟩ := h.ordered hy
    exact keys_agree hix hiy hnx hny hg hp hp' ha ha' huid
  have : Std.Symm Agree := ⟨hsymm⟩
  exact fun x hx y hy => hpairs.forall_of_forall hself hx hy

/-- The dates upstream gives what has one remote key, if they never change. -/
theorem exists_dates {hs : List Happening} (hm : FixedDates cfg .messages hs)
    (hd : FixedDates cfg .drafts hs) :
    ∃ D : Mailbox.Kind × String × String → Datetime, ∀ x ∈ hs, ∀ a ∈ x.dates cfg, a.2 = D a.1 := by
  classical
  refine ⟨fun k => if h : ∃ n, ∃ x ∈ hs, (k, n) ∈ x.dates cfg then h.choose else .epoch,
    fun x hx a ha => ?_⟩
  have hex : ∃ n, ∃ x ∈ hs, (a.1, n) ∈ x.dates cfg := ⟨a.2, x, hx, ha⟩
  beta_reduce
  rw [dif_pos hex]
  obtain ⟨y, hy, hn⟩ := hex.choose_spec
  cases hk : a.1.1 with
  | messages => exact hm x hx y hy a ha _ hn hk rfl
  | drafts => exact hd x hx y hy a ha _ hn hk rfl

/-- As long as upstream does not change the dates of messages, nor the time of the
last update of a draft that renders as before, what is published under one UID
has one remote key, one remote id and one date. -/
theorem uids_immutable {ws : List World} (h : Lives cfg txt ws)
    (hm : FixedDates cfg .messages (chronicle ws)) (hd : FixedDates cfg .drafts (chronicle ws)) :
    Constant cfg (fun item => (item.remoteId, item.remoteKey, item.internaldate))
      (chronicle ws) := by
  obtain ⟨D, hD⟩ := exists_dates hm hd
  have hitem : ∀ x ∈ chronicle ws, ∀ key snap, x.Publishes cfg key snap → ∀ a ∈ snap.items,
      a.Keyed cfg (kindAt key) ∧ a.internaldate = D (kindAt key, key.1, a.remoteKey) := by
    intro x hx key snap hp a ha
    obtain ⟨w, hw, hxw⟩ := mem_chronicle.mp hx
    obtain ⟨b, hc⟩ := h.conducted w hw
    obtain ⟨newer, older, heq⟩ := List.append_of_mem hxw
    rw [heq] at hc
    have holder : ∀ y ∈ older, y ∈ chronicle ws := by
      intro y hy
      refine mem_chronicle.mpr ⟨w, hw, ?_⟩
      rw [heq]
      exact List.mem_append_right _ (List.mem_cons_of_mem _ hy)
    have hdated := hc.before.dated (P := fun k n => n = D k) b.blank fun y hy => hD y (holder y hy)
    exact hp.dated hc.before.inv (hc.before.named b.blank) hdated ha
  intro x hx y hy key snap snap' hp hp' a ha a' ha' huid
  have hkey := h.keys_constant x hx y hy key snap snap' hp hp' a ha a' ha' huid
  obtain ⟨hkeyed, hdate⟩ := hitem x hx key snap hp a ha
  obtain ⟨hkeyed', hdate'⟩ := hitem y hy key snap' hp' a' ha'
  have hkey : a.remoteKey = a'.remoteKey := hkey
  show (a.remoteId, a.remoteKey, a.internaldate) = (a'.remoteId, a'.remoteKey, a'.internaldate)
  rw [hkeyed.id_eq hkeyed' hkey, hdate, hdate', hkey]

/-- A draft is listed and its update time changes, or not. -/
def listDraft (n : Nat) (draft : DraftJson) : List Move :=
  [syncBy 0 "Drafts", listBy n 0 drafts, draftsFor (.task n) [draft], draftsFor (.task n) [draft],
    reapOf n, draftsFor (.conn 0) []]

def datesFixed (kind : Mailbox.Kind) (hs : List Happening) : Bool :=
  hs.all fun x => hs.all fun y => (x.dates demoConfig).all fun a => (y.dates demoConfig).all fun b =>
    decide (a.1.1 = kind → a.1 = b.1 → a.2 = b.2)

theorem fixedDates_of_check {kind : Mailbox.Kind} {hs : List Happening} (h : datesFixed kind hs = true) :
    FixedDates demoConfig kind hs := by
  intro x hx y hy a ha b hb
  have hxy := List.all_eq_true.mp (List.all_eq_true.mp h x hx) y hy
  exact of_decide_eq_true (List.all_eq_true.mp (List.all_eq_true.mp hxy a ha) b hb)

/-- A draft is listed before and after a restart. -/
theorem uids_immutable_restart : ∃ ws, Lives demoConfig demoText ws ∧ ws.length = 2 ∧
    FixedDates demoConfig .messages (chronicle ws) ∧ FixedDates demoConfig .drafts (chronicle ws) ∧
    Constant demoConfig (fun item => (item.remoteId, item.remoteKey, item.internaldate))
      (chronicle ws) := by
  have hrun : (demoBoot.world.run (gateway demoConfig demoText)
      (listDraft 0 (draftAt "d1" "2026-08-17T16:00:00Z" "one"))).any (fun w =>
        ((World.start w.shared.store 0 1000 fun _ => ∅).run (gateway demoConfig demoText)
          (listDraft 0 (draftAt "d1" "2026-08-17T16:00:00Z" "one"))).any fun v =>
            datesFixed .messages (chronicle [v, w]) && datesFixed .drafts (chronicle [v, w])) = true := by
    decide +kernel
  obtain ⟨w, hw, hrun⟩ := exists_properRun (by decide) hrun
  let b : Boot := ⟨w.shared.store, hw.conducted.inv.store, 0, 1000, fun _ => ∅⟩
  obtain ⟨v, hv, hfixed⟩ := exists_properRun (b := b) (by decide) hrun
  rw [Bool.and_eq_true] at hfixed
  have hlives : Lives demoConfig demoText [v, w] := by
    refine .cons b v [w] hv (fun u hu => ?_) (.cons demoBoot w [] hw nofun .nil)
    cases hu
    exact .refl _
  have hm := fixedDates_of_check hfixed.1
  have hd := fixedDates_of_check hfixed.2
  exact ⟨[v, w], hlives, rfl, hm, hd, uids_immutable hlives hm hd⟩

/-- Items of two publications share a UID and differ in their dates. -/
def conflictingDates (hs : List Happening) : Bool :=
  hs.any fun x => x.publishing.any fun l => ((x.after demoConfig).latest l.key).any fun snap =>
    hs.any fun y => y.publishing.any fun l' => decide (l'.key = l.key) &&
      ((y.after demoConfig).latest l.key).any fun snap' =>
        snap.items.any fun a => snap'.items.any fun a' =>
          decide (a.uid = a'.uid) && decide (a.internaldate ≠ a'.internaldate)

/-- The draft is saved again without a change. -/
theorem date_changed_under_uid : ∃ ws, Lives demoConfig demoText ws ∧
    FixedDates demoConfig .messages (chronicle ws) ∧
    ¬Constant demoConfig (fun item => (item.remoteId, item.remoteKey, item.internaldate))
      (chronicle ws) := by
  have hrun : (demoBoot.world.run (gateway demoConfig demoText)
      (listDraft 0 (draftAt "d1" "2026-08-17T16:00:00Z" "one") ++
        listDraft 1 (draftAt "d1" "2026-08-18T09:30:00Z" "one"))).any (fun w =>
        datesFixed .messages (chronicle [w]) && conflictingDates (chronicle [w])) = true := by
    decide +kernel
  obtain ⟨w, hw, hok⟩ := exists_properRun (by decide) hrun
  rw [Bool.and_eq_true] at hok
  refine ⟨[w], .cons demoBoot w [] hw nofun .nil, fixedDates_of_check hok.1, fun hconst => ?_⟩
  obtain ⟨x, hx, hconf⟩ := List.any_eq_true.mp hok.2
  obtain ⟨l, hl, hconf⟩ := (Option.any_eq_true _ _).mp hconf
  obtain ⟨snap, hsnap, hconf⟩ := (Option.any_eq_true _ _).mp hconf
  obtain ⟨y, hy, hconf⟩ := List.any_eq_true.mp hconf
  obtain ⟨l', hl', hconf⟩ := (Option.any_eq_true _ _).mp hconf
  rw [Bool.and_eq_true, decide_eq_true_eq] at hconf
  obtain ⟨hkey, hconf⟩ := hconf
  obtain ⟨snap', hsnap', hconf⟩ := (Option.any_eq_true _ _).mp hconf
  obtain ⟨a, ha, hconf⟩ := List.any_eq_true.mp hconf
  obtain ⟨a', ha', hconf⟩ := List.any_eq_true.mp hconf
  rw [Bool.and_eq_true, decide_eq_true_eq, decide_eq_true_eq] at hconf
  have hsame := hconst x hx y hy l.key snap snap' ⟨l, hl, rfl, hsnap⟩
    ⟨l', hl', hkey, hsnap'⟩ a ha a' ha' hconf.1
  exact hconf.2 (congrArg (fun z => z.2.2) hsame)

end Imap
end ImapGateway
