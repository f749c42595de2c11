/-
The listings of a run: the order they take effect in, and the UIDs handed out
before any listing shows them.

Both rest on one listing of a mailbox at a time.  `sync` means to keep to that,
but a caller whose joined listing failed with the credentials of another session
lists by itself, beside whatever else is listing the mailbox.
-/
import ImapGateway.Imap.Runs
import ImapGateway.Mailbox.Announced

namespace ImapGateway
namespace Imap

open Async Mailbox

variable {cfg : Config} {txt : TextConfig}

/-! ## At the start -/

theorem Boot.apart (b : Boot) : Mailbox.Apart b.service where
  ok := b.ok
  one _ _ _ _ h := by cases h
  labelled _ _ h := by cases h
  pinned _ _ h := by cases h

/-! ## Checking a history

The conditions speak of every coroutine.  In a run only the coroutines that did
something can have a listing under way, so they can be checked. -/

/-- Only the coroutines `ts` have listings under way. -/
def Covers (ts : List Tid) (hs : List Happening) : Prop :=
  ∀ h ∈ hs, ∀ t l, h.before.listings t = some l → t ∈ ts

theorem RunsTo.covers {C : World → Move → Prop} {b : Boot} {w : World}
    (h : RunsTo cfg txt C b w) :
    Covers ((happenings w.trace).map (·.tid)) (happenings w.trace) := by
  intro x hx t l hl
  obtain ⟨older, hsuf, hold⟩ := h.history.before_of_mem hx
  have hmem := hold.listing_tid b.ok (fun _ => rfl) hl
  exact (hsuf.map _).subset hmem

section Checks

variable (ts : List Tid) (h : Happening)

def aloneAmong : Bool :=
  match h.action with
  | .startListing inboxId mdef =>
    ts.all fun t => (h.before.listings t).all fun l => decide (l.key ≠ (inboxId, mdef.name))
  | _ => true

/-- If `k` has a UID, it is below `n`. -/
def uidBelow (store : Store.Db) (key : Key) (k : String) (n : Nat) : Bool :=
  (store.liveUid key.1 key.2 k).all fun u => decide (u < n)

def keepsPinsAmong : Bool :=
  (match h.action with
  | .unpin key k => ts.all fun t => (h.before.listings t).all fun l =>
      !decide (l.key = key) || uidBelow h.before.store key k l.allocated
  | _ => true) &&
  h.publishing.all fun l => (h.before.pinned l.key).all fun p =>
    decide (h.before.time ≤ p.expires) || decide (p.remoteKey ∈ l.entries.map (·.remoteKey)) ||
      uidBelow h.before.store l.key p.remoteKey l.allocated

def findsAmong (key : Key) (k : String) : Bool :=
  ts.any fun t => (h.before.listings t).any fun l =>
    decide (l.key = key) && decide (k ∈ l.entries.map (·.remoteKey))

variable {ts h} {hs : List Happening} {key : Key} {k : String}

theorem alone_of_check (hc : Covers ts hs) (hx : h ∈ hs) (hok : aloneAmong ts h = true) :
    h.Alone := by
  intro inboxId mdef hact t l hl
  rw [aloneAmong, hact] at hok
  have ht := List.all_eq_true.mp hok t (hc h hx t l hl)
  rw [hl] at ht
  exact of_decide_eq_true ht

theorem lt_of_uidBelow {store : Store.Db} {n u : Nat} (h : uidBelow store key k n = true)
    (hu : store.liveUid key.1 key.2 k = some u) : u < n := by
  rw [uidBelow, hu] at h
  exact of_decide_eq_true h

theorem keepsPins_of_check (hc : Covers ts hs) (hx : h ∈ hs) (hok : keepsPinsAmong ts h = true) :
    h.KeepsPins := by
  rw [keepsPinsAmong, Bool.and_eq_true] at hok
  refine ⟨fun key k hact t l u hl hk hu => ?_, fun l hpub p hp hexp hk u hu => ?_⟩
  · have ht := hok.1
    rw [hact] at ht
    have ht := List.all_eq_true.mp ht t (hc h hx t l hl)
    rw [hl] at ht
    simp only [Option.all_some, hk, decide_true, Bool.not_true, Bool.false_or] at ht
    exact lt_of_uidBelow ht hu
  · have hl := hok.2
    rw [hpub] at hl
    have hl := List.all_eq_true.mp hl p hp
    simp only [hk, decide_false, Bool.or_false, Bool.or_eq_true, decide_eq_true_eq] at hl
    rcases hl with hle | hl
    · omega
    · exact lt_of_uidBelow hl hu

theorem findsAmong_of_finds (hc : Covers ts hs) (hx : h ∈ hs) (hf : h.Finds key k) :
    findsAmong ts h key k = true := by
  obtain ⟨t, l, hl, hk, hmem⟩ := hf
  refine List.any_eq_true.mpr ⟨t, hc h hx t l hl, ?_⟩
  rw [hl]
  simp only [Option.any_some, hk, decide_true, Bool.true_and]
  exact decide_eq_true hmem

/-- If an older listing has found the key, a publication of a later one shows it. -/
def persistsAmong (ts : List Tid) (key : Key) (k : String) (y z : Happening) : Bool :=
  !findsAmong ts z key k || y.publishing.all fun l =>
    decide (l.key ≠ key) || decide (l.no ≤ z.before.aux.started) ||
      decide (k ∈ l.entries.map (·.remoteKey))

theorem persists_of_check (hc : Covers ts hs)
    (hok : hs.Pairwise fun y z => persistsAmong ts key k y z = true) : Persists hs key k := by
  refine hok.imp_of_mem fun {y z} _ hz hyz hf l hpub hl hlt => ?_
  rw [persistsAmong, findsAmong_of_finds hc hz hf, hpub] at hyz
  simp only [Bool.not_true, Bool.false_or, Option.all_some, Bool.or_eq_true, decide_eq_true_eq]
    at hyz
  rcases hyz with (hne | hle) | hk
  · exact absurd hl hne
  · omega
  · exact hk

end Checks

/-! ## Listings in order -/

/-- As long as no listing of a mailbox starts while another one of it is under
way, and no pin is dropped that a listing under way still needs, listings take
effect in the order they started in, and a message that stays upstream keeps its
UID. -/
theorem listings_in_order (b : Boot) {w : World} (h : Runs cfg txt b w)
    (hc : ∀ x ∈ happenings w.trace, x.Alone ∧ x.KeepsPins) :
    InOrder (happenings w.trace) ∧ TombstonedLate cfg (happenings w.trace) ∧
      KeptWhileShown cfg (happenings w.trace) := by
  have hlate := tombstonedLate_of_alone h.history b.apart hc
  have horder := inOrder_of_alone h.history b.apart.toSingle (fun _ => rfl) fun x hx => (hc x hx).1
  exact ⟨horder.1, hlate, hlate.keptWhileShown⟩

def orderlyMoves : List Move :=
  [syncBy 0 "INBOX", listBy 0 0 inbox,
    answerTo (.task 0) [demoMessage "m1" ["received"], demoMessage "m2" ["received"]],
    reapOf 0, answerTo (.conn 0) [], syncBy 1 "INBOX", listBy 1 1 inbox,
    answerTo (.task 1) [demoMessage "m1" ["received"]]]

theorem listings_in_order_orderly : ∃ w, Runs demoConfig demoText demoBoot w ∧
    (happenings w.trace ≠ [] ∧ ∀ x ∈ happenings w.trace, x.Alone ∧ x.KeepsPins) ∧
    InOrder (happenings w.trace) ∧ TombstonedLate demoConfig (happenings w.trace) ∧
      KeptWhileShown demoConfig (happenings w.trace) := by
  have hrun : (demoBoot.world.run (gateway demoConfig demoText) orderlyMoves).any (fun w =>
      let hs := happenings w.trace
      decide (2 ≤ (publications hs).length) && hs.all fun x =>
        aloneAmong (hs.map (·.tid)) x && keepsPinsAmong (hs.map (·.tid)) x) = true := by
    decide +kernel
  obtain ⟨w, hw, hok⟩ := exists_run hrun
  simp only [Bool.and_eq_true, decide_eq_true_eq] at hok
  have hcond : ∀ x ∈ happenings w.trace, x.Alone ∧ x.KeepsPins := by
    intro x hx
    have hx' := List.all_eq_true.mp hok.2 x hx
    rw [Bool.and_eq_true] at hx'
    exact ⟨alone_of_check hw.covers hx hx'.1, keepsPins_of_check hw.covers hx hx'.2⟩
  refine ⟨w, hw, ⟨fun hnil => ?_, hcond⟩, listings_in_order demoBoot hw hcond⟩
  rw [hnil] at hok
  exact absurd hok.1 (by decide)

/-- Connection 1 joins the listing of connection 0, which fails with the
credentials of connection 0, and lists by itself.  Connection 0 starts another
listing beside it, which shows `m2` and ends first. -/
def overlapMoves : List Move :=
  [syncBy 0 "INBOX", listBy 0 0 inbox, syncBy 1 "INBOX", unauthorized (.task 0), reapOf 0,
    answerTo (.conn 1) [], answerTo (.conn 0) [], syncBy 0 "INBOX", listBy 1 0 inbox,
    answerTo (.task 1) [demoMessage "m1" ["received"], demoMessage "m2" ["received"]],
    answerTo (.conn 1) [demoMessage "m1" ["received"]]]

/-- The UID 2 of `m2` is tombstoned by a listing that started before it. -/
def losesEarly (x : Happening) : Bool :=
  decide (x.before.store.liveUid "a@x" "INBOX" "m2" = some 2) &&
    decide ((x.after demoConfig).store.liveUid "a@x" "INBOX" "m2" ≠ some 2) &&
    x.publishing.all fun l => decide (l.allocated ≤ 2)

theorem listings_out_of_order : ∃ w, Runs demoConfig demoText demoBoot w ∧
    ¬InOrder (happenings w.trace) ∧ ¬TombstonedLate demoConfig (happenings w.trace) := by
  have hrun : (demoBoot.world.run (gateway demoConfig demoText) overlapMoves).any (fun w =>
      !decide ((publications (happenings w.trace)).Pairwise fun l l' =>
        l.key = l'.key → l'.no < l.no) && (happenings w.trace).any losesEarly) = true := by
    decide +kernel
  obtain ⟨w, hw, hok⟩ := exists_run hrun
  simp only [Bool.and_eq_true, Bool.not_eq_true', decide_eq_false_iff_not] at hok
  refine ⟨w, hw, hok.1, fun hlate => ?_⟩
  obtain ⟨x, hx, hlost⟩ := List.any_eq_true.mp hok.2
  simp only [losesEarly, Bool.and_eq_true, decide_eq_true_eq] at hlost
  obtain ⟨l, hpub, _, hlt, _⟩ := hlate x hx ("a@x", "INBOX") "m2" 2 hlost.1
  have hle := hlost.2
  rw [hpub] at hle
  have hle := of_decide_eq_true hle
  omega

/-! ## UIDs handed out before a listing shows them -/

/-- The list around two of its elements. -/
theorem eq_around {α : Type} {xs : List α} {i j : Nat} (hij : i < j) (hj : j < xs.length) :
    xs = xs.take i ++ xs[i] :: ((xs.drop (i + 1)).take (j - i - 1) ++ xs[j] :: xs.drop (j + 1)) := by
  have h₁ : xs = xs.take i ++ xs[i] :: xs.drop (i + 1) := by
    rw [← List.drop_eq_getElem_cons (by omega), List.take_append_drop]
  have h₂ : xs.drop (i + 1) =
      (xs.drop (i + 1)).take (j - i - 1) ++ xs[j] :: xs.drop (j + 1) := by
    conv_lhs => rw [← List.take_append_drop (j - i - 1) (xs.drop (i + 1))]
    rw [List.drop_drop, show i + 1 + (j - i - 1) = j by omega, List.drop_eq_getElem_cons hj]
  rw [← h₂]
  exact h₁

/-- As long as no listing of a mailbox starts while another one of it is under way,
the UIDs handed out by APPEND and COPY are honoured. -/
theorem announced_uids_honoured (b : Boot) {w : World} (h : Runs cfg txt b w)
    (hc : ∀ x ∈ happenings w.trace, x.Alone) : Honours cfg (happenings w.trace) :=
  honours_of_alone h.history b.apart.toSingle hc

def copiedItem : Item where
  uid := 1
  remoteKey := "m1"
  remoteId := "m1"
  flags := ∅
  internaldate := .epoch
  sizeHint := none
  labels := ∅

def copyBy (n : Nat) : Move :=
  .launch (.conn n) (.call (.copyToTrash ⟨n, 0, "k"⟩ "a@x" inbox [copiedItem]))

/-- A message is copied into Trash and then listed there. -/
def copyMoves : List Move :=
  [syncBy 0 "Trash", listBy 0 0 trash, answerTo (.task 0) [], reapOf 0, answerTo (.conn 0) [],
    copyBy 0, patchedFor (.conn 0) ["trash"], syncBy 0 "Trash", listBy 1 0 trash,
    answerTo (.task 1) [demoMessage "m1" ["trash"]]]

theorem announced_uids_honoured_copied : ∃ w, Runs demoConfig demoText demoBoot w ∧
    (∀ x ∈ happenings w.trace, x.Alone) ∧
    (∃ x ∈ happenings w.trace, x.announced demoConfig = some (("a@x", "Trash"), "m1")) ∧
    Honours demoConfig (happenings w.trace) := by
  have hrun : (demoBoot.world.run (gateway demoConfig demoText) copyMoves).any (fun w =>
      let hs := happenings w.trace
      (hs.all fun x => aloneAmong (hs.map (·.tid)) x) &&
        hs.any fun x => decide (x.announced demoConfig = some (("a@x", "Trash"), "m1"))) = true := by
    decide +kernel
  obtain ⟨w, hw, hok⟩ := exists_run hrun
  rw [Bool.and_eq_true] at hok
  have hcond : ∀ x ∈ happenings w.trace, x.Alone := fun x hx =>
    alone_of_check hw.covers hx (List.all_eq_true.mp hok.1 x hx)
  obtain ⟨x, hx, ha⟩ := List.any_eq_true.mp hok.2
  exact ⟨w, hw, hcond, ⟨x, hx, of_decide_eq_true ha⟩, announced_uids_honoured demoBoot hw hcond⟩

/-- Connection 1 lists Trash by itself, after it joined a listing that failed with
the credentials of connection 0.  Meanwhile `m1` is copied into Trash and a
listing that starts after that shows it and ends, which takes the pin off. -/
def overtakenMoves : List Move :=
  [syncBy 0 "Trash", listBy 0 0 trash, answerTo (.task 0) [], reapOf 0, answerTo (.conn 0) [],
    syncBy 0 "Trash", listBy 1 0 trash, syncBy 1 "Trash", unauthorized (.task 1), reapOf 1,
    answerTo (.conn 1) [], answerTo (.conn 0) [], copyBy 0, patchedFor (.conn 0) ["trash"],
    syncBy 0 "Trash", listBy 2 0 trash, answerTo (.task 2) [demoMessage "m1" ["trash"]],
    answerTo (.conn 1) []]

/-- The promise made at the `j`th happening is broken at the `i`th. -/
def breaksPromise (hs : List Happening) (i j : Nat) : Bool :=
  match hs[i]?, hs[j]? with
  | some y, some x =>
    let key : Key := ("a@x", "Trash")
    decide (x.announced demoConfig = some (key, "m1")) &&
      decide ((x.after demoConfig).store.liveUid key.1 key.2 "m1" = some 1) &&
      decide (∀ z ∈ hs, z.action ≠ .unpin key "m1") &&
      decide (hs.Pairwise fun y z => persistsAmong (hs.map (·.tid)) key "m1" y z = true) &&
      decide (y.before.time ≤ x.before.time + pinTtl) &&
      y.publishing.any (fun l => decide (l.key = key)) &&
      decide ((y.after demoConfig).store.liveUid key.1 key.2 "m1" ≠ some 1)
  | _, _ => false

theorem not_honours_of_breaksPromise {hs : List Happening} {i j : Nat} (hij : i < j)
    (hc : Covers (hs.map (·.tid)) hs) (h : breaksPromise hs i j = true) :
    ¬Honours demoConfig hs := by
  rw [breaksPromise] at h
  split at h
  · rename_i y x hy hx
    obtain ⟨hi, rfl⟩ := List.getElem?_eq_some_iff.mp hy
    obtain ⟨hj, rfl⟩ := List.getElem?_eq_some_iff.mp hx
    simp only [Bool.and_eq_true, decide_eq_true_eq] at h
    obtain ⟨⟨⟨⟨⟨⟨ha, hu⟩, hunpin⟩, hpersist⟩, htime⟩, hpub⟩, hgone⟩ := h
    obtain ⟨l, hl, hk⟩ := (Option.any_eq_true _ _).mp hpub
    intro hh
    have heq := eq_around hij hj
    have hsub : ∀ z ∈ (hs.drop (i + 1)).take (j - i - 1), z ∈ hs := fun z hz =>
      List.mem_of_mem_drop (List.mem_of_mem_take hz)
    have hpersists := persists_of_check hc hpersist
    rw [heq] at hpersists
    exact hgone (hh _ _ _ _ _ _ _ _ l heq ha hu (fun z hz => hunpin z (hsub z hz))
      (List.pairwise_append.mp hpersists).2.1 (.inl htime) hl (of_decide_eq_true hk)).1
  · cases h

theorem announced_uid_lost : ∃ w, Runs demoConfig demoText demoBoot w ∧
    ¬Honours demoConfig (happenings w.trace) := by
  have hrun : (demoBoot.world.run (gateway demoConfig demoText) overtakenMoves).any (fun w =>
      breaksPromise (happenings w.trace) 1 12) = true := by
    decide +kernel
  obtain ⟨w, hw, hok⟩ := exists_run hrun
  exact ⟨w, hw, not_honours_of_breaksPromise (by decide) hw.covers hok⟩

end Imap
end ImapGateway
