/-
Label writes and what is shown after them.

Upstream answers each PATCH with the labels it left.  The gateway shows what the answer it
processed last said, until a listing agrees with it.  As long as the answer to the PATCH
applied last is not followed by an older one, and no other client of the API writes over
labels that are held, everybody is shown the labels upstream has.  Whoever writes labels is
shown them as long as they are held.
-/
import ImapGateway.Imap.Barrier
import ImapGateway.Mailbox.OwnWrites

namespace ImapGateway
namespace Imap

open Async Mailbox

variable {cfg : Config} {txt : TextConfig} {w : World}

/-- A run in which the answer to a PATCH carries the labels the PATCH left. -/
abbrev HonestRun (cfg : Config) (txt : TextConfig) (b : Boot) (w : World) : Prop :=
  LawfulRun cfg txt ⟨False, True⟩ False b w

theorem Boot.unpatched (b : Boot) : Unpatched b.service := ⟨fun _ => rfl, fun _ => rfl, fun _ => rfl⟩

/-- No answer to an applied PATCH is lost, overtaken, or taken for an answer without labels, and
no other client changes labels of a message while the gateway holds them. -/
structure InTurn (hs : List Happening) : Prop where
  kept : ∀ x ∈ hs, ¬x.Drops
  inTurn : ∀ x ∈ hs, ¬x.Overtaken
  told : ∀ x ∈ hs, ¬x.Guesses
  alone : ∀ x ∈ hs, ¬x.Intrudes

/-- Where answers are processed in turn, the labels shown converge to those upstream has. -/
theorem labels_converge (b : Boot) (h : HonestRun cfg txt b w)
    (hturn : InTurn (happenings w.trace)) : LabelsConverge cfg (happenings w.trace) :=
  h.conducted.labelsConverge b.unpatched trivial hturn.kept hturn.inTurn hturn.told
    hturn.alone

/-! ## Two sessions on one message -/

/-- The answer to a PATCH carries the labels it left. -/
def honest (t : Tid) (s : Service) : (q : Req) → q.Answer → Bool
  | .updateLabels _ _ _ _ _, .ok result =>
    (s.aux.patches t).any fun p => p.applied.any fun a => decide (labelSet result.labels = a.2)
  | _, _ => true

theorem honest_of_check {t : Tid} {s : Service} {q : Req} {a : q.Answer}
    (h : honest t s q a = true) : Honest t q a s := by
  cases q with
  | updateLabels =>
    cases a with
    | ok result =>
      obtain ⟨p, hp, happlied⟩ := (Option.any_eq_true _ _).mp h
      obtain ⟨⟨n, labels⟩, ha, hlabels⟩ := (Option.any_eq_true _ _).mp happlied
      exact ⟨p, n, labels, hp, ha, of_decide_eq_true hlabels⟩
    | error e => trivial
  | _ => trivial

/-- The same move, made only if its answer is honest. -/
def honestly : Move → Move
  | .resume t f => .resume t fun s q => (f s q).filter (honest t s q)
  | m => m

theorem lawful_of_honestly {m : Move} (h : harmless m = true) (w : World) :
    Lawful cfg ⟨False, True⟩ False w (honestly m) := by
  cases m with
  | launch t i =>
    cases i with
    | command cmd => exact False.elim
    | call c =>
      cases c with
      | sync api inboxId name force => trivial
      | _ => cases h
    | task job => trivial
  | resume t f =>
    intro q k a _ ha
    exact ⟨False.elim, fun _ => honest_of_check (Option.filter_eq_some_iff.mp ha).2⟩
  | ambient t p => trivial

/-- A property of the world an honest run ends in, found by running it. -/
theorem exists_honestRun {b : Boot} {ms : List Move} {p : World → Bool}
    (hms : ms.all harmless = true)
    (h : (b.world.run (gateway cfg txt) (ms.map honestly)).any p = true) :
    ∃ w, HonestRun cfg txt b w ∧ p w = true := by
  refine exists_runsTo (fun m hm w => ?_) h
  obtain ⟨m', hm', rfl⟩ := List.mem_map.mp hm
  exact lawful_of_honestly (List.all_eq_true.mp hms m' hm') w

/-- A check that an answer is in turn, with the message's last PATCH. -/
def inTurn (x : Happening) : Bool :=
  let applied := (x.before.aux.patches x.tid).bind fun p => p.applied.map fun a => (p.key, a.2)
  !(x.action.takesUp && applied.isSome) &&
    (!x.action.settles || applied.all fun a => decide (a.2 = (x.before.aux.remote a.1).2)) &&
    match x.action with
    | .setFlagCommit _ _ _ _ result => decide (result.labels.getD [] ≠ [])
    | .relabel inboxId messageId labels =>
      (x.before.labelOverrides (inboxId, messageId)).all fun hold =>
        decide (x.before.time ≤ hold.expires → hold.labels = labels.toFinset)
    | _ => true

theorem inTurn_of_check {hs : List Happening} (h : hs.all inTurn = true) : InTurn hs := by
  have hcheck : ∀ x ∈ hs, inTurn x = true := List.all_eq_true.mp h
  refine ⟨fun x hx hdrops => ?_, fun x hx hover => ?_, fun x hx hguess => ?_, fun x hx halone => ?_⟩
  · obtain ⟨hp, p, hpatch, ha⟩ := hdrops
    obtain ⟨a, ha⟩ := Option.ne_none_iff_exists'.mp ha
    have hok := hcheck x hx
    simp [inTurn, hp, hpatch, ha] at hok
  · obtain ⟨hp, p, n, labels, hpatch, ha, hne, _⟩ := hover
    have hok := hcheck x hx
    simp [inTurn, hp, hpatch, ha, hne] at hok
  · obtain ⟨key, item, add, remove, result, hp, hnone, _⟩ := hguess
    have hok := hcheck x hx
    simp [inTurn, hp, hnone] at hok
  · obtain ⟨inboxId, messageId, labels, hold, hp, hhold, hlasts, hne⟩ := halone
    have hok := hcheck x hx
    simp [inTurn, hp, hhold, hlasts, hne] at hok

/-- Upstream has `m1` as received and unread. -/
def unreadBoot : Boot := { demoBoot with remote := fun _ => {"received", "unread"} }

def applyFor (n : Nat) : Move := .ambient (.conn n) (.inl .applyPatch)

def flagBy (n : Nat) (flag : Flag) : Move :=
  commandBy n (.store ⟨[(1, 1)]⟩ ⟨.add, false, [flag], false⟩)

def unreadOpened (n k : Nat) : List Move :=
  loginMoves n ++ openMoves n k inbox false [answerTo (.task k) [demoMessage "m1" ["received", "unread"]]]

/-- Another client marks the message unread. -/
def markedUnread : Mailbox.Act := .relabel "a@x" "m1" ["received", "unread", "starred"]

/-- One session reads the message, another flags it, and it is listed.  When the gateway no
longer holds its labels another client marks it unread. -/
def readAndFlagged : List Move :=
  unreadOpened 0 0 ++ unreadOpened 1 1 ++ [flagBy 0 .seen, flagBy 1 .flagged, applyFor 0,
    patchedFor (.conn 0) ["received", "read"], applyFor 1,
    patchedFor (.conn 1) ["received", "read", "starred"], syncBy 2 "INBOX", listBy 2 2 inbox,
    answerTo (.task 2) [demoMessage "m1" ["received", "read", "starred"]], reapOf 2,
    answerTo (.conn 2) [], .ambient (.conn 2) (.inl markedUnread), syncBy 2 "INBOX",
    listBy 3 2 inbox, answerTo (.task 3) [demoMessage "m1" ["received", "unread", "starred"]]]

theorem labels_converge_flagged : ∃ w, HonestRun demoConfig demoText unreadBoot w ∧
    (∃ x ∈ happenings w.trace, (x.before.labelOverrides ("a@x", "m1")).map (·.labels) =
      some {"received", "read", "starred"}) ∧
    (∃ x ∈ happenings w.trace, x.action = markedUnread) ∧
    LabelsConverge demoConfig (happenings w.trace) := by
  have hrun : (unreadBoot.world.run (gateway demoConfig demoText)
      (readAndFlagged.map honestly)).any (fun w =>
        ((happenings w.trace).any fun x =>
          decide ((x.before.labelOverrides ("a@x", "m1")).map (·.labels) =
            some {"received", "read", "starred"})) &&
        ((happenings w.trace).any fun x => decide (x.action = markedUnread)) &&
        (happenings w.trace).all inTurn) = true := by
    decide +kernel
  have hms : readAndFlagged.all harmless = true := by decide
  obtain ⟨w, hw, hok⟩ := exists_honestRun hms hrun
  rw [Bool.and_eq_true, Bool.and_eq_true] at hok
  obtain ⟨x, hx, hheld⟩ := List.any_eq_true.mp hok.1.1
  obtain ⟨y, hy, hmarked⟩ := List.any_eq_true.mp hok.1.2
  exact ⟨w, hw, ⟨x, hx, of_decide_eq_true hheld⟩, ⟨y, hy, of_decide_eq_true hmarked⟩,
    labels_converge unreadBoot hw (inTurn_of_check hok.2)⟩

/-! ## A listing that lags the write -/

/-- In every run, a session is shown the flags it has set as long as the hold lasts. -/
theorem own_writes_shown (b : Boot) (h : ProperRun cfg txt b w) :
    OwnWritesShown cfg (happenings w.trace) :=
  h.conducted.ownWritesShown b.blank

/-- Whether a listing reports the message with these labels. -/
def listsAs (y : Happening) (m : String × String) (labels : Labels) : Bool :=
  match y.action, y.before.listings y.tid with
  | .collectMessage msg, some l =>
    decide ((l.inboxId, orEmpty msg.messageId) = m ∧ labelSet msg.labels = labels)
  | _, _ => false

theorem not_listsAs_of_check {y : Happening} {m : String × String} {labels : Labels}
    (h : listsAs y m labels = false) : ¬y.ListsAs m labels := by
  rintro ⟨msg, l, hp, hl, _, hm, hlabels⟩
  simp [listsAs, hp, hl, hm, hlabels] at h

/-- What is published at the place `i` of a mailbox in which a flag was set `j` before that,
with the UID it was set on, if the hold lasts and there is no older copy. -/
def publishedAfter (i j : Nat) (hs : List Happening) : Option (Nat × Flags × List (Nat × Flags)) :=
  match around i hs with
  | some (_, x, rest) =>
    match around j rest, x.publishing with
    | some (between, ⟨_, .setFlagCommit key item add remove result, s⟩, _), some l =>
      let labels := Service.flaggedLabels item add remove result
      let m := (key.1, item.remoteId)
      if (between.all fun y => decide (y.action.holdsFor ≠ some m) && !listsAs y m labels) &&
          decide (x.before.time ≤ s.time + overrideTtl) && decide (l.key = key) &&
          (s.listings x.tid).isNone && decide (x.before.pinned key = []) then
        ((x.after demoConfig).latest key).map fun snap =>
          (item.uid, messageFlags labels, snap.items.map fun i => (i.uid, i.flags))
      else none
    | _, _ => none
  | _ => none

theorem mem_publishedAfter {i j uid : Nat} {flags : Flags} {shown : List (Nat × Flags)}
    {hs : List Happening} (h : OwnWritesShown demoConfig hs)
    (hat : publishedAfter i j hs = some (uid, flags, shown)) :
    ∀ x ∈ shown, x.1 = uid → x.2 = flags := by
  unfold publishedAfter at hat
  split at hat
  · rename_i late x rest hx
    split at hat
    · rename_i between t key item add remove result s older l hw hpub
      dsimp only at hat
      split at hat
      · rename_i hok
        simp only [Bool.and_eq_true, decide_eq_true_eq, List.all_eq_true, Bool.not_eq_true',
          Option.isNone_iff_eq_none] at hok
        obtain ⟨⟨⟨⟨hbetween, hyoung⟩, hkey⟩, hnone⟩, hpins⟩ := hok
        obtain ⟨snap, hsnap, heq⟩ := Option.map_eq_some_iff.mp hat
        simp only [Prod.mk.injEq] at heq
        obtain ⟨rfl, rfl, rfl⟩ := heq
        have hsplit := eq_of_around hx
        rw [eq_of_around hw] at hsplit
        intro y hy huid
        obtain ⟨item', hitem', rfl⟩ := List.mem_map.mp hy
        apply h late x between _ older key item add remove result snap hsplit rfl
          ⟨l, hpub, hkey, hsnap⟩ _ _ item' hitem' huid
        · exact ⟨fun y hy => (hbetween y hy).1, hyoung,
            fun y hy => not_listsAs_of_check (hbetween y hy).2⟩
        · constructor
          · intro l l₀ _ hl₀
            rw [hnone] at hl₀
            cases hl₀
          · intro l _ _ q hq
            rw [hpins] at hq
            cases hq
      · cases hat
    · cases hat
  · cases hat

/-- The message is read, and the next listing still has it as unread. -/
def readThenListed : List Move :=
  unreadOpened 0 0 ++ [flagBy 0 .seen, patchedFor (.conn 0) ["received", "read"],
    syncBy 1 "INBOX", listBy 1 1 inbox,
    answerTo (.task 1) [demoMessage "m1" ["received", "unread"]]]

theorem own_writes_shown_lagging : ∃ w, ProperRun demoConfig demoText unreadBoot w ∧
    publishedAfter 1 5 (happenings w.trace) = some (1, {.seen}, [(1, {.seen})]) ∧
      ∀ x ∈ [(1, ({.seen} : Flags))], x.1 = 1 → x.2 = {.seen} := by
  have hrun : (unreadBoot.world.run (gateway demoConfig demoText) readThenListed).any (fun w =>
      decide (publishedAfter 1 5 (happenings w.trace) = some (1, {.seen}, [(1, {.seen})]))) =
        true := by
    decide +kernel
  obtain ⟨w, hw, hat⟩ := exists_properRun (by decide) hrun
  have hat := of_decide_eq_true hat
  exact ⟨w, hw, hat, mem_publishedAfter (own_writes_shown unreadBoot hw) hat⟩

end Imap
end ImapGateway
