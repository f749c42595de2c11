/-
Sequence numbers in a run.

The list of a session is the one its client has put together from the responses, except
after a CLOSE that removes some messages and fails to remove others.  It takes the vanished
ones out of the list without a word, and the mailbox stays selected.
-/
import ImapGateway.Imap.Pairs

namespace ImapGateway
namespace Imap

open Async Mailbox

variable {cfg : Config} {txt : TextConfig} {R : Regime} {w : World}

/-- Position `i` of the client is the message the session has there, and `seq_of` is the
inverse of the list. -/
structure Agrees (l : Session) (sel : Selected) : Prop where
  view : clientView l.log = .viewing sel.uids
  seqs : ∀ uid seq, sel.seqOf uid = some seq ↔ 1 ≤ seq ∧ sel.uids[seq - 1]? = some uid

/-- The client agrees after every tagged response that leaves a mailbox selected. -/
def SequenceNumbersAgree (tr : Trace) : Prop :=
  ∀ t r s sel, ⟨t, .inr (.send r), s⟩ ∈ tr → r.isTagged = true → s.2.selected = some sel →
    Agrees s.2 sel

/-- A CLOSE that failed to remove something finds a message of its view gone. -/
def Slips (e : GatewayEvent) : Prop :=
  ∃ errors sel latest, e.action = .inr (.dropVanished errors) ∧ errors ≠ 0 ∧
    e.before.2.selected = some sel ∧ e.before.2.latest e.before.1 sel = some latest ∧
      ∃ uid ∈ sel.uids, latest.byUid uid = none

/-- Notes other than those of CLOSE do not slip. -/
theorem Slipped.of_append {notes log : List Note} (h : Slipped (notes ++ log))
    (hnotes : ∀ errors us, .dropped errors us ∉ notes) : Slipped log := by
  obtain ⟨errors, u, us, hmem⟩ := h
  rcases List.mem_append.mp hmem with hmem | hmem
  · exact absurd hmem (hnotes _ _)
  · exact ⟨errors, u, us, hmem⟩

/-- Only an action that slips makes the log of its session slip. -/
theorem EventOk.slips {e : GatewayEvent} (h : EventOk cfg R e)
    (hslipped : Slipped (exec cfg e.tid e.action e.before).2.log) :
    Slipped e.before.2.log ∨ Slips e := by
  obtain ⟨t, p, s⟩ := e
  cases p with
  | inl p => exact .inl hslipped
  | inr p =>
    have one : ∀ n, (p.exec s.1 s.2).log = n :: s.2.log → (∀ errors us, .dropped errors us ≠ n) →
        Slipped s.2.log := by
      intro n hlog hn
      have hslipped' : Slipped ([n] ++ s.2.log) := by
        rw [List.singleton_append, ← hlog]
        exact hslipped
      apply hslipped'.of_append
      intro errors us hmem
      exact hn errors us (List.mem_singleton.mp hmem)
    cases p with
    | send r => exact .inl (one (.sent r s.2.uids) rfl (by simp))
    | deselect => exact .inl (one .deselected rfl (by simp))
    | applySnapshot snap readOnly => exact .inl (one _ rfl (by simp))
    | noteStored uids mode permanent flags => exact .inl (one _ rfl (by simp))
    | recordFlags uid flags =>
      left
      cases hsel : s.2.selected with
      | none =>
        have hlog : ((Act.recordFlags uid flags).exec s.1 s.2).log = s.2.log := by
          simp only [Act.exec, Session.recordFlags, hsel]
        exact hlog ▸ hslipped
      | some sel =>
        apply one (.recorded uid flags)
        · simp only [Act.exec, Session.recordFlags, hsel]
          rfl
        · simp
    | flushPending =>
      left
      have hok : s.2.Ok s.1 := h.sessionOwed .flushPending rfl
      obtain ⟨_, uids, hedits, _⟩ := Session.flushPending_ok hok h.inv.latest
      obtain ⟨notes, hlog, hnotes⟩ := hedits.log
      have hslipped' : Slipped (notes ++ s.2.log) := by
        rw [← hlog]
        exact hslipped
      apply hslipped'.of_append
      intro errors us hmem
      exact hnotes _ hmem
    | dropVanished errors =>
      cases hsel : s.2.selected with
      | none =>
        have hlog : ((Act.dropVanished errors).exec s.1 s.2).log = s.2.log := by
          simp only [Act.exec, Session.dropVanished, hsel]
        exact .inl (hlog ▸ hslipped)
      | some sel =>
        cases hlatest : s.2.latest s.1 sel with
        | none =>
          have hlog : ((Act.dropVanished errors).exec s.1 s.2).log = s.2.log := by
            simp only [Act.exec, Session.dropVanished, hsel, hlatest]
          exact .inl (hlog ▸ hslipped)
        | some latest =>
          have hlog : ((Act.dropVanished errors).exec s.1 s.2).log =
              .dropped errors (sel.uids.filter fun uid => (latest.byUid uid).isNone) ::
                s.2.log := by
            simp only [Act.exec, Session.dropVanished, hsel, hlatest]
            rfl
          have hslipped' : Slipped ((Act.dropVanished errors).exec s.1 s.2).log := hslipped
          rw [hlog] at hslipped'
          obtain ⟨n, u, us, hmem⟩ := hslipped'
          rcases List.mem_cons.mp hmem with heq | hmem
          · right
            injection heq with herrors huids
            have hu : u ∈ sel.uids.filter fun uid => (latest.byUid uid).isNone := by
              rw [← huids]
              exact List.mem_cons_self ..
            obtain ⟨hin, hgone⟩ := List.mem_filter.mp hu
            refine ⟨errors, sel, latest, rfl, by omega, hsel, hlatest, u, hin, ?_⟩
            exact Option.isNone_iff_eq_none.mp hgone
          · exact .inl ⟨n, u, us, hmem⟩
    | _ => exact .inl hslipped

/-- Where no CLOSE slips, no log does. -/
theorem not_slipped_of_threaded {s₀ s : Service} {l₀ l : Tid → Session} {tr : Trace}
    (h : Threaded (exec cfg) s₀ l₀ tr s l) (hok : ∀ e ∈ tr, EventOk cfg R e)
    (h₀ : ∀ t, ¬Slipped (l₀ t).log) (hslips : ∀ e ∈ tr, ¬Slips e) :
    (∀ t, ¬Slipped (l t).log) ∧ ∀ e ∈ tr, ¬Slipped e.before.2.log := by
  induction h with
  | nil => exact ⟨h₀, fun e he => absurd he List.not_mem_nil⟩
  | @cons tr l e _ hl ih =>
    obtain ⟨hnow, hbefore⟩ := ih (fun d hd => hok d (List.mem_cons_of_mem _ hd))
      fun d hd => hslips d (List.mem_cons_of_mem _ hd)
    have he : ¬Slipped e.before.2.log := hl ▸ hnow e.tid
    refine ⟨fun t => ?_, fun d hd => ?_⟩
    · by_cases ht : t = e.tid
      · rw [ht, Function.update_self]
        intro hslipped
        rcases (hok e (List.mem_cons_self ..)).slips hslipped with hold | hnew
        · exact he hold
        · exact hslips e (List.mem_cons_self ..) hnew
      · rw [Function.update_of_ne ht]
        exact hnow t
    · rcases List.mem_cons.mp hd with rfl | hd
      · exact he
      · exact hbefore d hd

/-- In a run in which no CLOSE slips, every client agrees with its session. -/
theorem sequence_numbers_agree (b : Boot) (h : ProperRun cfg txt b w)
    (hslips : ∀ e ∈ w.trace, ¬Slips e) : SequenceNumbersAgree w.trace := by
  intro t r s sel he hr hsel
  have hok : s.2.Ok s.1 := (show Tells t r s.1 s.2 from (h.sessionOwed he).2).settled hr
  have hnever : ¬Slipped s.2.log :=
    (not_slipped_of_threaded h.threaded h.eventOk (fun _ => by simp [Slipped, Session.new]) hslips).2
      _ he
  obtain ⟨_, _, _, _, _, hview⟩ := hok.view sel hsel
  have hnodup : sel.uids.Nodup := hview.ascending.imp Nat.ne_of_lt
  refine ⟨(hok.told sel hsel).resolve_right hnever, fun uid seq => ?_⟩
  rw [hview.seqs]
  exact seqTable_eq_some hnodup

/-- What the client has put together when a tagged response is sent, and the list of its
session. -/
def viewsAt (e : GatewayEvent) : Option (ClientView × List Nat) :=
  match e.action with
  | .inr (.send r) =>
    if r.isTagged then e.before.2.selected.map fun sel => (clientView e.before.2.log, sel.uids)
    else none
  | _ => none

theorem SequenceNumbersAgree.viewsAt {tr : Trace} (h : SequenceNumbersAgree tr) {e : GatewayEvent}
    (he : e ∈ tr) {c : ClientView} {uids : List Nat} (hviews : viewsAt e = some (c, uids)) :
    c = .viewing uids := by
  obtain ⟨t, p, s⟩ := e
  cases p with
  | inl p => cases hviews
  | inr p =>
    cases p with
    | send r =>
      simp only [Imap.viewsAt] at hviews
      split at hviews
      · rename_i hr
        obtain ⟨sel, hsel, heq⟩ := Option.map_eq_some_iff.mp hviews
        injection heq with hc huids
        rw [← hc, ← huids]
        exact (h t r s sel he hr hsel).view
      · cases hviews
    | _ => cases hviews

/-- No CLOSE gets to its silent end. -/
def neverSilent (e : GatewayEvent) : Bool :=
  match e.action with
  | .inr (.dropVanished _) => false
  | _ => true

theorem not_slips_of_neverSilent {e : GatewayEvent} (h : neverSilent e = true) : ¬Slips e := by
  rintro ⟨errors, sel, latest, he, _⟩
  simp [neverSilent, he] at h

/-- Messages are marked, and a command removes what is marked.  Its first removal is made. -/
def removing (set : SequenceSet) (verb : Verb) : List Move :=
  twoInInbox ++ [commandBy 0 (.store set ⟨.add, true, [.deleted], false⟩),
    answerTo (.conn 0) [], commandBy 0 verb, patchedFor (.conn 0) ["received", "trash"]]

/-- INBOX is listed with `m2` alone. -/
def secondLeft : List Move :=
  [listBy 1 0 inbox, answerTo (.task 1) [demoMessage "m2" ["received"]], reapOf 1,
    answerTo (.conn 0) []]

theorem sequence_numbers_agree_expunged : ∃ w, ProperRun demoConfig demoText demoBoot w ∧
    (∃ e ∈ w.trace, viewsAt e = some (.viewing [2], [2])) ∧ SequenceNumbersAgree w.trace := by
  have hrun : (demoBoot.world.run (gateway demoConfig demoText)
      (removing ⟨[(1, 1)]⟩ .expunge ++ secondLeft)).any (fun w =>
        (w.trace.any fun e => decide (viewsAt e = some (.viewing [2], [2]))) &&
        w.trace.all neverSilent) = true := by
    decide +kernel
  obtain ⟨w, hw, hok⟩ := exists_properRun (by decide) hrun
  rw [Bool.and_eq_true] at hok
  obtain ⟨e, he, hviews⟩ := List.any_eq_true.mp hok.1
  exact ⟨w, hw, ⟨e, he, of_decide_eq_true hviews⟩, sequence_numbers_agree demoBoot hw fun e he =>
    not_slips_of_neverSilent (List.all_eq_true.mp hok.2 e he)⟩

/-- A CLOSE removes `m1`, and upstream refuses to let `m2` go. -/
theorem close_slipped : ∃ w, ProperRun demoConfig demoText demoBoot w ∧
    ¬SequenceNumbersAgree w.trace := by
  have hrun : (demoBoot.world.run (gateway demoConfig demoText)
      (removing ⟨[(1, 2)]⟩ .close ++ [.resume (.conn 0) fun _ _ => some (.error .unavailable)] ++
        secondLeft)).any (fun w =>
          w.trace.any fun e => decide (viewsAt e = some (.viewing [1, 2], [2]))) = true := by
    decide +kernel
  obtain ⟨w, hw, hok⟩ := exists_properRun (by decide) hrun
  refine ⟨w, hw, fun hagree => ?_⟩
  obtain ⟨e, he, hviews⟩ := List.any_eq_true.mp hok
  have heq := hagree.viewsAt he (of_decide_eq_true hviews)
  exact absurd heq (by decide)

end Imap
end ImapGateway
