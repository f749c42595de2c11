/-
`\Deleted` marks in a run.

STORE writes its marks from a view it took before it suspended.  A listing of
another session may tombstone the UID meanwhile, and then the mark is on a UID
that no row of `uid_map` is live for.
-/
import ImapGateway.Imap.Runs
import ImapGateway.Mailbox.Marks

namespace ImapGateway
namespace Imap

open Async Mailbox

variable {cfg : Config} {txt : TextConfig}

/-- Marks stay on live UIDs throughout a run if and only if STORE never marks a UID
that has been tombstoned.  In any run a mark stays until its UID is tombstoned or a
client clears it. -/
theorem deletion_marks (b : Boot) {w : World} (h : Runs cfg txt b w)
    (hlive : b.store.MarksLive) :
    ((∀ x ∈ happenings w.trace, (x.after cfg).store.MarksLive) ↔
      ∀ x ∈ happenings w.trace, x.SetsOnLive) ∧
    ∀ x ∈ happenings w.trace, x.KeepsMarks cfg := by
  constructor
  · exact h.history.marksLive_iff b.ok hlive
  · exact h.history.keepsMarks b.ok

def storeDeleted (n : Nat) : Move :=
  commandBy n (.store ⟨[(1, 1)]⟩ ⟨.add, true, [.seen, .deleted], false⟩)

/-- Connection 0 opens INBOX, which holds `m1` under UID 1. -/
def openedMoves : List Move :=
  loginMoves 0 ++ openMoves 0 0 inbox false
    [answerTo (.task 0) [demoMessage "m1" ["received", "unread"]]]

theorem deletion_marks_stored : ∃ w, Runs demoConfig demoText demoBoot w ∧
    w.shared.store.Marked "a@x" "INBOX" 1 ∧
    ((∀ x ∈ happenings w.trace, (x.after demoConfig).store.MarksLive) ↔
      ∀ x ∈ happenings w.trace, x.SetsOnLive) ∧
    ∀ x ∈ happenings w.trace, x.KeepsMarks demoConfig := by
  have hrun : (demoBoot.world.run (gateway demoConfig demoText)
      (openedMoves ++ [storeDeleted 0, patchedFor (.conn 0) ["received"]])).any (fun w =>
        decide (1 ∈ w.shared.store.deletedUids "a@x" "INBOX")) = true := by
    decide +kernel
  obtain ⟨w, hw, hmark⟩ := exists_run hrun
  rw [decide_eq_true_eq] at hmark
  exact ⟨w, hw, hmark, deletion_marks demoBoot hw Store.Db.marksLive_empty⟩

/-- While connection 0 waits for its PATCH, connection 1 opens INBOX, where `m1` is
no longer listed. -/
def markedLateMoves : List Move :=
  openedMoves ++ [storeDeleted 0] ++ loginMoves 1 ++
    openMoves 1 1 inbox false [answerTo (.task 1) []] ++ [patchedFor (.conn 0) ["received"]]

theorem deletion_mark_on_tombstone : ∃ w, Runs demoConfig demoText demoBoot w ∧
    ∃ x ∈ happenings w.trace, (x.after demoConfig).store.Marked "a@x" "INBOX" 1 ∧
      ¬(x.after demoConfig).store.IsLive "a@x" "INBOX" 1 := by
  have hrun : (demoBoot.world.run (gateway demoConfig demoText) markedLateMoves).any (fun w =>
      (happenings w.trace).any fun x =>
        decide (1 ∈ (x.after demoConfig).store.deletedUids "a@x" "INBOX") &&
          decide ((x.after demoConfig).store.liveMap "a@x" "INBOX" = [])) = true := by
    decide +kernel
  obtain ⟨w, hw, hok⟩ := exists_run hrun
  obtain ⟨x, hx, hmark⟩ := List.any_eq_true.mp hok
  rw [Bool.and_eq_true, decide_eq_true_eq, decide_eq_true_eq] at hmark
  obtain ⟨hmark, hnone⟩ := hmark
  refine ⟨w, hw, x, hx, hmark, fun hlive => ?_⟩
  obtain ⟨k, hk⟩ := hlive
  obtain ⟨older, _, hbefore⟩ := hw.history.before_of_mem hx
  have hok : (x.after demoConfig).store.Ok :=
    (History.cons x hbefore).storeOk demoBoot.ok
  rw [hok.liveUid_eq_some, hnone] at hk
  exact absurd hk List.not_mem_nil

end Imap
end ImapGateway
