/-
A mailbox opened with EXAMINE.

Every handler that writes asks first whether the mailbox is open read-only, except COPY.
It adds the trash label, as MOVE and EXPUNGE do, but it asks only when it is a MOVE.
-/
import ImapGateway.Imap.Sound

namespace ImapGateway
namespace Imap

open Async Mailbox

variable {cfg : Config} {txt : TextConfig} {R : Regime}

/-- A connection whose mailbox is open read-only waits for no PATCH and for no deletion of a
draft, and has changed no mark. -/
structure ReadOnlyKept (w : World) : Prop where
  requests : ∀ n q k, w.prog (.conn n) = .await q k → q.writes = true →
    (w.loc (.conn n)).view.Writable
  marks : ∀ e ∈ w.trace, ∀ p, e.action = .inl p → p.marks = true → e.before.2.view.Writable

/-- The loop itself marks nothing. -/
theorem marks_of_ambient {p : Mailbox.Act} (h : p.ambient = true) : p.marks = false := by
  cases p with
  | setDeleted _ _ _ => cases h
  | _ => rfl

/-- As long as no COPY of messages is started in a mailbox that is open read-only, nothing is
written for such a mailbox. -/
theorem examine_read_only (b : Boot) {w : World} (h : LawfulRun cfg txt R True b w) :
    ReadOnlyKept w where
  requests n q k hprog hwrites :=
    (sound cfg txt R True).asks_of_await b.holds h hprog hwrites trivial
  marks := by
    rintro ⟨t, _, s⟩ he p rfl hmarks
    rcases (sound cfg txt R True).guar_of_mem b.holds h _ he with hin | hambient | hguar
    · cases hin
    · rw [marks_of_ambient hambient] at hmarks
      cases hmarks
    · exact hguar.2 hmarks trivial

/-- A move that starts no COPY, and of the calls at most a `sync`. -/
def copyless : Move → Bool
  | .launch _ (.command ⟨_, _, .copy _ _ _⟩) => false
  | m => harmless m

theorem lawful_of_copyless {m : Move} (h : copyless m = true) (w : World) :
    Lawful cfg ⟨False, False⟩ True w m := by
  cases m with
  | launch t i =>
    cases i with
    | command cmd =>
      obtain ⟨tag, name, verb⟩ := cmd
      intro _
      cases verb with
      | copy plan set name => cases h
      | _ => trivial
    | call c =>
      cases c with
      | sync api inboxId name force => trivial
      | _ => cases h
    | task job => trivial
  | resume t f => exact fun _ _ _ _ _ => ⟨False.elim, False.elim⟩
  | ambient t p => trivial

/-- INBOX, which holds `m1`, is opened read-only. -/
def examined : List Move :=
  loginMoves 0 ++ openMoves 0 0 inbox true [answerTo (.task 0) [demoMessage "m1" ["received"]]]

/-- In it a STORE and an EXPUNGE. -/
def examinedCommands : List Move :=
  examined ++ [commandBy 0 (.store ⟨[(1, 1)]⟩ ⟨.add, true, [.seen, .deleted], false⟩),
    answerTo (.conn 0) [], commandBy 0 .expunge, answerTo (.conn 0) []]

theorem examine_read_only_stored : ∃ w,
    LawfulRun demoConfig demoText ⟨False, False⟩ True demoBoot w ∧
    ((w.loc (.conn 0)).selected.map (·.readOnly)) = some true ∧ ReadOnlyKept w := by
  have hrun : (demoBoot.world.run (gateway demoConfig demoText) examinedCommands).any (fun w =>
      decide ((w.loc (.conn 0)).selected.map (·.readOnly) = some true)) = true := by
    decide +kernel
  obtain ⟨w, hw, hopen⟩ := exists_runsTo (C := Lawful demoConfig ⟨False, False⟩ True)
    (fun m hm w => lawful_of_copyless (List.all_eq_true.mp (by decide) m hm) w) hrun
  exact ⟨w, hw, of_decide_eq_true hopen, examine_read_only demoBoot hw⟩

/-- In it a COPY of `m1` into Trash, which is listed for the first time. -/
def examinedCopy : List Move :=
  examined ++ [commandBy 0 (.copy ⟨false, false⟩ ⟨[(1, 1)]⟩ "Trash"), listBy 1 0 trash,
    answerTo (.task 1) [], reapOf 1, answerTo (.conn 0) []]

/-- A connection whose mailbox is open read-only waits for a request that writes. -/
def writesReadOnly (w : World) (n : Nat) : Bool :=
  (match w.prog (.conn n) with
  | .await q _ => q.writes
  | _ => false) && (w.loc (.conn n)).selected.any (·.readOnly)

theorem not_readOnlyKept {w : World} {n : Nat} (h : writesReadOnly w n = true) :
    ¬ReadOnlyKept w := by
  intro hkept
  rw [writesReadOnly, Bool.and_eq_true] at h
  obtain ⟨hwrites, hopen⟩ := h
  obtain ⟨sel, hsel, hreadOnly⟩ := (Option.any_eq_true _ _).mp hopen
  split at hwrites
  · rename_i q k hprog
    have hview : (w.loc (.conn n)).view.selected = some (sel.name, sel.readOnly, sel.uids) := by
      rw [Session.view, hsel]
      rfl
    have hfalse := hkept.requests n q k hprog hwrites _ hview
    rw [show sel.readOnly = true from hreadOnly] at hfalse
    cases hfalse
  · cases hwrites

theorem examined_copied : ∃ w, ProperRun demoConfig demoText demoBoot w ∧ ¬ReadOnlyKept w := by
  have hrun : (demoBoot.world.run (gateway demoConfig demoText) examinedCopy).any
      (fun w => writesReadOnly w 0) = true := by
    decide +kernel
  obtain ⟨w, hw, hwrites⟩ := exists_properRun (by decide) hrun
  exact ⟨w, hw, not_readOnlyKept hwrites⟩

end Imap
end ImapGateway
