/-
The barrier mutations leave in a run.

APPEND, COPY, MOVE and EXPUNGE bump their mailboxes at the end, after the last write.  A run
is gentle if no exception takes one of them away between a write and the bump, and then every
forced `sync` called after a mutation returns what was listed after its writes.
-/
import ImapGateway.Imap.Pairs
import ImapGateway.Mailbox.Barrier

namespace ImapGateway
namespace Imap

open Async Mailbox

variable {cfg : Config} {txt : TextConfig} {w : World}

/-- A run in which no answer cuts a mutation short. -/
abbrev GentleRun (cfg : Config) (txt : TextConfig) (b : Boot) (w : World) : Prop :=
  LawfulRun cfg txt ⟨True, False⟩ False b w

/-- In a gentle run mutations leave a barrier. -/
theorem mutation_barrier (b : Boot) (h : GentleRun cfg txt b w) :
    MutationBarrier (happenings w.trace) :=
  h.conducted.barrier trivial

/-! ## Runs with a barrier and without -/

/-- The answer is no exception, and creates no draft. -/
def calm : (q : Req) → q.Answer → Bool
  | .createDraft _ _ _ _, _ => false
  | _, .ok _ => true
  | _, .error _ => false

theorem gentle_of_calm {t : Tid} {q : Req} {a : q.Answer} {s : Service} (h : calm q a = true) :
    Gentle cfg t q a s := by
  cases a with
  | ok v =>
    cases q with
    | createDraft => cases h
    | _ => exact ⟨trivial, fun e he => by cases he⟩
  | error e => cases q <;> cases h

/-- The same move, made only if its answer is calm. -/
def calmly : Move → Move
  | .resume t f => .resume t fun s q => (f s q).filter (calm q)
  | m => m

theorem lawful_of_calmly {m : Move} (h : harmless m = true) (w : World) :
    Lawful cfg ⟨True, False⟩ False w (calmly m) := by
  cases m with
  | launch t i =>
    cases i with
    | command cmd => exact False.elim
    | call c =>
      cases c with
      | sync api inboxId name force => trivial
      | _ => cases h
    | task job => trivial
  | resume t f =>
    intro q k a _ ha
    exact ⟨fun _ => gentle_of_calm (Option.filter_eq_some_iff.mp ha).2, False.elim⟩
  | ambient t p => trivial

/-- A property of the world a gentle run ends in, found by running it. -/
theorem exists_gentleRun {b : Boot} {ms : List Move} {p : World → Bool}
    (hms : ms.all harmless = true)
    (h : (b.world.run (gateway cfg txt) (ms.map calmly)).any p = true) :
    ∃ w, GentleRun cfg txt b w ∧ p w = true := by
  refine exists_runsTo (fun m hm w => ?_) h
  obtain ⟨m', hm', rfl⟩ := List.mem_map.mp hm
  exact lawful_of_calmly (List.all_eq_true.mp hms m' hm') w

/-- The list around its place `n`. -/
def around {α : Type} (n : Nat) (xs : List α) : Option (List α × α × List α) :=
  match xs.drop n with
  | [] => none
  | x :: right => some (xs.take n, x, right)

theorem eq_of_around {α : Type} {n : Nat} {xs left right : List α} {x : α}
    (h : around n xs = some (left, x, right)) : xs = left ++ x :: right := by
  cases hdrop : xs.drop n with
  | nil => simp [around, hdrop] at h
  | cons y ys =>
    simp only [around, hdrop, Option.some.injEq, Prod.mk.injEq] at h
    obtain ⟨rfl, rfl, rfl⟩ := h
    rw [← hdrop, List.take_append_drop]

/-- Whether what `t` is in ends at the place `n`. -/
def endsAt (n : Nat) (t : Tid) (hs : List Happening) : Bool :=
  match around n hs with
  | some (_, ⟨u, .endMutation, _⟩, older) =>
    decide (u = t) && older.all fun y => !(decide (y.tid = t) && y.action.begins)
  | _ => false

theorem endsIn_of_endsAt {n : Nat} {t : Tid} {hs : List Happening} (h : endsAt n t hs = true) :
    EndsIn t hs := by
  unfold endsAt at h
  split at h
  · rename_i newer u s older heq
    simp only [Bool.and_eq_true, decide_eq_true_eq, List.all_eq_true, Bool.not_eq_true',
      Bool.and_eq_false_imp] at h
    exact ⟨newer, _, older, eq_of_around heq, h.1, rfl, h.2⟩
  · cases h

/-- A forced `sync` returns at the place `i` that was called `j` before it, after a mutation
that wrote `k` before that: the listings started by the write, and the one returned. -/
def barrierAt (i j k n : Nat) (hs : List Happening) : Option (Nat × Nat) :=
  match around i hs with
  | some (_, ⟨t, .returned key snap, _⟩, rest) =>
    match around j rest with
    | some (between, ⟨u, .called key', _⟩, rest) =>
      match around k rest with
      | some (after, ⟨v, .wrote, s⟩, _) =>
        if ((s.aux.mutations v).any fun m => m.keys.any fun k => decide (k = key)) &&
            endsAt n v after &&
            decide (key' = key) && decide (t = u) &&
            between.all (fun y => !(decide (y.tid = u) && y.action.calls)) then
          some (s.aux.started, snap.listing)
        else none
      | _ => none
    | _ => none
  | _ => none

theorem lt_of_barrierAt {i j k n a b : Nat} {hs : List Happening} (h : MutationBarrier hs)
    (hat : barrierAt i j k n hs = some (a, b)) : a < b := by
  unfold barrierAt at hat
  split at hat
  · rename_i late t key snap s rest hr
    split at hat
    · rename_i between u key' s' rest' hc
      split at hat
      · rename_i after v s'' older hx
        split at hat
        · rename_i hok
          simp only [Bool.and_eq_true, decide_eq_true_eq, List.all_eq_true, Bool.not_eq_true',
            Bool.and_eq_false_imp] at hok
          obtain ⟨⟨⟨⟨hwrites, hends⟩, hkey⟩, ht⟩, hbetween⟩ := hok
          obtain ⟨m, hm, hany⟩ := (Option.any_eq_true _ _).mp hwrites
          obtain ⟨k, hmem, heq⟩ := List.any_eq_true.mp hany
          rw [of_decide_eq_true heq] at hmem
          have hsplit := eq_of_around hr
          rw [eq_of_around hc, eq_of_around hx] at hsplit
          simp only [Option.some.injEq, Prod.mk.injEq] at hat
          rw [← hat.1, ← hat.2]
          exact h late _ between _ after _ older key snap hsplit
            ⟨rfl, m, hm, hmem⟩ (endsIn_of_endsAt hends)
            (congrArg Mailbox.Act.called hkey) rfl ht hbetween
        · cases hat
      · cases hat
    · cases hat
  · cases hat

/-- What a listing of INBOX is answered once both messages are in Trash. -/
def bothTrashed : List MessageJson :=
  [demoMessage "m2" ["received", "trash"], demoMessage "m1" ["received", "trash"]]

/-- Both messages are copied, and INBOX is synced. -/
def copiedThenSynced : List Move :=
  twoInInbox ++ firstCopied ⟨[(1, 2)]⟩ ++ [patchedFor (.conn 0) ["received", "trash"],
    syncBy 1 "INBOX", listBy 2 1 inbox, answerTo (.task 2) bothTrashed, reapOf 2,
    answerTo (.conn 1) []]

theorem mutation_barrier_copied : ∃ w, GentleRun demoConfig demoText demoBoot w ∧
    ∃ started listing, barrierAt 0 8 5 1 (happenings w.trace) = some (started, listing) ∧
      started < listing := by
  have hrun : (demoBoot.world.run (gateway demoConfig demoText)
      (copiedThenSynced.map calmly)).any (fun w =>
          decide (barrierAt 0 8 5 1 (happenings w.trace) = some (2, 3))) = true := by
    decide +kernel
  have hms : copiedThenSynced.all harmless = true := by decide
  obtain ⟨w, hw, hat⟩ := exists_gentleRun hms hrun
  have hat := of_decide_eq_true hat
  exact ⟨w, hw, 2, 3, hat, lt_of_barrierAt (mutation_barrier demoBoot hw) hat⟩

/-- The first message is copied while INBOX is being listed, the second is refused, and INBOX
is synced again. -/
def cutShort : List Move :=
  twoInInbox ++ [copyOf ⟨[(1, 2)]⟩, listBy 1 0 trash, answerTo (.task 1) [], reapOf 1,
    answerTo (.conn 0) [], syncBy 1 "INBOX", listBy 2 1 inbox,
    patchedFor (.conn 0) ["received", "trash"],
    .resume (.conn 0) fun _ _ => some (.error .unavailable), syncBy 2 "INBOX",
    answerTo (.task 2) bothTrashed, reapOf 2, answerTo (.conn 2) []]

theorem barrier_missing : ∃ w, ProperRun demoConfig demoText demoBoot w ∧
    ¬MutationBarrier (happenings w.trace) := by
  have hrun : (demoBoot.world.run (gateway demoConfig demoText) cutShort).any (fun w =>
      decide (barrierAt 0 5 4 0 (happenings w.trace) = some (3, 3))) = true := by
    decide +kernel
  obtain ⟨w, hw, hat⟩ := exists_properRun (by decide) hrun
  have hat := of_decide_eq_true hat
  exact ⟨w, hw, fun hbarrier => Nat.lt_irrefl 3 (lt_of_barrierAt hbarrier hat)⟩

end Imap
end ImapGateway
