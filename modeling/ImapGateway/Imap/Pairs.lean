/-
The pairs COPYUID names.

COPY and MOVE answer with two sets, the UIDs of the messages in the source and those in
Trash.  Each set is sorted by itself, and a client pairs them off in that order.  The
messages are copied in the order of their source UIDs, so it gets the pairs right exactly if
their Trash UIDs ascend with them.
-/
import ImapGateway.Imap.Predictions
import ImapGateway.Mailbox.Copies

namespace ImapGateway
namespace Imap

open Async Mailbox

/-! ## Two sets and the pairs -/

/-- Taken in order, the numbers of the two sets are the pairs. -/
structure NamesPairs (source target : List (Nat × Nat)) (pairs : List (Nat × Nat)) : Prop where
  length : (expandSet source).length = (expandSet target).length
  pairs : ∀ x ∈ (expandSet source).zip (expandSet target), x ∈ pairs

/-- Where no two pairs begin alike, only their own ends fit them. -/
theorem ends_of_zip {pairs : List (Nat × Nat)} (h : (pairs.map (·.1)).Nodup) :
    ∀ {ends : List Nat}, ends.length = pairs.length →
      (∀ x ∈ (pairs.map (·.1)).zip ends, x ∈ pairs) → ends = pairs.map (·.2) := by
  induction pairs with
  | nil => exact fun hlen _ => List.length_eq_zero_iff.mp hlen
  | cons pair pairs ih =>
    intro ends hlen hzip
    rw [List.map_cons, List.nodup_cons] at h
    cases ends with
    | nil => cases hlen
    | cons u ends =>
      rw [List.map_cons, List.zip_cons_cons] at hzip
      have hfirst : u = pair.2 := by
        rcases List.mem_cons.mp (hzip _ (List.mem_cons_self ..)) with heq | hmem
        · exact congrArg Prod.snd heq
        · exact absurd (List.mem_map.mpr ⟨_, hmem, rfl⟩) h.1
      have hrest : ends = pairs.map (·.2) := by
        apply ih h.2 (by simpa using hlen)
        intro x hx
        rcases List.mem_cons.mp (hzip x (List.mem_cons_of_mem _ hx)) with heq | hmem
        · have hmem := (List.of_mem_zip (a := x.1) (b := x.2) hx).1
          rw [heq] at hmem
          exact absurd hmem h.1
        · exact hmem
      rw [hfirst, hrest, List.map_cons]

/-- The sets of pairs that were copied in order name them if and only if their ends ascend. -/
theorem namesPairs_uidSet {pairs : List (Nat × Nat)} (h : (pairs.map (·.1)).Pairwise (· < ·)) :
    NamesPairs (uidSet (pairs.map (·.1))) (uidSet (pairs.map (·.2))) pairs ↔ Upward pairs := by
  have hsource : expandSet (uidSet (pairs.map (·.1))) = pairs.map (·.1) := by
    rw [expandSet_uidSet]
    exact (h.imp Nat.le_of_lt).insertionSort_eq
  have hupward : Upward pairs ↔ (pairs.map (·.2)).Pairwise (· ≤ ·) := by
    rw [Upward, List.pairwise_map]
  constructor
  · intro hnames
    have hlen := hnames.length
    have hzip := hnames.pairs
    rw [hsource] at hlen hzip
    have hnodup : (pairs.map (·.1)).Nodup := h.imp Nat.ne_of_lt
    have hends := ends_of_zip hnodup (by rw [← hlen, List.length_map]) hzip
    rw [hupward, ← hends, expandSet_uidSet]
    exact List.pairwise_insertionSort _ _
  · intro hup
    have htarget : expandSet (uidSet (pairs.map (·.2))) = pairs.map (·.2) := by
      rw [expandSet_uidSet]
      exact (hupward.mp hup).insertionSort_eq
    refine ⟨?_, fun x hx => ?_⟩
    · rw [hsource, htarget, List.length_map, List.length_map]
    · rw [hsource, htarget, ← List.zip_of_prod rfl rfl] at hx
      exact hx

/-! ## In a run -/

variable {cfg : Config} {txt : TextConfig} {R : Regime} {s₀ s : Service} {w : World}

/-- As long as every copy goes upward, so do the pairs, at every event. -/
theorem upward_of_linked {tr : Trace} (h : Linked (exec cfg) s₀ tr s)
    (hok : ∀ e ∈ tr, EventOk cfg R e) (h₀ : ∀ t, Upward (s₀.copied t))
    (hup : ∀ x ∈ happenings tr, x.CopiesUpward) :
    (∀ t, Upward (s.copied t)) ∧ ∀ e ∈ tr, ∀ t, Upward (e.before.1.copied t) := by
  induction h with
  | nil => exact ⟨h₀, fun e he => absurd he List.not_mem_nil⟩
  | @cons tr e _ ih =>
    have hstep : ∀ x ∈ happenings tr, x.CopiesUpward := by
      intro x hx
      apply hup x
      obtain ⟨d, hd, hdx⟩ := List.mem_filterMap.mp hx
      exact List.mem_filterMap.mpr ⟨d, List.mem_cons_of_mem _ hd, hdx⟩
    obtain ⟨hnow, hbefore⟩ := ih (fun d hd => hok d (List.mem_cons_of_mem _ hd)) hstep
    have he := hok e (List.mem_cons_self ..)
    refine ⟨fun t => ?_, fun d hd => ?_⟩
    · obtain ⟨u, p, s⟩ := e
      cases p with
      | inl p =>
        have hx : (⟨u, p, s.1⟩ : Happening) ∈ happenings (⟨u, .inl p, s⟩ :: tr) :=
          List.mem_cons_self ..
        exact (hup _ hx).upward he.inv.store (he.owed p rfl) hnow t
      | inr p => exact hnow t
    · rcases List.mem_cons.mp hd with rfl | hd
      · exact hnow
      · exact hbefore d hd

/-- Every COPYUID names the pairs its command has copied. -/
def CopyuidNamesPairs (tr : Trace) : Prop :=
  ∀ t r s source target, ⟨t, .inr (.send r), s⟩ ∈ tr → r.copyuid = some (source, target) →
    NamesPairs source target (s.1.copied t)

/-- A COPYUID names the pairs exactly if their Trash UIDs ascend. -/
theorem LawfulRun.namesPairs_iff {V : Prop} {b : Boot} (h : LawfulRun cfg txt R V b w) {t : Tid}
    {r : Response} {s : Shared} {source target : List (Nat × Nat)}
    (he : ⟨t, .inr (.send r), s⟩ ∈ w.trace) (hr : r.copyuid = some (source, target)) :
    NamesPairs source target (s.1.copied t) ↔ Upward (s.1.copied t) := by
  obtain ⟨hsource, htarget, hasc⟩ :=
    (show Tells t r s.1 s.2 from (h.sessionOwed he).2).paired source target hr
  rw [hsource, htarget]
  exact namesPairs_uidSet hasc

/-- As long as every copy goes upward, every COPYUID names the pairs. -/
theorem copyuid_names_pairs (b : Boot) (h : ProperRun cfg txt b w)
    (hup : ∀ x ∈ happenings w.trace, x.CopiesUpward) : CopyuidNamesPairs w.trace := by
  intro t r s source target he hr
  rw [h.namesPairs_iff he hr]
  exact (upward_of_linked h.linked h.eventOk (fun _ => List.Pairwise.nil) hup).2 _ he t

def copiesUpward (x : Happening) : Bool :=
  match x.action with
  | .copyItem inboxId item _ => (x.before.store.liveUid inboxId trash.name item.remoteId).all
      fun u => (x.before.copied x.tid).all fun pair => decide (pair.2 ≤ u)
  | _ => true

theorem copiesUpward_of_check {x : Happening} (h : copiesUpward x = true) : x.CopiesUpward := by
  intro inboxId item result hp u hu pair hpair
  simp only [copiesUpward, hp, hu, Option.all_some, List.all_eq_true, decide_eq_true_eq] at h
  exact h pair hpair

/-- The sets of a COPYUID, with the pairs its command has copied. -/
def copyuidAt (e : GatewayEvent) : Option (List (Nat × Nat) × List (Nat × Nat)) :=
  match e.action with
  | .inr (.send r) => r.copyuid.map fun c =>
      ((expandSet c.1).zip (expandSet c.2), e.before.1.copied e.tid)
  | _ => none

/-- INBOX holds `m1` and `m2`, and Trash is empty. -/
def twoInInbox : List Move :=
  loginMoves 0 ++ openMoves 0 0 inbox false
    [answerTo (.task 0) [demoMessage "m2" ["received"], demoMessage "m1" ["received"]]]

def copyOf (set : SequenceSet) : Move := commandBy 0 (.copy ⟨false, false⟩ set "Trash")

/-- Trash is listed for the first time, and one message is patched. -/
def firstCopied (set : SequenceSet) : List Move :=
  [copyOf set, listBy 1 0 trash, answerTo (.task 1) [], reapOf 1, answerTo (.conn 0) [],
    patchedFor (.conn 0) ["received", "trash"]]

theorem copyuid_names_pairs_copied : ∃ w, ProperRun demoConfig demoText demoBoot w ∧
    (∃ e ∈ w.trace, copyuidAt e = some ([(1, 1), (2, 2)], [(1, 1), (2, 2)])) ∧
    CopyuidNamesPairs w.trace := by
  have hrun : (demoBoot.world.run (gateway demoConfig demoText) (twoInInbox ++
      firstCopied ⟨[(1, 2)]⟩ ++ [patchedFor (.conn 0) ["received", "trash"]])).any (fun w =>
        (w.trace.any fun e =>
          decide (copyuidAt e = some ([(1, 1), (2, 2)], [(1, 1), (2, 2)]))) &&
        (happenings w.trace).all copiesUpward) = true := by
    decide +kernel
  obtain ⟨w, hw, hok⟩ := exists_properRun (by decide) hrun
  rw [Bool.and_eq_true] at hok
  obtain ⟨e, he, htold⟩ := List.any_eq_true.mp hok.1
  exact ⟨w, hw, ⟨e, he, of_decide_eq_true htold⟩, copyuid_names_pairs demoBoot hw fun x hx =>
    copiesUpward_of_check (List.all_eq_true.mp hok.2 x hx)⟩

/-- The second message is copied by itself, and then both are. -/
def secondFirst : List Move :=
  twoInInbox ++ firstCopied ⟨[(2, 2)]⟩ ++ [answerTo (.conn 0) [], copyOf ⟨[(1, 2)]⟩,
    patchedFor (.conn 0) ["received", "trash"], patchedFor (.conn 0) ["received", "trash"]]

theorem copyuid_crossed : ∃ w, ProperRun demoConfig demoText demoBoot w ∧
    ¬CopyuidNamesPairs w.trace := by
  have hrun : (demoBoot.world.run (gateway demoConfig demoText) secondFirst).any (fun w =>
      w.trace.any fun e =>
        decide (copyuidAt e = some ([(1, 1), (2, 2)], [(1, 2), (2, 1)]))) = true := by
    decide +kernel
  obtain ⟨w, hw, hok⟩ := exists_properRun (by decide) hrun
  refine ⟨w, hw, fun hnames => ?_⟩
  obtain ⟨⟨t, p, s⟩, he, htold⟩ := List.any_eq_true.mp hok
  rw [decide_eq_true_eq] at htold
  cases p with
  | inl p => cases htold
  | inr p =>
    cases p with
    | send r =>
      obtain ⟨⟨source, target⟩, hr, heq⟩ := Option.map_eq_some_iff.mp htold
      have hpairs := (hnames t r s source target he hr).pairs
      injection heq with hzip hcopied
      rw [hzip, hcopied] at hpairs
      exact absurd (hpairs (1, 1) (by decide)) (by decide)
    | _ => cases htold

end Imap
end ImapGateway
