/-
What the actions of a session owe.

A response owes that the UIDs it announces are below the next one, that the two
uid-sets of COPYUID are the pairs of the copy, and, if it is tagged, that the
client's view is the session's.  `uidSet` is shown to be the sorted list it was
made from, read range by range.
-/
import ImapGateway.Imap.Handlers
import ImapGateway.Imap.View

namespace ImapGateway
namespace Imap

open Async Mailbox

/-! ## UID sets -/

/-- The UIDs of a uid-set. -/
def expandSet (ranges : List (Nat × Nat)) : List Nat :=
  ranges.flatMap fun r => List.range' r.1 (r.2 + 1 - r.1)

theorem expandSet_uidRuns (us : List Nat) {start prev : Nat} (h : start ≤ prev) :
    expandSet (uidRuns us start prev) = List.range' start (prev + 1 - start) ++ us := by
  induction us generalizing start prev with
  | nil => simp [uidRuns, expandSet]
  | cons u us ih =>
    rw [uidRuns]
    split
    · rename_i hu
      subst hu
      rw [ih (by omega), show prev + 1 + 1 - start = (prev + 1 - start) + 1 by omega,
        List.range'_concat, Nat.one_mul, show start + (prev + 1 - start) = prev + 1 by omega,
        List.append_assoc]
      rfl
    · have hrest := ih (Nat.le_refl u)
      rw [expandSet] at hrest
      rw [expandSet, List.flatMap_cons, hrest, show u + 1 - u = 1 by omega]
      rfl

/-- A uid-set stands for the sorted UIDs it was made from. -/
theorem expandSet_uidSet (us : List Nat) :
    expandSet (uidSet us) = us.insertionSort (· ≤ ·) := by
  rw [uidSet]
  cases us.insertionSort (· ≤ ·) with
  | nil => rfl
  | cons u us =>
    simp only
    rw [expandSet_uidRuns us (Nat.le_refl u), show u + 1 - u = 1 by omega]
    rfl

theorem mem_expandSet_uidSet {us : List Nat} {u : Nat} :
    u ∈ expandSet (uidSet us) ↔ u ∈ us := by
  rw [expandSet_uidSet, List.mem_insertionSort]

/-! ## What a response announces -/

/-- The mailbox a session is in. -/
def Session.here (l : Session) : Key := (l.inboxId.getD "", (l.selected.map (·.name)).getD "")

def Part.uidOf : Part → Option Nat
  | .uid n => some n
  | _ => none

def Code.announces (key : Key) : Code → List (Key × Nat)
  | .appenduid _ uid => [((key.1, drafts.name), uid)]
  | .copyuid _ source target =>
    (expandSet source).map (fun u => (key, u)) ++
      (expandSet target).map fun u => ((key.1, trash.name), u)
  | _ => []

/-- The UIDs a response reports, each with its mailbox. -/
def Response.announces (key : Key) : Response → List (Key × Nat)
  | .fetch _ _ parts => (parts.filterMap Part.uidOf).map fun u => (key, u)
  | .search true hits => hits.map fun u => (key, u)
  | .tagged _ _ _ (some code) => code.announces key
  | .ok _ code => code.announces key
  | _ => []

/-- The values of UIDNEXT a response reports, each with its mailbox. -/
def Response.predicts (key : Key) : Response → List (Key × Nat)
  | .ok _ (.uidnext n) => [(key, n)]
  | .status name values => values.filterMap fun v =>
    if v.1 = "UIDNEXT" then some ((key.1, name), v.2) else none
  | _ => []

/-- The two uid-sets of COPYUID. -/
def Response.copyuid : Response → Option (List (Nat × Nat) × List (Nat × Nat))
  | .tagged _ _ _ (some (.copyuid _ source target)) => some (source, target)
  | .ok _ (.copyuid _ source target) => some (source, target)
  | _ => none

def Response.isTagged : Response → Bool
  | .tagged _ _ _ _ => true
  | _ => false

/-- A response of coroutine `t` keeps its promises. -/
structure Tells (t : Tid) (r : Response) (s : Service) (l : Session) : Prop where
  announced : ∀ x ∈ r.announces l.here, x.2 < s.store.nextUid x.1.1 x.1.2
  paired : ∀ source target, r.copyuid = some (source, target) →
    source = uidSet ((s.copied t).map (·.1)) ∧ target = uidSet ((s.copied t).map (·.2)) ∧
      ((s.copied t).map (·.1)).Pairwise (· < ·)
  settled : r.isTagged = true → l.Ok s

/-- A response that announces nothing. -/
theorem Tells.of_plain {t : Tid} {r : Response} {s : Service} {l : Session}
    (ha : r.announces l.here = []) (hc : r.copyuid = none) (ht : r.isTagged = false) :
    Tells t r s l :=
  ⟨fun x hx => (by rw [ha] at hx; cases hx), fun _ _ h => (by rw [hc] at h; cases h),
    fun h => (by rw [ht] at h; cases h)⟩

/-- A tagged response that announces nothing. -/
theorem Tells.of_settled {t : Tid} {r : Response} {s : Service} {l : Session}
    (ha : r.announces l.here = []) (hc : r.copyuid = none) (hl : l.Ok s) : Tells t r s l :=
  ⟨fun x hx => (by rw [ha] at hx; cases hx), fun _ _ h => (by rw [hc] at h; cases h), fun _ => hl⟩

/-! ## What an action owes -/

def SOwes (t : Tid) (p : Act) (s : Service) (l : Session) : Prop :=
  match p with
  | .send r => Tells t r s l
  | .setCredentials _ _ _ => l.selected = none
  | .setState st => st ≠ .notAuthenticated
  | .applySnapshot snap _ => ∃ inboxId mdef, l.inboxId = some inboxId ∧ mdef ∈ mailboxes ∧
    snap.key = (inboxId, mdef.name) ∧ snap.Valid s.store
  | .flushPending => l.Ok s
  | _ => True

/-- The actions that leave the view, and what the client makes of it, alone. -/
def Act.quiet : Act → Bool
  | .send (.exists _) | .send (.expunge _) => false
  | .send _ | .setState _ | .clearCredentials | .recordFlags _ _ | .noteStored _ _ _ _ | .defer _
  | .takeDeferred | .abort => true
  | _ => false

/-- A note that is neither EXISTS nor EXPUNGE nor about the selection leaves the
client where it is. -/
def Note.Idle (n : Note) : Prop := ∀ c : ClientView, c.next n = c

/-- Another record of flags and an idle note keep a session in order. -/
theorem Session.Ok.note {s : Service} {l l' : Session} (notes : List Note) (h : l.Ok s)
    (hstate : l'.state = .notAuthenticated → l.state = .notAuthenticated)
    (hid : l'.inboxId = l.inboxId) (hlog : l'.log = notes ++ l.log) (hidle : ∀ n ∈ notes, n.Idle)
    (hsel : l'.selected = none ↔ l.selected = none)
    (hsame : ∀ sel', l'.selected = some sel' → ∃ sel, l.selected = some sel ∧
      sel'.name = sel.name ∧ sel'.uids = sel.uids ∧ sel'.seqOf = sel.seqOf) : l'.Ok s where
  fresh hst := hsel.mpr (h.fresh (hstate hst))
  view sel' hsel' := by
    obtain ⟨sel, hl, hname, huids, hseq⟩ := hsame sel' hsel'
    obtain ⟨inboxId, mdef, hi, hdef, hdname, hok⟩ := h.view sel hl
    refine ⟨inboxId, mdef, hid.trans hi, hname ▸ hdef, hname ▸ hdname, ?_⟩
    obtain ⟨h₁, h₂, h₃, h₄⟩ := hok
    exact ⟨huids ▸ h₁, huids ▸ hname ▸ h₂, huids ▸ hname ▸ h₃, hseq.trans (huids ▸ h₄)⟩
  told sel' hsel' := by
    obtain ⟨sel, hl, _, huids, _⟩ := hsame sel' hsel'
    have hclient : ∀ ns : List Note, (∀ n ∈ ns, n.Idle) →
        clientView (ns ++ l.log) = clientView l.log := by
      intro ns
      induction ns with
      | nil => exact fun _ => rfl
      | cons n ns ih =>
        intro hns
        rw [List.cons_append, clientView_cons, ih fun m hm => hns m (List.mem_cons_of_mem _ hm)]
        exact hns n (List.mem_cons_self ..) _
    rcases h.told sel hl with hc | hs
    · exact .inl (by rw [hlog, hclient notes hidle, hc, huids])
    · exact .inr (hs.mono fun n hn => by rw [hlog]; exact List.mem_append_right _ hn)

theorem Response.idle {r : Response} (uids : List Nat) (h : (Act.send r).quiet = true) :
    (Note.sent r uids).Idle := by
  cases r with
  | «exists» n => cases h
  | expunge seq => cases h
  | _ => intro c; cases c <;> rfl

/-- A quiet action keeps a session in order, and its view. -/
theorem Session.Ok.quiet {t : Tid} {p : Act} {s : Service} {l : Session} (h : l.Ok s)
    (hp : p.quiet = true) (ho : SOwes t p s l) :
    (p.exec s l).Ok s ∧ (p.exec s l).view = l.view := by
  have same : ∀ {l' : Session}, (l'.state = .notAuthenticated → l.state = .notAuthenticated) →
      l'.inboxId = l.inboxId → l'.selected = l.selected → l'.log = l.log →
      l'.Ok s ∧ l'.view = l.view := by
    intro l' hst hid hsel hlog
    refine ⟨h.note [] hst hid hlog (fun _ h => by cases h) (by rw [hsel]) fun sel' hs => ?_, ?_⟩
    · exact ⟨sel', hsel ▸ hs, rfl, rfl, rfl⟩
    · rw [Session.view, Session.view, hid, hsel]
  have noted : ∀ {l' : Session} {n : Note}, n.Idle → l'.state = l.state →
      l'.inboxId = l.inboxId → l'.selected = l.selected → l'.log = n :: l.log →
      l'.Ok s ∧ l'.view = l.view := by
    intro l' n hidle hst hid hsel hlog
    refine ⟨h.note [n] (fun he => hst ▸ he) hid hlog (fun m hm => ?_) (by rw [hsel])
      fun sel' hs => ?_, ?_⟩
    · rw [List.mem_singleton.mp hm]
      exact hidle
    · exact ⟨sel', hsel ▸ hs, rfl, rfl, rfl⟩
    · rw [Session.view, Session.view, hid, hsel]
  cases p with
  | send r => exact noted (Response.idle l.uids hp) rfl rfl rfl rfl
  | setState st => exact same (fun he => absurd he ho) rfl rfl rfl
  | clearCredentials | defer | takeDeferred => exact same id rfl rfl rfl
  | abort => exact same (fun h => by cases h) rfl rfl rfl
  | noteStored uids mode permanent flags =>
    exact noted (n := .stored uids mode permanent flags) (fun c => by cases c <;> rfl) rfl rfl rfl
      rfl
  | recordFlags uid flags =>
    rw [Act.exec, recordFlags]
    cases hsel : l.selected with
    | none => exact ⟨h, rfl⟩
    | some sel =>
      refine ⟨h.note [.recorded uid flags] id rfl rfl (fun m hm => ?_)
        (by simp [Session.note, setSelected, hsel]) fun sel' hs => ?_, ?_⟩
      · rw [List.mem_singleton.mp hm]
        intro c
        cases c <;> rfl
      · cases hs
        exact ⟨sel, hsel, rfl, rfl, rfl⟩
      · rw [Session.view, Session.view, hsel]
        rfl
  | _ => cases hp

end Imap
end ImapGateway
