/-
What a client makes of the responses it is sent.

A client that starts from the EXISTS of SELECT and applies only EXPUNGE and
EXISTS has a list of positions.  `clientView` replays the log of a session as
such a client would, with the UIDs the session had when it announced a position
for what the position means.  `Session.Ok` says that the session's own list is
the one the client has, as long as no CLOSE has slipped anything past it.
-/
import ImapGateway.Imap.Session
import ImapGateway.Mailbox.Conduct
import Mathlib.Data.List.Sort

namespace ImapGateway
namespace Imap

open Async Mailbox

/-! ## The client -/

inductive ClientView where
  | closed
  /-- SELECT is under way and has not sent EXISTS yet. -/
  | opening
  | viewing (uids : List Nat)
  /-- It was told what it cannot apply. -/
  | lost
  deriving DecidableEq

/-- `* k EXPUNGE` deletes position `k`, `* n EXISTS` appends positions up to `n`. -/
def ClientView.next : Note → ClientView → ClientView
  | .viewed _ _, _ => .opening
  | .deselected, _ => .closed
  | .sent (.exists n) uids, .opening => if n ≤ uids.length then .viewing (uids.take n) else .lost
  | .sent (.exists n) uids, .viewing v =>
    if v.length ≤ n ∧ n ≤ uids.length then .viewing (v ++ (uids.take n).drop v.length) else .lost
  | .sent (.expunge k) _, .viewing v =>
    if 1 ≤ k ∧ k ≤ v.length then .viewing (v.eraseIdx (k - 1)) else .lost
  | _, c => c

/-- The view of a client that has read a log, which is newest first. -/
def clientView (log : List Note) : ClientView := log.foldr ClientView.next .closed

@[simp] theorem clientView_cons (n : Note) (log : List Note) :
    clientView (n :: log) = (clientView log).next n := rfl

/-- A CLOSE that failed to remove something took vanished UIDs out of the view. -/
def Slipped (log : List Note) : Prop :=
  ∃ errors u us, Note.dropped (errors + 1) (u :: us) ∈ log

theorem Slipped.mono {log log' : List Note} (h : Slipped log) (hsub : ∀ n ∈ log, n ∈ log') :
    Slipped log' := by
  obtain ⟨errors, u, us, hmem⟩ := h
  exact ⟨errors, u, us, hsub _ hmem⟩

/-! ## Sequence numbers -/

/-- `seq_of` is the inverse of the list of UIDs. -/
theorem seqTable_eq_some {uids : List Nat} (h : uids.Nodup) {uid seq : Nat} :
    seqTable uids uid = some seq ↔ 1 ≤ seq ∧ uids[seq - 1]? = some uid := by
  rw [seqTable]
  have hmem : ∀ x : Nat × Nat, x ∈ (uids.zipIdx 1).reverse ↔ 1 ≤ x.2 ∧ uids[x.2 - 1]? = some x.1 := by
    intro x
    rw [List.mem_reverse, List.mk_mem_zipIdx_iff_le_and_getElem?_sub]
  have hkeys : ((uids.zipIdx 1).reverse.map (·.1)).Nodup := by
    rw [List.map_reverse, List.nodup_reverse, List.zipIdx_map_fst]
    exact h
  constructor
  · intro hl
    obtain ⟨l₁, l₂, heq, _⟩ := List.lookup_eq_some_iff.mp hl
    refine (hmem (uid, seq)).mp ?_
    rw [heq]
    exact List.mem_append_right _ (List.mem_cons_self ..)
  · intro hseq
    have hin := (hmem (uid, seq)).mpr hseq
    obtain ⟨l₁, l₂, heq⟩ := List.append_of_mem hin
    rw [heq] at hkeys ⊢
    refine List.lookup_eq_some_iff.mpr ⟨l₁, l₂, rfl, fun p hp => ?_⟩
    rw [List.map_append, List.map_cons, List.nodup_append] at hkeys
    have hne := hkeys.2.2 p.1 (List.mem_map_of_mem hp) uid (List.mem_cons_self ..)
    simpa using Ne.symm hne

/-! ## The view of a session -/

/-- The list of a selected mailbox: its UIDs ascend to below the next UID, any other
live UID is above them, and `seq_of` is theirs. -/
structure Selected.Ok (d : Store.Db) (inboxId : String) (sel : Selected) : Prop where
  ascending : sel.uids.Pairwise (· < ·)
  below : ∀ u ∈ sel.uids, u < d.nextUid inboxId sel.name
  rest : ∀ k u, d.liveUid inboxId sel.name k = some u → u ∈ sel.uids ∨ ∀ v ∈ sel.uids, v < u
  seqs : sel.seqOf = seqTable sel.uids

theorem Selected.Ok.grows {d d' : Store.Db} {inboxId : String} {sel : Selected}
    (h : sel.Ok d inboxId) (hg : d.Grows d') : sel.Ok d' inboxId where
  ascending := h.ascending
  below u hu := Nat.lt_of_lt_of_le (h.below u hu) (hg _ _).1
  rest k u hu := by
    rcases (hg _ _).2 k u hu with hu | hle
    · exact h.rest k u hu
    · exact .inr fun v hv => Nat.lt_of_lt_of_le (h.below v hv) hle
  seqs := h.seqs

/-- The client's positions are the session's list. -/
def Session.Told (l : Session) (sel : Selected) : Prop :=
  clientView l.log = .viewing sel.uids ∨ Slipped l.log

structure Session.Ok (s : Service) (l : Session) : Prop where
  fresh : l.state = .notAuthenticated → l.selected = none
  view : ∀ sel, l.selected = some sel → ∃ inboxId mdef, l.inboxId = some inboxId ∧
    lookupMailbox sel.name = some mdef ∧ mdef.name = sel.name ∧ sel.Ok s.store inboxId
  told : ∀ sel, l.selected = some sel → l.Told sel

theorem Session.Ok.grows {s s' : Service} {l : Session} (h : l.Ok s)
    (hg : s.store.Grows s'.store) : l.Ok s' where
  fresh := h.fresh
  view sel hsel := by
    obtain ⟨inboxId, mdef, hid, hdef, hname, hok⟩ := h.view sel hsel
    exact ⟨inboxId, mdef, hid, hdef, hname, hok.grows hg⟩
  told := h.told

theorem Session.Ok.of_none {s : Service} {l : Session} (h : l.selected = none) : l.Ok s where
  fresh _ := h
  view sel hsel := by rw [h] at hsel; cases hsel
  told sel hsel := by rw [h] at hsel; cases hsel

/-- What a handler relies on staying the same: the inbox, and the name, mode and UIDs
of the selected mailbox. -/
structure View where
  inboxId : Option String
  selected : Option (String × Bool × List Nat)
  deriving DecidableEq

def Session.view (l : Session) : View :=
  ⟨l.inboxId, l.selected.map fun sel => (sel.name, sel.readOnly, sel.uids)⟩

theorem Session.view_of_selected {l : Session} {sel : Selected} (h : l.selected = some sel) :
    l.view.selected = some (sel.name, sel.readOnly, sel.uids) := by
  rw [Session.view, h]
  rfl

/-! ## `flush_pending`

Each of the three loops extends the log by updates and keeps the client in step. -/

/-- What `flush_pending` writes; a FETCH is about one of `uids`. -/
def Note.Update (uids : List Nat) : Note → Prop
  | .sent (.expunge _) _ => True
  | .sent (.exists _) _ => True
  | .sent (.fetch _ uid parts) _ => uid ∈ uids ∧ ∃ flags, parts = [.uid uid, .flags flags]
  | _ => False

/-- The session with another view of the same mailbox, and updates written. -/
structure Session.Edits (uids : List Nat) (l l' : Session) : Prop where
  state : l'.state = l.state
  inboxId : l'.inboxId = l.inboxId
  api : l'.api = l.api
  closed : l'.closed = l.closed
  selected : ∀ sel, l.selected = some sel →
    ∃ sel', l'.selected = some sel' ∧ sel'.name = sel.name ∧ sel'.readOnly = sel.readOnly
  log : ∃ notes, l'.log = notes ++ l.log ∧ ∀ n ∈ notes, n.Update uids

namespace Session

theorem Edits.refl (uids : List Nat) (l : Session) : Edits uids l l :=
  ⟨rfl, rfl, rfl, rfl, fun sel h => ⟨sel, h, rfl, rfl⟩, [], rfl, nofun⟩

theorem Edits.trans {uids : List Nat} {l₁ l₂ l₃ : Session} (h : Edits uids l₁ l₂)
    (h' : Edits uids l₂ l₃) : Edits uids l₁ l₃ where
  state := h'.state.trans h.state
  inboxId := h'.inboxId.trans h.inboxId
  api := h'.api.trans h.api
  closed := h'.closed.trans h.closed
  selected sel hsel := by
    obtain ⟨sel₂, h₂, hname, hro⟩ := h.selected sel hsel
    obtain ⟨sel₃, h₃, hname', hro'⟩ := h'.selected sel₂ h₂
    exact ⟨sel₃, h₃, hname'.trans hname, hro'.trans hro⟩
  log := by
    obtain ⟨notes, hlog, hnotes⟩ := h.log
    obtain ⟨notes', hlog', hnotes'⟩ := h'.log
    refine ⟨notes' ++ notes, by rw [hlog', hlog, List.append_assoc], fun n hn => ?_⟩
    rcases List.mem_append.mp hn with hn | hn
    · exact hnotes' n hn
    · exact hnotes n hn

theorem Edits.slipped {uids : List Nat} {l l' : Session} (h : Edits uids l l')
    (hs : Slipped l.log) : Slipped l'.log := by
  obtain ⟨notes, hlog, _⟩ := h.log
  rw [hlog]
  exact hs.mono fun n hn => List.mem_append_right _ hn

/-- The vanished UIDs among the first `n` leave the view, and the client follows. -/
theorem flushVanished_spec (uids live : List Nat) (n : Nat) {l : Session} {sel : Selected}
    (hsel : l.selected = some sel) (hn : n ≤ sel.uids.length) :
    Edits uids l (flushVanished live n l) ∧
      ∃ sel', (flushVanished live n l).selected = some sel' ∧ sel'.name = sel.name ∧
        sel'.readOnly = sel.readOnly ∧
        sel'.uids = (sel.uids.take n).filter (fun u => decide (u ∈ live)) ++ sel.uids.drop n ∧
        (l.Told sel → (flushVanished live n l).Told sel') := by
  induction n generalizing l sel with
  | zero => exact ⟨.refl _ _, sel, hsel, rfl, rfl, by simp, id⟩
  | succ n ih =>
    have hlt : n < sel.uids.length := hn
    have hget : sel.uids[n]? = some sel.uids[n] := List.getElem?_eq_getElem hlt
    have htake : sel.uids.take (n + 1) = sel.uids.take n ++ [sel.uids[n]] := by
      rw [List.take_add_one, hget]
      rfl
    have hdrop : sel.uids.drop n = sel.uids[n] :: sel.uids.drop (n + 1) :=
      List.drop_eq_getElem_cons hlt
    rw [flushVanished, hsel]
    simp only [hget]
    split
    · rename_i hlive
      obtain ⟨hedit, sel', hsel', hname, hro, huids, htold⟩ := ih hsel (Nat.le_of_lt hlt)
      refine ⟨hedit, sel', hsel', hname, hro, ?_, htold⟩
      rw [huids, htake, hdrop, List.filter_append, List.filter_cons_of_pos (by simpa using hlive),
        List.filter_nil, List.append_assoc]
      rfl
    · rename_i hgone
      let sel₁ : Selected := { sel with
        uids := sel.uids.eraseIdx n
        flagsSeen := Function.update sel.flagsSeen sel.uids[n] none }
      let l₁ := (l.write (.expunge (n + 1))).setSelected sel₁
      have hlen : n ≤ sel₁.uids.length := by
        show n ≤ (sel.uids.eraseIdx n).length
        rw [List.length_eraseIdx_of_lt hlt]
        omega
      have hstep : Edits uids l l₁ := by
        refine ⟨rfl, rfl, rfl, rfl, fun sel₀ h₀ => ⟨sel₁, rfl, ?_⟩,
          [.sent (.expunge (n + 1)) l.uids], rfl, fun m hm => ?_⟩
        · rw [hsel] at h₀
          cases h₀
          exact ⟨rfl, rfl⟩
        · rw [List.mem_singleton.mp hm]
          trivial
      have htold₁ : l.Told sel → l₁.Told sel₁ := by
        rintro (hc | hs)
        · refine .inl ?_
          show clientView (.sent (.expunge (n + 1)) l.uids :: l.log) = _
          rw [clientView_cons, hc]
          show (if 1 ≤ n + 1 ∧ n + 1 ≤ sel.uids.length then _ else _) = _
          rw [if_pos ⟨Nat.le_add_left 1 n, hlt⟩]
          rfl
        · exact .inr (hstep.slipped hs)
      obtain ⟨hedit, sel', hsel', hname, hro, huids, htold⟩ := ih (l := l₁) rfl hlen
      refine ⟨hstep.trans hedit, sel', hsel', hname, hro, ?_, fun h => htold (htold₁ h)⟩
      have herase : sel₁.uids = sel.uids.take n ++ sel.uids.drop (n + 1) :=
        List.eraseIdx_eq_take_drop_succ ..
      have hlen' : (sel.uids.take n).length = n := List.length_take_of_le (Nat.le_of_lt hlt)
      rw [huids, herase, htake, List.take_left' hlen', List.drop_left' hlen', List.filter_append,
        List.filter_cons_of_neg (by simpa using hgone), List.filter_nil, List.append_nil]

/-- UIDs above the view are appended to it, and the client follows. -/
theorem flushArrived_spec (items : List Nat) {l : Session} {sel : Selected}
    (hsel : l.selected = some sel) (hview : sel.uids.Pairwise (· < ·))
    (hitems : items.Pairwise (· < ·))
    (habove : ∀ u ∈ items, u ∈ sel.uids ∨ ∀ v ∈ sel.uids, v < u) :
    Edits items l (flushArrived items l) ∧
      ∃ sel', (flushArrived items l).selected = some sel' ∧ sel'.name = sel.name ∧
        sel'.readOnly = sel.readOnly ∧
        sel'.uids = sel.uids ++ items.filter (fun u => decide (u ∉ sel.uids)) ∧
        sel'.uids.Pairwise (· < ·) ∧ (l.Told sel → (flushArrived items l).Told sel') := by
  have hascending : (sel.uids ++ items.filter fun u => decide (u ∉ sel.uids)).Pairwise (· < ·) := by
    refine List.pairwise_append.mpr ⟨hview, hitems.filter _, fun v hv u hu => ?_⟩
    obtain ⟨hu, hnew⟩ := List.mem_filter.mp hu
    exact (habove u hu).resolve_left (by simpa using hnew) v hv
  rw [flushArrived, hsel]
  simp only
  split
  · rename_i hnone
    refine ⟨.refl _ _, sel, hsel, rfl, rfl, ?_, hview, id⟩
    rw [hnone, List.append_nil]
  · have hsort : (sel.uids ++ items.filter fun u => decide (u ∉ sel.uids)).insertionSort (· ≤ ·) =
        sel.uids ++ items.filter fun u => decide (u ∉ sel.uids) :=
      (hascending.imp Nat.le_of_lt).insertionSort_eq
    rw [hsort]
    set uids := sel.uids ++ items.filter fun u => decide (u ∉ sel.uids)
    have hedit : Edits items l ((l.setSelected { sel with uids := uids }).write
        (.exists uids.length)) := by
      refine ⟨rfl, rfl, rfl, rfl, fun sel₀ h₀ => ⟨{ sel with uids := uids }, rfl, ?_⟩,
        [.sent (.exists uids.length) uids], rfl, fun m hm => ?_⟩
      · rw [hsel] at h₀
        cases h₀
        exact ⟨rfl, rfl⟩
      · rw [List.mem_singleton.mp hm]
        trivial
    refine ⟨hedit, { sel with uids := uids }, rfl, rfl, rfl, rfl, hascending, ?_⟩
    rintro (hc | hs)
    · refine .inl ?_
      show clientView (.sent (.exists uids.length) uids :: l.log) = .viewing uids
      have hlen : sel.uids.length ≤ uids.length := by
        rw [List.length_append]
        exact Nat.le_add_right ..
      rw [clientView_cons, hc]
      show (if sel.uids.length ≤ uids.length ∧ uids.length ≤ uids.length then _ else _) = _
      rw [if_pos ⟨hlen, Nat.le_refl _⟩, List.take_length, List.drop_left]
    · exact .inr (hedit.slipped hs)

/-- The loop over the flags changes neither the view nor the client's. -/
theorem flushFlags_spec (latest : Snapshot) (deleted : List Nat) (xs : List (Nat × Nat))
    {l : Session} {sel : Selected} (hsel : l.selected = some sel) :
    Edits latest.uids l (flushFlags latest deleted xs l) ∧
      ∃ sel', (flushFlags latest deleted xs l).selected = some sel' ∧ sel'.name = sel.name ∧
        sel'.readOnly = sel.readOnly ∧ sel'.uids = sel.uids ∧ sel'.seqOf = sel.seqOf ∧
        clientView (flushFlags latest deleted xs l).log = clientView l.log := by
  induction xs generalizing l sel with
  | nil => exact ⟨.refl _ _, sel, hsel, rfl, rfl, rfl, rfl, rfl⟩
  | cons x xs ih =>
    obtain ⟨uid, seq⟩ := x
    rw [flushFlags, hsel]
    cases hitem : latest.byUid uid with
    | none => exact ih hsel
    | some item =>
      let sel₁ : Selected := { sel with
        flagsSeen := Function.update sel.flagsSeen uid (some (flagsOf item deleted)) }
      have hrest : ∀ l₁, Edits latest.uids l l₁ → clientView l₁.log = clientView l.log →
          Edits latest.uids l (flushFlags latest deleted xs (l₁.setSelected sel₁)) ∧
          ∃ sel', (flushFlags latest deleted xs (l₁.setSelected sel₁)).selected = some sel' ∧
            sel'.name = sel.name ∧ sel'.readOnly = sel.readOnly ∧ sel'.uids = sel.uids ∧
            sel'.seqOf = sel.seqOf ∧ clientView
              (flushFlags latest deleted xs (l₁.setSelected sel₁)).log = clientView l.log := by
        intro l₁ hstep hclient₁
        have hset : Edits latest.uids l₁ (l₁.setSelected sel₁) := by
          refine ⟨rfl, rfl, rfl, rfl, fun sel₀ h₀ => ⟨sel₁, rfl, ?_⟩, [], rfl, nofun⟩
          obtain ⟨sel₂, h₂, hname, hro⟩ := hstep.selected sel hsel
          rw [h₀] at h₂
          cases h₂
          exact ⟨hname.symm, hro.symm⟩
        obtain ⟨hedit, sel', hsel', hname, hro, huids, hseq, hclient⟩ :=
          ih (show (l₁.setSelected sel₁).selected = some sel₁ from rfl)
        exact ⟨(hstep.trans hset).trans hedit, sel', hsel', hname, hro, huids, hseq,
          hclient.trans hclient₁⟩
      have hwrite : Edits latest.uids l
          (l.write (.fetch seq uid [.uid uid, .flags (flagsOf item deleted)])) := by
        refine ⟨rfl, rfl, rfl, rfl, fun sel₀ h₀ => ⟨sel₀, h₀, rfl, rfl⟩,
          [.sent (.fetch seq uid [.uid uid, .flags (flagsOf item deleted)]) l.uids], rfl,
          fun m hm => ?_⟩
        rw [List.mem_singleton.mp hm]
        exact ⟨Snapshot.byUid_isSome.mp (by rw [hitem]; rfl), _, rfl⟩
      simp only
      cases sel.flagsSeen uid with
      | none => exact hrest l (.refl _ _) rfl
      | some previous =>
        simp only
        split
        · exact hrest _ hwrite rfl
        · exact hrest l (.refl _ _) rfl

variable {s : Service} {l : Session}

/-- The latest snapshot of the selected mailbox is current. -/
theorem Ok.latest_current (h : l.Ok s)
    (hcur : ∀ key snap, s.latest key = some snap → snap.Current s.store key) {sel : Selected}
    (hsel : l.selected = some sel) {latest : Snapshot} (hlatest : l.latest s sel = some latest) :
    ∃ inboxId, l.inboxId = some inboxId ∧ sel.Ok s.store inboxId ∧
      latest.Current s.store (inboxId, sel.name) := by
  obtain ⟨inboxId, mdef, hid, hdef, hname, hok⟩ := h.view sel hsel
  refine ⟨inboxId, hid, hok, ?_⟩
  rw [Session.latest, hid, hdef] at hlatest
  exact hname ▸ hcur _ _ hlatest

/-- The UIDs of a current snapshot that the view lacks are above those it keeps. -/
theorem above_view {latest : Snapshot} {key : Key} (hcur : latest.Current s.store key)
    {sel : Selected} (hok : sel.Ok s.store key.1) (hname : sel.name = key.2) :
    ∀ u ∈ latest.uids, u ∈ sel.uids ∨ ∀ v ∈ sel.uids, v < u := by
  intro u hu
  obtain ⟨k, hk⟩ := hcur.live u hu
  exact hok.rest k u (hname ▸ hk)

theorem flushPending_ok (h : l.Ok s)
    (hcur : ∀ key snap, s.latest key = some snap → snap.Current s.store key) :
    (l.flushPending s).Ok s ∧ ∃ uids, Edits uids l (l.flushPending s) ∧
      ∀ inboxId sel, l.inboxId = some inboxId → l.selected = some sel →
        ∀ u ∈ uids, u < s.store.nextUid inboxId sel.name := by
  rw [flushPending]
  cases hsel : l.selected with
  | none => exact ⟨h, [], .refl _ _, nofun⟩
  | some sel =>
    simp only
    cases hlatest : l.latest s sel with
    | none => exact ⟨h, [], .refl _ _, nofun⟩
    | some latest =>
      obtain ⟨inboxId, hid, hok, hcur⟩ := h.latest_current hcur hsel hlatest
      have hlid : latest.inboxId = inboxId := congrArg Prod.fst hcur.key_eq
      have hlname : latest.name = sel.name := congrArg Prod.snd hcur.key_eq
      have hlatestNext : ∀ u ∈ latest.uids, u < s.store.nextUid inboxId sel.name := fun u hu => by
        rw [← hlid, ← hlname]
        exact Nat.lt_of_lt_of_le (hcur.valid.below u hu) hcur.valid.reached
      simp only
      obtain ⟨he₁, sel₁, hsel₁, hname₁, hro₁, huids₁, htold₁⟩ :=
        flushVanished_spec latest.uids latest.uids sel.uids.length hsel (Nat.le_refl _)
      rw [List.take_length, List.drop_length, List.append_nil] at huids₁
      set l₁ := flushVanished latest.uids sel.uids.length l
      have hsub : ∀ u ∈ sel₁.uids, u ∈ sel.uids ∧ u ∈ latest.uids := by
        intro u hu
        rw [huids₁] at hu
        simpa using List.mem_filter.mp hu
      have hasc₁ : sel₁.uids.Pairwise (· < ·) := huids₁ ▸ hok.ascending.filter _
      have habove : ∀ u ∈ latest.uids, u ∈ sel₁.uids ∨ ∀ v ∈ sel₁.uids, v < u := by
        intro u hu
        rcases above_view hcur hok rfl u hu with hin | hlt
        · rw [huids₁]
          exact .inl (List.mem_filter.mpr ⟨hin, by simpa using hu⟩)
        · exact .inr fun v hv => hlt v (hsub v hv).1
      obtain ⟨he₂, sel₂, hsel₂, hname₂, hro₂, huids₂, hasc₂, htold₂⟩ :=
        flushArrived_spec latest.uids hsel₁ hasc₁ hcur.valid.ascending habove
      set l₂ := flushArrived latest.uids l₁
      have hmem₂ : ∀ u, u ∈ sel₂.uids ↔ u ∈ latest.uids := by
        intro u
        rw [huids₂, List.mem_append, List.mem_filter]
        constructor
        · rintro (hu | hu)
          · exact (hsub u hu).2
          · exact hu.1
        · intro hu
          by_cases hin : u ∈ sel₁.uids
          · exact .inl hin
          · exact .inr ⟨hu, by simpa using hin⟩
      rw [hsel₂]
      simp only
      let sel₃ : Selected := { sel₂ with
        seqOf := seqTable sel₂.uids, viewVersion := latest.version }
      obtain ⟨he₄, sel₄, hsel₄, hname₄, hro₄, huids₄, hseq₄, hclient₄⟩ :=
        flushFlags_spec latest ((l₂.setSelected sel₃).deletedUids s sel₃.name) (sel₂.uids.zipIdx 1)
          (show (l₂.setSelected sel₃).selected = some sel₃ from rfl)
      have he₃ : Edits latest.uids l₂ (l₂.setSelected sel₃) := by
        refine ⟨rfl, rfl, rfl, rfl, fun sel₀ h₀ => ⟨sel₃, rfl, ?_⟩, [], rfl, nofun⟩
        rw [hsel₂] at h₀
        cases h₀
        exact ⟨rfl, rfl⟩
      have hedits := ((he₁.trans he₂).trans he₃).trans he₄
      have hname : sel₄.name = sel.name := hname₄.trans (hname₂.trans hname₁)
      have huids : sel₄.uids = sel₂.uids := huids₄
      refine ⟨⟨fun hst => ?_, fun sel₀ h₀ => ?_, fun sel₀ h₀ => ?_⟩, latest.uids, hedits,
        fun i sel₀ hi h₀ u hu => ?_⟩
      · rw [hedits.state] at hst
        have := h.fresh hst
        rw [hsel] at this
        cases this
      · rw [hsel₄] at h₀
        cases h₀
        obtain ⟨inboxId', mdef, hid', hdef, hdname, _⟩ := h.view sel hsel
        rw [hid] at hid'
        cases hid'
        refine ⟨inboxId, mdef, hedits.inboxId.trans hid, hname ▸ hdef, hname ▸ hdname, ?_, ?_, ?_, ?_⟩
        · rw [huids]
          exact hasc₂
        · intro u hu
          rw [hname]
          exact hlatestNext u ((hmem₂ u).mp (huids ▸ hu))
        · intro k u hu
          rw [hname] at hu
          rw [huids]
          rcases hcur.valid.rest k u (by rw [hlid, hlname]; exact hu) with hin | hle
          · exact .inl ((hmem₂ u).mpr hin)
          · exact .inr fun v hv => Nat.lt_of_lt_of_le
              (hcur.valid.below v ((hmem₂ v).mp hv)) hle
        · rw [hseq₄, huids]
      · rw [hsel₄] at h₀
        cases h₀
        rcases htold₂ (htold₁ (h.told sel hsel)) with hc | hs
        · exact .inl (by rw [hclient₄, huids]; exact hc)
        · exact .inr ((he₃.trans he₄).slipped hs)
      · rw [hid] at hi
        cases hi
        cases h₀
        exact hlatestNext u hu

/-- The silent update of CLOSE keeps the view in order. -/
theorem dropVanished_ok {errors : Nat} (h : l.Ok s) (herrors : errors ≠ 0)
    (hcur : ∀ key snap, s.latest key = some snap → snap.Current s.store key) :
    (l.dropVanished s errors).Ok s := by
  rw [dropVanished]
  cases hsel : l.selected with
  | none => exact h
  | some sel =>
    simp only
    cases hlatest : l.latest s sel with
    | none => exact h
    | some latest =>
      obtain ⟨inboxId, hid, hok, hcur⟩ := h.latest_current hcur hsel hlatest
      obtain ⟨inboxId', mdef, hid', hdef, hname, _⟩ := h.view sel hsel
      have hlid : latest.inboxId = inboxId := congrArg Prod.fst hcur.key_eq
      have hlname : latest.name = sel.name := congrArg Prod.snd hcur.key_eq
      have hsub : ∀ u ∈ sel.uids.filter (fun uid => (latest.byUid uid).isSome),
          u ∈ sel.uids ∧ u ∈ latest.uids := fun u hu =>
        ⟨(List.mem_filter.mp hu).1, Snapshot.byUid_isSome.mp (List.mem_filter.mp hu).2⟩
      refine ⟨fun hst => ?_, fun sel' h' => ?_, fun sel' h' => ?_⟩
      · have := h.fresh hst
        rw [hsel] at this
        cases this
      · cases h'
        refine ⟨inboxId, mdef, hid, hdef, hname, hok.ascending.filter _, fun u hu => ?_,
          fun k u hu => ?_, rfl⟩
        · exact hok.below u (hsub u hu).1
        · rcases hok.rest k u hu with hin | hlt
          · rcases hcur.valid.rest k u (by rw [hlid, hlname]; exact hu) with hl | hle
            · exact .inl (List.mem_filter.mpr ⟨hin, Snapshot.byUid_isSome.mpr hl⟩)
            · exact .inr fun v hv => Nat.lt_of_lt_of_le (hcur.valid.below v (hsub v hv).2) hle
          · exact .inr fun v hv => hlt v (hsub v hv).1
      · cases h'
        rcases h.told sel hsel with hc | hs
        · cases hgone : sel.uids.filter fun uid => (latest.byUid uid).isNone with
          | nil =>
            have hall : sel.uids.filter (fun uid => (latest.byUid uid).isSome) = sel.uids := by
              refine List.filter_eq_self.mpr fun u hu => ?_
              have := List.filter_eq_nil_iff.mp hgone u hu
              simpa [Option.isSome_iff_ne_none] using this
            refine .inl ?_
            show clientView (.dropped errors _ :: l.log) = .viewing _
            rw [hall, clientView_cons, hc]
            rfl
          | cons u us =>
            obtain ⟨n, rfl⟩ := Nat.exists_eq_succ_of_ne_zero herrors
            refine .inr ⟨n, u, us, ?_⟩
            show _ ∈ Note.dropped (n + 1) _ :: l.log
            rw [hgone]
            exact List.mem_cons_self ..
        · exact .inr (hs.mono fun n hn => List.mem_cons_of_mem _ hn)

/-- A snapshot of the mailbox becomes the view, and the client waits for its size. -/
theorem applySnapshot_view (l : Session) {snap : Snapshot} (readOnly : Bool) {inboxId : String}
    {mdef : MailboxDef} (hkey : snap.key = (inboxId, mdef.name)) (hvalid : snap.Valid s.store) :
    ∃ sel, (l.applySnapshot s snap readOnly).selected = some sel ∧ sel.name = mdef.name ∧
      sel.readOnly = readOnly ∧ sel.uids = snap.uids ∧ sel.Ok s.store inboxId := by
  have hsid : snap.inboxId = inboxId := congrArg Prod.fst hkey
  have hsname : snap.name = mdef.name := congrArg Prod.snd hkey
  refine ⟨_, rfl, hsname, rfl, rfl, hvalid.ascending, fun u hu => ?_, fun k u hu => ?_, rfl⟩
  · rw [← hsid]
    exact Nat.lt_of_lt_of_le (hvalid.below u hu) hvalid.reached
  · rw [← hsid] at hu
    exact (hvalid.rest k u hu).imp_right fun hle v hv =>
      Nat.lt_of_lt_of_le (hvalid.below v hv) hle

end Session

end Imap
end ImapGateway
