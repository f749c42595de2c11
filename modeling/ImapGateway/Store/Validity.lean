/-
UIDVALIDITY across the generations of a store.

The values come from the clock and from the watermark in the sidecar file, which
outlives the tables.  A life of the store is any sequence of operations, each
failing at any of its statements, of closings and openings, and of losses of the
database file.  A crash is an operation that fails at the statement it was about
to run, followed by an opening: nothing it did since has reached the disk.

What carries the proof is that the watermark bounds every value ever committed.
It is written before the row is committed, so no crash can come between them.
-/
import ImapGateway.Store.Permanence

namespace ImapGateway
namespace Store

variable {α β : Type} {i n : String} {d d' : Db}

def Db.validityOf (d : Db) (inboxId name : String) : Option Nat :=
  (d.selectMailbox inboxId name).map (·.1)

/-- The value a row created now gets. -/
def Machine.fresh (m : Machine) : Nat :=
  min (max 1 (max m.clock.toNat (m.watermark + 1))) maxUidvalidity

/-- What an operation on the mailbox `name` of `inboxId` does to the watermark `w`
and to the values in the tables: nothing, or it issues the value `fresh`, which
reaches the tables or is lost with the transaction. -/
inductive Issues (i n : String) (fresh w : Nat) (d : Db) (w' : Nat) (d' : Db) : Prop
  | none (hw : w' = w) (hd : ∀ j k, d'.validityOf j k = d.validityOf j k)
  | lost (hnew : d.validityOf i n = none) (hw : w' = fresh)
      (hd : ∀ j k, d'.validityOf j k = d.validityOf j k)
  | committed (hnew : d.validityOf i n = none) (hw : w' = fresh)
      (hd : ∀ j k, d'.validityOf j k =
        if j = i ∧ k = n then some fresh else d.validityOf j k)

/-- What is rolled back is lost. -/
theorem Issues.rollback {fresh w w' : Nat} (h : Issues i n fresh w d w' d') :
    Issues i n fresh w d w' d := by
  cases h with
  | none hw _ => exact .none hw fun _ _ => rfl
  | lost hnew hw _ => exact .lost hnew hw fun _ _ => rfl
  | committed hnew hw _ => exact .lost hnew hw fun _ _ => rfl

/-! ## Statements that leave the values alone -/

/-- Inside a transaction, `x` touches neither the sidecar file nor a value. -/
def Steady (x : Sql α) : Prop := ∀ (m : Machine) (d : Db), m.tx = some d →
  (x m).2.watermark = m.watermark ∧ (x m).2.db = m.db ∧
    ∃ d', (x m).2.tx = some d' ∧ ∀ j k, d'.validityOf j k = d.validityOf j k

namespace Steady

theorem pure (a : α) : Steady (Pure.pure a : Sql α) :=
  fun _ d hm => ⟨rfl, rfl, d, hm, fun _ _ => rfl⟩

theorem bind {x : Sql α} {f : α → Sql β} (hx : Steady x) (hf : ∀ a, Steady (f a)) :
    Steady (x >>= f) := by
  intro m d hm
  obtain ⟨hw, hdb, d', htx, hd⟩ := hx m d hm
  rw [Sql.bind_run]
  rcases hrun : x m with ⟨e | a, m'⟩
  · rw [hrun] at hw hdb htx
    exact ⟨hw, hdb, d', htx, hd⟩
  · rw [hrun] at hw hdb htx
    obtain ⟨hw', hdb', d'', htx', hd'⟩ := hf a m' d' htx
    refine ⟨hw'.trans hw, hdb'.trans hdb, d'', htx', fun j k => ?_⟩
    rw [hd', hd]

theorem get : Steady (MonadState.get : Sql Machine) :=
  fun _ d hm => ⟨rfl, rfl, d, hm, fun _ _ => rfl⟩

theorem query (f : Db → α) : Steady (Sql.query f) := by
  intro m d hm
  rw [Sql.query, Sql.statementOf]
  split <;> exact ⟨rfl, rfl, d, hm, fun _ _ => rfl⟩

theorem statement {f : Db → Except SqlError Db}
    (hf : ∀ d d', f d = .ok d' → ∀ j k, d'.validityOf j k = d.validityOf j k) :
    Steady (Sql.statement f) := by
  intro m d hm
  rw [Sql.statement, Sql.statementOf]
  by_cases hfault : m.faults.headD false = true
  · rw [if_pos hfault]
    exact ⟨rfl, rfl, d, hm, fun _ _ => rfl⟩
  · rw [if_neg hfault]
    simp only [hm]
    cases hrun : f d with
    | error e => exact ⟨rfl, rfl, d, rfl, fun _ _ => rfl⟩
    | ok d' => exact ⟨rfl, rfl, d', rfl, hf d d' hrun⟩

theorem insertUid (r : UidRow) : Steady (Sql.statement fun d => d.insertUid r) := by
  refine statement fun d d' h j k => ?_
  unfold Db.insertUid at h
  split at h
  · cases h
  split at h
  · cases h
  split at h
  · cases h
  cases h
  rfl

theorem setNextUid (inboxId name : String) (u : Nat) :
    Steady (Sql.statement fun d => .ok (d.setNextUid inboxId name u)) := by
  refine statement fun d d' h j k => ?_
  cases h
  rw [Db.validityOf, Db.selectMailbox_setNextUid]
  split
  · rw [Option.map_map]
    rfl
  · rfl

theorem allocate (inboxId name now : String) (keys : List (String × String))
    (live : List (String × Nat)) (nextUid : Nat) :
    Steady (Store.allocate inboxId name now keys live nextUid) := by
  induction keys generalizing live nextUid with
  | nil => exact pure _
  | cons key keys ih =>
    obtain ⟨remoteKey, remoteId⟩ := key
    unfold Store.allocate
    split
    · exact ih live nextUid
    · exact (insertUid _).bind fun _ => ih _ _

theorem eachRow {f : α → Db → Db} (hf : ∀ x d j k, (f x d).validityOf j k = d.validityOf j k)
    (xs : List α) : Steady (Sql.eachRow (fun x d => .ok (f x d)) xs) := by
  induction xs with
  | nil => exact pure ()
  | cons x xs ih =>
    refine (statement fun d d' h j k => ?_).bind fun _ => ih
    cases h
    exact hf x d j k

/-- What `ensure_uids` does once the mailbox has its row. -/
theorem ensureUids_rest (inboxId name : String) (keys : List (String × String))
    (row : Nat × Nat) : Steady (do
      let live ← Sql.query fun d => d.liveMap inboxId name
      let now := (← MonadState.get).now
      let (live', nextUid') ← Store.allocate inboxId name now keys live row.2
      if nextUid' ≠ row.2 then
        Sql.statement fun d => .ok (d.setNextUid inboxId name nextUid')
      return live') := by
  refine (query _).bind fun live => get.bind fun m => (allocate _ _ _ _ _ _).bind fun r => ?_
  dsimp only
  split
  · exact (setNextUid inboxId name r.2).bind fun _ => pure r.1
  · exact pure r.1

end Steady

/-! ## The row of a mailbox -/

/-- The statement after `k` others does not fail. -/
def Works (faults : List Bool) (k : Nat) : Prop := (faults.drop k).headD false = false

instance (faults : List Bool) (k : Nat) : Decidable (Works faults k) :=
  inferInstanceAs (Decidable (_ = _))

theorem Works.tail {faults : List Bool} {k : Nat} (h : Works faults (k + 1)) :
    Works faults.tail k := by
  unfold Works at h ⊢
  rwa [← List.drop_one, List.drop_drop, Nat.add_comm]

/-- With the sidecar file in working order, a new value is the next one, and is on
disk as the watermark. -/
theorem nextUidvalidity_run {m : Machine} (hr : Works m.faults 0) (hw : Works m.faults 1) :
    nextUidvalidity m =
      (.ok m.fresh, { m with watermark := m.fresh, faults := m.faults.tail.tail }) := by
  have hread : m.faults.headD false = false := hr
  have hwrite : m.faults.tail.headD false = false := hw.tail
  show (_, _) = _
  simp only [hread, hwrite, Bool.false_eq_true, if_false]
  rfl

theorem ensureMailbox_issues {m : Machine} (hm : m.tx = some d)
    (hside : d.validityOf i n = none → Works m.faults 1 ∧ Works m.faults 2) :
    (ensureMailbox i n m).2.db = m.db ∧ ∃ d', (ensureMailbox i n m).2.tx = some d' ∧
      Issues i n m.fresh m.watermark d (ensureMailbox i n m).2.watermark d' := by
  obtain ⟨db, tx, w, clock, now, faults⟩ := m
  subst hm
  unfold ensureMailbox
  rw [Sql.bind_run, Sql.query, Sql.statementOf]
  by_cases hfault : faults.headD false = true
  · rw [if_pos hfault]
    exact ⟨rfl, d, rfl, .none rfl fun _ _ => rfl⟩
  rw [if_neg hfault]
  simp only [Option.getD_some]
  cases hrow : d.selectMailbox i n with
  | some row => exact ⟨rfl, d, rfl, .none rfl fun _ _ => rfl⟩
  | none =>
    have hnone : d.validityOf i n = none := by rw [Db.validityOf, hrow]; rfl
    obtain ⟨hr, hw⟩ := hside hnone
    have hnext := nextUidvalidity_run (m := ⟨db, some d, w, clock, now, faults.tail⟩) hr.tail hw.tail
    simp only [Sql.bind_run, hnext, Sql.statement, Sql.statementOf]
    by_cases hins : faults.tail.tail.tail.headD false = true
    · rw [if_pos hins]
      exact ⟨rfl, d, rfl, .lost hnone rfl fun _ _ => rfl⟩
    · rw [if_neg hins]
      have hadd : ∀ v, d.insertMailbox i n v = .ok (d.addMailbox i n v) := by
        intro v
        unfold Db.insertMailbox
        rw [if_neg]
        simpa using Db.mailbox_notIn hrow
      simp only [hadd]
      refine ⟨rfl, _, rfl, .committed hnone rfl fun j k => ?_⟩
      rw [Db.validityOf, Db.selectMailbox_addMailbox hrow]
      split <;> rfl

/-! ## Operations -/

theorem Steady.issues {x : Sql α} (h : Steady x) (i n : String) {m : Machine} (hm : m.tx = some d) :
    (x m).2.db = m.db ∧ ∃ d', (x m).2.tx = some d' ∧
      Issues i n m.fresh m.watermark d (x m).2.watermark d' := by
  obtain ⟨hw, hdb, d', htx, hd⟩ := h m d hm
  exact ⟨hdb, d', htx, .none hw hd⟩

theorem ensureMailbox_bind_issues {f : Nat × Nat → Sql α} (hf : ∀ row, Steady (f row))
    {m : Machine} (hm : m.tx = some d)
    (hside : d.validityOf i n = none → Works m.faults 1 ∧ Works m.faults 2) :
    ((ensureMailbox i n >>= f) m).2.db = m.db ∧
      ∃ d', ((ensureMailbox i n >>= f) m).2.tx = some d' ∧
        Issues i n m.fresh m.watermark d ((ensureMailbox i n >>= f) m).2.watermark d' := by
  obtain ⟨hdb, d', htx, hiss⟩ := ensureMailbox_issues hm hside
  rw [Sql.bind_run]
  rcases hrun : ensureMailbox i n m with ⟨e | row, m'⟩
  · rw [hrun] at hdb htx hiss
    exact ⟨hdb, d', htx, hiss⟩
  · rw [hrun] at hdb htx hiss
    obtain ⟨hw, hdb', d'', htx', hd⟩ := hf row m' d' htx
    refine ⟨hdb'.trans hdb, d'', htx', ?_⟩
    show Issues i n m.fresh m.watermark d (f row m').2.watermark d''
    rw [hw]
    cases hiss with
    | none hw' hd' => exact .none hw' fun j k => (hd j k).trans (hd' j k)
    | lost hnew hw' hd' => exact .lost hnew hw' fun j k => (hd j k).trans (hd' j k)
    | committed hnew hw' hd' => exact .committed hnew hw' fun j k => (hd j k).trans (hd' j k)

/-- A transaction issues what its body does, or loses it. -/
theorem transaction_issues {body : Sql α} {m : Machine} (hm : m.tx = none)
    (h : ∀ m₀ : Machine, m₀ = { m with tx := some m.db, faults := m.faults.tail } →
      (body m₀).2.db = m₀.db ∧ ∃ d', (body m₀).2.tx = some d' ∧
        Issues i n m₀.fresh m₀.watermark m.db (body m₀).2.watermark d') :
    Issues i n m.fresh m.watermark m.db (Sql.transaction body m).2.watermark
      (Sql.transaction body m).2.db := by
  unfold Sql.transaction
  rw [Sql.bind_run, Sql.beginImmediate, Sql.statementOf]
  by_cases hfault : m.faults.headD false = true
  · rw [if_pos hfault]
    exact .none rfl fun _ _ => rfl
  rw [if_neg hfault]
  simp only [hm]
  obtain ⟨hdb, d', htx, hiss⟩ := h ⟨m.db, some m.db, m.watermark, m.clock, m.now, m.faults.tail⟩ rfl
  unfold Sql.rollingBack
  simp only [Sql.bind_run]
  rcases hrun : body ⟨m.db, some m.db, m.watermark, m.clock, m.now, m.faults.tail⟩ with ⟨e | a, m'⟩
  · rw [hrun] at hdb hiss
    show Issues i n m.fresh m.watermark m.db m'.watermark m'.db
    rw [show m'.db = m.db from hdb]
    exact hiss.rollback
  · rw [hrun] at hdb htx hiss
    simp only [Sql.commit, Sql.statementOf, show m'.tx = some d' from htx]
    by_cases hcommit : m'.faults.headD false = true
    · rw [if_pos hcommit]
      show Issues i n m.fresh m.watermark m.db m'.watermark m'.db
      rw [show m'.db = m.db from hdb]
      exact hiss.rollback
    · rw [if_neg hcommit]
      exact hiss

/-- The mailbox an operation is about. -/
def Op.mailbox : Op → String × String
  | ensureUids i n _ | tombstoneMissing i n _ | mailboxInfo i n | setDeleted i n _ _ => (i, n)

/-- The sidecar file can be read and written when the attempt creates a row. -/
def Attempt.SidecarWorks (a : Attempt) (d : Db) : Prop :=
  d.validityOf a.op.mailbox.1 a.op.mailbox.2 = none → Works a.faults 2 ∧ Works a.faults 3

instance (a : Attempt) (d : Db) : Decidable (a.SidecarWorks d) :=
  inferInstanceAs (Decidable (_ → _))

theorem map_run (f : α → β) (x : Sql α) (m : Machine) : ((f <$> x) m).2 = (x m).2 := by
  show ((x >>= fun a => Pure.pure (f a)) m).2 = _
  rw [Sql.bind_run]
  rcases x m with ⟨e | a, m'⟩ <;> rfl

theorem tombstoneMissing_issues {present : List String} {m : Machine} (hm : m.tx = none) :
    Issues i n m.fresh m.watermark m.db (tombstoneMissing i n present m).2.watermark
      (tombstoneMissing i n present m).2.db := by
  unfold tombstoneMissing
  rw [Sql.bind_run, Sql.query, Sql.statementOf]
  by_cases hfault : m.faults.headD false = true
  · rw [if_pos hfault]
    exact .none rfl fun _ _ => rfl
  rw [if_neg hfault]
  simp only [hm, Option.getD_none]
  split
  · exact .none rfl fun _ _ => rfl
  · rw [Sql.get_run]
    refine transaction_issues (m := ⟨m.db, none, m.watermark, m.clock, m.now, m.faults.tail⟩) rfl ?_
    intro m₀ hm₀
    have hvanish := Steady.eachRow (f := fun uid d => d.vanish i n uid m.now) (fun _ _ _ _ => rfl)
      (gone present (m.db.liveMap i n))
    have hdelete := Steady.eachRow (f := fun uid d => d.deleteMark i n uid) (fun _ _ _ _ => rfl)
      (gone present (m.db.liveMap i n))
    exact (hvanish.bind fun _ => hdelete.bind fun _ => Steady.pure _).issues i n (by rw [hm₀])

theorem setDeleted_issues {uids : List Nat} {value : Bool} {m : Machine} (hm : m.tx = none) :
    Issues i n m.fresh m.watermark m.db (setDeleted i n uids value m).2.watermark
      (setDeleted i n uids value m).2.db := by
  unfold setDeleted
  by_cases hnil : uids = []
  · rw [if_pos hnil]
    exact .none rfl fun _ _ => rfl
  rw [if_neg hnil, Sql.get_run]
  refine transaction_issues hm fun m₀ hm₀ => ?_
  cases value with
  | true =>
    have hbody := Steady.eachRow (f := fun uid d => d.insertMark ⟨i, n, uid, m.now⟩) (fun uid d j k => by
      unfold Db.insertMark
      split <;> rfl) uids
    exact hbody.issues i n (by rw [hm₀])
  | false =>
    have hbody := Steady.eachRow (f := fun uid d => d.deleteMark i n uid) (fun _ _ _ _ => rfl) uids
    exact hbody.issues i n (by rw [hm₀])

/-- An attempt issues at most one value, the next one for its own mailbox. -/
theorem Attempt.issues (a : Attempt) {m : Machine} (hm : m.tx = none)
    (hside : a.SidecarWorks m.db) :
    Issues a.op.mailbox.1 a.op.mailbox.2 { m with clock := a.clock }.fresh m.watermark m.db
      (a.run m).2.watermark (a.run m).2.db := by
  obtain ⟨op, clock, now, faults⟩ := a
  unfold Attempt.SidecarWorks at hside
  unfold Attempt.run
  cases op with
  | ensureUids i n keys =>
    rw [Op.perform, map_run]
    refine transaction_issues (m := ⟨m.db, m.tx, m.watermark, clock, now, faults⟩) hm fun m₀ hm₀ => ?_
    refine ensureMailbox_bind_issues (fun row => Steady.ensureUids_rest i n keys row) (by rw [hm₀]) ?_
    intro hnone
    obtain ⟨hr, hw⟩ := hside hnone
    rw [hm₀]
    exact ⟨hr.tail, hw.tail⟩
  | tombstoneMissing i n present =>
    rw [Op.perform, map_run]
    exact tombstoneMissing_issues (m := ⟨m.db, m.tx, m.watermark, clock, now, faults⟩) hm
  | mailboxInfo i n =>
    rw [Op.perform, map_run]
    refine transaction_issues (m := ⟨m.db, m.tx, m.watermark, clock, now, faults⟩) hm fun m₀ hm₀ => ?_
    refine ensureMailbox_issues (by rw [hm₀]) fun hnone => ?_
    obtain ⟨hr, hw⟩ := hside hnone
    rw [hm₀]
    exact ⟨hr.tail, hw.tail⟩
  | setDeleted i n uids value =>
    rw [Op.perform, map_run]
    exact setDeleted_issues (m := ⟨m.db, m.tx, m.watermark, clock, now, faults⟩) hm

/-! ## The life of a store -/

inductive Incident where
  | attempt (a : Attempt)
  /-- The store is closed, or the process dies, and it is opened again. -/
  | reopen
  /-- The database file is lost, or found corrupt and set aside. -/
  | lose
  deriving DecidableEq, Repr

def Incident.apply (m : Machine) : Incident → Machine
  | attempt a => (a.run m).2
  | reopen => { m with tx := none }
  | lose => { m with db := Db.empty, tx := none }

/-- The sidecar file works whenever an incident needs it. -/
def Incident.SidecarWorks (d : Db) : Incident → Prop
  | attempt a => a.SidecarWorks d
  | reopen | lose => True

instance (e : Incident) (d : Db) : Decidable (e.SidecarWorks d) := by
  cases e <;> unfold Incident.SidecarWorks <;> infer_instance

/-- A row that reached the disk. -/
structure Commit where
  inboxId : String
  name : String
  uidvalidity : Nat
  deriving DecidableEq, Repr

/-- The rows in `d'` of mailboxes without one in `d`. -/
def commits (d d' : Db) : List Commit :=
  (d'.mailbox.filter fun r => decide (d.validityOf r.inboxId r.name = none)).map fun r =>
    ⟨r.inboxId, r.name, r.uidvalidity⟩

/-- A store and every row it ever committed, newest first. -/
structure Chronicle where
  machine : Machine
  committed : List Commit

def Chronicle.add (c : Chronicle) (e : Incident) : Chronicle :=
  let m := e.apply c.machine
  ⟨m, commits c.machine.db m.db ++ c.committed⟩

def Chronicle.new : Chronicle := ⟨Machine.new, []⟩

def Chronicle.adds (c : Chronicle) (es : List Incident) : Chronicle := es.foldl Chronicle.add c

def Chronicle.SidecarWorks : Chronicle → List Incident → Prop
  | _, [] => True
  | c, e :: es => e.SidecarWorks c.machine.db ∧ (c.add e).SidecarWorks es

instance Chronicle.decidableSidecarWorks :
    (c : Chronicle) → (es : List Incident) → Decidable (c.SidecarWorks es)
  | _, [] => inferInstanceAs (Decidable True)
  | c, e :: es =>
    have := Chronicle.decidableSidecarWorks (c.add e) es
    inferInstanceAs (Decidable (_ ∧ _))

/-! ### The invariant -/

/-- The watermark bounds what was ever committed, and the committed values ascend
as long as they stay below the largest one there is. -/
structure Chronicle.Ok (c : Chronicle) : Prop where
  idle : c.machine.tx = none
  store : c.machine.db.Ok
  watermark : c.machine.watermark ≤ maxUidvalidity
  bounds : ∀ x ∈ c.committed, 1 ≤ x.uidvalidity ∧ x.uidvalidity ≤ c.machine.watermark
  ascending : c.committed.Pairwise fun x older =>
    x.uidvalidity < maxUidvalidity → older.uidvalidity < x.uidvalidity

theorem Chronicle.ok_new : Chronicle.new.Ok where
  idle := rfl
  store := Db.ok_empty
  watermark := Nat.zero_le _
  bounds := nofun
  ascending := List.Pairwise.nil

theorem validityOf_of_mem (h : d.Ok) {r : MailboxRow} (hr : r ∈ d.mailbox) :
    d.validityOf r.inboxId r.name = some r.uidvalidity := by
  have hfind : (d.mailbox.find? fun x => decide (x.In r.inboxId r.name)).isSome = true :=
    List.find?_isSome.mpr ⟨r, hr, decide_eq_true ⟨rfl, rfl⟩⟩
  obtain ⟨x, hx⟩ := Option.isSome_iff_exists.mp hfind
  have hmem := List.mem_of_find?_eq_some hx
  have hin : x.In r.inboxId r.name := by simpa using List.find?_some hx
  have heq : x = r := by
    rcases Db.eq_or_rel h.mailboxes hmem hr with he | hrel | hrel
    · exact he
    · exact absurd ⟨hin.1.symm, hin.2.symm⟩ hrel
    · exact absurd hin hrel
  rw [Db.validityOf, Db.selectMailbox, hx, heq]
  rfl

theorem mem_commits {x : Commit} : x ∈ commits d d' ↔ ∃ r ∈ d'.mailbox,
    d.validityOf r.inboxId r.name = none ∧ x = ⟨r.inboxId, r.name, r.uidvalidity⟩ := by
  unfold commits
  rw [List.mem_map]
  constructor
  · rintro ⟨r, hr, rfl⟩
    rw [List.mem_filter, decide_eq_true_eq] at hr
    exact ⟨r, hr.1, hr.2, rfl⟩
  · rintro ⟨r, hr, hnone, rfl⟩
    exact ⟨r, List.mem_filter.mpr ⟨hr, decide_eq_true hnone⟩, rfl⟩

/-- A row of a mailbox is committed once. -/
theorem commits_eq_of_mem (h : d'.Ok) (hkey : ∀ x ∈ commits d d', x.inboxId = i ∧ x.name = n)
    {x : Commit} (hx : x ∈ commits d d') : commits d d' = [x] := by
  have hpair : (commits d d').Pairwise fun x y => ¬(y.inboxId = x.inboxId ∧ y.name = x.name) := by
    unfold commits
    rw [List.pairwise_map]
    exact h.mailboxes.sublist List.filter_sublist
  cases hc : commits d d' with
  | nil =>
    rw [hc] at hx
    cases hx
  | cons y ys =>
    cases ys with
    | nil =>
      rw [hc] at hx
      rw [List.mem_singleton.mp hx]
    | cons z zs =>
      rw [hc] at hpair hkey
      obtain ⟨hi, hn⟩ := hkey y (List.mem_cons_self ..)
      obtain ⟨hi', hn'⟩ := hkey z (List.mem_cons_of_mem _ (List.mem_cons_self ..))
      have hyz := (List.pairwise_cons.mp hpair).1 z (List.mem_cons_self ..)
      exact absurd ⟨hi'.trans hi.symm, hn'.trans hn.symm⟩ hyz

/-- What an operation commits is the value it issues, and that is the watermark. -/
theorem Issues.commits {fresh w w' : Nat} (h : Issues i n fresh w d w' d') (hok : d'.Ok) :
    (commits d d' = [] ∧ (w' = w ∨ w' = fresh)) ∨
      ∃ x, commits d d' = [x] ∧ x.uidvalidity = fresh ∧ w' = fresh := by
  have hsame : (∀ j k, d'.validityOf j k = d.validityOf j k) → Store.commits d d' = [] := by
    intro hd
    refine List.eq_nil_iff_forall_not_mem.mpr fun x hx => ?_
    obtain ⟨r, hr, hnone, _⟩ := mem_commits.mp hx
    rw [← hd, validityOf_of_mem hok hr] at hnone
    cases hnone
  cases h with
  | none hw hd => exact .inl ⟨hsame hd, .inl hw⟩
  | lost hnew hw hd => exact .inl ⟨hsame hd, .inr hw⟩
  | committed hnew hw hd =>
    have hrow : ∀ x ∈ Store.commits d d', (x.inboxId = i ∧ x.name = n) ∧ x.uidvalidity = fresh := by
      intro x hx
      obtain ⟨r, hr, hnone, rfl⟩ := mem_commits.mp hx
      have hval := validityOf_of_mem hok hr
      rw [hd] at hval
      split at hval
      · rename_i hkey
        exact ⟨hkey, (Option.some.inj hval).symm⟩
      · rw [hnone] at hval
        cases hval
    cases hc : Store.commits d d' with
    | nil => exact .inl ⟨rfl, .inr hw⟩
    | cons x xs =>
      have hx : x ∈ Store.commits d d' := by rw [hc]; exact List.mem_cons_self ..
      have hone := commits_eq_of_mem hok (fun y hy => (hrow y hy).1) hx
      exact .inr ⟨x, hc ▸ hone, (hrow x hx).2, hw⟩

/-- A value issued now is new, unless there is none left. -/
theorem Machine.fresh_bounds {m : Machine} (h : m.watermark ≤ maxUidvalidity) :
    1 ≤ m.fresh ∧ m.fresh ≤ maxUidvalidity ∧ m.watermark ≤ m.fresh ∧
      (m.fresh < maxUidvalidity → m.watermark < m.fresh) := by
  have hmax : maxUidvalidity = 4294967295 := rfl
  unfold Machine.fresh
  omega

theorem Chronicle.Ok.attempt {c : Chronicle} (h : c.Ok) {a : Attempt}
    (hside : a.SidecarWorks c.machine.db) : (c.add (.attempt a)).Ok := by
  have hidle := (a.run_cases h.idle).1
  have hstore : (a.run c.machine).2.db.Ok := ((Step.attempt a).apply_lasting h.idle h.store).2.1
  have hissue := (a.issues h.idle hside).commits hstore
  obtain ⟨hpos, hmax, hmono, hnew⟩ :=
    Machine.fresh_bounds (m := { c.machine with clock := a.clock }) h.watermark
  have hadd : c.add (.attempt a) =
      ⟨(a.run c.machine).2, commits c.machine.db (a.run c.machine).2.db ++ c.committed⟩ := rfl
  rw [hadd]
  generalize (a.run c.machine).2 = m' at hidle hstore hissue
  generalize { c.machine with clock := a.clock }.fresh = fresh at hissue hpos hmax hmono hnew
  rcases hissue with ⟨hnil, hw⟩ | ⟨x, hone, hx, hw⟩
  · have hle : c.machine.watermark ≤ m'.watermark ∧ m'.watermark ≤ maxUidvalidity := by
      have := h.watermark
      rcases hw with hw | hw <;> rw [hw] <;> exact ⟨by omega, by omega⟩
    rw [hnil]
    refine ⟨hidle, hstore, hle.2, fun x hx => ?_, h.ascending⟩
    obtain ⟨hone, hx⟩ := h.bounds x hx
    exact ⟨hone, hx.trans hle.1⟩
  · rw [hone]
    refine ⟨hidle, hstore, hw ▸ hmax, fun y hy => ?_, ?_⟩
    · rcases List.mem_cons.mp hy with rfl | hy
      · show 1 ≤ y.uidvalidity ∧ y.uidvalidity ≤ m'.watermark
        omega
      · have hbound := h.bounds y hy
        show 1 ≤ y.uidvalidity ∧ y.uidvalidity ≤ m'.watermark
        rw [hw]
        exact ⟨hbound.1, hbound.2.trans hmono⟩
    · refine List.Pairwise.cons (fun older holder hlt => ?_) h.ascending
      have hbound := (h.bounds older holder).2
      rw [hx] at hlt ⊢
      exact Nat.lt_of_le_of_lt hbound (hnew hlt)

/-- Losing the database commits nothing, and neither does opening it. -/
theorem Chronicle.Ok.add {c : Chronicle} (h : c.Ok) {e : Incident}
    (hside : e.SidecarWorks c.machine.db) : (c.add e).Ok := by
  cases e with
  | attempt a => exact h.attempt hside
  | reopen =>
    have hnil : commits c.machine.db c.machine.db = [] := by
      refine List.eq_nil_iff_forall_not_mem.mpr fun x hx => ?_
      obtain ⟨r, hr, hnone, _⟩ := mem_commits.mp hx
      rw [validityOf_of_mem h.store hr] at hnone
      cases hnone
    have hadd : c.add .reopen =
        ⟨{ c.machine with tx := none }, commits c.machine.db c.machine.db ++ c.committed⟩ := rfl
    rw [hadd, hnil]
    exact ⟨rfl, h.store, h.watermark, h.bounds, h.ascending⟩
  | lose => exact ⟨rfl, Db.ok_empty, h.watermark, h.bounds, h.ascending⟩

theorem Chronicle.Ok.adds {c : Chronicle} (h : c.Ok) {es : List Incident}
    (hside : c.SidecarWorks es) : (c.adds es).Ok := by
  induction es generalizing c with
  | nil => exact h
  | cons e es ih => exact ih (h.add hside.1) hside.2

/-- As long as the database file is there, its rows keep their UIDVALIDITY. -/
theorem Chronicle.Ok.rows_kept {c : Chronicle} (h : c.Ok) {e : Incident} (he : e ≠ .lose)
    {v : Nat} (hv : c.machine.db.validityOf i n = some v) :
    (c.add e).machine.db.validityOf i n = some v := by
  cases e with
  | attempt a =>
    obtain ⟨row, hrow, rfl⟩ := Option.map_eq_some_iff.mp hv
    have hlast := ((Step.attempt a).apply_lasting h.idle h.store).2.2
    obtain ⟨u', hu', _⟩ := hlast.counters i n row.1 row.2 hrow
    show ((a.run c.machine).2.db.selectMailbox i n).map (·.1) = some row.1
    rw [show (a.run c.machine).2.db.selectMailbox i n = some (row.1, u') from hu']
    rfl
  | reopen => exact hv
  | lose => exact absurd rfl he

/-- UIDVALIDITY strictly increases: through any life of a store whose sidecar file
works, every value committed to a row fits in 32 bits, is at least 1, and as long
as it is not the largest one is greater than every value committed before it; and
a row that is there keeps its value. -/
theorem uidvalidity_increases (es : List Incident) (hside : Chronicle.new.SidecarWorks es) :
    let c := Chronicle.new.adds es
    (∀ x ∈ c.committed, 1 ≤ x.uidvalidity ∧ x.uidvalidity < 2 ^ 32) ∧
    (c.committed.Pairwise fun x older =>
      x.uidvalidity < 2 ^ 32 - 1 → older.uidvalidity < x.uidvalidity) ∧
    ∀ e, e ≠ .lose → ∀ i n v, c.machine.db.validityOf i n = some v →
      (c.add e).machine.db.validityOf i n = some v := by
  intro c
  have h : c.Ok := Chronicle.ok_new.adds hside
  refine ⟨fun x hx => ?_, h.ascending, fun e he i n v hv => h.rows_kept he hv⟩
  obtain ⟨hone, hle⟩ := h.bounds x hx
  have hw := h.watermark
  have hmax : maxUidvalidity = 4294967295 := rfl
  exact ⟨hone, by omega⟩

/-- A clock that goes back, a crash between the sidecar file and the commit, a lost
database. -/
def eventful : List Incident :=
  [.attempt ⟨.mailboxInfo "a@x" "INBOX", 100, "t", []⟩,
   .attempt ⟨.mailboxInfo "a@x" "Drafts", 50, "t", [false, false, false, false, false, true]⟩,
   .reopen, .lose, .attempt ⟨.mailboxInfo "a@x" "INBOX", 7, "t", []⟩]

theorem uidvalidity_increases_eventful :
    Chronicle.new.SidecarWorks eventful ∧
    (Chronicle.new.adds eventful).committed = [⟨"a@x", "INBOX", 102⟩, ⟨"a@x", "INBOX", 100⟩] ∧
    (Chronicle.new.adds eventful).committed.Pairwise fun x older =>
      x.uidvalidity < 2 ^ 32 - 1 → older.uidvalidity < x.uidvalidity := by
  have hside : Chronicle.new.SidecarWorks eventful := by decide
  exact ⟨hside, by decide, (uidvalidity_increases eventful hside).2.1⟩

end Store
end ImapGateway
