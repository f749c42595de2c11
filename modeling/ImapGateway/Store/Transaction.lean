/-
What the store operations do to the tables.

`Within x R` says of statements run inside a transaction that they leave the
tables on disk alone and, when none of them fails, take the transaction's view
from `d` to a view `R` allows.  `Outcome` says the same of a whole operation as
seen on disk: it computes what `R` allows, or it fails and changes nothing.
-/
import ImapGateway.Store.UidStore

namespace ImapGateway
namespace Store

variable {α β : Type}

/-- A sequence stops at the first part that fails. -/
theorem Sql.bind_run (x : Sql α) (k : α → Sql β) (m : Machine) :
    (x >>= k) m = match x m with
      | (.ok a, m') => k a m'
      | (.error e, m') => (.error e, m') := by
  show ExceptT.bindCont k (x m).1 (x m).2 = _
  rcases x m with ⟨a | e, m'⟩ <;> rfl

theorem Sql.get_run (k : Machine → Sql α) (m : Machine) : (MonadState.get >>= k) m = k m m := rfl

def Within (x : Sql α) (R : Db → α → Db → Prop) : Prop :=
  ∀ (m : Machine) (d : Db), m.tx = some d → ∃ (r : Except SqlError α) (m' : Machine),
    x m = (r, m') ∧ m'.db = m.db ∧ ∃ d', m'.tx = some d' ∧ ∀ a, r = .ok a → R d a d'

/-- Outside a transaction, `x` ends outside of one, with tables `R` allows when
it returns and with the tables it found when it fails. -/
def Outcome (x : Sql α) (R : Db → α → Db → Prop) : Prop :=
  ∀ m : Machine, m.tx = none → ∃ (r : Except SqlError α) (m' : Machine),
    x m = (r, m') ∧ m'.tx = none ∧
      (∀ a, r = .ok a → R m.db a m'.db) ∧ ∀ e, r = .error e → m'.db = m.db

namespace Within

variable {R R' : Db → α → Db → Prop}

theorem mono {x : Sql α} (h : Within x R) (hR : ∀ d a d', R d a d' → R' d a d') : Within x R' := by
  intro m d hm
  obtain ⟨r, m', hx, hdb, d', htx, hr⟩ := h m d hm
  exact ⟨r, m', hx, hdb, d', htx, fun a ha => hR d a d' (hr a ha)⟩

theorem pure (a : α) : Within (Pure.pure a : Sql α) fun d b d' => b = a ∧ d' = d := by
  intro m d hm
  exact ⟨.ok a, m, rfl, rfl, d, hm, fun b hb => by cases hb; exact ⟨rfl, rfl⟩⟩

theorem bind {x : Sql α} {f : α → Sql β} {T : α → Db → β → Db → Prop} (hx : Within x R)
    (hf : ∀ a, Within (f a) (T a)) :
    Within (x >>= f) fun d b d'' => ∃ a d', R d a d' ∧ T a d' b d'' := by
  intro m d hm
  obtain ⟨r, m', hrun, hdb, d', htx, hr⟩ := hx m d hm
  cases r with
  | error e =>
    refine ⟨.error e, m', ?_, hdb, d', htx, fun b hb => by cases hb⟩
    rw [Sql.bind_run, hrun]
  | ok a =>
    obtain ⟨r', m'', hrun', hdb', d'', htx', hr'⟩ := hf a m' d' htx
    refine ⟨r', m'', ?_, hdb'.trans hdb, d'', htx', fun b hb => ⟨a, d', hr a rfl, hr' b hb⟩⟩
    rw [Sql.bind_run, hrun]
    exact hrun'

/-- A statement leaves the tables on disk alone when what it does to the
machine leaves them alone. -/
theorem statementOf {f : Machine → Except SqlError (α × Machine)}
    (hf : ∀ m d a m', m.tx = some d → f m = .ok (a, m') →
      m'.db = m.db ∧ ∃ d', m'.tx = some d' ∧ R d a d') :
    Within (Sql.statementOf f) R := by
  intro m d hm
  let m₀ : Machine := { m with faults := m.faults.tail }
  by_cases hfault : m.faults.headD false = true
  · refine ⟨.error .operational, m₀, ?_, rfl, d, hm, fun a ha => by cases ha⟩
    simp only [Sql.statementOf, hfault, if_true, m₀]
  · cases hrun : f m₀ with
    | error e =>
      refine ⟨.error e, m₀, ?_, rfl, d, hm, fun a ha => by cases ha⟩
      simp only [Sql.statementOf, hfault, m₀] at hrun ⊢
      simp [hrun]
    | ok r =>
      obtain ⟨hdb, d', htx, hR⟩ := hf m₀ d r.1 r.2 hm hrun
      refine ⟨.ok r.1, r.2, ?_, hdb, d', htx, fun a ha => by cases ha; exact hR⟩
      simp only [Sql.statementOf, hfault, m₀] at hrun ⊢
      simp [hrun]

theorem statement {f : Db → Except SqlError Db} :
    Within (Sql.statement f) fun d _ d' => f d = .ok d' := by
  refine statementOf fun m d a m' hm hrun => ?_
  simp only [hm] at hrun
  cases hf : f d with
  | error e => rw [hf] at hrun; cases hrun
  | ok d' => rw [hf] at hrun; cases hrun; exact ⟨rfl, d', rfl, rfl⟩

theorem query {f : Db → α} : Within (Sql.query f) fun d a d' => a = f d ∧ d' = d := by
  refine statementOf fun m d a m' hm hrun => ?_
  cases hrun
  exact ⟨rfl, d, hm, by rw [hm]; rfl, rfl⟩

theorem get : Within (MonadState.get : Sql Machine) fun d _ d' => d' = d := by
  intro m d hm
  exact ⟨.ok m, m, rfl, rfl, d, hm, fun _ _ => rfl⟩

theorem readWatermark : Within Store.readWatermark fun d _ d' => d' = d := by
  intro m d hm
  exact ⟨_, _, rfl, rfl, d, hm, fun _ _ => rfl⟩

theorem writeWatermark (value : Nat) : Within (Store.writeWatermark value) fun d _ d' => d' = d := by
  intro m d hm
  exact ⟨_, _, rfl, rfl, d, hm, fun _ _ => rfl⟩

theorem nextUidvalidity : Within Store.nextUidvalidity fun d _ d' => d' = d := by
  refine (get.bind fun m => readWatermark.bind fun w => (writeWatermark _).bind fun _ =>
    pure _).mono ?_
  rintro d a d' ⟨_, _, rfl, _, _, rfl, _, _, rfl, _, rfl⟩
  rfl

/-- The statements of an `executemany`, one after the other. -/
theorem eachRow {f : β → Db → Db} (xs : List β) :
    Within (Sql.eachRow (fun x d => .ok (f x d)) xs) fun d _ d' => d' = xs.foldl (fun d x => f x d) d := by
  induction xs with
  | nil => exact (pure ()).mono fun d _ d' h => h.2
  | cons x xs ih =>
    refine (statement.bind fun _ => ih).mono ?_
    rintro d _ d' ⟨_, d₁, h, h'⟩
    cases h
    exact h'

/-- The row is there afterwards, made now with some UIDVALIDITY or found. -/
theorem ensureMailbox (inboxId name : String) :
    Within (Store.ensureMailbox inboxId name) fun d row d' =>
      ∃ uidvalidity, (d', row) = d.ensureMailbox uidvalidity inboxId name := by
  refine (query.bind (T := fun found d row d' => found = d.selectMailbox inboxId name →
    ∃ uidvalidity, (d', row) = d.ensureMailbox uidvalidity inboxId name) fun found => ?_).mono ?_
  · cases found with
    | some row =>
      refine (pure row).mono fun d a d' ⟨ha, hd⟩ h => ⟨0, ?_⟩
      rw [Db.ensureMailbox, ← h, ha, hd]
    | none =>
      refine (nextUidvalidity.bind fun v => statement.bind fun _ => pure (v, 1)).mono ?_
      rintro d a d' ⟨v, _, rfl, _, _, hins, rfl, rfl⟩ h
      refine ⟨v, ?_⟩
      rw [Db.ensureMailbox, ← h]
      simp only [Db.insertMailbox] at hins
      split at hins
      · cases hins
      · cases hins; rfl
  · rintro d row d' ⟨found, _, ⟨rfl, rfl⟩, h⟩
    exact h rfl

/-- The loop of `ensure_uids` computes `Db.allocate`. -/
theorem allocate (inboxId name now : String) (keys : List (String × String))
    (live : List (String × Nat)) (nextUid : Nat) :
    Within (Store.allocate inboxId name now keys live nextUid) fun d r d' =>
      (d', r) = d.allocate inboxId name now keys live nextUid := by
  induction keys generalizing live nextUid with
  | nil => exact (pure _).mono fun d a d' ⟨ha, hd⟩ => by rw [ha, hd]; rfl
  | cons key keys ih =>
    obtain ⟨remoteKey, remoteId⟩ := key
    simp only [Store.allocate, Db.allocate]
    split
    · exact ih live nextUid
    · refine (statement.bind fun _ => ih _ _).mono ?_
      rintro d a d' ⟨_, d₁, hins, h⟩
      simp only [Db.insertUid] at hins
      split at hins
      · cases hins
      split at hins
      · cases hins
      split at hins
      · cases hins
      cases hins
      exact h

end Within

namespace Outcome

variable {R R' : Db → α → Db → Prop}

theorem mono {x : Sql α} (h : Outcome x R) (hR : ∀ d a d', R d a d' → R' d a d') :
    Outcome x R' := by
  intro m hm
  obtain ⟨r, m', hx, htx, hok, herr⟩ := h m hm
  exact ⟨r, m', hx, htx, fun a ha => hR m.db a m'.db (hok a ha), herr⟩

theorem pure (a : α) : Outcome (Pure.pure a : Sql α) fun d b d' => b = a ∧ d' = d :=
  fun m hm => ⟨.ok a, m, rfl, hm, fun b hb => by cases hb; exact ⟨rfl, rfl⟩, fun _ he => by cases he⟩

/-- A query outside of a transaction reads the tables on disk. -/
theorem query_bind {f : Db → α} {k : α → Sql β} {T : α → Db → β → Db → Prop}
    (hk : ∀ a, Outcome (k a) (T a)) :
    Outcome (Sql.query f >>= k) fun d b d' => T (f d) d b d' := by
  intro m hm
  let m₀ : Machine := { m with faults := m.faults.tail }
  by_cases hfault : m.faults.headD false = true
  · refine ⟨.error .operational, m₀, ?_, hm, (fun a ha => by cases ha), fun _ _ => rfl⟩
    simp only [Sql.bind_run, Sql.query, Sql.statementOf, hfault, if_true, m₀]
  · obtain ⟨r, m', hrun, htx, hok, herr⟩ := hk (f m.db) m₀ hm
    refine ⟨r, m', ?_, htx, hok, herr⟩
    simp only [Sql.bind_run, Sql.query, Sql.statementOf, hfault, hm, m₀] at hrun ⊢
    exact hrun

theorem get_bind {R : Db → α → Db → Prop} {k : Machine → Sql α} (hk : ∀ m, Outcome (k m) R) :
    Outcome (MonadState.get >>= k) R :=
  fun m hm => hk m m hm

/-- A transaction does to the tables on disk what its statements do to its own
view, all of it or nothing. -/
theorem transaction {R : Db → α → Db → Prop} {body : Sql α} (h : Within body R) :
    Outcome (Sql.transaction body) R := by
  intro m hm
  by_cases hfault : m.faults.headD false = true
  · refine ⟨.error .operational, { m with faults := m.faults.tail }, ?_, hm,
      (fun a ha => by cases ha), fun _ _ => rfl⟩
    simp only [Sql.transaction, Sql.bind_run, Sql.beginImmediate, Sql.statementOf, hfault, if_true]
  let m₀ : Machine := { m with tx := some m.db, faults := m.faults.tail }
  have hbegin : Sql.beginImmediate m = (.ok (), m₀) := by
    simp only [Sql.beginImmediate, Sql.statementOf, hfault, hm]
    rfl
  obtain ⟨r, m₁, hrun, hdb, d', htx, hR⟩ := h m₀ m.db rfl
  cases r with
  | error e =>
    refine ⟨.error e, { m₁ with tx := none }, ?_, rfl, (fun a ha => by cases ha), fun _ _ => hdb⟩
    simp only [Sql.transaction, Sql.bind_run, Sql.rollingBack, hbegin, hrun]
  | ok a =>
    by_cases hcommit : m₁.faults.headD false = true
    · refine ⟨.error .operational, { m₁ with tx := none, faults := m₁.faults.tail }, ?_, rfl,
        (fun a ha => by cases ha), fun _ _ => hdb⟩
      simp only [Sql.transaction, Sql.bind_run, Sql.rollingBack, hbegin, hrun, Sql.commit,
        Sql.statementOf, hcommit, if_true]
    · refine ⟨.ok a, { m₁ with db := d', tx := none, faults := m₁.faults.tail }, ?_, rfl,
        (fun b hb => by cases hb; exact hR a rfl), fun _ he => by cases he⟩
      simp only [Sql.transaction, Sql.bind_run, Sql.rollingBack, hbegin, hrun, Sql.commit,
        Sql.statementOf, hcommit, htx]
      rfl

end Outcome

/-! ## The operations -/

theorem mailboxInfo_outcome (inboxId name : String) :
    Outcome (mailboxInfo inboxId name) fun d row d' =>
      ∃ uidvalidity, (d', row) = d.ensureMailbox uidvalidity inboxId name :=
  Outcome.transaction (Within.ensureMailbox inboxId name)

theorem ensureUids_outcome (inboxId name : String) (keys : List (String × String)) :
    Outcome (ensureUids inboxId name keys) fun d live d' =>
      ∃ uidvalidity now, (d', live) = d.ensureUids uidvalidity now inboxId name keys := by
  refine Outcome.transaction ?_
  refine ((Within.ensureMailbox inboxId name).bind fun row => Within.query.bind fun live =>
    Within.get.bind fun m => (Within.allocate inboxId name m.now keys live row.2).bind
      (T := fun r d a d' => (d', a) = (if r.2 ≠ row.2 then d.setNextUid inboxId name r.2 else d, r.1))
      fun r => ?_).mono ?_
  · obtain ⟨live', nextUid'⟩ := r
    dsimp only
    split
    · refine (Within.statement.bind fun _ => Within.pure live').mono ?_
      rintro d a d' ⟨_, _, h, rfl, rfl⟩
      cases h
      rfl
    · exact (Within.pure live').mono fun d a d' ⟨ha, hd⟩ => by rw [ha, hd]
  · rintro d live' d' ⟨row, d₁, ⟨v, h₁⟩, live, _, ⟨rfl, rfl⟩, m, _, rfl, r, d₂, h₂, h₃⟩
    refine ⟨v, m.now, ?_⟩
    rw [Db.ensureUids, ← h₁]
    simp only
    rw [← h₂]
    exact h₃

theorem tombstoneMissing_outcome (inboxId name : String) (present : List String) :
    Outcome (tombstoneMissing inboxId name present) fun d uids d' =>
      ∃ now, d' = d.tombstoneMissing now inboxId name present ∧
        uids = gone present (d.liveMap inboxId name) := by
  refine (Outcome.query_bind (T := fun live d uids d' => live = d.liveMap inboxId name →
    ∃ now, d' = d.tombstoneMissing now inboxId name present ∧
      uids = gone present (d.liveMap inboxId name)) fun live => ?_).mono
    fun d a d' h => h rfl
  dsimp only
  split
  · rename_i hgone
    refine (Outcome.pure []).mono ?_
    rintro d a d' ⟨rfl, rfl⟩ rfl
    exact ⟨"", by simp [Db.tombstoneMissing, Db.tombstone, hgone], hgone.symm⟩
  · refine Outcome.get_bind fun m => ?_
    refine (Outcome.transaction ((Within.eachRow _).bind fun _ => (Within.eachRow _).bind fun _ =>
      Within.pure _)).mono ?_
    rintro d a d' ⟨_, _, rfl, _, _, rfl, rfl, rfl⟩ rfl
    exact ⟨m.now, rfl, rfl⟩

theorem setDeleted_outcome (inboxId name : String) (uids : List Nat) (value : Bool) :
    Outcome (setDeleted inboxId name uids value) fun d _ d' =>
      ∃ now, d' = d.setDeleted now inboxId name uids value := by
  simp only [setDeleted]
  split
  · rename_i h
    refine (Outcome.pure ()).mono ?_
    rintro d a d' ⟨_, rfl⟩
    exact ⟨"", by subst h; cases value <;> rfl⟩
  · refine Outcome.get_bind fun m => Outcome.transaction ?_
    cases value with
    | true => exact (Within.eachRow _).mono fun d _ d' h => ⟨m.now, h⟩
    | false => exact (Within.eachRow _).mono fun d _ d' h => ⟨m.now, h⟩

end Store
end ImapGateway
