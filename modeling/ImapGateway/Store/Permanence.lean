/-
UIDs are for ever.

A run of the store is any sequence of operations, each at any clock reading and
failing at any of its statements, with the store closed and opened again
anywhere between two of them.  What a run can do to the tables is stated between
any state of it and any later one.
-/
import ImapGateway.Store.Transaction
import ImapGateway.Store.Invariant

namespace ImapGateway
namespace Store

inductive Op where
  | ensureUids (inboxId name : String) (keys : List (String × String))
  | tombstoneMissing (inboxId name : String) (present : List String)
  | mailboxInfo (inboxId name : String)
  | setDeleted (inboxId name : String) (uids : List Nat) (value : Bool)
  deriving DecidableEq, Repr

inductive Reply where
  | live (m : List (String × Nat))
  | gone (uids : List Nat)
  | row (uidvalidity nextUid : Nat)
  | done
  deriving DecidableEq, Repr

namespace Op

/-- The mailbox an operation is about. -/
def On (inboxId name : String) : Op → Prop
  | ensureUids i n _ => i = inboxId ∧ n = name
  | tombstoneMissing i n _ => i = inboxId ∧ n = name
  | mailboxInfo i n => i = inboxId ∧ n = name
  | setDeleted i n _ _ => i = inboxId ∧ n = name

def perform : Op → Sql Reply
  | ensureUids i n keys => Reply.live <$> Store.ensureUids i n keys
  | tombstoneMissing i n present => Reply.gone <$> Store.tombstoneMissing i n present
  | mailboxInfo i n => (fun row => Reply.row row.1 row.2) <$> Store.mailboxInfo i n
  | setDeleted i n uids value => (fun _ => Reply.done) <$> Store.setDeleted i n uids value

end Op

/-- An operation with the circumstances it runs in. -/
structure Attempt where
  op : Op
  clock : Int
  now : String
  faults : List Bool
  deriving DecidableEq, Repr

def Attempt.run (a : Attempt) (m : Machine) : Except SqlError Reply × Machine :=
  a.op.perform { m with clock := a.clock, now := a.now, faults := a.faults }

inductive Step where
  | attempt (a : Attempt)
  /-- Close the store and open it again.  An open transaction is lost, and the
  sidecar file may have been changed or removed. -/
  | reopen (watermark : Nat)
  deriving DecidableEq, Repr

def Step.apply (m : Machine) : Step → Machine
  | attempt a => (a.run m).2
  | reopen watermark => { m with tx := none, watermark := watermark }

/-- A store just created. -/
def Machine.new : Machine := ⟨Db.empty, none, 0, 0, "", []⟩

def Machine.runs (m : Machine) (steps : List Step) : Machine := steps.foldl Step.apply m

/-! ## What lasts -/

/-- What holds between the tables of one moment and those of any later one: no
row of `uid_map` is ever lost or bound to another key, one that carries a
tombstone stays exactly as it is, and a mailbox keeps its UIDVALIDITY while its
next UID does not go down. -/
structure Lasting (d d' : Db) : Prop where
  rows : ∀ r ∈ d.uidMap, ∃ v, { r with vanishedAt := v } ∈ d'.uidMap
  tombstones : ∀ r ∈ d.uidMap, r.live = false → r ∈ d'.uidMap
  counters : ∀ i n v u, d.selectMailbox i n = some (v, u) →
    ∃ u', d'.selectMailbox i n = some (v, u') ∧ u ≤ u'

/-- Nothing of one mailbox differs. -/
structure Untouched (inboxId name : String) (d d' : Db) : Prop where
  row : d'.selectMailbox inboxId name = d.selectMailbox inboxId name
  uidMap : (d'.uidMap.filter fun r => decide (r.In inboxId name)) =
    d.uidMap.filter fun r => decide (r.In inboxId name)
  deletedMark : (d'.deletedMark.filter fun r => decide (r.In inboxId name)) =
    d.deletedMark.filter fun r => decide (r.In inboxId name)

/-- What a successful `ensure_uids` does: the unseen keys, in their order and
each once, get the UIDs from the next one on, and every given key is live. -/
structure HandedOut (inboxId name : String) (keys : List (String × String)) (d d' : Db)
    (live : List (String × Nat)) : Prop where
  rows : ∃ now, d'.uidMap = d.uidMap ++
    Db.newRows inboxId name now (d.unseen inboxId name keys) (d.nextUid inboxId name)
  reply : live = d'.liveMap inboxId name
  live : ∀ key ∈ keys, ∃ u, d'.liveUid inboxId name key.1 = some u ∧
    ∀ u', (key.1, u') ∈ live ↔ u' = u

/-- What an operation may do to the tables it is run on. -/
def Op.Does : Op → Db → Reply → Db → Prop
  | ensureUids i n keys, d, r, d' => ∃ v now, d' = (d.ensureUids v now i n keys).1 ∧
      r = .live (d.ensureUids v now i n keys).2
  | tombstoneMissing i n present, d, r, d' => ∃ now, d' = d.tombstoneMissing now i n present ∧
      r = .gone (gone present (d.liveMap i n))
  | mailboxInfo i n, d, r, d' => ∃ v, d' = (d.ensureMailbox v i n).1 ∧
      r = .row (d.ensureMailbox v i n).2.1 (d.ensureMailbox v i n).2.2
  | setDeleted i n uids value, d, r, d' => ∃ now, d' = d.setDeleted now i n uids value ∧ r = .done

theorem Outcome.map {α β : Type} {x : Sql α} {R : Db → α → Db → Prop} (h : Outcome x R)
    (f : α → β) : Outcome (f <$> x) fun d b d' => ∃ a, b = f a ∧ R d a d' := by
  intro m hm
  obtain ⟨r, m', hrun, htx, hok, herr⟩ := h m hm
  have hmap : (f <$> x) m = ((x m).1.map f, (x m).2) := by
    show (x >>= fun a => Pure.pure (f a)) m = _
    rw [Sql.bind_run]
    rcases x m with ⟨a | e, m'⟩ <;> rfl
  rw [hrun] at hmap
  cases r with
  | ok a => exact ⟨_, _, hmap, htx, fun b hb => by cases hb; exact ⟨a, rfl, hok a rfl⟩,
      fun _ he => by cases he⟩
  | error e => exact ⟨_, _, hmap, htx, (fun b hb => by cases hb), fun _ _ => herr e rfl⟩

theorem Op.outcome (op : Op) : Outcome op.perform op.Does := by
  cases op with
  | ensureUids i n keys =>
    refine ((ensureUids_outcome i n keys).map _).mono ?_
    rintro d r d' ⟨live, rfl, v, now, h⟩
    exact ⟨v, now, congrArg (·.1) h, congrArg (Reply.live ·.2) h⟩
  | tombstoneMissing i n present =>
    refine ((tombstoneMissing_outcome i n present).map _).mono ?_
    rintro d r d' ⟨uids, rfl, now, h, rfl⟩
    exact ⟨now, h, rfl⟩
  | mailboxInfo i n =>
    refine ((mailboxInfo_outcome i n).map _).mono ?_
    rintro d r d' ⟨row, rfl, v, h⟩
    exact ⟨v, congrArg (·.1) h, congrArg (fun p => Reply.row p.2.1 p.2.2) h⟩
  | setDeleted i n uids value =>
    refine ((setDeleted_outcome i n uids value).map _).mono ?_
    rintro d r d' ⟨_, rfl, now, h⟩
    exact ⟨now, h, rfl⟩

/-- An attempt does what its operation may do, or fails and changes no table. -/
theorem Attempt.run_cases (a : Attempt) {m : Machine} (hm : m.tx = none) :
    (a.run m).2.tx = none ∧
      ((∃ r, (a.run m).1 = .ok r ∧ a.op.Does m.db r (a.run m).2.db) ∨
        (∃ e, (a.run m).1 = .error e) ∧ (a.run m).2.db = m.db) := by
  obtain ⟨r, m', hrun, htx, hok, herr⟩ := a.op.outcome
    { m with clock := a.clock, now := a.now, faults := a.faults } hm
  rw [Attempt.run, hrun]
  refine ⟨htx, ?_⟩
  cases r with
  | ok r => exact .inl ⟨r, rfl, hok r rfl⟩
  | error e => exact .inr ⟨⟨e, rfl⟩, herr e rfl⟩

/-! ## One operation -/

theorem Lasting.refl (d : Db) : Lasting d d where
  rows r hr := ⟨r.vanishedAt, hr⟩
  tombstones _ hr _ := hr
  counters _ _ _ u h := ⟨u, h, Nat.le_refl u⟩

theorem Lasting.trans {d₁ d₂ d₃ : Db} (h : Lasting d₁ d₂) (h' : Lasting d₂ d₃) :
    Lasting d₁ d₃ where
  rows r hr := by
    obtain ⟨_, hr'⟩ := h.rows r hr
    obtain ⟨v, hv⟩ := h'.rows _ hr'
    exact ⟨v, hv⟩
  tombstones r hr hl := h'.tombstones r (h.tombstones r hr hl) hl
  counters i n v u hu := by
    obtain ⟨u', hu', hle⟩ := h.counters i n v u hu
    obtain ⟨u'', hu'', hle'⟩ := h'.counters i n v u' hu'
    exact ⟨u'', hu'', Nat.le_trans hle hle'⟩

variable {d d' : Db} {inboxId name : String}

/-- Tables that kept the old rows in front and whose rows for mailboxes differ
by a larger counter at most. -/
theorem Lasting.of_append (new : List UidRow) (hu : d'.uidMap = d.uidMap ++ new)
    (hc : ∀ i n v u, d.selectMailbox i n = some (v, u) →
      ∃ u', d'.selectMailbox i n = some (v, u') ∧ u ≤ u') : Lasting d d' where
  rows r hr := ⟨r.vanishedAt, by rw [hu]; exact List.mem_append_left _ hr⟩
  tombstones r hr _ := by rw [hu]; exact List.mem_append_left _ hr
  counters := hc

theorem Db.Ensured.lasting {now : String} {keys : List (String × String)}
    {live : List (String × Nat)} (h : Db.Ensured d inboxId name now keys d' live) :
    Lasting d d' := by
  refine Lasting.of_append _ h.uidMap fun i n v u hu => ?_
  by_cases hk : i = inboxId ∧ n = name
  · obtain ⟨rfl, rfl⟩ := hk
    obtain ⟨v', hrow, hv⟩ := h.row
    refine ⟨_, hrow.trans (by rw [← hv _ hu]), ?_⟩
    rw [Db.nextUid_eq hu]
    exact Nat.le_add_right _ _
  · exact ⟨u, (h.others i n hk).trans hu, Nat.le_refl u⟩

theorem ensureMailbox_lasting (d : Db) (v : Nat) (inboxId name : String) :
    Lasting d (d.ensureMailbox v inboxId name).1 := by
  obtain ⟨huid, _, hsel, _, hothers, hrow⟩ := Db.ensureMailbox_spec d v inboxId name
  refine Lasting.of_append [] (by rw [huid, List.append_nil]) fun i n v' u hu => ?_
  by_cases hk : i = inboxId ∧ n = name
  · obtain ⟨rfl, rfl⟩ := hk
    exact ⟨u, hsel.trans (by rw [hrow _ hu]), Nat.le_refl u⟩
  · exact ⟨u, (hothers i n hk).trans hu, Nat.le_refl u⟩

theorem Db.Ok.tombstone_lasting (h : d.Ok) (now inboxId name : String) (present : List String) :
    Lasting d (d.tombstoneMissing now inboxId name present) := by
  rw [h.tombstoneMissing_eq]
  refine ⟨fun r hr => ?_, fun r hr hl => ?_, fun i n v u hu => ⟨u, hu, Nat.le_refl u⟩⟩
  · by_cases hg : Db.Gone inboxId name present r
    · exact ⟨some now, List.mem_map.mpr ⟨r, hr, if_pos hg⟩⟩
    · exact ⟨r.vanishedAt, List.mem_map.mpr ⟨r, hr, if_neg hg⟩⟩
  · have hg : ¬Db.Gone inboxId name present r := fun hg => by
      rw [hg.2.1] at hl
      cases hl
    exact List.mem_map.mpr ⟨r, hr, if_neg hg⟩

theorem Lasting.of_tables (hm : d'.mailbox = d.mailbox) (hu : d'.uidMap = d.uidMap) :
    Lasting d d' :=
  Lasting.of_append [] (by rw [hu, List.append_nil]) fun i n v u h =>
    ⟨u, by rw [Db.selectMailbox, hm]; exact h, Nat.le_refl u⟩

/-- An operation keeps the invariant, and what was there lasts. -/
theorem Op.Does.lasting {op : Op} {r : Reply} (h : d.Ok) (hd : op.Does d r d') :
    d'.Ok ∧ Lasting d d' := by
  cases op with
  | ensureUids i n keys =>
    obtain ⟨v, now, rfl, _⟩ := hd
    exact ⟨h.ensureUids v now i n keys, (Db.ensureUids_ensured v now i n keys).lasting⟩
  | tombstoneMissing i n present =>
    obtain ⟨now, rfl, _⟩ := hd
    exact ⟨h.tombstoneMissing now i n present, h.tombstone_lasting now i n present⟩
  | mailboxInfo i n =>
    obtain ⟨v, rfl, _⟩ := hd
    exact ⟨h.ensureMailbox v i n, ensureMailbox_lasting d v i n⟩
  | setDeleted i n uids value =>
    obtain ⟨now, rfl, _⟩ := hd
    obtain ⟨hm, hu⟩ := Db.setDeleted_tables d now i n uids value
    exact ⟨h.of_tables hm hu, Lasting.of_tables hm hu⟩

/-- A map over rows that leaves those of a mailbox as they are leaves the rows
of the mailbox as they are. -/
theorem filter_map_untouched {f : UidRow → UidRow} {l : List UidRow}
    (hf : ∀ r, (f r).In inboxId name ↔ r.In inboxId name)
    (hid : ∀ r, r.In inboxId name → f r = r) :
    ((l.map f).filter fun r => decide (r.In inboxId name)) =
      l.filter fun r => decide (r.In inboxId name) := by
  induction l with
  | nil => rfl
  | cons r l ih =>
    rw [List.map_cons, List.filter_cons, List.filter_cons, ih]
    by_cases hr : r.In inboxId name
    · simp [hr, hid r hr]
    · simp [hr, hf r]

theorem Db.Ensured.untouched {now : String} {keys : List (String × String)}
    {live : List (String × Nat)} {i n : String} (h : Db.Ensured d i n now keys d' live)
    (hk : ¬(i = inboxId ∧ n = name)) : Untouched inboxId name d d' where
  row := h.others inboxId name fun h => hk ⟨h.1.symm, h.2.symm⟩
  uidMap := by
    have hnew : ((Db.newRows i n now (d.unseen i n keys) (d.nextUid i n)).filter
        fun r => decide (r.In inboxId name)) = [] := by
      refine List.filter_eq_nil_iff.mpr fun r hr => ?_
      have hin := (Db.mem_newRows hr).1
      simpa using fun hr : r.In inboxId name => hk ⟨hin.1.symm.trans hr.1, hin.2.symm.trans hr.2⟩
    rw [h.uidMap, List.filter_append, hnew, List.append_nil]
  deletedMark := by rw [h.deletedMark]

theorem Db.Ok.tombstone_untouched (h : d.Ok) (now : String) {i n : String} (present : List String)
    (hk : ¬(i = inboxId ∧ n = name)) :
    Untouched inboxId name d (d.tombstoneMissing now i n present) := by
  rw [h.tombstoneMissing_eq]
  refine ⟨rfl, filter_map_untouched (fun r => ?_) (fun r hr => if_neg fun hg => ?_), ?_⟩
  · split <;> exact Iff.rfl
  · exact hk ⟨hg.1.1.symm.trans hr.1, hg.1.2.symm.trans hr.2⟩
  · simp only [List.filter_filter]
    refine List.filter_congr fun r _ => ?_
    by_cases hr : r.In inboxId name
    · have : ¬r.In i n := fun hin => hk ⟨hin.1.symm.trans hr.1, hin.2.symm.trans hr.2⟩
      simp [this, hr]
    · simp [hr]

theorem setDeleted_untouched (d : Db) (now : String) {i n : String} (uids : List Nat)
    (value : Bool) (hk : ¬(i = inboxId ∧ n = name)) :
    Untouched inboxId name d (d.setDeleted now i n uids value) := by
  obtain ⟨hm, hu⟩ := Db.setDeleted_tables d now i n uids value
  refine ⟨by rw [Db.selectMailbox, hm]; rfl, by rw [hu], ?_⟩
  have hother : ∀ r : MarkRow, r.In inboxId name → ¬r.In i n :=
    fun r hr hin => hk ⟨hin.1.symm.trans hr.1, hin.2.symm.trans hr.2⟩
  cases value with
  | false =>
    simp only [Db.setDeleted, Bool.false_eq_true, if_false, Db.foldl_deleteMark, List.filter_filter]
    refine List.filter_congr fun r _ => ?_
    by_cases hr : r.In inboxId name
    · simp [hother r hr, hr]
    · simp [hr]
  | true =>
    simp only [Db.setDeleted, if_true]
    clear hm hu
    induction uids generalizing d with
    | nil => rfl
    | cons u uids ih =>
      rw [List.foldl_cons, ih]
      simp only [Db.insertMark]
      split
      · rfl
      · have hnew : ¬MarkRow.In inboxId name ⟨i, n, u, now⟩ := fun h => hother _ h ⟨rfl, rfl⟩
        simp [List.filter_append, hnew]

/-- Nothing of another mailbox changes. -/
theorem Op.Does.untouched {op : Op} {r : Reply} (h : d.Ok) (hd : op.Does d r d')
    (hk : ¬op.On inboxId name) : Untouched inboxId name d d' := by
  cases op with
  | ensureUids i n keys =>
    obtain ⟨v, now, rfl, _⟩ := hd
    exact (Db.ensureUids_ensured v now i n keys).untouched hk
  | tombstoneMissing i n present =>
    obtain ⟨now, rfl, _⟩ := hd
    exact h.tombstone_untouched now present hk
  | mailboxInfo i n =>
    obtain ⟨v, rfl, _⟩ := hd
    obtain ⟨huid, hmark, _, _, hothers, _⟩ := Db.ensureMailbox_spec d v i n
    exact ⟨hothers inboxId name fun h => hk ⟨h.1.symm, h.2.symm⟩, by rw [huid], by rw [hmark]⟩
  | setDeleted i n uids value =>
    obtain ⟨now, rfl, _⟩ := hd
    exact setDeleted_untouched d now uids value hk

theorem Db.Ensured.handedOut {now : String} {keys : List (String × String)}
    {live : List (String × Nat)} (h : d'.Ok) (he : Db.Ensured d inboxId name now keys d' live) :
    HandedOut inboxId name keys d d' live where
  rows := ⟨now, he.uidMap⟩
  reply := he.live
  live key hkey := by
    obtain ⟨u, hu⟩ := he.isSome h hkey
    refine ⟨u, hu, fun u' => ?_⟩
    rw [he.live, ← h.liveUid_eq_some, hu, Option.some_inj]
    exact eq_comm

/-! ## Runs -/

theorem Step.apply_lasting (s : Step) {m : Machine} (htx : m.tx = none) (h : m.db.Ok) :
    (s.apply m).tx = none ∧ (s.apply m).db.Ok ∧ Lasting m.db (s.apply m).db := by
  cases s with
  | attempt a =>
    obtain ⟨htx', hcases⟩ := a.run_cases htx
    refine ⟨htx', ?_⟩
    rcases hcases with ⟨r, _, hd⟩ | ⟨_, hdb⟩
    · exact hd.lasting h
    · rw [Step.apply, hdb]
      exact ⟨h, Lasting.refl m.db⟩
  | reopen watermark => exact ⟨rfl, h, Lasting.refl m.db⟩

theorem Machine.runs_lasting (steps : List Step) {m : Machine} (htx : m.tx = none) (h : m.db.Ok) :
    (m.runs steps).tx = none ∧ (m.runs steps).db.Ok ∧ Lasting m.db (m.runs steps).db := by
  induction steps generalizing m with
  | nil => exact ⟨htx, h, Lasting.refl m.db⟩
  | cons s steps ih =>
    obtain ⟨htx', h', hl⟩ := s.apply_lasting htx h
    obtain ⟨htx'', h'', hl'⟩ := ih htx' h'
    exact ⟨htx'', h'', hl.trans hl'⟩

/-- What the tables of any moment say about UIDs. -/
structure WellNumbered (d : Db) : Prop where
  oneRow : ∀ i n, ∀ r ∈ d.uidMap, ∀ r' ∈ d.uidMap, r.In i n → r'.In i n →
    r.uid = r'.uid → r = r'
  oneUid : ∀ i n, ∀ r ∈ d.uidMap, ∀ r' ∈ d.uidMap, r.In i n → r'.In i n →
    r.live = true → r'.live = true → r.remoteKey = r'.remoteKey → r.uid = r'.uid
  below : ∀ i n, ∀ r ∈ d.uidMap, r.In i n → r.uid < d.nextUid i n

theorem Db.Ok.wellNumbered (h : d.Ok) : WellNumbered d where
  oneRow _ _ _ hr _ hr' hin hin' hu := h.eq_of_uid hr hr' hin hin' hu
  oneUid _ _ _ hr _ hr' hin hin' hl hl' hk :=
    congrArg (·.uid) (h.eq_of_key hr hr' hin hin' hl hl' hk)
  below _ _ _ hr hin := h.lt_nextUid hr hin

/-- UIDs are permanent: in a store that went through any `steps`, whatever the
tables hold is well numbered and lasts through any `more` steps, and any attempt
made then changes nothing when it fails, touches no other mailbox, and hands out
new UIDs in the order of the keys. -/
theorem uids_permanent (steps more : List Step) (a : Attempt) :
    let m := Machine.new.runs steps
    WellNumbered m.db ∧ Lasting m.db (m.runs more).db ∧
    (∀ e, (a.run m).1 = .error e → (a.run m).2.db = m.db) ∧
    (∀ i n, ¬a.op.On i n → Untouched i n m.db (a.run m).2.db) ∧
    ∀ i n keys live, a.op = .ensureUids i n keys → (a.run m).1 = .ok (.live live) →
      HandedOut i n keys m.db (a.run m).2.db live := by
  intro m
  obtain ⟨htx, hok, _⟩ := Machine.new.runs_lasting steps rfl Db.ok_empty
  obtain ⟨_, hcases⟩ := a.run_cases htx
  refine ⟨hok.wellNumbered, (m.runs_lasting more htx hok).2.2, fun e he => ?_, fun i n hk => ?_,
    fun i n keys live hop hr => ?_⟩
  · rcases hcases with ⟨r, hr, _⟩ | ⟨_, hdb⟩
    · rw [he] at hr; cases hr
    · exact hdb
  · rcases hcases with ⟨r, _, hd⟩ | ⟨_, hdb⟩
    · exact hd.untouched hok hk
    · rw [hdb]; exact ⟨rfl, rfl, rfl⟩
  · rcases hcases with ⟨r, hr', hd⟩ | ⟨⟨e, he⟩, _⟩
    · rw [hr] at hr'
      cases hr'
      have hok' := (hd.lasting hok).1
      rw [hop] at hd
      obtain ⟨v, now, hdb, hlive⟩ := hd
      cases hlive
      rw [hdb] at hok' ⊢
      exact (Db.ensureUids_ensured v now i n keys).handedOut hok'
    · rw [hr] at he; cases he

/-- A key that comes back after its tombstone gets a new UID. -/
example :
    let i := "a@x"
    let m := Machine.new.runs
      [.attempt ⟨.ensureUids i "INBOX" [("k", "k"), ("l", "l"), ("k", "k")], 9, "t", []⟩,
       .attempt ⟨.tombstoneMissing i "INBOX" ["l"], 9, "t", []⟩,
       .attempt ⟨.ensureUids i "INBOX" [("k", "k")], 9, "t", [false, false, false, true]⟩,
       .attempt ⟨.ensureUids i "INBOX" [("k", "k")], 9, "t", []⟩]
    m.db.liveMap i "INBOX" = [("l", 2), ("k", 3)] := by decide +kernel

end Store
end ImapGateway
