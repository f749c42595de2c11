/-
The UIDs clients are told of, and the next UIDs they are promised.

Every UID is announced when it is below the next one of the store.  A promised
next UID is that of a snapshot, which may be an old one: STATUS answers from the
last listing, and an APPEND or a COPY allocates UIDs beside the listings.  As
long as nothing has been allocated since the snapshot was published, the promise
is kept.
-/
import ImapGateway.Imap.Contents

namespace ImapGateway
namespace Imap

open Async Mailbox

variable {cfg : Config} {txt : TextConfig} {R : Regime} {t : Tid} {s : Service} {l : Session}

/-! ## What is written to the client -/

/-- The notes an action adds to the log. -/
def Act.notes (p : Act) (s : Service) (l : Session) : List Note :=
  (p.exec s l).log.take ((p.exec s l).log.length - l.log.length)

theorem Act.notes_eq {p : Act} (notes : List Note) (h : (p.exec s l).log = notes ++ l.log) :
    p.notes s l = notes := by
  rw [Act.notes, h, List.length_append, Nat.add_sub_cancel, List.take_left]

def Note.response : Note → Option Response
  | .sent r _ => some r
  | _ => none

/-- The responses an action writes. -/
def Act.responses (p : Act) (s : Service) (l : Session) : List Response :=
  (p.notes s l).filterMap Note.response

/-- An action writes a response, or the updates of `flush_pending`, or nothing. -/
theorem Act.responses_cases (p : Act) (s : Service) (l : Session) :
    (∃ r, p = .send r ∧ p.responses s l = [r]) ∨ p = .flushPending ∨ p.responses s l = [] := by
  have one : ∀ {p : Act} {n : Note}, n.response = none → (p.exec s l).log = n :: l.log →
      p.responses s l = [] := by
    intro p n hn hlog
    rw [Act.responses, Act.notes_eq [n] hlog, List.filterMap_cons, hn]
    rfl
  have quiet : ∀ {p : Act}, (p.exec s l).log = l.log → p.responses s l = [] := by
    intro p hlog
    rw [Act.responses, Act.notes_eq [] hlog]
    rfl
  cases p with
  | send r =>
    refine .inl ⟨r, rfl, ?_⟩
    rw [Act.responses, Act.notes_eq [.sent r l.uids] rfl]
    rfl
  | flushPending => exact .inr (.inl rfl)
  | dropVanished errors =>
    refine .inr (.inr ?_)
    cases hsel : l.selected with
    | none =>
      refine quiet ?_
      simp only [Act.exec, Session.dropVanished, hsel]
    | some sel =>
      cases hlatest : l.latest s sel with
      | none =>
        refine quiet ?_
        simp only [Act.exec, Session.dropVanished, hsel, hlatest]
      | some latest =>
        refine one (n := .dropped errors (sel.uids.filter fun uid => (latest.byUid uid).isNone))
          rfl ?_
        simp only [Act.exec, Session.dropVanished, hsel, hlatest]
        rfl
  | recordFlags uid flags =>
    refine .inr (.inr ?_)
    cases hsel : l.selected with
    | none =>
      refine quiet ?_
      simp only [Act.exec, Session.recordFlags, hsel]
    | some sel =>
      refine one (n := .recorded uid flags) rfl ?_
      simp only [Act.exec, Session.recordFlags, hsel]
      rfl
  | deselect => exact .inr (.inr (one (n := .deselected) rfl rfl))
  | applySnapshot snap readOnly => exact .inr (.inr (one rfl rfl))
  | noteStored uids mode permanent flags => exact .inr (.inr (one rfl rfl))
  | _ => exact .inr (.inr (quiet rfl))

/-- The UIDs an action announces are below the next one. -/
theorem Act.announced_below {p : Act} (hi : Inv cfg R s) (ho : SOwes t p s l) :
    ∀ r ∈ p.responses s l, ∀ x ∈ r.announces l.here, x.2 < s.store.nextUid x.1.1 x.1.2 := by
  intro r hr x hx
  rcases p.responses_cases s l with ⟨r', rfl, heq⟩ | rfl | heq
  · rw [heq, List.mem_singleton] at hr
    subst hr
    exact (show Tells t r s l from ho).announced x hx
  · obtain ⟨_, uids, hedits, hbelow⟩ := Session.flushPending_ok ho hi.latest
    obtain ⟨notes, hlog, hnotes⟩ := hedits.log
    cases hsel : l.selected with
    | none =>
      have hsame : (Act.flushPending.exec s l).log = [] ++ l.log := by
        simp only [Act.exec, Session.flushPending, hsel, List.nil_append]
      rw [Act.responses, Act.notes_eq _ hsame] at hr
      cases hr
    | some sel =>
      obtain ⟨inboxId, mdef, hid, _⟩ := (show l.Ok s from ho).view sel hsel
      rw [Act.responses, Act.notes_eq notes (show (Act.flushPending.exec s l).log = _ from hlog)] at hr
      obtain ⟨n, hn, hresponse⟩ := List.mem_filterMap.mp hr
      have hupdate := hnotes n hn
      cases n with
      | sent r' us =>
        cases hresponse
        cases r with
        | fetch seq uid parts =>
          obtain ⟨huid, flags, rfl⟩ := hupdate
          have hx : x ∈ [(l.here, uid)] := hx
          rw [List.mem_singleton.mp hx, Session.here, hid, hsel]
          exact hbelow inboxId sel hid hsel uid huid
        | «exists» n => cases hx
        | expunge seq => cases hx
        | _ => cases hupdate
      | _ => cases hupdate
  · rw [heq] at hr
    cases hr

/-! ## Announced and predicted -/

abbrev GatewayEvent := Event Tid Shared (Mailbox.Act ⊕ Act)

def responsesOf (e : GatewayEvent) : List Response :=
  match e.action with
  | .inl _ => []
  | .inr p => p.responses e.before.1 e.before.2

/-- The UIDs a client is told of, each with its mailbox. -/
def announcedBy (e : GatewayEvent) : List (Key × Nat) :=
  (responsesOf e).flatMap (·.announces e.before.2.here)

/-- The values of UIDNEXT a client is told. -/
def predictedBy (e : GatewayEvent) : List (Key × Nat) :=
  (responsesOf e).flatMap (·.predicts e.before.2.here)

/-- Every UIDNEXT is above all UIDs of its mailbox that were announced before it, and
not below one the same session was told before. -/
structure UidnextBounds (tr : Trace) : Prop where
  above : ∀ newer e older, tr = newer ++ e :: older → ∀ x ∈ predictedBy e, ∀ d ∈ older,
    ∀ y ∈ announcedBy d, y.1 = x.1 → y.2 < x.2
  monotone : ∀ newer e older, tr = newer ++ e :: older → ∀ x ∈ predictedBy e, ∀ d ∈ older,
    d.tid = e.tid → ∀ y ∈ predictedBy d, y.1 = x.1 → y.2 ≤ x.2

/-- The next UID of a mailbox. -/
def nextAt (s : Service) (key : Key) : Nat := s.store.nextUid key.1 key.2

/-- The next UID told here is that of a snapshot that was published earlier, and since
then no UID of the mailbox has been allocated. -/
def Fresh (cfg : Config) (e : GatewayEvent) (older : Trace) : Prop :=
  ∀ x ∈ predictedBy e, ∃ newer y old, happenings older = newer ++ y :: old ∧
    (∃ snap, y.Publishes cfg x.1 snap ∧ snap.uidnext = x.2) ∧
    ∀ z ∈ newer, nextAt (z.after cfg) x.1 = nextAt z.before x.1

/-- Where no UID has been allocated, the next one is as it was. -/
theorem nextAt_of_quiet {s₀ s : Service} {hs : List Happening} {key : Key}
    (h : History cfg s₀ hs s) (hquiet : ∀ z ∈ hs, nextAt (z.after cfg) key = nextAt z.before key) :
    nextAt s key = nextAt s₀ key := by
  induction h with
  | nil => rfl
  | @cons hs z _ ih =>
    rw [hquiet z (List.mem_cons_self ..)]
    exact ih fun y hy => hquiet y (List.mem_cons_of_mem _ hy)

/-- A fresh next UID is the next UID. -/
theorem Fresh.eq_next {s₀ s : Service} {e : GatewayEvent} {older : Trace}
    (h : Fresh cfg e older) (hc : Conducted cfg R s₀ (happenings older) s) :
    ∀ x ∈ predictedBy e, x.2 = nextAt s x.1 := by
  intro x hx
  obtain ⟨newer, y, old, heq, ⟨snap, hp, hnext⟩, hquiet⟩ := h x hx
  rw [heq] at hc
  obtain ⟨l, v, _, hkey, rfl, _⟩ := hp.spec hc.before.inv.store
  rw [nextAt_of_quiet hc.history.after hquiet, ← hnext, ← hkey]
  rfl

/-- What is known of every event of a run. -/
structure EventOk (cfg : Config) (R : Regime) (e : GatewayEvent) : Prop where
  inv : Inv cfg R e.before.1
  owed : ∀ p, e.action = .inl p → Owes cfg R e.tid p e.before.1
  sessionOwed : ∀ p, e.action = .inr p → SOwes e.tid p e.before.1 e.before.2

theorem EventOk.announced {e : GatewayEvent} (h : EventOk cfg R e) :
    ∀ x ∈ announcedBy e, x.2 < nextAt e.before.1 x.1 := by
  obtain ⟨t, p, s⟩ := e
  intro x hx
  obtain ⟨r, hr, hx⟩ := List.mem_flatMap.mp hx
  cases p with
  | inl p => cases hr
  | inr p => exact Act.announced_below h.inv (h.sessionOwed p rfl) r hr x hx

/-- The next UIDs never go back. -/
theorem EventOk.next_mono {e : GatewayEvent} (h : EventOk cfg R e) (key : Key) :
    nextAt e.before.1 key ≤ nextAt (exec cfg e.tid e.action e.before).1 key := by
  obtain ⟨t, p, s⟩ := e
  cases p with
  | inl p => exact ((h.inv.evolve t p).store key.1 key.2).1
  | inr p => exact Nat.le_refl _

theorem conducted_of_linked {s₀ s : Service} {tr : Trace} (h : Linked (exec cfg) s₀ tr s)
    (h₀ : Inv cfg R s₀) (hok : ∀ e ∈ tr, EventOk cfg R e) :
    Conducted cfg R s₀ (happenings tr) s where
  history := history_of_linked h
  start := h₀
  owed x hx := by
    obtain ⟨⟨t, p, s⟩, he, hex⟩ := List.mem_filterMap.mp hx
    cases p with
    | inl p =>
      cases hex
      exact (hok _ he).owed p rfl
    | inr p => cases hex

/-- All along a trace whose reports are fresh, what is announced is below the next UID,
and what is predicted is not above it. -/
theorem bounded_of_linked {s₀ s : Service} {tr : Trace} (h : Linked (exec cfg) s₀ tr s)
    (h₀ : Inv cfg R s₀) (hok : ∀ e ∈ tr, EventOk cfg R e)
    (hfresh : ∀ newer e older, tr = newer ++ e :: older → Fresh cfg e older) :
    (∀ d ∈ tr, ∀ y ∈ announcedBy d, y.2 < nextAt s y.1) ∧
    (∀ d ∈ tr, ∀ y ∈ predictedBy d, y.2 ≤ nextAt s y.1) ∧ UidnextBounds tr := by
  induction h with
  | nil =>
    exact ⟨fun d hd => absurd hd List.not_mem_nil, fun d hd => absurd hd List.not_mem_nil,
      fun newer e older heq => by simp at heq, fun newer e older heq => by simp at heq⟩
  | @cons tr e htr ih =>
    have hok' : ∀ d ∈ tr, EventOk cfg R d := fun d hd => hok d (List.mem_cons_of_mem _ hd)
    obtain ⟨hann, hpred, hbounds⟩ := ih hok' fun newer d older heq =>
      hfresh (e :: newer) d older (by rw [heq]; rfl)
    have he := hok e (List.mem_cons_self ..)
    have hnow := (hfresh [] e tr rfl).eq_next (conducted_of_linked htr h₀ hok')
    refine ⟨fun d hd y hy => ?_, fun d hd y hy => ?_, ⟨fun newer d older heq => ?_,
      fun newer d older heq => ?_⟩⟩
    · have hmono := he.next_mono y.1
      rcases List.mem_cons.mp hd with rfl | hd
      · exact Nat.lt_of_lt_of_le (he.announced y hy) hmono
      · exact Nat.lt_of_lt_of_le (hann d hd y hy) hmono
    · have hmono := he.next_mono y.1
      rcases List.mem_cons.mp hd with rfl | hd
      · rw [hnow y hy]
        exact hmono
      · exact (hpred d hd y hy).trans hmono
    · cases newer with
      | nil =>
        cases heq
        intro x hx c hc y hy hkey
        rw [hnow x hx, ← hkey]
        exact hann c hc y hy
      | cons c newer =>
        cases heq
        exact hbounds.above newer d older rfl
    · cases newer with
      | nil =>
        cases heq
        intro x hx c hc _ y hy hkey
        rw [hnow x hx, ← hkey]
        exact hpred c hc y hy
      | cons c newer =>
        cases heq
        exact hbounds.monotone newer d older rfl

theorem LawfulRun.eventOk {V : Prop} {b : Boot} {w : World} (h : LawfulRun cfg txt R V b w) :
    ∀ e ∈ w.trace, EventOk cfg R e := by
  intro e he
  obtain ⟨t, p, s⟩ := e
  cases p with
  | inl p =>
    have hmem : ⟨t, p, s.1⟩ ∈ happenings w.trace := List.mem_filterMap.mpr ⟨_, he, rfl⟩
    have ho := h.conducted.of_mem hmem
    exact ⟨ho.1, fun q hq => by cases hq; exact ho.2, fun q hq => by cases hq⟩
  | inr p =>
    have ho := h.sessionOwed he
    exact ⟨ho.1, fun q hq => (by cases hq), fun q hq => by cases hq; exact ho.2⟩

/-- In a run whose reports are all fresh, every UIDNEXT bounds the UIDs. -/
theorem uidnext_bounds (b : Boot) {w : World} (h : ProperRun cfg txt b w)
    (hfresh : ∀ newer e older, w.trace = newer ++ e :: older → Fresh cfg e older) :
    UidnextBounds w.trace :=
  (bounded_of_linked h.linked (startService_inv b.ok _ _ _) h.eventOk hfresh).2.2

/-- The next UID told here is fresh, by a look at the events before. -/
def freshAt (e : GatewayEvent) (older : Trace) : Bool :=
  let hs := happenings older
  (predictedBy e).all fun x => (List.range hs.length).any fun k =>
    (hs[k]?.any fun y => y.publishing.any fun l => decide (l.key = x.1) &&
      ((y.after demoConfig).latest x.1).any fun snap => decide (snap.uidnext = x.2)) &&
    (hs.take k).all fun z => decide (nextAt (z.after demoConfig) x.1 = nextAt z.before x.1)

theorem fresh_of_freshAt {e : GatewayEvent} {older : Trace} (h : freshAt e older = true) :
    Fresh demoConfig e older := by
  intro x hx
  obtain ⟨k, _, hk⟩ := List.any_eq_true.mp (List.all_eq_true.mp h x hx)
  rw [Bool.and_eq_true] at hk
  obtain ⟨y, hy, hpub⟩ := (Option.any_eq_true _ _).mp hk.1
  obtain ⟨l, hl, hpub⟩ := (Option.any_eq_true _ _).mp hpub
  rw [Bool.and_eq_true, decide_eq_true_eq] at hpub
  obtain ⟨snap, hsnap, hnext⟩ := (Option.any_eq_true _ _).mp hpub.2
  obtain ⟨hlt, hget⟩ := List.getElem?_eq_some_iff.mp hy
  refine ⟨(happenings older).take k, y, (happenings older).drop (k + 1), ?_,
    ⟨snap, ⟨l, hl, hpub.1, hsnap⟩, of_decide_eq_true hnext⟩,
    fun z hz => of_decide_eq_true (List.all_eq_true.mp hk.2 z hz)⟩
  rw [← hget, ← List.drop_eq_getElem_cons hlt, List.take_append_drop]

/-- The first client asks for the next UID of Drafts, and appends a draft. -/
def statusThenAppend : List Move :=
  [commandBy 0 (.status "Drafts" ["UIDNEXT"]), listBy 0 0 drafts, draftsFor (.task 0) [], reapOf 0,
    draftsFor (.conn 0) [], draftsFor (.conn 0) [],
    commandBy 0 (.append "Drafts" (.ok ⟨[], [], [], [], "", "one"⟩) "c"),
    draftsFor (.conn 0) [draftAt "d1" "now" "one"]]

/-- It asks again once Drafts has been listed behind the APPEND. -/
def statusMoves : List Move :=
  loginMoves 0 ++ statusThenAppend ++
    [.launch (.task 1) (.task (.resync ⟨0, 0, "k"⟩ "a@x")), listBy 2 0 drafts,
      draftsFor (.task 2) [draftAt "d1" "now" "one"], reapOf 2, draftsFor (.task 1) [], reapOf 1,
      draftsFor (.conn 0) [], draftsFor (.conn 0) [], commandBy 0 (.status "Drafts" ["UIDNEXT"])]

theorem uidnext_bounds_asked : ∃ w, ProperRun demoConfig demoText demoBoot w ∧
    w.trace.flatMap announcedBy = [(("a@x", "Drafts"), 1)] ∧
    w.trace.flatMap predictedBy = [(("a@x", "Drafts"), 2), (("a@x", "Drafts"), 1)] ∧
    UidnextBounds w.trace := by
  have hrun : (demoBoot.world.run (gateway demoConfig demoText) statusMoves).any (fun w =>
      (w.trace.tails.all fun tr => match tr with
        | e :: older => freshAt e older
        | [] => true) &&
      decide (w.trace.flatMap announcedBy = [(("a@x", "Drafts"), 1)]) &&
      decide (w.trace.flatMap predictedBy =
        [(("a@x", "Drafts"), 2), (("a@x", "Drafts"), 1)])) = true := by
    decide +kernel
  obtain ⟨w, hw, hok⟩ := exists_properRun (by decide) hrun
  simp only [Bool.and_eq_true, decide_eq_true_eq] at hok
  obtain ⟨⟨hfresh, hannounced⟩, hpredicted⟩ := hok
  refine ⟨w, hw, hannounced, hpredicted,
    uidnext_bounds demoBoot hw fun newer e older heq => fresh_of_freshAt ?_⟩
  have hmem : e :: older ∈ w.trace.tails := (List.mem_tails _ _).mpr ⟨newer, heq.symm⟩
  exact List.all_eq_true.mp hfresh _ hmem

/-- A UIDNEXT is not above a UID that was announced before it. -/
def promiseBroken (tr : Trace) : Bool := match tr with
  | e :: older => (predictedBy e).any fun x => older.any fun d => (announcedBy d).any fun y =>
    decide (y.1 = x.1) && decide (x.2 ≤ y.2)
  | [] => false

/-- Before Drafts is listed again, another client asks for its status. -/
def staleStatus : List Move :=
  loginMoves 0 ++ loginMoves 1 ++ statusThenAppend ++ [commandBy 1 (.status "Drafts" ["UIDNEXT"])]

theorem announced_not_below : ∃ w, ProperRun demoConfig demoText demoBoot w ∧
    ¬UidnextBounds w.trace := by
  have hrun : (demoBoot.world.run (gateway demoConfig demoText) staleStatus).any
      (fun w => w.trace.tails.any promiseBroken) = true := by
    decide +kernel
  obtain ⟨w, hw, hok⟩ := exists_properRun (by decide) hrun
  refine ⟨w, hw, fun hbounds => ?_⟩
  obtain ⟨tr, htr, hbroken⟩ := List.any_eq_true.mp hok
  obtain ⟨newer, heq⟩ := (List.mem_tails _ _).mp htr
  cases tr with
  | nil => cases hbroken
  | cons e older =>
    obtain ⟨x, hx, hbroken⟩ := List.any_eq_true.mp hbroken
    obtain ⟨d, hd, hbroken⟩ := List.any_eq_true.mp hbroken
    obtain ⟨y, hy, hbroken⟩ := List.any_eq_true.mp hbroken
    rw [Bool.and_eq_true, decide_eq_true_eq, decide_eq_true_eq] at hbroken
    have hlt := hbounds.above newer e older heq.symm x hx d hd y hy hbroken.1
    omega

end Imap
end ImapGateway
