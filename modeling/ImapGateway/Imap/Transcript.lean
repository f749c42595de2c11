/-
What a connection writes can be read back.

Whatever the clients send and upstream answers, and however the connections and the listings
take turns, the responses written to a connection are such that a client that knows nothing
but the framing of IMAP cuts them where they were put together.  A handler only writes what it
may, and what the service raises in it is no refusal of its own.
-/
import ImapGateway.Imap.Verbs
import ImapGateway.Imap.Sessions
import ImapGateway.Parser.Words
import ImapGateway.Mailbox.Faults

namespace ImapGateway
namespace Imap

open ImapGateway.Parser Async Octet
open Mailbox hiding upper

variable {cfg : Config} {txt : TextConfig} {t : Tid} {n : Nat} {s : Shared}

/-! ## The session -/

/-- Every response of the session can be read back. -/
def Session.Plain (l : Session) : Prop := ∀ r ∈ l.sent, r.Plain

/-- The action writes nothing but a response that can be read back. -/
def Act.Plain (p : Act) : Prop := ∀ r, p = .send r → r.Plain

/-- The actions that write no response of the handler's own. -/
def Act.mute : Act → Bool
  | send _ => false
  | _ => true

theorem Act.Plain.of_mute {p : Act} (h : p.mute = true) : p.Plain := by
  intro r hp
  rw [hp] at h
  cases h

namespace Session

variable {l : Session}

theorem Plain.write (h : l.Plain) {r : Response} (hr : r.Plain) : (l.write r).Plain := by
  intro r' hr'
  rcases List.mem_cons.mp (show r' ∈ r :: l.sent from hr') with rfl | hr'
  · exact hr
  · exact h r' hr'

theorem Plain.setSelected (h : l.Plain) (sel : Selected) : (l.setSelected sel).Plain := h

theorem Plain.flushVanished (h : l.Plain) (live : List Nat) (k : Nat) :
    (flushVanished live k l).Plain := by
  induction k generalizing l with
  | zero => exact h
  | succ k ih =>
    rw [Session.flushVanished]
    split
    · exact h
    · split
      · exact ih h
      · split
        · exact ih h
        · have hwrite : (l.write (.expunge (k + 1))).Plain := h.write trivial
          exact ih (hwrite.setSelected _)

theorem Plain.flushArrived (h : l.Plain) (items : List Nat) : (flushArrived items l).Plain := by
  rw [Session.flushArrived]
  split
  · exact h
  · dsimp only
    split
    · exact h
    · exact (h.setSelected _).write trivial

/-- A FETCH without a section has no label. -/
theorem plain_flags (seq uid : Nat) (flags : Flags) :
    (Response.fetch seq uid [.uid uid, .flags flags]).Plain := by
  intro attr raw hmem
  simp at hmem

theorem Plain.flushFlags (h : l.Plain) (latest : Snapshot) (deleted : List Nat)
    (pairs : List (Nat × Nat)) : (flushFlags latest deleted pairs l).Plain := by
  induction pairs generalizing l with
  | nil => exact h
  | cons pair pairs ih =>
    obtain ⟨uid, seq⟩ := pair
    rw [Session.flushFlags]
    split
    · dsimp only
      apply ih
      apply Plain.setSelected
      split
      · split
        · exact h.write (plain_flags _ _ _)
        · exact h
      · exact h
    · exact ih h

theorem Plain.flushPending (h : l.Plain) (s : Service) : (l.flushPending s).Plain := by
  rw [Session.flushPending]
  cases l.selected with
  | none => exact h
  | some sel =>
    dsimp only
    cases l.latest s sel with
    | none => exact h
    | some latest =>
      have harrived := (h.flushVanished latest.uids sel.uids.length).flushArrived latest.uids
      dsimp only
      split
      · exact harrived
      · exact (harrived.setSelected _).flushFlags latest _ _

end Session

theorem Act.exec_plain {l : Session} (h : l.Plain) {p : Act} (hp : p.Plain) (s : Service) :
    (p.exec s l).Plain := by
  rcases p.exec_sent s l with ⟨r, rfl, _⟩ | ⟨rfl, _⟩ | ⟨_, hsent⟩
  · exact h.write (hp r rfl)
  · exact h.flushPending s
  · intro r hr
    rw [hsent] at hr
    exact h r hr

/-! ## The logic -/

/-- Where a connection stands: no task has failed with a refusal, and all that is written can
be read back. -/
structure Tidy (s : Shared) : Prop where
  service : s.1.Unrefused
  session : s.2.Plain

/-- The others leave the session alone and end no task with a refusal. -/
def wireLogic (cfg : Config) (t : Tid) : Logic Shared (Mailbox.Act ⊕ Act) Req Req.Answer where
  exec := exec cfg t
  rely a b := (a.1.Unrefused → b.1.Unrefused) ∧ b.2 = a.2
  guar p _ := match p with
    | .inl p => p.Ends
    | .inr p => p.Plain
  asks _ s := Tidy s
  gives _ a s := s.1.Unrefused → Req.unrefusing a = true

/-- The coroutine writes what can be read back, and what it refuses it refuses with NO or BAD. -/
abbrev Talks {α : Type} (cfg : Config) (t : Tid) (x : Prog α) : Prop :=
  Coro.Raises (wireLogic cfg t) Tidy Spoken x

theorem Spoken.of_fault {e : Exc} (h : e.isRefusal = false) : Spoken e := by
  intro status text code he
  rw [he] at h
  cases h

theorem Tidy.of_rely {a b : Shared} (h : Tidy a) (hr : (wireLogic cfg t).rely a b) : Tidy b :=
  ⟨hr.1 h.service, hr.2 ▸ h.session⟩

theorem serviceFrames :
    Coro.Frames (faultLogic cfg t) (wireLogic cfg t) Sum.inl Prod.fst Tidy where
  exec _ _ := rfl
  guar _ _ hs hg := ⟨hg, Act.exec_unrefused hs.service hg, hs.session⟩
  rely _ _ hs hr := ⟨hr.1, hs.of_rely hr⟩
  asks _ _ hs _ := hs
  gives _ _ _ h := h

section Rules

variable {α : Type}

theorem ret_talks (a : α) : Talks cfg t (Coro.ret a : Prog α) := Coro.Raises.ret a

theorem throw_talks {e : Exc} (h : Spoken e) : Talks cfg t (Coro.raise e : Prog α) :=
  Coro.Raises.raise h

theorem svc_talks {x : Svc α} (hx : Faults cfg t x) : Talks cfg t (svc x) := by
  intro s hs
  apply Coro.wp_mono _ _ (Coro.wp_lift serviceFrames hs (hx s.1 hs.service))
  · exact fun _ _ h => h.2
  · exact fun _ _ h => ⟨.of_fault h.1.1, h.2⟩

theorem act_talks {p : Act} (hp : p.Plain) : Talks cfg t (act p) :=
  Coro.Raises.perform fun s hs => ⟨hp, hs.service, Act.exec_plain hs.session hp s.1⟩

theorem mute_talks {p : Act} (h : p.mute = true) : Talks cfg t (act p) :=
  act_talks (.of_mute h)

theorem mute_bind_talks {p : Act} {k : Unit → Prog α} (h : p.mute = true)
    (hk : Talks cfg t (k ())) : Talks cfg t ((act p).bind k) := (mute_talks h).bind fun _ => hk

theorem send_talks {r : Response} (hr : r.Plain) : Talks cfg t (send r) := by
  apply act_talks
  intro r' he
  cases he
  exact hr

theorem send_bind_talks {r : Response} {k : Unit → Prog α} (hr : r.Plain)
    (hk : Talks cfg t (k ())) : Talks cfg t ((send r).bind k) := (send_talks hr).bind fun _ => hk

theorem session_talks {k : Session → Prog α} (h : ∀ l, Talks cfg t (k l)) :
    Talks cfg t (session.bind k) := Coro.Raises.read fun s hs => h s.2 s hs

theorem service_talks {k : Service → Prog α} (h : ∀ s, Talks cfg t (k s)) :
    Talks cfg t (service.bind k) := Coro.Raises.read fun s hs => h s.1 s hs

theorem refuse_talks {c : Prop} [Decidable c] {e : Exc} (h : Spoken e) :
    Talks cfg t (refuse c e) := by
  rw [refuse]
  split
  · exact throw_talks h
  · exact ret_talks _

theorem refuse_bind_talks {c : Prop} [Decidable c] {e : Exc} {k : Unit → Prog α} (h : Spoken e)
    (hk : Talks cfg t (k ())) : Talks cfg t ((refuse c e).bind k) :=
  (refuse_talks h).bind fun _ => hk

theorem requireState_talks {states : List State} {k : Unit → Prog α} (hk : Talks cfg t (k ())) :
    Talks cfg t ((requireState states).bind k) := fun s hs =>
  requireState_bind ⟨spoken_bad _, hs⟩ fun _ => hk s hs

theorem requireSelected_talks {k : Selected → Prog α} (hk : ∀ sel, Talks cfg t (k sel)) :
    Talks cfg t (requireSelected.bind k) := fun s hs =>
  requireSelected_bind ⟨spoken_bad _, hs⟩ fun sel _ _ => hk sel s hs

theorem context_talks {k : Client × String → Prog α} (hk : ∀ c, Talks cfg t (k c)) :
    Talks cfg t (context.bind k) := fun s hs =>
  context_bind ⟨spoken_internal, hs⟩ fun api inboxId _ _ => hk (api, inboxId) s hs

theorem mailboxOf_talks (name : String) : Talks cfg t (mailboxOf name) := by
  rw [mailboxOf]
  split
  · exact ret_talks _
  · exact throw_talks spoken_internal

theorem latestOrSync_talks (api : Client) (inboxId : String) (mdef : MailboxDef) :
    Talks cfg t (latestOrSync cfg t api inboxId mdef) := by
  apply service_talks
  intro s
  split
  · exact ret_talks _
  · exact svc_talks (syncForced_faults api inboxId _)

theorem each_talks {β : Type} {body : β → Prog Unit} (bs : List β)
    (h : ∀ b ∈ bs, Talks cfg t (body b)) : Talks cfg t (Coro.each body bs) := by
  induction bs with
  | nil => exact ret_talks ()
  | cons b bs ih =>
    rw [Coro.each]
    apply (h b List.mem_cons_self).bind
    exact fun _ => ih fun b' hb' => h b' (List.mem_cons_of_mem _ hb')

theorem flush_talks : Talks cfg t flush := by
  apply session_talks
  intro l
  split
  · exact ret_talks _
  · apply Coro.Raises.attempt_bind (svc_talks (ask_faults .drain))
    · exact fun _ => ret_talks _
    · intro e he
      cases e with
      | cancelled => exact throw_talks he
      | _ => exact mute_talks rfl

end Rules

section Values

variable {α β : Type} {Q : α → Prop} {R : β → Prop}

/-- A coroutine that talks, and returns what meets `Q`. -/
def Returns (cfg : Config) (t : Tid) (Q : α → Prop) (x : Prog α) : Prop :=
  ∀ s, Tidy s → x.wp (wireLogic cfg t) (fun a s => Q a ∧ Tidy s) (fun e s => Spoken e ∧ Tidy s) s

theorem ret_returns {a : α} (h : Q a) : Returns cfg t Q (Coro.ret a : Prog α) := fun _ hs => ⟨h, hs⟩

theorem throw_returns {e : Exc} (h : Spoken e) : Returns cfg t Q (Coro.raise e : Prog α) :=
  fun _ hs => ⟨h, hs⟩

theorem Returns.bind {x : Prog α} {f : α → Prog β} (hx : Returns cfg t Q x)
    (hf : ∀ a, Q a → Returns cfg t R (f a)) : Returns cfg t R (x.bind f) := by
  intro s hs
  rw [Coro.wp_bind]
  exact Coro.wp_mono (fun a s h => hf a h.1 s h.2) (fun _ _ h => h) (hx s hs)

theorem returns_of_talks {x : Prog α} (hx : Talks cfg t x) :
    Returns cfg t (fun _ => True) x := fun s hs =>
  Coro.wp_mono (fun _ _ h => ⟨trivial, h⟩) (fun _ _ h => h) (hx s hs)

theorem talks_bind_returns {x : Prog α} {f : α → Prog β} (hx : Talks cfg t x)
    (hf : ∀ a, Returns cfg t R (f a)) : Returns cfg t R (x.bind f) :=
  (returns_of_talks hx).bind fun a _ => hf a

theorem foldEach_returns {γ : Type} {body : α → γ → Prog α} (cs : List γ)
    (h : ∀ c ∈ cs, ∀ a, Q a → Returns cfg t Q (body a c)) {a : α} (ha : Q a) :
    Returns cfg t Q (Coro.foldEach body a cs) := by
  induction cs generalizing a with
  | nil => exact ret_returns ha
  | cons c cs ih =>
    rw [Coro.foldEach]
    apply (h c List.mem_cons_self a ha).bind
    exact fun a' ha' => ih (fun c' hc' => h c' (List.mem_cons_of_mem _ hc')) ha'

/-- What a coroutine returns when it is attempted, and what it raises. -/
theorem Returns.attempt_bind {x : Prog α} {f : Except Exc α → Prog β} (hx : Returns cfg t Q x)
    (hok : ∀ a, Q a → Talks cfg t (f (.ok a))) (herr : ∀ e, Spoken e → Talks cfg t (f (.error e))) :
    Talks cfg t (x.attempt.bind f) := by
  intro s hs
  rw [Coro.attempt, Coro.wp_bind, Coro.wp_handle, Coro.wp_bind]
  apply Coro.wp_mono _ _ (hx s hs)
  · exact fun a s h => hok a h.1 s h.2
  · exact fun e s h => herr e h.1 s h.2

end Values

/-! ## What the handlers share -/

/-- The tagged line of a command. -/
theorem plain_tagged {tag : String} (h : Unmistaken tag) {kind : String} (hkind : kind ∈ ["OK", "NO", "BAD"])
    (text : String) (code : Option Code) : (Response.tagged tag kind text code).Plain := ⟨hkind, h⟩

theorem ok_talks {tag : String} (h : Unmistaken tag) (text : String) (code : Option Code) :
    Talks cfg t (send (.tagged tag "OK" text code)) :=
  send_talks (plain_tagged h (by simp) text code)

theorem checkInbox_talks (api : Client) (userid : String) (identity : Identity) :
    Talks cfg t (checkInbox api userid identity) := by
  unfold checkInbox
  split
  · apply Coro.Raises.attempt_bind (svc_talks (ask_faults (.getInbox api userid)))
    · exact fun _ => ret_talks _
    · intro e he
      cases e with
      | notFound => exact throw_talks (spoken_noWith _ _)
      | badRequest => exact throw_talks (spoken_noWith _ _)
      | _ => exact throw_talks he
  · exact ret_talks _

theorem openView_talks (snap : Snapshot) (readOnly : Bool) :
    Talks cfg t (openView snap readOnly) := by
  have hflags : Unnumbered "FLAGS (\\Seen \\Answered \\Flagged \\Deleted \\Draft)" := by
    decide
  exact mute_bind_talks rfl (send_bind_talks hflags (send_talks trivial))

theorem sendUnseen_talks (seq : Option Nat) : Talks cfg t (sendUnseen seq) := by
  unfold sendUnseen
  split
  · exact send_talks trivial
  · exact ret_talks _

/-- The labels of the parts of a FETCH are on one line. -/
def Labelled (parts : List Part) : Prop := ∀ attr raw, Part.body attr raw ∈ parts → Clear attr.label

theorem Labelled.append {parts : List Part} (h : Labelled parts) {p : Part}
    (hp : ∀ attr raw, p = .body attr raw → Clear attr.label) : Labelled (parts ++ [p]) := by
  intro attr raw hmem
  rcases List.mem_append.mp hmem with hmem | hmem
  · exact h attr raw hmem
  · exact hp attr raw (List.mem_singleton.mp hmem).symm

theorem fetchParts_returns (api : Client) (inboxId : String) (mdef : MailboxDef) (plan : FetchPlan)
    (uid : Nat) (item : Item) (raw : Option Bytes) {parts : List Part} {attr : FetchAttr}
    (hparts : Labelled parts) (hattr : Clear attr.label) : Returns cfg t Labelled
      (fetchParts cfg api inboxId mdef plan uid item raw parts attr) := by
  have hplain : ∀ {p : Part}, (∀ a r, p ≠ .body a r) →
      Returns cfg t Labelled (Coro.ret (parts ++ [p])) := fun hp =>
    ret_returns (hparts.append fun a r he => absurd he (hp a r))
  unfold fetchParts
  split
  · exact hplain (fun _ _ he => by cases he)
  · apply talks_bind_returns (mute_talks rfl)
    exact fun _ => hplain (fun _ _ he => by cases he)
  · exact hplain (fun _ _ he => by cases he)
  · split
    · exact hplain (fun _ _ he => by cases he)
    · apply talks_bind_returns (svc_talks (sizeOf_faults api inboxId mdef item))
      exact fun _ => hplain (fun _ _ he => by cases he)
  · split
    · apply ret_returns (hparts.append _)
      intro a r he
      cases he
      exact hattr
    · exact throw_returns spoken_internal

theorem fetchItem_returns (api : Client) (inboxId : String) (mdef : MailboxDef) {plan : FetchPlan}
    (hplan : ∀ a ∈ plan.attrs, Clear a.label) (uid : Nat) (item : Item) :
    Returns cfg t Labelled (fetchItem cfg api inboxId mdef plan uid item) := by
  have hnone : Labelled [] := fun _ _ hmem => absurd hmem List.not_mem_nil
  have hall : ∀ item raw, Returns cfg t Labelled
      (Coro.foldEach (fetchParts cfg api inboxId mdef plan uid item raw) [] plan.attrs) :=
    fun item raw => foldEach_returns plan.attrs (fun a ha parts hparts =>
      fetchParts_returns api inboxId mdef plan uid item raw hparts (hplan a ha)) hnone
  rw [fetchItem]
  apply talks_bind_returns
  · rw [fetchRaw]
    split
    · exact (svc_talks (rawBytes_faults api inboxId mdef item)).bind fun _ => ret_talks _
    · exact ret_talks _
  · intro raw
    split
    · apply talks_bind_returns (svc_talks (setFlag_faults api inboxId mdef item .seen true))
      intro item'
      apply (hall item' raw).bind
      intro parts hparts
      split
      · exact ret_returns hparts
      · apply talks_bind_returns (mute_talks rfl)
        exact fun _ => ret_returns (hparts.append fun _ _ he => by cases he)
    · exact hall item raw

theorem fetchOne_talks (api : Client) (inboxId : String) (mdef : MailboxDef) {plan : FetchPlan}
    (hplan : ∀ a ∈ plan.attrs, Clear a.label) (snap : Snapshot) (target : Nat × Nat) :
    Talks cfg t (fetchOne cfg api inboxId mdef plan snap target) := by
  rw [fetchOne]
  split
  · exact ret_talks _
  · apply (fetchItem_returns api inboxId mdef hplan _ _).attempt_bind
    · exact fun parts hparts => send_bind_talks hparts flush_talks
    · intro e he
      cases e with
      | notFound => exact ret_talks _
      | _ => exact throw_talks he

theorem searchOne_talks {ctx : SearchContext} (hraw : ∀ item, Faults cfg t (ctx.raw item))
    (hsize : ∀ item, Faults cfg t (ctx.size item)) (crit : Crit) (snap : Snapshot)
    (uidMode : Bool) (hits : List Nat) (target : Nat × Nat) :
    Talks cfg t (searchOne txt ctx crit snap uidMode hits target) := by
  rw [searchOne]
  split
  · exact ret_talks _
  · apply Coro.Raises.attempt_bind (svc_talks (evaluate_raises (hraw _) (hsize _) crit))
    · intro hit
      cases hit with
      | true => exact ret_talks _
      | false => exact ret_talks _
    · intro e he
      cases e with
      | notFound => exact ret_talks _
      | _ => exact throw_talks he

theorem storeFlag_talks (api : Client) (inboxId : String) (mdef : MailboxDef)
    (current wanted : Flags) (uid : Nat) (r : Item × List Nat) (flag : Flag) :
    Talks cfg t (storeFlag api inboxId mdef current wanted uid r flag) := by
  rw [storeFlag]
  split
  · exact ret_talks _
  · split
    · exact (svc_talks (perform_faults rfl)).bind fun _ => ret_talks _
    · split
      · exact (svc_talks (setFlag_faults api inboxId mdef r.1 flag _)).bind fun _ => ret_talks _
      · exact ret_talks _

theorem storeOne_talks (api : Client) (inboxId : String) (mdef : MailboxDef) (plan : StorePlan)
    (snap : Snapshot) (deleted : List Nat) (target : Nat × Nat) :
    Talks cfg t (storeOne api inboxId mdef plan snap deleted target) := by
  rw [storeOne]
  split
  · exact ret_talks _
  · apply (Coro.Raises.foldEach (storeFlag_talks api inboxId mdef _ _ _) _ _).bind
    intro r
    apply mute_bind_talks rfl
    split
    · apply send_bind_talks _ (ret_talks _)
      intro attr raw hmem
      split at hmem
      · simp at hmem
      · simp at hmem
    · exact ret_talks _

theorem removeItems_talks (api : Client) (inboxId : String) (mdef : MailboxDef)
    (items : List Item) (silent : Bool) :
    Talks cfg t (removeItems cfg t api inboxId mdef items silent) := by
  rw [removeItems]
  apply (svc_talks (expungeItems_faults api inboxId mdef items)).bind
  intro errors
  apply (svc_talks (syncForced_faults api inboxId mdef.name)).bind
  intro _
  apply Coro.Raises.bind
  · split
    · exact mute_talks rfl
    · exact mute_talks rfl
  · exact fun _ => refuse_talks (spoken_noWith _ _)

theorem expungeDeleted_talks (onlyUids : Option (List Nat)) (silent : Bool) :
    Talks cfg t (expungeDeleted cfg t onlyUids silent) := by
  rw [expungeDeleted]
  apply requireSelected_talks
  intro sel
  apply context_talks
  intro c
  apply (mailboxOf_talks sel.name).bind
  intro mdef
  apply refuse_bind_talks (spoken_noWith _ _)
  apply session_talks
  intro l
  apply service_talks
  intro s
  dsimp only
  split
  · exact refuse_talks (spoken_noWith _ _)
  · split
    · exact ret_talks _
    · exact service_talks fun s => removeItems_talks c.1 c.2 mdef _ silent

/-! ## The handlers -/

section Handlers

variable {tag : String} (htag : Unmistaken tag)
include htag

theorem noop_talks : Talks cfg t (noop cfg t tag) := by
  unfold noop
  apply session_talks
  intro l
  split
  · apply (svc_talks (syncForced_faults _ _ _)).bind
    exact fun _ => mute_bind_talks rfl (ok_talks htag _ _)
  · exact ok_talks htag _ _

theorem logout_talks : Talks cfg t (logout tag) :=
  send_bind_talks trivial ((ok_talks htag _ _).bind fun _ => mute_talks rfl)

theorem plain_talks {name : String} {states : List State} {lines : List String}
    (h : ∀ line ∈ lines, Unnumbered line) : Talks cfg t (plain tag name states lines) := by
  unfold plain
  apply requireState_talks
  apply Coro.Raises.bind
  · exact each_talks lines fun line hline => send_talks (h line hline)
  · exact fun _ => ok_talks htag _ _

theorem login_talks (n : Nat) (userid password : String) :
    Talks cfg t (login cfg n tag userid password) := by
  unfold login
  apply session_talks
  intro l
  apply refuse_bind_talks (spoken_bad _)
  apply refuse_bind_talks (spoken_noWith _ _)
  apply refuse_bind_talks (spoken_noWith _ _)
  apply mute_bind_talks rfl
  apply context_talks
  intro c
  apply (svc_talks (ask_faults (.authMe c.1))).bind
  intro identity
  apply refuse_bind_talks (spoken_noWith _ _)
  apply (checkInbox_talks c.1 userid identity).bind
  exact fun _ => mute_bind_talks rfl (ok_talks htag _ _)

theorem select_talks (name : String) (readOnly : Bool) :
    Talks cfg t (select cfg t tag name readOnly) := by
  unfold select
  apply requireState_talks
  apply mute_bind_talks rfl
  split
  · exact throw_talks (spoken_no _)
  · rename_i mdef hlookup
    apply context_talks
    intro c
    apply (svc_talks (syncForced_faults c.1 c.2 mdef.name)).bind
    intro snap
    apply (openView_talks snap readOnly).bind
    intro _
    refine send_bind_talks trivial ?_
    apply (sendUnseen_talks _).bind
    intro _
    refine send_bind_talks trivial ?_
    refine send_bind_talks trivial ?_
    exact send_bind_talks trivial (ok_talks htag _ _)

theorem fetch_talks (uidMode : Bool) (set : SequenceSet) {attrs : List FetchAttr}
    (h : ∀ a ∈ attrs, Clear a.label) : Talks cfg t (fetch cfg t tag uidMode set attrs) := by
  have huid : Clear "UID" := by decide
  unfold fetch
  apply requireSelected_talks
  intro sel
  apply context_talks
  intro c
  apply (mailboxOf_talks sel.name).bind
  intro mdef
  apply (latestOrSync_talks c.1 c.2 mdef).bind
  intro snap
  apply session_talks
  intro l
  apply service_talks
  intro s
  apply Coro.Raises.bind
  · apply Coro.Raises.each
    apply fetchOne_talks c.1 c.2 mdef
    intro a ha
    dsimp only at ha
    split at ha
    · rcases List.mem_cons.mp ha with rfl | ha
      · exact huid
      · exact h a ha
    · exact h a ha
  · exact fun _ => ok_talks htag _ _

theorem append_talks (name : String) (message : Except String DraftFields) (clientId : String) :
    Talks cfg t (append cfg t tag name message clientId) := by
  unfold append
  apply requireState_talks
  split
  · exact throw_talks (spoken_noWith _ _)
  · apply refuse_bind_talks (spoken_noWith _ _)
    split
    · exact throw_talks (spoken_noWith _ _)
    · apply context_talks
      intro c
      apply (svc_talks (appendDraft_faults c.1 c.2 _ _)).bind
      exact fun r => (ok_talks htag _ _).bind fun _ => mute_talks rfl

theorem search_talks (uidMode : Bool) (crit : Crit) :
    Talks cfg t (search cfg txt t tag uidMode crit) := by
  unfold search
  apply requireSelected_talks
  intro sel
  apply context_talks
  intro c
  apply (mailboxOf_talks sel.name).bind
  intro mdef
  apply (latestOrSync_talks c.1 c.2 mdef).bind
  intro snap
  apply session_talks
  intro l
  apply service_talks
  intro s
  apply (Coro.Raises.foldEach (searchOne_talks (rawBytes_faults c.1 c.2 mdef)
    (sizeOf_faults c.1 c.2 mdef) crit snap uidMode) _ _).bind
  exact fun hits => send_bind_talks trivial (ok_talks htag _ _)

theorem store_talks (set : SequenceSet) (plan : StorePlan) :
    Talks cfg t (store cfg t tag set plan) := by
  unfold store
  apply requireSelected_talks
  intro sel
  apply context_talks
  intro c
  apply refuse_bind_talks (spoken_noWith _ _)
  apply (mailboxOf_talks sel.name).bind
  intro mdef
  apply refuse_bind_talks (spoken_noWith _ _)
  apply (latestOrSync_talks c.1 c.2 mdef).bind
  intro snap
  apply session_talks
  intro l
  apply service_talks
  intro s
  apply (Coro.Raises.foldEach (storeOne_talks c.1 c.2 mdef plan snap) _ _).bind
  intro _
  dsimp only
  split
  · exact mute_bind_talks rfl (ok_talks htag _ _)
  · exact ok_talks htag _ _

theorem expunge_talks : Talks cfg t (expunge cfg t tag) :=
  (expungeDeleted_talks none false).bind fun _ => ok_talks htag _ _

theorem uidExpunge_talks (set : SequenceSet) : Talks cfg t (uidExpunge cfg t tag set) :=
  requireSelected_talks fun _ => (expungeDeleted_talks _ false).bind fun _ => ok_talks htag _ _

theorem close_talks : Talks cfg t (close cfg t tag) := by
  unfold close
  apply requireSelected_talks
  intro sel
  apply session_talks
  intro l
  apply service_talks
  intro s
  have hleave : Talks cfg t ((act .deselect).bind fun _ =>
      send (.tagged tag "OK" "CLOSE completed" none)) := mute_bind_talks rfl (ok_talks htag _ _)
  split
  · exact (expungeDeleted_talks none true).bind fun _ => hleave
  · exact hleave

theorem copyFinish_talks (plan : CopyPlan) (api : Client) (inboxId : String) (source : MailboxDef)
    (pairs : List (Nat × Nat)) : Talks cfg t (copyFinish cfg t tag plan api inboxId source pairs) := by
  rw [copyFinish]
  apply (svc_talks (perform_faults rfl)).bind
  intro _
  apply service_talks
  intro s
  dsimp only
  split
  · refine send_bind_talks trivial ?_
    apply (svc_talks (syncForced_faults api inboxId source.name)).bind
    exact fun _ => mute_bind_talks rfl (ok_talks htag _ _)
  · exact ok_talks htag _ _

theorem copy_talks (plan : CopyPlan) (set : SequenceSet) (name : String) :
    Talks cfg t (copy cfg t tag plan set name) := by
  unfold copy
  apply requireSelected_talks
  intro sel
  apply context_talks
  intro c
  simp only
  split
  · exact throw_talks (spoken_noWith _ _)
  · apply refuse_bind_talks (spoken_noWith _ _)
    apply (mailboxOf_talks sel.name).bind
    intro source
    apply refuse_bind_talks (spoken_noWith _ _)
    apply refuse_bind_talks (spoken_noWith _ _)
    apply (latestOrSync_talks c.1 c.2 source).bind
    intro snap
    split
    · exact ok_talks htag _ _
    · apply (svc_talks (copyToTrash_faults c.1 c.2 source _)).bind
      exact fun pairs => copyFinish_talks htag plan c.1 c.2 source pairs

theorem status_talks (name : String) {wanted : List String} (h : ∀ key ∈ wanted, Clear key) :
    Talks cfg t (status cfg t tag name wanted) := by
  have hnames : ∀ m ∈ mailboxes, Clear m.name := by decide
  unfold status
  apply requireState_talks
  split
  · exact throw_talks (spoken_no _)
  · rename_i mdef hlookup
    apply context_talks
    intro c
    apply (svc_talks (sync_faults c.1 c.2 mdef.name false)).bind
    intro snap
    apply send_bind_talks _ (ok_talks htag _ _)
    refine ⟨hnames mdef (lookupMailbox_mem hlookup), fun v hv => ?_⟩
    obtain ⟨key, hkey, rfl⟩ := List.mem_map.mp hv
    exact h key hkey

end Handlers

/-! ## Commands -/

/-- The command of an event that a parser yields. -/
structure Command.Plain (cmd : Command) : Prop where
  tag : Unmistaken cmd.tag
  verb : cmd.verb.Plain

theorem handler_talks {cmd : Command} (h : cmd.Plain) : Talks cfg (.conn n) (handler cfg txt n cmd) := by
  obtain ⟨htag, hverb⟩ := h
  unfold handler
  dsimp only
  split
  · exact login_talks htag n _ _
  · exact logout_talks htag
  · exact noop_talks htag
  · exact select_talks htag _ _
  · rename_i heq
    rw [heq] at hverb
    exact fetch_talks htag _ _ hverb
  · exact store_talks htag _ _
  · exact search_talks htag _ _
  · exact expunge_talks htag
  · exact uidExpunge_talks htag _
  · exact copy_talks htag _ _ _
  · exact close_talks htag
  · exact append_talks htag _ _ _
  · rename_i heq
    rw [heq] at hverb
    exact status_talks htag _ hverb
  · rename_i heq
    rw [heq] at hverb
    exact plain_talks htag hverb
  · rename_i heq
    rw [heq] at hverb
    apply throw_talks
    intro status text code he
    cases he
    exact hverb

theorem report_talks {n : Nat} {cmd : Command} (h : Unmistaken cmd.tag) {e : Exc} (he : Spoken e) :
    Talks cfg t (report cfg n cmd e) := by
  have hno : ∀ text code, Talks cfg t (send (.tagged cmd.tag "NO" text code)) := fun text code =>
    send_talks (plain_tagged h (by simp) text code)
  unfold report
  split
  · rename_i status text code
    apply send_talks
    apply plain_tagged h
    rcases he status text code rfl with rfl | rfl
    · simp
    · simp
  · apply session_talks
    intro l
    split
    · exact hno _ _
    · split
      · exact hno _ _
      · exact send_bind_talks trivial (mute_talks rfl)
  · exact hno _ _
  · exact hno _ _
  · exact hno _ _
  · exact hno _ _
  · exact hno _ _
  · exact hno _ _

theorem runDeferred_talks : Talks cfg t runDeferred := by
  unfold runDeferred
  apply session_talks
  intro l
  apply mute_bind_talks rfl
  apply Coro.Raises.bind
  · apply Coro.Raises.each
    intro n
    apply Coro.Raises.attempt_bind (svc_talks (ask_faults (.deferred n)))
    · exact fun _ => ret_talks _
    · exact fun _ _ => ret_talks _
  · intro _
    apply session_talks
    intro l
    split
    · exact mute_bind_talks rfl flush_talks
    · exact ret_talks _

theorem dispatch_talks {cmd : Command} (h : cmd.Plain) :
    Talks cfg (.conn n) (dispatch cfg txt n cmd) := by
  have hrest : Talks cfg (.conn n) (session.bind fun l =>
      if l.state = .notAuthenticated ∧ l.api.isSome then
        (act .clearCredentials).bind fun _ => runDeferred else runDeferred) := by
    apply session_talks
    intro l
    split
    · exact mute_bind_talks rfl runDeferred_talks
    · exact runDeferred_talks
  unfold dispatch
  apply Coro.Raises.attempt_bind (handler_talks h)
  · exact fun _ => hrest
  · exact fun e he => (report_talks h.tag he).bind fun _ => hrest

/-! ## Events -/

/-- A tag of printable octets is echoed as it is. -/
theorem utf8_clean_asText {tag : Octets} (h : Printed tag) : utf8 (clean (asText tag)) = tag := by
  have hoctet : ∀ ch ∈ tag, String.utf8EncodeChar (cleanChar (Char.ofNat ch.toNat)) = [ch] := by
    intro ch hch
    have hprintable := h ch hch
    simp only [isPrintable, Bool.and_eq_true, decide_eq_true_eq] at hprintable
    have hlow : 32 ≤ ch.toNat := UInt8.le_iff_toNat_le.mp hprintable.1
    have hhigh : ch.toNat ≤ 126 := UInt8.le_iff_toNat_le.mp hprintable.2
    have hnat := toNat_ofNat_octet ch
    have hclean : isClean (Char.ofNat ch.toNat) = true := by
      simp only [isClean, Bool.and_eq_true, decide_eq_true_eq]
      omega
    rw [cleanChar, if_pos hclean]
    rcases utf8EncodeChar_cases (Char.ofNat ch.toNat) with ⟨_, heq⟩ | ⟨hwide, _⟩
    · rw [heq, hnat, UInt8.ofNat_toNat]
    · omega
  rw [utf8, clean, asText, String.toList_ofList, String.toList_ofList]
  clear h
  induction tag with
  | nil => rfl
  | cons ch tag ih =>
    rw [List.map_cons, List.map_cons, List.flatMap_cons, hoctet ch List.mem_cons_self,
      ih fun c hc => hoctet c (List.mem_cons_of_mem _ hc)]
    rfl

theorem unmistaken_asText {tag : Octets} (h : Echoable tag) : Unmistaken (asText tag) := by
  rw [Unmistaken, utf8_clean_asText h.printable]
  exact h.distinct

/-- An event that a parser yields is answered by what can be read back. -/
theorem handleEvent_talks {read : Reading} {e : Parser.Event} (he : e.Echoes)
    (hl : e.Legible) (hread : ∀ name args, (∀ tok ∈ args, Token.Legible tok) → (read name args).Plain) :
    Talks cfg (.conn n) (handleEvent cfg txt read n e) := by
  have hend : ∀ fatal : Bool, Talks cfg (.conn n) (if fatal then
      (send (.bye "closing connection")).bind fun _ => act (.setState .logout)
      else Coro.ret ()) := by
    intro fatal
    split
    · exact send_bind_talks trivial (mute_talks rfl)
    · exact ret_talks _
  cases e with
  | continuation length => exact send_talks trivial
  | error tag message fatal =>
    unfold handleEvent
    cases tag with
    | some tag =>
      have htag : Unmistaken (asText tag) := unmistaken_asText (he tag rfl)
      exact send_bind_talks (plain_tagged htag (by simp) message none) (hend fatal)
    | none =>
      have hbad : Unnumbered "BAD " := by decide
      have hne : utf8 (clean "BAD ") ≠ [] := by decide
      exact send_bind_talks (hbad.append hne) (hend fatal)
  | command tag name args =>
    obtain ⟨_, _, hargs⟩ := hl
    exact dispatch_talks ⟨unmistaken_asText (he tag rfl), hread _ _ hargs⟩

end Imap
end ImapGateway
