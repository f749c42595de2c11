/-
No change of flags is lost.

A session records the flags it is about to tell, and no handler tells others.  So whatever the
other sessions and upstream change, the next safe point announces it, and after it the client
believes what is there.
-/
import ImapGateway.Imap.Beliefs
import ImapGateway.Imap.Convergence

namespace ImapGateway
namespace Imap

open Async
open Mailbox hiding upper

variable {cfg : Config} {txt : TextConfig} {t : Tid} {n : Nat} {s : Shared} {α : Type}

/-- The actions that tell no flags. -/
def Act.wordless : Act → Bool
  | send (.fetch _ _ _) => false
  | _ => true

theorem Act.Recorded.of_wordless {p : Act} {l : Session} (h : p.wordless = true) :
    p.Recorded l := by
  cases p with
  | send r =>
    cases r with
    | fetch seq uid parts => cases h
    | _ => trivial
  | _ => trivial

/-! ## The logic -/

/-- The others leave the session alone, and what it tells it has recorded. -/
def tellLogic (cfg : Config) (t : Tid) : Logic Shared (Mailbox.Act ⊕ Act) Req Req.Answer where
  exec := Imap.exec cfg t
  rely s s' := s'.2 = s.2
  guar p s := match p with
    | .inl _ => True
    | .inr p => p.Recorded s.2
  asks _ _ := True
  gives _ _ _ := True

/-- The flags that the coroutine tells are recorded. -/
abbrev Records (cfg : Config) (t : Tid) (x : Prog α) : Prop :=
  Coro.Keeps (tellLogic cfg t) (fun _ => True) x

/-- What holds of the session holds of it after a coroutine of the service. -/
theorem svc_stays {x : Svc α} {J : Session → Prop} (h : J s.2) :
    (svc x).wp (tellLogic cfg t) (fun _ s => J s.2) (fun _ s => J s.2) s := by
  induction x generalizing s with
  | ret a => exact h
  | raise e => exact h
  | get k ih => exact ih s.1 h
  | act p k ih => exact ⟨trivial, ih h⟩
  | await q k ih =>
    refine ⟨trivial, fun s' hr a _ => ih a ?_⟩
    rw [show s'.2 = s.2 from hr]
    exact h

theorem svc_records (x : Svc α) : Records cfg t (svc x) := fun _ _ =>
  svc_stays (J := fun _ => True) trivial

theorem ret_records (a : α) : Records cfg t (Coro.ret a : Prog α) := .ret a

theorem throw_records (e : Exc) : Records cfg t (Coro.raise e : Prog α) := .raise e

theorem act_records {p : Act} (h : p.wordless = true) : Records cfg t (act p) := fun _ _ =>
  ⟨.of_wordless h, trivial⟩

theorem act_bind_records {p : Act} {k : Unit → Prog α} (h : p.wordless = true)
    (hk : Records cfg t (k ())) : Records cfg t ((act p).bind k) :=
  (act_records h).bind fun _ => hk

theorem session_records {k : Session → Prog α} (h : ∀ l, Records cfg t (k l)) :
    Records cfg t (session.bind k) := fun s hs => h s.2 s hs

theorem service_records {k : Service → Prog α} (h : ∀ s, Records cfg t (k s)) :
    Records cfg t (service.bind k) := fun s hs => h s.1 s hs

theorem refuse_records (c : Prop) [Decidable c] (e : Exc) : Records cfg t (refuse c e) := by
  rw [refuse]
  split
  · exact throw_records e
  · exact ret_records ()

theorem requireState_records (states : List State) : Records cfg t (requireState states) :=
  session_records fun _ => refuse_records _ _

theorem requireSelected_records : Records cfg t requireSelected := by
  rw [requireSelected]
  simp only [Coro.bind_eq, Coro.pure_eq, Coro.throw_eq]
  apply session_records
  intro l
  split
  · exact ret_records _
  · exact throw_records _

theorem context_records : Records cfg t context := by
  rw [context]
  simp only [Coro.bind_eq, Coro.pure_eq, Coro.throw_eq]
  apply session_records
  intro l
  split
  · exact ret_records _
  · exact throw_records _

theorem mailboxOf_records (name : String) : Records cfg t (mailboxOf name) := by
  rw [mailboxOf]
  split
  · exact ret_records _
  · exact throw_records _

theorem latestOrSync_records (api : Client) (inboxId : String) (mdef : MailboxDef) :
    Records cfg t (latestOrSync cfg t api inboxId mdef) := by
  rw [latestOrSync]
  simp only [Coro.bind_eq, Coro.pure_eq]
  apply service_records
  intro s
  split
  · exact ret_records _
  · exact svc_records _

theorem flush_records : Records cfg t flush := by
  rw [flush]
  simp only [Coro.bind_eq, Coro.pure_eq, Coro.throw_eq]
  apply session_records
  intro l
  split
  · exact ret_records ()
  · apply (svc_records _).attempt.bind
    intro r
    split
    · exact ret_records ()
    · exact throw_records _
    · exact act_records rfl

/-! ## FETCH and STORE -/

/-- The flags among the parts are those recorded. -/
def Backed (uid : Nat) (parts : List Part) (l : Session) : Prop :=
  ∀ sel, l.selected = some sel → ∀ f, partFlags parts = some f → sel.flagsSeen uid = some f

theorem Backed.of_eq {uid : Nat} {parts parts' : List Part} {l : Session} (h : Backed uid parts l)
    (heq : partFlags parts' = partFlags parts) : Backed uid parts' l := by
  intro sel hsel f hf
  exact h sel hsel f (heq ▸ hf)

theorem backed_recorded (uid : Nat) (parts : List Part) (flags : Flags) (l : Session) :
    Backed uid (parts ++ [.flags flags]) (l.recordFlags uid flags) := by
  intro sel hsel f hf
  have hflags : flags = f := by
    simpa [partFlags_append, partFlags] using hf
  rw [Session.recordFlags] at hsel
  split at hsel
  · rename_i hnone
    rw [hnone] at hsel
    cases hsel
  · cases hsel
    rw [← hflags]
    exact Function.update_self ..

theorem fetchParts_backed {api : Client} {inboxId : String} {mdef : MailboxDef} {plan : FetchPlan}
    {uid : Nat} {item : Item} {raw : Option Bytes} {parts : List Part} (attr : FetchAttr)
    (h : Backed uid parts s.2) :
    (fetchParts cfg api inboxId mdef plan uid item raw parts attr).wp (tellLogic cfg t)
      (fun parts s => Backed uid parts s.2) (fun _ _ => True) s := by
  unfold fetchParts
  simp only [Coro.bind_eq, Coro.pure_eq, Coro.throw_eq]
  split
  · exact h.of_eq (by simp [partFlags_append, partFlags])
  · exact ⟨trivial, backed_recorded _ _ _ _⟩
  · exact h.of_eq (by simp [partFlags_append, partFlags])
  · split
    · exact h.of_eq (by simp [partFlags_append, partFlags])
    · refine (Coro.wp_bind _ _).mpr (Coro.wp_mono (fun size s hs => ?_) (fun _ _ _ => trivial)
        (svc_stays (J := Backed uid parts) h))
      exact hs.of_eq (by simp [partFlags_append, partFlags])
  · split
    · exact h.of_eq (by simp [partFlags_append, partFlags])
    · trivial

theorem fetchItem_backed {api : Client} {inboxId : String} {mdef : MailboxDef} {plan : FetchPlan}
    {uid : Nat} {item : Item} :
    (fetchItem cfg api inboxId mdef plan uid item).wp (tellLogic cfg t)
      (fun parts s => Backed uid parts s.2) (fun _ _ => True) s := by
  have hparts : ∀ item raw s, (Coro.foldEach (fetchParts cfg api inboxId mdef plan uid item raw) []
      plan.attrs).wp (tellLogic cfg t) (fun parts s => Backed uid parts s.2) (fun _ _ => True) s := by
    intro item raw s
    have hround : ∀ (parts : List Part) (attr : FetchAttr) (_ : List FetchAttr) (s : Shared),
        Backed uid parts s.2 → (fetchParts cfg api inboxId mdef plan uid item raw parts attr).wp
          (tellLogic cfg t) (fun parts s => Backed uid parts s.2) (fun _ _ => True) s :=
      fun parts attr _ s hs => fetchParts_backed attr hs
    apply Coro.wp_foldEach (I := fun parts _ (s : Shared) => Backed uid parts s.2) hround
    intro sel _ f hf
    cases hf
  have hraw : Records cfg t (fetchRaw cfg api inboxId mdef plan item) := by
    rw [fetchRaw]
    simp only [Coro.bind_eq, Coro.pure_eq]
    split
    · exact (svc_records _).bind fun _ => ret_records _
    · exact ret_records _
  rw [fetchItem]
  simp only [Coro.bind_eq, Coro.pure_eq]
  refine (Coro.wp_bind _ _).mpr (Coro.wp_mono (fun raw s _ => ?_) (fun _ _ _ => trivial)
    (hraw s trivial))
  split
  · refine (Coro.wp_bind _ _).mpr (Coro.wp_mono (fun item s _ => ?_) (fun _ _ _ => trivial)
      (svc_records _ s trivial))
    refine (Coro.wp_bind _ _).mpr (Coro.wp_mono (fun parts s hs => ?_) (fun _ _ _ => trivial)
      (hparts item raw s))
    split
    · exact hs
    · exact ⟨trivial, backed_recorded _ _ _ _⟩
  · exact hparts item raw s

theorem fetchOne_records (api : Client) (inboxId : String) (mdef : MailboxDef) (plan : FetchPlan)
    (snap : Snapshot) (target : Nat × Nat) :
    Records cfg t (fetchOne cfg api inboxId mdef plan snap target) := by
  intro s _
  rw [fetchOne]
  simp only [Coro.bind_eq, Coro.pure_eq, Coro.throw_eq]
  split
  · trivial
  · rename_i item hitem
    rw [Coro.wp_bind, Coro.attempt, Coro.wp_handle, Coro.wp_bind]
    apply Coro.wp_mono _ _ fetchItem_backed
    · exact fun parts s hs => ⟨hs, flush_records _ trivial⟩
    · intro e s _
      cases e with
      | notFound => trivial
      | _ => trivial

theorem storeOne_records (api : Client) (inboxId : String) (mdef : MailboxDef) (plan : StorePlan)
    (snap : Snapshot) (deleted : List Nat) (target : Nat × Nat) :
    Records cfg t (storeOne api inboxId mdef plan snap deleted target) := by
  have hflag : ∀ current wanted r flag,
      Records cfg t (storeFlag api inboxId mdef current wanted target.2 r flag) := by
    intro current wanted r flag
    rw [storeFlag]
    simp only [Coro.bind_eq, Coro.pure_eq]
    split
    · exact ret_records _
    · split
      · exact (svc_records _).bind fun _ => ret_records _
      · split
        · exact (svc_records _).bind fun _ => ret_records _
        · exact ret_records _
  rw [storeOne]
  simp only [Coro.bind_eq, Coro.pure_eq]
  split
  · exact ret_records _
  · apply (Coro.Keeps.foldEach (hflag _ _) _ _).bind
    intro r s _
    refine ⟨trivial, ?_⟩
    have hback : ∀ parts, Backed target.2 (parts ++ [.flags (flagsOf r.1 r.2)])
        (s.2.recordFlags target.2 (flagsOf r.1 r.2)) := fun parts => backed_recorded _ _ _ _
    split
    · refine ⟨?_, trivial⟩
      split
      · exact hback [.uid target.2]
      · exact hback []
    · trivial

/-! ## The other handlers -/

variable {tag : String}

theorem tagged_records (status text : String) (code : Option Code) :
    Records cfg t (send (.tagged tag status text code)) := act_records rfl

theorem login_records (userid password : String) :
    Records cfg t (login cfg n tag userid password) := by
  have hinbox : ∀ api identity, Records cfg t (checkInbox api userid identity) := by
    intro api identity
    rw [checkInbox]
    simp only [Coro.bind_eq, Coro.pure_eq, Coro.throw_eq]
    split
    · apply (svc_records _).attempt.bind
      intro r
      split
      · exact ret_records _
      · exact throw_records _
      · exact throw_records _
      · exact throw_records _
    · exact ret_records _
  rw [login]
  simp only [Coro.bind_eq]
  apply session_records
  intro l
  apply (refuse_records _ _).bind
  intro _
  apply (refuse_records _ _).bind
  intro _
  apply (refuse_records _ _).bind
  intro _
  apply act_bind_records rfl
  apply context_records.bind
  intro c
  apply (svc_records _).bind
  intro identity
  apply (refuse_records _ _).bind
  intro _
  apply (hinbox _ _).bind
  intro _
  exact act_bind_records rfl (tagged_records _ _ _)

theorem logout_records : Records cfg t (logout tag) := by
  rw [logout]
  simp only [Coro.bind_eq]
  apply act_bind_records rfl
  exact act_bind_records rfl (act_records rfl)

theorem noop_records : Records cfg t (noop cfg t tag) := by
  rw [noop]
  simp only [Coro.bind_eq]
  apply session_records
  intro l
  split
  · apply (svc_records _).bind
    intro _
    exact act_bind_records rfl (tagged_records _ _ _)
  · exact tagged_records _ _ _

theorem select_records (name : String) (readOnly : Bool) :
    Records cfg t (select cfg t tag name readOnly) := by
  rw [select]
  simp only [Coro.bind_eq, Coro.throw_eq]
  apply (requireState_records _).bind
  intro _
  apply act_bind_records rfl
  split
  · exact throw_records _
  · apply context_records.bind
    intro c
    apply (svc_records _).bind
    intro snap
    have hopen : Records cfg t (openView snap readOnly) := fun _ _ =>
      ⟨trivial, trivial, trivial, trivial⟩
    have hunseen : ∀ seq, Records cfg t (sendUnseen seq) := by
      intro seq
      cases seq with
      | none => exact ret_records ()
      | some seq => exact act_records rfl
    apply hopen.bind
    intro _
    apply act_bind_records rfl
    apply (hunseen _).bind
    intro _
    apply act_bind_records rfl
    apply act_bind_records rfl
    exact act_bind_records rfl (tagged_records _ _ _)

theorem fetch_records (uidMode : Bool) (set : SequenceSet) (attrs : List FetchAttr) :
    Records cfg t (fetch cfg t tag uidMode set attrs) := by
  rw [fetch]
  simp only [Coro.bind_eq]
  apply requireSelected_records.bind
  intro sel
  apply context_records.bind
  intro c
  apply (mailboxOf_records _).bind
  intro mdef
  apply (latestOrSync_records _ _ _).bind
  intro snap
  apply session_records
  intro l
  apply service_records
  intro s
  exact (Coro.Keeps.each (fetchOne_records _ _ _ _ _) _).bind fun _ => tagged_records _ _ _

theorem append_records (name : String) (message : Except String DraftFields) (clientId : String) :
    Records cfg t (append cfg t tag name message clientId) := by
  unfold append
  simp only [Coro.bind_eq, Coro.throw_eq]
  apply (requireState_records _).bind
  intro _
  split
  · exact throw_records _
  · apply (refuse_records _ _).bind
    intro _
    split
    · exact throw_records _
    · apply context_records.bind
      intro c
      apply (svc_records _).bind
      intro r
      exact (tagged_records _ _ _).bind fun _ => act_records rfl

theorem search_records (uidMode : Bool) (crit : Crit) :
    Records cfg t (search cfg txt t tag uidMode crit) := by
  have hone : ∀ ctx snap hits target,
      Records cfg t (searchOne txt ctx crit snap uidMode hits target) := by
    intro ctx snap hits target
    rw [searchOne]
    simp only [Coro.bind_eq, Coro.pure_eq, Coro.throw_eq]
    split
    · exact ret_records _
    · apply (svc_records _).attempt.bind
      intro r
      split
      · exact ret_records _
      · exact ret_records _
      · exact ret_records _
      · exact throw_records _
  rw [search]
  simp only [Coro.bind_eq]
  apply requireSelected_records.bind
  intro sel
  apply context_records.bind
  intro c
  apply (mailboxOf_records _).bind
  intro mdef
  apply (latestOrSync_records _ _ _).bind
  intro snap
  apply session_records
  intro l
  apply service_records
  intro s
  apply (Coro.Keeps.foldEach (hone _ _) _ _).bind
  intro hits
  exact act_bind_records rfl (tagged_records _ _ _)

theorem store_records (set : SequenceSet) (plan : StorePlan) :
    Records cfg t (store cfg t tag set plan) := by
  rw [store]
  simp only [Coro.bind_eq]
  apply requireSelected_records.bind
  intro sel
  apply context_records.bind
  intro c
  apply (refuse_records _ _).bind
  intro _
  apply (mailboxOf_records _).bind
  intro mdef
  apply (refuse_records _ _).bind
  intro _
  apply (latestOrSync_records _ _ _).bind
  intro snap
  apply session_records
  intro l
  apply service_records
  intro s
  apply (Coro.Keeps.foldEach (storeOne_records _ _ _ _ _) _ _).bind
  intro _
  split
  · exact act_bind_records rfl (tagged_records _ _ _)
  · exact tagged_records _ _ _

theorem expungeDeleted_records (onlyUids : Option (List Nat)) (silent : Bool) :
    Records cfg t (expungeDeleted cfg t onlyUids silent) := by
  have hremove : ∀ api inboxId mdef items,
      Records cfg t (removeItems cfg t api inboxId mdef items silent) := by
    intro api inboxId mdef items
    rw [removeItems]
    simp only [Coro.bind_eq]
    apply (svc_records _).bind
    intro errors
    apply (svc_records _).bind
    intro _
    apply act_bind_records
    · split
      · rfl
      · rfl
    · exact refuse_records _ _
  rw [expungeDeleted]
  simp only [Coro.bind_eq, Coro.pure_eq]
  apply requireSelected_records.bind
  intro sel
  apply context_records.bind
  intro c
  apply (mailboxOf_records _).bind
  intro mdef
  apply (refuse_records _ _).bind
  intro _
  apply session_records
  intro l
  apply service_records
  intro s
  split
  · exact refuse_records _ _
  · split
    · exact ret_records ()
    · exact service_records fun _ => hremove _ _ _ _

theorem close_records : Records cfg t (close cfg t tag) := by
  rw [close]
  simp only [Coro.bind_eq]
  apply requireSelected_records.bind
  intro sel
  apply session_records
  intro l
  apply service_records
  intro s
  split
  · apply (expungeDeleted_records _ _).bind
    intro _
    exact act_bind_records rfl (tagged_records _ _ _)
  · exact act_bind_records rfl (tagged_records _ _ _)

theorem copyFinish_records (plan : CopyPlan) (api : Client) (inboxId : String)
    (source : MailboxDef) (pairs : List (Nat × Nat)) :
    Records cfg t (copyFinish cfg t tag plan api inboxId source pairs) := by
  rw [copyFinish]
  simp only [Coro.bind_eq]
  apply (svc_records _).bind
  intro _
  apply service_records
  intro s
  split
  · apply act_bind_records rfl
    apply (svc_records _).bind
    intro _
    exact act_bind_records rfl (tagged_records _ _ _)
  · exact tagged_records _ _ _

theorem copy_records (plan : CopyPlan) (set : SequenceSet) (name : String) :
    Records cfg t (copy cfg t tag plan set name) := by
  rw [copy]
  simp only [Coro.bind_eq, Coro.throw_eq]
  apply requireSelected_records.bind
  intro sel
  apply context_records.bind
  intro c
  split
  · exact throw_records _
  · apply (refuse_records _ _).bind
    intro _
    apply (mailboxOf_records _).bind
    intro source
    apply (refuse_records _ _).bind
    intro _
    apply (refuse_records _ _).bind
    intro _
    apply (latestOrSync_records _ _ _).bind
    intro snap
    split
    · exact tagged_records _ _ _
    · exact (svc_records _).bind fun pairs => copyFinish_records _ _ _ _ _

theorem status_records (name : String) (wanted : List String) :
    Records cfg t (status cfg t tag name wanted) := by
  rw [status]
  simp only [Coro.bind_eq, Coro.throw_eq]
  apply (requireState_records _).bind
  intro _
  split
  · exact throw_records _
  · apply context_records.bind
    intro c
    apply (svc_records _).bind
    intro snap
    exact act_bind_records rfl (tagged_records _ _ _)

theorem plain_records (name : String) (states : List State) (lines : List String) :
    Records cfg t (plain tag name states lines) := by
  rw [plain]
  apply (requireState_records _).bind
  intro _
  apply (Coro.Keeps.each (fun line => act_records rfl) _).bind
  exact fun _ => tagged_records _ _ _

theorem handler_records (cmd : Command) : Records cfg (.conn n) (handler cfg txt n cmd) := by
  rw [handler]
  split
  · exact login_records _ _
  · exact logout_records
  · exact noop_records
  · exact select_records _ _
  · exact fetch_records _ _ _
  · exact store_records _ _
  · exact search_records _ _
  · exact (expungeDeleted_records _ _).bind fun _ => tagged_records _ _ _
  · apply requireSelected_records.bind
    exact fun _ => (expungeDeleted_records _ _).bind fun _ => tagged_records _ _ _
  · exact copy_records _ _ _
  · exact close_records
  · exact append_records _ _ _
  · exact status_records _ _
  · exact plain_records _ _ _
  · exact throw_records _

theorem dispatch_records (cmd : Command) : Records cfg (.conn n) (dispatch cfg txt n cmd) := by
  have hreport : ∀ e, Records cfg (.conn n) (report cfg n cmd e) := by
    intro e
    cases e with
    | auth status =>
      rw [report]
      simp only [Coro.bind_eq]
      apply session_records
      intro l
      split
      · exact tagged_records _ _ _
      · split
        · exact tagged_records _ _ _
        · exact act_bind_records rfl (act_records rfl)
    | _ => exact tagged_records _ _ _
  have hdeferred : Records cfg (.conn n) runDeferred := by
    rw [runDeferred]
    simp only [Coro.bind_eq, Coro.pure_eq]
    apply session_records
    intro l
    apply act_bind_records rfl
    apply (Coro.Keeps.each (fun m => (svc_records _).attempt.bind fun _ => ret_records ()) _).bind
    intro _
    apply session_records
    intro l'
    split
    · exact act_bind_records rfl flush_records
    · exact ret_records ()
  rw [dispatch]
  simp only [Coro.bind_eq]
  apply (handler_records cmd).attempt.bind
  intro r
  have hrest : Records cfg (.conn n) (session.bind fun l =>
      if l.state = .notAuthenticated ∧ l.api.isSome then (act .clearCredentials).bind fun _ =>
        runDeferred else runDeferred) := by
    apply session_records
    intro l
    split
    · exact act_bind_records rfl hdeferred
    · exact hdeferred
  split
  · exact hrest
  · exact (hreport _).bind fun _ => hrest

/-! ## Runs -/

theorem tell_sound (cfg : Config) (txt : TextConfig) : Sound (gateway cfg txt) (fun _ _ => True)
    (tellLogic cfg) (fun _ _ => True) where
  exec _ := rfl
  refl _ _ := rfl
  trans _ _ _ _ h h' := h'.trans h
  others _ _ _ _ _ _ _ _ := rfl
  ambient t u p s lt lu hp := by
    cases p with
    | inl p => exact ⟨rfl, rfl⟩
    | inr p => cases hp
  asksStable _ _ _ _ _ _ := trivial
  restStable _ _ _ _ _ := trivial
  main w t i _ hready _ := by
    cases t with
    | conn n =>
      cases i with
      | command cmd => exact ((dispatch_records cmd).bind fun _ => flush_records) _ trivial
      | call c => exact svc_records _ _ trivial
      | task job => cases hready
    | task n =>
      cases i with
      | command cmd => cases hready
      | call c => cases hready
      | task job => exact svc_records _ _ trivial
  gives _ _ _ _ _ _ _ _ _ _ := trivial

/-- Every silent STORE leaves its messages with the flags that its client works out from those it
believed them to have. -/
def SilentStoresAgree (tr : Trace) : Prop :=
  ∀ t p s, ⟨t, .inr p, s⟩ ∈ tr → p.WorkedOut s.2

/-- After each safe point the client believes what is there, of all it believes anything of and
was told what was recorded of. -/
def FlagsAnnounced (tr : Trace) : Prop :=
  ∀ t s, ⟨t, .inr .flushPending, s⟩ ∈ tr → (s.2.flushPending s.1).Current s.1

theorem informed_of_threaded {s₀ s : Service} {l₀ l : Tid → Session} {tr : Trace}
    (h : Threaded (exec cfg) s₀ l₀ tr s l) (h₀ : ∀ t, (l₀ t).Informed)
    (hr : ∀ t p s, ⟨t, .inr p, s⟩ ∈ tr → p.Recorded s.2) (hw : SilentStoresAgree tr) :
    (∀ t, (l t).Informed) ∧ ∀ e ∈ tr, e.before.2.Informed := by
  induction h with
  | nil => exact ⟨h₀, fun e he => absurd he List.not_mem_nil⟩
  | @cons tr l e _ hl ih =>
    obtain ⟨hnow, hbefore⟩ := ih (fun t p s he => hr t p s (List.mem_cons_of_mem _ he))
      fun t p s he => hw t p s (List.mem_cons_of_mem _ he)
    have he : e.before.2.Informed := hl ▸ hnow e.tid
    constructor
    · intro u
      by_cases hu : u = e.tid
      · rw [hu, Function.update_self]
        obtain ⟨t, p, s⟩ := e
        cases p with
        | inl p => exact he
        | inr p => exact he.exec (hr t p s List.mem_cons_self) (hw t p s List.mem_cons_self)
      · rw [Function.update_of_ne hu]
        exact hnow u
    · intro d hd
      rcases List.mem_cons.mp hd with rfl | hd
      · exact he
      · exact hbefore d hd

/-- No change of flags is lost.  In every run in which the silent STOREs leave what their clients
work out, whatever the other sessions and upstream change and whichever requests fail: after each
safe point the flags that a client believes a message of its mailbox to have, from all responses
so far, are those of the latest snapshot and the marks, unless the last flags recorded for the
message were never told, because a FETCH or a STORE was cut short after it recorded them. -/
theorem no_flag_change_lost (b : Boot) {w : World} (h : Runs cfg txt b w)
    (hstores : SilentStoresAgree w.trace) : FlagsAnnounced w.trace := by
  have hholds : Sound.Holds (tellLogic cfg) (fun _ _ => True) b.world := fun _ => ⟨rfl, trivial⟩
  have hrecorded : ∀ t p s, ⟨t, .inr p, s⟩ ∈ w.trace → p.Recorded s.2 := by
    intro t p s he
    rcases (tell_sound cfg txt).guar_of_mem hholds h _ he with hin | hamb | hguar
    · cases hin
    · cases hamb
    · exact hguar
  have hinformed := (informed_of_threaded h.threaded (fun _ sel hsel => by cases hsel) hrecorded
    hstores).2
  intro t s he
  exact ((hinformed _ he).flush s.1).2

/-! ## A flag set by another session -/

/-- The action passes for `WorkedOut`. -/
def worksOut (e : GatewayEvent) : Bool :=
  match e.action with
  | .inr (.noteStored uids mode permanent flags) => match e.before.2.selected with
    | none => true
    | some sel => uids.all fun uid => match belief uid e.before.2.log with
      | none => true
      | some b => decide (sel.flagsSeen uid = some (mode.wanted permanent flags b))
  | _ => true

theorem silentStoresAgree_of_check {tr : Trace} (h : tr.all worksOut = true) :
    SilentStoresAgree tr := by
  intro t p s he
  have hcheck : worksOut ⟨t, .inr p, s⟩ = true := List.all_eq_true.mp h _ he
  cases p with
  | noteStored uids mode permanent flags =>
    intro sel hsel uid huid b hb
    simp only [worksOut, hsel, List.all_eq_true] at hcheck
    have hat := hcheck uid huid
    rw [hb] at hat
    exact of_decide_eq_true hat
  | _ => trivial

/-- One session fetches the flags of a message and sets `\Seen` silently, another sets
`\Flagged`, and the first asks for news. -/
def silentThenFlagged : List Move :=
  unreadOpened 0 0 ++ unreadOpened 1 1 ++
    [commandBy 0 (.fetch false ⟨[(1, 1)]⟩ [{ kind := .flags, label := "FLAGS" }]),
      answerTo (.conn 0) [], answerTo (.conn 0) [],
      commandBy 0 (.store ⟨[(1, 1)]⟩ ⟨.add, true, [.seen], false⟩), applyFor 0,
      patchedFor (.conn 0) ["received", "read"], answerTo (.conn 0) [],
      flagBy 1 .flagged, applyFor 1, patchedFor (.conn 1) ["received", "read", "starred"],
      answerTo (.conn 1) [], commandBy 0 .noop, listBy 2 0 inbox,
      answerTo (.task 2) [demoMessage "m1" ["received", "read", "starred"]], reapOf 2,
      answerTo (.conn 0) []]

/-- What the client believes of UID 1 before and after a safe point. -/
def learnt (e : GatewayEvent) : Option (Option Flags × Option Flags) :=
  match e.action with
  | .inr .flushPending =>
    some (belief 1 e.before.2.log, belief 1 (e.before.2.flushPending e.before.1).log)
  | _ => none

theorem no_flag_change_lost_flagged : ∃ w, Runs demoConfig demoText unreadBoot w ∧
    (∃ e ∈ w.trace, learnt e = some (some {.seen}, some {.seen, .flagged})) ∧
      FlagsAnnounced w.trace := by
  have hrun : (unreadBoot.world.run (gateway demoConfig demoText) silentThenFlagged).any (fun w =>
      (w.trace.any fun e => decide (learnt e = some (some {.seen}, some {.seen, .flagged}))) &&
        w.trace.all worksOut) = true := by
    decide +kernel
  obtain ⟨w, hw, hok⟩ := exists_run hrun
  rw [Bool.and_eq_true] at hok
  obtain ⟨e, he, hlearnt⟩ := List.any_eq_true.mp hok.1
  exact ⟨w, hw, ⟨e, he, of_decide_eq_true hlearnt⟩,
    no_flag_change_lost unreadBoot hw (silentStoresAgree_of_check hok.2)⟩

end Imap
end ImapGateway
