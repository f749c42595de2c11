/-
Credentials of a session.

LOGIN installs the credentials before it has verified them.  Every other handler
finds verified ones or none, keeps them, and makes every request with them.
-/
import ImapGateway.Imap.Changes
import ImapGateway.Mailbox.Credentials

namespace ImapGateway
namespace Imap

open Async Mailbox

/-! ## Vouched credentials -/

/-- What has been seen of clients: the LOGINs that made them, the identities their
keys were given, and the inboxes they could read.  Unless it is `binding` nothing is
said of the credentials of requests and tasks. -/
structure Evidence where
  tried : Client → String → Prop
  granted : Client → Identity → Prop
  shown : Client → String → Prop
  binding : Prop

/-- A client and an inbox a LOGIN verified: the key is scoped to the inbox or could
read it, and the inbox is allowed. -/
structure Evidence.Vouches (ev : Evidence) (cfg : Config) (api : Client) (inboxId : String) :
    Prop where
  tried : ev.tried api inboxId
  identity : ∃ identity, ev.granted api identity ∧
    (identity.scopeType = "inbox" ∧ identity.inboxId = some inboxId ∨ ev.shown api inboxId)
  allowed : cfg.allowedInboxId ≠ "" → inboxId = cfg.allowedInboxId

/-- What an answer shows connection `n` of its own clients. -/
def Evidence.Records (ev : Evidence) (n : Nat) : (q : Req) → q.Answer → Prop
  | .authMe api, .ok identity => api.owner = n → ev.granted api identity
  | .getInbox api inboxId, .ok _ => api.owner = n → ev.shown api inboxId
  | _, _ => True

/-- The session's own client and inbox are in a request, and they are vouched for
unless it is to verify them. -/
structure Evidence.Asks (ev : Evidence) (cfg : Config) (q : Req) (l : Session) : Prop where
  client : ∀ c, q.client = some c → l.api = some c
  inbox : ∀ i, q.inboxId = some i → l.inboxId = some i
  vouched : ∀ c, q.client = some c → q.verifies = false →
    ∃ i, l.inboxId = some i ∧ ev.Vouches cfg c i

/-- Credentials held outside LOGIN are vouched for. -/
structure Session.Authentic (l : Session) (ev : Evidence) (cfg : Config) : Prop where
  held : ∀ api, l.api = some api →
    l.state ≠ .notAuthenticated ∧ ∃ inboxId, l.inboxId = some inboxId ∧ ev.Vouches cfg api inboxId
  holds : l.state = .authenticated ∨ l.state = .selected → l.api.isSome = true

/-- The session works with these credentials. -/
structure Session.Serves (l : Session) (api : Client) (inboxId : String) : Prop where
  api : l.api = some api
  inboxId : l.inboxId = some inboxId
  state : l.state ≠ .notAuthenticated

/-- A session that shows itself authenticated is. -/
def Session.Sealed (l : Session) (ev : Evidence) (cfg : Config) : Prop :=
  l.state = .authenticated ∨ l.state = .selected →
    ∃ api inboxId, l.api = some api ∧ l.inboxId = some inboxId ∧ ev.Vouches cfg api inboxId

theorem Session.Authentic.sealed {l : Session} {ev : Evidence} {cfg : Config}
    (h : l.Authentic ev cfg) : l.Sealed ev cfg := by
  intro hstate
  obtain ⟨api, hapi⟩ := Option.isSome_iff_exists.mp (h.holds hstate)
  obtain ⟨_, inboxId, hinbox, hv⟩ := h.held api hapi
  exact ⟨api, inboxId, hapi, hinbox, hv⟩

theorem Session.Serves.authentic {l : Session} {ev : Evidence} {cfg : Config} {api : Client}
    {inboxId : String} (h : l.Serves api inboxId) (hv : ev.Vouches cfg api inboxId) :
    l.Authentic ev cfg where
  held c hc := by
    rw [h.api] at hc
    cases hc
    exact ⟨h.state, inboxId, h.inboxId, hv⟩
  holds _ := by rw [h.api]; rfl

/-! ## Actions -/

structure Session.SameLogin (l l' : Session) : Prop where
  state : l'.state = l.state
  inboxId : l'.inboxId = l.inboxId
  api : l'.api = l.api
  closed : l'.closed = l.closed

namespace Session

theorem SameLogin.trans {l₁ l₂ l₃ : Session} (h : SameLogin l₁ l₂) (h' : SameLogin l₂ l₃) :
    SameLogin l₁ l₃ :=
  ⟨h'.state.trans h.state, h'.inboxId.trans h.inboxId, h'.api.trans h.api,
    h'.closed.trans h.closed⟩

theorem Edits.sameLogin {uids : List Nat} {l l' : Session} (h : Edits uids l l') : SameLogin l l' :=
  ⟨h.state, h.inboxId, h.api, h.closed⟩

theorem flushArrived_sameLogin (items : List Nat) (l : Session) :
    SameLogin l (flushArrived items l) := by
  rw [flushArrived]
  split
  · exact ⟨rfl, rfl, rfl, rfl⟩
  · simp only
    split <;> exact ⟨rfl, rfl, rfl, rfl⟩

theorem flushPending_sameLogin (s : Service) (l : Session) : SameLogin l (l.flushPending s) := by
  rw [flushPending]
  cases hsel : l.selected with
  | none => exact ⟨rfl, rfl, rfl, rfl⟩
  | some sel =>
    simp only
    cases hlatest : l.latest s sel with
    | none => exact ⟨rfl, rfl, rfl, rfl⟩
    | some latest =>
      obtain ⟨he₁, _⟩ :=
        flushVanished_spec latest.uids latest.uids sel.uids.length hsel (Nat.le_refl _)
      have hu := he₁.sameLogin.trans (flushArrived_sameLogin latest.uids _)
      simp only
      split
      · exact hu
      · have hset : ∀ (l₂ : Session) (sel₂ : Selected), SameLogin l₂ (l₂.setSelected sel₂) :=
          fun _ _ => ⟨rfl, rfl, rfl, rfl⟩
        exact (hu.trans (hset _ _)).trans
          (flushFlags_spec latest _ _ (l := setSelected _ _) rfl).1.sameLogin

end Session

/-- The actions that change neither the credentials nor whether there are any. -/
def Act.retains : Act → Bool
  | .setCredentials _ _ _ | .clearCredentials | .setState _ => false
  | _ => true

theorem Session.Serves.exec {l : Session} {api : Client} {inboxId : String}
    (h : l.Serves api inboxId) (s : Service) {p : Act} (hp : p.retains = true) :
    (p.exec s l).Serves api inboxId := by
  have same : ∀ {l' : Session}, l.SameLogin l' → l'.Serves api inboxId := fun hl =>
    ⟨hl.api.trans h.api, hl.inboxId.trans h.inboxId, hl.state ▸ h.state⟩
  cases p with
  | setCredentials | clearCredentials | setState => cases hp
  | flushPending => exact same (Session.flushPending_sameLogin s l)
  | dropVanished errors =>
    refine same ?_
    simp only [Act.exec, Session.dropVanished]
    split
    · exact ⟨rfl, rfl, rfl, rfl⟩
    · split <;> exact ⟨rfl, rfl, rfl, rfl⟩
  | recordFlags uid flags =>
    refine same ?_
    simp only [Act.exec, Session.recordFlags]
    split <;> exact ⟨rfl, rfl, rfl, rfl⟩
  | deselect => exact ⟨h.api, h.inboxId, (fun h => by cases h)⟩
  | applySnapshot snap readOnly => exact ⟨h.api, h.inboxId, (fun h => by cases h)⟩
  | abort => exact ⟨h.api, h.inboxId, (fun h => by cases h)⟩
  | _ => exact same ⟨rfl, rfl, rfl, rfl⟩

/-! ## The logic -/

/-- The connection is told goodbye. -/
def Response.farewell : Response → Bool
  | .bye _ => true
  | _ => false

def Act.farewell : Act → Bool
  | .send r => r.farewell
  | _ => false

/-- The line that ends a session whose key is refused. -/
def refusedKey : Response := .bye "credentials no longer valid"

def loginLogic (cfg : Config) (ev : Evidence) (Λ : Ledger) (n : Nat) :
    Logic Shared (Mailbox.Act ⊕ Act) Req Req.Answer where
  exec := Imap.exec cfg (.conn n)
  rely s s' := (Λ.Holds s.1 → Mailbox.Follows s.1 s'.1 ∧ Λ.Holds s'.1) ∧ s'.2 = s.2
  guar p s := match p with
    | .inl p => (ev.binding → ∀ job gen, p = .createTask job gen →
        ev.Vouches cfg job.client job.inboxId) ∧ Λ.Settles p s.1
    | .inr p => p = .send refusedKey → ∃ api status, s.2.api = some api ∧ Λ.fault api status
  asks q s := Λ.Holds s.1 ∧ (ev.binding → ev.Asks cfg q s.2 ∧ s.2.Sealed ev cfg)
  gives q a s := Λ.Accounts q a s.1 ∧ ev.Records n q a

variable {cfg : Config} {txt : TextConfig} {ev : Evidence} {Λ : Ledger} {n : Nat} {api : Client}
  {inboxId : String}

/-- Where a handler stands that has verified credentials. -/
structure Working (Λ : Ledger) (api : Client) (inboxId : String) (s : Shared) : Prop where
  service : Λ.Holds s.1
  session : s.2.Serves api inboxId

/-- What a handler does with verified credentials it does with these alone. -/
abbrev Serving {α : Type} (cfg : Config) (ev : Evidence) (Λ : Ledger) (n : Nat) (api : Client)
    (inboxId : String) (x : Prog α) : Prop :=
  Coro.Raises (loginLogic cfg ev Λ n) (Working Λ api inboxId) (Λ.Blames api) x

theorem Working.exec_service {s : Shared} (h : Working Λ api inboxId s) {p : Mailbox.Act}
    (hp : Λ.Settles p s.1) : Working Λ api inboxId (exec cfg (.conn n) (.inl p) s) :=
  ⟨h.service.exec cfg (.conn n) hp, h.session⟩

theorem keyFrames (hv : ev.Vouches cfg api inboxId) :
    Coro.Frames (keyLogic cfg (.conn n) api inboxId Λ) (loginLogic cfg ev Λ n) Sum.inl Prod.fst
      (Working Λ api inboxId) where
  exec _ _ := rfl
  guar p s hs hg := by
    refine ⟨⟨fun _ job gen he => ?_, hg.2⟩, hs.exec_service hg.2⟩
    obtain ⟨hc, hi⟩ := hg.1 job gen he
    rw [hc, hi]
    exact hv
  rely s s' hs hr := ⟨hr.1, (hr.1 hs.service).2, hr.2 ▸ hs.session⟩
  asks q s hs hq := by
    have hl := hs.session
    refine ⟨hs.service, fun _ => ⟨⟨fun c hc => ?_, fun i hi => ?_, fun c hc _ => ?_⟩,
      (hl.authentic hv).sealed⟩⟩
    · rw [hq.1.1 c hc]
      exact hl.api
    · rw [hq.1.2 i hi]
      exact hl.inboxId
    · rw [hq.1.1 c hc]
      exact ⟨inboxId, hl.inboxId, hv⟩
  gives _ _ _ h := h.1

section Serving

theorem act_serving {p : Act} (hp : p.retains = true) (hr : p.farewell = false) :
    Serving cfg ev Λ n api inboxId (act p) := by
  refine Coro.Raises.perform fun s hs => ⟨fun h => ?_, hs.service, hs.session.exec s.1 hp⟩
  cases h
  cases hr

theorem send_serving {r : Response} (hr : r.farewell = false) :
    Serving cfg ev Λ n api inboxId (send r) := act_serving rfl hr

theorem act_bind_serving {α : Type} {p : Act} {k : Unit → Prog α} (hp : p.retains = true)
    (hr : p.farewell = false) (hk : Serving cfg ev Λ n api inboxId (k ())) :
    Serving cfg ev Λ n api inboxId ((act p).bind k) := (act_serving hp hr).bind fun _ => hk

theorem send_bind_serving {α : Type} {r : Response} {k : Unit → Prog α} (hr : r.farewell = false)
    (hk : Serving cfg ev Λ n api inboxId (k ())) :
    Serving cfg ev Λ n api inboxId ((send r).bind k) := (send_serving hr).bind fun _ => hk

theorem throw_serving {α : Type} {e : Exc} (h : e.rejects = false) :
    Serving cfg ev Λ n api inboxId (Coro.raise e : Prog α) := Coro.Raises.raise (.of_accepted h)

theorem session_serving {α : Type} {k : Session → Prog α}
    (h : ∀ l, Serving cfg ev Λ n api inboxId (k l)) :
    Serving cfg ev Λ n api inboxId (session.bind k) := Coro.Raises.read fun s hs => h s.2 s hs

theorem service_serving {α : Type} {k : Service → Prog α}
    (h : ∀ s, Serving cfg ev Λ n api inboxId (k s)) :
    Serving cfg ev Λ n api inboxId (service.bind k) := Coro.Raises.read fun s hs => h s.1 s hs

theorem refuse_serving {c : Prop} [Decidable c] {e : Exc} (h : e.rejects = false) :
    Serving cfg ev Λ n api inboxId (refuse c e) := by
  rw [refuse]
  split
  · exact throw_serving h
  · exact Coro.Raises.ret _

theorem mailboxOf_serving (name : String) : Serving cfg ev Λ n api inboxId (mailboxOf name) := by
  rw [mailboxOf]
  split
  · exact Coro.Raises.ret _
  · exact throw_serving rfl

theorem requireSelected_serving {α : Type} {k : Selected → Prog α}
    (hk : ∀ sel, Serving cfg ev Λ n api inboxId (k sel)) :
    Serving cfg ev Λ n api inboxId (requireSelected.bind k) := fun s hs =>
  requireSelected_bind ⟨.of_accepted rfl, hs⟩ fun sel _ _ => hk sel s hs

/-- The credentials a handler asserts are the ones it works with. -/
theorem context_serving {α : Type} {k : Client × String → Prog α}
    (hk : Serving cfg ev Λ n api inboxId (k (api, inboxId))) :
    Serving cfg ev Λ n api inboxId (context.bind k) := fun s hs => by
  refine context_bind ⟨.of_accepted rfl, hs⟩ fun c i hc hi => ?_
  cases hc.symm.trans hs.session.api
  cases hi.symm.trans hs.session.inboxId
  exact hk s hs

theorem requireState_serving {α : Type} {states : List State} {k : Unit → Prog α}
    (hk : Serving cfg ev Λ n api inboxId (k ())) :
    Serving cfg ev Λ n api inboxId ((requireState states).bind k) := fun s hs =>
  requireState_bind ⟨.of_accepted rfl, hs⟩ fun _ => hk s hs

/-- A guard, and what follows it. -/
theorem refuse_bind_serving {α : Type} {c : Prop} [Decidable c] {e : Exc} {k : Unit → Prog α}
    (h : e.rejects = false) (hk : Serving cfg ev Λ n api inboxId (k ())) :
    Serving cfg ev Λ n api inboxId ((refuse c e).bind k) := (refuse_serving h).bind fun _ => hk

theorem openView_serving (snap : Snapshot) (readOnly : Bool) :
    Serving cfg ev Λ n api inboxId (openView snap readOnly) := by
  rw [openView]
  exact act_bind_serving rfl rfl (send_bind_serving rfl (send_serving rfl))

theorem sendUnseen_serving (seq : Option Nat) :
    Serving cfg ev Λ n api inboxId (sendUnseen seq) := by
  unfold sendUnseen
  split
  · exact send_serving rfl
  · exact Coro.Raises.ret _

variable (hv : ev.Vouches cfg api inboxId) (hfair : Λ.Fair)
include hv

theorem svc_raises {α : Type} {x : Svc α} {B : Exc → Prop}
    (hx : Coro.Raises (keyLogic cfg (.conn n) api inboxId Λ) Λ.Holds B x) :
    Coro.Raises (loginLogic cfg ev Λ n) (Working Λ api inboxId) B (svc x) := fun s hs =>
  Coro.wp_mono (fun _ _ h => h.2) (fun _ _ h => ⟨h.1.1, h.2⟩)
    (Coro.wp_lift (keyFrames hv) hs (hx s.1 hs.service))

theorem svc_serving {α : Type} {x : Svc α} (hx : Minds cfg (.conn n) api inboxId Λ x) :
    Serving cfg ev Λ n api inboxId (svc x) := svc_raises hv hx

theorem flush_serving : Serving cfg ev Λ n api inboxId flush := by
  refine session_serving fun l => ?_
  split
  · exact Coro.Raises.ret _
  · refine Coro.Raises.attempt_bind (D := fun _ => True) (svc_raises hv fun s hs => ?_)
      (fun _ => Coro.Raises.ret _) fun e _ => ?_
    · refine ask_iff.mpr ⟨⟨⟨nofun, nofun⟩, nofun⟩, fun s' hr a ha => ?_⟩
      have hs' : Λ.Holds s' := (hr hs).2
      cases a with
      | ok v => exact hs'
      | error e => exact ⟨trivial, hs'⟩
    · cases e with
      | cancelled => exact throw_serving rfl
      | _ => exact act_serving rfl rfl

include hfair in
theorem latestOrSync_serving (mdef : MailboxDef) :
    Serving cfg ev Λ n api inboxId (latestOrSync cfg (.conn n) api inboxId mdef) := by
  refine service_serving fun s => ?_
  split
  · exact Coro.Raises.ret _
  · exact svc_serving hv (syncForced_minds fun _ _ => hfair _)

/-! ## The handlers that work on a mailbox -/

variable (hcharge : ∀ url, Λ.charge (.download api url) = some api)

section Content

include hcharge

theorem fetchParts_serving (mdef : MailboxDef) (plan : FetchPlan) (uid : Nat) (item : Item)
    (raw : Option Bytes) (parts : List Part) (attr : FetchAttr) : Serving cfg ev Λ n api inboxId
      (fetchParts cfg api inboxId mdef plan uid item raw parts attr) := by
  unfold fetchParts
  split
  · exact Coro.Raises.ret _
  · exact act_bind_serving rfl rfl (Coro.Raises.ret _)
  · exact Coro.Raises.ret _
  · split
    · exact Coro.Raises.ret _
    · exact (svc_serving hv (sizeOf_minds hcharge mdef item)).bind fun _ => Coro.Raises.ret _
  · split
    · exact Coro.Raises.ret _
    · exact throw_serving rfl

theorem fetchItem_serving (mdef : MailboxDef) (plan : FetchPlan) (uid : Nat) (item : Item) :
    Serving cfg ev Λ n api inboxId (fetchItem cfg api inboxId mdef plan uid item) := by
  have hparts := fetchParts_serving (n := n) hv hcharge mdef plan uid
  rw [fetchItem]
  refine Coro.Raises.bind ?_ fun raw => ?_
  · rw [fetchRaw]
    split
    · exact (svc_serving hv (rawBytes_minds hcharge mdef item)).bind fun _ => Coro.Raises.ret _
    · exact Coro.Raises.ret _
  · split
    · refine (svc_serving hv (setFlag_minds mdef item .seen true)).bind fun item' => ?_
      refine (Coro.Raises.foldEach (hparts item' raw) _ _).bind fun parts => ?_
      split
      · exact Coro.Raises.ret _
      · exact act_bind_serving rfl rfl (Coro.Raises.ret _)
    · exact Coro.Raises.foldEach (hparts item raw) _ _

theorem fetchOne_serving (mdef : MailboxDef) (plan : FetchPlan) (snap : Snapshot)
    (target : Nat × Nat) :
    Serving cfg ev Λ n api inboxId (fetchOne cfg api inboxId mdef plan snap target) := by
  rw [fetchOne]
  split
  · exact Coro.Raises.ret _
  · refine Coro.Raises.attempt_bind (fetchItem_serving hv hcharge mdef plan _ _)
      (fun parts => send_bind_serving rfl (flush_serving hv)) fun e he => ?_
    cases e with
    | notFound => exact Coro.Raises.ret _
    | _ => exact Coro.Raises.raise he

include hfair in
theorem fetch_serving (tag : String) (uidMode : Bool) (set : SequenceSet)
    (attrs : List FetchAttr) :
    Serving cfg ev Λ n api inboxId (fetch cfg (.conn n) tag uidMode set attrs) := by
  rw [fetch]
  refine requireSelected_serving fun sel => context_serving ((mailboxOf_serving _).bind fun mdef => ?_)
  refine (latestOrSync_serving hv hfair mdef).bind fun snap => session_serving fun l =>
    service_serving fun s => ?_
  exact (Coro.Raises.each (fetchOne_serving hv hcharge mdef _ snap) _).bind fun _ =>
    send_serving rfl

end Content

include hfair in
theorem append_serving (tag name : String) (message : Except String DraftFields)
    (clientId : String) :
    Serving cfg ev Λ n api inboxId (append cfg (.conn n) tag name message clientId) := by
  unfold append
  refine requireState_serving ?_
  split
  · exact throw_serving rfl
  · refine refuse_bind_serving rfl ?_
    split
    · exact throw_serving rfl
    · refine context_serving ((svc_serving hv (appendDraft_minds hfair _ _)).bind fun r => ?_)
      exact send_bind_serving rfl (act_serving rfl rfl)

theorem searchOne_serving {ctx : SearchContext}
    (hraw : ∀ item, Minds cfg (.conn n) api inboxId Λ (ctx.raw item))
    (hsize : ∀ item, Minds cfg (.conn n) api inboxId Λ (ctx.size item)) (crit : Crit)
    (snap : Snapshot) (uidMode : Bool) (hits : List Nat) (target : Nat × Nat) :
    Serving cfg ev Λ n api inboxId (searchOne txt ctx crit snap uidMode hits target) := by
  rw [searchOne]
  split
  · exact Coro.Raises.ret _
  · refine Coro.Raises.attempt_bind (svc_serving hv (evaluate_raises (hraw _) (hsize _) crit))
      (fun hit => ?_) fun e he => ?_
    · cases hit with
      | true => exact Coro.Raises.ret _
      | false => exact Coro.Raises.ret _
    · cases e with
      | notFound => exact Coro.Raises.ret _
      | _ => exact Coro.Raises.raise he

include hcharge hfair in
theorem search_serving (tag : String) (uidMode : Bool) (crit : Crit) :
    Serving cfg ev Λ n api inboxId (search cfg txt (.conn n) tag uidMode crit) := by
  rw [search]
  refine requireSelected_serving fun sel => context_serving ((mailboxOf_serving _).bind fun mdef => ?_)
  refine (latestOrSync_serving hv hfair mdef).bind fun snap => session_serving fun l =>
    service_serving fun s => ?_
  refine (Coro.Raises.foldEach (searchOne_serving hv (rawBytes_minds hcharge mdef)
    (sizeOf_minds hcharge mdef) crit snap uidMode) _ _).bind fun hits => ?_
  exact send_bind_serving rfl (send_serving rfl)

theorem storeFlag_serving (mdef : MailboxDef) (current wanted : Flags) (uid : Nat)
    (r : Item × List Nat) (flag : Flag) : Serving cfg ev Λ n api inboxId
      (storeFlag api inboxId mdef current wanted uid r flag) := by
  rw [storeFlag]
  split
  · exact Coro.Raises.ret _
  · split
    · exact (svc_serving hv (perform_minds rfl)).bind fun _ => Coro.Raises.ret _
    · split
      · exact (svc_serving hv (setFlag_minds _ _ _ _)).bind fun _ => Coro.Raises.ret _
      · exact Coro.Raises.ret _

theorem storeOne_serving (mdef : MailboxDef) (plan : StorePlan) (snap : Snapshot)
    (deleted : List Nat) (target : Nat × Nat) : Serving cfg ev Λ n api inboxId
      (storeOne api inboxId mdef plan snap deleted target) := by
  rw [storeOne]
  split
  · exact Coro.Raises.ret _
  · refine (Coro.Raises.foldEach (storeFlag_serving hv mdef _ _ _) _ _).bind fun r => ?_
    refine act_bind_serving rfl rfl ?_
    split
    · exact send_bind_serving rfl (Coro.Raises.ret _)
    · exact Coro.Raises.ret _

include hfair in
theorem store_serving (tag : String) (set : SequenceSet) (plan : StorePlan) :
    Serving cfg ev Λ n api inboxId (store cfg (.conn n) tag set plan) := by
  rw [store]
  refine requireSelected_serving fun sel => context_serving (refuse_bind_serving rfl ?_)
  refine (mailboxOf_serving _).bind fun mdef => refuse_bind_serving rfl ?_
  refine (latestOrSync_serving hv hfair mdef).bind fun snap => session_serving fun l =>
    service_serving fun s => ?_
  refine (Coro.Raises.foldEach (storeOne_serving hv mdef plan snap) _ _).bind fun _ => ?_
  simp only
  split
  · exact act_bind_serving rfl rfl (send_serving rfl)
  · exact send_serving rfl

include hfair in
theorem removeItems_serving (mdef : MailboxDef) (items : List Item) (silent : Bool) :
    Serving cfg ev Λ n api inboxId
      (removeItems cfg (.conn n) api inboxId mdef items silent) := by
  rw [removeItems]
  refine (svc_serving hv (expungeItems_minds mdef items)).bind fun errors => ?_
  refine (svc_serving hv (syncForced_minds fun _ _ => hfair _)).bind fun _ => ?_
  refine Coro.Raises.bind ?_ fun _ => refuse_serving rfl
  split
  · exact act_serving rfl rfl
  · exact act_serving rfl rfl

include hfair in
theorem expungeDeleted_serving (onlyUids : Option (List Nat)) (silent : Bool) :
    Serving cfg ev Λ n api inboxId (expungeDeleted cfg (.conn n) onlyUids silent) := by
  rw [expungeDeleted]
  refine requireSelected_serving fun sel => context_serving ((mailboxOf_serving _).bind fun mdef => ?_)
  refine refuse_bind_serving rfl (session_serving fun l => service_serving fun s => ?_)
  simp only
  split
  · exact refuse_serving rfl
  · split
    · exact Coro.Raises.ret _
    · exact service_serving fun s => removeItems_serving hv hfair mdef _ silent

include hfair in
theorem expunge_serving (tag : String) :
    Serving cfg ev Λ n api inboxId (expunge cfg (.conn n) tag) := by
  rw [expunge]
  exact (expungeDeleted_serving hv hfair none false).bind fun _ => send_serving rfl

include hfair in
theorem uidExpunge_serving (tag : String) (set : SequenceSet) :
    Serving cfg ev Λ n api inboxId (uidExpunge cfg (.conn n) tag set) := by
  rw [uidExpunge]
  exact requireSelected_serving fun sel =>
    (expungeDeleted_serving hv hfair _ false).bind fun _ => send_serving rfl

include hfair in
theorem close_serving (tag : String) :
    Serving cfg ev Λ n api inboxId (close cfg (.conn n) tag) := by
  rw [close]
  refine requireSelected_serving fun sel => session_serving fun l => service_serving fun s => ?_
  split
  · exact (expungeDeleted_serving hv hfair none true).bind fun _ =>
      act_bind_serving rfl rfl (send_serving rfl)
  · exact act_bind_serving rfl rfl (send_serving rfl)

include hfair in
theorem copyFinish_serving (tag : String) (plan : CopyPlan) (source : MailboxDef)
    (pairs : List (Nat × Nat)) : Serving cfg ev Λ n api inboxId
      (copyFinish cfg (.conn n) tag plan api inboxId source pairs) := by
  rw [copyFinish]
  refine (svc_serving hv (perform_minds rfl)).bind fun _ => service_serving fun s => ?_
  simp only
  split
  · refine send_bind_serving rfl ((svc_serving hv (syncForced_minds fun _ _ => hfair _)).bind fun _ => ?_)
    exact act_bind_serving rfl rfl (send_serving rfl)
  · exact send_serving rfl

include hfair in
theorem copy_serving (tag : String) (plan : CopyPlan) (set : SequenceSet) (name : String) :
    Serving cfg ev Λ n api inboxId (copy cfg (.conn n) tag plan set name) := by
  rw [copy]
  refine requireSelected_serving fun sel => context_serving ?_
  simp only
  split
  · exact throw_serving rfl
  · refine refuse_bind_serving rfl ((mailboxOf_serving _).bind fun source => ?_)
    refine refuse_bind_serving rfl (refuse_bind_serving rfl ?_)
    refine (latestOrSync_serving hv hfair source).bind fun snap => ?_
    split
    · exact send_serving rfl
    · exact (svc_serving hv (copyToTrash_minds hfair source _)).bind fun pairs =>
        copyFinish_serving hv hfair tag plan source pairs

include hfair in
theorem status_serving (tag name : String) (wanted : List String) :
    Serving cfg ev Λ n api inboxId (status cfg (.conn n) tag name wanted) := by
  rw [status]
  refine requireState_serving ?_
  split
  · exact throw_serving rfl
  · refine context_serving ((svc_serving hv (sync_minds (fun _ _ => hfair _) false)).bind fun snap => ?_)
    exact send_bind_serving rfl (send_serving rfl)

include hfair in
theorem select_serving (tag name : String) (readOnly : Bool) :
    Serving cfg ev Λ n api inboxId (select cfg (.conn n) tag name readOnly) := by
  rw [select]
  refine requireState_serving (act_bind_serving rfl rfl ?_)
  split
  · exact throw_serving rfl
  · refine context_serving ((svc_serving hv (syncForced_minds fun _ _ => hfair _)).bind fun snap => ?_)
    refine (openView_serving _ _).bind fun _ => send_bind_serving rfl ?_
    refine (sendUnseen_serving _).bind fun _ => send_bind_serving rfl ?_
    exact send_bind_serving rfl (send_bind_serving rfl (send_serving rfl))

end Serving

/-! ## Commands -/

/-- Between commands: credentials held are vouched for. -/
structure Ready (Λ : Ledger) (ev : Evidence) (cfg : Config) (s : Shared) : Prop where
  service : Λ.Holds s.1
  session : s.2.Authentic ev cfg

/-- Where a handler leaves off that raises: LOGIN may have installed credentials that
are not vouched for.  A key that was refused is the session's own. -/
structure Ended (Λ : Ledger) (ev : Evidence) (cfg : Config) (e : Exc) (s : Shared) : Prop where
  service : Λ.Holds s.1
  session : s.2.Authentic ev cfg ∨ s.2.state = .notAuthenticated
  blames : ∀ status, e = .auth status → ∃ api, s.2.api = some api ∧ Λ.fault api status

variable {s s' : Shared}

theorem Ready.ended (h : Ready Λ ev cfg s) {e : Exc} (he : ∀ status, e ≠ .auth status) :
    Ended Λ ev cfg e s :=
  ⟨h.service, .inl h.session, fun status heq => absurd heq (he status)⟩

theorem Working.ready (h : Working Λ api inboxId s) (hv : ev.Vouches cfg api inboxId) :
    Ready Λ ev cfg s := ⟨h.service, h.session.authentic hv⟩

/-- A session that is authenticated works with vouched credentials. -/
theorem Ready.working (h : Ready Λ ev cfg s)
    (hstate : s.2.state = .authenticated ∨ s.2.state = .selected) :
    ∃ api inboxId, ev.Vouches cfg api inboxId ∧ Working Λ api inboxId s := by
  obtain ⟨api, inboxId, hapi, hid, hv⟩ := h.session.sealed hstate
  exact ⟨api, inboxId, hv, h.service, hapi, hid, (h.session.held api hapi).1⟩

theorem Serving.handled {x : Prog Unit} (hx : Serving cfg ev Λ n api inboxId x)
    (hv : ev.Vouches cfg api inboxId) (hs : Working Λ api inboxId s) :
    x.wp (loginLogic cfg ev Λ n) (fun _ => Ready Λ ev cfg) (Ended Λ ev cfg) s :=
  Coro.wp_mono (fun _ _ h => h.ready hv) (fun _ _ h => ⟨h.2.service, .inl (h.2.ready hv).session,
    fun status he => ⟨api, h.2.session.api, h.1 status he⟩⟩) (hx s hs)

/-- A handler that needs a selected mailbox. -/
theorem selected_handled {x : Prog Unit} (hx : ∃ k, x = requireSelected.bind k)
    (hserve : ∀ api inboxId, ev.Vouches cfg api inboxId → Serving cfg ev Λ n api inboxId x)
    (hs : Ready Λ ev cfg s) :
    x.wp (loginLogic cfg ev Λ n) (fun _ => Ready Λ ev cfg) (Ended Λ ev cfg) s := by
  by_cases hstate : s.2.state = .selected
  · obtain ⟨api, inboxId, hv, hw⟩ := hs.working (.inr hstate)
    exact (hserve api inboxId hv).handled hv hw
  · obtain ⟨k, rfl⟩ := hx
    exact requireSelected_bind (hs.ended nofun) fun _ h _ => absurd h hstate

/-- EXPUNGE leaves that check to `_expunge_deleted`. -/
theorem expunge_handled (hfair : Λ.Fair) (tag : String) (hs : Ready Λ ev cfg s) :
    (expunge cfg (.conn n) tag).wp (loginLogic cfg ev Λ n) (fun _ => Ready Λ ev cfg)
      (Ended Λ ev cfg) s := by
  by_cases hstate : s.2.state = .selected
  · obtain ⟨api, inboxId, hv, hw⟩ := hs.working (.inr hstate)
    exact (expunge_serving hv hfair tag).handled hv hw
  · rw [expunge, expungeDeleted]
    refine (Coro.wp_bind _ _).mpr (requireSelected_bind (hs.ended (fun _ h => by cases h)) fun _ h _ => ?_)
    exact absurd h hstate

/-- A handler that needs an authenticated session. -/
theorem authenticated_handled {x : Prog Unit}
    (hx : ∃ k, x = (requireState [.authenticated, .selected]).bind k)
    (hserve : ∀ api inboxId, ev.Vouches cfg api inboxId → Serving cfg ev Λ n api inboxId x)
    (hs : Ready Λ ev cfg s) :
    x.wp (loginLogic cfg ev Λ n) (fun _ => Ready Λ ev cfg) (Ended Λ ev cfg) s := by
  by_cases hstate : s.2.state ∈ [State.authenticated, State.selected]
  · obtain ⟨api, inboxId, hv, hw⟩ := hs.working (by simpa using hstate)
    exact (hserve api inboxId hv).handled hv hw
  · obtain ⟨k, rfl⟩ := hx
    exact requireState_bind (hs.ended nofun) fun h => absurd h hstate

theorem Ready.send (h : Ready Λ ev cfg s) (r : Response) :
    Ready Λ ev cfg ((loginLogic cfg ev Λ n).exec (.inr (.send r)) s) :=
  ⟨h.service, h.session.held, h.session.holds⟩

/-- A line that does not refuse a key, and what follows it. -/
theorem send_bind_ready {α : Type} {r : Response} {k : Unit → Prog α} {Q : α → Shared → Prop}
    {E : Exc → Shared → Prop} (h : Ready Λ ev cfg s) (hr : r ≠ refusedKey)
    (hk : ∀ s', Ready Λ ev cfg s' → (k ()).wp (loginLogic cfg ev Λ n) Q E s') :
    ((send r).bind k).wp (loginLogic cfg ev Λ n) Q E s :=
  ⟨fun he => absurd (Act.send.inj he) hr, hk _ (h.send r)⟩

theorem send_ready {r : Response} {E : Exc → Shared → Prop} (h : Ready Λ ev cfg s)
    (hr : r ≠ refusedKey) :
    (send r).wp (loginLogic cfg ev Λ n) (fun _ => Ready Λ ev cfg) E s :=
  ⟨fun he => absurd (Act.send.inj he) hr, h.send r⟩

/-! ### LOGIN -/

/-- A LOGIN is verifying the credentials it has installed. -/
structure Pending (Λ : Ledger) (api : Client) (userid : String) (s : Shared) : Prop where
  service : Λ.Holds s.1
  state : s.2.state = .notAuthenticated
  api : s.2.api = some api
  inboxId : s.2.inboxId = some userid

theorem Pending.ended {userid : String} (h : Pending Λ api userid s) {e : Exc}
    (he : Λ.Blames api e) : Ended Λ ev cfg e s :=
  ⟨h.service, .inr h.state, fun status heq => ⟨api, h.api, he status heq⟩⟩

/-- A request that verifies the credentials. -/
theorem verify_wp {q : Req} {userid : String} {Q : q.Value → Shared → Prop}
    {E : Exc → Shared → Prop} (h : Pending Λ api userid s) (hkey : q.key = some api)
    (hi : ∀ i, q.inboxId = some i → i = userid) (hq : q.verifies = true)
    (hok : ∀ v s', Pending Λ api userid s' → ev.Records n q (.ok v) → Q v s')
    (herr : ∀ e s', Pending Λ api userid s' → Λ.Blames api e → E e s') :
    (svc (ask q)).wp (loginLogic cfg ev Λ n) Q E s := by
  refine ⟨⟨h.service, fun _ => ⟨⟨fun c hc => ?_, fun i hq => ?_, fun c _ hv => ?_⟩,
    fun hstate => ?_⟩⟩, fun s' hr a ha => ?_⟩
  · rw [Req.client_of_key hkey] at hc
    cases hc
    exact h.api
  · rw [hi i hq]
    exact h.inboxId
  · rw [hq] at hv
    cases hv
  · rw [h.state] at hstate
    rcases hstate with h | h <;> cases h
  · have hs' : Pending Λ api userid s' :=
      ⟨(hr.1 h.service).2, hr.2 ▸ h.state, hr.2 ▸ h.api, hr.2 ▸ h.inboxId⟩
    cases a with
    | ok v => exact hok v s' hs' ha.2
    | error e =>
      exact herr e s' hs' fun status he =>
        ha.1.charged status api (he ▸ rfl) (Λ.keyed q api hkey)

theorem checkInbox_verifies {userid : String} {identity : Identity} (h : Pending Λ api userid s)
    (hown : api.owner = n) :
    (checkInbox api userid identity).wp (loginLogic cfg ev Λ n)
      (fun _ s => Pending Λ api userid s ∧ (identity.scopeType ≠ "inbox" ∨
        orEmpty identity.inboxId = "" → ev.shown api userid)) (Ended Λ ev cfg) s := by
  rw [checkInbox]
  split
  · refine (Coro.wp_bind _ _).mpr ((Coro.wp_handle _ _).mpr ((Coro.wp_bind _ _).mpr
      (verify_wp (q := .getInbox api userid) h rfl own_inbox rfl (fun _ s' hs' hshown => ?_)
        fun e s' hs' he => ?_)))
    · exact ⟨hs', fun _ => hshown hown⟩
    · cases e with
      | notFound => exact hs'.ended (.of_accepted rfl)
      | badRequest => exact hs'.ended (.of_accepted rfl)
      | _ => exact hs'.ended he
  · rename_i hscope
    exact ⟨h, fun hbad => absurd hbad hscope⟩

theorem login_handled (tag userid password : String)
    (htried : ∀ serial, ev.tried ⟨n, serial, password⟩ userid) (hs : Ready Λ ev cfg s) :
    (login cfg n tag userid password).wp (loginLogic cfg ev Λ n) (fun _ => Ready Λ ev cfg)
      (Ended Λ ev cfg) s := by
  rw [login]
  simp only [Coro.bind_eq]
  refine session_bind (refuse_bind (fun _ => hs.ended (fun _ h => by cases h)) fun hstate => ?_)
  refine refuse_bind (fun _ => hs.ended (fun _ h => by cases h)) fun _ => ?_
  refine refuse_bind (fun _ => hs.ended (fun _ h => by cases h)) fun hallowed => ⟨(fun h => by cases h), ?_⟩
  have hpending : Pending Λ ⟨n, s.2.logins, password⟩ userid
      ((loginLogic cfg ev Λ n).exec (.inr (.setCredentials n userid password)) s) :=
    ⟨hs.service, not_not.mp hstate, rfl, rfl⟩
  refine context_bind (hpending.ended (.of_accepted rfl)) fun c i hc _ => ?_
  cases hc.symm.trans hpending.api
  refine (Coro.wp_bind _ _).mpr (verify_wp (q := .authMe _) hpending rfl (fun _ h => by cases h) rfl
    (fun identity s₁ hs₁ hgranted => ?_) fun e s₁ hs₁ he => hs₁.ended he)
  refine refuse_bind (fun _ => hs₁.ended (.of_accepted rfl)) fun hscope => ?_
  refine (Coro.wp_bind _ _).mpr (Coro.wp_mono (fun _ s₂ h => ?_) (fun _ _ h => h)
    (checkInbox_verifies hs₁ rfl))
  obtain ⟨hs₂, hshown⟩ := h
  have hv : ev.Vouches cfg ⟨n, s.2.logins, password⟩ userid := by
    refine ⟨htried _, ⟨identity, hgranted rfl, ?_⟩, fun hne => ?_⟩
    · by_cases hcheck : identity.scopeType ≠ "inbox" ∨ orEmpty identity.inboxId = ""
      · exact .inr (hshown hcheck)
      · -- The key is scoped to an inbox, and it is this one.
        obtain ⟨htype, hne⟩ := not_or.mp hcheck
        have htype := not_not.mp htype
        have hsame : orEmpty identity.inboxId = userid := by
          by_contra hother
          exact hscope ⟨htype, hne, hother⟩
        refine .inl ⟨htype, ?_⟩
        cases hid : identity.inboxId with
        | none =>
          rw [hid] at hne
          exact absurd rfl hne
        | some i =>
          rw [hid] at hsame
          exact congrArg some hsame
    · by_contra hother
      exact hallowed ⟨hne, hother⟩
  refine ⟨(fun h => by cases h),
    send_ready ⟨hs₂.service, ⟨fun c hc => ?_, fun _ => ?_⟩⟩ (fun h => by cases h)⟩
  · cases hc.symm.trans hs₂.api
    exact ⟨(fun h => by cases h), userid, hs₂.inboxId, hv⟩
  · show s₂.2.api.isSome = true
    rw [hs₂.api]
    rfl

/-! ### Any state -/

theorem noop_handled (hfair : Λ.Fair) (tag : String) (hs : Ready Λ ev cfg s) :
    (noop cfg (.conn n) tag).wp (loginLogic cfg ev Λ n) (fun _ => Ready Λ ev cfg)
      (Ended Λ ev cfg) s := by
  rw [noop]
  simp only [Coro.bind_eq]
  refine session_bind ?_
  split
  · rename_i c i sel hstate hc hi _
    obtain ⟨api, inboxId, hv, hw⟩ := hs.working (.inr hstate)
    cases hc.symm.trans hw.session.api
    cases hi.symm.trans hw.session.inboxId
    refine Serving.handled ?_ hv hw
    refine (svc_serving hv (syncForced_minds fun _ _ => hfair _)).bind fun _ => ?_
    exact act_bind_serving rfl rfl (send_serving rfl)
  · exact send_ready hs (fun h => by cases h)

theorem logout_handled (tag : String) (hs : Ready Λ ev cfg s) :
    (logout tag).wp (loginLogic cfg ev Λ n) (fun _ => Ready Λ ev cfg) (Ended Λ ev cfg) s := by
  rw [logout]
  simp only [Coro.bind_eq]
  refine send_bind_ready hs (by decide) fun s₁ h₁ => send_bind_ready h₁ (fun h => by cases h) fun s₂ h₂ => ?_
  refine ⟨(fun h => by cases h), h₂.service, ⟨fun c hc => ?_, fun h => ?_⟩⟩
  · obtain ⟨_, hrest⟩ := h₂.session.held c hc
    exact ⟨(fun h => by cases h), hrest⟩
  · rcases h with h | h <;> cases h

theorem plain_handled (tag name : String) (states : List State) (lines : List String)
    (hs : Ready Λ ev cfg s) : (plain tag name states lines).wp (loginLogic cfg ev Λ n)
      (fun _ => Ready Λ ev cfg) (Ended Λ ev cfg) s := by
  rw [plain]
  refine requireState_bind (hs.ended (fun _ h => by cases h)) fun _ => (Coro.wp_bind _ _).mpr ?_
  have hsend : ∀ line s, Ready Λ ev cfg s → (send (.other line)).wp (loginLogic cfg ev Λ n)
      (fun _ => Ready Λ ev cfg) (Ended Λ ev cfg) s := fun line s h => send_ready h (fun h => by cases h)
  have hlines : (Coro.each (fun line => send (.other line)) lines).wp (loginLogic cfg ev Λ n)
      (fun _ => Ready Λ ev cfg) (Ended Λ ev cfg) s :=
    Coro.wp_each (I := fun _ => Ready Λ ev cfg) (fun line _ s h => hsend line s h) lines hs
  exact Coro.wp_mono (fun _ _ h => send_ready h (fun h => by cases h)) (fun _ _ h => h) hlines

/-- Every handler keeps to the credentials of its session, or verifies new ones. -/
theorem handler_handled (hfair : Λ.Fair)
    (hcharge : ∀ api url, Λ.charge (.download api url) = some api)
    (cmd : Command) (htried : ∀ userid password, cmd.verb = .login userid password →
      ∀ serial, ev.tried ⟨n, serial, password⟩ userid) (hs : Ready Λ ev cfg s) :
    (handler cfg txt n cmd).wp (loginLogic cfg ev Λ n) (fun _ => Ready Λ ev cfg)
      (Ended Λ ev cfg) s := by
  unfold handler
  cases hverb : cmd.verb with
  | login userid password => exact login_handled _ userid password (htried _ _ hverb) hs
  | logout => exact logout_handled _ hs
  | noop => exact noop_handled hfair _ hs
  | select name readOnly =>
    exact authenticated_handled ⟨_, rfl⟩ (fun _ _ hv => select_serving hv hfair _ name readOnly) hs
  | fetch uidMode set attrs =>
    exact selected_handled ⟨_, rfl⟩
      (fun api _ hv => fetch_serving hv hfair (hcharge api) _ uidMode set attrs) hs
  | store set plan => exact selected_handled ⟨_, rfl⟩ (fun _ _ hv => store_serving hv hfair _ set plan) hs
  | search uidMode crit =>
    exact selected_handled ⟨_, rfl⟩
      (fun api _ hv => search_serving hv hfair (hcharge api) _ uidMode crit) hs
  | expunge => exact expunge_handled hfair _ hs
  | uidExpunge set =>
    exact selected_handled ⟨_, rfl⟩ (fun _ _ hv => uidExpunge_serving hv hfair _ set) hs
  | copy plan set name =>
    exact selected_handled ⟨_, rfl⟩ (fun _ _ hv => copy_serving hv hfair _ plan set name) hs
  | close => exact selected_handled ⟨_, rfl⟩ (fun _ _ hv => close_serving hv hfair _) hs
  | append name message clientId =>
    exact authenticated_handled ⟨_, rfl⟩ (fun _ _ hv => append_serving hv hfair _ name message clientId) hs
  | status name wanted =>
    exact authenticated_handled ⟨_, rfl⟩ (fun _ _ hv => status_serving hv hfair _ name wanted) hs
  | plain name states lines => exact plain_handled _ name states lines hs
  | refused status text code => exact hs.ended nofun

/-! ### Dispatch -/

/-- After a handler has raised and its exception is answered. -/
structure Loose (Λ : Ledger) (ev : Evidence) (cfg : Config) (s : Shared) : Prop where
  service : Λ.Holds s.1
  session : s.2.Authentic ev cfg ∨ s.2.state = .notAuthenticated

theorem Loose.send_wp (h : Loose Λ ev cfg s) {r : Response} {E : Exc → Shared → Prop}
    (hr : r = refusedKey → ∃ api status, s.2.api = some api ∧ Λ.fault api status) :
    (send r).wp (loginLogic cfg ev Λ n) (fun _ => Loose Λ ev cfg) E s :=
  ⟨fun he => hr (Act.send.inj he), h.service,
    h.session.imp (fun ha => ⟨ha.held, ha.holds⟩) id⟩

theorem report_loose (cmd : Command) {e : Exc} {E : Exc → Shared → Prop}
    (h : Ended Λ ev cfg e s) :
    (report cfg n cmd e).wp (loginLogic cfg ev Λ n) (fun _ => Loose Λ ev cfg) E s := by
  have hs : Loose Λ ev cfg s := ⟨h.service, h.session⟩
  cases e with
  | auth status =>
    unfold report
    simp only [Coro.bind_eq]
    refine session_bind ?_
    split
    · exact hs.send_wp nofun
    · rename_i hstate
      split
      · exact hs.send_wp nofun
      · obtain ⟨api, hapi, hfault⟩ := h.blames status rfl
        have hauth := h.session.resolve_right hstate
        refine ⟨fun _ => ⟨api, status, hapi, hfault⟩, nofun, h.service, .inl ⟨fun c hc => ?_, fun h => ?_⟩⟩
        · obtain ⟨_, hrest⟩ := hauth.held c hc
          exact ⟨nofun, hrest⟩
        · rcases h with h | h <;> cases h
  | _ => exact hs.send_wp nofun

theorem Ready.keeps_login (h : Ready Λ ev cfg s) {l : Session} (hl : s.2.SameLogin l) :
    Ready Λ ev cfg (s.1, l) := by
  refine ⟨h.service, fun c hc => ?_, fun hstate => ?_⟩
  · rw [hl.api] at hc
    rw [hl.state, hl.inboxId]
    exact h.session.held c hc
  · rw [hl.state] at hstate
    rw [hl.api]
    exact h.session.holds hstate

/-- A wait that concerns no credentials. -/
theorem wait_ready {q : Req} (hc : q.client = none) (hi : q.inboxId = none) :
    Coro.Keeps (loginLogic cfg ev Λ n) (Ready Λ ev cfg) (svc (ask q)) := by
  intro s hs
  refine ⟨⟨hs.service, fun _ => ⟨⟨fun c h => ?_, fun i h => ?_, fun c h => ?_⟩,
    hs.session.sealed⟩⟩, fun s' hr a ha => ?_⟩
  · rw [hc] at h
    cases h
  · rw [hi] at h
    cases h
  · rw [hc] at h
    cases h
  · have hs' : Ready Λ ev cfg s' :=
      ⟨(hr.1 hs.service).2, hr.2 ▸ hs.session⟩
    cases a with
    | ok v => exact hs'
    | error e => exact hs'

theorem flush_ready : Coro.Keeps (loginLogic cfg ev Λ n) (Ready Λ ev cfg) flush := by
  refine Coro.Keeps.read fun s hs => ?_
  show Coro.wp _ (if s.2.closed = true then _ else _) _ _ s
  split
  · exact hs
  · refine (Coro.Keeps.attempt (wait_ready rfl rfl)).bind (fun r => ?_) s hs
    cases r with
    | ok v => exact Coro.Keeps.ret _
    | error e =>
      cases e with
      | cancelled => exact Coro.Keeps.raise _
      | _ =>
        refine Coro.Keeps.perform fun s hs => ⟨nofun, hs.service, fun c hc => ?_, fun h => ?_⟩
        · exact ⟨nofun, (hs.session.held c hc).2⟩
        · rcases h with h | h <;> cases h

theorem runDeferred_ready : Coro.Keeps (loginLogic cfg ev Λ n) (Ready Λ ev cfg) runDeferred := by
  have hact : ∀ {p : Act}, p ≠ .send refusedKey →
      (∀ s : Shared, s.2.SameLogin (p.exec s.1 s.2)) →
      Coro.Keeps (loginLogic cfg ev Λ n) (Ready Λ ev cfg) (act p) := fun hp hl =>
    Coro.Keeps.perform fun s hs => ⟨fun he => absurd he hp, hs.keeps_login (hl s)⟩
  rw [runDeferred]
  simp only [Coro.bind_eq, Coro.pure_eq]
  refine Coro.Keeps.read fun s hs => ?_
  refine (hact (p := .takeDeferred) (by simp) fun _ => ⟨rfl, rfl, rfl, rfl⟩).bind (fun _ => ?_) s hs
  refine (Coro.Keeps.each (fun _ => (Coro.Keeps.attempt (wait_ready rfl rfl)).bind fun _ =>
    Coro.Keeps.ret _) _).bind fun _ => Coro.Keeps.read fun s hs => ?_
  show Coro.wp _ (ite _ _ _ : Prog Unit) _ _ s
  split
  · exact (hact (p := .flushPending) (by simp) fun s => Session.flushPending_sameLogin s.1 s.2).bind
      (fun _ => flush_ready) s hs
  · exact hs

/-- Whatever becomes of a command, it leaves vouched credentials or none. -/
theorem dispatch_ready (hfair : Λ.Fair)
    (hcharge : ∀ api url, Λ.charge (.download api url) = some api)
    (cmd : Command) (htried : ∀ userid password, cmd.verb = .login userid password →
      ∀ serial, ev.tried ⟨n, serial, password⟩ userid) (hs : Ready Λ ev cfg s) :
    (dispatch cfg txt n cmd).wp (loginLogic cfg ev Λ n) (fun _ => Ready Λ ev cfg)
      (fun _ => Ready Λ ev cfg) s := by
  have hafter : ∀ s : Shared, Loose Λ ev cfg s → (session.bind fun l =>
      if l.state = .notAuthenticated ∧ l.api.isSome then
        (act .clearCredentials).bind fun _ => runDeferred
      else runDeferred).wp (loginLogic cfg ev Λ n) (fun _ => Ready Λ ev cfg)
          (fun _ => Ready Λ ev cfg) s := by
    intro s hs
    refine session_bind ?_
    split
    · rename_i hstate
      refine ⟨nofun, runDeferred_ready _ ⟨hs.service, nofun, fun h => ?_⟩⟩
      have h : s.2.state = .authenticated ∨ s.2.state = .selected := h
      rw [hstate.1] at h
      rcases h with h | h <;> cases h
    · rename_i hkept
      refine runDeferred_ready _ ⟨hs.service, ?_⟩
      rcases hs.session with ha | hstate
      · exact ha
      · refine ⟨fun c hc => absurd ⟨hstate, by rw [hc]; rfl⟩ hkept, fun h => ?_⟩
        rw [hstate] at h
        rcases h with h | h <;> cases h
  rw [dispatch]
  simp only [Coro.bind_eq, Coro.attempt]
  refine (Coro.wp_bind _ _).mpr ((Coro.wp_handle _ _).mpr ((Coro.wp_bind _ _).mpr
    (Coro.wp_mono (fun _ s h => hafter s ⟨h.service, .inl h.session⟩) (fun e s h => ?_)
      (handler_handled hfair hcharge cmd htried hs))))
  exact (Coro.wp_bind _ _).mpr (Coro.wp_mono (fun _ s h => hafter s h) (fun _ _ h => h)
    (report_loose cmd h))

end Imap
end ImapGateway
