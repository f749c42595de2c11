/-
Connections and the keys they hold.

A connection is followed from one await of its task to the next: through its greeting, the
commands it is given, LOGIN with its two requests, and its end.  Beside the task the server
may say farewell to it and cancel the task, at any await.  LOGIN registers the key it was
given before it is verified; the end of the command drops it again where LOGIN failed, and
the end of the connection wherever it was kept.
-/
import ImapGateway.Imap.Redaction
import ImapGateway.Imap.Runs

namespace ImapGateway
namespace Imap

open Mailbox

/-- How far a `close` has come: it waits for the last flush, it waits for the writer, or it is
over. -/
inductive Closing where
  | flushing
  | waiting
  | over
  deriving DecidableEq

/-- Who closes: the task of the connection, or the server when it stops. -/
inductive Closer where
  | task
  | server
  deriving DecidableEq

/-- The await that the task of a connection is suspended at. -/
inductive Point where
  | greeting
  | reading
  | authMe (userid : String)
  | getInbox
  /-- A handler other than LOGIN. -/
  | handling
  /-- Behind a command: the deferred work and the flush. -/
  | between
  | closing (c : Closing)
  deriving DecidableEq

/-- LOGIN has registered its key and not yet ended. -/
def Point.verifying : Point → Bool
  | .authMe _ | .getInbox => true
  | _ => false

/-- `api` is set and cleared with `_api_key`. -/
structure Connection where
  state : State
  apiKey : Option String
  closed : Bool
  point : Point
  farewell : Option Closing
  deriving DecidableEq

namespace Connection

def new : Connection := ⟨.notAuthenticated, none, false, .greeting, none⟩

/-- `_abort`, and what a flush does that finds the client gone. -/
def drop (c : Connection) : Connection := { c with closed := true, state := .logout }

def reach (c : Connection) : Closer → Closing → Connection
  | .task, s => { c with point := .closing s }
  | .server, s => { c with farewell := some s }

def stage (c : Connection) : Closer → Option Closing
  | .task => match c.point with
    | .closing s => some s
    | _ => none
  | .server => c.farewell

end Connection

/-- The filter and one of the connections that register with it. -/
abbrev Registry := RedactingFilter × Connection

namespace Registry

def setCredentials (p : Registry) (key : String) : Registry :=
  (p.1.register key, { p.2 with apiKey := some key })

def clearCredentials (p : Registry) : Registry :=
  match p.2.apiKey with
  | some key => (if key = "" then p.1 else p.1.unregister key, { p.2 with apiKey := none })
  | none => p

/-- `finally` of `dispatch`. -/
def finishCommand (p : Registry) : Registry :=
  if p.2.state = .notAuthenticated ∧ p.2.apiKey.isSome then clearCredentials p else p

/-- `close` behind its flush. -/
def shut (p : Registry) (who : Closer) : Registry :=
  clearCredentials (p.1, p.2.drop.reach who .waiting)

/-- `close` up to its first await; the flush waits if there is something to write. -/
def close (p : Registry) (who : Closer) (waits : Bool) : Registry :=
  if p.2.closed then clearCredentials (p.1, p.2.reach who .over)
  else if waits then (p.1, p.2.reach who .flushing)
  else shut p who

/-- The state in which `dispatch` leaves a session when a handler raised. -/
def stateAfter (state : State) : Exc → State
  | .auth status => if state ≠ .notAuthenticated ∧ status ≠ 403 then .logout else state
  | _ => state

/-- A command ends, with the exception it raised. -/
def fail (p : Registry) (e : Exc) : Registry :=
  finishCommand (p.1, { p.2 with state := stateAfter p.2.state e, point := .between })

def succeed (p : Registry) (state : State) : Registry :=
  finishCommand (p.1, { p.2 with state := state, point := .between })

end Registry

/-- What may happen to a connection at an await. -/
inductive Occasion where
  /-- The loop comes to wait for input. -/
  | read
  | login (userid password : String)
  | identity (answer : Except Exc Identity)
  | inbox (answer : Except Exc Unit)
  /-- A command other than LOGIN, or a LOGIN that cannot be read. -/
  | command
  /-- Its handler goes on and moves the session to a state. -/
  | work (state : State)
  | answered (raised : Option Exc)
  /-- A flush finds the client gone, or it does not read. -/
  | lost
  /-- The loop ends: no more input, a timeout, LOGOUT. -/
  | hangUp (waits : Bool)
  | cancel (waits : Bool)
  | farewell (waits : Bool)
  /-- The server does not wait for its farewell any longer. -/
  | expired
  | drained (who : Closer)
  | released (who : Closer)

open Registry

/-- The checks of LOGIN before it asks upstream. -/
def accepts (cfg : Config) (state : State) (userid password : String) : Prop :=
  state = .notAuthenticated ∧ printable userid = true ∧ printable password = true ∧
    (cfg.allowedInboxId ≠ "" → userid = cfg.allowedInboxId)

instance (cfg : Config) (state : State) (userid password : String) :
    Decidable (accepts cfg state userid password) :=
  inferInstanceAs (Decidable (_ ∧ _ ∧ _ ∧ _))

/-- LOGIN behind the identity of its key. -/
def verify (p : Registry) (userid : String) (identity : Identity) : Registry :=
  let scopedInbox := orEmpty identity.inboxId
  if identity.scopeType = "inbox" ∧ scopedInbox ≠ "" ∧ scopedInbox ≠ userid then
    p.fail invalidCredentials
  else if identity.scopeType ≠ "inbox" ∨ scopedInbox = "" then
    (p.1, { p.2 with point := .getInbox })
  else p.succeed .authenticated

/-- `task.cancel()`: the command in hand ends, and the connection closes, unless it does
already.  The greeting is flushed before the `try`. -/
def cancelled (p : Registry) (waits : Bool) : Option Registry :=
  match p.2.point with
  | .greeting => some (p.1, p.2.reach .task .over)
  | .reading | .between => some (p.close .task waits)
  | .authMe _ | .getInbox | .handling => some (p.finishCommand.close .task waits)
  | .closing .over => none
  | .closing _ => some (p.1, p.2.reach .task .over)

/-- From one await to the next, where what happens can happen. -/
def Occasion.step (cfg : Config) (p : Registry) : Occasion → Option Registry
  | read =>
    if (p.2.point = .greeting ∨ p.2.point = .between) ∧ p.2.state ≠ .logout ∧ p.2.closed = false then
      some (p.1, { p.2 with point := .reading })
    else none
  | login userid password =>
    if p.2.point = .reading ∨ p.2.point = .between then
      if accepts cfg p.2.state userid password then
        some (setCredentials (p.1, { p.2 with point := .authMe userid }) password)
      else some (p.fail invalidCredentials)
    else none
  | identity answer =>
    match p.2.point, answer with
    | .authMe userid, .ok found => some (verify p userid found)
    | .authMe _, .error e => some (p.fail e)
    | _, _ => none
  | inbox answer =>
    match p.2.point, answer with
    | .getInbox, .ok () => some (p.succeed .authenticated)
    | .getInbox, .error e => some (p.fail e)
    | _, _ => none
  | command =>
    if p.2.point = .reading ∨ p.2.point = .between then some (p.1, { p.2 with point := .handling })
    else none
  | work state =>
    if p.2.point = .handling ∧ state ≠ .notAuthenticated then some (p.1, { p.2 with state := state })
    else none
  | answered raised =>
    if p.2.point = .handling then
      match raised with
      | some e => some (p.fail e)
      | none => some (p.succeed p.2.state)
    else none
  | lost => some (p.1, p.2.drop)
  | hangUp waits =>
    if p.2.point = .greeting ∨ p.2.point = .reading ∨ p.2.point = .between then
      some (p.close .task waits)
    else none
  | cancel waits => cancelled p waits
  | farewell waits => if p.2.farewell = none then some (p.close .server waits) else none
  | expired =>
    if p.2.farewell = some .flushing ∨ p.2.farewell = some .waiting then
      some (p.1, p.2.drop.reach .server .over)
    else none
  | drained who => if p.2.stage who = some .flushing then some (p.shut who) else none
  | released who => if p.2.stage who = some .waiting then some (p.1, p.2.reach who .over) else none

/-! ## The gateway's connections -/

structure Hub where
  filter : RedactingFilter
  connections : List Connection
  deriving DecidableEq

namespace Hub

inductive Move where
  | connect
  | happen (n : Nat) (h : Occasion)

def start : Hub := ⟨⟨[]⟩, []⟩

def step (cfg : Config) (hub : Hub) : Move → Option Hub
  | .connect => some { hub with connections := hub.connections ++ [Connection.new] }
  | .happen n h =>
    match hub.connections[n]? with
    | none => none
    | some c =>
      (h.step cfg (hub.filter, c)).map fun p => ⟨p.1, hub.connections.set n p.2⟩

/-- Any moves of any connections, one after the other. -/
def run (cfg : Config) (hub : Hub) : List Move → Option Hub
  | [] => some hub
  | m :: ms => (hub.step cfg m).bind fun hub => hub.run cfg ms

/-- How many connections hold the key. -/
def holders (hub : Hub) (key : String) : Nat :=
  hub.connections.countP fun c => decide (c.apiKey = some key)

end Hub

/-! ## What a connection keeps -/

/-- A key is held by a session that is authenticated or ended, or by LOGIN at work. -/
structure Connection.Settled (c : Connection) : Prop where
  key : c.apiKey ≠ some ""
  held : c.apiKey ≠ none → c.state ≠ .notAuthenticated ∨ c.point.verifying = true

def Connection.held (c : Connection) (key : String) : Nat := if c.apiKey = some key then 1 else 0

/-- Of every key, the count changes with the holding. -/
def Registry.Booked (p q : Registry) : Prop :=
  ∀ key, p.2.held key ≤ p.1.count key →
    q.1.count key + p.2.held key = p.1.count key + q.2.held key

namespace Registry

variable {p q r : Registry}

theorem Booked.of_eq (hfilter : q.1 = p.1) (hkey : q.2.apiKey = p.2.apiKey) : Booked p q := by
  intro key _
  rw [hfilter, Connection.held, Connection.held, hkey]

theorem Booked.trans (h : Booked p q) (h' : Booked q r) : Booked p r := by
  intro key hle
  have hfirst := h key hle
  have hsecond := h' key (by omega)
  omega

theorem booked_setCredentials {key : String} (hnone : p.2.apiKey = none) (hne : key ≠ "") :
    Booked p (p.setCredentials key) := by
  intro k _
  rw [setCredentials, RedactingFilter.count_register _ hne, Connection.held, Connection.held, hnone]
  by_cases hk : k = key
  · simp [hk]
  · simp [hk, Ne.symm hk]

theorem clearCredentials_apiKey (p : Registry) : p.clearCredentials.2.apiKey = none := by
  rw [clearCredentials]
  split
  · rfl
  · assumption

theorem booked_clearCredentials (hp : p.2.apiKey ≠ some "") : Booked p p.clearCredentials := by
  intro k hle
  rw [clearCredentials]
  cases hkey : p.2.apiKey with
  | none => rfl
  | some key =>
    have hne : key ≠ "" := fun heq => hp (by rw [hkey, heq])
    simp only [if_neg hne, RedactingFilter.count_unregister, Connection.held, hkey] at hle ⊢
    by_cases hk : k = key
    · simp only [hk, if_true] at hle ⊢
      simp
      omega
    · simp [hk, Ne.symm hk]

/-- What a step owes: the books of the filter, and a connection that keeps its key for a
reason. -/
structure Keeps (p q : Registry) : Prop where
  booked : Booked p q
  settled : q.2.Settled

theorem settled_of_none {c : Connection} (h : c.apiKey = none) : c.Settled :=
  ⟨by rw [h]; exact nofun, fun hne => absurd h hne⟩

theorem Keeps.of_eq (hfilter : q.1 = p.1) (hkey : q.2.apiKey = p.2.apiKey) (h : q.2.Settled) :
    Keeps p q := ⟨.of_eq hfilter hkey, h⟩

theorem clearCredentials_keeps (hp : p.2.apiKey ≠ some "") : Keeps p p.clearCredentials :=
  ⟨booked_clearCredentials hp, settled_of_none p.clearCredentials_apiKey⟩

/-- The end of a command leaves no key with a session that is not authenticated. -/
theorem finishCommand_keeps (hp : p.2.apiKey ≠ some "") : Keeps p p.finishCommand ∧
    (p.finishCommand.2.apiKey ≠ none → p.finishCommand.2.state ≠ .notAuthenticated) := by
  rw [finishCommand]
  by_cases h : p.2.state = .notAuthenticated ∧ p.2.apiKey.isSome
  · rw [if_pos h]
    exact ⟨clearCredentials_keeps hp, fun hne => absurd p.clearCredentials_apiKey hne⟩
  · rw [if_neg h]
    have hstate : p.2.apiKey ≠ none → p.2.state ≠ .notAuthenticated := fun hne hstate =>
      h ⟨hstate, Option.isSome_iff_ne_none.mpr hne⟩
    exact ⟨.of_eq rfl rfl ⟨hp, fun hne => .inl (hstate hne)⟩, hstate⟩

theorem fail_keeps (hp : p.2.apiKey ≠ some "") (e : Exc) : Keeps p (p.fail e) := by
  have h := (finishCommand_keeps (p := (p.1, { p.2 with
    state := stateAfter p.2.state e, point := .between })) hp).1
  exact ⟨.trans (.of_eq rfl rfl) h.booked, h.settled⟩

theorem succeed_keeps (hp : p.2.apiKey ≠ some "") (state : State) : Keeps p (p.succeed state) := by
  have h := (finishCommand_keeps (p := (p.1, { p.2 with state := state, point := .between })) hp).1
  exact ⟨.trans (.of_eq rfl rfl) h.booked, h.settled⟩

theorem reach_apiKey (c : Connection) (who : Closer) (s : Closing) :
    (c.reach who s).apiKey = c.apiKey := by
  cases who <;> rfl

theorem shut_keeps (hp : p.2.apiKey ≠ some "") (who : Closer) : Keeps p (p.shut who) := by
  have hkey : (p.2.drop.reach who .waiting).apiKey = p.2.apiKey := reach_apiKey _ _ _
  have h := clearCredentials_keeps (p := (p.1, p.2.drop.reach who .waiting)) (hkey ▸ hp)
  exact ⟨.trans (q := (p.1, p.2.drop.reach who .waiting)) (.of_eq rfl hkey) h.booked, h.settled⟩

theorem close_keeps {who : Closer} (h : (p.2.reach who .flushing).Settled) (waits : Bool) :
    Keeps p (p.close who waits) := by
  have hp : p.2.apiKey ≠ some "" := reach_apiKey p.2 who .flushing ▸ h.key
  rw [close]
  split
  · have hkey : (p.2.reach who .over).apiKey = p.2.apiKey := reach_apiKey _ _ _
    have hclear := clearCredentials_keeps (p := (p.1, p.2.reach who .over)) (hkey ▸ hp)
    exact ⟨.trans (q := (p.1, p.2.reach who .over)) (.of_eq rfl hkey) hclear.booked,
      hclear.settled⟩
  · split
    · exact .of_eq rfl (reach_apiKey _ _ _) h
    · exact shut_keeps hp who

/-- The task closes when no command is at work. -/
theorem close_task_keeps (hp : p.2.apiKey ≠ some "")
    (hstate : p.2.apiKey ≠ none → p.2.state ≠ .notAuthenticated) (waits : Bool) :
    Keeps p (p.close .task waits) := by
  have hflush : (p.2.reach .task .flushing).Settled := ⟨hp, fun hne => .inl (hstate hne)⟩
  exact close_keeps hflush waits

theorem reach_server_settled {c : Connection} (h : c.Settled) (s : Closing) :
    (c.reach .server s).Settled := ⟨h.key, h.held⟩

theorem verify_keeps (hp : p.2.Settled) (userid : String) (found : Identity) :
    Keeps p (verify p userid found) := by
  simp only [verify]
  split
  · exact fail_keeps hp.key _
  · split
    · exact .of_eq rfl rfl ⟨hp.key, fun _ => .inr rfl⟩
    · exact succeed_keeps hp.key _

theorem cancelled_keeps (hp : p.2.Settled) {waits : Bool} (h : cancelled p waits = some q) :
    Keeps p q := by
  have hstate : p.2.point.verifying = false → p.2.apiKey ≠ none → p.2.state ≠ .notAuthenticated :=
    fun hpoint hne => (hp.held hne).resolve_right (by rw [hpoint]; exact Bool.false_ne_true)
  have hfinish : Keeps p (p.finishCommand.close .task waits) := by
    obtain ⟨hkeeps, hheld⟩ := finishCommand_keeps hp.key
    have hclose := close_task_keeps hkeeps.settled.key hheld waits
    exact ⟨hkeeps.booked.trans hclose.booked, hclose.settled⟩
  have hover : p.2.point.verifying = false → Keeps p (p.1, p.2.reach .task .over) := fun hpoint =>
    .of_eq rfl rfl ⟨hp.key, fun hne => .inl (hstate hpoint hne)⟩
  rw [cancelled] at h
  cases hpoint : p.2.point with
  | greeting =>
    rw [hpoint] at h hover
    cases h
    exact hover rfl
  | reading | between =>
    rw [hpoint] at h hstate
    cases h
    exact close_task_keeps hp.key (hstate rfl) waits
  | authMe | getInbox | handling =>
    rw [hpoint] at h
    cases h
    exact hfinish
  | closing s =>
    rw [hpoint] at h hover
    cases s with
    | flushing | waiting =>
      cases h
      exact hover rfl
    | _ => cases h

/-- Whatever happens to a connection, the count of every key goes with the holding. -/
theorem step_keeps {cfg : Config} {h : Occasion} (hp : p.2.Settled)
    (hstep : h.step cfg p = some q) : Keeps p q := by
  have hrest : p.2.point.verifying = false → p.2.apiKey ≠ none → p.2.state ≠ .notAuthenticated :=
    fun hpoint hne => (hp.held hne).resolve_right (by rw [hpoint]; exact Bool.false_ne_true)
  have hlost : p.2.drop.Settled := ⟨hp.key, fun _ => .inl nofun⟩
  cases h with
  | read =>
    rw [Occasion.step] at hstep
    split at hstep
    · rename_i hpoint
      cases hstep
      have hplain : p.2.point.verifying = false := by
        rcases hpoint.1 with h | h <;> rw [h] <;> rfl
      exact .of_eq rfl rfl ⟨hp.key, fun hne => .inl (hrest hplain hne)⟩
    · cases hstep
  | login userid password =>
    rw [Occasion.step] at hstep
    split at hstep
    · rename_i hpoint
      have hplain : p.2.point.verifying = false := by
        rcases hpoint with h | h <;> rw [h] <;> rfl
      split at hstep
      · -- a session that is not authenticated holds no key, and the new one is not empty
        rename_i haccepts
        cases hstep
        have hnone : p.2.apiKey = none := by
          by_contra hne
          exact hrest hplain hne haccepts.1
        have hne : password ≠ "" := by
          rintro rfl
          exact absurd haccepts.2.2.1 (by decide)
        refine ⟨.trans (.of_eq rfl rfl) (booked_setCredentials hnone hne), ?_⟩
        exact ⟨fun heq => hne (Option.some.inj heq), fun _ => .inr rfl⟩
      · cases hstep
        exact fail_keeps hp.key _
    · cases hstep
  | identity answer =>
    simp only [Occasion.step] at hstep
    split at hstep
    · cases hstep
      exact verify_keeps hp _ _
    · cases hstep
      exact fail_keeps hp.key _
    · cases hstep
  | inbox answer =>
    simp only [Occasion.step] at hstep
    split at hstep
    · cases hstep
      exact succeed_keeps hp.key _
    · cases hstep
      exact fail_keeps hp.key _
    · cases hstep
  | command =>
    rw [Occasion.step] at hstep
    split at hstep
    · rename_i hpoint
      cases hstep
      have hplain : p.2.point.verifying = false := by
        rcases hpoint with h | h <;> rw [h] <;> rfl
      exact .of_eq rfl rfl ⟨hp.key, fun hne => .inl (hrest hplain hne)⟩
    · cases hstep
  | work state =>
    rw [Occasion.step] at hstep
    split at hstep
    · rename_i hwork
      cases hstep
      exact .of_eq rfl rfl ⟨hp.key, fun _ => .inl hwork.2⟩
    · cases hstep
  | answered raised =>
    simp only [Occasion.step] at hstep
    split at hstep
    · cases raised with
      | some e =>
        cases hstep
        exact fail_keeps hp.key e
      | none =>
        cases hstep
        exact succeed_keeps hp.key _
    · cases hstep
  | lost =>
    cases hstep
    exact .of_eq rfl rfl hlost
  | hangUp waits =>
    rw [Occasion.step] at hstep
    split at hstep
    · rename_i hpoint
      cases hstep
      have hplain : p.2.point.verifying = false := by
        rcases hpoint with h | h | h <;> rw [h] <;> rfl
      exact close_task_keeps hp.key (hrest hplain) waits
    · cases hstep
  | cancel waits => exact cancelled_keeps hp hstep
  | farewell waits =>
    rw [Occasion.step] at hstep
    split at hstep
    · cases hstep
      exact close_keeps (reach_server_settled hp _) waits
    · cases hstep
  | expired =>
    rw [Occasion.step] at hstep
    split at hstep
    · cases hstep
      exact .of_eq rfl rfl (reach_server_settled hlost _)
    · cases hstep
  | drained who =>
    rw [Occasion.step] at hstep
    split at hstep
    · cases hstep
      exact shut_keeps hp.key who
    · cases hstep
  | released who =>
    rw [Occasion.step] at hstep
    split at hstep
    · rename_i hstage
      cases hstep
      cases who with
      | task =>
        have hplain : p.2.point.verifying = false := by
          rw [Connection.stage] at hstage
          split at hstage
          · rename_i s hpoint
            rw [hpoint]
            rfl
          · cases hstage
        exact .of_eq rfl rfl ⟨hp.key, fun hne => .inl (hrest hplain hne)⟩
      | server => exact .of_eq rfl rfl (reach_server_settled hp _)
    · cases hstep

end Registry

/-! ## Every run -/

namespace Hub

/-- The count of every key is the number of connections that hold it. -/
structure Accounted (hub : Hub) : Prop where
  settled : ∀ c ∈ hub.connections, c.Settled
  count : ∀ key, hub.filter.count key = hub.holders key

variable {cfg : Config} {hub hub' : Hub}

theorem accounted_start : start.Accounted where
  settled _ hc := absurd hc List.not_mem_nil
  count _ := rfl

theorem Accounted.step (h : hub.Accounted) {m : Move} (hm : hub.step cfg m = some hub') :
    hub'.Accounted := by
  cases m with
  | connect =>
    cases hm
    refine ⟨fun c hc => ?_, fun key => ?_⟩
    · rcases List.mem_append.mp hc with hold | hnew
      · exact h.settled c hold
      · rw [List.mem_singleton.mp hnew]
        exact Registry.settled_of_none rfl
    · show hub.filter.count key = (hub.connections ++ [Connection.new]).countP _
      rw [List.countP_append, h.count key]
      rfl
  | happen n e =>
    rw [Hub.step] at hm
    split at hm
    · cases hm
    · rename_i c hc
      obtain ⟨q, hstep, rfl⟩ := Option.map_eq_some_iff.mp hm
      obtain ⟨hlt, hget⟩ := List.getElem?_eq_some_iff.mp hc
      have hmem : c ∈ hub.connections := List.mem_of_getElem? hc
      have hkeeps := Registry.step_keeps (p := (hub.filter, c)) (h.settled c hmem) hstep
      refine ⟨fun c' hc' => ?_, fun key => ?_⟩
      · rcases List.mem_or_eq_of_mem_set hc' with hold | rfl
        · exact h.settled c' hold
        · exact hkeeps.settled
      · -- the holding of the one connection is taken out of the number, and put back
        have hcount := h.count key
        have hle : c.held key ≤ hub.holders key := by
          rw [Connection.held]
          split
          · rename_i hkey
            exact List.countP_pos_iff.mpr ⟨c, hmem, by simpa using hkey⟩
          · exact Nat.zero_le _
        have hbooked := hkeeps.booked key (hcount ▸ hle)
        have hset : (hub.connections.set n q.2).countP (fun c => decide (c.apiKey = some key)) =
            hub.holders key - c.held key + q.2.held key := by
          rw [List.countP_set hlt, hget]
          simp only [decide_eq_true_eq]
          rfl
        show q.1.count key = (hub.connections.set n q.2).countP _
        rw [hset]
        change q.1.count key + c.held key = hub.filter.count key + q.2.held key at hbooked
        omega

theorem Accounted.run (h : hub.Accounted) {ms : List Move} (hrun : hub.run cfg ms = some hub') :
    hub'.Accounted := by
  induction ms generalizing hub with
  | nil =>
    cases hrun
    exact h
  | cons m ms ih =>
    obtain ⟨next, hm, hrest⟩ := Option.bind_eq_some_iff.mp hrun
    exact ih (h.step hm) hrest

theorem Accounted.ne_empty (h : hub.Accounted) {key : String} (hkey : 0 < hub.holders key) :
    key ≠ "" := by
  obtain ⟨c, hc, heq⟩ := List.countP_pos_iff.mp hkey
  rintro rfl
  exact (h.settled c hc).key (of_decide_eq_true heq)

variable {A E : Type}

/-- The filter leaves no key that is held in any text of the record. -/
def Scrubs (fmt : Formatting A E) (hub : Hub) (r : LogRecord A E) : Prop :=
  ∀ key, 0 < hub.holders key → ∀ text ∈ fmt.texts (hub.filter.filter fmt r), ¬Contains text key

/-- In every run the filter counts the connections that hold a key, and while asterisks do not
spell a key that is held, a record that can be formatted is scrubbed of all of them. -/
theorem keys_counted_and_scrubbed (fmt : Formatting A E) {ms : List Move}
    (h : start.run cfg ms = some hub) :
    (∀ key, hub.filter.count key = hub.holders key) ∧
      (KeysGuarded (fun key => 0 < hub.holders key) →
        ∀ r : LogRecord A E, fmt.getMessage r ≠ none → hub.Scrubs fmt r) := by
  have hacc := accounted_start.run h
  refine ⟨hacc.count, fun hg r hformats key hkey => ?_⟩
  apply RedactingFilter.not_contains_filter hg (fun key hkey => hacc.ne_empty hkey) _ hformats hkey
  intro key hkey
  rw [hacc.count]
  exact hkey

/-- Two sessions log in with one key, and the first of them is refused. -/
def sharedKey : List Move :=
  [.connect, .connect, .happen 0 .read, .happen 1 .read, .happen 0 (.login "a@b" "key"),
    .happen 1 (.login "a@b" "key"), .happen 0 (.identity (.error (.auth 403)))]

/-- The second session still holds the key. -/
def sharedHub : Hub :=
  ⟨⟨[("key", 1)]⟩, [⟨.notAuthenticated, none, false, .between, none⟩,
    ⟨.notAuthenticated, some "key", false, .authMe "a@b", none⟩]⟩

/-- A record whose arguments are put behind its message. -/
def plainFormatting : Formatting String String := ⟨fun msg args => some (msg ++ args), id⟩

theorem keys_counted_and_scrubbed_shared : sharedHub.filter.count "key" = sharedHub.holders "key" ∧
    sharedHub.Scrubs plainFormatting ⟨"key is ", some "key", none, some "no key", none⟩ := by
  have hrun : start.run demoConfig sharedKey = some sharedHub := by decide
  obtain ⟨hcount, hscrubs⟩ := keys_counted_and_scrubbed plainFormatting hrun
  refine ⟨hcount "key", hscrubs (fun key hkey => .inl ?_) _ nofun⟩
  have hone : key = "key" := by
    obtain ⟨c, hc, heq⟩ := List.countP_pos_iff.mp hkey
    rcases List.mem_cons.mp hc with rfl | hc
    · cases heq
    · rw [List.mem_singleton.mp hc] at heq
      exact (Option.some.inj (of_decide_eq_true heq)).symm
  subst hone
  exact ⟨by decide, by decide, by decide⟩

/-- The asterisks that stand for the key `*` have it in them. -/
theorem asterisk_not_scrubbed : ¬∀ (fmt : Formatting String String) (ms : List Move) (hub : Hub),
    start.run demoConfig ms = some hub →
      (∀ key, hub.filter.count key = hub.holders key) ∧ ∀ r : LogRecord String String,
        fmt.getMessage r ≠ none → hub.Scrubs fmt r := by
  intro h
  have hrun : start.run demoConfig [.connect, .happen 0 .read, .happen 0 (.login "a@b" "*")] =
      some ⟨⟨[("*", 1)]⟩, [⟨.notAuthenticated, some "*", false, .authMe "a@b", none⟩]⟩ := by
    decide
  have hscrubs := (h plainFormatting _ _ hrun).2 ⟨"*", none, none, none, none⟩ nofun
  apply hscrubs "*" (by decide) "***"
  · decide +kernel
  · decide

end Hub

end Imap
end ImapGateway
