/-
The commands of a session in the life of its connection.

The lifecycle of a connection keeps three things of a session: its state, its key, and whether it
is closed.  Whatever `dispatch` and the end of the loop do to these, from any state and with any
answers, is a sequence of occasions of the lifecycle, and the occasions of other connections may
come between them.
-/
import ImapGateway.Imap.Credentials
import ImapGateway.Imap.Lifecycle
import ImapGateway.Imap.Connection

namespace ImapGateway
namespace Imap

open Async Mailbox

variable {cfg : Config} {txt : TextConfig} {n : Nat} {t : Tid} {c c' : Connection} {l : Session}
  {s s' : Shared} {out : Except Exc Unit}

/-! ## Connections that view a session -/

/-- What the lifecycle keeps of a session. -/
structure Connection.Views (c : Connection) (l : Session) : Prop where
  state : c.state = l.state
  apiKey : c.apiKey = l.api.map (·.apiKey)
  closed : c.closed = l.closed

/-- Something happens to the connection, whatever keys the filter counts. -/
def Connection.Next (cfg : Config) (c c' : Connection) : Prop :=
  ∃ h : Occasion, ∀ f, ∃ f', h.step cfg (f, c) = some (f', c')

/-- One after another, occasions lead to a connection that views the session and is suspended
at `point`. -/
def Connection.Reaches (cfg : Config) (c : Connection) (point : Point) (l : Session) : Prop :=
  ∃ c', Relation.ReflTransGen (Connection.Next cfg) c c' ∧ c'.Views l ∧ c'.point = point

namespace Connection

theorem Views.reaches (hv : c.Views l) : c.Reaches cfg c.point l := ⟨c, .refl, hv, rfl⟩

theorem Next.reaches {point : Point} (h : Next cfg c c') (hr : c'.Reaches cfg point l) :
    c.Reaches cfg point l :=
  hr.imp fun _ hr => ⟨.head h hr.1, hr.2⟩

theorem Reaches.trans {point point' : Point} {l' : Session} (h : c.Reaches cfg point l)
    (hr : ∀ c' : Connection, c'.Views l → c'.point = point → c'.Reaches cfg point' l') :
    c.Reaches cfg point' l' := by
  obtain ⟨c₁, hgoes, hv, hpoint⟩ := h
  obtain ⟨c₂, hgoes', hrest⟩ := hr c₁ hv hpoint
  exact ⟨c₂, hgoes.trans hgoes', hrest⟩

end Connection

open Connection

/-! ## What an action does to a session -/

/-- An action that leaves the key alone, and lets nobody out of being logged in. -/
def keepsKey : Mailbox.Act ⊕ Act → Prop
  | .inr (.setCredentials _ _ _) => False
  | .inr .clearCredentials => False
  | .inr (.setState st) => st ≠ .notAuthenticated
  | _ => True

theorem keepsKey_of_steady (p : Mailbox.Act ⊕ Act) (h : steadyAct p) : keepsKey p := by
  cases p with
  | inl p => trivial
  | inr p => cases p <;> first | exact h | trivial

theorem keepsKey_of_resting (p : Mailbox.Act ⊕ Act) (h : restingAct p) : keepsKey p := by
  cases p with
  | inl p => trivial
  | inr p => cases p <;> first | exact h | trivial

theorem keepsKey_of_tags {tag : String} (p : Mailbox.Act ⊕ Act) (h : tagsWith tag p) :
    keepsKey p := by
  obtain ⟨status, text, code, rfl⟩ := h
  trivial

/-- The session is as it was, moves to a state, or is dropped. -/
inductive Session.Moves (l l' : Session) : Prop
  | same (state : l'.state = l.state) (api : l'.api = l.api) (closed : l'.closed = l.closed)
  | moved (state : l'.state ≠ .notAuthenticated) (api : l'.api = l.api)
      (closed : l'.closed = l.closed)
  | dropped (state : l'.state = .logout) (api : l'.api = l.api) (closed : l'.closed = true)

theorem Session.SameLogin.moves {l l' : Session} (h : l.SameLogin l') : l.Moves l' :=
  .same h.state h.api h.closed

theorem keepsKey_moves {p : Mailbox.Act ⊕ Act} (hp : keepsKey p) (s : Shared) :
    s.2.Moves (exec cfg t p s).2 := by
  cases p with
  | inl p => exact .same rfl rfl rfl
  | inr p =>
    cases p with
    | setCredentials | clearCredentials => exact hp.elim
    | setState st => exact .moved hp rfl rfl
    | deselect => exact .moved nofun rfl rfl
    | applySnapshot snap readOnly => exact .moved nofun rfl rfl
    | flushPending => exact (Session.flushPending_sameLogin s.1 s.2).moves
    | dropVanished errors =>
      simp only [exec, Act.exec, Session.dropVanished]
      split
      · exact .same rfl rfl rfl
      · split <;> exact .same rfl rfl rfl
    | recordFlags uid flags =>
      simp only [exec, Act.exec, Session.recordFlags]
      split <;> exact .same rfl rfl rfl
    | abort => exact .dropped rfl rfl rfl
    | _ => exact .same rfl rfl rfl

theorem Connection.Views.congr {l' : Session} (hv : c.Views l) (hstate : l'.state = l.state)
    (hapi : l'.api = l.api) (hclosed : l'.closed = l.closed) : c.Views l' :=
  ⟨hv.state.trans hstate.symm, by rw [hv.apiKey, hapi], hv.closed.trans hclosed.symm⟩

/-- The client is lost, wherever the connection is suspended. -/
theorem Connection.Views.lost {l' : Session} (hv : c.Views l) (hstate : l'.state = .logout)
    (hapi : l'.api = l.api) (hclosed : l'.closed = true) : c.Reaches cfg c.point l' := by
  have hdrop : c.drop.Views l' :=
    ⟨hstate.symm, hv.apiKey.trans (by rw [hapi]), hclosed.symm⟩
  exact Next.reaches ⟨.lost, fun f => ⟨f, rfl⟩⟩ hdrop.reaches

/-- What a handler does, the lifecycle can follow. -/
theorem Connection.Reaches.work {p : Mailbox.Act ⊕ Act} (hp : keepsKey p)
    (h : c.Reaches cfg .handling s.2) : c.Reaches cfg .handling (exec cfg t p s).2 := by
  refine h.trans fun c' hv hpoint => ?_
  have hat : ∀ {l' : Session}, c'.Reaches cfg c'.point l' → c'.Reaches cfg .handling l' :=
    fun hr => hpoint ▸ hr
  have hmoves : s.2.Moves (exec cfg t p s).2 := keepsKey_moves hp s
  cases hmoves with
  | same state api closed => exact hat (hv.congr state api closed).reaches
  | moved state api closed =>
    have hnext : Next cfg c' { c' with state := (exec cfg t p s).2.state } :=
      ⟨.work (exec cfg t p s).2.state, fun f => ⟨f, if_pos ⟨hpoint, state⟩⟩⟩
    exact hnext.reaches ⟨_, .refl,
      ⟨rfl, hv.apiKey.trans (by rw [api]), hv.closed.trans closed.symm⟩, hpoint⟩
  | dropped state api closed => exact hat (hv.lost state api closed)

/-- What the deferred work does, too. -/
theorem Connection.Reaches.defers {p : Mailbox.Act ⊕ Act} (hp : defersAct p) {point : Point}
    (h : c.Reaches cfg point s.2) : c.Reaches cfg point (exec cfg t p s).2 := by
  refine h.trans fun c' hv hpoint => ?_
  subst hpoint
  cases p with
  | inl p => exact hv.reaches
  | inr p =>
    rcases hp with rfl | rfl | rfl
    · have hsame : c'.Views (exec cfg t (.inr .takeDeferred) s).2 := hv.congr rfl rfl rfl
      exact hsame.reaches
    · have hsame := Session.flushPending_sameLogin s.1 s.2
      exact (hv.congr hsame.state hsame.api hsame.closed).reaches
    · exact hv.lost rfl rfl rfl

/-- The others leave the session alone. -/
theorem evaluates_works {α : Type} {x : Prog α} {out : Except Exc α}
    (h : Evaluates cfg n x s out s') (hx : x.All keepsKey) (hs : c.Reaches cfg .handling s.2) :
    c.Reaches cfg .handling s'.2 :=
  h.all hx (fun a => c.Reaches cfg .handling a.2) (fun a b ha hr => by rw [hr]; exact ha)
    (fun _ _ hp ha => ha.work hp) hs

theorem evaluates_defers {α : Type} {x : Prog α} {out : Except Exc α} {point : Point}
    (h : Evaluates cfg n x s out s') (hx : x.All defersAct) (hs : c.Reaches cfg point s.2) :
    c.Reaches cfg point s'.2 :=
  h.all hx (fun a => c.Reaches cfg point a.2) (fun a b ha hr => by rw [hr]; exact ha)
    (fun _ _ hp ha => ha.defers hp) hs

/-! ## The end of a command -/

/-- A session that raises ends up in the state of `stateAfter`. -/
def stateOf (l : Session) : Except Exc Unit → State
  | .ok _ => l.state
  | .error e => Registry.stateAfter l.state e

/-- The connection is at the last await of its command, which ends with `out` and leaves the
session `l` behind. -/
structure Last (cfg : Config) (c : Connection) (l : Session) (out : Except Exc Unit) : Prop where
  apiKey : c.apiKey = l.api.map (·.apiKey)
  closed : c.closed = l.closed
  ends : ∃ h : Occasion, ∀ f, h.step cfg (f, c) =
    some (Registry.finishCommand (f, { c with state := stateOf l out, point := .between }))

/-- The connection comes to the end of its command. -/
def Concludes (cfg : Config) (c : Connection) (l : Session) (out : Except Exc Unit) : Prop :=
  ∃ c', Relation.ReflTransGen (Connection.Next cfg) c c' ∧ Last cfg c' l out

theorem Last.concludes (h : Last cfg c l out) : Concludes cfg c l out := ⟨c, .refl, h⟩

theorem Connection.Next.concludes (h : Next cfg c c') (he : Concludes cfg c' l out) :
    Concludes cfg c l out :=
  he.imp fun _ he => ⟨.head h he.1, he.2⟩

/-- A handler that was at work returns or raises. -/
theorem Connection.Reaches.concludes (h : c.Reaches cfg .handling l) (out : Except Exc Unit) :
    Concludes cfg c l out := by
  obtain ⟨c', hgoes, hv, hpoint⟩ := h
  refine ⟨c', hgoes, hv.apiKey, hv.closed, ?_⟩
  cases out with
  | ok _ =>
    refine ⟨.answered none, fun f => ?_⟩
    simp only [Occasion.step, if_pos hpoint, Registry.succeed, stateOf, hv.state]
  | error e =>
    refine ⟨.answered (some e), fun f => ?_⟩
    simp only [Occasion.step, if_pos hpoint, Registry.fail, stateOf, hv.state]

/-! ## LOGIN -/

theorem evaluates_refuse {α : Type} {p : Prop} [Decidable p] {e : Exc} {k : Unit → Prog α}
    {out : Except Exc α} (h : Evaluates cfg n ((refuse p e).bind k) s out s') :
    (p ∧ out = .error e ∧ s' = s) ∨ (¬p ∧ Evaluates cfg n (k ()) s out s') := by
  rw [refuse] at h
  split at h
  · rename_i hp
    cases h
    exact .inl ⟨hp, rfl, rfl⟩
  · rename_i hp
    exact .inr ⟨hp, h⟩

/-- A request is answered by a value, or it raises. -/
theorem evaluates_ask {q : Req} {out : Except Exc q.Value}
    (h : Evaluates cfg n (svc (ask q)) s out s') : s'.2 = s.2 := by
  cases h with
  | await hr a _ h =>
    cases a with
    | ok v =>
      cases h
      exact hr
    | error e =>
      cases h
      exact hr

theorem evaluates_setState {st : State} {r : Response}
    (h : Evaluates cfg n ((act (.setState st)).bind fun _ => send r) s out s') :
    out = .ok () ∧ s'.2.state = st ∧ s'.2.api = s.2.api ∧ s'.2.closed = s.2.closed := by
  cases h with
  | act h =>
    cases h with
    | act h =>
      cases h
      exact ⟨rfl, rfl, rfl, rfl⟩

/-- LOGIN is refused before it asks upstream. -/
theorem login_refused (userid password : String) {status text : String} {code : Option String}
    (hv : c.Views l) (hpoint : c.point = .reading ∨ c.point = .between)
    (h : ¬accepts cfg l.state userid password) :
    Concludes cfg c l (.error (.commandFailed status text code)) := by
  refine Last.concludes ⟨hv.apiKey, hv.closed, .login userid password, fun f => ?_⟩
  rw [← hv.state] at h
  simp only [Occasion.step, if_pos hpoint, if_neg h, Registry.fail, stateOf]
  rw [hv.state]
  rfl

/-- The requests of LOGIN: whose key it is, and if need be the inbox. -/
theorem verify_concludes (api : Client) {tag userid : String}
    (hv : c.Views s.2) (hpoint : c.point = .authMe userid)
    (h : Evaluates cfg n ((svc (ask (.authMe api))).bind fun identity =>
      (refuse (identity.scopeType = "inbox" ∧ orEmpty identity.inboxId ≠ "" ∧
        orEmpty identity.inboxId ≠ userid) invalidCredentials).bind fun _ =>
      (checkInbox api userid identity).bind fun _ =>
      (act (.setState .authenticated)).bind fun _ =>
      send (.tagged tag "OK" "LOGIN completed" (some .capability))) s out s') :
    Concludes cfg c s'.2 out := by
  have hsame : ∀ {l' : Session}, l' = s.2 → c.Views l' := fun heq => heq ▸ hv
  rcases h.of_bind with ⟨e, rfl, hask⟩ | ⟨identity, s₁, hask, h⟩
  · have hv' := hsame (evaluates_ask hask)
    refine Last.concludes ⟨hv'.apiKey, hv'.closed, .identity (.error e), fun f => ?_⟩
    simp only [Occasion.step, hpoint, Registry.fail, stateOf, hv'.state]
  have hv₁ := hsame (evaluates_ask hask)
  rcases evaluates_refuse h with ⟨hscope, rfl, rfl⟩ | ⟨hscope, h⟩
  · refine Last.concludes ⟨hv₁.apiKey, hv₁.closed, .identity (.ok identity), fun f => ?_⟩
    simp only [Occasion.step, hpoint, verify, if_pos hscope, Registry.fail, stateOf, hv₁.state]
  by_cases hopen : identity.scopeType ≠ "inbox" ∨ orEmpty identity.inboxId = ""
  · -- the key has to show that it can read the inbox
    have hnext : Next cfg c { c with point := .getInbox } := by
      refine ⟨.identity (.ok identity), fun f => ⟨f, ?_⟩⟩
      simp only [Occasion.step, hpoint, verify, if_neg hscope, if_pos hopen]
    refine hnext.concludes ?_
    have hv₂ : Connection.Views { c with point := .getInbox } s₁.2 :=
      ⟨hv₁.state, hv₁.apiKey, hv₁.closed⟩
    have hfails : ∀ {l' : Session} (e : Exc), l' = s₁.2 →
        Concludes cfg { c with point := .getInbox } l' (.error e) := by
      rintro _ e rfl
      refine Last.concludes ⟨hv₂.apiKey, hv₂.closed, .inbox (.error e), fun f => ?_⟩
      simp only [Occasion.step, Registry.fail, stateOf, hv₁.state]
    simp only [checkInbox, if_pos hopen, Coro.bind_eq, Coro.pure_eq, Coro.throw_eq] at h
    rcases h.of_bind with ⟨e, rfl, hcheck⟩ | ⟨_, s₂, hcheck, h⟩
    · rcases hcheck.of_bind with ⟨_, _, hasked⟩ | ⟨r, s₂, hasked, hraise⟩
      · obtain ⟨_, hok, _⟩ := hasked.of_attempt
        cases hok
      · obtain ⟨_, _, hasked⟩ := hasked.of_attempt
        refine hfails e (?_ : s'.2 = s₁.2)
        rw [← evaluates_ask hasked]
        split at hraise <;> cases hraise <;> rfl
    · have hs₂ : s₂.2 = s₁.2 := by
        rcases hcheck.of_bind with ⟨_, hout, _⟩ | ⟨r, s₃, hasked, hret⟩
        · cases hout
        · obtain ⟨_, _, hasked⟩ := hasked.of_attempt
          rw [← evaluates_ask hasked]
          split at hret <;> cases hret
          rfl
      obtain ⟨rfl, hstate, hapi, hclosed⟩ := evaluates_setState h
      refine Last.concludes ⟨?_, ?_, .inbox (.ok ()), fun f => ?_⟩
      · rw [hapi, hs₂]
        exact hv₂.apiKey
      · rw [hclosed, hs₂]
        exact hv₂.closed
      · simp only [Occasion.step, Registry.succeed, stateOf, hstate]
  · simp only [checkInbox, if_neg hopen] at h
    obtain ⟨rfl, hstate, hapi, hclosed⟩ := evaluates_setState h
    refine Last.concludes ⟨?_, ?_, .identity (.ok identity), fun f => ?_⟩
    · rw [hapi]
      exact hv₁.apiKey
    · rw [hclosed]
      exact hv₁.closed
    · simp only [Occasion.step, hpoint, verify, if_neg hscope, if_neg hopen, Registry.succeed,
        stateOf, hstate]

theorem login_concludes {tag userid password : String} (hv : c.Views s.2)
    (hpoint : c.point = .reading ∨ c.point = .between)
    (h : Evaluates cfg n (login cfg n tag userid password) s out s') :
    Concludes cfg c s'.2 out := by
  rw [login] at h
  simp only [Coro.bind_eq] at h
  have h := evaluates_session h
  rcases evaluates_refuse h with ⟨hstate, rfl, rfl⟩ | ⟨hstate, h⟩
  · exact login_refused userid password hv hpoint fun hok => hstate hok.1
  rcases evaluates_refuse h with ⟨hprintable, rfl, rfl⟩ | ⟨hprintable, h⟩
  · exact login_refused userid password hv hpoint fun hok => by
      rw [hok.2.1, hok.2.2.1] at hprintable
      cases hprintable
  rcases evaluates_refuse h with ⟨hallowed, rfl, rfl⟩ | ⟨hallowed, h⟩
  · exact login_refused userid password hv hpoint fun hok => hallowed.2 (hok.2.2.2 hallowed.1)
  have haccepts : accepts cfg c.state userid password := by
    rw [hv.state]
    simp only [Bool.or_eq_true, Bool.not_eq_true', not_or, Bool.not_eq_false] at hprintable
    refine ⟨not_not.mp hstate, hprintable.1, hprintable.2, fun hne => ?_⟩
    by_contra hother
    exact hallowed ⟨hne, hother⟩
  have hnext : Next cfg c { c with apiKey := some password, point := .authMe userid } := by
    refine ⟨.login userid password, fun f => ⟨f.register password, ?_⟩⟩
    simp only [Occasion.step, if_pos hpoint, if_pos haccepts]
    rfl
  refine hnext.concludes ?_
  have hview : Connection.Views { c with apiKey := some password, point := .authMe userid }
      (exec cfg (.conn n) (.inr (.setCredentials n userid password)) s).2 :=
    ⟨hv.state, rfl, hv.closed⟩
  cases h with
  | act h =>
    cases h with
    | get h => exact verify_concludes ⟨n, s.2.logins, password⟩ hview rfl h

/-! ## Dispatch -/

/-- A handler, from the read of its command on. -/
theorem handler_concludes {cmd : Command} (hv : c.Views s.2)
    (hpoint : c.point = .reading ∨ c.point = .between)
    (h : Evaluates cfg n (handler cfg txt n cmd) s out s') : Concludes cfg c s'.2 out := by
  by_cases hlogin : ∃ userid password, cmd.verb = .login userid password
  · obtain ⟨userid, password, hverb⟩ := hlogin
    unfold handler at h
    rw [hverb] at h
    exact login_concludes hv hpoint h
  · have hall : (handler cfg txt n cmd).All keepsKey :=
      (answers_handler n fun userid password hverb => hlogin ⟨userid, password, hverb⟩).all
        keepsKey_of_steady keepsKey_of_tags keepsKey_of_resting
    have hnext : Next cfg c { c with point := .handling } :=
      ⟨.command, fun f => ⟨f, if_pos hpoint⟩⟩
    have hstart := hnext.reaches ⟨_, .refl, ⟨hv.state, hv.apiKey, hv.closed⟩, rfl⟩
    exact (evaluates_works h hall hstart).concludes out

/-- `report` leaves the session in the state it ends in, and its key alone. -/
theorem evaluates_report_state {cmd : Command} {e : Exc}
    (h : Evaluates cfg n (report cfg n cmd e) s out s') :
    s'.2.state = Registry.stateAfter s.2.state e ∧ s'.2.api = s.2.api ∧
      s'.2.closed = s.2.closed := by
  cases e with
  | auth status =>
    unfold report at h
    simp only [Coro.bind_eq] at h
    have h := evaluates_session h
    split at h
    · rename_i hstate
      cases h with
      | act h =>
        cases h
        exact ⟨by rw [Registry.stateAfter, if_neg fun hne => hne.1 hstate]; rfl, rfl, rfl⟩
    · rename_i hstate
      split at h
      · rename_i hstatus
        cases h with
        | act h =>
          cases h
          exact ⟨by rw [Registry.stateAfter, if_neg fun hne => hne.2 hstatus]; rfl, rfl, rfl⟩
      · rename_i hstatus
        cases h with
        | act h =>
          cases h with
          | act h =>
            cases h
            exact ⟨by rw [Registry.stateAfter, if_pos ⟨hstate, hstatus⟩]; rfl, rfl, rfl⟩
  | _ =>
    cases h with
    | act h =>
      cases h
      exact ⟨rfl, rfl, rfl⟩

theorem clearCredentials_eq (f : RedactingFilter) (c : Connection) :
    ∃ f', Registry.clearCredentials (f, c) = (f', { c with apiKey := none }) := by
  obtain ⟨state, apiKey, closed, point, farewell⟩ := c
  cases apiKey with
  | none => exact ⟨f, rfl⟩
  | some key => exact ⟨_, rfl⟩

/-- The `finally` of `dispatch` drops a key that LOGIN has left behind. -/
theorem Concludes.finished (h : Concludes cfg c l out) {l' l'' : Session}
    (hstate : l'.state = stateOf l out) (hapi : l'.api = l.api) (hclosed : l'.closed = l.closed)
    (hl : l'' =
      if l'.state = .notAuthenticated ∧ l'.api.isSome then { l' with api := none } else l') :
    c.Reaches cfg .between l'' := by
  obtain ⟨c₁, hgoes, hkey, hshut, occasion, hstep⟩ := h
  have hsome : c₁.apiKey.isSome = l'.api.isSome := by rw [hkey, hapi, Option.isSome_map]
  refine (?_ : ∃ c₂, _ ∧ _).elim fun c₂ h => ⟨c₂, hgoes.tail ⟨occasion, h.1⟩, h.2⟩
  by_cases hdrop : l'.state = .notAuthenticated ∧ l'.api.isSome
  · rw [if_pos hdrop] at hl
    refine ⟨{ c₁ with state := stateOf l out, apiKey := none, point := .between },
      fun f => ?_, ?_, rfl⟩
    · rw [hstep f, Registry.finishCommand,
        if_pos ⟨hstate.symm.trans hdrop.1, hsome.trans hdrop.2⟩]
      exact (clearCredentials_eq f _).imp fun _ heq => congrArg some heq
    · subst hl
      exact ⟨hstate.symm, rfl, hshut.trans hclosed.symm⟩
  · rw [if_neg hdrop] at hl
    subst hl
    refine ⟨{ c₁ with state := stateOf l out, point := .between }, fun f => ⟨f, ?_⟩, ?_, rfl⟩
    · have hkept : ¬(stateOf l out = .notAuthenticated ∧ c₁.apiKey.isSome) := by
        rw [← hstate, hsome]
        exact hdrop
      rw [hstep f, Registry.finishCommand, if_neg hkept]
    · exact ⟨hstate.symm, hkey.trans (by rw [hapi]), hshut.trans hclosed.symm⟩

/-- Whatever a command does to the state, the key and the end of its session, the lifecycle can
follow. -/
theorem dispatch_reaches {cmd : Command} (hv : c.Views s.2)
    (hpoint : c.point = .reading ∨ c.point = .between)
    (h : Evaluates cfg n (dispatch cfg txt n cmd) s out s') : c.Reaches cfg .between s'.2 := by
  have hrest : ∀ {out₁ : Except Exc Unit} {s₁ s₂ : Shared}, Concludes cfg c s₁.2 out₁ →
      s₂.2.state = stateOf s₁.2 out₁ → s₂.2.api = s₁.2.api → s₂.2.closed = s₁.2.closed →
      Evaluates cfg n (do
        let l ← session
        if l.state = .notAuthenticated ∧ l.api.isSome then act .clearCredentials
        runDeferred) s₂ out s' → c.Reaches cfg .between s'.2 := by
    intro out₁ s₁ s₂ hends hstate hapi hclosed h
    have h := evaluates_session h
    split at h
    · rename_i hdrop
      cases h with
      | act h =>
        exact evaluates_defers h defers_runDeferred
          (hends.finished hstate hapi hclosed (if_pos hdrop).symm)
    · rename_i hdrop
      exact evaluates_defers h defers_runDeferred
        (hends.finished hstate hapi hclosed (if_neg hdrop).symm)
  unfold dispatch at h
  simp only [Coro.bind_eq] at h
  rcases h.of_bind with ⟨e, _, he⟩ | ⟨r, s₁, hr, h⟩
  · obtain ⟨r, hok, _⟩ := he.of_attempt
    cases hok
  · obtain ⟨r', hok, hhandler⟩ := hr.of_attempt
    cases hok
    have hends := handler_concludes hv hpoint hhandler
    cases r with
    | ok _ => exact hrest hends rfl rfl rfl h
    | error e =>
      rcases h.of_bind with ⟨e', hout, he⟩ | ⟨_, s₂, hreport, h⟩
      · cases (evaluates_report he).1
      · obtain ⟨hstate, hapi, hclosed⟩ := evaluates_report_state hreport
        exact hrest hends hstate hapi hclosed h

/-- `close` leaves no key, unless it is cancelled while the client reads. -/
theorem hangUp_reaches (hv : c.Views s.2) (hpoint : c.point = .reading ∨ c.point = .between)
    (h : Evaluates cfg n hangUp s out s') :
    ∃ last, last ≠ .flushing ∧ c.Reaches cfg (.closing last) s'.2 := by
  have hhang : ∀ {waits : Bool} (f : RedactingFilter), (Occasion.hangUp waits).step cfg (f, c) =
      some (Registry.close (f, c) .task waits) := fun f => by
    rw [Occasion.step, if_pos (.inr hpoint)]
  unfold hangUp at h
  simp only [Coro.bind_eq] at h
  have h := evaluates_session h
  split at h
  · rename_i hclosed
    cases h with
    | act h =>
      cases h
      refine ⟨.over, (fun heq => by cases heq), { c with apiKey := none, point := .closing .over },
        .single ⟨.hangUp false, fun f => ?_⟩, ⟨hv.state, rfl, hv.closed⟩, rfl⟩
      rw [hhang, Registry.close, if_pos (hv.closed.trans hclosed)]
      exact (clearCredentials_eq f _).imp fun _ heq => congrArg some heq
  · rename_i hopen
    have hnext : Next cfg c { c with point := .closing .flushing } := by
      refine ⟨.hangUp true, fun f => ⟨f, ?_⟩⟩
      rw [hhang, Registry.close, if_neg (hv.closed ▸ hopen), if_pos rfl]
      rfl
    have hflush : c.Reaches cfg (.closing .flushing) s.2 :=
      hnext.reaches ⟨_, .refl, ⟨hv.state, hv.apiKey, hv.closed⟩, rfl⟩
    rcases h.of_bind with ⟨e, rfl, hraised⟩ | ⟨_, s₁, hdrained, h⟩
    · have hraised := evaluates_defers hraised defers_flush hflush
      refine ⟨.over, (fun heq => by cases heq), hraised.trans fun c' hv' hat => ?_⟩
      have hcancel : Next cfg c' { c' with point := .closing .over } := by
        refine ⟨.cancel false, fun f => ⟨f, ?_⟩⟩
        simp only [Occasion.step, cancelled, hat]
        rfl
      exact hcancel.reaches ⟨_, .refl, ⟨hv'.state, hv'.apiKey, hv'.closed⟩, rfl⟩
    · have hdrained := evaluates_defers hdrained defers_flush hflush
      refine ⟨.waiting, (fun heq => by cases heq), hdrained.trans fun c' hv' hat => ?_⟩
      cases h with
      | act h =>
        cases h with
        | act h =>
          cases h
          refine ⟨{ c'.drop with apiKey := none, point := .closing .waiting },
            .single ⟨.drained .task, fun f => ?_⟩, ⟨rfl, rfl, rfl⟩, rfl⟩
          rw [Occasion.step, if_pos (by simp only [Connection.stage, hat])]
          exact (clearCredentials_eq f _).imp fun _ heq => congrArg some heq

/-! ## Among the other connections -/

namespace Hub

variable {hub : Hub} {k : Nat}

theorem run_goes (hc : hub.connections[k]? = some c)
    (h : Relation.ReflTransGen (Connection.Next cfg) c c') :
    ∃ ms hub', hub.run cfg ms = some hub' ∧ hub'.connections = hub.connections.set k c' := by
  induction h using Relation.ReflTransGen.head_induction_on generalizing hub with
  | refl =>
    obtain ⟨hlt, rfl⟩ := List.getElem?_eq_some_iff.mp hc
    exact ⟨[], hub, rfl, (List.set_getElem_self hlt).symm⟩
  | @head c c₁ hnext _ ih =>
    obtain ⟨occasion, hstep⟩ := hnext
    obtain ⟨f, hstep⟩ := hstep hub.filter
    obtain ⟨hlt, _⟩ := List.getElem?_eq_some_iff.mp hc
    obtain ⟨ms, hub', hrun, hset⟩ := @ih ⟨f, hub.connections.set k c₁⟩ (List.getElem?_set_self hlt)
    refine ⟨.happen k occasion :: ms, hub', ?_, by rw [hset, List.set_set]⟩
    have hhub : hub.step cfg (.happen k occasion) = some ⟨f, hub.connections.set k c₁⟩ := by
      simp only [Hub.step, hc, hstep, Option.map_some]
    rw [Hub.run, hhub]
    exact hrun

/-- A run of all connections takes the one through the command of its session, so what holds in
every run holds where the session is afterwards. -/
theorem run_dispatch {cmd : Command} (hc : hub.connections[k]? = some c) (hv : c.Views s.2)
    (hpoint : c.point = .reading ∨ c.point = .between)
    (h : Evaluates cfg n (dispatch cfg txt n cmd) s out s') :
    ∃ ms hub' c', hub.run cfg ms = some hub' ∧ hub'.connections = hub.connections.set k c' ∧
      c'.Views s'.2 ∧ c'.point = .between := by
  obtain ⟨c', hgoes, hrest⟩ := dispatch_reaches hv hpoint h
  obtain ⟨ms, hub', hrun, hset⟩ := run_goes hc hgoes
  exact ⟨ms, hub', c', hrun, hset, hrest⟩

end Hub

end Imap
end ImapGateway
