/-
The logic the handlers are proved in.

A coroutine of the gateway owes what its actions of the service owe there, and
for its own session what `SOwes` says.  The others leave its session alone.
Under `V` it writes nothing while its mailbox is open read-only.
-/
import ImapGateway.Imap.Obligations
import ImapGateway.Imap.World
import ImapGateway.Mailbox.Writes

namespace ImapGateway
namespace Imap

open Async Mailbox

/-- A mailbox that is selected is not open read-only. -/
def View.Writable (v : View) : Prop := ∀ x, v.selected = some x → x.2.1 = false

def gwLogic (cfg : Config) (R : Regime) (V : Prop) (t : Tid) :
    Logic Shared (Mailbox.Act ⊕ Act) Req Req.Answer where
  exec := Imap.exec cfg t
  rely s s' := Rely cfg R t s.1 s'.1 ∧ s'.2 = s.2
  guar p s := match p with
    | .inl p => Owes cfg R t p s.1 ∧ (p.marks = true → V → s.2.view.Writable)
    | .inr p => Inv cfg R s.1 ∧ SOwes t p s.1 s.2
  asks q s := q.writes = true → V → s.2.view.Writable
  gives q a s :=
    Results q a s.1 ∧ (R.gentle → Gentle cfg t q a s.1) ∧ (R.honest → Honest t q a s.1)

variable {cfg : Config} {R : Regime} {V : Prop} {t : Tid} {v : View} {s s' : Shared}

/-! ## Where a handler stands -/

structure Sits (cfg : Config) (R : Regime) (t : Tid) (v : View) (s : Shared) : Prop where
  stands : ∃ m, Stands cfg R t m s.1
  ok : s.2.Ok s.1
  view : s.2.view = v

theorem Sits.inv (h : Sits cfg R t v s) : Inv cfg R s.1 := h.stands.elim fun _ h => h.inv

/-! ## Actions of the session -/

/-- The service stays where it is. -/
theorem Sits.become {v' : View} {p : Act} (h : Sits cfg R t v s) (hok : (p.exec s.1 s.2).Ok s.1)
    (hview : (p.exec s.1 s.2).view = v') : Sits cfg R t v' ((gwLogic cfg R V t).exec (.inr p) s) :=
  ⟨h.stands, hok, hview⟩

theorem Sits.quiet {p : Act} (h : Sits cfg R t v s) (hp : p.quiet = true)
    (ho : SOwes t p s.1 s.2) : Sits cfg R t v ((gwLogic cfg R V t).exec (.inr p) s) := by
  obtain ⟨hok, hview⟩ := h.ok.quiet hp ho
  exact h.become hok (hview.trans h.view)

/-- A quiet action and what follows it. -/
theorem Sits.act_bind {α : Type} {p : Act} {k : Unit → Prog α} {Q : α → Shared → Prop}
    {E : Exc → Shared → Prop} (h : Sits cfg R t v s) (hp : p.quiet = true)
    (ho : SOwes t p s.1 s.2)
    (hk : ∀ s', Sits cfg R t v s' → s'.1 = s.1 → (k ()).wp (gwLogic cfg R V t) Q E s') :
    ((act p).bind k).wp (gwLogic cfg R V t) Q E s :=
  ⟨⟨h.inv, ho⟩, hk _ (h.quiet hp ho) rfl⟩

theorem Sits.act_wp {p : Act} (h : Sits cfg R t v s) (hp : p.quiet = true)
    (ho : SOwes t p s.1 s.2) : (act p).wp (gwLogic cfg R V t) (fun _ => Sits cfg R t v)
      (fun _ => Sits cfg R t v) s :=
  ⟨⟨h.inv, ho⟩, h.quiet hp ho⟩

/-- A look at the session. -/
theorem session_bind {α : Type} {L : Logic Shared (Mailbox.Act ⊕ Act) Req Req.Answer}
    {k : Session → Prog α} {Q : α → Shared → Prop} {E : Exc → Shared → Prop}
    (hk : (k s.2).wp L Q E s) : (session.bind k).wp L Q E s := hk

/-- A look at the service. -/
theorem service_bind {α : Type} {L : Logic Shared (Mailbox.Act ⊕ Act) Req Req.Answer}
    {k : Service → Prog α} {Q : α → Shared → Prop} {E : Exc → Shared → Prop}
    (hk : (k s.1).wp L Q E s) : (service.bind k).wp L Q E s := hk

/-- A guard. -/
theorem refuse_bind {α : Type} {L : Logic Shared (Mailbox.Act ⊕ Act) Req Req.Answer} {c : Prop}
    [Decidable c] {e : Exc} {k : Unit → Prog α} {Q : α → Shared → Prop}
    {E : Exc → Shared → Prop} (hE : c → E e s) (hk : ¬c → (k ()).wp L Q E s) :
    ((refuse c e).bind k).wp L Q E s := by
  rw [refuse]
  split
  · rename_i hc
    exact hE hc
  · rename_i hc
    exact hk hc

/-! ## Coroutines of the service -/

theorem frames (cfg : Config) (R : Regime) (V : Prop) (t : Tid) (v : View) :
    Coro.Frames (svcLogic cfg R (V → v.Writable) t) (gwLogic cfg R V t) Sum.inl Prod.fst
      (fun s => Inv cfg R s.1 ∧ s.2.Ok s.1 ∧ s.2.view = v) where
  exec _ _ := rfl
  guar p s hF hg := by
    obtain ⟨hi, hok, hview⟩ := hF
    refine ⟨⟨hg.1, fun hm => ?_⟩, hi.step hg.1, hok.grows (hi.evolve t p).store, hview⟩
    rw [hg.2] at hm
    cases hm
  rely s s' hF hr := by
    obtain ⟨hi, hok, hview⟩ := hF
    obtain ⟨hr, hl⟩ := hr
    obtain ⟨hi', hev, _⟩ := hr hi
    exact ⟨hr, hi', by rw [hl]; exact hok.grows hev.store, by rw [hl]; exact hview⟩
  asks q s hF ha hw hV := by
    rw [hF.2.2]
    exact ha hw hV
  gives _ _ _ h := h

/-- What holds of a coroutine of the service holds of it in the gateway. -/
theorem Sits.svc_wp {α : Type} {x : Svc α} {Q : α → Service → Prop} {E : Exc → Service → Prop}
    (h : Sits cfg R t v s) (hx : ∀ m, Stands cfg R t m s.1 →
      x.wp (svcLogic cfg R (V → v.Writable) t) (fun a s => (∃ m, Stands cfg R t m s) ∧ Q a s)
        (fun e s => (∃ m, Stands cfg R t m s) ∧ E e s) s.1) :
    (svc x).wp (gwLogic cfg R V t) (fun a s => Sits cfg R t v s ∧ Q a s.1)
      (fun e s => Sits cfg R t v s ∧ E e s.1) s := by
  obtain ⟨m, hm⟩ := h.stands
  refine Coro.wp_mono (fun a s hs => ?_) (fun e s hs => ?_)
    (Coro.wp_lift (frames cfg R V t v) ⟨h.inv, h.ok, h.view⟩ (hx m hm))
  · exact ⟨⟨hs.1.1, hs.2.2.1, hs.2.2.2⟩, hs.1.2⟩
  · exact ⟨⟨hs.1.1, hs.2.2.1, hs.2.2.2⟩, hs.1.2⟩

/-- A request that writes nothing. -/
theorem Sits.ask_wp {q : Req} (h : Sits cfg R t v s) (hq : q.writes = false) :
    (svc (ask q)).wp (gwLogic cfg R V t) (fun _ => Sits cfg R t v) (fun _ => Sits cfg R t v) s := by
  refine Coro.wp_mono (fun _ _ hs => hs.1) (fun _ _ hs => hs.1)
    (h.svc_wp (Q := fun _ _ => True) (E := fun _ _ => True) fun m hm => ?_)
  refine Mailbox.ask_wp (fun hw => by rw [hq] at hw; cases hw) fun s' hr a _ _ _ => ?_
  have h' := hm.rely hr
  cases a with
  | ok a => exact ⟨⟨m, h'⟩, trivial⟩
  | error e => exact ⟨⟨m, h'⟩, trivial⟩

/-! ## What cannot be undone -/

/-- No owed action undoes it. -/
def Stable (K : Service → Prop) : Prop := ∀ s s', Evolve s s' → K s → K s'

theorem Stable.and {K K' : Service → Prop} (h : Stable K) (h' : Stable K') :
    Stable fun s => K s ∧ K' s := fun s s' he hs => ⟨h s s' he hs.1, h' s s' he hs.2⟩

theorem Stable.true : Stable fun _ => True := fun _ _ _ _ => trivial

theorem Stable.knows (inboxId : String) (mdef : MailboxDef) (item : Item) :
    Stable fun s => s.Knows inboxId mdef item := fun _ _ he hs => he.knows hs

theorem Stable.lt_nextUid (key : Key) (us : List Nat) :
    Stable fun s => ∀ u ∈ us, u < s.store.nextUid key.1 key.2 := fun _ _ he hs u hu =>
  Nat.lt_of_lt_of_le (hs u hu) (he.store key.1 key.2).1

/-- What no owed action can undo stays true beside the rest. -/
theorem wp_grows {α : Type} {x : Prog α} {Q : α → Shared → Prop} {E : Exc → Shared → Prop}
    {K : Service → Prop} (hK : Stable K) (hi : Inv cfg R s.1) (hs : K s.1)
    (h : x.wp (gwLogic cfg R V t) Q E s) :
    x.wp (gwLogic cfg R V t) (fun a s => Q a s ∧ K s.1) (fun e s => E e s ∧ K s.1) s := by
  refine Coro.wp_mono (fun a s hs => ⟨hs.1, hs.2.2⟩) (fun e s hs => ⟨hs.1, hs.2.2⟩)
    (Coro.wp_frame (J := fun s => Inv cfg R s.1 ∧ K s.1) (fun p s hJ hg => ?_)
      (fun s s' hJ hr => ?_) ⟨hi, hs⟩ h)
  · cases p with
    | inl p => exact ⟨hJ.1.step hg.1, hK _ _ (hJ.1.evolve t p) hJ.2⟩
    | inr p => exact hJ
  · obtain ⟨hi', hev, _⟩ := hr.1 hJ.1
    exact ⟨hi', hK _ _ hev hJ.2⟩

/-- Where a handler stands, and what it has learned that stays true. -/
structure Has (cfg : Config) (R : Regime) (t : Tid) (v : View) (K : Service → Prop) (s : Shared) :
    Prop where
  sits : Sits cfg R t v s
  facts : K s.1

variable {K : Service → Prop}

theorem Has.svc_wp {α : Type} {x : Svc α} {Q : α → Service → Prop} {E : Exc → Service → Prop}
    (h : Has cfg R t v K s) (hK : Stable K) (hx : ∀ m, Stands cfg R t m s.1 →
      x.wp (svcLogic cfg R (V → v.Writable) t) (fun a s => (∃ m, Stands cfg R t m s) ∧ Q a s)
        (fun e s => (∃ m, Stands cfg R t m s) ∧ E e s) s.1) :
    (svc x).wp (gwLogic cfg R V t) (fun a s => Has cfg R t v K s ∧ Q a s.1)
      (fun e s => Has cfg R t v K s ∧ E e s.1) s :=
  Coro.wp_mono (fun _ _ hs => ⟨⟨hs.1.1, hs.2⟩, hs.1.2⟩) (fun _ _ hs => ⟨⟨hs.1.1, hs.2⟩, hs.1.2⟩)
    (wp_grows hK h.sits.inv h.facts (h.sits.svc_wp hx))

theorem Has.act_wp {p : Act} (h : Has cfg R t v K s) (hp : p.quiet = true)
    (ho : SOwes t p s.1 s.2) : (act p).wp (gwLogic cfg R V t) (fun _ => Has cfg R t v K)
      (fun _ => Has cfg R t v K) s :=
  ⟨⟨h.sits.inv, ho⟩, h.sits.quiet hp ho, h.facts⟩

theorem Has.act_bind {α : Type} {p : Act} {k : Unit → Prog α} {Q : α → Shared → Prop}
    {E : Exc → Shared → Prop} (h : Has cfg R t v K s) (hp : p.quiet = true)
    (ho : SOwes t p s.1 s.2)
    (hk : ∀ s', Has cfg R t v K s' → (k ()).wp (gwLogic cfg R V t) Q E s') :
    ((act p).bind k).wp (gwLogic cfg R V t) Q E s :=
  ⟨⟨h.sits.inv, ho⟩, hk _ ⟨h.sits.quiet hp ho, h.facts⟩⟩

end Imap
end ImapGateway
