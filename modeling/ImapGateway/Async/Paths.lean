/-
What a coroutine does on every one of its paths.

A path is a way through the tree of a coroutine: what it reads and how its
requests are answered is arbitrary.  `All` and `Closes` say what actions lie on
the paths, and `Evals` follows one path with the states it goes through, where
the environment may change the state at every await.  `Hears` also says how the
requests were answered, and `Asks` what requests there are.
-/
import ImapGateway.Async.Coro

namespace ImapGateway
namespace Async
namespace Coro

variable {S A ρ : Type} {ans : ρ → Type} {ε α β : Type} {P Q F G : A → Prop}

/-! ## Actions on the paths -/

/-- Every action on every path meets `P`. -/
def All (P : A → Prop) : Coro S A ρ ans ε α → Prop
  | ret _ => True
  | raise _ => True
  | get k => ∀ s, (k s).All P
  | act p k => P p ∧ k.All P
  | await _ k => ∀ a, (k a).All P

/-- No path awaits or raises, and every action meets `P`. -/
def Returns (P : A → Prop) : Coro S A ρ ans ε α → Prop
  | ret _ => True
  | raise _ => False
  | get k => ∀ s, (k s).Returns P
  | act p k => P p ∧ k.Returns P
  | await _ _ => False

/-- A path that returns performs one action of `F`, and then neither awaits nor raises;
before it come actions of `P` and after it actions of `G`.  A path that raises has
not performed it. -/
def Closes (P F G : A → Prop) : Coro S A ρ ans ε α → Prop
  | ret _ => False
  | raise _ => True
  | get k => ∀ s, (k s).Closes P F G
  | act p k => (P p ∧ k.Closes P F G) ∨ (F p ∧ k.Returns G)
  | await _ k => ∀ a, (k a).Closes P F G

theorem All.mono {x : Coro S A ρ ans ε α} (h : x.All P) (hPQ : ∀ p, P p → Q p) : x.All Q := by
  induction x with
  | ret a => trivial
  | raise e => trivial
  | get k ih => exact fun s => ih s (h s)
  | act p k ih => exact ⟨hPQ p h.1, ih h.2⟩
  | await q k ih => exact fun a => ih a (h a)

theorem All.bind {x : Coro S A ρ ans ε α} {f : α → Coro S A ρ ans ε β} (h : x.All P)
    (hf : ∀ a, (f a).All P) : (x.bind f).All P := by
  induction x with
  | ret a => exact hf a
  | raise e => trivial
  | get k ih => exact fun s => ih s (h s)
  | act p k ih => exact ⟨h.1, ih h.2⟩
  | await q k ih => exact fun a => ih a (h a)

theorem All.handle {x : Coro S A ρ ans ε α} {h : ε → Coro S A ρ ans ε α} (hx : x.All P)
    (hh : ∀ e, (h e).All P) : (x.handle h).All P := by
  induction x with
  | ret a => trivial
  | raise e => exact hh e
  | get k ih => exact fun s => ih s (hx s)
  | act p k ih => exact ⟨hx.1, ih hx.2⟩
  | await q k ih => exact fun a => ih a (hx a)

theorem All.attempt {x : Coro S A ρ ans ε α} (h : x.All P) : x.attempt.All P := by
  unfold Coro.attempt
  apply All.handle
  · exact h.bind fun a => trivial
  · exact fun e => trivial

theorem All.each {body : β → Coro S A ρ ans ε Unit} (h : ∀ b, (body b).All P) (bs : List β) :
    (each body bs).All P := by
  induction bs with
  | nil => trivial
  | cons b bs ih => exact (h b).bind fun _ => ih

theorem All.foldEach {body : α → β → Coro S A ρ ans ε α} (h : ∀ a b, (body a b).All P) (a : α)
    (bs : List β) : (foldEach body a bs).All P := by
  induction bs generalizing a with
  | nil => trivial
  | cons b bs ih => exact (h a b).bind fun a' => ih a'

/-- All actions of a lifted coroutine are lifted ones. -/
theorem All.lift {S' A' : Type} {inj : A → A'} {proj : S' → S} {P : A' → Prop}
    (h : ∀ p, P (inj p)) (x : Coro S A ρ ans ε α) : (x.lift inj proj).All P := by
  induction x with
  | ret a => trivial
  | raise e => trivial
  | get k ih => exact fun s => ih (proj s)
  | act p k ih => exact ⟨h p, ih⟩
  | await q k ih => exact fun a => ih a

theorem Closes.bind {x : Coro S A ρ ans ε α} {f : α → Coro S A ρ ans ε β} (h : x.All P)
    (hf : ∀ a, (f a).Closes P F G) : (x.bind f).Closes P F G := by
  induction x with
  | ret a => exact hf a
  | raise e => trivial
  | get k ih => exact fun s => ih s (h s)
  | act p k ih => exact .inl ⟨h.1, ih h.2⟩
  | await q k ih => exact fun a => ih a (h a)

theorem Returns.mono {x : Coro S A ρ ans ε α} (h : x.Returns P) (hPQ : ∀ p, P p → Q p) :
    x.Returns Q := by
  induction x with
  | ret a => trivial
  | raise e => exact h
  | get k ih => exact fun s => ih s (h s)
  | act p k ih => exact ⟨hPQ p h.1, ih h.2⟩
  | await q k ih => exact h

theorem Returns.all {x : Coro S A ρ ans ε α} (h : x.Returns P) : x.All P := by
  induction x with
  | ret a => trivial
  | raise e => trivial
  | get k ih => exact fun s => ih s (h s)
  | act p k ih => exact ⟨h.1, ih h.2⟩
  | await q k ih => exact h.elim

theorem Closes.mono {P' G' : A → Prop} {x : Coro S A ρ ans ε α} (h : x.Closes P F G)
    (hP : ∀ p, P p → P' p) (hG : ∀ p, G p → G' p) : x.Closes P' F G' := by
  induction x with
  | ret a => exact h
  | raise e => trivial
  | get k ih => exact fun s => ih s (h s)
  | act p k ih => exact h.imp (fun h => ⟨hP p h.1, ih h.2⟩) fun h => ⟨h.1, h.2.mono hG⟩
  | await q k ih => exact fun a => ih a (h a)

/-- What holds of the actions of all three kinds holds of every action. -/
theorem Closes.all {x : Coro S A ρ ans ε α} (h : x.Closes P F G) (hP : ∀ p, P p → Q p)
    (hF : ∀ p, F p → Q p) (hG : ∀ p, G p → Q p) : x.All Q := by
  induction x with
  | ret a => trivial
  | raise e => trivial
  | get k ih => exact fun s => ih s (h s)
  | act p k ih =>
    rcases h with ⟨hp, hk⟩ | ⟨hp, hk⟩
    · exact ⟨hP p hp, ih hk⟩
    · exact ⟨hF p hp, (hk.mono hG).all⟩
  | await q k ih => exact fun a => ih a (h a)

/-! ## Evaluation -/

/-- From `s` the coroutine ends with `out` in `s'`.  At every await the environment
changes the state by `rely` and answers by `gives`. -/
inductive Evals (exec : A → S → S) (rely : S → S → Prop) (gives : (q : ρ) → ans q → S → Prop) :
    Coro S A ρ ans ε α → S → Except ε α → S → Prop
  | ret (a : α) (s : S) : Evals exec rely gives (.ret a) s (.ok a) s
  | raise (e : ε) (s : S) : Evals exec rely gives (.raise e) s (.error e) s
  | get {k : S → Coro S A ρ ans ε α} {s s' : S} {out : Except ε α}
      (h : Evals exec rely gives (k s) s out s') : Evals exec rely gives (.get k) s out s'
  | act {p : A} {k : Coro S A ρ ans ε α} {s s' : S} {out : Except ε α}
      (h : Evals exec rely gives k (exec p s) out s') : Evals exec rely gives (.act p k) s out s'
  | await {q : ρ} {k : ans q → Coro S A ρ ans ε α} {s s₁ s' : S} {out : Except ε α}
      (hr : rely s s₁) (a : ans q) (ha : gives q a s₁) (h : Evals exec rely gives (k a) s₁ out s') :
      Evals exec rely gives (.await q k) s out s'

variable {exec : A → S → S} {rely : S → S → Prop} {gives : (q : ρ) → ans q → S → Prop} {s s' : S}

/-- Whatever the environment does and answers, the coroutine ends. -/
theorem exists_evals (x : Coro S A ρ ans ε α) (others : S → S) (answer : (q : ρ) → S → ans q)
    (s : S) : ∃ out s',
      x.Evals exec (fun a b => b = others a) (fun q a b => a = answer q b) s out s' := by
  induction x generalizing s with
  | ret a => exact ⟨_, _, .ret a s⟩
  | raise e => exact ⟨_, _, .raise e s⟩
  | get k ih =>
    obtain ⟨out, s', h⟩ := ih s s
    exact ⟨out, s', .get h⟩
  | act p k ih =>
    obtain ⟨out, s', h⟩ := ih (exec p s)
    exact ⟨out, s', .act h⟩
  | await q k ih =>
    obtain ⟨out, s', h⟩ := ih (answer q (others s)) (others s)
    exact ⟨out, s', .await rfl _ rfl h⟩

theorem Evals.of_bind {x : Coro S A ρ ans ε α} {f : α → Coro S A ρ ans ε β} {out : Except ε β}
    (h : (x.bind f).Evals exec rely gives s out s') :
    (∃ e, out = .error e ∧ x.Evals exec rely gives s (.error e) s') ∨
      ∃ a s₁, x.Evals exec rely gives s (.ok a) s₁ ∧ (f a).Evals exec rely gives s₁ out s' := by
  induction x generalizing s with
  | ret a => exact .inr ⟨a, _, .ret a _, h⟩
  | raise e =>
    cases h
    exact .inl ⟨e, rfl, .raise e _⟩
  | get k ih =>
    cases h with
    | get h =>
      exact (ih _ h).imp (fun ⟨e, he, hx⟩ => ⟨e, he, .get hx⟩)
        fun ⟨a, s₁, hx, hf⟩ => ⟨a, s₁, .get hx, hf⟩
  | act p k ih =>
    cases h with
    | act h =>
      exact (ih h).imp (fun ⟨e, he, hx⟩ => ⟨e, he, .act hx⟩)
        fun ⟨a, s₁, hx, hf⟩ => ⟨a, s₁, .act hx, hf⟩
  | await q k ih =>
    cases h with
    | await hr a ha h =>
      exact (ih a h).imp (fun ⟨e, he, hx⟩ => ⟨e, he, .await hr a ha hx⟩)
        fun ⟨b, s₁, hx, hf⟩ => ⟨b, s₁, .await hr a ha hx, hf⟩

theorem Evals.of_handle {x : Coro S A ρ ans ε α} {h : ε → Coro S A ρ ans ε α} {out : Except ε α}
    (he : (x.handle h).Evals exec rely gives s out s') :
    (∃ a, out = .ok a ∧ x.Evals exec rely gives s (.ok a) s') ∨
      ∃ e s₁, x.Evals exec rely gives s (.error e) s₁ ∧ (h e).Evals exec rely gives s₁ out s' := by
  induction x generalizing s with
  | ret a =>
    cases he
    exact .inl ⟨a, rfl, .ret a _⟩
  | raise e => exact .inr ⟨e, _, .raise e _, he⟩
  | get k ih =>
    cases he with
    | get he =>
      exact (ih _ he).imp (fun ⟨a, ha, hx⟩ => ⟨a, ha, .get hx⟩)
        fun ⟨e, s₁, hx, hh⟩ => ⟨e, s₁, .get hx, hh⟩
  | act p k ih =>
    cases he with
    | act he =>
      exact (ih he).imp (fun ⟨a, ha, hx⟩ => ⟨a, ha, .act hx⟩)
        fun ⟨e, s₁, hx, hh⟩ => ⟨e, s₁, .act hx, hh⟩
  | await q k ih =>
    cases he with
    | await hr a ha he =>
      exact (ih a he).imp (fun ⟨b, hb, hx⟩ => ⟨b, hb, .await hr a ha hx⟩)
        fun ⟨e, s₁, hx, hh⟩ => ⟨e, s₁, .await hr a ha hx, hh⟩

/-- An attempt does not raise. -/
theorem Evals.of_attempt {x : Coro S A ρ ans ε α} {out : Except ε (Except ε α)}
    (h : x.attempt.Evals exec rely gives s out s') : ∃ r, out = .ok r ∧ x.Evals exec rely gives s r s' := by
  rcases h.of_handle with ⟨r, rfl, hb⟩ | ⟨e, s₁, hb, hret⟩
  · rcases hb.of_bind with ⟨e, he, _⟩ | ⟨a, s₁, hx, hret⟩
    · cases he
    · cases hret
      exact ⟨.ok a, rfl, hx⟩
  · rcases hb.of_bind with ⟨e', he, hx⟩ | ⟨a, s₂, _, hret'⟩
    · cases he
      cases hret
      exact ⟨.error e, rfl, hx⟩
    · cases hret'

/-- What the environment and all actions keep relates the states at both ends. -/
theorem Evals.all {x : Coro S A ρ ans ε α} {out : Except ε α} (h : x.Evals exec rely gives s out s')
    (hx : x.All P) (I : S → Prop) (hrely : ∀ a b, I a → rely a b → I b)
    (hexec : ∀ p a, P p → I a → I (exec p a)) (hs : I s) : I s' := by
  induction h with
  | ret a s => exact hs
  | raise e s => exact hs
  | get _ ih => exact ih (hx _) hs
  | act _ ih => exact ih hx.2 (hexec _ _ hx.1 hs)
  | await hr a _ _ ih => exact ih (hx a) (hrely _ _ hs hr)

theorem Evals.returns {x : Coro S A ρ ans ε α} {out : Except ε α}
    (h : x.Evals exec rely gives s out s') (hx : x.Returns G) (I : S → Prop)
    (hexec : ∀ p a, G p → I a → I (exec p a)) (hs : I s) : I s' ∧ ∃ a, out = .ok a := by
  induction h with
  | ret a s => exact ⟨hs, a, rfl⟩
  | raise e s => cases hx
  | get _ ih => exact ih (hx _) hs
  | act _ ih => exact ih hx.2 (hexec _ _ hx.1 hs)
  | await hr a _ _ ih => cases hx

/-- A coroutine that closes raises where only `P` has happened, or returns after the
closing action. -/
theorem Evals.closes {x : Coro S A ρ ans ε α} {out : Except ε α} (h : x.Evals exec rely gives s out s')
    (hx : x.Closes P F G) (I J : S → Prop) (hrely : ∀ a b, I a → rely a b → I b)
    (hP : ∀ p a, P p → I a → I (exec p a)) (hF : ∀ p a, F p → I a → J (exec p a))
    (hG : ∀ p a, G p → J a → J (exec p a)) (hs : I s) :
    (I s' ∧ ∃ e, out = .error e) ∨ (J s' ∧ ∃ a, out = .ok a) := by
  induction h with
  | ret a s => cases hx
  | raise e s => exact .inl ⟨hs, e, rfl⟩
  | get _ ih => exact ih (hx _) hs
  | act hk ih =>
    rcases hx with ⟨hp, hx⟩ | ⟨hp, hx⟩
    · exact ih hx (hP _ _ hp hs)
    · exact .inr (hk.returns hx J hG (hF _ _ hp hs))
  | await hr a _ _ ih => exact ih (hx a) (hrely _ _ hs hr)

/-! ## Answers -/

/-- From `s` the coroutine ends with `out` in `s'`, and its requests are answered in
turn by `heard`.  At every await the environment changes the state by `rely`. -/
inductive Hears (exec : A → S → S) (rely : S → S → Prop) :
    Coro S A ρ ans ε α → S → List (Sigma ans) → Except ε α → S → Prop
  | ret (a : α) (s : S) : Hears exec rely (.ret a) s [] (.ok a) s
  | raise (e : ε) (s : S) : Hears exec rely (.raise e) s [] (.error e) s
  | get {k : S → Coro S A ρ ans ε α} {s s' : S} {heard : List (Sigma ans)} {out : Except ε α}
      (h : Hears exec rely (k s) s heard out s') : Hears exec rely (.get k) s heard out s'
  | act {p : A} {k : Coro S A ρ ans ε α} {s s' : S} {heard : List (Sigma ans)} {out : Except ε α}
      (h : Hears exec rely k (exec p s) heard out s') : Hears exec rely (.act p k) s heard out s'
  | await {q : ρ} {k : ans q → Coro S A ρ ans ε α} {s s₁ s' : S} {heard : List (Sigma ans)}
      {out : Except ε α} (hr : rely s s₁) (a : ans q) (h : Hears exec rely (k a) s₁ heard out s') :
      Hears exec rely (.await q k) s (⟨q, a⟩ :: heard) out s'

/-- All requests on all paths meet `Q`. -/
def Asks (Q : ρ → Prop) : Coro S A ρ ans ε α → Prop
  | ret _ => True
  | raise _ => True
  | get k => ∀ s, (k s).Asks Q
  | act _ k => k.Asks Q
  | await q k => Q q ∧ ∀ a, (k a).Asks Q

variable {heard : List (Sigma ans)} {T : ρ → Prop}

theorem Asks.bind {x : Coro S A ρ ans ε α} {f : α → Coro S A ρ ans ε β} (h : x.Asks T)
    (hf : ∀ a, (f a).Asks T) : (x.bind f).Asks T := by
  induction x with
  | ret a => exact hf a
  | raise e => trivial
  | get k ih => exact fun s => ih s (h s)
  | act p k ih => exact ih h
  | await q k ih => exact ⟨h.1, fun a => ih a (h.2 a)⟩

theorem Asks.handle {x : Coro S A ρ ans ε α} {f : ε → Coro S A ρ ans ε α} (h : x.Asks T)
    (hf : ∀ e, (f e).Asks T) : (x.handle f).Asks T := by
  induction x with
  | ret a => trivial
  | raise e => exact hf e
  | get k ih => exact fun s => ih s (h s)
  | act p k ih => exact ih h
  | await q k ih => exact ⟨h.1, fun a => ih a (h.2 a)⟩

theorem Asks.attempt {x : Coro S A ρ ans ε α} (h : x.Asks T) : x.attempt.Asks T :=
  Asks.handle (Asks.bind h fun _ => (trivial : (ret _ : Coro S A ρ ans ε _).Asks T))
    fun _ => trivial

theorem Asks.each {body : β → Coro S A ρ ans ε Unit} (h : ∀ b, (body b).Asks T) (xs : List β) :
    (Coro.each body xs).Asks T := by
  induction xs with
  | nil => trivial
  | cons x xs ih => exact (h x).bind fun _ => ih

theorem Asks.ofExcept (r : Except ε α) : (Coro.ofExcept r : Coro S A ρ ans ε α).Asks T := by
  cases r <;> trivial

theorem Hears.asks {x : Coro S A ρ ans ε α} {out : Except ε α}
    (h : x.Hears exec rely s heard out s') (hx : x.Asks T) : ∀ a ∈ heard, T a.1 := by
  induction h with
  | ret a s => exact nofun
  | raise e s => exact nofun
  | get _ ih => exact ih (hx _)
  | act _ ih => exact ih hx
  | await hr a _ ih =>
    intro b hb
    rcases List.mem_cons.mp hb with rfl | hb
    · exact hx.1
    · exact ih (hx.2 a) b hb

theorem Hears.of_bind {x : Coro S A ρ ans ε α} {f : α → Coro S A ρ ans ε β} {out : Except ε β}
    (h : (x.bind f).Hears exec rely s heard out s') :
    (∃ e, out = .error e ∧ x.Hears exec rely s heard (.error e) s') ∨
      ∃ a s₁ heard₁ heard₂, heard = heard₁ ++ heard₂ ∧ x.Hears exec rely s heard₁ (.ok a) s₁ ∧
        (f a).Hears exec rely s₁ heard₂ out s' := by
  induction x generalizing s heard with
  | ret a => exact .inr ⟨a, _, [], heard, rfl, .ret a _, h⟩
  | raise e =>
    cases h
    exact .inl ⟨e, rfl, .raise e _⟩
  | get k ih =>
    cases h with
    | get h =>
      exact (ih _ h).imp (fun ⟨e, he, hx⟩ => ⟨e, he, .get hx⟩)
        fun ⟨a, s₁, l₁, l₂, heq, hx, hf⟩ => ⟨a, s₁, l₁, l₂, heq, .get hx, hf⟩
  | act p k ih =>
    cases h with
    | act h =>
      exact (ih h).imp (fun ⟨e, he, hx⟩ => ⟨e, he, .act hx⟩)
        fun ⟨a, s₁, l₁, l₂, heq, hx, hf⟩ => ⟨a, s₁, l₁, l₂, heq, .act hx, hf⟩
  | await q k ih =>
    cases h with
    | await hr a h =>
      exact (ih a h).imp (fun ⟨e, he, hx⟩ => ⟨e, he, .await hr a hx⟩)
        fun ⟨b, s₁, l₁, l₂, heq, hx, hf⟩ =>
          ⟨b, s₁, ⟨q, a⟩ :: l₁, l₂, congrArg (⟨q, a⟩ :: ·) heq, .await hr a hx, hf⟩

theorem Hears.of_read {f : S → Coro S A ρ ans ε α} {out : Except ε α}
    (h : (Coro.read.bind f).Hears exec rely s heard out s') : (f s).Hears exec rely s heard out s' := by
  cases h with
  | get h => exact h

theorem Hears.of_perform {p : A} {f : Unit → Coro S A ρ ans ε α} {out : Except ε α}
    (h : ((Coro.perform p).bind f).Hears exec rely s heard out s') :
    (f ()).Hears exec rely (exec p s) heard out s' := by
  cases h with
  | act h => exact h

theorem Hears.of_handle {x : Coro S A ρ ans ε α} {f : ε → Coro S A ρ ans ε α} {out : Except ε α}
    (h : (x.handle f).Hears exec rely s heard out s') :
    (∃ a, out = .ok a ∧ x.Hears exec rely s heard (.ok a) s') ∨
      ∃ e s₁ heard₁ heard₂, heard = heard₁ ++ heard₂ ∧ x.Hears exec rely s heard₁ (.error e) s₁ ∧
        (f e).Hears exec rely s₁ heard₂ out s' := by
  induction x generalizing s heard with
  | ret a =>
    cases h
    exact .inl ⟨a, rfl, .ret a _⟩
  | raise e => exact .inr ⟨e, _, [], heard, rfl, .raise e _, h⟩
  | get k ih =>
    cases h with
    | get h =>
      exact (ih _ h).imp (fun ⟨a, ha, hx⟩ => ⟨a, ha, .get hx⟩)
        fun ⟨e, s₁, l₁, l₂, heq, hx, hf⟩ => ⟨e, s₁, l₁, l₂, heq, .get hx, hf⟩
  | act p k ih =>
    cases h with
    | act h =>
      exact (ih h).imp (fun ⟨a, ha, hx⟩ => ⟨a, ha, .act hx⟩)
        fun ⟨e, s₁, l₁, l₂, heq, hx, hf⟩ => ⟨e, s₁, l₁, l₂, heq, .act hx, hf⟩
  | await q k ih =>
    cases h with
    | await hr a h =>
      exact (ih a h).imp (fun ⟨b, hb, hx⟩ => ⟨b, hb, .await hr a hx⟩)
        fun ⟨e, s₁, l₁, l₂, heq, hx, hf⟩ =>
          ⟨e, s₁, ⟨q, a⟩ :: l₁, l₂, congrArg (⟨q, a⟩ :: ·) heq, .await hr a hx, hf⟩

theorem Hears.of_attempt {x : Coro S A ρ ans ε α} {out : Except ε (Except ε α)}
    (h : x.attempt.Hears exec rely s heard out s') :
    ∃ r, out = .ok r ∧ x.Hears exec rely s heard r s' := by
  rcases h.of_handle with ⟨r, rfl, hb⟩ | ⟨e, s₁, l₁, l₂, rfl, hb, hret⟩
  · rcases hb.of_bind with ⟨e, he, _⟩ | ⟨a, s₁, l₁, l₂, rfl, hx, hret⟩
    · cases he
    · cases hret
      rw [List.append_nil]
      exact ⟨.ok a, rfl, hx⟩
  · cases hret
    rw [List.append_nil]
    rcases hb.of_bind with ⟨e', he, hx⟩ | ⟨a, s₂, _, _, _, _, hret'⟩
    · cases he
      exact ⟨.error e, rfl, hx⟩
    · cases hret'

theorem Hears.bind {x : Coro S A ρ ans ε α} {f : α → Coro S A ρ ans ε β} {a : α} {s₁ : S}
    {heard₁ heard₂ : List (Sigma ans)} {out : Except ε β}
    (hx : x.Hears exec rely s heard₁ (.ok a) s₁) (hf : (f a).Hears exec rely s₁ heard₂ out s') :
    (x.bind f).Hears exec rely s (heard₁ ++ heard₂) out s' := by
  generalize hr : Except.ok a = r at hx
  induction hx with
  | ret b s =>
    cases hr
    exact hf
  | raise e s => cases hr
  | get _ ih => exact .get (ih hf hr)
  | act _ ih => exact .act (ih hf hr)
  | await hrely b _ ih => exact .await hrely b (ih hf hr)

theorem Hears.bind_error {x : Coro S A ρ ans ε α} {e : ε} (f : α → Coro S A ρ ans ε β)
    (hx : x.Hears exec rely s heard (.error e) s') :
    (x.bind f).Hears exec rely s heard (.error e) s' := by
  generalize hr : Except.error e = r at hx
  induction hx with
  | ret b s => cases hr
  | raise e' s =>
    cases hr
    exact .raise _ _
  | get _ ih => exact .get (ih hr)
  | act _ ih => exact .act (ih hr)
  | await hrely b _ ih => exact .await hrely b (ih hr)

theorem Hears.handle_error {x : Coro S A ρ ans ε α} {f : ε → Coro S A ρ ans ε α} {e : ε} {s₁ : S}
    {heard₁ heard₂ : List (Sigma ans)} {out : Except ε α}
    (hx : x.Hears exec rely s heard₁ (.error e) s₁)
    (hf : (f e).Hears exec rely s₁ heard₂ out s') :
    (x.handle f).Hears exec rely s (heard₁ ++ heard₂) out s' := by
  generalize hr : Except.error e = r at hx
  induction hx with
  | ret b s => cases hr
  | raise e' s =>
    cases hr
    exact hf
  | get _ ih => exact .get (ih hf hr)
  | act _ ih => exact .act (ih hf hr)
  | await hrely b _ ih => exact .await hrely b (ih hf hr)

theorem Hears.attempt_error {x : Coro S A ρ ans ε α} {e : ε}
    (hx : x.Hears exec rely s heard (.error e) s') :
    x.attempt.Hears exec rely s heard (.ok (.error e)) s' := by
  have hbody := hx.bind_error fun a =>
    (Coro.ret (Except.ok a) : Coro S A ρ ans ε (Except ε α))
  have h := hbody.handle_error (f := fun e => Coro.ret (Except.error e)) (Hears.ret _ s')
  rwa [List.append_nil] at h

/-- The value or the exception of an answer is what comes out. -/
theorem Hears.ofExcept {r out : Except ε α}
    (h : (Coro.ofExcept r : Coro S A ρ ans ε α).Hears exec rely s heard out s') :
    heard = [] ∧ out = r ∧ s' = s := by
  cases r with
  | ok a =>
    cases h
    exact ⟨rfl, rfl, rfl⟩
  | error e =>
    cases h
    exact ⟨rfl, rfl, rfl⟩

/-- What the environment and all actions keep relates the states at both ends. -/
theorem Hears.all {x : Coro S A ρ ans ε α} {out : Except ε α}
    (h : x.Hears exec rely s heard out s') (hx : x.All P) (I : S → Prop)
    (hrely : ∀ a b, I a → rely a b → I b) (hexec : ∀ p a, P p → I a → I (exec p a)) (hs : I s) :
    I s' := by
  induction h with
  | ret a s => exact hs
  | raise e s => exact hs
  | get _ ih => exact ih (hx _) hs
  | act _ ih => exact ih hx.2 (hexec _ _ hx.1 hs)
  | await hr a _ ih => exact ih (hx a) (hrely _ _ hs hr)

theorem Asks.lift {S' A' : Type} {inj : A → A'} {proj : S' → S} {x : Coro S A ρ ans ε α}
    (h : x.Asks T) : (x.lift inj proj).Asks T := by
  induction x with
  | ret a => trivial
  | raise e => trivial
  | get k ih => exact fun s => ih (proj s) (h (proj s))
  | act p k ih => exact ih h
  | await q k ih => exact ⟨h.1, fun a => ih a (h.2 a)⟩

/-- A lifted coroutine hears what it would hear by itself. -/
theorem Hears.of_lift {S' A' : Type} {inj : A → A'} {proj : S' → S} {exec' : A' → S' → S'}
    {rely' : S' → S' → Prop} {x : Coro S A ρ ans ε α} {out : Except ε α} {s s' : S'}
    (hexec : ∀ p s, proj (exec' (inj p) s) = exec p (proj s))
    (hrely : ∀ a b, rely' a b → rely (proj a) (proj b))
    (h : (x.lift inj proj).Hears exec' rely' s heard out s') :
    x.Hears exec rely (proj s) heard out (proj s') := by
  induction x generalizing s heard with
  | ret a =>
    cases h
    exact .ret a _
  | raise e =>
    cases h
    exact .raise e _
  | get k ih =>
    cases h with
    | get h => exact .get (ih _ h)
  | act p k ih =>
    cases h with
    | act h =>
      have hk := ih h
      rw [hexec] at hk
      exact .act hk
  | await q k ih =>
    cases h with
    | await hr a h => exact .await (hrely _ _ hr) a (ih a h)

end Coro
end Async
end ImapGateway
