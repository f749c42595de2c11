/-
Pre- and postconditions of a coroutine among others.

While a coroutine is suspended the others may change the state, so an assertion
made before an await is worth something after it only if their actions keep it.
A `Logic` records what is assumed of them (`rely`), what each action of the
coroutine owes them (`guar`), what it owes where it suspends (`asks`), and what
is known of an answer (`gives`).  `Coro.wp` is the weakest assertion from which
a coroutine meets all of these and ends in its postcondition.
-/
import ImapGateway.Async.Coro

namespace ImapGateway
namespace Async

/-- What a coroutine and the coroutines around it owe each other. -/
structure Logic (S A ρ : Type) (ans : ρ → Type) where
  exec : A → S → S
  rely : S → S → Prop
  guar : A → S → Prop
  asks : ρ → S → Prop
  gives : (q : ρ) → ans q → S → Prop

namespace Coro

variable {S A ρ : Type} {ans : ρ → Type} {ε α β : Type}

/-- Every run from `s` meets the obligations of `L`, and ends in `Q` when it
returns and in `E` when it raises. -/
def wp (L : Logic S A ρ ans) :
    Coro S A ρ ans ε α → (α → S → Prop) → (ε → S → Prop) → S → Prop
  | ret a, Q, _, s => Q a s
  | raise e, _, E, s => E e s
  | get k, Q, E, s => (k s).wp L Q E s
  | act p k, Q, E, s => L.guar p s ∧ k.wp L Q E (L.exec p s)
  | await q k, Q, E, s =>
      L.asks q s ∧ ∀ s', L.rely s s' → ∀ a, L.gives q a s' → (k a).wp L Q E s'

variable {L : Logic S A ρ ans} {Q Q' : α → S → Prop} {E E' : ε → S → Prop} {s : S}

@[simp] theorem wp_ret (a : α) : (ret a : Coro S A ρ ans ε α).wp L Q E s ↔ Q a s := Iff.rfl

@[simp] theorem wp_raise (e : ε) : (raise e : Coro S A ρ ans ε α).wp L Q E s ↔ E e s := Iff.rfl

@[simp] theorem wp_get (k : S → Coro S A ρ ans ε α) :
    (get k).wp L Q E s ↔ (k s).wp L Q E s := Iff.rfl

@[simp] theorem wp_act (p : A) (k : Coro S A ρ ans ε α) :
    (act p k).wp L Q E s ↔ L.guar p s ∧ k.wp L Q E (L.exec p s) := Iff.rfl

@[simp] theorem wp_bind (x : Coro S A ρ ans ε α) (f : α → Coro S A ρ ans ε β)
    {R : β → S → Prop} :
    (x.bind f).wp L R E s ↔ x.wp L (fun a s => (f a).wp L R E s) E s := by
  induction x generalizing s with
  | ret a => exact Iff.rfl
  | raise e => exact Iff.rfl
  | get k ih => exact ih s
  | act p k ih => exact and_congr_right fun _ => ih
  | await q k ih =>
    exact and_congr_right fun _ => forall_congr' fun s' => forall_congr' fun _ =>
      forall_congr' fun a => forall_congr' fun _ => ih a

@[simp] theorem wp_handle (x : Coro S A ρ ans ε α) (h : ε → Coro S A ρ ans ε α) :
    (x.handle h).wp L Q E s ↔ x.wp L Q (fun e s => (h e).wp L Q E s) s := by
  induction x generalizing s with
  | ret a => exact Iff.rfl
  | raise e => exact Iff.rfl
  | get k ih => exact ih s
  | act p k ih => exact and_congr_right fun _ => ih
  | await q k ih =>
    exact and_congr_right fun _ => forall_congr' fun s' => forall_congr' fun _ =>
      forall_congr' fun a => forall_congr' fun _ => ih a

@[simp] theorem wp_read {Q : S → S → Prop} :
    (read : Coro S A ρ ans ε S).wp L Q E s ↔ Q s s := Iff.rfl

@[simp] theorem wp_perform (p : A) {Q : Unit → S → Prop} :
    (perform p : Coro S A ρ ans ε Unit).wp L Q E s ↔ L.guar p s ∧ Q () (L.exec p s) := Iff.rfl

theorem wp_request (q : ρ) {Q : ans q → S → Prop} :
    (request q : Coro S A ρ ans ε (ans q)).wp L Q E s ↔
      L.asks q s ∧ ∀ s', L.rely s s' → ∀ a, L.gives q a s' → Q a s' := Iff.rfl

theorem wp_mono {x : Coro S A ρ ans ε α} (hQ : ∀ a s, Q a s → Q' a s)
    (hE : ∀ e s, E e s → E' e s) : x.wp L Q E s → x.wp L Q' E' s := by
  induction x generalizing s with
  | ret a => exact hQ a s
  | raise e => exact hE e s
  | get k ih => exact ih s
  | act p k ih => exact And.imp_right ih
  | await q k ih => exact And.imp_right fun h s' hr a ha => ih a (h s' hr a ha)

/-- The loop rule: `I` holds of the elements to come before each round. -/
theorem wp_each {I : List β → S → Prop} {body : β → Coro S A ρ ans ε Unit}
    (hbody : ∀ x xs s, I (x :: xs) s → (body x).wp L (fun _ => I xs) E s) (xs : List β)
    (hs : I xs s) : (each body xs).wp L (fun _ => I []) E s := by
  induction xs generalizing s with
  | nil => exact hs
  | cons x xs ih =>
    rw [each, wp_bind]
    exact wp_mono (fun _ s hI => ih hI) (fun _ _ he => he) (hbody x xs s hs)

/-- The loop rule for a loop that carries a value: the invariant may speak of
the value and of the elements still to come. -/
theorem wp_foldEach {I : α → List β → S → Prop} {body : α → β → Coro S A ρ ans ε α}
    (hbody : ∀ a x xs s, I a (x :: xs) s → (body a x).wp L (fun a' => I a' xs) E s)
    (a : α) (xs : List β) (hs : I a xs s) :
    (foldEach body a xs).wp L (fun a' => I a' []) E s := by
  induction xs generalizing a s with
  | nil => exact hs
  | cons x xs ih =>
    rw [foldEach, wp_bind]
    exact wp_mono (fun a' s hI => ih a' hI) (fun _ _ he => he) (hbody a x xs s hs)

/-- What every owed action and the others keep is kept beside the rest. -/
theorem wp_frame {x : Coro S A ρ ans ε α} {J : S → Prop}
    (hact : ∀ p s, J s → L.guar p s → J (L.exec p s)) (hrely : ∀ s s', J s → L.rely s s' → J s')
    (hs : J s) (h : x.wp L Q E s) :
    x.wp L (fun a s => Q a s ∧ J s) (fun e s => E e s ∧ J s) s := by
  induction x generalizing s with
  | ret a => exact ⟨h, hs⟩
  | raise e => exact ⟨h, hs⟩
  | get k ih => exact ih s hs h
  | act p k ih => exact ⟨h.1, ih (hact p s hs h.1) h.2⟩
  | await q k ih => exact ⟨h.1, fun s' hr a ha => ih a (hrely s s' hs hr) (h.2 s' hr a ha)⟩

/-! ## Assertions a coroutine keeps -/

/-- However the coroutine ends, from `I` it ends in `I`. -/
def Keeps (L : Logic S A ρ ans) (I : S → Prop) (x : Coro S A ρ ans ε α) : Prop :=
  ∀ s, I s → x.wp L (fun _ => I) (fun _ => I) s

namespace Keeps

variable {I : S → Prop} {x : Coro S A ρ ans ε α}

theorem ret (a : α) : Keeps L I (ret a : Coro S A ρ ans ε α) := fun _ hs => hs

theorem raise (e : ε) : Keeps L I (raise e : Coro S A ρ ans ε α) := fun _ hs => hs

theorem perform {p : A} (h : ∀ s, I s → L.guar p s ∧ I (L.exec p s)) :
    Keeps L I (perform p : Coro S A ρ ans ε Unit) := h

theorem request {q : ρ} (h : ∀ s, I s → L.asks q s ∧ ∀ s', L.rely s s' → I s') :
    Keeps L I (request q : Coro S A ρ ans ε (ans q)) :=
  fun s hs => ⟨(h s hs).1, fun s' hr _ _ => (h s hs).2 s' hr⟩

theorem ofExcept (r : Except ε α) : Keeps L I (ofExcept r : Coro S A ρ ans ε α) := by
  cases r with
  | ok a => exact ret a
  | error e => exact raise e

/-- Read the state and go on with something that depends on it. -/
theorem read {k : S → Coro S A ρ ans ε α} (h : ∀ s, I s → (k s).wp L (fun _ => I) (fun _ => I) s) :
    Keeps L I (read.bind k) := h

theorem bind (hx : Keeps L I x) {f : α → Coro S A ρ ans ε β} (hf : ∀ a, Keeps L I (f a)) :
    Keeps L I (x.bind f) := fun s hs =>
  wp_bind x f |>.mpr (wp_mono (fun a s hI => hf a s hI) (fun _ _ hI => hI) (hx s hs))

theorem handle (hx : Keeps L I x) {h : ε → Coro S A ρ ans ε α} (hh : ∀ e, Keeps L I (h e)) :
    Keeps L I (x.handle h) := fun s hs =>
  wp_handle x h |>.mpr (wp_mono (fun _ _ hI => hI) (fun e s hI => hh e s hI) (hx s hs))

theorem attempt (hx : Keeps L I x) : Keeps L I (attempt x) :=
  (hx.bind fun a => ret (Except.ok a)).handle fun e => ret (Except.error e)

theorem each {body : β → Coro S A ρ ans ε Unit} (h : ∀ x, Keeps L I (body x)) (xs : List β) :
    Keeps L I (each body xs) := fun _ hs => wp_each (I := fun _ => I) (fun x _ => h x) xs hs

theorem foldEach {body : α → β → Coro S A ρ ans ε α} (h : ∀ a x, Keeps L I (body a x)) (a : α)
    (xs : List β) : Keeps L I (foldEach body a xs) := fun _ hs =>
  wp_foldEach (I := fun _ _ => I) (fun a x _ => h a x) a xs hs

end Keeps

/-- From `I` the coroutine ends in `I`, and it raises only what meets `B`. -/
def Raises (L : Logic S A ρ ans) (I : S → Prop) (B : ε → Prop) (x : Coro S A ρ ans ε α) : Prop :=
  ∀ s, I s → x.wp L (fun _ => I) (fun e s => B e ∧ I s) s

namespace Raises

variable {I : S → Prop} {B D : ε → Prop} {x : Coro S A ρ ans ε α}

theorem ret (a : α) : Raises L I B (ret a : Coro S A ρ ans ε α) := fun _ hs => hs

theorem raise {e : ε} (h : B e) : Raises L I B (raise e : Coro S A ρ ans ε α) :=
  fun _ hs => ⟨h, hs⟩

theorem perform {p : A} (h : ∀ s, I s → L.guar p s ∧ I (L.exec p s)) :
    Raises L I B (perform p : Coro S A ρ ans ε Unit) := h

/-- Read the state and go on with something that depends on it. -/
theorem read {k : S → Coro S A ρ ans ε α}
    (h : ∀ s, I s → (k s).wp L (fun _ => I) (fun e s => B e ∧ I s) s) :
    Raises L I B (read.bind k) := h

theorem bind (hx : Raises L I B x) {f : α → Coro S A ρ ans ε β} (hf : ∀ a, Raises L I B (f a)) :
    Raises L I B (x.bind f) := fun s hs =>
  wp_bind x f |>.mpr (wp_mono (fun a s hI => hf a s hI) (fun _ _ he => he) (hx s hs))

theorem handle (hx : Raises L I D x) {h : ε → Coro S A ρ ans ε α}
    (hh : ∀ e, D e → Raises L I B (h e)) : Raises L I B (x.handle h) := fun s hs =>
  wp_handle x h |>.mpr (wp_mono (fun _ _ hI => hI) (fun e s he => hh e he.1 s he.2) (hx s hs))

/-- An attempt returns what it caught. -/
theorem attempt_bind (hx : Raises L I D x) {f : Except ε α → Coro S A ρ ans ε β}
    (hok : ∀ a, Raises L I B (f (.ok a))) (herr : ∀ e, D e → Raises L I B (f (.error e))) :
    Raises L I B (x.attempt.bind f) := fun s hs => by
  rw [attempt, wp_bind, wp_handle, wp_bind]
  exact wp_mono (fun a s hI => hok a s hI) (fun e s he => herr e he.1 s he.2) (hx s hs)

theorem attempt (hx : Raises L I B x) {E : ε → S → Prop} (hs : I s) :
    x.attempt.wp L (fun r s => I s ∧ ∀ e, r = .error e → B e) E s := by
  rw [Coro.attempt, wp_handle, wp_bind]
  refine wp_mono (fun a s hI => ⟨hI, nofun⟩) (fun e s he => ⟨he.2, fun e' heq => ?_⟩) (hx s hs)
  cases heq
  exact he.1

theorem each {body : β → Coro S A ρ ans ε Unit} (h : ∀ b, Raises L I B (body b)) (bs : List β) :
    Raises L I B (each body bs) := fun _ hs => wp_each (I := fun _ => I) (fun b _ => h b) bs hs

theorem foldEach {body : α → β → Coro S A ρ ans ε α} (h : ∀ a b, Raises L I B (body a b)) (a : α)
    (bs : List β) : Raises L I B (foldEach body a bs) := fun _ hs =>
  wp_foldEach (I := fun _ _ => I) (fun a b _ => h a b) a bs hs

theorem keeps (hx : Raises L I B x) : Keeps L I x := fun s hs =>
  wp_mono (fun _ _ hI => hI) (fun _ _ he => he.2) (hx s hs)

end Raises

theorem Keeps.raises {I : S → Prop} {x : Coro S A ρ ans ε α} (hx : Keeps L I x) :
    Raises L I (fun _ => True) x := fun s hs =>
  wp_mono (fun _ _ hI => hI) (fun _ _ hI => ⟨trivial, hI⟩) (hx s hs)

/-- `L'` asks no more than `L` of what a lifted coroutine does, assumes no less,
and neither the lifted actions nor the others break `F`. -/
structure Frames {S' A' : Type} (L : Logic S A ρ ans) (L' : Logic S' A' ρ ans)
    (inj : A → A') (proj : S' → S) (F : S' → Prop) : Prop where
  exec : ∀ p s, proj (L'.exec (inj p) s) = L.exec p (proj s)
  guar : ∀ p s, F s → L.guar p (proj s) → L'.guar (inj p) s ∧ F (L'.exec (inj p) s)
  rely : ∀ s s', F s → L'.rely s s' → L.rely (proj s) (proj s') ∧ F s'
  asks : ∀ q s, F s → L.asks q (proj s) → L'.asks q s
  gives : ∀ q a s, L'.gives q a s → L.gives q a (proj s)

/-- What holds of a coroutine holds of it in the larger state, beside any `F`
that nobody breaks meanwhile. -/
theorem wp_lift {S' A' : Type} {L' : Logic S' A' ρ ans} {inj : A → A'} {proj : S' → S}
    {F : S' → Prop} (hf : Frames L L' inj proj F) {x : Coro S A ρ ans ε α} {s : S'}
    (hs : F s) (h : x.wp L Q E (proj s)) :
    (x.lift inj proj).wp L' (fun a s => Q a (proj s) ∧ F s) (fun e s => E e (proj s) ∧ F s) s := by
  induction x generalizing s with
  | ret a => exact ⟨h, hs⟩
  | raise e => exact ⟨h, hs⟩
  | get k ih => exact ih (proj s) hs h
  | act p k ih =>
    obtain ⟨hg, hF⟩ := hf.guar p s hs h.1
    exact ⟨hg, ih hF (by rw [hf.exec]; exact h.2)⟩
  | await q k ih =>
    refine ⟨hf.asks q s hs h.1, fun s' hr a ha => ?_⟩
    obtain ⟨hr', hF⟩ := hf.rely s s' hs hr
    exact ih a hF (h.2 (proj s') hr' a (hf.gives q a s' ha))

end Coro

end Async
end ImapGateway
