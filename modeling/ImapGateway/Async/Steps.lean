/-
The steps of one run of a coroutine.

`Takes` follows a path and keeps what the coroutine did on it: the actions with the
states they were performed in, and the answers it got.  `Strict` says that certain
answers are never got over: whoever gets one raises.
-/
import ImapGateway.Async.Paths

namespace ImapGateway
namespace Async
namespace Coro

variable {S A ρ : Type} {ans : ρ → Type} {ε α β : Type}

/-- A step of a coroutine: an action in the state it was performed in, or an answer. -/
inductive Step (S A ρ : Type) (ans : ρ → Type) where
  | did (p : A) (before : S)
  | heard (q : ρ) (a : ans q)

/-- From `s` the coroutine takes `steps` and ends with `out` in `s'`.  At every await the
environment changes the state by `rely`. -/
inductive Takes (exec : A → S → S) (rely : S → S → Prop) :
    Coro S A ρ ans ε α → S → List (Step S A ρ ans) → Except ε α → S → Prop
  | ret (a : α) (s : S) : Takes exec rely (.ret a) s [] (.ok a) s
  | raise (e : ε) (s : S) : Takes exec rely (.raise e) s [] (.error e) s
  | get {k : S → Coro S A ρ ans ε α} {s s' : S} {steps : List (Step S A ρ ans)}
      {out : Except ε α} (h : Takes exec rely (k s) s steps out s') :
      Takes exec rely (.get k) s steps out s'
  | act {p : A} {k : Coro S A ρ ans ε α} {s s' : S} {steps : List (Step S A ρ ans)}
      {out : Except ε α} (h : Takes exec rely k (exec p s) steps out s') :
      Takes exec rely (.act p k) s (.did p s :: steps) out s'
  | await {q : ρ} {k : ans q → Coro S A ρ ans ε α} {s s₁ s' : S}
      {steps : List (Step S A ρ ans)} {out : Except ε α} (hr : rely s s₁) (a : ans q)
      (h : Takes exec rely (k a) s₁ steps out s') :
      Takes exec rely (.await q k) s (.heard q a :: steps) out s'

variable {exec : A → S → S} {rely : S → S → Prop} {s s' : S} {steps : List (Step S A ρ ans)}
  {P : A → Prop}

theorem Takes.of_bind {x : Coro S A ρ ans ε α} {f : α → Coro S A ρ ans ε β} {out : Except ε β}
    (h : (x.bind f).Takes exec rely s steps out s') :
    (∃ e, out = .error e ∧ x.Takes exec rely s steps (.error e) s') ∨
      ∃ a s₁ steps₁ steps₂, steps = steps₁ ++ steps₂ ∧ x.Takes exec rely s steps₁ (.ok a) s₁ ∧
        (f a).Takes exec rely s₁ steps₂ out s' := by
  induction x generalizing s steps with
  | ret a => exact .inr ⟨a, _, [], steps, rfl, .ret a _, h⟩
  | raise e =>
    cases h
    exact .inl ⟨e, rfl, .raise e _⟩
  | get k ih =>
    cases h with
    | get h =>
      exact (ih _ h).imp (fun ⟨e, he, hx⟩ => ⟨e, he, .get hx⟩)
        fun ⟨a, s₁, l₁, l₂, heq, hx, hf⟩ => ⟨a, s₁, l₁, l₂, heq, .get hx, hf⟩
  | act p k ih =>
    cases h with
    | act h =>
      exact (ih h).imp (fun ⟨e, he, hx⟩ => ⟨e, he, .act hx⟩)
        fun ⟨a, s₁, l₁, l₂, heq, hx, hf⟩ =>
          ⟨a, s₁, _ :: l₁, l₂, congrArg (_ :: ·) heq, .act hx, hf⟩
  | await q k ih =>
    cases h with
    | await hr a h =>
      exact (ih a h).imp (fun ⟨e, he, hx⟩ => ⟨e, he, .await hr a hx⟩)
        fun ⟨b, s₁, l₁, l₂, heq, hx, hf⟩ =>
          ⟨b, s₁, _ :: l₁, l₂, congrArg (_ :: ·) heq, .await hr a hx, hf⟩

theorem Takes.of_handle {x : Coro S A ρ ans ε α} {f : ε → Coro S A ρ ans ε α} {out : Except ε α}
    (h : (x.handle f).Takes exec rely s steps out s') :
    (∃ a, out = .ok a ∧ x.Takes exec rely s steps (.ok a) s') ∨
      ∃ e s₁ steps₁ steps₂, steps = steps₁ ++ steps₂ ∧
        x.Takes exec rely s steps₁ (.error e) s₁ ∧ (f e).Takes exec rely s₁ steps₂ out s' := by
  induction x generalizing s steps with
  | ret a =>
    cases h
    exact .inl ⟨a, rfl, .ret a _⟩
  | raise e => exact .inr ⟨e, _, [], steps, rfl, .raise e _, h⟩
  | get k ih =>
    cases h with
    | get h =>
      exact (ih _ h).imp (fun ⟨a, ha, hx⟩ => ⟨a, ha, .get hx⟩)
        fun ⟨e, s₁, l₁, l₂, heq, hx, hf⟩ => ⟨e, s₁, l₁, l₂, heq, .get hx, hf⟩
  | act p k ih =>
    cases h with
    | act h =>
      exact (ih h).imp (fun ⟨a, ha, hx⟩ => ⟨a, ha, .act hx⟩)
        fun ⟨e, s₁, l₁, l₂, heq, hx, hf⟩ =>
          ⟨e, s₁, _ :: l₁, l₂, congrArg (_ :: ·) heq, .act hx, hf⟩
  | await q k ih =>
    cases h with
    | await hr a h =>
      exact (ih a h).imp (fun ⟨b, hb, hx⟩ => ⟨b, hb, .await hr a hx⟩)
        fun ⟨e, s₁, l₁, l₂, heq, hx, hf⟩ =>
          ⟨e, s₁, _ :: l₁, l₂, congrArg (_ :: ·) heq, .await hr a hx, hf⟩

theorem Takes.of_read {f : S → Coro S A ρ ans ε α} {out : Except ε α}
    (h : (Coro.read.bind f).Takes exec rely s steps out s') :
    (f s).Takes exec rely s steps out s' := by
  cases h with
  | get h => exact h

theorem Takes.of_perform {p : A} {f : Unit → Coro S A ρ ans ε α} {out : Except ε α}
    (h : ((Coro.perform p).bind f).Takes exec rely s steps out s') :
    ∃ rest, steps = .did p s :: rest ∧ (f ()).Takes exec rely (exec p s) rest out s' := by
  cases h with
  | act h => exact ⟨_, rfl, h⟩

theorem Takes.of_ret {a : α} {out : Except ε α}
    (h : (.ret a : Coro S A ρ ans ε α).Takes exec rely s steps out s') :
    steps = [] ∧ out = .ok a ∧ s' = s := by
  cases h with
  | ret => exact ⟨rfl, rfl, rfl⟩

theorem Takes.of_act {p : A} {k : Coro S A ρ ans ε α} {out : Except ε α}
    (h : (Coro.act p k).Takes exec rely s steps out s') :
    ∃ rest, steps = .did p s :: rest ∧ k.Takes exec rely (exec p s) rest out s' := by
  cases h with
  | act h => exact ⟨_, rfl, h⟩

theorem Takes.of_await {q : ρ} {k : ans q → Coro S A ρ ans ε α} {out : Except ε α}
    (h : (Coro.await q k).Takes exec rely s steps out s') :
    ∃ s₁ a rest, rely s s₁ ∧ steps = .heard q a :: rest ∧
      (k a).Takes exec rely s₁ rest out s' := by
  cases h with
  | await hr a h => exact ⟨_, a, _, hr, rfl, h⟩

/-- Where every action meets `P`, every action done does. -/
theorem Takes.did {x : Coro S A ρ ans ε α} {out : Except ε α}
    (h : x.Takes exec rely s steps out s') (hx : x.All P) {p : A} {a : S}
    (hp : Step.did p a ∈ steps) : P p := by
  induction h with
  | ret _ _ => cases hp
  | raise _ _ => cases hp
  | get _ ih => exact ih (hx _) hp
  | act _ ih =>
    rcases List.mem_cons.mp hp with heq | hp
    · cases heq
      exact hx.1
    · exact ih hx.2 hp
  | await _ b _ ih =>
    rcases List.mem_cons.mp hp with heq | hp
    · cases heq
    · exact ih (hx b) hp

/-- What the environment and all actions keep relates the states at both ends. -/
theorem Takes.all {x : Coro S A ρ ans ε α} {out : Except ε α}
    (h : x.Takes exec rely s steps out s') (hx : x.All P) (I : S → Prop)
    (hrely : ∀ a b, I a → rely a b → I b) (hexec : ∀ p a, P p → I a → I (exec p a)) (hs : I s) :
    I s' := by
  induction h with
  | ret a s => exact hs
  | raise e s => exact hs
  | get _ ih => exact ih (hx _) hs
  | act _ ih => exact ih hx.2 (hexec _ _ hx.1 hs)
  | await hr a _ ih => exact ih (hx a) (hrely _ _ hs hr)

/-- The run in which the environment does nothing and answers by `answer`. -/
def play (exec : A → S → S) (answer : (q : ρ) → ans q) :
    Coro S A ρ ans ε α → S → List (Step S A ρ ans) × Except ε α × S
  | ret a, s => ([], .ok a, s)
  | raise e, s => ([], .error e, s)
  | get k, s => (k s).play exec answer s
  | act p k, s =>
    let r := k.play exec answer (exec p s)
    (.did p s :: r.1, r.2)
  | await q k, s =>
    let r := (k (answer q)).play exec answer s
    (.heard q (answer q) :: r.1, r.2)

theorem play_takes (hrely : ∀ s, rely s s) (answer : (q : ρ) → ans q) (x : Coro S A ρ ans ε α)
    (s : S) : x.Takes exec rely s (x.play exec answer s).1 (x.play exec answer s).2.1
      (x.play exec answer s).2.2 := by
  induction x generalizing s with
  | ret a => exact .ret a s
  | raise e => exact .raise e s
  | get k ih => exact .get (ih s s)
  | act p k ih => exact .act (ih (exec p s))
  | await q k ih => exact .await (hrely s) (answer q) (ih (answer q) s)

theorem play_heard {answer : (q : ρ) → ans q} {x : Coro S A ρ ans ε α} {q : ρ} {a : ans q}
    (h : Step.heard q a ∈ (x.play exec answer s).1) : a = answer q := by
  induction x generalizing s with
  | ret _ => cases h
  | raise _ => cases h
  | get k ih => exact ih s h
  | act p k ih =>
    rcases List.mem_cons.mp h with heq | h
    · cases heq
    · exact ih h
  | await q' k ih =>
    rcases List.mem_cons.mp h with heq | h
    · cases heq
      rfl
    · exact ih _ h

/-- The answers among the steps, in order. -/
def heardOf (steps : List (Step S A ρ ans)) : List (Sigma ans) :=
  steps.filterMap fun x => match x with
    | .did _ _ => none
    | .heard q a => some ⟨q, a⟩

theorem Takes.hears {x : Coro S A ρ ans ε α} {out : Except ε α}
    (h : x.Takes exec rely s steps out s') : x.Hears exec rely s (heardOf steps) out s' := by
  induction h with
  | ret a s => exact .ret a s
  | raise e s => exact .raise e s
  | get _ ih => exact .get ih
  | act _ ih => exact .act ih
  | await hr a _ ih => exact .await hr a ih

/-! ## Answers that are not got over -/

/-- No path returns. -/
def Fails : Coro S A ρ ans ε α → Prop
  | ret _ => False
  | raise _ => True
  | get k => ∀ s, (k s).Fails
  | act _ k => k.Fails
  | await _ k => ∀ a, (k a).Fails

/-- After an answer that is `bad` no path returns. -/
def Strict (bad : (q : ρ) → ans q → Prop) : Coro S A ρ ans ε α → Prop
  | ret _ => True
  | raise _ => True
  | get k => ∀ s, (k s).Strict bad
  | act _ k => k.Strict bad
  | await q k => ∀ a, (bad q a → (k a).Fails) ∧ (k a).Strict bad

variable {bad : (q : ρ) → ans q → Prop}

theorem Fails.bind {x : Coro S A ρ ans ε α} (h : x.Fails) (f : α → Coro S A ρ ans ε β) :
    (x.bind f).Fails := by
  induction x with
  | ret a => cases h
  | raise e => trivial
  | get k ih => exact fun s => ih s (h s)
  | act p k ih => exact ih h
  | await q k ih => exact fun a => ih a (h a)

theorem Fails.after (x : Coro S A ρ ans ε α) {f : α → Coro S A ρ ans ε β}
    (hf : ∀ a, (f a).Fails) : (x.bind f).Fails := by
  induction x with
  | ret a => exact hf a
  | raise e => trivial
  | get k ih => exact fun s => ih s
  | act p k ih => exact ih
  | await q k ih => exact fun a => ih a

theorem Fails.handle {x : Coro S A ρ ans ε α} (h : x.Fails) {f : ε → Coro S A ρ ans ε α}
    (hf : ∀ e, (f e).Fails) : (x.handle f).Fails := by
  induction x with
  | ret a => cases h
  | raise e => exact hf e
  | get k ih => exact fun s => ih s (h s)
  | act p k ih => exact ih h
  | await q k ih => exact fun a => ih a (h a)

/-- A loop raises if its body does for one of the elements. -/
theorem Fails.each {body : β → Coro S A ρ ans ε Unit} {xs : List β} {x : β} (hx : x ∈ xs)
    (h : (body x).Fails) : (Coro.each body xs).Fails := by
  induction xs with
  | nil => cases hx
  | cons y xs ih =>
    rcases List.mem_cons.mp hx with rfl | hx
    · exact h.bind _
    · exact Fails.after _ fun _ => ih hx

theorem Strict.bind {x : Coro S A ρ ans ε α} {f : α → Coro S A ρ ans ε β} (h : x.Strict bad)
    (hf : ∀ a, (f a).Strict bad) : (x.bind f).Strict bad := by
  induction x with
  | ret a => exact hf a
  | raise e => trivial
  | get k ih => exact fun s => ih s (h s)
  | act p k ih => exact ih h
  | await q k ih => exact fun a => ⟨fun hbad => ((h a).1 hbad).bind f, ih a (h a).2⟩

theorem Strict.handle {x : Coro S A ρ ans ε α} {f : ε → Coro S A ρ ans ε α} (h : x.Strict bad)
    (hfails : ∀ e, (f e).Fails) (hf : ∀ e, (f e).Strict bad) : (x.handle f).Strict bad := by
  induction x with
  | ret a => trivial
  | raise e => exact hf e
  | get k ih => exact fun s => ih s (h s)
  | act p k ih => exact ih h
  | await q k ih => exact fun a => ⟨fun hbad => ((h a).1 hbad).handle hfails, ih a (h a).2⟩

theorem Strict.each {body : β → Coro S A ρ ans ε Unit} (h : ∀ b, (body b).Strict bad)
    (xs : List β) : (Coro.each body xs).Strict bad := by
  induction xs with
  | nil => trivial
  | cons x xs ih => exact (h x).bind fun _ => ih

theorem Takes.fails {x : Coro S A ρ ans ε α} {out : Except ε α}
    (h : x.Takes exec rely s steps out s') (hx : x.Fails) : ∃ e, out = .error e := by
  induction h with
  | ret _ _ => cases hx
  | raise e _ => exact ⟨e, rfl⟩
  | get _ ih => exact ih (hx _)
  | act _ ih => exact ih hx
  | await _ a _ ih => exact ih (hx a)

/-- Whoever gets a bad answer raises. -/
theorem Takes.strict {x : Coro S A ρ ans ε α} {out : Except ε α}
    (h : x.Takes exec rely s steps out s') (hx : x.Strict bad) {q : ρ} {a : ans q}
    (ha : Step.heard q a ∈ steps) (hbad : bad q a) : ∃ e, out = .error e := by
  induction h with
  | ret _ _ => cases ha
  | raise _ _ => cases ha
  | get _ ih => exact ih (hx _) ha
  | act _ ih =>
    rcases List.mem_cons.mp ha with heq | ha
    · cases heq
    · exact ih hx ha
  | await _ b hk ih =>
    rcases List.mem_cons.mp ha with heq | ha
    · cases heq
      exact hk.fails ((hx a).1 hbad)
    · exact ih (hx b).2 ha

end Coro
end Async
end ImapGateway
