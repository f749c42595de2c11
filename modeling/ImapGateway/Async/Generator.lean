/-
Generators, and the loop that follows tokens.

A coroutine without a state is a generator: its actions are the values it yields.  Where each
request has its answer there is one thing it does.  A generator that follows tokens goes a walk
along them.
-/
import ImapGateway.Async.Coro
import ImapGateway.Stream.Walk

namespace ImapGateway
namespace Async

/-- What a generator does: the requests it makes, the values it yields and how it ends. -/
structure Generated (ρ A ε α : Type) where
  asked : List ρ
  yielded : List A
  outcome : Except ε α

/-- The same, behind what was asked and yielded before. -/
def Generated.behind {ρ A ε α : Type} (r : Generated ρ A ε α) (asked : List ρ) (yielded : List A) :
    Generated ρ A ε α := ⟨asked ++ r.asked, yielded ++ r.yielded, r.outcome⟩

namespace Coro

variable {S A ρ : Type} {ans : ρ → Type} {ε α β τ : Type} (answer : (q : ρ) → ans q)

/-- What a generator does where each request has its answer. -/
def generate : Coro Unit A ρ ans ε α → Generated ρ A ε α
  | ret a => ⟨[], [], .ok a⟩
  | raise e => ⟨[], [], .error e⟩
  | get k => generate (k ())
  | act p k => (generate k).behind [] [p]
  | await q k => (generate (k (answer q))).behind [q] []

variable {answer}

theorem generate_request_bind (q : ρ) (f : ans q → Coro Unit A ρ ans ε β) :
    ((Coro.request q).bind f).generate answer = ((f (answer q)).generate answer).behind [q] [] :=
  rfl

theorem generate_bind_ok {x : Coro Unit A ρ ans ε α} {f : α → Coro Unit A ρ ans ε β} {a : α}
    (h : (x.generate answer).outcome = .ok a) :
    (x.bind f).generate answer =
      ((f a).generate answer).behind (x.generate answer).asked (x.generate answer).yielded := by
  induction x with
  | ret b =>
    cases h
    rfl
  | raise e => cases h
  | get k ih => exact ih () h
  | act p k ih =>
    show ((k.bind f).generate answer).behind [] [p] = _
    rw [ih h]
    rfl
  | await q k ih =>
    show (((k (answer q)).bind f).generate answer).behind [q] [] = _
    rw [ih (answer q) h]
    rfl

theorem generate_bind_error {x : Coro Unit A ρ ans ε α} {f : α → Coro Unit A ρ ans ε β} {e : ε}
    (h : (x.generate answer).outcome = .error e) :
    (x.bind f).generate answer = ⟨(x.generate answer).asked, (x.generate answer).yielded, .error e⟩ := by
  induction x with
  | ret b => cases h
  | raise e' =>
    cases h
    rfl
  | get k ih => exact ih () h
  | act p k ih =>
    show ((k.bind f).generate answer).behind [] [p] = _
    rw [ih h]
    rfl
  | await q k ih =>
    show (((k (answer q)).bind f).generate answer).behind [q] [] = _
    rw [ih (answer q) h]
    rfl

theorem bind_assoc {γ : Type} (x : Coro S A ρ ans ε α) (f : α → Coro S A ρ ans ε β)
    (g : β → Coro S A ρ ans ε γ) : (x.bind f).bind g = x.bind fun a => (f a).bind g := by
  induction x with
  | ret a => rfl
  | raise e => rfl
  | get k ih => exact congrArg get (funext ih)
  | act p k ih => exact congrArg (act p) ih
  | await q k ih => exact congrArg (await q) (funext ih)

/-! ## Following tokens -/

/-- Take turns from token to token until one gives none, at most so many; whether one did.  A
token that was met before is a loop. -/
def follow [DecidableEq τ] (turn : Option τ → Coro S A ρ ans ε (Option τ)) (loop : ε) :
    Nat → Option τ → List τ → Coro S A ρ ans ε Bool
  | 0, _, _ => ret false
  | n + 1, token, seen => (turn token).bind fun next =>
    match next with
    | none => ret true
    | some next =>
      if next ∈ seen then raise loop else follow turn loop n (some next) (next :: seen)

variable (answer) in
/-- A turn of a generator, as a turn of a walk. -/
def generated (turn : Option τ → Coro Unit A ρ ans ε (Option τ)) (token : Option τ) :
    Walk.Turn τ A ε :=
  ⟨((turn token).generate answer).yielded, ((turn token).generate answer).outcome⟩

/-- How a walk ends, as the outcome of the generator. -/
def endOf : Option (Walk.Outcome ε) → Except ε Bool
  | none => .ok false
  | some .ended => .ok true
  | some (.raised e) => .error e

theorem endOf_eq_true {o : Option (Walk.Outcome ε)} : endOf o = .ok true ↔ o = some .ended := by
  rcases o with _ | _ | e <;> simp [endOf]

theorem endOf_eq_false {o : Option (Walk.Outcome ε)} : endOf o = .ok false ↔ o = none := by
  rcases o with _ | _ | e <;> simp [endOf]

variable [DecidableEq τ] {turn : Option τ → Coro Unit A ρ ans ε (Option τ)} {loop : ε} {n : Nat}
  {token : Option τ} {seen : List τ}

/-- A generator that follows tokens goes the walk: it asks what the turns at the tokens visited
ask, and yields the items of the walk. -/
theorem generate_follow : (follow turn loop n token seen).generate answer =
    ⟨(Walk.walk (generated answer turn) loop n token seen).visited.flatMap
        fun token => ((turn token).generate answer).asked,
      (Walk.walk (generated answer turn) loop n token seen).items,
      endOf (Walk.walk (generated answer turn) loop n token seen).outcome⟩ := by
  induction n generalizing token seen with
  | zero => rfl
  | succ n ih =>
    have hturn : (generated answer turn token).next = ((turn token).generate answer).outcome := rfl
    rw [follow, Walk.walk, hturn]
    cases hout : ((turn token).generate answer).outcome with
    | error e =>
      rw [generate_bind_error hout]
      simp [generated, endOf]
    | ok next =>
      rw [generate_bind_ok hout]
      cases next with
      | none => simp [generated, endOf, generate, Generated.behind]
      | some next =>
        by_cases hmem : next ∈ seen
        · simp [hmem, generated, endOf, generate, Generated.behind]
        · simp only [hmem, if_false]
          rw [ih]
          rfl

end Coro

end Async
end ImapGateway
