/-
Coroutines on one event loop.

A coroutine runs without interruption from one `await` to the next.  Between two
awaits it reads the state and performs atomic actions on it, and only at an
await can another coroutine run.  `Coro` is the tree of what a coroutine may do:
it returns, raises, looks at the state, performs an action, or suspends on a
request whose answer decides how it goes on.

Actions are data, drawn from a type `A`, rather than functions on the state, so
a run can be read back as the list of the actions it performed.
-/
import Mathlib.Logic.Function.Basic

namespace ImapGateway
namespace Async

/-- A coroutine over states `S` with atomic actions `A`.  It suspends on
requests `ρ`, where a request `q` is answered by a value of `ans q`, raises
exceptions `ε` and returns a value of `α`. -/
inductive Coro (S A ρ : Type) (ans : ρ → Type) (ε α : Type) where
  | ret (a : α)
  | raise (e : ε)
  | get (k : S → Coro S A ρ ans ε α)
  | act (p : A) (k : Coro S A ρ ans ε α)
  | await (q : ρ) (k : ans q → Coro S A ρ ans ε α)

namespace Coro

variable {S A ρ : Type} {ans : ρ → Type} {ε α β : Type}

def bind : Coro S A ρ ans ε α → (α → Coro S A ρ ans ε β) → Coro S A ρ ans ε β
  | ret a, f => f a
  | raise e, _ => raise e
  | get k, f => get fun s => (k s).bind f
  | act p k, f => act p (k.bind f)
  | await q k, f => await q fun a => (k a).bind f

/-- `try x except: h`.  The handler sees every exception the body raises, at
whatever await it was raised. -/
def handle : Coro S A ρ ans ε α → (ε → Coro S A ρ ans ε α) → Coro S A ρ ans ε α
  | ret a, _ => ret a
  | raise e, h => h e
  | get k, h => get fun s => (k s).handle h
  | act p k, h => act p (k.handle h)
  | await q k, h => await q fun a => (k a).handle h

instance : Monad (Coro S A ρ ans ε) where
  pure := ret
  bind := bind

instance : MonadExcept ε (Coro S A ρ ans ε) where
  throw := raise
  tryCatch := handle

/-- Read the state. -/
def read : Coro S A ρ ans ε S := get ret

/-- Perform one atomic action. -/
def perform (p : A) : Coro S A ρ ans ε Unit := act p (ret ())

/-- Suspend on a request and return its answer. -/
def request (q : ρ) : Coro S A ρ ans ε (ans q) := await q ret

/-- Return the value or raise the exception an answer carries. -/
def ofExcept : Except ε α → Coro S A ρ ans ε α
  | .ok a => ret a
  | .error e => raise e

/-- Run the body once for each element, in order. -/
def each (body : β → Coro S A ρ ans ε Unit) : List β → Coro S A ρ ans ε Unit
  | [] => ret ()
  | x :: xs => (body x).bind fun _ => each body xs

/-- Run the body once for each element, in order, carrying a value along. -/
def foldEach (body : α → β → Coro S A ρ ans ε α) : α → List β → Coro S A ρ ans ε α
  | a, [] => ret a
  | a, x :: xs => (body a x).bind fun a' => foldEach body a' xs

/-- Catch every exception and return it as a value. -/
def attempt (x : Coro S A ρ ans ε α) : Coro S A ρ ans ε (Except ε α) :=
  (x.bind fun a => ret (.ok a)).handle fun e => ret (.error e)

/-- The same coroutine seen from a larger state: `proj` finds its state and
`inj` names its actions there. -/
def lift {S' A' : Type} (inj : A → A') (proj : S' → S) :
    Coro S A ρ ans ε α → Coro S' A' ρ ans ε α
  | ret a => ret a
  | raise e => raise e
  | get k => get fun s => (k (proj s)).lift inj proj
  | act p k => act (inj p) (k.lift inj proj)
  | await q k => await q fun a => (k a).lift inj proj

@[simp] theorem pure_eq (a : α) : (pure a : Coro S A ρ ans ε α) = ret a := rfl

@[simp] theorem bind_eq (x : Coro S A ρ ans ε α) (f : α → Coro S A ρ ans ε β) :
    (x >>= f) = x.bind f := rfl

@[simp] theorem throw_eq (e : ε) : (throw e : Coro S A ρ ans ε α) = raise e := rfl

@[simp] theorem tryCatch_eq (x : Coro S A ρ ans ε α) (h : ε → Coro S A ρ ans ε α) :
    (tryCatch x h) = x.handle h := rfl

end Coro

end Async
end ImapGateway
