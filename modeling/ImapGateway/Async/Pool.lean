/-
A pool of coroutines on one event loop.

Coroutines are named by a type `T`, and each has a state of its own beside the
state all of them share.  A
move of the loop starts a coroutine, answers the request one is suspended on, or
performs an action of the loop itself.  A started or resumed coroutine runs to
its next await before anything else happens, so a run of the pool is a list of
moves.  The pool keeps the actions performed as its trace, newest first.
-/
import ImapGateway.Async.Wp

namespace ImapGateway
namespace Async

/-- An action, who performed it, and the state it was performed in. -/
structure Event (T S A : Type) where
  tid : T
  action : A
  before : S

namespace Coro

variable {T S A ρ : Type} {ans : ρ → Type} {ε α : Type}

/-- Run to the next await or to the end, recording the actions performed. -/
def settle (exec : A → S → S) (t : T) :
    Coro S A ρ ans ε α → S → List (Event T S A) → Coro S A ρ ans ε α × S × List (Event T S A)
  | ret a, s, tr => (ret a, s, tr)
  | raise e, s, tr => (raise e, s, tr)
  | get k, s, tr => settle exec t (k s) s tr
  | act p k, s, tr => settle exec t k (exec p s) (⟨t, p, s⟩ :: tr)
  | await q k, s, tr => (await q k, s, tr)

/-- Nothing left to run. -/
def idle : Coro S A ρ ans ε α → Bool
  | ret _ | raise _ => true
  | _ => false

end Coro

/-- The coroutines of a program: what an action does to the shared state and to
the own state of the coroutine that performs it, what a coroutine started with
an input runs and when it may start, which answers a request may get, and which
actions the loop performs by itself. -/
structure Sys (T S L A ρ : Type) (ans : ρ → Type) (ε I : Type) where
  exec : T → A → S × L → S × L
  main : T → I → Coro (S × L) A ρ ans ε Unit
  ready : T → I → S → L → Bool
  answers : T → (q : ρ) → ans q → S → Bool
  ambient : A → S → Bool

structure Pool (T S L A ρ : Type) (ans : ρ → Type) (ε : Type) where
  shared : S
  loc : T → L
  prog : T → Coro (S × L) A ρ ans ε Unit
  trace : List (Event T (S × L) A)

/-- A move.  The answer to a request is chosen in the state it is given in. -/
inductive Move (T S A ρ : Type) (ans : ρ → Type) (I : Type) where
  | launch (t : T) (i : I)
  | resume (t : T) (f : S → (q : ρ) → Option (ans q))
  | ambient (t : T) (p : A)

namespace Pool

variable {T S L A ρ : Type} {ans : ρ → Type} {ε I : Type} [DecidableEq T]

/-- Let coroutine `t` run `x` to its next await. -/
def proceed (P : Sys T S L A ρ ans ε I) (w : Pool T S L A ρ ans ε) (t : T)
    (x : Coro (S × L) A ρ ans ε Unit) : Pool T S L A ρ ans ε :=
  let r := x.settle (P.exec t) t (w.shared, w.loc t) w.trace
  { shared := r.2.1.1,
    loc := Function.update w.loc t r.2.1.2,
    prog := Function.update w.prog t r.1,
    trace := r.2.2 }

/-- One move, when it is possible. -/
def step (P : Sys T S L A ρ ans ε I) (w : Pool T S L A ρ ans ε) :
    Move T S A ρ ans I → Option (Pool T S L A ρ ans ε)
  | .launch t i =>
    if (w.prog t).idle && P.ready t i w.shared (w.loc t) then some (w.proceed P t (P.main t i))
    else none
  | .resume t f =>
    match w.prog t with
    | .await q k =>
      match f w.shared q with
      | some a => if P.answers t q a w.shared then some (w.proceed P t (k a)) else none
      | none => none
    | _ => none
  | .ambient t p =>
    if P.ambient p w.shared then
      let r := P.exec t p (w.shared, w.loc t)
      some { w with
        shared := r.1, loc := Function.update w.loc t r.2,
        trace := ⟨t, p, (w.shared, w.loc t)⟩ :: w.trace }
    else none

/-- A list of moves, in order. -/
def run (P : Sys T S L A ρ ans ε I) (w : Pool T S L A ρ ans ε) :
    List (Move T S A ρ ans I) → Option (Pool T S L A ρ ans ε)
  | [] => some w
  | m :: ms => (w.step P m).bind fun w' => w'.run P ms

/-- `w'` is reached from `w` by moves that each meet the condition `C` in the
pool they are made in. -/
inductive Reaches (P : Sys T S L A ρ ans ε I)
    (C : Pool T S L A ρ ans ε → Move T S A ρ ans I → Prop) (w : Pool T S L A ρ ans ε) :
    Pool T S L A ρ ans ε → Prop
  | refl : Reaches P C w w
  | step {v v' : Pool T S L A ρ ans ε} (m : Move T S A ρ ans I) :
      Reaches P C w v → C v m → v.step P m = some v' → Reaches P C w v'

/-- The moves can be made one after the other, each meeting `C`. -/
def Follows (P : Sys T S L A ρ ans ε I) (C : Pool T S L A ρ ans ε → Move T S A ρ ans I → Prop) :
    Pool T S L A ρ ans ε → List (Move T S A ρ ans I) → Prop
  | _, [] => True
  | w, m :: ms => C w m ∧ match w.step P m with
    | some w' => Follows P C w' ms
    | none => False

theorem Reaches.head {P : Sys T S L A ρ ans ε I}
    {C : Pool T S L A ρ ans ε → Move T S A ρ ans I → Prop} {w v v' : Pool T S L A ρ ans ε}
    (m : Move T S A ρ ans I) (hC : C w m) (hm : w.step P m = some v) (h : v.Reaches P C v') :
    w.Reaches P C v' := by
  induction h with
  | refl => exact .step m .refl hC hm
  | step m' _ hC' hm' ih => exact .step m' ih hC' hm'

theorem run_reaches {P : Sys T S L A ρ ans ε I}
    {C : Pool T S L A ρ ans ε → Move T S A ρ ans I → Prop} {ms : List (Move T S A ρ ans I)}
    {w w' : Pool T S L A ρ ans ε} (hC : Follows P C w ms) (h : w.run P ms = some w') :
    w.Reaches P C w' := by
  induction ms generalizing w with
  | nil => cases h; exact .refl
  | cons m ms ih =>
    rw [run, Option.bind_eq_some_iff] at h
    obtain ⟨v, hm, hrun⟩ := h
    have hrest := hC.2
    rw [hm] at hrest
    exact (ih hrest hrun).head m hC.1 hm

/-- A property of the pool that a list of moves ends in, found by making them. -/
theorem exists_reaches {P : Sys T S L A ρ ans ε I} {ms : List (Move T S A ρ ans I)}
    {w : Pool T S L A ρ ans ε} {p : Pool T S L A ρ ans ε → Bool}
    (h : (w.run P ms).any p = true) : ∃ w', w.Reaches P (fun _ _ => True) w' ∧ p w' = true := by
  induction ms generalizing w with
  | nil => exact ⟨w, .refl, h⟩
  | cons m ms ih =>
    rw [run] at h
    cases hm : w.step P m with
    | none =>
      rw [hm] at h
      cases h
    | some v =>
      rw [hm] at h
      obtain ⟨w', hreach, hp⟩ := ih h
      exact ⟨w', hreach.head m trivial hm, hp⟩

/-- The pool before anything was started. -/
def init (s : S) (l : T → L) : Pool T S L A ρ ans ε :=
  { shared := s, loc := l, prog := fun _ => .ret (), trace := [] }

end Pool

/-! ## Traces -/

section Traces

variable {T S L A : Type} (exec : T → A → S × L → S × L)

/-- The events follow one another from the shared state `s₀` to the last one:
each was performed in the shared state its predecessor left. -/
inductive Linked (s₀ : S) : List (Event T (S × L) A) → S → Prop
  | nil : Linked s₀ [] s₀
  | cons {tr : List (Event T (S × L) A)} (e : Event T (S × L) A) :
      Linked s₀ tr e.before.1 → Linked s₀ (e :: tr) (exec e.tid e.action e.before).1

variable [DecidableEq T]

/-- The same of the own states: each event was also performed in the own state that the last
one of its coroutine left. -/
inductive Threaded (s₀ : S) (l₀ : T → L) : List (Event T (S × L) A) → S → (T → L) → Prop
  | nil : Threaded s₀ l₀ [] s₀ l₀
  | cons {tr : List (Event T (S × L) A)} {l : T → L} (e : Event T (S × L) A) :
      Threaded s₀ l₀ tr e.before.1 l → l e.tid = e.before.2 →
      Threaded s₀ l₀ (e :: tr) (exec e.tid e.action e.before).1
        (Function.update l e.tid (exec e.tid e.action e.before).2)

variable {exec} {ρ : Type} {ans : ρ → Type} {ε I : Type} {s₀ : S} {l₀ l : T → L}

theorem Threaded.linked {tr : List (Event T (S × L) A)} {s : S}
    (h : Threaded exec s₀ l₀ tr s l) : Linked exec s₀ tr s := by
  induction h with
  | nil => exact .nil
  | cons e _ _ ih => exact .cons e ih

theorem Threaded.settle {t : T} (x : Coro (S × L) A ρ ans ε Unit)
    {s : S × L} {tr : List (Event T (S × L) A)} (h : Threaded exec s₀ l₀ tr s.1 l)
    (hl : l t = s.2) :
    Threaded exec s₀ l₀ (x.settle (exec t) t s tr).2.2 (x.settle (exec t) t s tr).2.1.1
      (Function.update l t (x.settle (exec t) t s tr).2.1.2) := by
  have hsame : Function.update l t s.2 = l := by rw [← hl, Function.update_eq_self]
  induction x generalizing s tr l with
  | ret a => exact hsame.symm ▸ h
  | raise e => exact hsame.symm ▸ h
  | get k ih => exact ih s h hl hsame
  | act p k ih =>
    have hnext := ih (Threaded.cons ⟨t, p, s⟩ h hl) (Function.update_self ..)
      (by rw [Function.update_idem])
    rw [Function.update_idem] at hnext
    exact hnext
  | await q k => exact hsame.symm ▸ h

theorem Threaded.step {P : Sys T S L A ρ ans ε I}
    {w w' : Pool T S L A ρ ans ε} {m : Move T S A ρ ans I}
    (h : Threaded P.exec s₀ l₀ w.trace w.shared w.loc) (hm : w.step P m = some w') :
    Threaded P.exec s₀ l₀ w'.trace w'.shared w'.loc := by
  cases m with
  | launch t i =>
    simp only [Pool.step] at hm
    split at hm
    · cases hm
      exact h.settle _ rfl
    · cases hm
  | resume t f =>
    simp only [Pool.step] at hm
    split at hm
    · split at hm
      · split at hm
        · cases hm
          exact h.settle _ rfl
        · cases hm
      · cases hm
    · cases hm
  | ambient t p =>
    simp only [Pool.step] at hm
    split at hm
    · cases hm
      exact Threaded.cons ⟨t, p, (w.shared, w.loc t)⟩ h rfl
    · cases hm

/-- The trace of a run accounts for every change of the states. -/
theorem Pool.Reaches.threaded {P : Sys T S L A ρ ans ε I}
    {C : Pool T S L A ρ ans ε → Move T S A ρ ans I → Prop}
    {w : Pool T S L A ρ ans ε} (h : Pool.Reaches P C (Pool.init s₀ l₀) w) :
    Threaded P.exec s₀ l₀ w.trace w.shared w.loc := by
  induction h with
  | refl => exact Threaded.nil
  | step m _ _ hm ih => exact ih.step hm

theorem Pool.Reaches.linked {P : Sys T S L A ρ ans ε I}
    {C : Pool T S L A ρ ans ε → Move T S A ρ ans I → Prop} {w : Pool T S L A ρ ans ε}
    (h : Pool.Reaches P C (Pool.init s₀ l₀) w) : Linked P.exec s₀ w.trace w.shared :=
  h.threaded.linked

end Traces

/-! ## Soundness of the logic -/

namespace Coro

variable {T S A ρ : Type} {ans : ρ → Type} {ε α : Type} {L : Logic S A ρ ans}
  {Q : α → S → Prop} {E : ε → S → Prop}

/-- Ended, or suspended on a request. -/
def settled : Coro S A ρ ans ε α → Bool
  | ret _ | raise _ | await _ _ => true
  | _ => false

theorem settle_settled (exec : A → S → S) (t : T) (x : Coro S A ρ ans ε α) (s : S)
    (tr : List (Event T S A)) : (x.settle exec t s tr).1.settled = true := by
  induction x generalizing s tr with
  | ret a => rfl
  | raise e => rfl
  | get k ih => exact ih s s tr
  | act p k ih => exact ih (exec p s) _
  | await q k => rfl

theorem settle_wp {exec : A → S → S} (hexec : L.exec = exec) {t : T}
    (x : Coro S A ρ ans ε α) {s : S} {tr : List (Event T S A)} (h : x.wp L Q E s) :
    (x.settle exec t s tr).1.wp L Q E (x.settle exec t s tr).2.1 := by
  induction x generalizing s tr with
  | ret a => exact h
  | raise e => exact h
  | get k ih => exact ih s h
  | act p k ih => exact ih (by rw [← hexec]; exact h.2)
  | await q k => exact h

end Coro

/-- The logics of the coroutines of `P` fit together: what one owes is what the
others assume, and each is correct from the assertion `rest` it starts in and
ends in.  The moves of a run are taken to meet `C`. -/
structure Sound {T S L A ρ : Type} {ans : ρ → Type} {ε I : Type} [DecidableEq T]
    (P : Sys T S L A ρ ans ε I)
    (C : Pool T S L A ρ ans ε → Move T S A ρ ans I → Prop) (Λ : T → Logic (S × L) A ρ ans)
    (rest : T → S × L → Prop) : Prop where
  exec : ∀ t, (Λ t).exec = P.exec t
  refl : ∀ t a, (Λ t).rely a a
  trans : ∀ t a b c, (Λ t).rely a b → (Λ t).rely b c → (Λ t).rely a c
  others : ∀ t u, t ≠ u → ∀ p s lt lu, (Λ t).guar p (s, lt) →
    (Λ u).rely (s, lu) ((P.exec t p (s, lt)).1, lu)
  ambient : ∀ t u p s lt lu, P.ambient p s = true →
    (P.exec t p (s, lt)).2 = lt ∧ (Λ u).rely (s, lu) ((P.exec t p (s, lt)).1, lu)
  asksStable : ∀ t q a b, (Λ t).asks q a → (Λ t).rely a b → (Λ t).asks q b
  restStable : ∀ t a b, rest t a → (Λ t).rely a b → rest t b
  main : ∀ w t i, C w (.launch t i) → P.ready t i w.shared (w.loc t) = true →
    rest t (w.shared, w.loc t) →
    (P.main t i).wp (Λ t) (fun _ => rest t) (fun _ => rest t) (w.shared, w.loc t)
  gives : ∀ w t f q k a, C w (.resume t f) → w.prog t = .await q k → f w.shared q = some a →
    P.answers t q a w.shared = true → (Λ t).gives q a (w.shared, w.loc t)

namespace Sound

variable {T S L A ρ : Type} {ans : ρ → Type} {ε I : Type} [DecidableEq T] {P : Sys T S L A ρ ans ε I}
  {C : Pool T S L A ρ ans ε → Move T S A ρ ans I → Prop} {Λ : T → Logic (S × L) A ρ ans}
  {rest : T → S × L → Prop}

/-- Every coroutine of the pool meets its obligations from where it stands. -/
def Holds (Λ : T → Logic (S × L) A ρ ans) (rest : T → S × L → Prop)
    (w : Pool T S L A ρ ans ε) : Prop :=
  ∀ t, (w.prog t).settled = true ∧
    (w.prog t).wp (Λ t) (fun _ => rest t) (fun _ => rest t) (w.shared, w.loc t)

/-- A suspended coroutine stays correct while the others act. -/
theorem wp_rely (h : Sound P C Λ rest) {t : T} {x : Coro (S × L) A ρ ans ε Unit}
    {a b : S × L} (hx : x.settled = true)
    (hwp : x.wp (Λ t) (fun _ => rest t) (fun _ => rest t) a) (hr : (Λ t).rely a b) :
    x.wp (Λ t) (fun _ => rest t) (fun _ => rest t) b := by
  cases x with
  | ret _ => exact h.restStable t a b hwp hr
  | raise _ => exact h.restStable t a b hwp hr
  | await q k =>
    exact ⟨h.asksStable t q a b hwp.1 hr, fun c hc => hwp.2 c (h.trans t a b c hr hc)⟩
  | get k => cases hx
  | act p k => cases hx

/-- What one coroutine does up to its next await is within what the others
assume of it. -/
theorem settle_rely (h : Sound P C Λ rest) {t u : T} (htu : t ≠ u)
    (x : Coro (S × L) A ρ ans ε Unit) {s : S × L} {lu : L} {r : List (Event T (S × L) A)}
    (hwp : x.wp (Λ t) (fun _ => rest t) (fun _ => rest t) s) :
    (Λ u).rely (s.1, lu) ((x.settle (P.exec t) t s r).2.1.1, lu) := by
  induction x generalizing s r with
  | ret a => exact h.refl u _
  | raise e => exact h.refl u _
  | get k ih => exact ih s hwp
  | act p k ih =>
    have hstep := h.others t u htu p s.1 s.2 lu hwp.1
    have hk : k.wp (Λ t) (fun _ => rest t) (fun _ => rest t) (P.exec t p s) := by
      rw [← h.exec t]; exact hwp.2
    have hrest := ih (r := ⟨t, p, s⟩ :: r) hk
    exact h.trans u _ _ _ hstep hrest
  | await q k => exact h.refl u _

theorem proceed (h : Sound P C Λ rest) {w : Pool T S L A ρ ans ε} (hw : Holds Λ rest w) (t : T)
    {x : Coro (S × L) A ρ ans ε Unit}
    (hx : x.wp (Λ t) (fun _ => rest t) (fun _ => rest t) (w.shared, w.loc t)) :
    Holds Λ rest (w.proceed P t x) := by
  intro u
  by_cases hu : u = t
  · subst hu
    simp only [Pool.proceed, Function.update_self]
    exact ⟨Coro.settle_settled _ _ _ _ _, Coro.settle_wp (h.exec u) x hx⟩
  · simp only [Pool.proceed, Function.update_of_ne hu]
    exact ⟨(hw u).1, h.wp_rely (hw u).1 (hw u).2 (h.settle_rely (Ne.symm hu) x hx)⟩

/-- A coroutine that has ended left its assertion behind. -/
theorem rest_of_idle (_ : Sound P C Λ rest) {t : T} {x : Coro (S × L) A ρ ans ε Unit} {s : S × L}
    (hx : x.settled = true ∧ x.wp (Λ t) (fun _ => rest t) (fun _ => rest t) s)
    (hi : x.idle = true) : rest t s := by
  cases x with
  | ret a => exact hx.2
  | raise e => exact hx.2
  | get k => cases hi
  | act p k => cases hi
  | await q k => cases hi

theorem step (h : Sound P C Λ rest) {w w' : Pool T S L A ρ ans ε} (hw : Holds Λ rest w)
    {m : Move T S A ρ ans I} (hC : C w m) (hm : w.step P m = some w') : Holds Λ rest w' := by
  cases m with
  | launch t i =>
    simp only [Pool.step] at hm
    split at hm
    · rename_i hr
      cases hm
      rw [Bool.and_eq_true] at hr
      have hrest := h.rest_of_idle (hw t) hr.1
      exact h.proceed hw t (h.main w t i hC hr.2 hrest)
    · cases hm
  | resume t f =>
    simp only [Pool.step] at hm
    split at hm
    · rename_i q k hp
      split at hm
      · rename_i a ha
        split at hm
        · rename_i hans
          cases hm
          have hwp := (hw t).2
          rw [hp] at hwp
          exact h.proceed hw t
            (hwp.2 _ (h.refl t _) a (h.gives w t f q k a hC hp ha hans))
        · cases hm
      · cases hm
    · cases hm
  | ambient t p =>
    simp only [Pool.step] at hm
    split at hm
    · rename_i hp
      cases hm
      intro u
      have hloc : Function.update w.loc t (P.exec t p (w.shared, w.loc t)).2 = w.loc := by
        rw [(h.ambient t u p w.shared (w.loc t) (w.loc u) hp).1, Function.update_eq_self]
      have hr := (h.ambient t u p w.shared (w.loc t) (w.loc u) hp).2
      refine ⟨(hw u).1, ?_⟩
      simp only [hloc]
      exact h.wp_rely (hw u).1 (hw u).2 hr
    · cases hm

/-- In every run each coroutine meets its obligations at every await. -/
theorem reaches (h : Sound P C Λ rest) {w w' : Pool T S L A ρ ans ε} (hw : Holds Λ rest w)
    (hr : w.Reaches P C w') : Holds Λ rest w' := by
  induction hr with
  | refl => exact hw
  | step m _ hC hm ih => exact h.step ih hC hm

/-- Up to its next await a coroutine performs only actions it owes the others. -/
theorem settle_guar {t : T} {x : Coro (S × L) A ρ ans ε Unit} (h : Sound P C Λ rest)
    {s : S × L} {r : List (Event T (S × L) A)}
    (hwp : x.wp (Λ t) (fun _ => rest t) (fun _ => rest t) s) :
    ∀ e ∈ (x.settle (P.exec t) t s r).2.2, e ∈ r ∨ (Λ e.tid).guar e.action e.before := by
  induction x generalizing s r with
  | ret a => exact fun e he => .inl he
  | raise e => exact fun e he => .inl he
  | get k ih => exact ih s hwp
  | act p k ih =>
    intro e he
    have hk : k.wp (Λ t) (fun _ => rest t) (fun _ => rest t) (P.exec t p s) := by
      rw [← h.exec t]; exact hwp.2
    rcases ih (r := ⟨t, p, s⟩ :: r) hk e he with he | hg
    · rcases List.mem_cons.mp he with rfl | he
      · exact .inr hwp.1
      · exact .inl he
    · exact .inr hg
  | await q k => exact fun e he => .inl he

/-- Every action of a run was owed where it was performed, or is the loop's own. -/
theorem guar_of_mem (h : Sound P C Λ rest) {w w' : Pool T S L A ρ ans ε} (hw : Holds Λ rest w)
    (hr : w.Reaches P C w') : ∀ e ∈ w'.trace, e ∈ w.trace ∨
      P.ambient e.action e.before.1 = true ∨ (Λ e.tid).guar e.action e.before := by
  induction hr with
  | refl => exact fun e he => .inl he
  | @step v v' m hv hC hm ih =>
    have hvh := h.reaches hw hv
    intro e he
    cases m with
    | launch t i =>
      simp only [Pool.step] at hm
      split at hm
      · rename_i hr
        cases hm
        rw [Bool.and_eq_true] at hr
        have hwp := h.main v t i hC hr.2 (h.rest_of_idle (hvh t) hr.1)
        rcases h.settle_guar hwp e he with he | hg
        · exact ih e he
        · exact .inr (.inr hg)
      · cases hm
    | resume t f =>
      simp only [Pool.step] at hm
      split at hm
      · rename_i q k hp
        split at hm
        · rename_i a ha
          split at hm
          · rename_i hans
            cases hm
            have hwp := (hvh t).2
            rw [hp] at hwp
            have hk := hwp.2 _ (h.refl t _) a (h.gives v t f q k a hC hp ha hans)
            rcases h.settle_guar hk e he with he | hg
            · exact ih e he
            · exact .inr (.inr hg)
          · cases hm
        · cases hm
      · cases hm
    | ambient t p =>
      simp only [Pool.step] at hm
      split at hm
      · rename_i hp
        cases hm
        rcases List.mem_cons.mp he with rfl | he
        · exact .inr (.inl hp)
        · exact ih e he
      · cases hm

/-- What is owed at an await holds whenever a coroutine is suspended there. -/
theorem asks_of_await (h : Sound P C Λ rest) {w w' : Pool T S L A ρ ans ε} (hw : Holds Λ rest w)
    (hr : w.Reaches P C w') {t : T} {q : ρ} {k : ans q → Coro (S × L) A ρ ans ε Unit}
    (hp : w'.prog t = .await q k) : (Λ t).asks q (w'.shared, w'.loc t) := by
  have := (h.reaches hw hr t).2
  rw [hp] at this
  exact this.1

/-- What the coroutines assert at their awaits and where they end holds at every moment. -/
theorem stands (h : Sound P C Λ rest) {J : T → S × L → Prop}
    (hasks : ∀ t q s, (Λ t).asks q s → J t s) (hrest : ∀ t s, rest t s → J t s)
    {w w' : Pool T S L A ρ ans ε} (hw : Holds Λ rest w) (hr : w.Reaches P C w') (t : T) :
    J t (w'.shared, w'.loc t) := by
  obtain ⟨hsettled, hwp⟩ := h.reaches hw hr t
  cases hp : w'.prog t with
  | ret a =>
    rw [hp] at hwp
    exact hrest t _ hwp
  | raise e =>
    rw [hp] at hwp
    exact hrest t _ hwp
  | await q k =>
    rw [hp] at hwp
    exact hasks t q _ hwp.1
  | get k =>
    rw [hp] at hsettled
    cases hsettled
  | act p k =>
    rw [hp] at hsettled
    cases hsettled

end Sound

end Async
end ImapGateway
