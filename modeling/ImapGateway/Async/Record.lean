/-
The record of a run, and the run of one coroutine within it.

A run puts on record which coroutines were started, which answers they got and what
the loop did by itself.  `Hosts` is for a single start: from there to the end of the
coroutine only its own logic matters, and the rest of the pool is what the logic
relies on.
-/
import ImapGateway.Async.Pool

namespace ImapGateway
namespace Async

/-- What a move puts on record: a coroutine was started, its request was answered, or
the loop acted. -/
inductive Entry (T A ρ : Type) (ans : ρ → Type) (I : Type) where
  | launched (t : T) (i : I)
  | replied (t : T) (q : ρ) (a : ans q)
  | acted (t : T) (p : A)

namespace Pool

variable {T S L A ρ : Type} {ans : ρ → Type} {ε I : Type} [DecidableEq T]
  {P : Sys T S L A ρ ans ε I}

def entry (w : Pool T S L A ρ ans ε) : Move T S A ρ ans I → Option (Entry T A ρ ans I)
  | .launch t i => some (.launched t i)
  | .resume t f => match w.prog t with
    | .await q _ => (f w.shared q).map (.replied t q)
    | _ => none
  | .ambient t p => some (.acted t p)

/-- `v` is reached from `w` with this record, newest entry first. -/
inductive Recorded (P : Sys T S L A ρ ans ε I) (w : Pool T S L A ρ ans ε) :
    List (Entry T A ρ ans I) → Pool T S L A ρ ans ε → Prop
  | refl : Recorded P w [] w
  | step {log : List (Entry T A ρ ans I)} {v v' : Pool T S L A ρ ans ε} (m : Move T S A ρ ans I) :
      Recorded P w log v → v.step P m = some v' → Recorded P w ((v.entry m).toList ++ log) v'

variable {w v v' : Pool T S L A ρ ans ε} {log newer older : List (Entry T A ρ ans I)}

theorem Recorded.trans (h : w.Recorded P older v) (h' : v.Recorded P newer v') :
    w.Recorded P (newer ++ older) v' := by
  induction h' with
  | refl => exact h
  | step m _ hm ih =>
    rw [List.append_assoc]
    exact .step m ih hm

/-- The record of a list of moves. -/
def record (P : Sys T S L A ρ ans ε I) (w : Pool T S L A ρ ans ε) :
    List (Move T S A ρ ans I) → List (Entry T A ρ ans I)
  | [] => []
  | m :: ms => match w.step P m with
    | some v => record P v ms ++ (w.entry m).toList
    | none => []

theorem recorded_of_run {ms : List (Move T S A ρ ans I)} (h : w.run P ms = some v) :
    w.Recorded P (w.record P ms) v := by
  induction ms generalizing w with
  | nil =>
    cases h
    exact .refl
  | cons m ms ih =>
    rw [run, Option.bind_eq_some_iff] at h
    obtain ⟨w', hm, hrun⟩ := h
    have hfirst : w.Recorded P ((w.entry m).toList ++ []) w' := .step m .refl hm
    rw [List.append_nil] at hfirst
    rw [record, hm]
    exact hfirst.trans (ih hrun)

omit [DecidableEq T] in
/-- Only its move puts a start on record. -/
theorem entry_launched {m : Move T S A ρ ans I} {t : T} {i : I}
    (h : w.entry m = some (.launched t i)) : m = .launch t i := by
  cases m with
  | launch t' i' =>
    cases h
    rfl
  | resume t' f =>
    simp only [entry] at h
    split at h
    · obtain ⟨a, _, hbad⟩ := Option.map_eq_some_iff.mp h
      cases hbad
    · cases h
  | ambient t' p => cases h

theorem mem_record {ms : List (Move T S A ρ ans I)} {e : Entry T A ρ ans I}
    (h : e ∈ w.record P ms) : ∃ u : Pool T S L A ρ ans ε, ∃ m ∈ ms, u.entry m = some e := by
  induction ms generalizing w with
  | nil => cases h
  | cons m ms ih =>
    rw [record] at h
    split at h
    · rcases List.mem_append.mp h with h | h
      · obtain ⟨u, m', hm', he⟩ := ih h
        exact ⟨u, m', List.mem_cons_of_mem _ hm', he⟩
      · exact ⟨w, m, List.mem_cons_self .., Option.mem_toList.mp h⟩
    · cases h

/-- Of every move it may be assumed where in the run it lies. -/
theorem Recorded.reaches {C : Pool T S L A ρ ans ε → Move T S A ρ ans I → Prop}
    (h : w.Recorded P log v)
    (hC : ∀ past u m u' rest, w.Recorded P past u → u.step P m = some u' → u'.Recorded P rest v →
      log = rest ++ ((u.entry m).toList ++ past) → C u m) : w.Reaches P C v := by
  induction h with
  | refl => exact .refl
  | @step past u u' m hu hm ih =>
    have hlast := hC past u m u' [] hu hm .refl rfl
    refine .step m (ih fun past' x m' x' rest hx hm' hrest hlog => ?_) hlast hm
    have hwhole : u.Recorded P ((u.entry m).toList ++ []) u' := .step m .refl hm
    rw [List.append_nil] at hwhole
    refine hC past' x m' x' _ hx hm' (hrest.trans hwhole) ?_
    rw [hlog, List.append_assoc]

/-- A record with a start in it comes from a run up to that start and one from there. -/
theorem Recorded.split {t : T} {i : I} (h : w.Recorded P (newer ++ .launched t i :: older) v) :
    ∃ u u', w.Recorded P older u ∧ u.step P (.launch t i) = some u' ∧ u'.Recorded P newer v := by
  generalize hlog : newer ++ .launched t i :: older = log at h
  induction h generalizing newer with
  | refl => cases newer <;> cases hlog
  | @step log' v v' m h' hm ih =>
    cases he : v.entry m with
    | none =>
      rw [he] at hlog
      obtain ⟨u, u', hold, hlaunch, hnew⟩ := ih hlog
      refine ⟨u, u', hold, hlaunch, ?_⟩
      have hlast := Recorded.step m hnew hm
      rw [he] at hlast
      exact hlast
    | some e =>
      rw [he] at hlog
      cases newer with
      | nil =>
        obtain ⟨rfl, rfl⟩ := List.cons.inj hlog
        rw [entry_launched he] at hm
        exact ⟨v, v', h', hm, .refl⟩
      | cons e' newer =>
        obtain ⟨rfl, hrest⟩ := List.cons.inj hlog
        obtain ⟨u, u', hold, hlaunch, hnew⟩ := ih hrest
        refine ⟨u, u', hold, hlaunch, ?_⟩
        have hlast := Recorded.step m hnew hm
        rw [he] at hlast
        exact hlast

end Pool

/-- The move runs coroutine `t`. -/
def Move.Runs {T S A ρ : Type} {ans : ρ → Type} {I : Type} (t : T) : Move T S A ρ ans I → Prop
  | .launch u _ => u = t
  | .resume u _ => u = t
  | .ambient _ _ => False

namespace Pool

variable {T S L A ρ : Type} {ans : ρ → Type} {ε I : Type} [DecidableEq T]
  {P : Sys T S L A ρ ans ε I} {w v : Pool T S L A ρ ans ε}

/-- What every action does to the shared state, every move does. -/
theorem step_rel {R : S → S → Prop} (hrefl : ∀ s, R s s)
    (htrans : ∀ a b c, R a b → R b c → R a c)
    (hexec : ∀ t p s l, R s (P.exec t p (s, l)).1) {m : Move T S A ρ ans I}
    (hm : w.step P m = some v) : R w.shared v.shared := by
  have hsettle : ∀ (t : T) (x : Coro (S × L) A ρ ans ε Unit) (s : S × L)
      (tr : List (Event T (S × L) A)), R s.1 (x.settle (P.exec t) t s tr).2.1.1 := by
    intro t x
    induction x with
    | ret a => exact fun s tr => hrefl _
    | raise e => exact fun s tr => hrefl _
    | get k ih => exact fun s tr => ih s s tr
    | act p k ih => exact fun s tr => htrans _ _ _ (hexec t p s.1 s.2) (ih _ _)
    | await q k => exact fun s tr => hrefl _
  cases m with
  | launch t i =>
    simp only [step] at hm
    split at hm
    · cases hm
      exact hsettle t _ (w.shared, w.loc t) w.trace
    · cases hm
  | resume t f =>
    simp only [step] at hm
    split at hm
    · split at hm
      · split at hm
        · cases hm
          exact hsettle t _ (w.shared, w.loc t) w.trace
        · cases hm
      · cases hm
    · cases hm
  | ambient t p =>
    simp only [step] at hm
    split at hm
    · cases hm
      exact hexec t p _ _
    · cases hm

end Pool

/-! ## One coroutine among the others -/

section Hosts

variable {T S L A ρ : Type} {ans : ρ → Type} {ε I : Type} [DecidableEq T]

/-- Coroutine `t` may be reasoned about in `Λ` while the moves meet `C`: whatever the
others do is relied on, the answers are as expected, and `t` is not started anew. -/
structure Hosts (P : Sys T S L A ρ ans ε I)
    (C : Pool T S L A ρ ans ε → Move T S A ρ ans I → Prop) (t : T) (Λ : Logic (S × L) A ρ ans)
    (Q : Unit → S × L → Prop) (E : ε → S × L → Prop) : Prop where
  exec : Λ.exec = P.exec t
  refl : ∀ a, Λ.rely a a
  trans : ∀ a b c, Λ.rely a b → Λ.rely b c → Λ.rely a c
  others : ∀ w v m, C w m → ¬m.Runs t → w.step P m = some v →
    Λ.rely (w.shared, w.loc t) (v.shared, w.loc t)
  ambient : ∀ u p s l, P.ambient p s = true → (P.exec u p (s, l)).2 = l
  asksStable : ∀ q a b, Λ.asks q a → Λ.rely a b → Λ.asks q b
  retStable : ∀ r a b, Q r a → Λ.rely a b → Q r b
  raiseStable : ∀ e a b, E e a → Λ.rely a b → E e b
  once : ∀ w i, ¬C w (.launch t i)
  gives : ∀ w f q k a, C w (.resume t f) → w.prog t = .await q k → f w.shared q = some a →
    P.answers t q a w.shared = true → Λ.asks q (w.shared, w.loc t) →
    Λ.gives q a (w.shared, w.loc t)

namespace Hosts

variable {P : Sys T S L A ρ ans ε I} {C : Pool T S L A ρ ans ε → Move T S A ρ ans I → Prop}
  {t : T} {Λ : Logic (S × L) A ρ ans} {Q : Unit → S × L → Prop} {E : ε → S × L → Prop}
  {w v : Pool T S L A ρ ans ε}

theorem wp_rely (h : Hosts P C t Λ Q E) {x : Coro (S × L) A ρ ans ε Unit} {a b : S × L}
    (hx : x.settled = true) (hwp : x.wp Λ Q E a) (hr : Λ.rely a b) : x.wp Λ Q E b := by
  cases x with
  | ret r => exact h.retStable r a b hwp hr
  | raise e => exact h.raiseStable e a b hwp hr
  | await q k =>
    exact ⟨h.asksStable q a b hwp.1 hr, fun c hc => hwp.2 c (h.trans a b c hr hc)⟩
  | get k => cases hx
  | act p k => cases hx

/-- The coroutine is where `Λ` has it. -/
def Stays (t : T) (Λ : Logic (S × L) A ρ ans) (Q : Unit → S × L → Prop) (E : ε → S × L → Prop)
    (w : Pool T S L A ρ ans ε) : Prop :=
  (w.prog t).settled = true ∧ (w.prog t).wp Λ Q E (w.shared, w.loc t)

theorem proceed (h : Hosts P C t Λ Q E) (x : Coro (S × L) A ρ ans ε Unit)
    (hx : x.wp Λ Q E (w.shared, w.loc t)) : Stays t Λ Q E (w.proceed P t x) := by
  unfold Stays
  simp only [Pool.proceed, Function.update_self]
  exact ⟨Coro.settle_settled _ _ _ _ _, Coro.settle_wp h.exec x hx⟩

/-- A move that does not run `t` leaves it where it is. -/
theorem still (h : Hosts P C t Λ Q E) {m : Move T S A ρ ans I} (hm : w.step P m = some v)
    (hrun : ¬m.Runs t) : v.prog t = w.prog t ∧ v.loc t = w.loc t := by
  cases m with
  | launch u i =>
    simp only [Pool.step] at hm
    split at hm
    · cases hm
      have hu : t ≠ u := fun he => hrun he.symm
      exact ⟨Function.update_of_ne hu _ _, Function.update_of_ne hu _ _⟩
    · cases hm
  | resume u f =>
    simp only [Pool.step] at hm
    split at hm
    · split at hm
      · split at hm
        · cases hm
          have hu : t ≠ u := fun he => hrun he.symm
          exact ⟨Function.update_of_ne hu _ _, Function.update_of_ne hu _ _⟩
        · cases hm
      · cases hm
    · cases hm
  | ambient u p =>
    simp only [Pool.step] at hm
    split at hm
    · rename_i hp
      cases hm
      refine ⟨rfl, ?_⟩
      simp only [h.ambient u p w.shared (w.loc u) hp, Function.update_eq_self]
    · cases hm

theorem step (h : Hosts P C t Λ Q E) (hw : Stays t Λ Q E w) {m : Move T S A ρ ans I}
    (hC : C w m) (hm : w.step P m = some v) : Stays t Λ Q E v := by
  have hother : ¬m.Runs t → Stays t Λ Q E v := by
    intro hrun
    obtain ⟨hprog, hloc⟩ := h.still hm hrun
    unfold Stays
    rw [hprog, hloc]
    exact ⟨hw.1, h.wp_rely hw.1 hw.2 (h.others w v m hC hrun hm)⟩
  cases m with
  | launch u i =>
    refine hother fun hu => ?_
    cases hu
    exact h.once w i hC
  | resume u f =>
    by_cases hu : u = t
    · subst hu
      simp only [Pool.step] at hm
      split at hm
      · rename_i q k hp
        split at hm
        · rename_i a ha
          split at hm
          · rename_i hans
            cases hm
            have hwp := hw.2
            rw [hp] at hwp
            exact h.proceed (k a) (hwp.2 _ (h.refl _) a (h.gives w f q k a hC hp ha hans hwp.1))
          · cases hm
        · cases hm
      · cases hm
    · exact hother hu
  | ambient u p => exact hother id

/-- Where the coroutine started meets its obligations, it does so ever after. -/
theorem reaches (h : Hosts P C t Λ Q E) (hw : Stays t Λ Q E w) (hr : w.Reaches P C v) :
    Stays t Λ Q E v := by
  induction hr with
  | refl => exact hw
  | step m _ hC hm ih => exact h.step ih hC hm

/-- A coroutine that was started and has raised since ends in `E`. -/
theorem raised (h : Hosts P C t Λ Q E) {i : I} {w' : Pool T S L A ρ ans ε} {e : ε}
    (hstart : w.step P (.launch t i) = some w') (hx : (P.main t i).wp Λ Q E (w.shared, w.loc t))
    (hr : w'.Reaches P C v) (he : v.prog t = .raise e) : E e (v.shared, v.loc t) := by
  simp only [Pool.step] at hstart
  split at hstart
  · cases hstart
    have hlast := (h.reaches (h.proceed _ hx) hr).2
    rw [he] at hlast
    exact hlast
  · cases hstart

end Hosts

end Hosts

end Async
end ImapGateway
