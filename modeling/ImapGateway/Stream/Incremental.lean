/-
Incremental readers.

A reader is given a stream in chunks.  It looks at its state and at what it has
been given and not yet taken, and either waits for more, takes some of it, or
takes some of it and halts.  Draining it takes as much as it can.

Where a reader decides nothing that more input could change, it does not matter
how the stream was cut.
-/
import Mathlib.Data.List.Basic

namespace ImapGateway
namespace Incremental

inductive Outcome (σ α ε : Type) where
  | wait
  | take (evs : List ε) (s : σ) (rest : List α)
  | halt (evs : List ε) (s : σ) (rest : List α)

/-- A reader.  Every part it takes lowers `cost`. -/
structure Reader (σ α ε : Type) where
  next : σ → List α → Outcome σ α ε
  cost : σ → List α → Nat
  lowers : ∀ {s b evs s' r}, next s b = .take evs s' r → cost s' r < cost s b

/-- What draining a reader comes to. -/
structure Drained (σ α ε : Type) where
  events : List ε
  state : σ
  rest : List α
  halted : Bool

/-- The same after the events `evs`. -/
def Drained.after {σ α ε : Type} (evs : List ε) (d : Drained σ α ε) : Drained σ α ε :=
  { d with events := evs ++ d.events }

namespace Reader

variable {σ α ε : Type} (R : Reader σ α ε)

def drainFor : Nat → σ → List α → Drained σ α ε
  | 0, s, b => ⟨[], s, b, false⟩
  | n + 1, s, b =>
    match R.next s b with
    | .wait => ⟨[], s, b, false⟩
    | .halt evs s' r => ⟨evs, s', r, true⟩
    | .take evs s' r => (drainFor n s' r).after evs

/-- Take parts until the reader waits or halts. -/
def drain (s : σ) (b : List α) : Drained σ α ε := R.drainFor (R.cost s b + 1) s b

/-- Drain after each chunk, up to the first halt. -/
def run : σ → List α → List (List α) → List ε
  | _, _, [] => []
  | s, b, c :: cs =>
    let d := R.drain s (b ++ c)
    if d.halted then d.events else d.events ++ run d.state d.rest cs

variable {R} {s s' : σ} {b r c : List α} {evs : List ε}

theorem drainFor_eq {n m : Nat} (hn : R.cost s b < n) (hm : R.cost s b < m) :
    R.drainFor n s b = R.drainFor m s b := by
  induction n generalizing s b m with
  | zero => omega
  | succ n ih =>
    cases m with
    | zero => omega
    | succ m =>
      rw [drainFor, drainFor]
      cases h : R.next s b with
      | wait => rfl
      | halt evs s' r => rfl
      | take evs s' r =>
        have hlt := R.lowers h
        have heq := ih (s := s') (b := r) (m := m) (by omega) (by omega)
        exact congrArg (Drained.after evs) heq

theorem drain_wait (h : R.next s b = .wait) : R.drain s b = ⟨[], s, b, false⟩ := by
  rw [drain, drainFor, h]

theorem drain_halt (h : R.next s b = .halt evs s' r) : R.drain s b = ⟨evs, s', r, true⟩ := by
  rw [drain, drainFor, h]

theorem drain_take (h : R.next s b = .take evs s' r) :
    R.drain s b = (R.drain s' r).after evs := by
  have hlt := R.lowers h
  have heq : R.drainFor (R.cost s b) s' r = R.drain s' r := drainFor_eq (by omega) (by omega)
  rw [drain, drainFor, h]
  exact congrArg (Drained.after evs) heq

/-- The induction a drained reader is reasoned about with. -/
theorem drain_induction {P : σ → List α → Prop}
    (hwait : ∀ s b, R.next s b = .wait → P s b)
    (hhalt : ∀ s b evs s' r, R.next s b = .halt evs s' r → P s b)
    (htake : ∀ s b evs s' r, R.next s b = .take evs s' r → P s' r → P s b) (s : σ) (b : List α) :
    P s b := by
  induction hn : R.cost s b using Nat.strongRecOn generalizing s b with
  | _ n ih =>
    cases h : R.next s b with
    | wait => exact hwait s b h
    | halt evs s' r => exact hhalt s b evs s' r h
    | take evs s' r => exact htake s b evs s' r h (ih _ (hn ▸ R.lowers h) s' r rfl)

/-- A drained reader that has not halted waits. -/
theorem next_drain (h : (R.drain s b).halted = false) :
    R.next (R.drain s b).state (R.drain s b).rest = .wait := by
  induction s, b using R.drain_induction with
  | hwait s b hw => rw [drain_wait hw]; exact hw
  | hhalt s b evs s' r hh => rw [drain_halt hh] at h; cases h
  | htake s b evs s' r ht ih =>
    rw [drain_take ht] at h ⊢
    exact ih h

/-! ## Parts of the stream -/

/-- By taking parts of the stream the reader comes from one place to another. -/
inductive Comes (R : Reader σ α ε) : σ → List α → List ε → σ → List α → Prop
  | refl (s : σ) (b : List α) : Comes R s b [] s b
  | step {s b evs s' r evs' s'' r'} :
      R.next s b = .take evs s' r → Comes R s' r evs' s'' r' → Comes R s b (evs ++ evs') s'' r'

/-- A part taken is taken whatever comes behind it. -/
def Local (R : Reader σ α ε) : Prop :=
  ∀ {s b evs s' r}, R.next s b = .take evs s' r →
    ∃ u, b = u ++ r ∧ ∀ r', R.next s (u ++ r') = .take evs s' r'

theorem Comes.drain (hR : Local R) (h : Comes R s b evs s' r) :
    ∃ u, b = u ++ r ∧ ∀ r', R.drain s (u ++ r') = (R.drain s' r').after evs := by
  induction h with
  | refl s b => exact ⟨[], rfl, fun _ => rfl⟩
  | @step s b evs s' r evs' s'' r' hnext _ ih =>
    obtain ⟨u, hu, hlocal⟩ := hR hnext
    obtain ⟨u', hu', hdrain⟩ := ih
    refine ⟨u ++ u', by rw [hu, hu', List.append_assoc], fun r₀ => ?_⟩
    rw [List.append_assoc, drain_take (hlocal _), hdrain]
    simp only [Drained.after, List.append_assoc]

theorem comes_of_drain (h : (R.drain s b).halted = false) :
    Comes R s b (R.drain s b).events (R.drain s b).state (R.drain s b).rest := by
  induction s, b using R.drain_induction with
  | hwait s b hw =>
    rw [drain_wait hw]
    exact .refl s b
  | hhalt s b evs s' r hh =>
    rw [drain_halt hh] at h
    cases h
  | htake s b evs s' r ht ih =>
    rw [drain_take ht] at h ⊢
    exact .step ht (ih h)

/-! ## Cutting the stream -/

/-- Where `P` holds of the state and of all that is to come, what the reader does
with a part of it is what it does with all of it. -/
structure Steady (R : Reader σ α ε) (P : σ → List α → Prop) : Prop where
  takes : Local R
  halt : ∀ {s b c evs s' r}, P s (b ++ c) → R.next s b = .halt evs s' r →
    ∃ s'' r', R.next s (b ++ c) = .halt evs s'' r'
  keeps : ∀ {s b evs s' r}, P s b → R.next s b = .take evs s' r → P s' r

variable {P : σ → List α → Prop}

theorem Steady.take (hs : Steady R P) (h : R.next s b = .take evs s' r) (c : List α) :
    R.next s (b ++ c) = .take evs s' (r ++ c) := by
  obtain ⟨u, rfl, hlocal⟩ := hs.takes h
  rw [List.append_assoc]
  exact hlocal _

/-- Draining a part of the stream first and then the rest of it. -/
theorem Steady.drain_append (hs : Steady R P) (h : P s (b ++ c)) :
    (R.drain s (b ++ c)).events = (R.drain s b).events ++
      (if (R.drain s b).halted then []
        else (R.drain (R.drain s b).state ((R.drain s b).rest ++ c)).events) ∧
    ((R.drain s b).halted = false → P (R.drain s b).state ((R.drain s b).rest ++ c)) := by
  induction s, b using R.drain_induction with
  | hwait s b hw => simp [drain_wait hw, h]
  | hhalt s b evs s' r hh =>
    obtain ⟨s'', r', hh'⟩ := hs.halt h hh
    simp [drain_halt hh, drain_halt hh']
  | htake s b evs s' r ht ih =>
    have ht' := hs.take ht c
    obtain ⟨hevs, hP⟩ := ih (hs.keeps h ht')
    rw [drain_take ht, drain_take ht']
    refine ⟨?_, hP⟩
    simp only [Drained.after, hevs, List.append_assoc]
    rfl

/-- However the stream is cut, the events up to the first halt are those of the
stream in one piece. -/
theorem Steady.run_eq_drain (hs : Steady R P) (hwait : R.next s b = .wait) {cs : List (List α)}
    (h : P s (b ++ cs.flatten)) : R.run s b cs = (R.drain s (b ++ cs.flatten)).events := by
  induction cs generalizing s b with
  | nil =>
    rw [List.flatten_nil, List.append_nil, drain_wait hwait]
    rfl
  | cons c cs ih =>
    rw [List.flatten_cons, ← List.append_assoc] at h ⊢
    obtain ⟨hevs, hP⟩ := hs.drain_append h
    rw [hevs]
    show (if (R.drain s (b ++ c)).halted then _ else _) = _
    cases hh : (R.drain s (b ++ c)).halted with
    | true => simp
    | false =>
      rw [if_neg (by simp), if_neg (by simp), ih (next_drain hh) (hP hh)]

end Reader

end Incremental
end ImapGateway
