/-
Walks along tokens.

A turn takes a token to items and to the next token, if there is one.  A walk follows the
tokens and remembers them: it raises where it meets one again.  So a walk that ends has
been along the whole chain, and one that meets finitely many tokens stops.
-/
import Mathlib.Data.List.Perm.Subperm
import Mathlib.Data.List.Nodup

namespace ImapGateway
namespace Walk

/-- What a token leads to. -/
structure Turn (τ α ε : Type) where
  items : List α
  next : Except ε (Option τ)

inductive Outcome (ε : Type) where
  | ended
  | raised (e : ε)

/-- How far a walk has come; without an outcome it goes on. -/
structure Trace (τ α ε : Type) where
  items : List α
  visited : List (Option τ)
  outcome : Option (Outcome ε)

/-- The same behind a turn that gave `items`. -/
def Trace.after {τ α ε : Type} (r : Trace τ α ε) (token : Option τ) (items : List α) :
    Trace τ α ε :=
  { r with items := items ++ r.items, visited := token :: r.visited }

variable {τ α ε : Type} (turn : Option τ → Turn τ α ε) (loop : ε)

/-- So many turns of a walk from `token`, with the tokens met so far. -/
def walk [DecidableEq τ] : Nat → Option τ → List τ → Trace τ α ε
  | 0, _, _ => ⟨[], [], none⟩
  | n + 1, token, seen =>
    match (turn token).next with
    | .error e => ⟨(turn token).items, [token], some (.raised e)⟩
    | .ok none => ⟨(turn token).items, [token], some .ended⟩
    | .ok (some next) =>
      if next ∈ seen then ⟨(turn token).items, [token], some (.raised loop)⟩
      else (walk n (some next) (next :: seen)).after token (turn token).items

/-- The tokens from one to the first that none comes after, and their items. -/
inductive Chain : Option τ → List (Option τ) → List α → Prop
  | last {token : Option τ} (h : (turn token).next = .ok none) :
      Chain token [token] (turn token).items
  | step {token : Option τ} {next : τ} {tokens : List (Option τ)} {items : List α}
      (h : (turn token).next = .ok (some next)) (rest : Chain (some next) tokens items) :
      Chain token (token :: tokens) ((turn token).items ++ items)

variable {turn loop}

/-- A walk that ends has followed the chain. -/
theorem chain_of_ended [DecidableEq τ] {n : Nat} {token : Option τ} {seen : List τ}
    (h : (walk turn loop n token seen).outcome = some .ended) :
    Chain turn token (walk turn loop n token seen).visited
      (walk turn loop n token seen).items := by
  induction n generalizing token seen with
  | zero => cases h
  | succ n ih =>
    unfold walk at h ⊢
    cases hnext : (turn token).next with
    | error e =>
      rw [hnext] at h
      cases h
    | ok next =>
      cases next with
      | none => exact .last hnext
      | some next =>
        rw [hnext] at h
        by_cases hmem : next ∈ seen
        · simp [hmem] at h
        · simp only [hmem, if_false] at h ⊢
          exact .step hnext (ih h)

theorem Chain.unique {token : Option τ} {tokens tokens' : List (Option τ)} {items items' : List α}
    (h : Chain turn token tokens items) (h' : Chain turn token tokens' items') :
    tokens = tokens' := by
  induction h generalizing tokens' items' with
  | last hnone =>
    cases h' with
    | last => rfl
    | step hsome =>
      rw [hnone] at hsome
      cases hsome
  | step hsome _ ih =>
    cases h' with
    | last hnone =>
      rw [hsome] at hnone
      cases hnone
    | step hsome' rest' =>
      rw [hsome] at hsome'
      cases hsome'
      rw [ih rest']

/-- The chain of a token further on is the end of the chain. -/
theorem Chain.of_mem {token other : Option τ} {tokens : List (Option τ)} {items : List α}
    (h : Chain turn token tokens items) (hmem : other ∈ tokens) :
    ∃ tokens' items', Chain turn other tokens' items' ∧ tokens'.length ≤ tokens.length := by
  induction h with
  | last hnone =>
    rw [List.mem_singleton.mp hmem]
    exact ⟨_, _, .last hnone, Nat.le_refl _⟩
  | step hsome rest ih =>
    rcases List.mem_cons.mp hmem with rfl | hmem
    · exact ⟨_, _, .step hsome rest, Nat.le_refl _⟩
    · obtain ⟨tokens', items', hchain, hle⟩ := ih hmem
      refine ⟨tokens', items', hchain, ?_⟩
      rw [List.length_cons]
      omega

/-- No token comes twice in a chain: from the second on it would go round for ever. -/
theorem Chain.nodup {token : Option τ} {tokens : List (Option τ)} {items : List α}
    (h : Chain turn token tokens items) : tokens.Nodup := by
  induction h with
  | last => exact List.nodup_singleton _
  | step hsome rest ih =>
    refine List.nodup_cons.mpr ⟨fun hmem => ?_, ih⟩
    obtain ⟨tokens', items', hchain, hle⟩ := rest.of_mem hmem
    have hlen := congrArg List.length ((Chain.step hsome rest).unique hchain)
    rw [List.length_cons] at hlen
    omega

/-- A walk follows a chain to its end, if it has met none of its tokens. -/
theorem Chain.walks [DecidableEq τ] {token : Option τ} {tokens : List (Option τ)} {items : List α}
    (h : Chain turn token tokens items) {seen : List τ}
    (hfresh : ∀ next ∈ seen, some next ∉ tokens.tail) :
    walk turn loop tokens.length token seen = ⟨items, tokens, some .ended⟩ := by
  induction h generalizing seen with
  | last hnone =>
    rw [List.length_singleton, walk, hnone]
  | @step token next tokens items hsome rest ih =>
    have hnodup := rest.nodup
    obtain ⟨tail, htokens⟩ : ∃ tail, tokens = some next :: tail := by
      cases rest with
      | last => exact ⟨_, rfl⟩
      | step => exact ⟨_, rfl⟩
    have hnext : next ∉ seen := fun hmem =>
      hfresh next hmem (by rw [List.tail_cons, htokens]; exact List.mem_cons_self)
    have hrest : walk turn loop tokens.length (some next) (next :: seen) =
        ⟨items, tokens, some .ended⟩ := by
      apply ih
      intro other hother hmem
      rcases List.mem_cons.mp hother with rfl | hother
      · rw [htokens] at hmem hnodup
        exact (List.nodup_cons.mp hnodup).1 hmem
      · exact hfresh other hother (List.mem_of_mem_tail hmem)
    rw [List.length_cons, walk, hsome]
    simp only [hnext, if_false]
    rw [hrest]
    rfl

/-- A walk that has stopped is not changed by more turns. -/
theorem walk_more [DecidableEq τ] {n : Nat} {token : Option τ} {seen : List τ}
    (h : (walk turn loop n token seen).outcome ≠ none) (k : Nat) :
    walk turn loop (n + k) token seen = walk turn loop n token seen := by
  induction n generalizing token seen with
  | zero => exact absurd rfl h
  | succ n ih =>
    rw [Nat.add_right_comm, walk, walk]
    rw [walk] at h
    cases hnext : (turn token).next with
    | error e => rfl
    | ok next =>
      rw [hnext] at h
      cases next with
      | none => rfl
      | some next =>
        by_cases hmem : next ∈ seen
        · simp only [hmem, if_true]
        · simp only [hmem, if_false] at h ⊢
          rw [ih h]

/-- Where there are finitely many tokens a walk stops: it meets a new one each time. -/
theorem walk_stops [DecidableEq τ] {tokens : List τ}
    (hfinite : ∀ token next, (turn token).next = .ok (some next) → next ∈ tokens)
    (token : Option τ) {seen : List τ} (hseen : seen.Nodup) (hsub : seen ⊆ tokens) :
    ∃ n, (walk turn loop n token seen).outcome ≠ none := by
  generalize hk : tokens.length - seen.length = k
  induction k using Nat.strongRecOn generalizing token seen with
  | ind k ih =>
    cases hnext : (turn token).next with
    | error e => exact ⟨1, by simp [walk, hnext]⟩
    | ok next =>
      cases next with
      | none => exact ⟨1, by simp [walk, hnext]⟩
      | some next =>
        by_cases hmem : next ∈ seen
        · exact ⟨1, by simp [walk, hnext, hmem]⟩
        · have hnodup : (next :: seen).Nodup := List.nodup_cons.mpr ⟨hmem, hseen⟩
          have hsub' : next :: seen ⊆ tokens :=
            List.cons_subset.mpr ⟨hfinite token next hnext, hsub⟩
          have hlen : (next :: seen).length ≤ tokens.length :=
            (List.subperm_of_subset hnodup hsub').length_le
          rw [List.length_cons] at hlen
          obtain ⟨n, hn⟩ := ih (tokens.length - (next :: seen).length)
            (by rw [List.length_cons]; omega) (some next) hnodup hsub' rfl
          refine ⟨n + 1, ?_⟩
          rw [walk, hnext]
          simp only [hmem, if_false]
          exact hn

end Walk
end ImapGateway
