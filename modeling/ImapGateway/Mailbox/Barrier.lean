/-
The barrier a mutation leaves.

A mutation remembers how many listings had started at its last successful write, and when it
ends this is promised for the mailboxes it writes to.  A call of `sync` notes what has been
promised for its mailbox by then, and what it returns was listed later than that.
-/
import ImapGateway.Mailbox.Logic

namespace ImapGateway
namespace Mailbox

open Async

/-- The action begins a mutation. -/
def Act.begins : Act → Bool
  | beginMutation _ _ => true
  | _ => false

/-- The action calls `sync`. -/
def Act.calls : Act → Bool
  | called _ => true
  | _ => false

/-- A write to the mailbox that succeeded, in a mutation of it. -/
def Happening.WritesTo (x : Happening) (key : Key) : Prop :=
  x.action = .wrote ∧ ∃ m, x.before.aux.mutations x.tid = some m ∧ key ∈ m.keys

/-- The mutation `t` is in at the start of the stretch ends in it. -/
def EndsIn (t : Tid) (hs : List Happening) : Prop :=
  ∃ newer e older, hs = newer ++ e :: older ∧ e.tid = t ∧ e.action = .endMutation ∧
    ∀ y ∈ older, y.tid = t → y.action.begins = false

/-- A forced `sync` that is called when a mutation with a write to its mailbox has ended
returns a listing that started after that write.  Listings are numbered as they start. -/
def MutationBarrier (hs : List Happening) : Prop :=
  ∀ late r between c after x older key snap,
    hs = late ++ r :: (between ++ c :: (after ++ x :: older)) →
    x.WritesTo key → EndsIn x.tid after → c.action = .called key →
    r.action = .returned key snap → r.tid = c.tid →
    (∀ y ∈ between, y.tid = c.tid → y.action.calls = false) →
    x.before.aux.started < snap.listing

/-- The mutation of `t` remembers a write to `key` not before `w` listings had started. -/
def Service.Recalls (s : Service) (t : Tid) (key : Key) (w : Nat) : Prop :=
  ∃ m v, s.aux.mutations t = some m ∧ key ∈ m.keys ∧ m.wrote = some v ∧ w ≤ v

section

variable {cfg : Config} {R : Regime} {s s₀ : Service} {hs : List Happening} {t u : Tid} {p : Act}
  {key : Key} {w : Nat} {x : Happening}

theorem Service.le_promise (promised : Key → Nat) (m : Mutation) (key : Key) :
    promised key ≤ Service.promise promised m key := by
  cases hw : m.wrote with
  | none => simp [Service.promise, hw]
  | some w =>
    by_cases hkey : key ∈ m.keys
    · simp [Service.promise, hw, hkey]
    · simp [Service.promise, hw, hkey]

/-- What has been promised stays promised. -/
theorem Act.exec_promised (cfg : Config) (h : s.store.Ok) (key : Key) :
    s.aux.promised key ≤ (p.exec cfg t s).aux.promised key := by
  by_cases hp : p.schedules = false
  · rw [(Act.exec_schedule cfg t h hp).promised]
  · cases p with
    | endMutation =>
      show _ ≤ (s.endMutation t).aux.promised key
      cases hm : s.aux.mutations t with
      | none => simp [Service.endMutation, hm]
      | some m =>
        simp only [Service.endMutation, hm]
        exact Service.le_promise s.aux.promised m key
    | reap n =>
      simp only [Act.exec, Service.reap]
      split
      · exact Nat.le_refl _
      · exact Nat.le_refl _
    | createTask | beginTask | finishTask | startListing | bump => exact Nat.le_refl _
    | _ => exact absurd rfl hp

theorem Conducted.promised_mono (h : Conducted cfg R s₀ hs s) (key : Key) :
    s₀.aux.promised key ≤ s.aux.promised key :=
  (h.always (P := fun s => s₀.aux.promised key ≤ s.aux.promised key) (Nat.le_refl _)
    fun _ _ hi hle => hle.trans (Act.exec_promised cfg hi.store key)).2

/-- A mutation goes on remembering until it ends, and then the write has been promised. -/
theorem Service.Recalls.step (h : s.Recalls t key w) (hi : Inv cfg R s) (hw : w ≤ s.aux.started)
    (hbegin : u = t → p.begins = false) :
    (p.exec cfg u s).Recalls t key w ∨ w ≤ (p.exec cfg u s).aux.promised key := by
  obtain ⟨m, v, hm, hkey, hv, hle⟩ := h
  by_cases hu : u = t
  · subst hu
    cases p with
    | beginMutation keys tolerant => cases hbegin rfl
    | wrote =>
      refine .inl ⟨{ m with wrote := some s.aux.started }, s.aux.started, ?_, hkey, rfl, hw⟩
      simp only [Act.exec, Service.noteWrite, Function.update_self, hm, Option.map_some]
    | endMutation =>
      right
      simp only [Act.exec, Service.endMutation, hm, Service.promise, hv, if_pos hkey]
      omega
    | called k => exact .inl ⟨m, v, hm, hkey, hv, hle⟩
    | beginTask n => exact .inl ⟨m, v, hm, hkey, hv, hle⟩
    | finishTask n r => exact .inl ⟨m, v, hm, hkey, hv, hle⟩
    | _ => exact .inl ⟨m, v, (Act.exec_records cfg hi.store rfl _).1.trans hm, hkey, hv, hle⟩
  · have hsame := (Act.exec_own cfg (p := p) hi.store (Ne.symm hu)).mutations
    exact .inl ⟨m, v, hsame.trans hm, hkey, hv, hle⟩

theorem Conducted.recalls (h : Conducted cfg R s₀ hs s) (hr : s₀.Recalls t key w)
    (hw : w ≤ s₀.aux.started) (hbegin : ∀ y ∈ hs, y.tid = t → y.action.begins = false) :
    w ≤ s.aux.started ∧ (s.Recalls t key w ∨ w ≤ s.aux.promised key) := by
  apply (h.always (P := fun s => w ≤ s.aux.started ∧
    (s.Recalls t key w ∨ w ≤ s.aux.promised key)) ⟨hw, .inl hr⟩ _).2
  rintro x hx hi ⟨hstarted, hrecalls⟩
  refine ⟨hstarted.trans (hi.evolve x.tid x.action).started, ?_⟩
  rcases hrecalls with hrecalls | hpromised
  · exact hrecalls.step hi hstarted (hbegin x hx)
  · exact .inr (hpromised.trans (Act.exec_promised cfg hi.store key))

/-- Once the mutation has ended, the write is promised. -/
theorem Conducted.promised (h : Conducted cfg R s₀ hs s) (hr : s₀.Recalls t key w)
    (hw : w ≤ s₀.aux.started) (hends : EndsIn t hs) : w ≤ s.aux.promised key := by
  obtain ⟨newer, e, older, rfl, rfl, hend, hbegin⟩ := hends
  have hbefore := h.before
  obtain ⟨_, hrecalls⟩ := hbefore.recalls hr hw hbegin
  have hpromised : w ≤ (e.after cfg).aux.promised key := by
    rcases hrecalls with ⟨m, v, hm, hkey, hv, hle⟩ | hpromised
    · rw [Happening.after, hend]
      simp only [Act.exec, Service.endMutation, hm, Service.promise, hv, if_pos hkey]
      omega
    · exact hpromised.trans (Act.exec_promised cfg hbefore.inv.store key)
  exact hpromised.trans (h.after.promised_mono key)

/-- A call goes on noting what had been promised until the next call. -/
theorem Conducted.since (h : Conducted cfg R s₀ hs s)
    (hcalls : ∀ y ∈ hs, y.tid = t → y.action.calls = false) :
    s.aux.since t = s₀.aux.since t := by
  apply (h.always (P := fun s => s.aux.since t = s₀.aux.since t) rfl _).2
  intro x hx hi heq
  rw [Happening.after, ← heq]
  by_cases ht : x.tid = t
  · have hcall := hcalls x hx ht
    cases hp : x.action with
    | called k =>
      rw [hp] at hcall
      cases hcall
    | beginMutation | wrote | endMutation | beginTask | finishTask => rfl
    | _ => exact (Act.exec_records cfg hi.store rfl _).2
  · exact (Act.exec_own cfg hi.store (Ne.symm ht)).since

/-- Where every answer is gentle, mutations leave a barrier. -/
theorem Conducted.barrier (h : Conducted cfg R s₀ hs s) (hgentle : R.gentle) :
    MutationBarrier hs := by
  rintro late r between c after x older key snap rfl ⟨hwrote, m, hm, hkey⟩ hends hcall hreturn ht
    hbetween
  have hr := h.before
  have hc := hr.before
  have hrecalls : (x.after cfg).Recalls x.tid key x.before.aux.started := by
    refine ⟨{ m with wrote := some x.before.aux.started }, _, ?_, hkey, rfl, Nat.le_refl _⟩
    rw [Happening.after, hwrote]
    simp only [Act.exec, Service.noteWrite, Function.update_self, hm, Option.map_some]
  have hstarted : x.before.aux.started ≤ (x.after cfg).aux.started := by
    rw [Happening.after, hwrote]
    exact Nat.le_refl _
  have hpromised : x.before.aux.started ≤ c.before.aux.promised key :=
    hc.after.promised hrecalls hstarted hends
  have hnoted : (c.after cfg).aux.since c.tid = c.before.aux.promised key := by
    rw [Happening.after, hcall]
    exact Function.update_self ..
  have hsince : r.before.aux.since c.tid = c.before.aux.promised key := by
    rw [hr.after.since hbetween, hnoted]
  have howed : Owes cfg R r.tid r.action r.before := h.owed r (by simp)
  rw [hreturn, ht] at howed
  have hlate : r.before.aux.since c.tid < snap.listing := howed hgentle
  omega

end

end Mailbox
end ImapGateway
