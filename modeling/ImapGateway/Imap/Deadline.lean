/-
The read loop and its clock.

Before every read the loop sets the time it will wait: what is left until a deadline it
keeps while a command is incomplete, and otherwise the idle timeout.  The deadline is
dropped where the loop finds the parser idle.  A read that completes one command and
begins the next leaves it standing, and the next command has only what is left of it.
-/
import ImapGateway.Imap.Session
import ImapGateway.Parser.Chunks

namespace ImapGateway
namespace Imap

open ImapGateway.Parser

/-- `in_progress` -/
def inProgress (p : CommandParser) : Bool :=
  !p.buf.isEmpty || match p.mode with
    | .line none => false
    | _ => true

/-- A command ends with this event. -/
def completes : Event → Bool
  | .continuation _ => false
  | _ => true

/-- Timeouts of the settings. -/
structure Timeouts where
  idle : Nat
  assembly : Nat

/-- A wait for input.  `command` numbers the command that was incomplete, if one was. -/
structure Wait where
  began : Nat
  ended : Nat
  command : Option Nat
  deriving DecidableEq

inductive Ending where
  /-- BYE: a command was not completed in time. -/
  | incomplete
  /-- BYE: nothing was under way. -/
  | idle
  /-- The client or a handler ended the session. -/
  | closed
  deriving DecidableEq

/-- The loop at its head.  `completed` counts the commands that were completed, which
numbers the one after them, and `waits` holds the waits so far (both auxiliary). -/
structure Loop where
  now : Nat
  parser : CommandParser
  deadline : Option Nat
  completed : Nat
  waits : List Wait
  ending : Option Ending

namespace Loop

variable (c : Timeouts) (l : Loop)

def start (now : Nat) (limits : Limits) : Loop :=
  ⟨now, CommandParser.new limits, none, 0, [], none⟩

/-- `_assembly_deadline` as it stands at the read. -/
def armed : Option Nat :=
  if inProgress l.parser then some (l.deadline.getD (l.now + c.assembly)) else none

/-- How long the read may wait. -/
def timeout : Nat :=
  match l.armed c with
  | some deadline => min c.idle (deadline - l.now)
  | none => c.idle

/-- The command that is incomplete. -/
def incomplete : Option Nat := if inProgress l.parser then some l.completed else none

def waited (until_ : Nat) : List Wait := ⟨l.now, until_, l.incomplete⟩ :: l.waits

/-- The loop after `data` was read at `arrival` and its events were handled until `now`. -/
def received (data : Octets) (arrival now : Nat) : Loop :=
  { l with
    now := now,
    parser := (l.parser.feed data).events.2,
    deadline := l.armed c,
    completed := l.completed + ((l.parser.feed data).events.1.filter completes).length,
    waits := l.waited arrival }

/-- The loop after nothing came in time. -/
def expired : Loop :=
  { l with
    now := l.now + l.timeout c,
    deadline := l.armed c,
    waits := l.waited (l.now + l.timeout c),
    ending := some (if inProgress l.parser then .incomplete else .idle) }

end Loop

/-- A loop that has run.  Before the timeout the client sends something, and handlers take
any time or end the session, or it is gone, or it sends nothing.  Every read that leaves the
loop running meets `C`. -/
inductive RanTo (c : Timeouts) (C : Loop → Octets → Prop) (limits : Limits) : Loop → Prop
  | start (now : Nat) : RanTo c C limits (.start now limits)
  | received {l : Loop} (h : RanTo c C limits l) (hopen : l.ending = none) (data : Octets)
      (arrival now : Nat) (hne : data ≠ []) (hfrom : l.now ≤ arrival)
      (hto : arrival ≤ l.now + l.timeout c) (hnow : arrival ≤ now) (hC : C l data) :
      RanTo c C limits (l.received c data arrival now)
  | closed {l : Loop} (h : RanTo c C limits l) (hopen : l.ending = none) (data : Octets)
      (arrival now : Nat) (hfrom : l.now ≤ arrival) (hto : arrival ≤ l.now + l.timeout c)
      (hnow : arrival ≤ now) :
      RanTo c C limits { l.received c data arrival now with ending := some .closed }
  | expired {l : Loop} (h : RanTo c C limits l) (hopen : l.ending = none) :
      RanTo c C limits (l.expired c)

/-! ## Commands and reads -/

theorem consumeLine_completes (limits : Limits) (pending : Option Parser.Pending) (line : Octets) :
    completes (consumeLine limits pending line).1 = true ∨
      ∃ p n, (consumeLine limits pending line).2 = .literal p n := by
  have hbuilt : ∀ p, completes (buildCommand p) = true := by
    intro p
    unfold buildCommand
    split
    · rfl
    · rfl
    · rfl
    · split <;> rfl
    · rfl
  simp only [consumeLine]
  split
  · exact .inl rfl
  · split
    · split
      · exact .inl rfl
      · split
        · exact .inl rfl
        · exact .inr ⟨_, _, rfl⟩
    · split
      · exact .inl rfl
      · exact .inl (hbuilt _)

/-- Whatever a parser holds, it completes a command or still has one under way. -/
theorem drain_completes (limits : Limits) (mode : Mode) (buf : Octets)
    (h : buf ≠ [] ∨ mode ≠ .line none) :
    ((reader limits).drain mode buf).events.any completes = true ∨
      inProgress ⟨limits, ((reader limits).drain mode buf).state,
        ((reader limits).drain mode buf).rest⟩ = true := by
  have hbusy : ∀ (p : CommandParser), p.buf ≠ [] ∨ p.mode ≠ .line none → inProgress p = true := by
    intro p hp
    unfold inProgress
    cases hbuf : p.buf with
    | cons => rfl
    | nil =>
      have hmode := hp.resolve_left (not_not.mpr hbuf)
      split
      · rename_i hnone
        exact absurd hnone hmode
      · rfl
  induction mode, buf using (reader limits).drain_induction with
  | hwait mode buf hw =>
    rw [Incremental.Reader.drain_wait hw]
    exact .inr (hbusy _ h)
  | hhalt mode buf evs mode' rest hh =>
    obtain ⟨_, rfl, _⟩ := next_halt_cases hh
    rw [Incremental.Reader.drain_halt hh]
    exact .inl rfl
  | htake mode buf evs mode' rest ht ih =>
    rw [Incremental.Reader.drain_take ht]
    have hrest : rest ≠ [] ∨ mode' ≠ .line none →
        (((reader limits).drain mode' rest).after evs).events.any completes = true ∨
          inProgress ⟨limits, ((reader limits).drain mode' rest).state,
            ((reader limits).drain mode' rest).rest⟩ = true := by
      intro hbusy
      refine (ih hbusy).imp (fun hany => ?_) id
      show (evs ++ _).any completes = true
      rw [List.any_append, hany, Bool.or_true]
    rcases next_take_cases ht with ⟨p, data, _, _, _, rfl⟩ | ⟨p, raw, _, _, _, rfl, rfl⟩
    · exact hrest (.inr nofun)
    · rcases consumeLine_completes limits p (stripCr raw) with hdone | ⟨q, n, hliteral⟩
      · refine .inl ?_
        show ([_] ++ _).any completes = true
        rw [List.any_append, List.any_cons, hdone]
        rfl
      · rw [hliteral] at hrest ⊢
        exact hrest (.inr nofun)

/-! ## How long the loop waits -/

/-- No wait with a command incomplete goes on after the deadline of any wait with that
command incomplete. -/
def WaitsBounded (c : Timeouts) (l : Loop) : Prop :=
  ∀ w ∈ l.waits, ∀ k, w.command = some k → ∀ first ∈ l.waits, first.command = some k →
    w.ended ≤ max w.began (first.began + c.assembly)

/-- What the waits so far have to do with the deadline. -/
structure Loop.Timed (c : Timeouts) (l : Loop) : Prop where
  past : ∀ w ∈ l.waits, w.began ≤ l.now ∧ w.ended ≤ l.now
  numbered : ∀ w ∈ l.waits, ∀ k, w.command = some k → k ≤ l.completed
  idle : inProgress l.parser = false → ∀ w ∈ l.waits, w.command ≠ some l.completed
  unarmed : l.deadline = none → ∀ w ∈ l.waits, w.command ≠ some l.completed
  soon : ∀ d, l.deadline = some d → d ≤ l.now + c.assembly
  kept : ∀ d, l.deadline = some d → ∀ w ∈ l.waits, w.command = some l.completed →
    d ≤ w.began + c.assembly
  bounded : WaitsBounded c l

section Bounds

variable {c : Timeouts} {l : Loop} {limits : Limits} {C : Loop → Octets → Prop}

theorem Loop.timeout_le {d : Nat} (h : l.armed c = some d) : l.timeout c ≤ d - l.now := by
  rw [Loop.timeout, h]
  exact Nat.min_le_right ..

/-- The deadline of a wait is no later than that of any wait with the same command. -/
theorem Loop.Timed.armed (h : l.Timed c) {d : Nat} (hd : l.armed c = some d) :
    inProgress l.parser = true ∧ d ≤ l.now + c.assembly ∧
      ∀ w ∈ l.waits, w.command = some l.completed → d ≤ w.began + c.assembly := by
  rw [Loop.armed] at hd
  split at hd
  · rename_i hprogress
    cases hdeadline : l.deadline with
    | none =>
      rw [hdeadline] at hd
      cases hd
      exact ⟨hprogress, Nat.le_refl _, fun w hw hcommand =>
        absurd hcommand (h.unarmed hdeadline w hw)⟩
    | some d' =>
      rw [hdeadline] at hd
      cases hd
      exact ⟨hprogress, h.soon d' hdeadline, h.kept d' hdeadline⟩
  · cases hd

theorem Loop.armed_of_inProgress (h : inProgress l.parser = true) : ∃ d, l.armed c = some d := by
  rw [Loop.armed, if_pos h]
  exact ⟨_, rfl⟩

theorem Loop.incomplete_eq {k : Nat} (h : l.incomplete = some k) :
    inProgress l.parser = true ∧ k = l.completed := by
  rw [Loop.incomplete] at h
  split at h
  · rename_i hprogress
    cases h
    exact ⟨hprogress, rfl⟩
  · cases h

/-- One more wait, until `until_`, is bounded too. -/
theorem Loop.Timed.waited (h : l.Timed c) {until_ : Nat} (hfrom : l.now ≤ until_)
    (hto : until_ ≤ l.now + l.timeout c) :
    ∀ w ∈ l.waited until_, ∀ k, w.command = some k → ∀ first ∈ l.waited until_,
      first.command = some k → w.ended ≤ max w.began (first.began + c.assembly) := by
  intro w hw k hk first hfirst hk'
  rcases List.mem_cons.mp hw with rfl | hw
  · obtain ⟨hprogress, rfl⟩ := Loop.incomplete_eq hk
    obtain ⟨d, hd⟩ := Loop.armed_of_inProgress (c := c) hprogress
    obtain ⟨_, hsoon, hkept⟩ := h.armed hd
    have htimeout := Loop.timeout_le hd
    show until_ ≤ max l.now (first.began + c.assembly)
    rcases List.mem_cons.mp hfirst with rfl | hfirst
    · show until_ ≤ max l.now (l.now + c.assembly)
      omega
    · have hle := hkept first hfirst hk'
      omega
  · rcases List.mem_cons.mp hfirst with rfl | hfirst
    · have hle := (h.past w hw).2
      show w.ended ≤ max w.began (l.now + c.assembly)
      omega
    · exact h.bounded w hw k hk first hfirst hk'

theorem Loop.Timed.received (h : l.Timed c) {data : Octets} {arrival now : Nat} (hne : data ≠ [])
    (hfrom : l.now ≤ arrival) (hto : arrival ≤ l.now + l.timeout c) (hnow : arrival ≤ now) :
    (l.received c data arrival now).Timed c := by
  have hnumber : ∀ w ∈ l.waited arrival, ∀ k, w.command = some k → k ≤ l.completed := by
    intro w hw k hk
    rcases List.mem_cons.mp hw with rfl | hw
    · rw [(Loop.incomplete_eq hk).2]
    · exact h.numbered w hw k hk
  have hgrown : l.completed ≤ (l.received c data arrival now).completed := Nat.le_add_right _ _
  constructor
  · intro w hw
    show w.began ≤ now ∧ w.ended ≤ now
    rcases List.mem_cons.mp hw with rfl | hw
    · exact ⟨Nat.le_trans hfrom hnow, hnow⟩
    · have hpast := h.past w hw
      omega
  · intro w hw k hk
    exact Nat.le_trans (hnumber w hw k hk) hgrown
  · intro hidle w hw hcommand
    have hle := hnumber w hw _ hcommand
    have hdone : (l.parser.feed data).events.1.any completes = true := by
      have hbuf : l.parser.buf ++ data ≠ [] := List.append_ne_nil_of_right_ne_nil _ hne
      rcases drain_completes l.parser.limits l.parser.mode (l.parser.buf ++ data) (.inl hbuf) with
        hdone | hbusy
      · exact hdone
      · have hidle : inProgress (l.parser.feed data).events.2 = false := hidle
        exact absurd (hbusy.symm.trans hidle) nofun
    obtain ⟨e, he, hcompletes⟩ := List.any_eq_true.mp hdone
    have hpos : 0 < ((l.parser.feed data).events.1.filter completes).length :=
      List.length_pos_of_mem (List.mem_filter.mpr ⟨he, hcompletes⟩)
    have hle : l.completed + ((l.parser.feed data).events.1.filter completes).length ≤ l.completed :=
      hle
    omega
  · intro hunarmed w hw hcommand
    have hidle : inProgress l.parser = false := by
      cases hprogress : inProgress l.parser with
      | false => rfl
      | true =>
        obtain ⟨d, hd⟩ := Loop.armed_of_inProgress (c := c) hprogress
        have hnone : l.armed c = none := hunarmed
        rw [hnone] at hd
        cases hd
    have hle := hnumber w hw _ hcommand
    have hsame : l.completed = (l.received c data arrival now).completed := by omega
    rcases List.mem_cons.mp hw with rfl | hw
    · rw [(Loop.incomplete_eq hcommand).1] at hidle
      cases hidle
    · exact h.idle hidle w hw (hcommand.trans (congrArg some hsame.symm))
  · intro d hd
    obtain ⟨_, hsoon, _⟩ := h.armed hd
    show d ≤ now + c.assembly
    omega
  · intro d hd w hw hcommand
    have hle := hnumber w hw _ hcommand
    have hsame : l.completed = (l.received c data arrival now).completed := by omega
    obtain ⟨_, hsoon, hkept⟩ := h.armed hd
    rcases List.mem_cons.mp hw with rfl | hw
    · exact hsoon
    · exact hkept w hw (hcommand.trans (congrArg some hsame.symm))
  · exact h.waited hfrom hto

theorem RanTo.timed (h : RanTo c C limits l) : WaitsBounded c l ∧ (l.ending = none → l.Timed c) := by
  induction h with
  | start now =>
    have hnone : ∀ w : Wait, w ∉ (Loop.start now limits).waits := fun w => List.not_mem_nil
    refine ⟨fun w hw => absurd hw (hnone w), fun _ => ?_⟩
    constructor
    · exact fun w hw => absurd hw (hnone w)
    · exact fun w hw => absurd hw (hnone w)
    · exact fun _ w hw => absurd hw (hnone w)
    · exact fun _ w hw => absurd hw (hnone w)
    · exact fun d hd => by cases hd
    · exact fun d hd => by cases hd
    · exact fun w hw => absurd hw (hnone w)
  | received _ hopen data arrival now hne hfrom hto hnow _ ih =>
    have hnext := (ih.2 hopen).received hne hfrom hto hnow
    exact ⟨hnext.bounded, fun _ => hnext⟩
  | closed _ hopen data arrival now hfrom hto hnow ih =>
    exact ⟨(ih.2 hopen).waited hfrom hto, nofun⟩
  | @expired l _ hopen ih =>
    have hbounded := (ih.2 hopen).waited (Nat.le_add_right l.now (l.timeout c)) (Nat.le_refl _)
    exact ⟨hbounded, nofun⟩

/-! ## Whose deadline it is -/

/-- The read does not complete a command and leave the next one incomplete while a deadline
stands. -/
def Separates (c : Timeouts) (l : Loop) (data : Octets) : Prop :=
  l.armed c = none ∨ (∀ e ∈ (l.parser.feed data).events.1, completes e = false) ∨
    inProgress (l.parser.feed data).events.2 = false

/-- The deadline was set at a wait with the command that is incomplete now. -/
def Loop.Dated (c : Timeouts) (l : Loop) : Prop :=
  ∀ d, l.deadline = some d → inProgress l.parser = true →
    ∃ w ∈ l.waits, w.command = some l.completed ∧ w.began + c.assembly = d

/-- The deadline of a wait was set at that wait or an earlier one with the same command. -/
theorem Loop.Dated.armed (h : l.Dated c) {d : Nat} (hd : l.armed c = some d) (until_ : Nat) :
    ∃ w ∈ l.waited until_, w.command = some l.completed ∧ w.began + c.assembly = d := by
  rw [Loop.armed] at hd
  split at hd
  · rename_i hprogress
    cases hdeadline : l.deadline with
    | none =>
      rw [hdeadline] at hd
      cases hd
      exact ⟨_, List.mem_cons_self .., if_pos hprogress, rfl⟩
    | some d' =>
      rw [hdeadline] at hd
      cases hd
      obtain ⟨w, hw, hcommand, hbegan⟩ := h d' hdeadline hprogress
      exact ⟨w, List.mem_cons_of_mem _ hw, hcommand, hbegan⟩
  · cases hd

theorem RanTo.dated (h : RanTo c (Separates c) limits l) (hopen : l.ending = none) : l.Dated c := by
  induction h with
  | start now => exact fun d hd => by cases hd
  | @received l _ hopen data arrival now _ _ _ _ hC ih =>
    intro d hd hprogress
    have hd : l.armed c = some d := hd
    obtain ⟨w, hw, hcommand, hbegan⟩ := (ih hopen).armed hd arrival
    refine ⟨w, hw, ?_, hbegan⟩
    rcases hC with hnone | hsame | hidle
    · rw [hnone] at hd
      cases hd
    · have hzero : (l.parser.feed data).events.1.filter completes = [] := by
        apply List.filter_eq_nil_iff.mpr
        intro e he hcompletes
        rw [hsame e he] at hcompletes
        cases hcompletes
      show w.command = some (l.completed + _)
      rw [hzero]
      exact hcommand
    · have hprogress : inProgress (l.parser.feed data).events.2 = true := hprogress
      rw [hidle] at hprogress
      cases hprogress
  | closed => cases hopen
  | expired => cases hopen

/-- The deadline is that of a command: a command is cut off only when it has been
incomplete for that long, and it is not waited for any longer. -/
structure DeadlineKept (c : Timeouts) (l : Loop) : Prop where
  cutOff : l.ending = some .incomplete →
    ∃ w ∈ l.waits, w.command = some l.completed ∧ w.began + c.assembly ≤ l.now
  bounded : WaitsBounded c l

/-- Where no read completes a command and begins the next while a deadline stands, and the
idle timeout is not the shorter one, the deadline is that of a command. -/
theorem deadlines_kept (hidle : c.assembly ≤ c.idle) (h : RanTo c (Separates c) limits l) :
    DeadlineKept c l := by
  refine ⟨fun hending => ?_, h.timed.1⟩
  cases h with
  | start => cases hending
  | received _ hopen =>
    have hending : _ = some Ending.incomplete := hopen.symm.trans hending
    cases hending
  | closed => cases hending
  | @expired l hran hopen =>
    cases hprogress : inProgress l.parser with
    | false =>
      have hending : some (if inProgress l.parser then Ending.incomplete else .idle) =
          some .incomplete := hending
      rw [hprogress] at hending
      cases hending
    | true =>
      obtain ⟨d, hd⟩ := Loop.armed_of_inProgress (c := c) hprogress
      obtain ⟨_, hsoon, _⟩ := ((hran.timed).2 hopen).armed hd
      obtain ⟨w, hw, hcommand, hbegan⟩ := (hran.dated hopen).armed hd (l.now + l.timeout c)
      refine ⟨w, hw, hcommand, ?_⟩
      have htimeout : l.timeout c = min c.idle (d - l.now) := by
        rw [Loop.timeout, hd]
      show w.began + c.assembly ≤ l.now + l.timeout c
      rw [htimeout]
      omega

end Bounds

/-! ## Runs -/

def minutes : Timeouts := ⟨1800, 60⟩

/-- A client that begins a command and stops. -/
theorem deadlines_kept_stalled : ∃ l, l.ending = some .incomplete ∧ DeadlineKept minutes l := by
  let l₁ := (Loop.start 0 {}).received minutes [0x61] 5 5
  have hran : RanTo minutes (Separates minutes) {} l₁ :=
    .received (.start 0) rfl [0x61] 5 5 nofun (by decide) (by decide) (by decide) (.inl rfl)
  exact ⟨l₁.expired minutes, rfl, deadlines_kept (by decide) (.expired hran rfl)⟩

/-- A client sends part of a command at 0 and its rest with the first octet of the next
command at 59.  It is cut off at 60, when the next command has been incomplete for 1. -/
theorem deadline_of_last_command : ∃ l, RanTo minutes (fun _ _ => True) {} l ∧
    l.ending = some .incomplete ∧ ¬ DeadlineKept minutes l := by
  let l₁ := (Loop.start 0 {}).received minutes (ascii "a NOOP") 0 0
  let l₂ := l₁.received minutes ([Octet.cr, Octet.lf] ++ ascii "b") 59 59
  have hran₁ : RanTo minutes (fun _ _ => True) {} l₁ :=
    .received (.start 0) rfl _ 0 0 nofun (by decide) (by decide) (by decide) trivial
  have hran₂ : RanTo minutes (fun _ _ => True) {} l₂ :=
    .received hran₁ rfl _ 59 59 nofun (by decide) (by decide) (by decide) trivial
  have hfacts : (l₂.expired minutes).ending = some .incomplete ∧
      (l₂.expired minutes).now = 60 ∧ (l₂.expired minutes).completed = 1 ∧
      (l₂.expired minutes).waits = [⟨59, 60, some 1⟩, ⟨0, 59, some 0⟩, ⟨0, 0, none⟩] := by
    decide +kernel
  obtain ⟨hending, hnow, hcompleted, hwaits⟩ := hfacts
  refine ⟨l₂.expired minutes, .expired hran₂ rfl, hending, fun hkept => ?_⟩
  obtain ⟨w, hw, hcommand, hlate⟩ := hkept.cutOff hending
  rw [hwaits] at hw
  rw [hnow] at hlate
  rw [hcompleted] at hcommand
  simp only [List.mem_cons, List.not_mem_nil, or_false] at hw
  rcases hw with rfl | rfl | rfl
  · exact absurd hlate (by decide)
  · cases hcommand
  · cases hcommand

end Imap
end ImapGateway
