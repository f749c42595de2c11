/-
How a stream is cut into chunks matters in one place only.

Before the end of a line is known its octets are counted with the carriage
return, and once it is known without it.  A line of exactly the allowed length is
refused when the stream is cut between its carriage return and its line feed.
-/
import ImapGateway.Parser.Machine
import Mathlib.Data.List.TakeWhile

namespace ImapGateway
namespace Parser

open Octet Incremental

variable {limits : Limits}

/-! ## Lines in the buffer -/

theorem dropWhile_lf_append {u r : Octets} (hu : lf ∉ u) :
    (u ++ lf :: r).dropWhile (· != lf) = lf :: r ∧ (u ++ lf :: r).takeWhile (· != lf) = u := by
  induction u with
  | nil => simp
  | cons ch u ih =>
    rw [List.mem_cons, not_or] at hu
    have hne : ch ≠ lf := Ne.symm hu.1
    obtain ⟨hd, ht⟩ := ih hu.2
    simp [hne, hd, ht]

/-- A buffer with a line feed is a line, the line feed and the rest. -/
theorem buf_eq_line {buf rest : Octets} {ch : UInt8}
    (h : buf.dropWhile (· != lf) = ch :: rest) :
    lf ∉ buf.takeWhile (· != lf) ∧ buf = buf.takeWhile (· != lf) ++ lf :: rest := by
  refine ⟨fun hmem => by simpa using List.mem_takeWhile_imp hmem, ?_⟩
  have hch : ch = lf := by
    have hp := List.head_dropWhile_not (l := buf) (fun ch => ch != lf)
      (by rw [h]; exact List.cons_ne_nil _ _)
    simpa [h] using hp
  conv_lhs => rw [← List.takeWhile_append_dropWhile (p := fun ch => ch != lf) (l := buf), h, hch]

theorem lf_notMem_of_dropWhile {buf : Octets} (h : buf.dropWhile (· != lf) = []) : lf ∉ buf := by
  intro hmem
  have hall := List.dropWhile_eq_nil_iff.mp h lf hmem
  simp at hall

/-- A complete line is read as a line whatever comes behind it. -/
theorem next_line {pending : Option Pending} {u : Octets} (hu : lf ∉ u) (r : Octets) :
    next limits (.line pending) (u ++ lf :: r) =
      if limits.maxLine < (stripCr u).length then .halt [tooLong] (.line none) r
      else .take [(consumeLine limits pending (stripCr u)).1]
        (consumeLine limits pending (stripCr u)).2 r := by
  obtain ⟨hd, ht⟩ := dropWhile_lf_append (r := r) hu
  simp only [next, hd, ht]

theorem next_unended {pending : Option Pending} {buf : Octets} (h : lf ∉ buf) :
    next limits (.line pending) buf =
      if limits.maxLine < buf.length then .halt [tooLong] (.line none) [] else .wait := by
  have hd : buf.dropWhile (· != lf) = [] := by
    refine List.dropWhile_eq_nil_iff.mpr fun ch hch => ?_
    have hne : ch ≠ lf := fun he => h (he ▸ hch)
    simpa using hne
  simp only [next, hd]

theorem next_literal {pending : Pending} {n : Nat} {u : Octets} (hu : u.length = n) (r : Octets) :
    next limits (.literal pending n) (u ++ r) = .take []
      (.line (some { pending with pieces := pending.pieces ++ [.literal u] })) r := by
  subst hu
  have hlen : ¬(u ++ r).length < u.length := by
    rw [List.length_append]
    omega
  simp only [next, if_neg hlen, List.take_left, List.drop_left]

/-! ## Steps -/

/-- What a round does when it takes a part: a literal that is complete, or a line. -/
theorem next_take_cases {mode mode' : Mode} {buf rest : Octets} {evs : List Event}
    (h : next limits mode buf = .take evs mode' rest) :
    (∃ pending data, mode = .literal pending data.length ∧ buf = data ++ rest ∧ evs = [] ∧
      mode' = .line (some { pending with pieces := pending.pieces ++ [.literal data] })) ∨
    ∃ pending raw, mode = .line pending ∧ buf = raw ++ lf :: rest ∧ lf ∉ raw ∧
      evs = [(consumeLine limits pending (stripCr raw)).1] ∧
      mode' = (consumeLine limits pending (stripCr raw)).2 := by
  cases mode with
  | literal pending n =>
    by_cases hlen : buf.length < n
    · simp only [next, if_pos hlen] at h
      cases h
    · simp only [next, if_neg hlen] at h
      cases h
      have htake : (buf.take n).length = n := by
        rw [List.length_take]
        omega
      exact .inl ⟨pending, buf.take n, by rw [htake], (List.take_append_drop n buf).symm, rfl, rfl⟩
  | line pending =>
    cases hd : buf.dropWhile (· != lf) with
    | nil =>
      rw [next_unended (lf_notMem_of_dropWhile hd)] at h
      split at h <;> cases h
    | cons ch tail =>
      obtain ⟨hu, heq⟩ := buf_eq_line hd
      rw [heq, next_line hu] at h
      split at h
      · cases h
      · cases h
        exact .inr ⟨pending, _, rfl, heq, hu, rfl, rfl⟩

/-- A round halts only at a line that is too long. -/
theorem next_halt_cases {mode mode' : Mode} {buf rest : Octets} {evs : List Event}
    (h : next limits mode buf = .halt evs mode' rest) :
    (∃ pending, mode = .line pending) ∧ evs = [tooLong] ∧ mode' = .line none := by
  cases mode with
  | literal pending n =>
    simp only [next] at h
    split at h <;> cases h
  | line pending =>
    simp only [next] at h
    split at h
    · split at h <;> cases h
      exact ⟨⟨pending, rfl⟩, rfl, rfl⟩
    · split at h <;> cases h
      exact ⟨⟨pending, rfl⟩, rfl, rfl⟩

theorem reader_local : Reader.Local (reader limits) := by
  intro mode buf evs mode' rest h
  have h : next limits mode buf = .take evs mode' rest := h
  cases mode with
  | literal pending n =>
    by_cases hlen : buf.length < n
    · simp only [next, if_pos hlen] at h
      cases h
    · have htake : (buf.take n).length = n := by
        rw [List.length_take]
        omega
      have heq : next limits (.literal pending n) (buf.take n ++ buf.drop n) = _ :=
        next_literal htake _
      rw [List.take_append_drop, h] at heq
      cases heq
      refine ⟨buf.take n, (List.take_append_drop n buf).symm, fun r' => ?_⟩
      show next limits (.literal pending n) _ = _
      exact next_literal htake r'
  | line pending =>
    cases hd : buf.dropWhile (· != lf) with
    | nil =>
      rw [next_unended (lf_notMem_of_dropWhile hd)] at h
      split at h <;> cases h
    | cons ch tail =>
      obtain ⟨hu, heq⟩ := buf_eq_line hd
      rw [heq, next_line hu] at h
      split at h
      · cases h
      · rename_i hlen
        cases h
        refine ⟨buf.takeWhile (· != lf) ++ [lf], ?_, fun r' => ?_⟩
        · rw [List.append_assoc]
          exact heq
        · rw [List.append_assoc]
          show next limits (.line pending) (_ ++ lf :: r') = _
          rw [next_line hu, if_neg hlen]

/-- A line of exactly the allowed length, its carriage return and its line feed are
next. -/
def AtLimit (limits : Limits) (mode : Mode) (buf : Octets) : Prop :=
  ∃ pending raw rest, mode = .line pending ∧ buf = raw ++ cr :: lf :: rest ∧ lf ∉ raw ∧
    raw.length = limits.maxLine

/-- The parser never comes to such a line. -/
def Unlimited (limits : Limits) (mode : Mode) (buf : Octets) : Prop :=
  ∀ evs mode' buf', (reader limits).Comes mode buf evs mode' buf' → ¬AtLimit limits mode' buf'

/-- A line too long without its end is too long with it, unless it is at the limit. -/
theorem halt_unended {pending : Option Pending} {b c : Octets} (hlf : lf ∉ b)
    (hlong : limits.maxLine < b.length) (hnot : ¬AtLimit limits (.line pending) (b ++ c)) :
    ∃ mode' r', next limits (.line pending) (b ++ c) = .halt [tooLong] mode' r' := by
  cases hd : c.dropWhile (· != lf) with
  | nil =>
    have hbc : lf ∉ b ++ c := by
      rw [List.mem_append, not_or]
      exact ⟨hlf, lf_notMem_of_dropWhile hd⟩
    refine ⟨_, _, (next_unended hbc).trans (if_pos ?_)⟩
    rw [List.length_append]
    omega
  | cons ch rest =>
    obtain ⟨hu, heq⟩ := buf_eq_line hd
    let raw := b ++ c.takeWhile (· != lf)
    have hraw : lf ∉ raw := by
      rw [List.mem_append, not_or]
      exact ⟨hlf, hu⟩
    have hbuf : b ++ c = raw ++ lf :: rest := by
      conv_lhs => rw [heq, ← List.append_assoc]
    have hle : b.length ≤ raw.length := by
      rw [List.length_append]
      omega
    rw [hbuf, next_line hraw]
    refine ⟨_, _, if_pos ?_⟩
    by_contra hshort
    rw [stripCr] at hshort
    split at hshort
    · rename_i hlast
      obtain ⟨init, hinit⟩ := List.getLast?_eq_some_iff.mp hlast
      refine hnot ⟨pending, init, rest, rfl, ?_, ?_, ?_⟩
      · rw [hbuf, hinit, List.append_assoc]
        rfl
      · intro hmem
        exact hraw (hinit ▸ List.mem_append_left _ hmem)
      · rw [hinit, List.length_append, List.length_singleton] at hle
        rw [hinit, List.dropLast_concat] at hshort
        omega
    · omega

theorem reader_steady : Reader.Steady (reader limits) (Unlimited limits) where
  takes := reader_local
  keeps := fun hP h evs mode' buf' hc => hP _ mode' buf' (.step h hc)
  halt := by
    intro mode b c evs mode' r hP h
    have hnot := hP [] mode (b ++ c) (.refl _ _)
    have h : next limits mode b = .halt evs mode' r := h
    cases mode with
    | literal pending n =>
      simp only [next] at h
      split at h <;> cases h
    | line pending =>
      cases hd : b.dropWhile (· != lf) with
      | nil =>
        have hlf := lf_notMem_of_dropWhile hd
        rw [next_unended hlf] at h
        split at h
        · rename_i hlong
          cases h
          exact halt_unended hlf hlong hnot
        · cases h
      | cons ch tail =>
        obtain ⟨hu, heq⟩ := buf_eq_line hd
        rw [heq, next_line hu] at h
        split at h
        · rename_i hlong
          injection h with he _ _
          subst he
          refine ⟨.line none, tail ++ c, ?_⟩
          show next limits (.line pending) (b ++ c) = _
          rw [heq, List.append_assoc, List.cons_append, next_line hu, if_pos hlong]
        · cases h

/-! ## Fatal errors -/

theorem buildCommand_fatal (pending : Pending) : (buildCommand pending).fatal = false := by
  rw [buildCommand]
  split
  · rfl
  · rfl
  · rfl
  · split <;> rfl
  · rfl

/-- A line that is not too long yields no fatal error. -/
theorem consumeLine_fatal (pending : Option Pending) (line : Octets) :
    (consumeLine limits pending line).1.fatal = false := by
  simp only [consumeLine]
  split
  · rfl
  · split
    · split
      · rfl
      · split <;> rfl
    · split
      · rfl
      · exact buildCommand_fatal _

theorem next_take_fatal {mode mode' : Mode} {buf rest : Octets} {evs : List Event}
    (h : next limits mode buf = .take evs mode' rest) : ∀ e ∈ evs, e.fatal = false := by
  intro e he
  rcases next_take_cases h with ⟨_, _, _, _, rfl, _⟩ | ⟨pending, raw, _, _, _, rfl, _⟩
  · cases he
  · rw [List.mem_singleton.mp he]
    exact consumeLine_fatal pending (stripCr raw)

/-- Draining yields events that are not fatal, and a fatal one behind them if it
halts. -/
theorem drain_events (limits : Limits) (mode : Mode) (buf : Octets) :
    ∃ evs, (∀ e ∈ evs, e.fatal = false) ∧ ((reader limits).drain mode buf).events =
      evs ++ (if ((reader limits).drain mode buf).halted then [tooLong] else []) := by
  induction mode, buf using (reader limits).drain_induction with
  | hwait mode buf h =>
    rw [Reader.drain_wait h]
    exact ⟨[], fun e he => absurd he List.not_mem_nil, rfl⟩
  | hhalt mode buf evs mode' rest h =>
    rw [Reader.drain_halt h, (next_halt_cases h).2.1]
    exact ⟨[], fun e he => absurd he List.not_mem_nil, rfl⟩
  | htake mode buf evs mode' rest h ih =>
    obtain ⟨evs', hnot, heq⟩ := ih
    rw [Reader.drain_take h]
    refine ⟨evs ++ evs', fun e he => ?_, ?_⟩
    · rcases List.mem_append.mp he with he | he
      · exact next_take_fatal h e he
      · exact hnot e he
    · show evs ++ _ = _
      rw [heq, List.append_assoc]
      rfl

theorem comes_fatal {mode mode' : Mode} {buf buf' : Octets} {evs : List Event}
    (h : (reader limits).Comes mode buf evs mode' buf') : ∀ e ∈ evs, e.fatal = false := by
  induction h with
  | refl => exact fun e he => absurd he List.not_mem_nil
  | step hnext _ ih =>
    intro e he
    rcases List.mem_append.mp he with he | he
    · exact next_take_fatal hnext e he
    · exact ih e he

theorem uptoFatal_append {evs es : List Event} (h : ∀ e ∈ evs, e.fatal = false) :
    uptoFatal (evs ++ es) = evs ++ uptoFatal es := by
  induction evs with
  | nil => rfl
  | cons e evs ih =>
    have he := h e (List.mem_cons_self ..)
    rw [List.cons_append, uptoFatal, he, ih fun e' he' => h e' (List.mem_cons_of_mem _ he')]
    rfl

/-- Up to the first fatal error the parser is its reader. -/
theorem uptoFatal_feedAll (p : CommandParser) (cs : List Octets) :
    uptoFatal (p.feedAll cs) = (reader p.limits).run p.mode p.buf cs := by
  induction cs generalizing p with
  | nil => rfl
  | cons c cs ih =>
    obtain ⟨evs, hnot, heq⟩ := drain_events p.limits p.mode (p.buf ++ c)
    have hfeed : (p.feed c).events.1 = ((reader p.limits).drain p.mode (p.buf ++ c)).events := rfl
    rw [CommandParser.feedAll, hfeed, Reader.run]
    cases hh : ((reader p.limits).drain p.mode (p.buf ++ c)).halted with
    | true =>
      rw [hh, if_pos rfl] at heq
      rw [heq, List.append_assoc, uptoFatal_append hnot]
      rfl
    | false =>
      rw [hh, if_neg Bool.false_ne_true, List.append_nil] at heq
      rw [heq, uptoFatal_append hnot, ih]
      rfl

/-! ## Cutting the stream -/

/-- A parser just made. -/
def fresh : Mode := .line none

theorem run_of_unlimited {stream : Octets} (h : Unlimited limits fresh stream) {cs : List Octets}
    (hcs : cs.flatten = stream) :
    uptoFatal ((CommandParser.new limits).feedAll cs) =
      ((reader limits).drain fresh stream).events := by
  have hwait : (reader limits).next fresh [] = .wait := by
    show next limits (.line none) [] = _
    rw [next_unended List.not_mem_nil, if_neg (by simp)]
  subst hcs
  rw [uptoFatal_feedAll]
  exact Reader.Steady.run_eq_drain reader_steady hwait h

/-- A stream is cut before the line feed of a line at the limit. -/
theorem halts_at_limit {stream : Octets} {evs : List Event} {mode : Mode} {buf : Octets}
    (hc : (reader limits).Comes fresh stream evs mode buf) (hl : AtLimit limits mode buf) :
    ∃ a b, a ++ b = stream ∧
      uptoFatal ((CommandParser.new limits).feedAll [a, b]) = evs ++ [tooLong] ∧
      ∃ e es, e.fatal = false ∧
        uptoFatal ((CommandParser.new limits).feedAll [stream]) = evs ++ e :: es := by
  obtain ⟨pending, raw, rest, rfl, rfl, hraw, hlen⟩ := hl
  obtain ⟨u, rfl, hdrain⟩ := hc.drain reader_local
  have hfatal := comes_fatal hc
  have hcr : lf ∉ raw ++ [cr] := by
    rw [List.mem_append, not_or]
    exact ⟨hraw, by decide⟩
  refine ⟨u ++ (raw ++ [cr]), lf :: rest, by simp, ?_, ?_⟩
  · have hhalt : (reader limits).next (.line pending) (raw ++ [cr]) =
        .halt [tooLong] (.line none) [] := by
      show next limits (.line pending) (raw ++ [cr]) = _
      rw [next_unended hcr, if_pos]
      rw [List.length_append, List.length_singleton]
      omega
    have heq := hdrain (raw ++ [cr])
    rw [Reader.drain_halt hhalt] at heq
    have heq : (reader limits).drain fresh ([] ++ (u ++ (raw ++ [cr]))) = _ := heq
    rw [uptoFatal_feedAll]
    show (reader limits).run fresh [] _ = _
    rw [Reader.run, heq]
    rfl
  · have hline : raw ++ cr :: lf :: rest = (raw ++ [cr]) ++ lf :: rest := by simp
    have hstrip : stripCr (raw ++ [cr]) = raw := by
      rw [stripCr, List.getLast?_concat, if_pos rfl, List.dropLast_concat]
    have htake : (reader limits).next (.line pending) (raw ++ cr :: lf :: rest) =
        .take [(consumeLine limits pending raw).1] (consumeLine limits pending raw).2 rest := by
      show next limits (.line pending) (raw ++ cr :: lf :: rest) = _
      rw [hline, next_line hcr, hstrip, if_neg (by omega)]
    have heq := hdrain (raw ++ cr :: lf :: rest)
    rw [Reader.drain_take htake] at heq
    refine ⟨(consumeLine limits pending raw).1,
      ((reader limits).drain (consumeLine limits pending raw).2 rest).events,
      consumeLine_fatal pending raw, ?_⟩
    rw [uptoFatal_feedAll]
    show (reader limits).run fresh [] _ = _
    rw [Reader.run, List.nil_append, heq, Reader.run]
    simp only [Drained.after, List.append_nil, ite_self, List.singleton_append]

/-- It does not matter how a stream is cut, if and only if the parser comes to no
line of exactly the allowed length before its carriage return and line feed. -/
theorem chunking_matters_at_limit (limits : Limits) (stream : Octets) :
    (∀ cs cs' : List Octets, cs.flatten = stream → cs'.flatten = stream →
      uptoFatal ((CommandParser.new limits).feedAll cs) =
        uptoFatal ((CommandParser.new limits).feedAll cs')) ↔
    Unlimited limits fresh stream := by
  refine ⟨fun h evs mode buf hc hl => ?_, fun h cs cs' hcs hcs' => ?_⟩
  · obtain ⟨a, b, hab, hhalt, e, es, he, hwhole⟩ := halts_at_limit hc hl
    have heq := h [a, b] [stream] (by simpa using hab) (by simp)
    rw [hhalt, hwhole] at heq
    have hte := (List.cons.inj (List.append_cancel_left heq)).1
    rw [← hte] at he
    cases he
  · rw [run_of_unlimited h hcs, run_of_unlimited h hcs']

/-- `A NOOP` with at most six octets a line: it is accepted in one piece, and
refused when it is cut before its line feed. -/
theorem chunking_matters : ¬∀ (limits : Limits) (cs cs' : List Octets), cs.flatten = cs'.flatten →
    uptoFatal ((CommandParser.new limits).feedAll cs) =
      uptoFatal ((CommandParser.new limits).feedAll cs') := by
  intro h
  have heq := h { maxLine := 6 } [[65, 32, 78, 79, 79, 80, cr], [lf]]
    [[65, 32, 78, 79, 79, 80, cr, lf]] rfl
  have hcut : ((CommandParser.new { maxLine := 6 }).feedAll
      [[65, 32, 78, 79, 79, 80, cr], [lf]]).any Event.fatal = true := by decide
  have hwhole : ((CommandParser.new { maxLine := 6 }).feedAll
      [[65, 32, 78, 79, 79, 80, cr, lf]]).any Event.fatal = false := by decide +kernel
  have hany : ∀ es : List Event, (uptoFatal es).any Event.fatal = es.any Event.fatal := by
    intro es
    induction es with
    | nil => rfl
    | cons e es ih =>
      rw [uptoFatal]
      split
      · rename_i he
        simp [he]
      · rw [List.any_cons, List.any_cons, ih]
  rw [← hany, heq, hany, hwhole] at hcut
  cases hcut

end Parser
end ImapGateway
