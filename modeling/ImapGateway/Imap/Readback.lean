/-
What a connection writes can be read back.

Whatever octets the clients send, however these are cut, whatever upstream answers, and however
the connections and the listings take turns: a client that knows nothing but the framing of
IMAP takes the stream of a connection apart where it was put together, so that no text of a
message, of an error or of a command is ever taken for a response.
-/
import ImapGateway.Imap.Connection
import ImapGateway.Imap.Transcript
import ImapGateway.Imap.Runs

namespace ImapGateway
namespace Imap

open ImapGateway.Parser Async
open Mailbox hiding upper

variable {env : Runtime} {cfg : Config} {txt : TextConfig} {limits : Limits} {t : Tid} {n : Nat}

/-! ## The parser of a connection -/

/-- The parser has been fed since it was new. -/
structure Fed (limits : Limits) (parser : CommandParser) : Prop where
  limits : parser.limits = limits
  reached : ∃ evs, Reached parser.limits evs parser.mode parser.buf

theorem Fed.new : Fed limits (.new limits) := ⟨rfl, [], .start⟩

theorem Fed.events {parser : CommandParser} (h : Fed limits parser) (data : Octets) :
    Fed limits (parser.feed data).events.2 ∧
      ∀ e ∈ (parser.feed data).events.1, e.Legible ∧ e.Echoes := by
  obtain ⟨evs, hreached⟩ := h.reached
  have hdrained := (hreached.fed data).drain
  refine ⟨⟨h.limits, _, hdrained⟩, fun e he => ?_⟩
  have hmem := List.mem_append_right evs he
  exact ⟨hdrained.legible e hmem, hdrained.echoes.1 e hmem⟩

/-! ## One turn -/

theorem attend_talks {events : List Parser.Event} (h : ∀ e ∈ events, e.Legible ∧ e.Echoes) :
    Talks cfg (.conn n) (attend env cfg txt n events) := by
  induction events with
  | nil => exact ret_talks ()
  | cons event events ih =>
    obtain ⟨hlegible, hechoes⟩ := h event List.mem_cons_self
    rw [attend]
    apply session_talks
    intro l
    apply (handleEvent_talks hechoes hlegible fun name _ hargs => reading_plain _ name hargs).bind
    intro _
    apply flush_talks.bind
    intro _
    apply session_talks
    intro l
    split
    · exact ret_talks ()
    · exact ih fun e he => h e (List.mem_cons_of_mem _ he)

theorem attendAll_talks {events : List Parser.Event} (h : ∀ e ∈ events, e.Legible ∧ e.Echoes) :
    Talks cfg (.conn n) (attendAll env cfg txt n events) := by
  have hbad : Unnumbered "BAD internal parser error" := by decide
  unfold attendAll
  apply Coro.Raises.attempt_bind (attend_talks h)
  · exact fun _ => ret_talks ()
  · intro e he
    cases e with
    | cancelled => exact throw_talks he
    | _ => exact send_bind_talks hbad (send_bind_talks trivial (mute_talks rfl))

theorem hangUp_talks : Talks cfg t hangUp := by
  unfold hangUp
  apply session_talks
  intro l
  split
  · exact mute_talks rfl
  · exact flush_talks.bind fun _ => mute_bind_talks rfl (mute_talks rfl)

theorem turnOf_talks {events : List Parser.Event} (h : ∀ e ∈ events, e.Legible ∧ e.Echoes) :
    Talks cfg (.conn n) (turnOf env cfg txt n events) := by
  unfold turnOf
  apply Coro.Raises.attempt_bind (attendAll_talks h)
  · intro _
    apply session_talks
    intro l
    split
    · exact hangUp_talks
    · exact ret_talks ()
  · exact fun e he => hangUp_talks.bind fun _ => throw_talks he

/-! ## The logic of a connection -/

/-- Where a connection stands with its parser. -/
structure Audible (limits : Limits) (s : Service × Line) : Prop where
  tidy : Tidy (onLine s)
  parser : ∀ parser, s.2.parser = some parser → Fed limits parser

/-- The logic of `Transcript` for a connection with its parser. -/
def lineLogic (cfg : Config) (limits : Limits) (t : Tid) :
    Logic (Service × Line) LineAct Req Req.Answer where
  exec := LineAct.exec cfg t
  rely a b := (a.1.Unrefused → b.1.Unrefused) ∧ b.2 = a.2
  guar p _ := match p with
    | .gateway (.inl p) => p.Ends
    | .gateway (.inr p) => p.Plain
    | .parse parser => Fed limits parser
  asks _ s := Audible limits s
  gives _ a s := s.1.Unrefused → Req.unrefusing a = true

theorem Audible.of_rely {a b : Service × Line} (h : Audible limits a)
    (hr : (lineLogic cfg limits t).rely a b) : Audible limits b := by
  obtain ⟨s, l⟩ := b
  cases hr.2
  exact ⟨⟨hr.1 h.tidy.service, h.tidy.session⟩, h.parser⟩

theorem lineFrames : Coro.Frames (wireLogic cfg t) (lineLogic cfg limits t) .gateway onLine
    (fun s => ∀ parser, s.2.parser = some parser → Fed limits parser) where
  exec _ _ := rfl
  guar p _ hs hg := by
    cases p with
    | inl p => exact ⟨hg, hs⟩
    | inr p => exact ⟨hg, hs⟩
  rely _ _ hs hr := ⟨⟨hr.1, congrArg Line.session hr.2⟩, hr.2 ▸ hs⟩
  asks _ _ hs hasks := ⟨hasks, hs⟩
  gives _ _ _ h := h

/-- The coroutine keeps what a connection wrote and read legible. -/
abbrev Hears {α : Type} (cfg : Config) (limits : Limits) (t : Tid) (x : Talk α) : Prop :=
  Coro.Keeps (lineLogic cfg limits t) (Audible limits) x

theorem along_hears {α : Type} {x : Prog α} (hx : Talks cfg t x) : Hears cfg limits t (along x) := by
  intro s hs
  apply Coro.wp_mono _ _ (Coro.wp_lift lineFrames hs.parser (hx (onLine s) hs.tidy))
  · exact fun _ _ h => ⟨h.1, h.2⟩
  · exact fun _ _ h => ⟨h.1.2, h.2⟩

theorem parse_hears {parser : CommandParser} (h : Fed limits parser) :
    Hears cfg limits t (Coro.perform (.parse parser)) := by
  intro s hs
  refine ⟨h, hs.tidy, fun parser' heq => ?_⟩
  cases heq
  exact h

/-- Read the parser, which has been fed. -/
theorem parser_hears {α : Type} {k : Service × Line → Talk α}
    (h : ∀ s, (∀ parser, s.2.parser = some parser → Fed limits parser) → Hears cfg limits t (k s)) :
    Hears cfg limits t (Coro.read.bind k) := Coro.Keeps.read fun s hs => h s hs.parser s hs

theorem hear_hears (i : Heard) : Hears cfg limits t (hear env cfg txt limits t i) := by
  have hgreeting : Talks cfg t ((send (.ok "imapgw ready" .capability)).bind fun _ => flush) :=
    send_bind_talks trivial flush_talks
  have hexpired : ∀ text, Talks cfg t ((send (.bye text)).bind fun _ => hangUp) := fun text =>
    send_bind_talks trivial hangUp_talks
  unfold hear
  split
  · apply (along_hears hgreeting).bind
    exact fun _ => parse_hears .new
  · rename_i n data
    apply parser_hears
    intro s hs
    split
    · exact Coro.Keeps.ret _
    · rename_i parser hparser
      obtain ⟨hfed, hevents⟩ := (hs parser hparser).events data
      apply (parse_hears hfed).bind
      exact fun _ => along_hears (turnOf_talks hevents)
  · apply parser_hears
    intro s _
    split
    · exact Coro.Keeps.ret _
    · exact along_hears (hexpired _)
  · exact along_hears hangUp_talks
  · rename_i n job
    exact along_hears (svc_talks (runTask_faults n job))
  · exact Coro.Keeps.ret _

/-! ## Runs -/

theorem ends_of_ambient {p : Mailbox.Act} (h : p.ambient = true) : p.Ends := by
  intro n e hp
  rw [hp] at h
  cases h

/-- What a task that has ended without a refusal answers. -/
theorem unrefusing_of_responds {q : Req} {a : q.Answer} {s : Service} (hs : s.Unrefused)
    (h : responds t q a s = true) : Req.unrefusing a = true := by
  have hresult : ∀ {m : Nat} {e : Exc}, resultOf s m = some (.error e) → e.isRefusal = false := by
    intro m e hresult
    apply hs.tasks m e
    unfold resultOf at hresult
    split at hresult
    · rename_i htask
      rw [Service.taskState, htask]
      exact congrArg (fun r => some (TaskState.finished r)) (Option.some.inj hresult)
    · cases hresult
  simp only [responds, Bool.and_eq_true, Bool.or_eq_true, Bool.not_eq_true'] at h
  obtain ⟨hans, hout⟩ := h
  rcases hout with hout | hout
  · cases a with
    | ok v => rfl
    | error e =>
      have hcalm : e.isRefusal = false := by
        cases q with
        | task m =>
          simp only [answers, taskAnswers, Bool.or_eq_true, decide_eq_true_eq] at hans
          rcases hans with hans | hans
          · exact hresult hans
          · cases e with
            | cancelled => rfl
            | _ => simp [cancels] at hans
        | deferred m =>
          simp only [answers, deferredAnswers, Bool.or_eq_true, decide_eq_true_eq] at hans
          rcases hans with rfl | hans
          · rfl
          · exact hresult hans
        | _ => cases hout
      show (!e.isRefusal) = true
      rw [hcalm]
      rfl
  · exact hout

theorem server_sound (env : Runtime) (cfg : Config) (txt : TextConfig) (limits : Limits) :
    Sound (server env cfg txt limits) (fun _ _ => True) (lineLogic cfg limits)
      (fun _ => Audible limits) where
  exec _ := rfl
  refl _ _ := ⟨fun h => h, rfl⟩
  trans _ _ _ _ hab hbc := ⟨fun h => hbc.1 (hab.1 h), hbc.2.trans hab.2⟩
  others _ _ _ p _ _ _ hg := by
    cases p with
    | gateway p =>
      cases p with
      | inl p => exact ⟨fun h => Act.exec_unrefused h hg, rfl⟩
      | inr p => exact ⟨fun h => h, rfl⟩
    | parse parser => exact ⟨fun h => h, rfl⟩
  ambient _ _ p _ _ _ hp := by
    cases p with
    | gateway p =>
      cases p with
      | inl p => exact ⟨rfl, fun h => Act.exec_unrefused h (ends_of_ambient hp), rfl⟩
      | inr p => cases hp
    | parse parser => cases hp
  asksStable _ _ _ _ ha hr := ha.of_rely hr
  restStable _ _ _ ha hr := ha.of_rely hr
  main w t i _ _ h := hear_hears i _ h
  gives _ _ _ _ _ _ _ _ _ hans hs := unrefusing_of_responds hs hans

/-- The gateway before anybody has connected. -/
def Boot.lines (b : Boot) : Lines := Lines.start b.store b.watermark b.maxBytes b.remote

theorem Boot.audible (b : Boot) :
    Sound.Holds (lineLogic cfg limits) (fun _ => Audible limits) b.lines := by
  intro t
  refine ⟨rfl, ⟨⟨b.ok, fun n e h => ?_⟩, fun r hr => ?_⟩, fun parser h => ?_⟩
  · cases h
  · cases hr
  · cases h

/-- The responses of a connection are what a client reads of it: whatever was sent to the
gateway, answered by upstream and in progress beside it, and however what it writes is cut into
pieces, a client that knows nothing but the framing of IMAP reads one response after another as
they were written. -/
theorem responses_read_back {b : Boot} {w : Lines}
    (h : b.lines.Reaches (server env cfg txt limits) (fun _ _ => True) w)
    (n : Nat) {cs : List Octets}
    (hcs : cs.flatten = (w.loc (.conn n)).session.sent.reverse.flatMap Response.encode) :
    client.run (.line []) [] cs =
      (w.loc (.conn n)).session.sent.reverse.map Response.signs := by
  have haudible : Audible limits (w.shared, w.loc (.conn n)) :=
    (server_sound env cfg txt limits).stands (fun _ _ _ h => h) (fun _ _ h => h) b.audible h _
  apply client_reads
  · intro signs hsigns
    obtain ⟨r, hr, rfl⟩ := List.mem_map.mp hsigns
    exact (haudible.tidy.session r (List.mem_reverse.mp hr)).framed
  · rw [hcs, List.flatMap_map]
    rfl

/-- An interpreter for which every message is a draft without fields. -/
def demoRuntime : Runtime where
  uni := .ofAscii
  lower := id
  frames := 100
  parseAppend _ := .error ""
  clientIdFor _ := ""

def heardBy (n : Nat) (i : Heard) : Async.Move Tid Service LineAct Req Req.Answer Heard :=
  .launch (.conn n) i

def drainedBy (n : Nat) : Async.Move Tid Service LineAct Req Req.Answer Heard :=
  .resume (.conn n) (demoAnswer [] [] [])

/-- A client is greeted and sends a line that looks like a response: `*` is no tag, and what the
line is answered with is read as one response. -/
theorem responses_read_back_forged : ∃ w : Lines, (w.loc (.conn 0)).session.sent.length = 2 ∧
    client.run (.line []) []
        [(w.loc (.conn 0)).session.sent.reverse.flatMap Response.encode] =
      (w.loc (.conn 0)).session.sent.reverse.map Response.signs := by
  have hrun : (demoBoot.lines.run (server demoRuntime demoConfig demoText {})
      [heardBy 0 .connected, drainedBy 0, heardBy 0 (.octets (ascii "* 1 FETCH (\r\n")),
        drainedBy 0]).any (fun w => decide ((w.loc (.conn 0)).session.sent.length = 2)) = true := by
    decide +kernel
  obtain ⟨w, hw, hsent⟩ := Pool.exists_reaches hrun
  exact ⟨w, of_decide_eq_true hsent, responses_read_back hw 0 (by simp)⟩

end Imap
end ImapGateway
