/-
What the lines of a session begin with.

A line that begins with `+` invites the client to send a literal, and one that begins
with `*` is not about any of its commands.  The session writes the first for what the
parser asks for and for nothing else, as long as no tag it echoes begins so.
-/
import ImapGateway.Imap.Answers
import ImapGateway.Imap.Wire
import ImapGateway.Parser.Tags

namespace ImapGateway
namespace Imap

open ImapGateway.Parser Async
open Mailbox hiding upper

variable {cfg : Config} {txt : TextConfig}

/-! ## First octets -/

/-- The response is written as a line that begins with `+`. -/
def Response.invites (r : Response) : Bool :=
  r.encode.head? == some Octet.plus

theorem encode_head {r : Response} {ch : UInt8} (h : ∃ rest, r.signs = .octet ch :: rest) :
    r.encode.head? = some ch := by
  obtain ⟨rest, hrest⟩ := h
  rw [Response.encode, hrest]
  rfl

/-- What is not for a command begins with `*`. -/
theorem encode_untagged {r : Response} (h : r.isUntagged = true) :
    r.encode.head? = some Octet.asterisk := by
  apply encode_head
  cases r with
  | tagged | continuation => cases h
  | ok text code =>
    rw [Response.signs, written_append, written_append]
    exact ⟨_, rfl⟩
  | status mailbox values =>
    rw [Response.signs, written_append, written_append]
    exact ⟨_, rfl⟩
  | bye text =>
    rw [Response.signs, written_append]
    exact ⟨_, rfl⟩
  | other text =>
    rw [Response.signs, written_append]
    exact ⟨_, rfl⟩
  | search uidMode hits =>
    rw [Response.signs]
    cases hits with
    | nil => exact ⟨_, rfl⟩
    | cons n ns => exact ⟨_, rfl⟩
  | _ => exact ⟨_, rfl⟩

theorem encode_continuation (n : Nat) :
    ((Response.continuation n).encode).head? = some Octet.plus := by
  apply encode_head
  have hfirst : ∃ rest, written (clean "+ Ready for ") = .octet Octet.plus :: rest := ⟨_, rfl⟩
  obtain ⟨rest, hrest⟩ := hfirst
  rw [Response.signs, clean_append, clean_append, written_append, written_append, hrest]
  exact ⟨_, rfl⟩

/-- The first octet of a character that is not `+`. -/
theorem utf8EncodeChar_head {ch : Char} (h : ch ≠ '+') (rest : Octets) :
    (String.utf8EncodeChar ch ++ rest).head? ≠ some Octet.plus := by
  intro hhead
  rcases utf8EncodeChar_cases ch with ⟨hlt, heq⟩ | ⟨_, hhigh⟩
  · rw [heq] at hhead
    have hoctet : UInt8.ofNat ch.toNat = Octet.plus := Option.some.inj hhead
    have hnat := congrArg UInt8.toNat hoctet
    rw [UInt8.toNat_ofNat', Nat.mod_eq_of_lt (by omega)] at hnat
    exact h (Char.toNat_inj.mp hnat)
  · cases henc : String.utf8EncodeChar ch with
    | nil => exact String.utf8EncodeChar_ne_nil henc
    | cons b bs =>
      rw [henc] at hhead hhigh
      have hb : b = Octet.plus := Option.some.inj hhead
      have hle := hhigh b (List.mem_cons_self ..)
      rw [hb] at hle
      exact absurd hle (by decide)

/-- A line with a safe tag does not begin with `+`. -/
theorem encode_tagged {tag : Octets} (h : TagSafe tag) (kind text : String) (code : Option Code) :
    ((Response.tagged (asText tag) kind text code).encode).head? ≠ some Octet.plus := by
  obtain ⟨hne, hplain⟩ := h
  cases tag with
  | nil => exact absurd rfl hne
  | cons ch tag =>
    have hch : ch ≠ Octet.plus := by
      rintro rfl
      cases hplain
    have hfirst : cleanChar (Char.ofNat ch.toNat) ≠ '+' := by
      intro he
      rw [cleanChar] at he
      split at he
      · have hnat := congrArg Char.toNat he
        rw [toNat_ofNat_octet] at hnat
        exact hch (UInt8.toNat_inj.mp hnat)
      · cases he
    have hclean : clean (asText (ch :: tag)) =
        String.ofList (cleanChar (Char.ofNat ch.toNat) ::
          (tag.map fun c => Char.ofNat c.toNat).map cleanChar) := by
      rw [clean, asText, String.toList_ofList]
      rfl
    rw [Response.encode, Response.signs, written_append, written_append, written_append,
      written_append, written_append, hclean, written, utf8_cons]
    simp only [List.append_assoc, octetsOf_text]
    exact utf8EncodeChar_head hfirst _

/-! ## Lines that begin with `+` -/

/-- What the session writes that begins with `+` for an event. -/
def invitesOf : Event → List Response
  | .continuation n => [.continuation n]
  | _ => []

theorem invites_continuation (n : Nat) : (Response.continuation n).invites = true := by
  rw [Response.invites, encode_continuation]
  rfl

theorem not_invites_untagged {r : Response} (h : r.isUntagged = true) :
    r.invites = false := by
  rw [Response.invites, encode_untagged h]
  rfl

theorem not_invites_tagged {tag : Octets} (h : TagSafe tag) (status text : String)
    (code : Option Code) : (Response.tagged (asText tag) status text code).invites = false := by
  have hhead : ((Response.tagged (asText tag) status text code).encode).head? ≠
      some Octet.plus := encode_tagged h status text code
  rw [Response.invites]
  exact beq_eq_false_iff_ne.mpr hhead

theorem filter_untagged {rs : List Response} (h : ∀ r ∈ rs, r.isUntagged = true) :
    rs.filter Response.invites = [] := by
  apply List.filter_eq_nil_iff.mpr
  intro r hr hinvites
  rw [not_invites_untagged (h r hr)] at hinvites
  cases hinvites

/-- An event whose tag is safe is answered with a line that begins with `+` exactly if it
asks for a literal. -/
theorem Answered.invites {l l' : Session} {e : Event} (h : Answered l l' e) (he : e.Unforged) :
    l'.sent.filter Response.invites =
      invitesOf e ++ l.sent.filter Response.invites := by
  have hbyes : ∀ byes : List Response, (∀ r ∈ byes, ∃ text, r = .bye text) →
      ∀ r ∈ byes, r.isUntagged = true := by
    intro byes hbyes r hr
    obtain ⟨text, rfl⟩ := hbyes r hr
    rfl
  cases h with
  | continuation length sent =>
    rw [sent, List.filter_cons_of_pos (invites_continuation length)]
    rfl
  | refused tag message fatal byes sent after =>
    have hplain : (Response.tagged (asText tag) "BAD" message none).invites = false :=
      not_invites_tagged (he tag rfl) "BAD" message none
    rw [sent, List.filter_append, filter_untagged (hbyes byes after),
      List.filter_cons_of_neg (by rw [hplain]; exact Bool.false_ne_true)]
    rfl
  | bad message fatal byes sent after =>
    have hplain : (Response.other ("BAD " ++ message)).invites = false :=
      not_invites_untagged rfl
    rw [sent, List.filter_append, filter_untagged (hbyes byes after),
      List.filter_cons_of_neg (by rw [hplain]; exact Bool.false_ne_true)]
    rfl
  | command tag name args replies =>
    cases replies with
    | tagged updates before status text code sent untagged after =>
      have hplain : (Response.tagged (asText tag) status text code).invites = false :=
        not_invites_tagged (he tag rfl) status text code
      have hupdates : ∀ r ∈ updates, r.isUntagged = true := fun r hr =>
        Response.isUntagged_of_isUpdate (after r hr)
      rw [sent, List.filter_append, filter_untagged hupdates,
        List.filter_cons_of_neg (by rw [hplain]; exact Bool.false_ne_true), List.filter_append,
        filter_untagged untagged]
      rfl
    | bye rs text sent said untagged state =>
      rw [sent, List.filter_append, filter_untagged untagged]
      rfl

theorem InOrder.invites {done : List Event} {l l' : Session} (h : InOrder done l l')
    (hdone : ∀ e ∈ done, e.Unforged) :
    l'.sent.filter Response.invites =
      (done.flatMap invitesOf).reverse ++ l.sent.filter Response.invites := by
  induction h with
  | nil l => rfl
  | @cons e es l l₁ l' head tail ih =>
    have hone : (invitesOf e).reverse = invitesOf e := by
      cases e <;> rfl
    rw [ih fun e' he' => hdone e' (List.mem_cons_of_mem _ he'),
      head.invites (hdone e (List.mem_cons_self ..)), List.flatMap_cons, List.reverse_append, hone,
      List.append_assoc]

/-- No line begins as a line of another kind: the tags are safe, a line begins with `+` for
each literal asked for and for nothing else, and that literal is then awaited. -/
structure PrefixesKept (cfg : Config) (txt : TextConfig)
    (limits : Limits) (evs : List Event) (mode : Mode) (buf : Octets) : Prop where
  tags : ∀ e ∈ evs, ∀ tag, e.tag = some tag → TagSafe tag
  lines : ∀ events, events ⊆ evs → ∀ read n s out s',
    Evaluates cfg n (serve cfg txt read n events) s out s' →
    ∃ done, done <+: events ∧ InOrder done s.2 s'.2 ∧
      s'.2.sent.filter Response.invites =
        (done.flatMap invitesOf).reverse ++ s.2.sent.filter Response.invites
  awaited : ∀ evs' mode' rest, next limits mode buf = .take evs' mode' rest →
    ∀ n, .continuation n ∈ evs' ↔ ∃ p, mode' = .literal p n

/-- In a run of the parser the prefixes are kept exactly if no step of it refuses a command
early whose first word could be echoed and has a `+` or `*`. -/
theorem prefixes_kept (cfg : Config) (txt : TextConfig)
    (limits : Limits) (evs : List Event) (mode : Mode) (buf : Octets)
    (h : Reached limits evs mode buf) :
    PrefixesKept cfg txt limits evs mode buf ↔
      ReachedBy (fun mode buf => misquotes limits mode buf = false) limits evs mode buf := by
  constructor
  · intro hkept
    exact h.unforged_iff.mp hkept.tags
  · intro hrun
    have hevs := h.unforged_iff.mpr hrun
    constructor
    · exact hevs
    · intro events hsub read n s out s' hserve
      obtain ⟨done, hpre, horder, _⟩ := serve_inOrder hserve
      have hdone : ∀ e ∈ done, e.Unforged := fun e he => hevs e (hsub (hpre.subset he))
      exact ⟨done, hpre, horder, horder.invites hdone⟩
    · intro evs' mode' rest hnext
      exact next_continuation hnext

/-- The parser asks for a literal of three octets. -/
theorem prefixes_kept_literal : ∃ p, ∀ (cfg : Config) (txt : TextConfig),
    PrefixesKept cfg txt {} [.continuation 3] (.literal p 3) [] := by
  let line := ascii "a LOGIN {3}" ++ [Octet.cr, Octet.lf]
  let p : Parser.Pending := ⟨some (ascii "a"), [.line (ascii "a LOGIN ")], 16, 1⟩
  have hnext : next {} (.line none) line = .take [.continuation 3] (.literal p 3) [] := rfl
  have hstep : misquotes {} (.line none) line = false := by decide
  refine ⟨p, fun cfg txt => ?_⟩
  apply (prefixes_kept cfg txt {} _ _ _ (.took (.fed line .start) hnext)).mpr
  exact .took (.fed line .start) hstep hnext

/-- The event of a line that begins with `+` and holds a NUL. -/
def refusedPlus : Event := .error (some (ascii "+")) "NUL byte in command" false

/-- The line is answered by one that begins with `+`, and no literal was asked for. -/
theorem refusal_invites : Reached {} [refusedPlus] (.line none) [] ∧
    ∀ (cfg : Config) (txt : TextConfig),
      ¬ PrefixesKept cfg txt {} [refusedPlus] (.line none) [] ∧
      ∀ read n s out s', Evaluates cfg n (handleEvent cfg txt read n refusedPlus) s out s' →
        ∃ r, s'.2.sent = r :: s.2.sent ∧
          r.encode = ascii "+ BAD NUL byte in command" ++ [Octet.cr, Octet.lf] := by
  have hnext : next {} (.line none) (ascii "+ " ++ [0x00, Octet.cr, Octet.lf]) =
      .take [refusedPlus] (.line none) [] := rfl
  have hencode : (Response.tagged (asText (ascii "+")) "BAD" "NUL byte in command" none).encode =
      ascii "+ BAD NUL byte in command" ++ [Octet.cr, Octet.lf] := by
    show octetsOf (written _) ++ _ = _
    decide
  refine ⟨.took (.fed _ .start) hnext, fun cfg txt => ⟨?_, ?_⟩⟩
  · intro hkept
    have hplain := (hkept.tags refusedPlus (List.mem_singleton_self _) (ascii "+") rfl).plain
    exact absurd hplain (by decide)
  · intro read n s out s' heval
    unfold handleEvent refusedPlus at heval
    cases heval with
    | act heval =>
      cases heval
      exact ⟨_, rfl, hencode⟩

end Imap
end ImapGateway
