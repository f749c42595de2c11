/-
Responses as they are written.

A response is a line of signs, octets and literals.  Texts go through `clean`, which
leaves no control character in them; numbers, flags, labels and dates are written as
they are.
-/
import ImapGateway.Imap.Session
import ImapGateway.Parser.Inverse

namespace ImapGateway
namespace Imap

open ImapGateway.Parser
open Mailbox hiding upper

/-! ## Text -/

/-- `str.encode` -/
def utf8 (text : String) : Octets := text.toList.flatMap String.utf8EncodeChar

theorem utf8_append (a b : String) : utf8 (a ++ b) = utf8 a ++ utf8 b := by
  rw [utf8, String.toList_append, List.flatMap_append]
  rfl

theorem toNat_ofNat_octet (ch : UInt8) : (Char.ofNat ch.toNat).toNat = ch.toNat := by
  have hlt : ch.toNat < 256 := ch.toNat_lt
  have hvalid : ch.toNat.isValidChar := .inl (by omega)
  rw [Char.ofNat, dif_pos hvalid]
  rfl

/-- A character is encoded as itself or by octets that are no ASCII. -/
theorem utf8EncodeChar_cases (ch : Char) :
    (ch.toNat < 0x80 ∧ String.utf8EncodeChar ch = [UInt8.ofNat ch.toNat]) ∨
      (0x80 ≤ ch.toNat ∧ ∀ b ∈ String.utf8EncodeChar ch, 0x80 ≤ b.toNat) := by
  have hbyte : ∀ n, 0x80 ≤ n → n < 0x100 → 0x80 ≤ (UInt8.ofNat n).toNat := by
    intro n hlo hhi
    rw [UInt8.toNat_ofNat', Nat.mod_eq_of_lt hhi]
    exact hlo
  unfold String.utf8EncodeChar
  simp only
  have hval : ch.val.toNat = ch.toNat := rfl
  rw [hval]
  split
  · exact .inl ⟨by omega, rfl⟩
  · refine .inr ⟨by omega, fun b hb => ?_⟩
    split at hb
    · simp only [List.mem_cons, List.not_mem_nil, or_false] at hb
      rcases hb with rfl | rfl <;> exact hbyte _ (by omega) (by omega)
    · split at hb
      · simp only [List.mem_cons, List.not_mem_nil, or_false] at hb
        rcases hb with rfl | rfl | rfl <;> exact hbyte _ (by omega) (by omega)
      · simp only [List.mem_cons, List.not_mem_nil, or_false] at hb
        rcases hb with rfl | rfl | rfl | rfl <;> exact hbyte _ (by omega) (by omega)

/-- A character a response line may hold. -/
def isClean (ch : Char) : Bool := decide (0x20 ≤ ch.toNat) && decide (ch.toNat ≠ 0x7F)

/-- What `clean` makes of a character. -/
def cleanChar (ch : Char) : Char := if isClean ch then ch else ' '

def clean (text : String) : String := String.ofList (text.toList.map cleanChar)

theorem clean_append (a b : String) : clean (a ++ b) = clean a ++ clean b := by
  rw [clean, String.toList_append, List.map_append, String.ofList_append]
  rfl

/-- `_clean_code` -/
def cleanCode (code : String) : String :=
  String.ofList ((clean code).toList.map fun ch =>
    if ch = '[' then '(' else if ch = ']' then ')' else ch)

/-- Octets that stand for themselves. -/
def written (text : String) : List Sign := Parser.text (utf8 text)

theorem utf8_cons (ch : Char) (chs : List Char) :
    utf8 (String.ofList (ch :: chs)) = String.utf8EncodeChar ch ++ utf8 (String.ofList chs) := by
  rw [utf8, utf8, String.toList_ofList, String.toList_ofList, List.flatMap_cons]

theorem octetsOf_text (octets : Octets) (signs : List Sign) :
    octetsOf (Parser.text octets ++ signs) = octets ++ octetsOf signs := by
  induction octets with
  | nil => rfl
  | cons ch octets ih => exact congrArg (ch :: ·) ih

theorem written_append (a b : String) : written (a ++ b) = written a ++ written b := by
  rw [written, utf8_append]
  exact List.map_append

def number (n : Nat) : List Sign := Parser.text (decimalDigits n)

/-- Items with single spaces between them. -/
def spaced : List (List Sign) → List Sign
  | [] => []
  | [x] => x
  | x :: xs => x ++ .octet Octet.space :: spaced xs

/-! ## Flags, dates and codes -/

/-- The order `_flag_sort_key` gives. -/
def flagOrder : List Flag := [.seen, .answered, .flagged, .deleted, .draft]

/-- `flag_list` -/
def flagList (flags : List Flag) : String :=
  "(" ++ " ".intercalate ((flagOrder.filter fun f => decide (f ∈ flags)).map flagName) ++ ")"

/-- `:0{width}d` -/
def padded (width n : Nat) : Octets :=
  List.replicate (width - (decimalDigits n).length) 0x30 ++ decimalDigits n

def monthName (month : Fin 12) : Octets :=
  ascii ((["Jan", "Feb", "Mar", "Apr", "May", "Jun", "Jul", "Aug", "Sep", "Oct", "Nov",
    "Dec"][month.val]?).getD "")

/-- `internaldate`: the seconds of the offset are rounded toward 0. -/
def internaldate (d : Datetime) : Octets :=
  let offset := d.utcoffset.tdiv 1000000
  let sign := if 0 ≤ offset then ascii "+" else ascii "-"
  let total := offset.natAbs
  [Octet.quote] ++ padded 2 d.day ++ ascii "-" ++ monthName d.month ++ ascii "-" ++
    padded 4 d.year ++ ascii " " ++ padded 2 d.hour ++ ascii ":" ++ padded 2 d.minute ++
    ascii ":" ++ padded 2 d.second ++ ascii " " ++ sign ++ padded 2 (total / 3600) ++
    padded 2 (total % 3600 / 60) ++ [Octet.quote]

def capabilities : List String := ["IMAP4rev1", "UIDPLUS", "MOVE", "ID", "NAMESPACE"]

/-- A run of `_uid_set`. -/
def uidRange (r : Nat × Nat) : String :=
  if r.1 ≠ r.2 then toString r.1 ++ ":" ++ toString r.2 else toString r.1

def uidSetText (ranges : List (Nat × Nat)) : String := ",".intercalate (ranges.map uidRange)

def Code.render : Code → String
  | .text s => s
  | .capability => "CAPABILITY " ++ " ".intercalate capabilities
  | .readOnly => "READ-ONLY"
  | .readWrite => "READ-WRITE"
  | .unseen seq => "UNSEEN " ++ toString seq
  | .permanentFlags flags => "PERMANENTFLAGS " ++ flagList flags
  | .uidvalidity n => "UIDVALIDITY " ++ toString n
  | .uidnext n => "UIDNEXT " ++ toString n
  | .appenduid n uid => "APPENDUID " ++ toString n ++ " " ++ toString uid
  | .copyuid n source target =>
    "COPYUID " ++ toString n ++ " " ++ uidSetText source ++ " " ++ uidSetText target

/-- `[code] `, if there is a code. -/
def bracketed (code : String) : String :=
  if cleanCode code = "" then "" else "[" ++ cleanCode code ++ "] "

/-! ## Responses -/

def Part.signs : Part → List Sign
  | .uid n => written "UID " ++ number n
  | .flags f => written ("FLAGS " ++ flagList (flagOrder.filter fun x => decide (x ∈ f)))
  | .internaldate t => written "INTERNALDATE " ++ Parser.text (Imap.internaldate t)
  | .size n => written "RFC822.SIZE " ++ number n
  | .body attr raw => written (attr.label ++ " ") ++ [.literal (sectionBytes raw attr)]

/-- The line of a response, without its CRLF. -/
def Response.signs : Response → List Sign
  | .tagged tag kind text code =>
    written (clean tag ++ " " ++ kind ++ " " ++ bracketed ((code.map Code.render).getD "") ++
      clean text)
  | .ok text code => written ("* OK " ++ bracketed code.render ++ clean text)
  | .bye text => written ("* BYE " ++ clean text)
  | .exists n => written "* " ++ number n ++ written " EXISTS"
  | .recent n => written "* " ++ number n ++ written " RECENT"
  | .expunge seq => written "* " ++ number seq ++ written " EXPUNGE"
  | .fetch seq _ parts =>
    written "* " ++ number seq ++ written " FETCH (" ++ spaced (parts.map Part.signs) ++
      written ")"
  | .search _ hits => spaced (written "* SEARCH" :: hits.map number)
  | .status mailbox values =>
    written ("* STATUS " ++ mailbox ++ " (") ++
      spaced (values.map fun v => written (v.1 ++ " ") ++ number v.2) ++ written ")"
  | .other text => written ("* " ++ clean text)
  | .continuation length => written (clean ("+ Ready for " ++ toString length ++ " octets"))

/-- What is written for a response. -/
def Response.encode (r : Response) : Octets :=
  octetsOf r.signs ++ [Octet.cr, Octet.lf]

end Imap
end ImapGateway
