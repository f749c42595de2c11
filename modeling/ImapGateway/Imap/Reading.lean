/-
How the arguments of a command are read.

A handler asks for the state it needs and then reads its arguments, and it refuses what it
cannot read before it does anything.  None of this waits, so it is a function of the
session and of the tokens, and what is left of the command is its verb.
-/
import ImapGateway.Imap.Answers
import ImapGateway.Imap.Criteria
import ImapGateway.Imap.Wildcards
import ImapGateway.Imap.Wire

namespace ImapGateway
namespace Imap

open ImapGateway.Parser Async
open Mailbox hiding upper

/-- What reading takes from the interpreter: its tables of Unicode, how deep calls may nest,
and the email package behind `parse_append`. -/
structure Runtime where
  uni : Unicode
  lower : String → String
  frames : Nat
  parseAppend : Octets → Except String DraftFields
  clientIdFor : Octets → String

/-! ## Refusals -/

/-- What the handlers make of an error in their arguments. -/
def argued {α : Type} : Except ArgError α → Except Exc α
  | .ok a => .ok a
  | .error (.fetchSyntax text) => .error (bad text)
  | .error (.unsupported text) => .error (bad text)
  | .error (.searchSyntax text) => .error (bad text)
  | .error (.badCharset _) => .error (noWith "charset is not supported" "BADCHARSET (UTF-8)")
  | .error .value => .error .internal
  | .error .recursion => .error .internal

/-- `_arg_text` -/
def argText (name : String) (args : List Token) (index : Nat) (what : String) :
    Except Exc String :=
  match args[index]? with
  | none => .error (bad (name ++ " requires " ++ what))
  | some (.list _) => .error (bad (what ++ " must be a string"))
  | some tok =>
    match textOf tok with
    | .ok text => .ok text
    | .error _ => .error (bad ("invalid " ++ what))

/-- `require_state` -/
def inState (l : Session) (states : List State) : Except Exc Unit :=
  if l.state ∈ states then .ok () else .error (bad "command not allowed in this state")

/-- `require_selected` -/
def hasView (l : Session) : Except Exc Unit :=
  match l.state, l.selected with
  | .selected, some _ => .ok ()
  | _, _ => .error (bad "no mailbox selected")

def loggedIn : List State := [.authenticated, .selected]

def anyState : List State := [.notAuthenticated, .authenticated, .selected, .logout]

variable (env : Runtime) (l : Session)

/-! ## LIST and LSUB -/

def maxListPattern : Nat := 512

/-- `list_response` of a name that is an atom or empty, without a delimiter. -/
def listed (verb mark name : String) : String :=
  verb ++ " (" ++ mark ++ ") NIL " ++ (if name = "" then "\"\"" else name)

/-- The names of the mailboxes a pattern matches. -/
def matching (pattern : String) : List String :=
  (mailboxes.map (·.name)).filter fun name =>
    wildcardMatch env.lower pattern name (name == "INBOX")

/-- The reference and the pattern. -/
def listArguments (name : String) (args : List Token) : Except Exc (String × String) := do
  inState l loggedIn
  if args.length ≠ 2 then throw (bad (name ++ " requires a reference and a mailbox pattern"))
  return (← argText name args 0 "reference", ← argText name args 1 "mailbox pattern")

/-- `list_` -/
def readList (args : List Token) : Except Exc Verb := do
  let (reference, pattern) ← listArguments l "LIST" args
  if pattern = "" then return .plain "LIST" loggedIn [listed "LIST" "\\Noselect" ""]
  if maxListPattern < (reference ++ pattern).length then throw (bad "mailbox pattern too long")
  return .plain "LIST" loggedIn
    ((matching env (reference ++ pattern)).map (listed "LIST" "\\HasNoChildren"))

/-- `lsub` -/
def readLsub (args : List Token) : Except Exc Verb := do
  let (reference, pattern) ← listArguments l "LSUB" args
  if maxListPattern < (reference ++ pattern).length then throw (bad "mailbox pattern too long")
  return .plain "LSUB" loggedIn
    ((if pattern = "" then [] else matching env (reference ++ pattern)).map
      (listed "LSUB" "\\HasNoChildren"))

/-! ## Commands for any state and for mailboxes -/

/-- A command without arguments. -/
def bare (name : String) (args : List Token) (verb : Verb) : Except Exc Verb :=
  if args.isEmpty then .ok verb else .error (bad (name ++ " takes no arguments"))

/-- `login` -/
def readLogin (args : List Token) : Except Exc Verb := do
  if l.state ≠ .notAuthenticated then throw (bad "already authenticated")
  if args.length ≠ 2 then throw (bad "LOGIN requires a user id and a password")
  return .login (← argText "LOGIN" args 0 "user id") (← argText "LOGIN" args 1 "password")

/-- The mailbox a command is about. -/
def mailboxName (name : String) (args : List Token) : Except Exc String := do
  inState l loggedIn
  if args.length ≠ 1 then throw (bad (name ++ " requires a mailbox name"))
  argText name args 0 "mailbox name"

/-- `_select` -/
def readSelect (name : String) (readOnly : Bool) (args : List Token) : Except Exc Verb := do
  return .select (← mailboxName l name args) readOnly

/-- `subscribe` -/
def readSubscribe (name : String) (args : List Token) : Except Exc Verb := do
  if (lookupMailbox (← mailboxName l name args)).isNone then throw (no "mailbox does not exist")
  return .plain name loggedIn []

def statusItems : List String := ["MESSAGES", "RECENT", "UIDNEXT", "UIDVALIDITY", "UNSEEN"]

def statusItem : Token → Except Exc String
  | .atom value =>
    if asText (upper value) ∈ statusItems then .ok (asText (upper value))
    else .error (bad "invalid STATUS item")
  | _ => .error (bad "invalid STATUS item")

/-- `status`: the mailbox is looked up before the items are read. -/
def readStatus (args : List Token) : Except Exc Verb := do
  inState l loggedIn
  match args with
  | [_, .list items] =>
    let name ← argText "STATUS" args 0 "mailbox name"
    if (lookupMailbox name).isNone then throw (no "mailbox does not exist")
    return .status name (← items.mapM statusItem)
  | _ => throw (bad "STATUS requires a mailbox name and a parenthesised item list")

/-- The message of an APPEND, its last argument. -/
def appendMessage (args : List Token) : Except Exc Octets :=
  match args.getLast? with
  | some (.literal raw) => .ok raw
  | some (.quoted raw) => .ok raw
  | _ => .error (bad "APPEND message must be a literal")

/-- A flag list or a date-time, which are accepted and ignored. -/
def isOptional : Token → Bool
  | .list _ => true
  | .quoted _ => true
  | _ => false

/-- `append` -/
def readAppend (args : List Token) : Except Exc Verb := do
  inState l loggedIn
  if args.length < 2 then throw (bad "APPEND requires a mailbox name and a message literal")
  let name ← argText "APPEND" args 0 "mailbox name"
  let raw ← appendMessage args
  let optional := (args.drop 1).dropLast
  if 2 < optional.length then
    throw (bad "APPEND accepts at most a flag list and a date-time before the message")
  if optional.any (!isOptional ·) then
    throw (bad "APPEND optional arguments must be a flag list or a quoted date-time")
  return .append name (env.parseAppend raw) (env.clientIdFor raw)

/-! ## Commands for messages -/

/-- `parse_sequence_set` of an atom. -/
def readSet (value : Octets) : Except Exc SequenceSet :=
  argued (parseSequenceSet env.uni (asText value))

/-- The name of a command, with `UID` in front where it is given by UIDs. -/
def labelOf (uidMode : Bool) (name : String) : String := if uidMode then "UID " ++ name else name

/-- `_fetch` -/
def readFetch (uidMode : Bool) (args : List Token) : Except Exc Verb := do
  hasView l
  match args with
  | [first, attrs] =>
    match first with
    | .atom set => do
      let set ← readSet env set
      return .fetch uidMode set (← argued (parseFetchAttributes attrs))
    | _ => throw (bad "invalid sequence set")
  | _ => throw (bad (labelOf uidMode "FETCH" ++ " requires a sequence set and attributes"))

/-- `_search` -/
def readSearch (uidMode : Bool) (args : List Token) : Except Exc Verb := do
  hasView l
  return .search uidMode (← argued (parseSearch env.uni env.frames args))

/-- `_STORE_RE`: the mode, and whether it is silent. -/
def storeAction (text : Octets) : Option (StoreMode × Bool) :=
  let action := upper text
  if action = ascii "FLAGS" then some (.replace, false)
  else if action = ascii "FLAGS.SILENT" then some (.replace, true)
  else if action = ascii "+FLAGS" then some (.add, false)
  else if action = ascii "+FLAGS.SILENT" then some (.add, true)
  else if action = ascii "-FLAGS" then some (.remove, false)
  else if action = ascii "-FLAGS.SILENT" then some (.remove, true)
  else none

/-- `_canonical_flag` of an atom. -/
def canonicalFlag : Token → Except Exc Flag
  | .atom text =>
    match allFlags.find? fun flag => upper (ascii (flagName flag)) == upper text with
    | some flag => .ok flag
    | none =>
      if text.head? = some Octet.backslash then .error (noWith "unknown system flag" "CANNOT")
      else .error (noWith "keywords are not supported" "CANNOT")
  | _ => .error (bad "flags must be atoms")

/-- The flags of a STORE: a list of them, or one. -/
def flagTokens : Token → List Token
  | .list items => items
  | tok => [tok]

/-- `_store` -/
def readStore (uidMode : Bool) (args : List Token) : Except Exc Verb := do
  hasView l
  match args with
  | [.atom set, .atom action, flags] =>
    match storeAction action with
    | none => throw (bad "STORE action must be FLAGS, +FLAGS or -FLAGS, optionally .SILENT")
    | some (mode, silent) => do
      let flags ← (flagTokens flags).mapM canonicalFlag
      return .store (← readSet env set) ⟨mode, silent, flags, uidMode⟩
  | _ => throw (bad (labelOf uidMode "STORE" ++
      " requires a sequence set, an action, and a flag list"))

/-- `_copy` -/
def readCopy (name : String) (plan : CopyPlan) (args : List Token) : Except Exc Verb := do
  hasView l
  match args with
  | [.atom set, _] =>
    let dest ← argText name args 1 "mailbox name"
    return .copy plan (← readSet env set) dest
  | _ => throw (bad (plan.label ++ " requires a sequence set and a mailbox name"))

/-- `_uid_expunge` -/
def readUidExpunge (args : List Token) : Except Exc Verb :=
  match args with
  | [.atom set] => do return .uidExpunge (← readSet env set)
  | _ => .error (bad "UID EXPUNGE requires a sequence set")

/-- `uid`, with `UID_HANDLERS` -/
def readUid (args : List Token) : Except Exc Verb := do
  hasView l
  match args with
  | .atom sub :: rest =>
    match asText (upper sub) with
    | "FETCH" => readFetch env l true rest
    | "SEARCH" => readSearch env l true rest
    | "STORE" => readStore env l true rest
    | "EXPUNGE" => readUidExpunge env rest
    | "COPY" => readCopy env l "UID" ⟨true, false⟩ rest
    | "MOVE" => readCopy env l "UID" ⟨true, true⟩ rest
    | _ => throw (bad "unsupported UID command")
  | _ => throw (bad "UID requires a sub-command")

/-! ## The table of commands -/

/-- A command that is refused, whatever its arguments. -/
def unsupported (text : String) : Except Exc Verb := .error (noWith text "CANNOT")

/-- `HANDLERS` -/
def readCommand (name : String) (args : List Token) : Except Exc Verb :=
  match name with
  | "CAPABILITY" =>
    bare name args (.plain name anyState ["CAPABILITY " ++ " ".intercalate capabilities])
  | "NOOP" => bare name args .noop
  | "LOGOUT" => .ok .logout
  | "LOGIN" => readLogin l args
  | "STARTTLS" => unsupported "TLS is not available on this server"
  | "AUTHENTICATE" => unsupported "only LOGIN is supported"
  | "LIST" => readList env l args
  | "LSUB" => readLsub env l args
  | "SELECT" => readSelect l name false args
  | "EXAMINE" => readSelect l name true args
  | "FETCH" => readFetch env l false args
  | "UID" => readUid env l args
  | "APPEND" => readAppend env l args
  | "SEARCH" => readSearch env l false args
  | "STORE" => readStore env l false args
  | "EXPUNGE" => bare name args .expunge
  | "CLOSE" => .ok .close
  | "STATUS" => readStatus l args
  | "ID" => .ok (.plain name anyState ["ID (\"name\" \"imapgw\" \"version\" \"0.1.0\")"])
  | "NAMESPACE" => .ok (.plain name loggedIn ["NAMESPACE ((\"\" NIL)) NIL NIL"])
  | "SUBSCRIBE" => readSubscribe l name args
  | "UNSUBSCRIBE" => readSubscribe l name args
  | "CHECK" => do
    hasView l
    return .plain name [.selected] []
  | "COPY" => readCopy env l name ⟨false, false⟩ args
  | "MOVE" => readCopy env l name ⟨false, true⟩ args
  | "CREATE" => unsupported "mailboxes are fixed views and cannot be created"
  | "DELETE" => unsupported "mailboxes are fixed views and cannot be deleted"
  | "RENAME" => unsupported "mailboxes are fixed views and cannot be renamed"
  | "IDLE" => unsupported "IDLE is not supported; poll with NOOP"
  | _ => .error (bad ("unknown command " ++ name))

/-- A command whose arguments are refused is a command that is answered so; `ref` is the
connection an internal error refers to. -/
def verbOf (ref : String) : Except Exc Verb → Verb
  | .ok verb => verb
  | .error (.commandFailed status text code) => .refused status text code
  | .error _ => .refused "NO" ("internal error (ref " ++ ref ++ ")") none

/-- How the commands of a session are read. -/
def reading (ref : String) : Reading := fun name args => verbOf ref (readCommand env l name args)

end Imap
end ImapGateway
