/-
FETCH attributes and the sections of a message.

The label of an attribute is what the response echoes.  It is put together from the
section as it was read, so it need not be the text the client sent.
-/
import ImapGateway.Parser.Machine
import ImapGateway.Mailbox.Service

namespace ImapGateway
namespace Imap

open ImapGateway.Parser
open Mailbox hiding upper

/-- Octets as text, an octet a character. -/
def asText (octets : Octets) : String := String.ofList (octets.map fun c => Char.ofNat c.toNat)

/-- ASCII text as octets. -/
def ascii (text : String) : Octets := text.toList.map fun c => UInt8.ofNat c.toNat

/-! ## Errors -/

/-- What a reader of arguments raises: the errors it declares, a `ValueError` of `int`, or a
`RecursionError`. -/
inductive ArgError where
  | fetchSyntax (text : String)
  | unsupported (text : String)
  | searchSyntax (text : String)
  | badCharset (name : String)
  | value
  | recursion
  deriving DecidableEq

def ArgError.declared : ArgError → Bool
  | .value | .recursion => false
  | _ => true

theorem mapM_ok_cons {α β : Type} {f : α → Except ArgError β} {x : α} {xs : List α}
    {ys : List β} (h : (x :: xs).mapM f = .ok ys) :
    ∃ y rest, f x = .ok y ∧ xs.mapM f = .ok rest ∧ ys = y :: rest := by
  rw [List.mapM_cons] at h
  cases hx : f x with
  | error e => simp [hx, bind, Except.bind] at h
  | ok y =>
    cases hxs : xs.mapM f with
    | error e => simp [hx, hxs, bind, Except.bind] at h
    | ok rest =>
      have hys : ys = y :: rest := by
        simpa [hx, hxs, bind, Except.bind, pure, Except.pure] using h.symm
      exact ⟨y, rest, rfl, rfl, hys⟩

/-- Each member of a list that is read has its result. -/
theorem mapM_ok_left {α β : Type} {f : α → Except ArgError β} {xs : List α} {ys : List β}
    (h : xs.mapM f = .ok ys) {x : α} (hx : x ∈ xs) : ∃ y ∈ ys, f x = .ok y := by
  induction xs generalizing ys with
  | nil => cases hx
  | cons x' xs ih =>
    obtain ⟨y, rest, hhead, htail, rfl⟩ := mapM_ok_cons h
    rcases List.mem_cons.mp hx with rfl | hx
    · exact ⟨y, List.mem_cons_self, hhead⟩
    · obtain ⟨z, hz, hf⟩ := ih htail hx
      exact ⟨z, List.mem_cons_of_mem _ hz, hf⟩

/-- Each result of reading a list is that of a member. -/
theorem mapM_ok_right {α β : Type} {f : α → Except ArgError β} {xs : List α} {ys : List β}
    (h : xs.mapM f = .ok ys) {y : β} (hy : y ∈ ys) : ∃ x ∈ xs, f x = .ok y := by
  induction xs generalizing ys with
  | nil =>
    cases h
    cases hy
  | cons x xs ih =>
    obtain ⟨y', rest, hhead, htail, rfl⟩ := mapM_ok_cons h
    rcases List.mem_cons.mp hy with rfl | hy
    · exact ⟨x, List.mem_cons_self, hhead⟩
    · obtain ⟨z, hz, hf⟩ := ih htail hy
      exact ⟨z, List.mem_cons_of_mem _ hz, hf⟩

/-- The longest decimal string `int` takes. -/
def maxIntDigits : Nat := 4300

/-- `int` of decimal digits. -/
def toInt (ds : Octets) : Except ArgError Nat :=
  if maxIntDigits < ds.length then .error .value else .ok (decimal ds)

/-! ## Attributes -/

inductive AttrKind where
  | uid
  | flags
  | internaldate
  | size
  | body
  deriving DecidableEq

inductive Section where
  | whole
  | header
  | text
  | headerFields
  | headerFieldsNot
  deriving DecidableEq

structure FetchAttr where
  kind : AttrKind
  label : String
  peek : Bool := true
  part : Section := .whole
  fields : List Octets := []
  /-- Offset and count. -/
  range : Option (Nat × Nat) := none
  deriving DecidableEq

/-! ## Parsing -/

/-- White space of `str.strip`, as far as an atom can hold it, and of `bytes.strip`. -/
def isSpace (ch : UInt8) : Bool := decide (ch = 0x20) || (decide (9 ≤ ch) && decide (ch ≤ 13))

def strip (octets : Octets) : Octets :=
  (((octets.dropWhile isSpace).reverse).dropWhile isSpace).reverse

/-- `\d+` from the start: the digits and what follows. -/
def digits (octets : Octets) : Option (Octets × Octets) :=
  match octets.takeWhile isDigit with
  | [] => none
  | ds => some (ds, octets.dropWhile isDigit)

/-- `(?:<(\d+)\.(\d+)>)?$`: the digits of the offset and of the count. -/
def parsePartial (octets : Octets) : Option (Option (Octets × Octets)) :=
  match octets with
  | [] => some none
  | ch :: rest =>
    if ch ≠ 0x3C then none
    else match digits rest with
      | some (offset, 0x2E :: rest) => match digits rest with
        | some (count, [0x3E]) => some (some (offset, count))
        | _ => none
      | _ => none

/-- `_BODY_RE`: whether it is `BODY.PEEK`, what stands up to the last bracket, and the
partial behind it. -/
def matchBody (name : Octets) : Option (Bool × Octets × Option (Octets × Octets)) :=
  let opened := if ascii "BODY.PEEK[" <+: upper name then some (true, name.drop 10)
    else if ascii "BODY[" <+: upper name then some (false, name.drop 5) else none
  match opened with
  | none => none
  | some (peek, rest) =>
    match rest.reverse.dropWhile (· ≠ Octet.rbracket) with
    | [] => none
    | _ :: before =>
      (parsePartial (rest.reverse.takeWhile (· ≠ Octet.rbracket)).reverse).map
        fun range => (peek, before.reverse, range)

/-- `"((?:[^"\\]|\\.)*)"`, from behind the opening quote: what stands between the quotes,
and the octets behind. -/
def quotedName : Octets → Option (Octets × Octets)
  | [] => none
  | ch :: rest =>
    if ch = Octet.quote then some ([], rest)
    else if ch = Octet.backslash then
      match rest with
      | [] => none
      | escaped :: rest => (quotedName rest).map fun r => (ch :: escaped :: r.1, r.2)
    else (quotedName rest).map fun r => (ch :: r.1, r.2)

theorem quotedName_length {octets name rest : Octets} (h : quotedName octets = some (name, rest)) :
    name.length + rest.length < octets.length := by
  fun_induction quotedName octets generalizing name rest with
  | case2 tail =>
    cases h
    simp only [List.length_nil, List.length_cons]
    omega
  | case4 escaped tail _ ih =>
    obtain ⟨r, hr, heq⟩ := Option.map_eq_some_iff.mp h
    cases heq
    have := ih hr
    simp only [List.length_cons]
    omega
  | case5 ch tail _ _ ih =>
    obtain ⟨r, hr, heq⟩ := Option.map_eq_some_iff.mp h
    cases heq
    have := ih hr
    simp only [List.length_cons]
    omega
  | _ => cases h

/-- `str.replace` of two octets by one. -/
def replacePair (a b c : UInt8) : Octets → Octets
  | x :: y :: rest =>
    if x = a ∧ y = b then c :: replacePair a b c rest else x :: replacePair a b c (y :: rest)
  | octets => octets

def unescape (name : Octets) : Octets :=
  replacePair Octet.backslash Octet.backslash Octet.backslash
    (replacePair Octet.backslash Octet.quote Octet.quote name)

/-- `_split_field_names` -/
def splitFieldNames (octets : Octets) : List Octets :=
  match octets with
  | [] => []
  | ch :: rest =>
    if isSpace ch then splitFieldNames rest
    else
      let word := fun (_ : Unit) => (ch :: rest).takeWhile (!isSpace ·)
      if ch = Octet.quote then
        match h : quotedName rest with
        | some (name, rest') =>
          have := quotedName_length h
          unescape name :: splitFieldNames rest'
        | none => word () :: splitFieldNames (rest.dropWhile (!isSpace ·))
      else word () :: splitFieldNames (rest.dropWhile (!isSpace ·))
termination_by octets.length
decreasing_by
  all_goals simp only [List.length_cons]
  · omega
  · omega
  all_goals
    have := (List.dropWhile_sublist (fun ch => !isSpace ch) (l := rest)).length_le
    omega

/-- `_FIELDS_RE`: whether it is `HEADER.FIELDS.NOT`, and what stands in the parentheses. -/
def matchFields (octets : Octets) : Option (Bool × Octets) :=
  let named := if ascii "HEADER.FIELDS.NOT" <+: upper octets then some (true, octets.drop 17)
    else if ascii "HEADER.FIELDS" <+: upper octets then some (false, octets.drop 13) else none
  match named with
  | none => none
  | some (invert, rest) =>
    match rest.dropWhile isSpace with
    | [] => none
    | ch :: rest =>
      if ch = Octet.lparen ∧ rest.getLast? = some Octet.rparen then some (invert, rest.dropLast)
      else none

/-- `_parse_section` -/
def parseSection (octets : Octets) : Except ArgError (Section × List Octets) :=
  if octets = [] then .ok (.whole, [])
  else if upper octets = ascii "HEADER" then .ok (.header, [])
  else if upper octets = ascii "TEXT" then .ok (.text, [])
  else match matchFields octets with
    | some (invert, names) =>
      match splitFieldNames names with
      | [] => .error (.fetchSyntax "HEADER.FIELDS requires at least one field name")
      | names => .ok (if invert then .headerFieldsNot else .headerFields, names.map upper)
    | none =>
      if upper octets = ascii "MIME" ∨ (octets.head?.any isDigit) = true then
        .error (.unsupported "unsupported body section (part numbers are not implemented)")
      else .error (.fetchSyntax "invalid body section")

def Section.name : Section → String
  | whole => ""
  | header => "HEADER"
  | text => "TEXT"
  | headerFields => "HEADER.FIELDS"
  | headerFieldsNot => "HEADER.FIELDS.NOT"

/-- The label of a section: what is fetched is named as it was read. -/
def bodyLabel (part : Section) (fields : List Octets) (range : Option (Nat × Nat)) : String :=
  let section_ := match part with
    | .headerFields | .headerFieldsNot =>
      part.name ++ " (" ++ " ".intercalate (fields.map asText) ++ ")"
    | _ => part.name
  "BODY[" ++ section_ ++ "]" ++ match range with
    | some (offset, _) => "<" ++ toString offset ++ ">"
    | none => ""

/-- The offset and the count of a partial. -/
def rangeOf : Option (Octets × Octets) → Except ArgError (Option (Nat × Nat))
  | none => .ok none
  | some (offset, count) => do
    let offset ← toInt offset
    let count ← toInt count
    return some (offset, count)

/-- What `_parse_attr` makes of a match of `_BODY_RE`. -/
def bodyAttr (peek : Bool) (text : Octets) (partial_ : Option (Octets × Octets)) :
    Except ArgError FetchAttr := do
  let range ← rangeOf partial_
  let (part, fields) ← parseSection (strip text)
  return { kind := .body, label := bodyLabel part fields range, peek := peek, part := part,
           fields := fields, range := range }

/-- `_parse_attr` -/
def parseAttr (name : Octets) : Except ArgError FetchAttr :=
  let up := upper name
  if up = ascii "UID" then .ok { kind := .uid, label := "UID" }
  else if up = ascii "FLAGS" then .ok { kind := .flags, label := "FLAGS" }
  else if up = ascii "INTERNALDATE" then .ok { kind := .internaldate, label := "INTERNALDATE" }
  else if up = ascii "RFC822.SIZE" then .ok { kind := .size, label := "RFC822.SIZE" }
  else if up = ascii "RFC822" then .ok { kind := .body, label := "RFC822", peek := false }
  else if up = ascii "RFC822.HEADER" then
    .ok { kind := .body, label := "RFC822.HEADER", part := .header }
  else if up = ascii "RFC822.TEXT" then
    .ok { kind := .body, label := "RFC822.TEXT", peek := false, part := .text }
  else if up = ascii "ENVELOPE" ∨ up = ascii "BODYSTRUCTURE" ∨ up = ascii "BODY" then
    .error (.unsupported ("unsupported fetch item " ++ asText up))
  else match matchBody name with
    | none => .error (.fetchSyntax "invalid fetch item")
    | some (peek, text, partial_) => bodyAttr peek text partial_

/-- Two attributes of one label are one: it is no peek if either is none. -/
def mergeAttr (attrs : List FetchAttr) (a : FetchAttr) : List FetchAttr :=
  match attrs.find? fun e => e.label == a.label with
  | none => attrs ++ [a]
  | some existing =>
    if existing.peek && !a.peek then
      attrs.map fun e => if e.label = a.label then { e with peek := false } else e
    else attrs

/-- The names a FETCH asks for. -/
def fetchNames : Token → Except ArgError (List Octets)
  | .list items => do
    let names ← items.mapM fun item => match item with
      | .atom value => .ok value
      | _ => .error (.fetchSyntax "fetch attributes must be atoms")
    if names = [] then .error (.fetchSyntax "empty fetch attribute list") else .ok names
  | .atom value =>
    if upper value = ascii "FAST" then
      .ok [ascii "FLAGS", ascii "INTERNALDATE", ascii "RFC822.SIZE"]
    else if upper value = ascii "ALL" ∨ upper value = ascii "FULL" then
      .error (.unsupported ("unsupported fetch macro " ++ asText (upper value) ++
        " (ENVELOPE is not implemented)"))
    else .ok [value]
  | _ => .error (.fetchSyntax "invalid fetch attributes")

/-- `parse_fetch_attributes` -/
def parseFetchAttributes (token : Token) : Except ArgError (List FetchAttr) := do
  let names ← fetchNames token
  let attrs ← names.mapM parseAttr
  return attrs.foldl mergeAttr []

/-! ## Section slicing -/

/-- `bytes.find` -/
def findSub (needle : Octets) : Octets → Option Nat
  | [] => if needle = [] then some 0 else none
  | ch :: rest => if needle <+: ch :: rest then some 0 else (findSub needle rest).map (· + 1)

/-- `split_message`: the header with the blank line, and the body. -/
def splitMessage (raw : Bytes) : Bytes × Bytes :=
  match findSub [13, 10, 13, 10] raw with
  | some idx => (raw.take (idx + 4), raw.drop (idx + 4))
  | none => match findSub [10, 10] raw with
    | some idx => (raw.take (idx + 2), raw.drop (idx + 2))
    | none => (raw, [])

/-- `bytes.splitlines`, line ends kept. -/
def physicalLines : Bytes → List Bytes
  | [] => []
  | ch :: rest =>
    if ch = 13 then
      match rest with
      | 10 :: rest => [13, 10] :: physicalLines rest
      | rest => [13] :: physicalLines rest
    else if ch = 10 then [10] :: physicalLines rest
    else match physicalLines rest with
      | [] => [[ch]]
      | line :: lines => (ch :: line) :: lines

/-- The loop of `header_lines`, with the line that is being folded. -/
def foldLines : List Bytes → Bytes → List Bytes
  | [], line => [line]
  | physical :: rest, line =>
    if physical = [13, 10] ∨ physical = [10] then [line]
    else if physical.head? = some 32 ∨ physical.head? = some 9 then
      foldLines rest (line ++ physical)
    else line :: foldLines rest physical

/-- `header_lines` -/
def headerLines (header : Bytes) : List Bytes :=
  match physicalLines header with
  | [] => []
  | physical :: rest =>
    if physical = [13, 10] ∨ physical = [10] then [] else foldLines rest physical

/-- `filter_header` -/
def filterHeader (header : Bytes) (names : List Octets) (invert : Bool) : Bytes :=
  ((headerLines header).filter fun line =>
    let field := upper (strip (line.takeWhile (· ≠ 0x3A)))
    decide (field ∈ names.map upper) != invert).flatMap (fun line =>
      if line.getLast? = some 10 then line else line ++ [13, 10]) ++ [13, 10]

/-- `section_bytes` -/
def sectionBytes (raw : Bytes) (attr : FetchAttr) : Bytes :=
  let data := match attr.part with
    | .whole => raw
    | .header => (splitMessage raw).1
    | .text => (splitMessage raw).2
    | .headerFields => filterHeader (splitMessage raw).1 attr.fields false
    | .headerFieldsNot => filterHeader (splitMessage raw).1 attr.fields true
  match attr.range with
  | some (offset, count) => (data.drop offset).take count
  | none => data

end Imap
end ImapGateway
