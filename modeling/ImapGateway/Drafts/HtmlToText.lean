/-
HTML bodies as text.

The flattener is fed with tags and data and counts, in one number, how many elements are
open that it skips.  A head that is left open where the body begins is counted to the end
of the document, and all data with it.
-/
import Mathlib.Data.List.SplitBy
import Mathlib.Data.List.Basic

namespace ImapGateway
namespace Drafts

/-- What the tokenizer of HTML calls the flattener with. -/
inductive Event where
  | startTag (tag : String) (attrs : List (String × Option (List Char)))
  | startEndTag (tag : String) (attrs : List (String × Option (List Char)))
  | endTag (tag : String)
  | data (text : List Char)

/-- White space: `str.isspace`, and `\s` of a pattern. -/
def isSpace (c : Char) : Bool :=
  let n := c.toNat
  decide (9 ≤ n) && decide (n ≤ 13) || decide (28 ≤ n) && decide (n ≤ 32) || decide (n = 0x85) ||
    decide (n = 0xA0) || decide (n = 0x1680) || decide (0x2000 ≤ n) && decide (n ≤ 0x200A) ||
    decide (n = 0x2028) || decide (n = 0x2029) || decide (n = 0x202F) || decide (n = 0x205F) ||
    decide (n = 0x3000)

def blockTags : List String :=
  ["address", "article", "aside", "blockquote", "div", "dd", "dt", "fieldset", "footer", "form",
    "header", "hr", "li", "main", "nav", "ol", "pre", "section", "table", "tr", "ul"]

def paragraphTags : List String := ["p", "h1", "h2", "h3", "h4", "h5", "h6"]

def skipTags : List String := ["script", "style", "head", "title", "template"]

/-- `_HtmlToText`, with the pieces written so far in order. -/
structure HtmlToText where
  out : List (List Char) := []
  skip : Nat := 0
  pre : Nat := 0
  href : Option (List Char) := none
  linkText : List (List Char) := []

namespace HtmlToText

def emit (s : HtmlToText) (piece : List Char) : HtmlToText := { s with out := s.out ++ [piece] }

/-- `dict(attrs).get` -/
def attr (attrs : List (String × Option (List Char))) (name : String) : Option (List Char) :=
  (attrs.reverse.lookup name).join

def lstrip (text : List Char) : List Char := text.dropWhile isSpace

def rstrip (text : List Char) : List Char := (text.reverse.dropWhile isSpace).reverse

def handleStarttag (s : HtmlToText) (tag : String) (attrs : List (String × Option (List Char))) :
    HtmlToText :=
  if tag ∈ skipTags then { s with skip := s.skip + 1 }
  else if s.skip ≠ 0 then s
  else if tag = "br" then s.emit ['\n']
  else if tag = "pre" then { s with pre := s.pre + 1 }.emit ['\n']
  else if tag ∈ paragraphTags then s.emit ['\n', '\n']
  else if tag ∈ blockTags then
    let s := s.emit ['\n']
    if tag = "li" then s.emit ['-', ' '] else s
  else if tag = "a" then
    let href := match attr attrs "href" with
      | some href => if href = [] then none else some (rstrip (lstrip href))
      | none => none
    { s with href := href, linkText := [] }
  else if tag = "img" then
    match attr attrs "alt" with
    | some alt => if alt = [] then s else s.emit alt
    | none => s
  else s

variable (lower : List Char → List Char)

/-- `str.startswith` of the text in small letters. -/
def startsWith (text : List Char) (word : String) : Bool := word.toList.isPrefixOf (lower text)

/-- The target a link is given behind its text. -/
def target (href text : List Char) : Option (List Char) :=
  if href = [] ∨ startsWith lower href "javascript:" ∨ startsWith lower href "cid:" then none
  else
    let target := if startsWith lower href "mailto:" then href.drop 7 else href
    if target ≠ [] ∧ target ≠ text then some target else none

def handleEndtag (s : HtmlToText) (tag : String) : HtmlToText :=
  if tag ∈ skipTags then { s with skip := s.skip - 1 }
  else if s.skip ≠ 0 then s
  else if tag = "pre" then { s with pre := s.pre - 1 }.emit ['\n']
  else if tag ∈ paragraphTags then s.emit ['\n', '\n']
  else if tag ∈ blockTags ∧ tag ≠ "li" then s.emit ['\n']
  else if tag = "a" then
    let text := rstrip (lstrip s.linkText.flatten)
    let s' := { s with href := none }
    match s.href with
    | none => s'
    | some href => match target lower href text with
      | none => s'
      | some target => s'.emit ([' ', '<'] ++ target ++ ['>'])
  else s

def handleStartendtag (s : HtmlToText) (tag : String)
    (attrs : List (String × Option (List Char))) : HtmlToText :=
  let s := s.handleStarttag tag attrs
  if tag ∈ ["br", "img", "hr"] then s else s.handleEndtag lower tag

/-- Runs of white space, each as one blank. -/
def collapse (inRun : Bool) : List Char → List Char
  | [] => []
  | c :: rest =>
    if isSpace c then if inRun then collapse true rest else ' ' :: collapse true rest
    else c :: collapse false rest

/-- Whether what was written last ends a line or begins an item. -/
def atLineStart (s : HtmlToText) : Bool :=
  match s.out.getLast? with
  | none => true
  | some piece => ['\n'].isSuffixOf piece || ['-', ' '].isSuffixOf piece

/-- Data as it is written, a link's to its text as well. -/
def append (s : HtmlToText) (text : List Char) : HtmlToText :=
  let s := s.emit text
  if s.href.isSome then { s with linkText := s.linkText ++ [text] } else s

def handleData (s : HtmlToText) (text : List Char) : HtmlToText :=
  if s.skip ≠ 0 then s
  else if s.pre ≠ 0 then s.append text
  else
    let text := collapse false (text.map fun c => if c = Char.ofNat 0xA0 then ' ' else c)
    let text := if s.atLineStart then text.dropWhile (· = ' ') else text
    if text = [] then s else s.append text

def step (s : HtmlToText) : Event → HtmlToText
  | .startTag tag attrs => s.handleStarttag tag attrs
  | .startEndTag tag attrs => s.handleStartendtag lower tag attrs
  | .endTag tag => s.handleEndtag lower tag
  | .data text => s.handleData text

/-- Runs of more than two line ends, each as two. -/
def squeeze (ends : Nat) : List Char → List Char
  | [] => []
  | c :: rest =>
    if c = '\n' then if ends < 2 then c :: squeeze (ends + 1) rest else squeeze ends rest
    else c :: squeeze 0 rest

def stripEnds (text : List Char) : List Char :=
  ((text.dropWhile (· = '\n')).reverse.dropWhile (· = '\n')).reverse

def text (s : HtmlToText) : List Char :=
  let lines := (s.out.flatten.splitOn '\n').map rstrip
  let text := stripEnds (squeeze 0 (['\n'].intercalate lines))
  if text = [] then [] else text ++ ['\n']

end HtmlToText

/-- `html_to_text` of what the tokenizer makes of the document. -/
def htmlToText (lower : List Char → List Char) (events : List Event) : List Char :=
  (events.foldl (HtmlToText.step lower) {}).text

end Drafts
end ImapGateway
