import FirmwareTests.Text.Segments

/-!
# Tokens

A document is a row of tokens. Tags keep the text between their brackets, for names
and attributes are found in it only when they are asked for. `Token.render` writes a
token in its usual spelling.
-/

namespace FirmwareTests
namespace Markup

def isSpace (c : Char) : Bool :=
  c == ' ' || c == '\r' || c == '\n' || c == '\t'

/-- A start tag or an empty tag: the text between its brackets, without the final
slash of an empty tag. -/
structure Tag where
  text : List Char
  deriving DecidableEq, Repr

/-- The name of a tag runs to the first white space. -/
def Tag.name (t : Tag) : List Char :=
  t.text.takeWhile fun c => !isSpace c

def Tag.attributeText (t : Tag) : List Char :=
  t.text.dropWhile fun c => !isSpace c

theorem Tag.name_append_attributeText (t : Tag) : t.name ++ t.attributeText = t.text :=
  List.takeWhile_append_dropWhile

/-- An end tag: the text between its slash and its bracket. -/
structure EndTag where
  text : List Char
  deriving DecidableEq, Repr

/-- The name of an end tag is its text without trailing white space, or all of its text
when it is nothing but white space. A form feed is not white space and stays in the name. -/
def EndTag.name (t : EndTag) : List Char :=
  if t.text.all isSpace then t.text else Text.dropEndWhile isSpace t.text

example : (⟨"a\x0c\r\n".toList⟩ : EndTag).name = "a\x0c".toList := by decide

/-- A token. An XML declaration is an instruction whose text begins with `xml`. -/
inductive Token where
  | text (raw : List Char)
  | start (tag : Tag)
  | empty (tag : Tag)
  | close (tag : EndTag)
  | cdata (raw : List Char)
  | comment (raw : List Char)
  | instruction (raw : List Char)
  | doctype (raw : List Char)
  deriving DecidableEq, Repr

/-- The usual spelling of a token. -/
def Token.render : Token → List Char
  | text raw => raw
  | start tag => "<".toList ++ tag.text ++ ">".toList
  | empty tag => "<".toList ++ tag.text ++ "/>".toList
  | close tag => "</".toList ++ tag.name ++ ">".toList
  | cdata raw => "<![CDATA[".toList ++ raw ++ "]]>".toList
  | comment raw => "<!--".toList ++ raw ++ "-->".toList
  | instruction raw => "<?".toList ++ raw ++ "?>".toList
  | doctype raw => "<!DOCTYPE ".toList ++ raw ++ ">".toList

def render (tokens : List Token) : List Char :=
  tokens.flatMap Token.render

@[simp] theorem render_nil : render [] = [] := rfl

@[simp] theorem render_cons (t : Token) (ts : List Token) :
    render (t :: ts) = t.render ++ render ts := rfl

@[simp] theorem render_append (ts us : List Token) :
    render (ts ++ us) = render ts ++ render us := by
  simp [render]

/-- The number of elements open after a token, given the number before it. -/
def Token.depthAfter (depth : Nat) : Token → Nat
  | start _ => depth + 1
  | close _ => depth - 1
  | _ => depth

/-- The number of elements that a row of tokens leaves open. -/
def openElements (tokens : List Token) : Nat :=
  tokens.foldl Token.depthAfter 0

end Markup
end FirmwareTests
