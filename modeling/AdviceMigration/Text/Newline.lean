/-!
# Line breaks

A file keeps the line break style of its first line break. Inside the library every text uses a bare line feed; carriage returns that belong to a line break are dropped when text is captured and put back when a file is written.
-/

namespace AdviceMigration.Text

inductive NewlineStyle where
  | lf
  | crlf
  deriving DecidableEq, Repr, Inhabited

namespace NewlineStyle

def text : NewlineStyle → String
  | lf => "\n"
  | crlf => "\r\n"

/-- The style of the first line break; a line feed on its own when there is none. -/
def detect : List Char → NewlineStyle
  | [] => lf
  | '\r' :: '\n' :: _ => crlf
  | '\n' :: _ => lf
  | _ :: rest => detect rest

end NewlineStyle

/-- Drops every carriage return that stands directly in front of a line feed. -/
def unifyChars : List Char → List Char
  | [] => []
  | '\r' :: '\n' :: rest => '\n' :: unifyChars rest
  | c :: rest => c :: unifyChars rest

def unifyNewlines (text : String) : String :=
  String.ofList (unifyChars text.toList)

/-- Writes every line feed in the given style. -/
def NewlineStyle.expand (style : NewlineStyle) (text : String) : String :=
  match style with
  | lf => text
  | crlf => String.ofList (text.toList.flatMap fun c => if c = '\n' then ['\r', '\n'] else [c])

/-- Splits after each line feed and collects the current line in `line`, reversed. A line that ends in a line break loses it, a carriage return included; the last line is kept as it is. -/
def splitLines (line : List Char) : List Char → List (List Char)
  | [] => if line.isEmpty then [] else [line.reverse]
  | '\n' :: rest =>
    let ended := match line with
      | '\r' :: shorter => shorter
      | _ => line
    ended.reverse :: splitLines [] rest
  | c :: rest => splitLines (c :: line) rest

/-- The lines of a text, without their line breaks. A final line break starts no further line. -/
def lines (text : String) : List (List Char) :=
  splitLines [] text.toList

end AdviceMigration.Text
