import CommentErasure.Comment.Dissection
import CommentErasure.Text.Utf8

/-!
# Dialects

A dialect is an ordered list of comment rules.  `Dialect.erase` applies each rule once, in this
order, so a later rule sees what the earlier ones have left.  In code, line comments go first:
a `//` hides the block markers behind it.
-/

namespace CommentErasure

namespace Rule

def line : Rule where
  opener := ['/', '/']
  extent := .toLineEnd

def block : Rule where
  opener := ['/', '*']
  extent := .through ['*', '/']

def markup : Rule where
  opener := ['<', '!', '-', '-']
  extent := .through ['-', '-', '>']

end Rule

inductive Dialect where
  | markup
  | code
  deriving DecidableEq, Repr

namespace Dialect

/-- The rules of a dialect, in the order in which they are applied. -/
def rules : Dialect → List Rule
  | .markup => [.markup]
  | .code => [.line, .block]

def erase (dialect : Dialect) (text : Text) : Text :=
  dialect.rules.foldl (fun current rule => rule.erase current) text

def markupEnding : Text := ['.', 'm', 'd']

/-- The dialect of the file at a path, by the spelling of the path alone. -/
def ofPath (path : Bytes) : Dialect :=
  if markupEnding <:+ Utf8.decodeLossy path then .markup else .code

example : markup.erase "a<!-->b-->c".toList = "ac".toList := by cbv

example : code.erase "/*/ a // */\nb".toList = "/*/ a \nb".toList := by cbv

end Dialect

end CommentErasure
