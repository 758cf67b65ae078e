import Reshape.Yaml.Basic

/-! # Places in a YAML text

Blocks are told apart by the columns that their entries start in, so a place in the text carries its
line and its column. -/

namespace Reshape.Yaml

/-- A place in a text. -/
structure Cursor where
  /-- What follows. -/
  rest : List Char
  line : Nat := 0
  column : Nat := 0
  /-- Whether only blanks and marks of entries stand before in the line; a block may start only
  there. -/
  fresh : Bool := true

/-- Whether a character is a blank within a line. -/
def isBlank (c : Char) : Bool := c = ' ' || c = '\t'

/-- Whether a word ends before what follows. -/
def endsWord : List Char → Bool
  | [] => true
  | c :: _ => isBlank c || c = '\n'

/-- Whether a line of three dashes or dots, as between documents, starts here. -/
def isDocumentMark (c : Char) (chars : List Char) : Bool :=
  chars.take 3 == [c, c, c] && endsWord (chars.drop 3)

namespace Cursor

/-- Go on by some characters of the line. -/
def advance (cursor : Cursor) (n : Nat) : Cursor :=
  { cursor with rest := cursor.rest.drop n, column := cursor.column + n }

/-- Go on to where `rest` is left, which ends a value. -/
def moveTo (cursor : Cursor) (rest : List Char) : Cursor :=
  let passed := cursor.rest.take (cursor.rest.length - rest.length)
  let (line, column) := passed.foldl
    (fun (line, column) c => if c = '\n' then (line + 1, 0) else (line, column + 1))
    (cursor.line, cursor.column)
  { rest, line, column, fresh := false }

/-- Whether there is nothing more of the document. -/
def atEnd (cursor : Cursor) : Bool :=
  cursor.rest.isEmpty || cursor.column == 0 &&
    (isDocumentMark '-' cursor.rest || isDocumentMark '.' cursor.rest)

/-- Whether an entry of a block sequence starts here. -/
def atEntry (cursor : Cursor) : Bool :=
  match cursor.rest with
  | '-' :: rest => endsWord rest
  | _ => false

/-- Pass over blanks, comments and ends of lines. Within brackets, tabs are blanks everywhere; else
they may not indent a line. -/
def skipFrom (brackets comment : Bool) (line column : Nat) (fresh : Bool) :
    List Char → Option Cursor
  | [] => some { rest := [], line, column, fresh }
  | c :: rest =>
    if c = '\n' then skipFrom brackets false (line + 1) 0 true rest
    else if comment then skipFrom brackets true line (column + 1) fresh rest
    else if c = '#' then skipFrom brackets true line (column + 1) fresh rest
    else if c = ' ' then skipFrom brackets false line (column + 1) fresh rest
    else if c = '\t' then
      if brackets || !fresh then skipFrom brackets false line (column + 1) fresh rest
      else none
    else some { rest := c :: rest, line, column, fresh }

/-- The next place where something stands. -/
def skip (brackets : Bool) (cursor : Cursor) : Option Cursor :=
  skipFrom brackets false cursor.line cursor.column cursor.fresh cursor.rest

end Cursor

end Reshape.Yaml
