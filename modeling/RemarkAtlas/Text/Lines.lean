/-!
The lines of a text.  A line ends at a line feed, which may follow a carriage return; what follows
the last line feed is a line unless it is empty, and keeps a carriage return at its end.
-/

namespace RemarkAtlas.Text

def dropCarriageReturn : List Char → List Char
  | '\r' :: reversed => reversed
  | reversed => reversed

def linesFrom : List Char → List Char → List (List Char)
  | [], [] => []
  | reversed, [] => [reversed.reverse]
  | reversed, char :: rest =>
    if char = '\n' then (dropCarriageReturn reversed).reverse :: linesFrom [] rest
    else linesFrom (char :: reversed) rest

def lines (text : String) : List String := (linesFrom [] text.toList).map String.ofList

end RemarkAtlas.Text
