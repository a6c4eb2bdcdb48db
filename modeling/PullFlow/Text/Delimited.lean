/-!
Cutting text at a delimiter and joining it again. A delimiter is looked for from left to right
and its occurrences do not overlap. The empty delimiter stands before, after and between all
characters.
-/

namespace PullFlow.Text

/-- The pieces of a text between occurrences of `d`, which is not empty. The first `skip`
characters belong to an occurrence already counted, and `piece` is the piece being collected,
backwards. -/
def piecesFrom (d : List Char) : Nat → List Char → List Char → List (List Char)
  | _, piece, [] => [piece.reverse]
  | skip + 1, piece, _ :: rest => piecesFrom d skip piece rest
  | 0, piece, c :: rest =>
      if d.isPrefixOf (c :: rest) then
        piece.reverse :: piecesFrom d (d.length - 1) [] rest
      else piecesFrom d 0 (c :: piece) rest

/-- The pieces of `cs` between occurrences of `d`. -/
def pieces (d cs : List Char) : List (List Char) :=
  if d.isEmpty then [] :: cs.map ([·]) ++ [[]] else piecesFrom d 0 [] cs

/-- The pieces of `s` between occurrences of `d`, in order. -/
def split (d s : String) : List String := (pieces d.toList s.toList).map String.ofList

/-- Pieces with a delimiter between neighbours. -/
def join (d : String) (parts : List String) : String := d.intercalate parts

/-- Whether `part` occurs in a text. -/
def occursIn (part : List Char) : List Char → Bool
  | [] => part.isEmpty
  | c :: rest => part.isPrefixOf (c :: rest) || occursIn part rest

/-- Whether `part` occurs in `s`. -/
def contains (s part : String) : Bool := occursIn part.toList s.toList

/-- What stands before a given end of a text, if the text ends so. -/
def beforeEnd? (ending : List Char) (cs : List Char) : Option (List Char) :=
  if ending.reverse.isPrefixOf cs.reverse then some (cs.take (cs.length - ending.length)) else none

/-- A line without the marks at its end. -/
def bareLine (s : String) : String :=
  String.ofList (s.toList.reverse.dropWhile (fun c => c == '\n' || c == '\r')).reverse

/-- The lines of a text. A last line need not be ended. -/
def lines (s : String) : List String :=
  let parts := split "\n" s
  (if parts.getLast? == some "" then parts.dropLast else parts).map bareLine

end PullFlow.Text
