namespace Schemata.Text

/-! Cutting a text into lines and at separators. -/

/-- A line ends at a line feed, together with one carriage return before it.
The text after the last line feed is a line when it is not empty. -/
def lines : List Char → List (List Char)
  | [] => []
  | '\n' :: rest => [] :: lines rest
  | '\r' :: '\n' :: rest => [] :: lines rest
  | char :: rest =>
      match lines rest with
      | [] => [[char]]
      | line :: more => (char :: line) :: more

/-- The pieces between separators, so one more than there are separators. -/
def splitWhere (separates : Char → Bool) : List Char → List (List Char)
  | [] => [[]]
  | char :: rest =>
      if separates char then [] :: splitWhere separates rest
      else
        match splitWhere separates rest with
        | [] => [[char]]
        | piece :: more => (char :: piece) :: more

end Schemata.Text
