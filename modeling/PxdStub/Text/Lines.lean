/-!
Lines of text. A line ends at a line feed, and a carriage return right before that line feed
belongs to the line end. Text that ends in a line feed has no empty last line.
-/

namespace PxdStub.Text

def lines : List Char → List (List Char)
  | [] => []
  | '\n' :: rest => [] :: lines rest
  | '\r' :: '\n' :: rest => [] :: lines rest
  | c :: rest =>
      match lines rest with
      | line :: more => (c :: line) :: more
      | [] => [[c]]

end PxdStub.Text
