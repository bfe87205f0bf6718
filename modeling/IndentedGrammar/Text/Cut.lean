namespace IndentedGrammar

def cutAt (mark : Char) (text : List Char) : List (List Char) :=
  text.foldr (fun ch pieces => if ch = mark then [] :: pieces else pieces.modifyHead (ch :: ·)) [[]]

def hasDoubled (mark : Char) : List Char → Bool
  | [] => false
  | ch :: text => (ch = mark && text.head? = some mark) || hasDoubled mark text

end IndentedGrammar
