namespace IndentedGrammar

def inRanges (ranges : List (Nat × Nat)) (ch : Char) : Bool :=
  ranges.any fun range => range.1 ≤ ch.toNat && ch.toNat ≤ range.2

end IndentedGrammar
