/-!
# Places in bytes

Places in a text, counted in the bytes that UTF-8 takes for the characters before.
A text is cut where no character takes bytes on both sides.
-/

namespace ServingSweep.Text

def byteCount : List Char → Nat
  | [] => 0
  | c :: cs => c.utf8Size + byteCount cs

/-- The text of the first `n` bytes, and the rest. -/
def splitAt? : Nat → List Char → Option (List Char × List Char)
  | 0, cs => some ([], cs)
  | _ + 1, [] => none
  | n + 1, c :: cs =>
    if c.utf8Size ≤ n + 1 then
      (splitAt? (n + 1 - c.utf8Size) cs).map (fun (front, rest) => (c :: front, rest))
    else none

def piece? (start stop : Nat) (cs : List Char) : Option (List Char) :=
  (splitAt? start cs).bind (fun cut => (splitAt? (stop - start) cut.2).map Prod.fst)

end ServingSweep.Text
