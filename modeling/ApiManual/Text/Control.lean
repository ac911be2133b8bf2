/-!
# Control sequences

What a terminal would take as an order and not as text: an escape and a bracket,
parameters, intermediates, and a final character that says what to do.  The three
classes are stretches of ASCII one behind the other: intermediates from the space to
the slash, parameters from the zero to the question mark, finals from the at sign to
the tilde.  Text that is written elsewhere than to a terminal goes without control
sequences.
-/

namespace ApiManual
namespace Text

/-- A parameter of a control sequence. -/
def isParameter (c : Char) : Bool := '0' ≤ c && c ≤ '?'

/-- An intermediate of a control sequence. -/
def isIntermediate (c : Char) : Bool := ' ' ≤ c && c ≤ '/'

/-- A character that ends a control sequence. -/
def isFinal (c : Char) : Bool := '@' ≤ c && c ≤ '~'

/-- How long a control sequence at the front of a text is; zero, if there is none. -/
def sequenceLength : List Char → Nat
  | '\x1b' :: '[' :: rest =>
    let parameters := rest.takeWhile isParameter
    let rest := rest.dropWhile isParameter
    let intermediates := rest.takeWhile isIntermediate
    if (rest.dropWhile isIntermediate).head?.any isFinal then
      parameters.length + intermediates.length + 3
    else 0
  | _ => 0

/-- A text without control sequences; `skip` characters at its front belong to
one. -/
def withoutSequences (skip : Nat) : List Char → List Char
  | [] => []
  | c :: rest =>
    match skip with
    | n + 1 => withoutSequences n rest
    | 0 => match sequenceLength (c :: rest) with
      | n + 1 => withoutSequences n rest
      | 0 => c :: withoutSequences 0 rest

/-- A text without control sequences. -/
def withoutControls (s : String) : String := String.ofList (withoutSequences 0 s.toList)

end Text
end ApiManual
