import ProtectedCall.Json.Scanner

/-!
# Values that are not wanted

The value of an unknown member is stepped over without being built. Its numbers may be out of
range, its escapes may name half a surrogate pair, and it may nest as deep as it likes.

* `skipString`, `skipNumeral`: the pieces.
* `skipStep`: from the place of one value to the place of the next one.
* `skipValue`: steps until nothing is open any more.
-/

namespace ProtectedCall.Json

/-- A list or an object that is still open around a value. -/
inductive Frame where
  | list
  | object
  deriving DecidableEq, Inhabited

/-- Where stepping goes on: at another value inside the open frames, or behind the whole value. -/
inductive Place where
  | value (frames : List Frame) (rest : List Char)
  | finished (rest : List Char)
  deriving DecidableEq, Inhabited

/-- How many characters of an escape follow its backslash. Any four hexadecimal digits will do. -/
def skipEscape : List Char → Except Fault Nat
  | [] => .error .endInString
  | c :: rest =>
    if (shortEscape? c).isSome then .ok 1
    else if c = 'u' then (hexUnit rest).map fun _ => 5
    else .error .invalidEscape

/-- Steps over a string up to its closing quote. The first `escaped` characters belong to an
escape. -/
def skipString (escaped : Nat) : List Char → Except Fault (List Char)
  | [] => .error .endInString
  | c :: rest =>
    match escaped with
    | escaped + 1 => skipString escaped rest
    | 0 =>
      if c = '"' then .ok rest
      else if c = '\\' then do skipString (← skipEscape rest) rest
      else if c < ' ' then .error .controlCharacter
      else skipString 0 rest

/-- Steps over a numeral; whatever is wrong with it, it is an invalid number. -/
def skipNumeral (cs : List Char) : Except Fault (List Char) :=
  match numeral cs with
  | .ok (_, rest) => .ok rest
  | .error _ => .error .invalidNumber

/-- Steps over the name of a member and its colon. -/
def skipName (cs : List Char) : Except Fault (List Char) :=
  match skipBlanks cs with
  | [] => .error .endInObject
  | c :: rest => if c = '"' then do colon (← skipString 0 rest) else .error .keyNotString

/-- The place of the next value inside the innermost frame. -/
def nextPlace (frame : Frame) (frames : List Frame) (cs : List Char) : Except Fault Place :=
  match frame with
  | .list => .ok (.value (.list :: frames) cs)
  | .object => do return .value (.object :: frames) (← skipName cs)

/-- Behind a value: closes the frames that end here. -/
def leave : List Frame → List Char → Except Fault Place
  | [], cs => .ok (.finished cs)
  | frame :: frames, cs =>
    match skipBlanks cs, frame with
    | [], .list => .error .endInList
    | [], .object => .error .endInObject
    | ',' :: rest, frame => nextPlace frame frames rest
    | ']' :: rest, .list => leave frames rest
    | '\x7d' :: rest, .object => leave frames rest
    | _, .list => .error .expectedListEnd
    | _, .object => .error .expectedObjectEnd

/-- Behind an opening bracket or brace: the frame may be empty. -/
def enter (frame : Frame) (frames : List Frame) (cs : List Char) : Except Fault Place :=
  match skipBlanks cs, frame with
  | [], .list => .error .endInList
  | [], .object => .error .endInObject
  | ']' :: rest, .list => leave frames rest
  | '\x7d' :: rest, .object => leave frames rest
  | cs, frame => nextPlace frame frames cs

/-- From the place of a value to the place of the next one. -/
def skipStep (frames : List Frame) (cs : List Char) : Except Fault Place :=
  match skipBlanks cs with
  | [] => .error .endInValue
  | c :: rest =>
    if c = 'n' then do leave frames (← word "ull".toList rest)
    else if c = 't' then do leave frames (← word "rue".toList rest)
    else if c = 'f' then do leave frames (← word "alse".toList rest)
    else if c = '-' || c.isDigit then do leave frames (← skipNumeral (c :: rest))
    else if c = '"' then do leave frames (← skipString 0 rest)
    else if c = '[' then enter .list frames rest
    else if c = '\x7b' then enter .object frames rest
    else .error .expectedValue

/-- At most `steps` steps. Every step takes a character, so a text's length suffices. -/
def skipSteps : Nat → List Frame → List Char → Except Fault (List Char)
  | 0, _, _ => .error .endInValue
  | steps + 1, frames, cs => do
    match ← skipStep frames cs with
    | .value frames rest => skipSteps steps frames rest
    | .finished rest => return rest

/-- Steps over one value. -/
def skipValue (cs : List Char) : Except Fault (List Char) := skipSteps (cs.length + 1) [] cs

end ProtectedCall.Json
