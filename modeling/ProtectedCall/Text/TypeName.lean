/-!
# Short type names

A full type name is a path of segments divided by double colons, perhaps followed by generic
arguments in angle brackets: `shop::stock::Shelf<shop::Box>`.

* `beforeArguments`: the path alone, up to the first opening angle bracket.
* `lastSegment`: what follows the last double colon of a path.
* `shortTypeName`: the last segment of the path, `Shelf` above. The arguments are cut first, so
  the paths inside them never count.
-/

namespace ProtectedCall.Text

/-- The characters before the first opening angle bracket. -/
def beforeArguments (name : List Char) : List Char := name.takeWhile (· != '<')

/-- The characters after the last double colon, or `candidate` where there is none. Of three or
more colons in a row the last two divide. -/
def afterLastDivider (candidate : List Char) : List Char → List Char
  | ':' :: ':' :: rest => afterLastDivider rest (':' :: rest)
  | _ :: rest => afterLastDivider candidate rest
  | [] => candidate

/-- The last segment of a path: all of it where no double colon divides it. -/
def lastSegment (path : List Char) : List Char := afterLastDivider path path

/-- The last segment of a type name, without generic arguments. -/
def shortTypeName (name : String) : String :=
  String.ofList (lastSegment (beforeArguments name.toList))

end ProtectedCall.Text
