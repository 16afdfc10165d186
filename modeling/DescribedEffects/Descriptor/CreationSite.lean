/-!
# Where a descriptor was created

While effects are being debugged, a factory notes which line of the user's code
it was called from.  The call stack is searched outwards for the first frame that
does not belong to the library, after skipping the frames of the search itself.

A frame belongs to the library when its file lies below the library's directory.
Files are compared as locations: relative names start from the working directory,
and `.`, `..` and doubled slashes are resolved.  They are reported as they were
given.  In a given name the marker `libraryMarker` stands for the library's
directory.
-/

namespace DescribedEffects

/-- One frame of a call stack. -/
structure CallFrame where
  file : String
  line : Int
  function : String

namespace CreationSite

/-- What stands for the library's directory in the name of a file. -/
def libraryMarker : String := "\x7bPKG\x7d"

/-- An absolute location: whether it is in the alternative root that two leading
slashes name, and its components. -/
structure Location where
  alternative : Bool
  components : List String
  deriving DecidableEq

/-- The library's directory.  Its parent is named by the marker, so that no other
file is below it. -/
def libraryDirectory : Location := ⟨false, [libraryMarker, "effectpath"]⟩

/-- The directory that relative names start from. -/
def workingDirectory : List String := ["work"]

/-- Follows components from a directory: a dot stays, two dots go up, and an
empty component is a doubled slash. -/
def follow (directory : List String) (components : List String) : List String :=
  components.foldl (fun at_ c =>
    if c = "" ∨ c = "." then at_ else if c = ".." then at_.dropLast else at_ ++ [c]) directory

/-- The location that the name of a file stands for. -/
def locate (file : String) : Location :=
  let name := file.replace libraryMarker ("/" ++ "/".intercalate libraryDirectory.components)
  let parts := name.splitOn "/"
  if !name.startsWith "/" then ⟨false, follow workingDirectory parts⟩
  else ⟨name.startsWith "//" && !name.startsWith "///", follow [] parts⟩

/-- The file lies below the library's directory. -/
def isInternal (file : String) : Bool :=
  let l := locate file
  !l.alternative && libraryDirectory.components.isPrefixOf l.components &&
    decide (libraryDirectory.components.length < l.components.length)

/-- A frame of the library itself. -/
def ownFrame (function : String) : CallFrame := ⟨libraryMarker ++ "/" ++ function, 0, function⟩

/-- The frame of the search. -/
def searchFrame : CallFrame := ownFrame "capture"

/-- How a frame is reported. -/
def report (f : CallFrame) : String := f.file ++ ":" ++ toString f.line ++ " in " ++ f.function

/-- The first frame outside the library, after skipping `skip` frames of a stack
given from the innermost frame outwards. -/
def capture (stack : List CallFrame) (skip : Int) : Option String :=
  ((stack.drop skip.toNat).find? fun f => !isInternal f.file).map report

end CreationSite
end DescribedEffects
