/-!
# Writing into an empty folder

What becomes of an attempt to create a file when the working folder holds
nothing yet: the only folders that a path can lead through are that folder
itself and those around it. A run that is to start in such a folder takes
`attempt` for its argument `write`, and `fileName?` tells which file it leaves
behind.
-/

namespace Calculator.CommandLine.Folder

/-- The parts of a path between slashes. -/
def parts (path : String) : List String := path.splitToList (· == '/')

/-- Parts that lead to a folder which exists. -/
def isStep (part : String) : Bool := part == "" || part == "." || part == ".."

def missing : String := "No such file or directory (os error 2)"

def isFolder : String := "Is a directory (os error 21)"

def nameTooLong : String := "File name too long (os error 36)"

/-- A file name has at most 255 bytes. -/
def named (name : String) : Except String String :=
  if 255 < name.utf8ByteSize then .error nameTooLong else .ok name

/-- Walk along the parts of a path to the name of a file. A last part that is a
step names a folder, and so does a name with nothing but slashes behind it. Any
other name with parts behind it leads nowhere. -/
def walk : List String → Except String String
  | [] => .error missing
  | [name] => if isStep name then .error isFolder else named name
  | part :: rest =>
    if isStep part then walk rest
    else do
      let _ ← named part
      if rest.all (· == "") then .error isFolder else .error missing

/-- Whether a path leads out of the folder. -/
def leavesFolder (path : String) : Bool :=
  (parts path).contains ".." || path.toList.head? == some '/'

/-- Why a path cannot be written, if it cannot. This is the `write` of a run in an
empty working folder. -/
def attempt (path : String) : Except String Unit := (walk (parts path)).map fun _ => ()

/-- The name in the folder of the file that a path creates. -/
def fileName? (path : String) : Option String :=
  if leavesFolder path then none else (walk (parts path)).toOption

end Calculator.CommandLine.Folder
