import ConfigStore.Account
import ConfigStore.Tool.Basic

/-! The tools as one program, whose first argument names the tool. The files that a tool may touch are read
before it runs, and what it changed is carried out afterwards. -/

namespace ConfigStore

/-- The environment variables that matter. -/
def knownVariables : List String :=
  ["HOME", homeVariable, selectionVariable]

/-- The place of some names from the root, where two points lead back. -/
def placeOf (names : List String) : Location :=
  names.foldl (fun place name => if name == ".." then place.dropLast else place ++ [name]) []

/-- The paths that a tool may touch: the files that name a backend, and the settings files of all domains that
its arguments may name. -/
def touchedPaths (world : World) (arguments : List String) : List String :=
  let selector := (Selector.ofEnvironment.run world).1
  let settings := match (platformHome.run.run world).1 with
    | .error _ => []
    | .ok home => arguments.filterMap fun domain => (configFile home domain).toOption
  selector.userFile.toList ++ selector.systemFile.toList ++ settings

/-- What is at a path, as far as it is a directory or a file. -/
def probe (path : String) : IO (Option Node) := do
  try
    let data ← (← IO.FS.realPath path).metadata
    match data.type with
    | .dir => return some (.directory Node.directoryMode)
    | .file => return some (.file Node.fileMode (← IO.FS.readBinFile path).data.toList)
    | _ => return none
  catch _ => return none

/-- Reads everything on the way to a path. -/
def readWay (files : FileSystem) (path : String) : IO FileSystem := do
  let names := Path.names path
  let mut known := files
  for count in List.range names.length do
    let place := placeOf (names.take (count + 1))
    match ← probe (placePath place) with
    | some node => known := known.put place node
    | none => pure ()
  return known

/-- The values of the environment variables that matter. -/
def readEnvironment : IO (List (String × String)) :=
  knownVariables.filterMapM fun name => do
    return (← IO.getEnv name).map fun value => (name, value)

/-- The home directory in the account of the user who runs the program. -/
def readAccountHome : IO (Option String) := do
  try
    let status ← IO.FS.readFile "/proc/self/status"
    let accounts ← IO.FS.readFile "/etc/passwd"
    return (userInStatus? status.toList).bind (homeInAccounts? accounts.toList)
  catch _ => return none

/-- Brings what is at a place into being. A file is moved over the one that is there. -/
def carryOut (place : Location) (node : Node) : IO Unit := do
  let path := placePath place
  match node with
  | .directory _ => IO.FS.createDir path
  | .link _ => pure ()
  | .file _ content =>
    let target ← try pure (← IO.FS.realPath path).toString catch _ => pure path
    let temporary := target ++ (default : TemporaryName).text
    IO.FS.writeBinFile temporary (ByteArray.mk content.toArray)
    IO.FS.rename temporary target

/-- Runs a tool on the machine's own files. -/
def runTool (tool : Tool) (arguments : List String) : IO UInt32 := do
  let here := (← IO.currentDir).toString
  let surroundings : World := { environment := ← readEnvironment, accountHome := ← readAccountHome }
  let mut files : FileSystem := { workDir := Path.names here }
  for path in touchedPaths surroundings arguments do
    files ← readWay files (Path.join here path)
  let (outcome, world) := (tool.run arguments).run { surroundings with files := files }
  for (place, node) in world.files.below [] do
    if files.node? place != some node then carryOut place node
  for event in world.events do
    if event.level == .warn then IO.eprintln event.line
  IO.print outcome.output
  for complaint in outcome.complaint.toList do
    IO.eprintln complaint
  return outcome.code.toUInt32

end ConfigStore

/-- Runs the tool that the first argument names. -/
def main (arguments : List String) : IO UInt32 := do
  match arguments with
  | [] => return 2
  | name :: rest =>
    match ConfigStore.Tool.ofName? name with
    | some tool => ConfigStore.runTool tool rest
    | none => return 2
