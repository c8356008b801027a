import Bmx.Switch.BootPlan

/-!
# Rendering the boot files

A file is read line by line and written anew. In config.txt the block between the two markers is replaced, in
cmdline.txt the managed options of the only line with content.
-/

namespace Bmx.Switch

def configBeginMarker : Bytes := ascii "# BEGIN BMX MANAGED"
def configEndMarker : Bytes := ascii "# END BMX MANAGED"

/-- What `fgets` returns until the end of a file, from a line on that is begun: the characters of each call, and
whether the call met the end. -/
def readsFrom : Bytes → Bytes → List (Bytes × Bool)
  | line, [] => if line = [] then [] else [(line, true)]
  | line, c :: input =>
    if c = lf ∨ line.length + 2 = configTxtLineLen then (line ++ [c], false) :: readsFrom [] input
    else readsFrom (line ++ [c]) input

def fileReads (input : Bytes) : List (Bytes × Bool) := readsFrom [] input

def cString (buffer : Bytes) : Bytes := buffer.takeWhile (· ≠ 0)

/-- A line that is not whole and not the last one. -/
def overlong (line : Bytes) (eof : Bool) : Bool := lf ∉ line ∧ !eof

def trim (text : Bytes) : Bytes := ((text.reverse.dropWhile isSpace).reverse).dropWhile isSpace

def lineIsMarker (line marker : Bytes) : Bool := line.length < configTxtLineLen ∧ trim line = marker

/-! ### config.txt -/

structure ConfigRender where
  output : Bytes := []
  inManagedBlock : Bool := false
  foundBegin : Bool := false
  foundEnd : Bool := false

/-- The loop of `render_config_file`, once. -/
def renderConfigLine (plan : BootPlan) (s : ConfigRender) (read : Bytes × Bool) : Option ConfigRender :=
  let line := cString read.1
  if overlong line read.2 then none
  else if lineIsMarker line configBeginMarker then
    if s.inManagedBlock || s.foundBegin then none
    else some { s with
      output := s.output ++ (configBeginMarker ++ lf :: (plan.configOptions ++ (configEndMarker ++ [lf])))
      inManagedBlock := true, foundBegin := true }
  else if lineIsMarker line configEndMarker then
    if !s.inManagedBlock then none else some { s with inManagedBlock := false, foundEnd := true }
  else if !s.inManagedBlock then some { s with output := s.output ++ line }
  else some s

def renderConfigFile (plan : BootPlan) (input : Bytes) : Option Bytes := do
  let s ← (fileReads input).foldlM (renderConfigLine plan) {}
  if s.inManagedBlock || !s.foundBegin || !s.foundEnd then none else return s.output

/-! ### cmdline.txt -/

def optionKey (token : Bytes) : Bytes := token.takeWhile (· ≠ equals)

def cmdlineKeyManaged (plan : BootPlan) (key : Bytes) : Bool := key ∈ plan.managedCmdlineKeys

def cmdlineContentLine (line : Bytes) : Bool :=
  match line.dropWhile isSpace with
  | [] => false
  | c :: _ => c ≠ 35

/-- A text after the others, with a space before it. -/
def appendOption (output text : Bytes) : Option Bytes :=
  appendFormat configTxtLineLen output ((if output = [] then [] else [space]) ++ text)

/-- The loop of `render_cmdline` -/
def keepOption (plan : BootPlan) (output token : Bytes) : Option Bytes :=
  if cmdlineKeyManaged plan (optionKey token) then some output else appendOption output token

/-- `render_cmdline`. The options are those that `strtok` finds. -/
def renderCmdline (plan : BootPlan) (line : Bytes) : Option Bytes := do
  let output ← (words isOptionEnd line).foldlM (keepOption plan) []
  let output ← if plan.cmdlineOptions ≠ [] then appendOption output plan.cmdlineOptions else some output
  if output.length + 1 ≥ configTxtLineLen then none else return output ++ [lf]

structure CmdlineRender where
  output : Bytes := []
  replaced : Bool := false

/-- The loop of `render_cmdline_file`, once. -/
def renderCmdlineLine (plan : BootPlan) (s : CmdlineRender) (read : Bytes × Bool) : Option CmdlineRender :=
  let line := cString read.1
  if overlong line read.2 then none
  else if cmdlineContentLine line then do
    if s.replaced then none
    else
      let line ← renderCmdline plan line
      return { output := s.output ++ line, replaced := true }
  else some { s with output := s.output ++ line }

def renderCmdlineFile (plan : BootPlan) (input : Bytes) : Option Bytes := do
  let s ← (fileReads input).foldlM (renderCmdlineLine plan) {}
  if s.replaced then return s.output
  else if plan.cmdlineOptions.length + 1 ≥ configTxtLineLen then none
  else return s.output ++ (plan.cmdlineOptions ++ [lf])

end Bmx.Switch
