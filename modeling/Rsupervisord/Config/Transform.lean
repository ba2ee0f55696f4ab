import Rsupervisord.Config.CommandLine
import Rsupervisord.Config.Expand
import Rsupervisord.Support.UnixPath

/-!
# The configuration transform

Every string of a configuration is expanded, and with path translation a path is made absolute
against the directory of the configuration file, and so is the first token of a command.
-/

namespace Rsupervisord

namespace Transform

/-- What a string field holds. -/
inductive Kind
  | path
  | command
  | default
  deriving DecidableEq, Repr

/-- The boundary of a configuration file. -/
structure Ctx where
  /-- The directory of the configuration file, the anchor of relative paths. -/
  configDir : Option String
  pathTranslation : Bool

/-- A text looks like an absolute path, of whatever platform. -/
def isAbsLike (s : String) : Bool :=
  match s.toList with
  | '/' :: _ => true
  | '\\' :: '\\' :: _ => true
  | drive :: ':' :: sep :: _ => drive.isAlpha && (sep = '/' || sep = '\\')
  | _ => false

/-- The path as seen from the directory, without dots. -/
def anchored (configDir : Option String) (value : String) : String :=
  UnixPath.lexicalNorm (UnixPath.join (configDir.getD ".") value)

/-- The values that are no relative paths: empty ones, the sentinels `AUTO` and `NONE`, and what
looks like an absolute path. -/
def isVerbatim (value : String) : Bool :=
  let trimmed := Text.trim value
  trimmed.isEmpty || Text.eqIgnoreAsciiCase trimmed "AUTO" ||
    Text.eqIgnoreAsciiCase trimmed "NONE" || isAbsLike trimmed

/-- Make a relative path absolute against the directory of the configuration. -/
def absolutize (value : String) (configDir : Option String) : String :=
  if isVerbatim value then value else anchored configDir value

/-- Expand a string; with path translation make a path or a command absolute. `split` splits a
command line on the platform. -/
def translateString (split : String → Except String (List String)) (osEnv : String → Option String)
    (vars : HashMap String String) (ctx : Ctx) (kind : Kind) (s : String) : String :=
  let expanded := MacroExpander.expandValueWithExpr osEnv vars s
  match kind with
  | .path => if ctx.pathTranslation then absolutize expanded ctx.configDir else expanded
  | .command =>
      if ctx.pathTranslation then
        CommandLine.translateCommand split (absolutize · ctx.configDir) expanded
      else expanded
  | .default => expanded

end Transform

end Rsupervisord
