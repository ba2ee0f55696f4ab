import Rsupervisord.Config.Schema
import Rsupervisord.Support.Text

/-!
# Cron table and configuration check

The cron schedules of the managed programs, and `ProgramConfig::validate`, the check that a program
passes when it is instantiated. Cron expressions are those of the `croner` library, known through
the two functions that the program calls; a parsed expression is represented by its text.

Wall-clock times are integers.
-/

namespace Rsupervisord

/-- The functions of the `croner` library. -/
structure Croner where
  /-- Parse an expression; the error is its text. -/
  parse : String → Except String Unit
  /-- The first occurrence of an expression after a time; `none` when the search fails. -/
  findNextOccurrence : String → ℤ → Option ℤ

/-- The check of one optional cron expression. -/
def validateCron (croner : Croner) (name : String) (expression : Option String) :
    Except ProgramError Unit :=
  match expression with
  | some expression =>
      match croner.parse expression with
      | .ok () => .ok ()
      | .error reason => .error (.invalidCronExpression name expression reason)
  | none => .ok ()

/-- `ProgramConfig::validate`. -/
def ProgramConfig.validate (cfg : ProgramConfig) (croner : Croner) : Except ProgramError Unit := do
  if cfg.priority > 999 then
    throw (.configError
      s!"Program '{cfg.name}' priority {cfg.priority} must be in range [0, 999]")
  if (Text.trim cfg.command).isEmpty then
    throw (.configError s!"Program '{cfg.name}' command cannot be empty")
  validateCron croner cfg.name cfg.cron
  validateCron croner cfg.name cfg.cronStop

/-- An action that a due schedule triggers. -/
inductive CronAction
  | start (name group expression : String)
  | stop (name group expression : String)
  deriving DecidableEq, Repr

/-- One schedule. -/
structure CronEntry where
  name : String
  group : String
  isStop : Bool
  expression : String
  nextRun : ℤ
  deriving DecidableEq, Repr

/-- The active schedules. -/
structure CronTable where
  entries : List CronEntry
  deriving DecidableEq, Repr

namespace CronTable

/-- The entry of one optional expression; an expression that has no next run gets none. -/
def entryOf (croner : Croner) (now : ℤ) (name : String) (cfg : ProgramConfig) (isStop : Bool)
    (expression : Option String) : List CronEntry :=
  match expression with
  | some expression =>
      match croner.parse expression, croner.findNextOccurrence expression now with
      | .ok (), some nextRun => [⟨name, cfg.group, isStop, expression, nextRun⟩]
      | _, _ => []
  | none => []

/-- `CronTable::from_configs` at the time `now`. -/
def fromConfigs (croner : Croner) (order : HashOrder String) (now : ℤ) (configs : ProgramConfigs) :
    CronTable where
  entries := (configs.iter order).flatMap fun e =>
    entryOf croner now e.1 e.2 false e.2.cron ++ entryOf croner now e.1 e.2 true e.2.cronStop

/-- The time of the earliest next run; there is a deadline when there is one. -/
def earliestNextRun (t : CronTable) : Option ℤ := (t.entries.map (·.nextRun)).min?

/-- `pop_due_actions`: the actions due at `now`, and the table with their next runs advanced. An
entry without a next occurrence keeps its next run. -/
def popDueActions (t : CronTable) (croner : Croner) (now : ℤ) : List CronAction × CronTable :=
  let due := t.entries.filter fun e => e.nextRun ≤ now
  (due.map fun e =>
      if e.isStop then .stop e.name e.group e.expression
      else .start e.name e.group e.expression,
    { entries := t.entries.map fun e =>
        if e.nextRun ≤ now then
          { e with nextRun := (croner.findNextOccurrence e.expression now).getD e.nextRun }
        else e })

end CronTable

end Rsupervisord
