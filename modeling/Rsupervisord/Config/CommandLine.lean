import Mathlib.Data.String.Basic
import Rsupervisord.Support.ShellWords

/-!
# Command lines

The path translation of a command splits it into tokens, makes the first token absolute and joins
the tokens with quotes of its own. The start of a program splits the result again, on Unix as a
shell does and on Windows with its rules for backslashes before double quotes.
-/

namespace Rsupervisord

/-- The platform that a command line is split for. -/
inductive Platform
  | unix
  | windows
  deriving DecidableEq, Repr

namespace CommandLine

/-! ## Joining tokens -/

/-- A backslash before every double quote. -/
def escapeQuotes (token : List Char) : List Char :=
  token.flatMap fun c => if c = '"' then ['\\', '"'] else [c]

/-- A token contains a space, a tab or a double quote. -/
def needsQuotes (token : List Char) : Bool :=
  token.contains ' ' || token.contains '\t' || token.contains '"'

/-- A token on a command line, as characters. -/
def quoteToken (token : List Char) : List Char :=
  if token = [] then ['"', '"']
  else if needsQuotes token then '"' :: escapeQuotes token ++ ['"']
  else token

/-- A token on a command line. -/
def quoteTokenIfNeeded (token : String) : String := .ofList (quoteToken token.toList)

/-- The command line of some tokens. -/
def joinCommandTokens (tokens : List String) : String :=
  " ".intercalate (tokens.map quoteTokenIfNeeded)

/-! ## Splitting a command line -/

/-- An argument that has been read, unless it is empty. -/
def endArg (current : List Char) : List (List Char) := if current = [] then [] else [current]

/-- The arguments on Windows, behind `slashes` backslashes that were read and not used yet. A run of
backslashes stands for itself, unless a double quote is behind it: then two of them are one, and one
that is left over takes the quote as a character. -/
def windowsArgs : ℕ → Bool → List Char → List Char → List (List Char)
  | slashes, _, current, [] => endArg (current ++ .replicate slashes '\\')
  | slashes, inQuotes, current, c :: cs =>
      if c = '\\' then windowsArgs (slashes + 1) inQuotes current cs
      else if c = '"' then
        if slashes % 2 = 1 then
          windowsArgs 0 inQuotes (current ++ .replicate (slashes / 2) '\\' ++ ['"']) cs
        else windowsArgs 0 (!inQuotes) (current ++ .replicate (slashes / 2) '\\') cs
      else if (c = ' ' || c = '\t') && !inQuotes then
        endArg (current ++ .replicate slashes '\\') ++ windowsArgs 0 inQuotes [] cs
      else windowsArgs 0 inQuotes (current ++ .replicate slashes '\\' ++ [c]) cs

end CommandLine

/-- The tokens of a command line. `shellWords` splits the words of a shell. -/
def Platform.splitCommandLine (shellWords : String → Except String (List String)) :
    Platform → String → Except String (List String)
  | .unix, cmd => shellWords cmd
  | .windows, cmd => .ok ((CommandLine.windowsArgs 0 false [] cmd.toList).map .ofList)

namespace CommandLine

/-- A token looks like a path. -/
def isPath (token : String) : Bool := token.toList.contains '/' || token.toList.contains '\\'

/-- Make the first token of a command absolute when it is a path. -/
def translateCommand (split : String → Except String (List String)) (absolutize : String → String)
    (cmdStr : String) : String :=
  match split cmdStr with
  | .ok (first :: rest) =>
      if isPath first then joinCommandTokens (absolutize first :: rest) else cmdStr
  | _ => cmdStr

/-! ## Tokens that survive -/

/-- Between double quotes, no backslash is directly before one of the characters or the closing
quote. -/
def safeQuoted (specials : List Char) : List Char → Bool
  | [] => true
  | c :: cs => (c ≠ '\\' || cs.headD '"' ∉ specials) && safeQuoted specials cs

/-- Without quotes, no single quote, newline or backslash, except for one backslash at the end of
the whole line. -/
def safeBare (last : Bool) : List Char → Bool
  | [] => true
  | c :: cs =>
      if c = '\\' then last && cs.isEmpty
      else c ≠ '\n' && c ≠ ShellWords.quote && safeBare last cs

/-- The characters that change their meaning behind a backslash in double quotes. -/
def unixSpecials : List Char := '\n' :: ShellWords.escapable

/-- A shell reads the quoted token as it was. -/
def safeUnixToken (last : Bool) (token : List Char) : Bool :=
  if token = [] then true
  else if needsQuotes token then safeQuoted unixSpecials token
  else token.head? ≠ some '#' && safeBare last token

/-- A shell reads every token as it was. -/
def safeUnix : List (List Char) → Bool
  | [] => true
  | token :: tokens => safeUnixToken tokens.isEmpty token && safeUnix tokens

/-- Windows reads the quoted token as it was. -/
def safeWindowsToken (token : List Char) : Bool :=
  token ≠ [] && (!needsQuotes token || safeQuoted ['"'] token)

end CommandLine

/-- The tokens survive being joined and split on the platform. -/
def Platform.keepsTokens (tokens : List String) : Platform → Bool
  | .unix => CommandLine.safeUnix (tokens.map String.toList)
  | .windows => (tokens.map String.toList).all CommandLine.safeWindowsToken

end Rsupervisord
