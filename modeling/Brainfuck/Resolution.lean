/-
  Where each setting comes from.

  Every setting has sources of falling priority: the flag given to the command, an environment
  variable, the settings document, the default.  The document is the file that `BF_CONFIG`
  names WHENEVER that variable is set, and `bf.toml` in the configuration directory otherwise;
  a file that cannot be read counts as an empty document, and no other file takes its place.
-/
import Brainfuck.Settings
import Brainfuck.World

namespace Brainfuck

/-- What the command line says about settings. -/
structure Flags where
  timeoutMs : Option Nat := none
  maxSteps : Option Nat := none
  lenient : Bool := false

namespace World

/-- The directory of the user's configuration files.  An empty home stands for the root. -/
def configDirectory? (w : World) : Option Path :=
  match w.envText? "XDG_CONFIG_HOME" with
  | some directory => some (Path.ofText directory)
  | none => (w.env "HOME").map fun home =>
    Path.join (if home.isEmpty then Path.ofText "/" else home) ".config"

/-- The file that holds the settings document. -/
def settingsPath? (w : World) : Option Path :=
  match w.env "BF_CONFIG" with
  | some path => some path
  | none => w.configDirectory?.map fun directory => Path.join directory "bf.toml"

/-- The settings of the document, or the defaults if there is no document to read. -/
def settings (w : World) : Settings :=
  match w.settingsPath? with
  | none => {}
  | some path =>
    match w.readText path with
    | .ok text => Settings.ofDocument text
    | .error _ => {}

/-- The number a variable is set to.  Anything else it may be set to counts as nothing. -/
def envNumber? (w : World) (name : String) : Option Nat :=
  (w.envText? name).bind fun text => Numeral.parse? (Text.trim text.toList)

end World

/-- The settings of a run. -/
def Settings.resolve (flags : Flags) (w : World) : Settings where
  timeoutMs :=
    match flags.timeoutMs, w.envNumber? "BF_TIMEOUT_MS" with
    | some n, _ => some n
    | none, some n => some n
    | none, none => w.settings.timeoutMs
  maxSteps :=
    match flags.maxSteps, w.envNumber? "BF_MAX_STEPS" with
    | some n, _ => some n
    | none, some n => some n
    | none, none => w.settings.maxSteps
  strictBrackets := !flags.lenient && w.settings.strictBrackets

end Brainfuck
