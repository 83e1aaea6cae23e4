import Immittance.Text.Case

/-!
# The journal

A record has a level, the logger that wrote it and a message. A threshold lets through the records at
or above it. Levels are numbers, some of which have names; a line shows the name in five columns.
-/

set_option autoImplicit false

namespace Immittance

namespace Level

def debug : Int := 10
def info : Int := 20
def error : Int := 40

def named : List (String × Int) :=
  [("NOTSET", 0), ("DEBUG", 10), ("INFO", 20), ("WARNING", 30), ("WARN", 30), ("ERROR", 40),
   ("CRITICAL", 50), ("FATAL", 50)]

def ofName? (name : List Char) : Option Int :=
  (named.find? fun n => n.1.toList == Text.upper name).map (·.2)

def name (level : Int) : String :=
  match named.find? (·.2 == level) with
  | some (n, _) => n
  | none => "Level " ++ toString level

end Level

inductive Logger where
  | root
  | evaluator
  | tokens
  | expression
  | loader
deriving DecidableEq, Repr

def Logger.name : Logger → String
  | root => "zcalc_core"
  | evaluator => "zcalc_core.evaluator"
  | tokens => "zcalc_core.parser.tokens"
  | expression => "zcalc_core.parser.expression"
  | loader => "zcalc_core.records.loader"

structure Record where
  level : Int
  logger : Logger
  message : List Char

namespace Record

def levelColumn (level : Int) : List Char :=
  let name := (Level.name level).toList.take 5
  name ++ List.replicate (5 - name.length) ' '

def line (r : Record) : List Char :=
  '[' :: levelColumn r.level ++ [']', ' ', '['] ++ r.logger.name.toList ++ [']', ' '] ++ r.message

end Record

def Journal.shown (threshold : Int) (records : List Record) : List Record :=
  records.filter (threshold ≤ ·.level)

def Journal.configured (threshold : Int) : Record :=
  ⟨Level.info, .root, "Logging configured at ".toList ++ (Level.name threshold).toList ++ ['.']⟩

end Immittance
