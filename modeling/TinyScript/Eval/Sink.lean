/-!
Where printed lines go.
-/

namespace TinyScript

inductive Sink where
  | buffer (text : String)
  | silent
deriving DecidableEq, Repr

namespace Sink

def new (silenced : Bool) : Sink := if silenced then silent else buffer ""

def printLine (line : String) : Sink → Sink
  | buffer text => buffer ((text ++ line).push '\n')
  | silent => silent

/-- All that was printed, if it was kept. -/
def captured : Sink → String
  | buffer text => text
  | silent => ""

end Sink

end TinyScript
