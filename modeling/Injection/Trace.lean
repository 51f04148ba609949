import Injection.Arguments
import Injection.Binding

/-!
# What happened

A run leaves a trace: the marks of everything that happened, in order.  Activities have a mark at their beginning
and one at their end, so they nest.  The log is a view of the trace, made of its events, each with the spans that
are open around it.
-/

namespace Injection

variable {γ : Type}

/-! ### Spans and events -/

/-- A part of a run that log lines name as their context. -/
inductive Span
  | get (key registry : String)
  | invoke (registry : String)
  | instantiate (type registry : String)
  deriving DecidableEq, Repr

inductive Level
  | debug
  | error
  deriving DecidableEq, Repr

/-- What is written to the log. -/
inductive Event
  | bound (registry key kind : String)
  | extended (registry parent : String)
  | found
  | foundInParent (parent : String)
  | parentFailed (parent message : String)
  | memoized
  | invoked
  | instantiated
  /-- A failure that the caller may still make up for. -/
  | failed (message : String)
  /-- A failure that is given to the user. -/
  | reported (message : String)
  deriving DecidableEq, Repr

def Event.level : Event → Level
  | .reported _ => .error
  | _ => .debug

/-- The message of an event and its fields. -/
def Event.text : Event → String
  | .bound registry key kind => "Bound registry=" ++ registry ++ " key=" ++ key ++ " kind=" ++ kind
  | .extended registry parent => "Extended registry=" ++ registry ++ " parent=" ++ parent
  | .found => "Found"
  | .foundInParent parent => "Found in parent parent=" ++ parent
  | .parentFailed parent message => "Parent failed, skipped parent=" ++ parent ++ " err=" ++ message
  | .memoized => "Memoized"
  | .invoked => "Invoked"
  | .instantiated => "Instantiated"
  | .failed message => message
  | .reported message => message

def Level.text : Level → String
  | .debug => "DEBUG"
  | .error => "ERROR"

def Span.text : Span → String
  | .get key registry => "get\x7bkey=" ++ key ++ " registry=" ++ registry ++ "\x7d"
  | .invoke registry => "invoke\x7bregistry=" ++ registry ++ "\x7d"
  | .instantiate type registry => "instantiate\x7bclass=" ++ type ++ " registry=" ++ registry ++ "\x7d"

/-- The line of an event inside spans, the innermost first. -/
def Event.line (spans : List Span) (e : Event) : String :=
  let context := String.join (spans.reverse.map fun s => s.text ++ ":")
  e.level.text ++ " " ++ (if spans.isEmpty then "" else context ++ " ") ++ e.text

/-! ### Marks -/

/-- What a registry can be asked to run. -/
inductive Callee (γ : Type)
  | function (f : Function γ)
  | constructible (c : Class γ)

/-- A change of a registry. -/
inductive Change (γ : Type)
  | bound (r : Registry) (key : String) (b : Binding γ)
  | unbound (r : Registry) (key : String)
  | memoized (r : Registry) (key : String) (v : Value γ)
  | extended (r parent : Registry)

/-- The requests to a registry that report their failures. -/
inductive Call
  | get
  | getAs
  | invoke
  | invokeValue
  | instantiate
  | singleton
  | register
  | extend
  deriving DecidableEq, Repr

inductive Mark (γ : Type)
  | entered (s : Span)
  | left (s : Span)
  | logged (e : Event)
  /-- A request begins. -/
  | began (c : Call)
  /-- It ends, with the message of its error if it failed. -/
  | ended (c : Call) (failure : Option String)
  /-- The search for a key from a registry on begins. -/
  | searching (r : Registry) (key : String)
  | searched (r : Registry) (key : String) (found : Option (Except ResolveError (Value γ)))
  /-- The registry's lock on cached providers is taken. -/
  | locked (r : Registry)
  | unlocked (r : Registry)
  /-- A closure runs. -/
  | called (c : Callee γ) (a : Arguments γ)
  | returned (c : Callee γ) (result : Except InstantiateError (Value γ))
  /-- The provider of a key gave a value. -/
  | provided (r : Registry) (key : String) (f : Function γ) (v : Value γ)
  | changed (c : Change γ)
  /-- What follows happens in threads of their own. -/
  | forked
  | joined

abbrev Trace (γ : Type) := List (Mark γ)

/-! ### The log -/

namespace Trace

/-- The marks outside threads, `depth` levels of threads being open. -/
def ownMarks (depth : Nat) : Trace γ → Trace γ
  | [] => []
  | .forked :: ms => ownMarks (depth + 1) ms
  | .joined :: ms => ownMarks (depth - 1) ms
  | m :: ms => if depth = 0 then m :: ownMarks depth ms else ownMarks depth ms

/-- The lines of the events, with the spans that are open at each; `spans` are open already. -/
def lines (spans : List Span) : Trace γ → List String
  | [] => []
  | .entered s :: ms => lines (s :: spans) ms
  | .left _ :: ms => lines spans.tail ms
  | .logged e :: ms => e.line spans :: lines spans ms
  | _ :: ms => lines spans ms

/-- The log of a run; threads have no part in it. -/
def log (ms : Trace γ) : List String :=
  lines [] (ownMarks 0 ms)

end Trace

end Injection
