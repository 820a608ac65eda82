import QuantumNode.Text.Basic

/-! Log lines with a level, the simulated time and the name of whoever writes. -/
namespace QuantumNode

inductive LogLevel where
  | debug | info | warning | error | off
  deriving DecidableEq, Repr

namespace LogLevel

def rank : LogLevel → Nat
  | debug => 10
  | info => 20
  | warning => 30
  | error => 40
  | off => 100

def name : LogLevel → String
  | debug => "DEBUG"
  | info => "INFO"
  | warning => "WARNING"
  | error => "ERROR"
  | off => "OFF"

/-- Level names are read in any case. -/
def parse? (cs : List Char) : Option LogLevel :=
  let s := String.ofList (Text.lower cs)
  if s = "debug" then some debug
  else if s = "info" then some info
  else if s = "warning" ∨ s = "warn" then some warning
  else if s = "error" then some error
  else if s = "off" ∨ s = "none" then some off
  else none

end LogLevel

/-- A message, with the time where its writer has a clock; a message may hold line feeds. -/
structure LogEntry where
  level : LogLevel
  time : Option Nat
  name : String
  message : String
  deriving DecidableEq, Repr

namespace LogEntry

/-- What is written for a message, piece by piece. -/
def pieces (e : LogEntry) : List String :=
  [e.level.name, ":"] ++ e.time.elim [] (fun t => [toString t, " ns:"]) ++ [e.name, ":", e.message, "\n"]

def lines (e : LogEntry) : List String :=
  ((Text.splitAt '\n' (String.join e.pieces).toList).map String.ofList).dropLast

end LogEntry

structure Log where
  level : LogLevel
  entries : Array LogEntry

namespace Log

def new (level : LogLevel) : Log := ⟨level, #[]⟩

/-- Messages below the level are dropped; nothing is written while logging is off. -/
def enabled (log : Log) (l : LogLevel) : Bool := log.level.rank ≤ l.rank && log.level ≠ .off

def write (log : Log) (l : LogLevel) (time : Option Nat) (name message : String) : Log :=
  if log.enabled l then { log with entries := log.entries.push ⟨l, time, name, message⟩ } else log

def pieces (log : Log) : List String := log.entries.toList.flatMap LogEntry.pieces

def lines (log : Log) : List String := log.entries.toList.flatMap LogEntry.lines

def clear (log : Log) : Log := { log with entries := #[] }

end Log

end QuantumNode
