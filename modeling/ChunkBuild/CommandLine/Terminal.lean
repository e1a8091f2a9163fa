import ChunkBuild.Provider.Project
/-!
# The terminal

A command works on a terminal: on the host, on the container of providers, and on what it prints.
All of this is kept when the command fails or exits.
-/
namespace ChunkBuild.CommandLine

structure Terminal where
  host : Host
  providers : Providers
  output : String := ""
  errorOutput : String := ""

inductive Interruption where
  | failed (e : Failure)
  | exited (code : Nat)
  /-- A failure that is not handled as one of the command. -/
  | crashed (e : Failure)

abbrev Command := EStateM Interruption Terminal

namespace Command

def job (j : Job α) : Command α := fun t =>
  match j t.host with
  | .ok a h => .ok a { t with host := h }
  | .error e h => .error (.failed e) { t with host := h }

def provided (j : Providers → Job (α × Providers)) : Command α := do
  let (a, ps) ← job (j (← get).providers)
  modify fun t => { t with providers := ps }
  pure a

def lift (r : Except Failure α) : Command α := job (Job.lift r)

def print (s : String) : Command Unit := modify fun t => { t with output := t.output ++ s }

def printError (s : String) : Command Unit :=
  modify fun t => { t with errorOutput := t.errorOutput ++ s }

def logError (message : String) : Command Unit := job (Job.logged .error message)

def unguarded (c : Command α) : Command α := fun t =>
  match c t with
  | .error (.failed e) t => .error (.crashed e) t
  | r => r

def exit (code : Nat) : Command α := throw (.exited code)

end Command

end ChunkBuild.CommandLine
