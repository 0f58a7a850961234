import TxRelay.Command.Run
import TxRelay.Command.DryRun

/-!
# Carrying out a command

Arguments that name no command are a misuse, for which nothing is reported but the exit code 2.
-/

namespace TxRelay.Command

/-- The exit code of arguments that name no command. -/
def Refusal.code : Refusal → Nat
  | misuse => 2
  | help => 0

/-- The report of a command that was not carried out. -/
def Refusal.report (r : Refusal) : Report :=
  ⟨r.code, [], none, false, [], []⟩

/-- Carries out a command (`main`). -/
def carryOut {m : Type → Type} [Monad m] (o : Outside m) (i : Invocation) : m Report :=
  match i.action with
  | .run options => Run.carryOut o options i.logLevel i.jsonLogs
  | .dryRun input => do
    let outcome ← DryRun.carryOut o input
    return outcome.report (logSettings .default i.logLevel i.jsonLogs)

/-- Carries out a command in a world. -/
def perform (w : World) (i : Invocation) : Report :=
  Id.run (carryOut w.outside i)

/-- Carries out the command that arguments name. -/
def execute (w : World) (args : List String) : Report :=
  match parse w.agents args with
  | .error r => r.report
  | .ok i => perform w i

end TxRelay.Command
