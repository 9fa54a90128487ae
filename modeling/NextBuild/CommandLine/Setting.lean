import NextBuild.Config
import NextBuild.Graph.Remote
import NextBuild.Repository.Checkout
import NextBuild.Store

/-!
# The setting of a command

Where and when a command runs: the checkouts that exist, the working directory, the variables of the
environment, the day, and what is at the other end of an agent's command.  A command that is about a
repository begins by finding its checkout and reading its configuration.
-/

namespace NextBuild

/-- What an agent's command starts. -/
structure Agent where
  /-- What answers the questions. -/
  peer : Peer
  /-- What it writes to the error stream. -/
  complaints : String := ""

/-- Where and when a command runs. -/
structure Setting where
  checkouts : List Checkout
  workingDirectory : String
  env : Text.Environment
  today : Date
  /-- The seconds by which local time is ahead of universal time. -/
  offset : Int
  /-- What the command of an agent starts. -/
  agent : String → Agent

/-- What the commands about a repository have in common. -/
structure Workspace where
  repository : Repository
  config : Config
  store : Store
  /-- The job whose ledger is used. -/
  job : String
deriving DecidableEq

namespace Workspace

/-- The job of a request, or the configured one. -/
def jobName (requested : Option String) (c : Config) : String :=
  ((requested.map Text.trim).filter (!·.isEmpty)).getD c.job

/-- Find the checkout around a path and read its configuration. -/
def enter (setting : Setting) (repository job : Option String) : FileAction Workspace := do
  let checkout ← Checkout.discover setting.checkouts setting.workingDirectory repository
  let config ← Config.load checkout.root
  return {
    repository := { checkout.repository with localBranches := config.localBranches }
    config
    store := ⟨checkout.commonDirectory⟩
    job := jobName job config }

end Workspace

end NextBuild
