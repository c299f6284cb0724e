import Behavior.Zone
/-!
# Rounds in rehearsal

Several updates in a row, and driven rounds that pass while somebody waits.
-/

namespace Behavior

variable {χ : Type} [Character χ]

/-- Updates an agent several times: the statuses, the entries of the journal, and the agent afterwards. -/
def Agent.updates (home : Option Roster) (delta : UInt64) : Nat → Agent χ → List Status × List Entry × Agent χ
  | 0, a => ([], [], a)
  | n + 1, a =>
    let turn := a.update home delta
    let (statuses, journal, a) := Agent.updates home delta n turn.agent
    (turn.status :: statuses, turn.journal ++ journal, a)

namespace Zone

/-- Runs several rounds: the counts of updated agents, the entries of the journal, and the zone
afterwards. -/
def updates (delta : UInt64) : Nat → Zone χ → List Nat × List Entry × Zone χ
  | 0, z => ([], [], z)
  | n + 1, z =>
    let round := z.update delta
    let (counts, journal, z) := updates delta n round.zone
    (round.count :: counts, round.journal ++ journal, z)

/-- Lets driven rounds pass, up to a number of them, until an agent is gone or was updated so often. -/
def awaitTicks (id : EntityId) (ticks : UInt64) : Nat → Zone χ → Zone χ
  | 0, z => z
  | n + 1, z =>
    let (tick, z, _) := z.execute id fun a => (a.tick, a)
    if tick.all (ticks ≤ ·) then z
    else
      match z.driver.bind z.drivenRound with
      | some round => awaitTicks id ticks n round.zone
      | none => z

/-- Whether an agent's time is that of its updates, if each of them was driven by the zone. -/
def onPace (z : Zone χ) (a : Agent χ) : Bool := a.time.toNat == a.tick.toNat * z.config.tickMillis.toNat

end Zone

end Behavior
