import Behavior.Rehearsal.Actor
import Behavior.Task
/-!
# Scripts

Leaves that play through a list of actions, one a call.
-/

namespace Behavior

/-- What a scripted leaf does in one call. -/
inductive Action where
  | report (status : Status)
  | fault (text : String)
  | faultOther (text : String)
  | panic (text : Option String)
  /-- One action when the leaf begins anew, another when it is resumed. -/
  | onFirst (first resumed : Action)
  | setTimer (timer : Int64) (next : Action)
  | addTimer (amount : Int64) (next : Action)
  /-- One action when at least so many entities are filtered, another otherwise. -/
  | ifFiltered (least : Nat) (enough otherwise : Action)
  /-- Adds to the integer in a slot of the blackboard, or puts the amount there. -/
  | addToSlot (slot : UInt64) (amount : Int64) (next : Action)
  /-- One of the actions, by the entity's random stream of that number. -/
  | pick (choices : List Action) (stream : UInt64)
  | observe (next : Action)

instance : Inhabited Action := ⟨.report .unknown⟩

namespace Action

mutual

/-- Performs an action. -/
def perform (ctx : TaskContext) : Action → Workspace Actor → Outcome × Workspace Actor
  | report s, w => (.status s, w)
  | fault t, w => (.fault (.message t), w)
  | faultOther t, w => (.fault (.other t), w)
  | panic t, w => (.panic t, w)
  | onFirst a b, w => if ctx.firstRun then perform ctx a w else perform ctx b w
  | setTimer t next, w => perform ctx next { w with timer := t }
  | addTimer n next, w => perform ctx next { w with timer := Task.saturatingAdd w.timer n }
  | ifFiltered n a b, w => if n ≤ ctx.filtered.length then perform ctx a w else perform ctx b w
  | addToSlot slot n next, w =>
    let key : Key Int64 := ⟨slot⟩
    let sum := match w.board.get? key with
      | some value => Task.saturatingAdd value n
      | none => n
    perform ctx next { w with board := w.board.insert key sum }
  | pick choices stream, w =>
    let g := ctx.scene.tick.generator ctx.scene.entity stream
    performNth ctx choices (g.below (UInt64.ofNat choices.length)).1.toNat w
  | observe next, w =>
    let zone := ctx.scene.zone.map fun z => (z.name, z.size, z.contains ctx.scene.entity)
    perform ctx next
      { w with character := w.character.note (.observed ctx.scene.entity ctx.scene.tick zone) }

/-- Performs the action at an index; past the end nothing is known. -/
def performNth (ctx : TaskContext) : List Action → Nat → Workspace Actor → Outcome × Workspace Actor
  | [], _, w => (.status .unknown, w)
  | a :: _, 0, w => perform ctx a w
  | _ :: rest, n + 1, w => performNth ctx rest n w

end

end Action

/-- The behaviour of a leaf that notes each call and performs the next action of its list. A leaf with
nothing to do finishes. -/
def script (actions : List Action) : Task Actor := fun ctx w =>
  let (call, actor) := w.character.callLeaf ctx.node
  let actor := actor.note (.leaf ctx.node ctx.firstRun w.timer ctx.filtered)
  let w := { w with character := actor }
  match atCall actions call with
  | some action => action.perform ctx w
  | none => (.status .finished, w)

end Behavior
