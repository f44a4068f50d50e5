import Bano.Base
import Bano.Lib.Run

/-! The event loop of bano_start_loop. Within a turn the loop peeks, selects, reads and writes in this
order; here the steps come in any order. -/
namespace Bano

open Lib

/-- `writing node it` is in the middle of write_msg, `it` being saved as the next posted item. -/
inductive Control where
  | idle
  | writing (node it : Ptr)
  | stopped
  | closed
  deriving DecidableEq

structure Loop where
  base : Base
  loopTimer : Option Ptr
  control : Control

def cursor (node : Ptr) : Option Ptr → Control
  | none => .idle
  | some it => .writing node it

/-- `select` yields whether a descriptor is ready, and the time that remains. -/
inductive Label where
  | newNode (li : Ptr) (posts : List Post)
  | post (p : Post)
  | addTimer (mallocTimer mallocItem : Bool)
  | peek (li : Ptr) (env : FrameEnv) (msg : BanoMsg)
  | read (li : Ptr) (env : FrameEnv) (result : ReadResult)
  | write (li : Ptr)
  | postIo (env : PostIoEnv)
  | select (ready : Bool) (tv : Timeval) (env : TimeoutEnv)
  | selectFails
  | close

def doNewNode (linfo : LoopInfo) (posts : List Post) (b : Base) (li : Ptr) : Option Base := do
  let node ← b.nodes.data li
  if linfo.nodeFn then runPosts posts (b.emit (.newNode node)) else some b

/-- The head timer is updated with the time that remains, and expires when none does. -/
def selectTimer (ready : Bool) (tv : Timeval) (env : TimeoutEnv) (s : Loop) : Option Loop := do
  match ← banoTimerGetNext s.base.timers with
  | none => some s
  | some (timer,_) =>
    let timers ← banoTimerUpdate s.base.timers timer tv
    let b := { s.base with timers := timers }
    let ti ← timers.timers.cell timer
    if ready && ti.relMs ≠ 0 then some { s with base := b }
    else if s.loopTimer ≠ some timer then
      -- pending io timer
      let b ← expirePending env b timer
      some { s with base := b }
    else
      let b ← runPosts env.posts (b.emit .timerFn)
      let timers ← banoTimerDel b.timers timer
      some { s with base := { b with timers := timers }, loopTimer := none }

namespace Loop

/-- The steps of a loop that is not in write_msg. -/
def idleStep (linfo : LoopInfo) : Label → Loop → Option Loop
  | .newNode li posts, s => do
    let b ← doNewNode linfo posts s.base li
    some { s with base := b }
  | .post p, s => do
    let b ← postNew s.base p
    some { s with base := b }
  | .addTimer mallocTimer mallocItem, s =>
    -- insert the loop timer if not already
    if s.loopTimer.isNone && linfo.timerFn then do
      let (timer,timers) ← banoTimerAdd mallocTimer mallocItem s.base.timers linfo.timerMs
      let b := { s.base with timers := timers }
      if timer.isNone then some { s with base := b, control := .stopped }
      else some { s with base := b, loopTimer := timer }
    else some s
  | .peek li env msg, s => do
    let b ← peekMsg linfo env s.base li msg
    some { s with base := b }
  | .read li env result, s => do
    let b ← readMsg linfo env s.base li result
    some { s with base := b }
  | .write li, s => do
    let node ← s.base.nodes.data li
    let n ← s.base.nodeMem.cell node
    some { s with control := cursor node n.postedIos.list.head }
  | .select ready tv env, s => selectTimer ready tv env s
  | .selectFails, s => some { s with control := .stopped }
  | .close, s => do
    let b ← banoClose s.base
    some { s with base := b, control := .closed }
  | .postIo _, _ => none

def step (linfo : LoopInfo) (label : Label) (s : Loop) : Option Loop :=
  match s.control, label with
  | .idle, _ => idleStep linfo label s
  | .writing node it, .postIo env => do
    let n ← s.base.nodeMem.cell node
    let next ← n.postedIos.next it
    let b ← Bano.postIo env s.base node it
    some { s with base := b, control := cursor node next }
  | .stopped, .close => do
    let b ← banoClose s.base
    some { s with base := b, control := .closed }
  | _, _ => none

end Loop
end Bano
