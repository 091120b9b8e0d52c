import XlaneLkm.PmLoop

/-!
# A cluster whose pacemakers read clocks

The nodes on the wire again, each with the loop of its pacemaker. What a node sends, and when, is up to
its loop and what its clock reads. Clocks of different nodes have nothing to do with each other.
-/

namespace XlaneLkm

structure PmWorld (ι : Type*) where
  loop : ι → PmLoop

inductive PmMove (ι : Type*) where
  /-- An event of one node alone; packets come over the network only. -/
  | own (i : ι) (e : PmEvent)
  /-- A frame that `src` has emitted gets to `dst`. `k` is its position in `emitted`. -/
  | arrive (dst src : ι) (k : Nat) (behind : Nat → UInt8) (cqeBcnt : UInt32) (postTs : Nat)

def PmEvent.isPost : PmEvent → Bool
  | .other (.post ..) => true
  | _ => false

namespace PmWorld

variable {ι : Type*} [DecidableEq ι]

def act (w : PmWorld ι) (i : ι) (e : PmEvent) : PmWorld ι where
  loop := Function.update w.loop i ((w.loop i).step e)

/-- The devices, without the loops. -/
def wire (w : PmWorld ι) : WireWorld ι where
  station i := (w.loop i).station

end PmWorld

namespace WireCluster

variable {ι : Type*} [DecidableEq ι] (c : WireCluster ι)

def pmInit (timing : ι → PmTiming) : PmWorld ι where
  loop i := .init (c.init.station i) (timing i)

def pmStep (w : PmWorld ι) : PmMove ι → PmWorld ι
  | .own i e => if e.isPost then w else w.act i e
  | .arrive dst src k behind cqeBcnt postTs =>
    match (w.loop src).station.emitted[k]? with
    | some (dest, frame) =>
      if c.reaches src dst dest then w.act dst (.other (.post frame behind cqeBcnt postTs)) else w
    | none => w

def pmRun (timing : ι → PmTiming) (moves : List (PmMove ι)) : PmWorld ι :=
  Run.run c.pmStep (c.pmInit timing) moves

end WireCluster

end XlaneLkm
