import MobilePrinter.Executor.MotionExecutor

-- The element accesses of `motion_executor.cpp`: the indices that its functions use, and the sizes
-- that the vectors have then.

namespace Executor

inductive IndexedVector
  | position
  | qTarget
  | qTargetPrevious
  | qStart
  | qCurrent
  | commanded
  | vStart
  | vEnd
  deriving DecidableEq, Repr

structure Access where
  vector : IndexedVector
  index  : Nat
  size   : Nat
  deriving DecidableEq, Repr

def Access.InRange (a : Access) : Prop :=
  a.index < a.size

instance : DecidablePred Access.InRange :=
  fun a => inferInstanceAs (Decidable (a.index < a.size))

def accessAt (vector : IndexedVector) (size : Nat) (indices : List Nat) : List Access :=
  indices.map fun index => { vector, index, size }

variable {R : Type*} [Arithmetic R]

variable (R) in
def structuralIndices (names : List String) : List Nat :=
  (names.zipIdx.filter (isStructuralAxis R ·.1)).map (·.2)

-- The test of the soft limit check, which reads the target of an axis that is configured.
def QueuedSegment.violates (stray : Stray R) (seg : QueuedSegment R) : String × Nat → Bool :=
  fun (name, i) =>
    match axisConfig name with
    | none     => false
    | some cfg =>
      let target := read seg.qTarget stray.checked i
      target < cfg.minPosition ∨ cfg.maxPosition < target

-- The indices that the soft limit check reads targets at. It ends with the first violation.
def QueuedSegment.checkedIndices (stray : Stray R) (seg : QueuedSegment R) : List Nat :=
  let entries := seg.jointNames.zipIdx
  let visited := entries.takeWhile (!seg.violates stray ·) ++
    (entries.dropWhile (!seg.violates stray ·)).take 1
  (visited.filter fun (name, _) => Configured R name).map (·.2)

namespace MotionExecutor

-- The loop that looks for a velocity ends with the first one that it finds. The elements that it
-- may visit are counted.
def startAccesses (stray : Stray R) (s : MotionExecutor R) : List Access :=
  match s.segmentQueue with
  | []       => []
  | seg :: _ =>
    let joints     := seg.jointNames.length
    let targets    := seg.qTarget.length
    let all        := List.range joints
    let structural := structuralIndices R seg.jointNames
    if (s.axisRuntime.authorize seg.jointNames).1 then
      accessAt .qStart joints all ++
      (if s.firstSegment then [] else accessAt .qTargetPrevious s.qTargetPrevious.length all) ++
      accessAt .vStart joints (all.take 1) ++
      accessAt .vEnd joints (all.take 1) ++
      accessAt .qTarget targets (seg.checkedIndices stray) ++
      if (seg.softLimitViolation? stray).isSome then [] else
        accessAt .qTarget targets structural ++
        accessAt .qStart joints structural ++
        accessAt .vStart joints structural ++
        accessAt .vEnd joints structural ++
        accessAt .qStart joints all ++
        accessAt .qTarget targets all
    else
      []

def Accepts (s : MotionExecutor R) : Prop :=
  s.machineState = .normal ∧ s.execState ≠ .aborting ∧ s.jointStateReady = true ∧
    s.segmentQueue.length < maxQueueSize

instance : DecidablePred (Accepts (R := R)) :=
  fun _ => inferInstanceAs (Decidable (_ ∧ _))

def segmentAccesses (msg : MotionSegment R) (stray : Stray R) (s : MotionExecutor R) :
    List Access :=
  if s.Accepts ∧ s.execState = .idle then (s.enqueue msg).startAccesses stray else []

def jointStateAccesses (msg : JointState R) (stray : Stray R) (s : MotionExecutor R) :
    List Access :=
  let measured := s.jointNames.zipIdx.filter fun (name, _) => (msg.measured stray name).isSome
  accessAt .position msg.position.length (List.range msg.name.length) ++
  accessAt .qCurrent s.jointNames.length (measured.map (·.2))

-- Both branches of the loop use the elements that are counted once more. A tick that completes a
-- segment starts the next one.
def controlAccesses (stray : Stray R) (s : MotionExecutor R) : List Access :=
  if s.execState ≠ .running then
    []
  else
    let structural := structuralIndices R s.jointNames
    let commands   := s.commands stray
    accessAt .qTarget s.qTarget.length structural ++
    accessAt .qCurrent s.qCurrent.length structural ++
    accessAt .commanded s.qCurrent.length structural ++
    if s.jointNames ≠ [] ∧ commands.all (·.2)
    then (s.move (commands.map (·.1))).startAccesses stray else []

def accesses : Input R → MotionExecutor R → List Access
  | .segment msg stray, s    => s.segmentAccesses msg stray
  | .jointState msg stray, s => s.jointStateAccesses msg stray
  | .control stray, s        => s.controlAccesses stray
  | _, _                     => []

end MotionExecutor
end Executor
