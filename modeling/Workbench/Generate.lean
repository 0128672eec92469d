import Workbench.Workflow.Edit

/-!
# Random workflows

Sound workflows of any size for trying things out. A workflow is a chain of
segments: a single action, a branch that comes together again, or a loop whose
body is a shorter chain in which loops may be nested one level less deep. Each
segment is entered at one node and left at another, an action whose port is
still free.

Chance comes from outside, as an endless sequence of numbers to draw from and
another of fresh identifiers; so a workflow is a function of its size and of
these.
-/

namespace Workbench

/-- What chance supplies. -/
structure Chance where
  draw : Nat → Nat
  id : Nat → Uuid

/-- A workflow in the making, and how much of chance has been used for it. -/
structure Draft where
  workflow : Workflow
  /-- The number in the last name that was given. -/
  named : Nat := 0
  drawn : Nat := 0
  /-- The number of identifiers taken. -/
  taken : Nat := 0

/-- A word well mixed from a seed and a place in a sequence. -/
def scatter (seed place : Nat) : UInt64 :=
  let z := UInt64.ofNat seed + (UInt64.ofNat place + 1) * 0x9E3779B97F4A7C15
  let z := (z ^^^ (z >>> 30)) * 0xBF58476D1CE4E5B9
  let z := (z ^^^ (z >>> 27)) * 0x94D049BB133111EB
  z ^^^ (z >>> 31)

/-- Chance as it follows from a seed. The place in the sequence is part of an
identifier, so that no two are alike. -/
def Chance.ofSeed (seed : Nat) : Chance where
  draw place := (scatter seed place).toNat
  id place := .ofRandom ((scatter (seed + 1) place).toNat * UInt64.size + place)

/-- A step in the making of a workflow. -/
abbrev Making := StateM Draft

namespace Making

variable (chance : Chance)

/-- A number below the bound. -/
def draw (bound : Nat) : Making Nat := do
  let draft ← get
  set { draft with drawn := draft.drawn + 1 }
  return chance.draw draft.drawn % bound

def freshId : Making Uuid := do
  let draft ← get
  set { draft with taken := draft.taken + 1 }
  return chance.id draft.taken

/-- The given word with the next number. -/
def nextName (word : String) : Making String := do
  let draft ← get
  set { draft with named := draft.named + 1 }
  return s!"{word} {draft.named + 1}"

/-- Adds a node for a step, called after its kind. -/
def addStep (step : Step) : Making Uuid := do
  let name ← nextName step.displayName
  let id ← freshId chance
  modify fun draft =>
    { draft with workflow := draft.workflow.addNode { id, name, step } }
  return id

def connect (source target : Uuid) (port : Option Port := none) : Making Unit :=
  modify fun draft =>
    { draft with
      workflow := (draft.workflow.addEdge { source, target, port }).2 }

/-- The number of steps that the sides of the screen are divided into. -/
def steps : Nat := 4503599627370496

/-- A point on a side of the screen of the given length. -/
def coordinate (length : Nat) : Making (Option Binary64) := do
  let k ← draw chance steps
  return Binary64.ofRatio? false (length * k) steps

/-- Adds an action: a click, some typing, a key or a scroll. -/
def action : Making Uuid := do
  match ← draw chance 4 with
  | 0 =>
      let x ← coordinate chance 1920
      let y ← coordinate chance 1080
      addStep chance (.click { x, y })
  | 1 => addStep chance (.typeText { text := "generated" })
  | 2 => addStep chance (.pressKey { key := "enter" })
  | _ =>
      let k ← draw chance 20
      addStep chance (.scroll { deltaY := .ofInt ((k : Int) - 10) })

/-- The condition that the given name stands for something true. -/
def isTrue (name : String) : Condition where
  left := name
  operator := .equals
  right := ⟨.bool true, trivial⟩

/-- Adds a branch with an action on each side and one where they come
together. -/
def branch : Making (Uuid × Uuid) := do
  let fork ← addStep chance (.ifThen ⟨isTrue "found"⟩)
  let yes ← action chance
  let no ← action chance
  let join ← action chance
  connect fork yes (some .ifTrue)
  connect fork no (some .ifFalse)
  connect yes join
  connect no join
  return (fork, join)

/-- Adds further segments behind an exit and gives the last exit. -/
def extend (segment : Making (Uuid × Uuid)) (exit : Uuid) : Nat → Making Uuid
  | 0 => return exit
  | count + 1 => do
      let (entry, next) ← segment
      connect exit entry
      extend segment next count

/-- Adds segments in sequence, at least one, and gives the first entry and the
last exit. -/
def chain (segment : Making (Uuid × Uuid)) (count : Nat) :
    Making (Uuid × Uuid) := do
  let (entry, exit) ← segment
  let exit ← extend segment exit (count - 1)
  return (entry, exit)

/-- Adds a loop over a chain of segments and an action behind it. -/
def loop (segment : Making (Uuid × Uuid)) : Making (Uuid × Uuid) := do
  let name ← nextName "Loop"
  let k ← draw chance 19
  let head ← freshId chance
  let tail ← freshId chance
  let params : Loop :=
    { exitCondition := isTrue "done", maxIterations := .ofNat (k + 1) }
  modify fun draft =>
    { draft with workflow := draft.workflow.addLoop name params head tail }
  let count ← draw chance 3
  let (entry, exit) ← chain segment (count + 1)
  connect head entry (some .loopBody)
  connect exit tail
  let after ← action chance
  connect head after (some .loopDone)
  return (head, after)

/-- Adds an action that is a segment by itself. -/
def single : Making (Uuid × Uuid) := do
  let id ← action chance
  return (id, id)

/-- Adds a segment with loops nested up to the given depth. -/
def segment : (depth : Nat) → Making (Uuid × Uuid)
  | 0 => do
      match ← draw chance 4 with
      | 1 => branch chance
      | _ => single chance
  | depth + 1 => do
      match ← draw chance 4 with
      | 0 => loop chance (segment depth)
      | 1 => branch chance
      | _ => single chance

end Making

/-- A random workflow of so many segments, with loops nested up to the given
depth. -/
def Workflow.generate (chance : Chance) (segments depth : Nat) : Workflow :=
  let start : Draft :=
    { workflow := { id := chance.id 0, name := "Generated Workflow" }, taken := 1 }
  ((Making.chain (Making.segment chance depth) segments).run start).2.workflow

end Workbench
