import EnemyBehavior.Batch
import EnemyBehavior.Decimal
import EnemyBehavior.Json.Reading
import EnemyBehavior.Log.Spelling

/-!
# Events

What the program tells about its work while it works. An event carries the data it tells about; how
severe it is, where it comes from and what it says are functions of the event.

Events follow from the records of a simulation (`Simulation.events`) and of a batch
(`batchEvents`), in the order in which the work is done.
-/

namespace EnemyBehavior

/-! ## Events -/

/-- How severe an event is. -/
inductive Severity where
  | error | warn | info | debug | trace
deriving DecidableEq

/-- Something the program tells about. -/
inductive Event where
  /-- The input could not be read, for the reason given. -/
  | unreadableInput (path reason : String)
  /-- The input is no list of enemies. The reason may be left out. -/
  | malformedInput (path : String) (reason : Option ReadError)
  | inputLoaded (path : String) (enemies : Nat)
  | batchStarted (enemies : Nat)
  | nodeDecoded (skillId skillType : UInt32) (node : Node)
  | typeUnrecognized (skillId skillType : UInt32)
  | typesUnknown (enemyId : UInt32) (types : List UInt32)
  | hpSampled (enemyId level : UInt32) (checkpoints : List UInt32)
  | cardsUnsimulated (enemyId : UInt32) (cards : List UInt32)
  | nodeVisited (visit : Visit)
  | walkRanOff (position : Nat)
  | walkRevisited (position : Nat)
  | walkCutShort (steps position : Nat) (turn hp : UInt32)
  | walkFaulted (position : Nat) (node : Node) (fault : Fault)
  | openingMove (enemyId : UInt32) (actions : List Action)
  | openingMissed (enemyId level : UInt32)
  | turnSwept (enemyId turn : UInt32) (map : TurnMap)
  | cycleFound (enemyId : UInt32) (cycle : Cycle)
  | cycleMissing (enemyId : UInt32)
  | countShown (enemyId count : UInt32) (actions : List Action)
  | hpUnsettled (enemyId hp : UInt32) (walks : Nat)
  | enemySkipped (failure : EnemyFailure)
  | batchFinished (skillsets failures : Nat)
  | enemyFailed (failure : EnemyFailure)
  | unknownTypesTallied (tally : Tally)
  | stepCapTallied (tally : Tally)
  | faultsTallied (tally : Tally)
  | cardBranchesTallied (tally : Tally)

/-! ## Where events come from -/

/-- The parts of the program that tell of events. -/
inductive EventSource where
  | commandLine | batch | decoder | summarizer | interpreter | actions | registers | controlFlow
deriving DecidableEq

/-- The path of a part. -/
def EventSource.path : EventSource → String
  | commandLine => "esdump"
  | batch => "skillsim::batch"
  | decoder => "skillsim::vm::decoder"
  | summarizer => "skillsim::summary::summarizer"
  | interpreter => "skillsim::vm::executor::interpreter"
  | actions => "skillsim::vm::executor::action_ops"
  | registers => "skillsim::vm::executor::register_ops"
  | controlFlow => "skillsim::vm::executor::control_flow_ops"

/-- The part that executes nodes of a family. -/
def Handler.source : Handler → EventSource
  | actions => .actions
  | registers => .registers
  | controlFlow => .controlFlow

/-- The topics under which chatty events can be chosen. -/
inductive Topic where
  | interp | summary | decode | batch
deriving DecidableEq

/-- The name of a topic. -/
def Topic.name : Topic → String
  | interp => "interp"
  | summary => "summary"
  | decode => "decode"
  | batch => "batch"

namespace Event

/-- The part an event comes from. -/
def source : Event → EventSource
  | unreadableInput .. | malformedInput .. | inputLoaded .. => .commandLine
  | batchStarted .. | enemySkipped .. | batchFinished .. | enemyFailed .. | unknownTypesTallied ..
  | stepCapTallied .. | faultsTallied .. | cardBranchesTallied .. => .batch
  | nodeDecoded .. | typeUnrecognized .. => .decoder
  | typesUnknown .. | hpSampled .. | cardsUnsimulated .. | openingMove .. | openingMissed ..
  | turnSwept .. | cycleFound .. | cycleMissing .. | countShown .. | hpUnsettled .. => .summarizer
  | nodeVisited visit => visit.node.handler.source
  | walkRanOff .. | walkRevisited .. | walkCutShort .. | walkFaulted .. => .interpreter

/-- The topic of an event. Events without one are told to everybody. -/
def topic? : Event → Option Topic
  | batchStarted .. | enemySkipped .. => some .batch
  | nodeDecoded .. | typeUnrecognized .. => some .decode
  | hpSampled .. | openingMove .. | openingMissed .. | turnSwept .. | cycleFound ..
  | cycleMissing .. | countShown .. => some .summary
  | nodeVisited .. | walkRanOff .. | walkRevisited .. => some .interp
  | _ => none

/-- How severe an event is. Events with a topic are chatter. -/
def severity (e : Event) : Severity :=
  match e.topic?, e with
  | some _, _ => .debug
  | none, unreadableInput .. | none, malformedInput .. | none, enemyFailed ..
  | none, walkFaulted .. => .error
  | none, walkCutShort .. | none, hpUnsettled .. | none, unknownTypesTallied ..
  | none, stepCapTallied .. | none, faultsTallied .. | none, cardBranchesTallied .. => .warn
  | none, _ => .info

/-! ## What events say -/

/-- The mark of an enemy in front of a message. -/
def enemyMark (enemyId : UInt32) : String := "[E" ++ Decimal.padded 5 enemyId.toNat ++ "]"

/-- How the verdict on an action is spelled, by what became of the walk. -/
def verdictName : Flow → String
  | .emit _ => "Fire"
  | .emitAndStop _ => "FireAndStop"
  | _ => "Skip"

/-- What a visited node has to say. Nodes that only pass on, and those that set the counter
conditionally, end the path or wait, say nothing. -/
def visitMessage? (v : Visit) : Option String :=
  match v.node with
  | .action a => some <|
    s!"skill {a.skillId} (" ++ Spelling.kind a.kind ++ s!") at hp {v.before.hp} -> "
      ++ verdictName v.flow
  | .preemptive level => some <|
    s!"Preemptive marker: level {level} vs enemy level {v.before.level} -> "
      ++ Spelling.truth v.after.doPreemptive
  | .flagOperation op mask => some <|
    "flags " ++ Spelling.typeName op.name ++ " " ++ Spelling.binary mask ++ " -> "
      ++ Spelling.binary v.after.flags
  | .setCounter op value => some <|
    "counter " ++ Spelling.typeName op.name ++ s!" {value.toInt} -> {v.after.counter.toInt}"
  | node =>
    node.target?.map fun target =>
      Spelling.typeName node.shape.name
        ++ s!": turn {v.before.turn} hp {v.before.hp}. Jumping to {target}? "
        ++ Spelling.truth (v.flow == .jump target)

/-- What a tally has to say. -/
def tallyMessage (finding : String) (t : Tally) : String :=
  s!"{t.units} units " ++ finding ++ ", e.g. enemies " ++ Spelling.wordList t.examples

/-- What an event says. -/
def message : Event → String
  | unreadableInput path reason => "Failed to read " ++ path ++ ": " ++ reason
  | malformedInput path reason =>
    "Failed to parse " ++ path ++ ":" ++ ((reason.map (" " ++ ·.message)).getD "")
  | inputLoaded path enemies => s!"Loaded {enemies} enemies from " ++ path
  | batchStarted enemies => s!"Summarizing {enemies} enemies"
  | nodeDecoded skillId skillType node =>
    s!"skill {skillId} type {skillType} -> " ++ Spelling.node node
  | typeUnrecognized skillId skillType => s!"skill {skillId} has unrecognized type {skillType}"
  | typesUnknown enemyId types =>
    s!"Enemy {enemyId} uses unknown skill types " ++ Spelling.words types
  | hpSampled enemyId level checkpoints =>
    enemyMark enemyId ++ s!" level {level}: hp checkpoints " ++ Spelling.wordList checkpoints
  | cardsUnsimulated enemyId cards =>
    s!"Enemy {enemyId} branches on ally cards " ++ Spelling.words cards
      ++ " that are never simulated"
  | nodeVisited visit => (visitMessage? visit).getD ""
  | walkRanOff position => s!"ran off the end at index {position}"
  | walkRevisited position => s!"index {position} revisited, ending walk"
  | walkCutShort steps position turn hp =>
    s!"Interpreter stopped after {steps} steps at index {position} (turn {turn}, hp {hp})"
  | walkFaulted position node fault =>
    s!"Fault at index {position}: " ++ fault.message ++ " (" ++ Spelling.node node ++ ")"
  | openingMove enemyId actions =>
    enemyMark enemyId ++ " preemptive: " ++ Spelling.actions actions
  | openingMissed enemyId level =>
    enemyMark enemyId ++ s!" preemptive marker not reached at level {level}"
  | turnSwept enemyId turn map =>
    enemyMark enemyId ++ s!" Turn {turn}: " ++ Spelling.turnMap map
  | cycleFound enemyId cycle =>
    enemyMark enemyId ++ s!" turns {cycle.start + 1}..{cycle.stop + 1} repeat"
  | cycleMissing enemyId =>
    enemyMark enemyId ++ s!" no repeating cycle within {sweepTurnCount} turns"
  | countShown enemyId count actions =>
    enemyMark enemyId ++ s!" {count} enemies left: " ++ Spelling.actions actions
  | hpUnsettled enemyId hp walks =>
    s!"Enemy {enemyId} still changing behavior at hp {hp} after {walks} walks"
  | enemySkipped failure => s!"Enemy {failure.enemyId} skipped: " ++ failure.error.message
  | batchFinished skillsets failures =>
    s!"Summarized {skillsets} skillsets, {failures} enemies failed"
  | enemyFailed failure => s!"Enemy {failure.enemyId} failed: " ++ failure.error.message
  | unknownTypesTallied t => tallyMessage "contain unknown skill types" t
  | stepCapTallied t => tallyMessage "hit the interpreter step cap" t
  | faultsTallied t => tallyMessage "hit execution faults" t
  | cardBranchesTallied t => tallyMessage "branch on ally cards that are never simulated" t

end Event

/-! ## The events of a walk -/

/-- The event of a visited node, if it has something to say. -/
def Visit.event? (v : Visit) : Option Event :=
  (Event.visitMessage? v).map fun _ => .nodeVisited v

/-- The event of the end of a walk, if it did not simply stop. -/
def Trace.endEvent? (t : Trace) : Option Event :=
  match t.ending with
  | .stopped => none
  | .ranOff position => some (.walkRanOff position)
  | .revisited position => some (.walkRevisited position)
  | .cutShort position => some (.walkCutShort t.steps position t.final.turn t.final.hp)
  | .faulted position node fault => some (.walkFaulted position node fault)

/-- The events of a walk. -/
def Probe.events (q : Probe) : List Event :=
  q.trace.visits.filterMap Visit.event? ++ q.trace.endEvent?.toList

/-! ## The events of a simulation -/

namespace Simulation

/-- The events of the opening. -/
def openingEvents (m : Simulation) (enemyId : UInt32) : List Event :=
  m.opening.events ++
    if m.hasOpeningMove then [.openingMove enemyId m.preemptives]
    else if m.passedMarker then [.openingMissed enemyId m.level]
    else []

/-- The events of the sweep over turns. -/
def turnEvents (m : Simulation) (enemyId : UInt32) : List Event :=
  (m.turns.flatMap fun r =>
    r.probes.flatMap Probe.events ++ [.turnSwept enemyId r.start.turn r.map])
  ++ [match m.cycle? with
    | some cycle => .cycleFound enemyId cycle
    | none => .cycleMissing enemyId]

/-- The events of the sweep over enemy counts. -/
def countEvents (m : Simulation) (enemyId : UInt32) : List Event :=
  match m.counts with
  | none => []
  | some sweep =>
    sweep.baseline.events ++ sweep.records.flatMap fun r =>
      r.probes.flatMap Probe.events
        ++ (r.group?.map fun g => .countShown enemyId g.count g.actions).toList

/-- The events of the sweep over HP. -/
def hpEvents (m : Simulation) (enemyId : UInt32) : List Event :=
  m.hp.flatMap fun r =>
    r.probes.flatMap Probe.events
      ++ if r.stillChanging then [.hpUnsettled enemyId r.hp r.steps.length] else []

def events (m : Simulation) (enemyId : UInt32) : List Event :=
  let f := m.findings
  (if f.unknownTypes.isEmpty then [] else [.typesUnknown enemyId f.unknownTypes])
  ++ [.hpSampled enemyId m.level m.checkpoints]
  ++ (if f.unsimulatedCards.isEmpty then [] else [.cardsUnsimulated enemyId f.unsimulatedCards])
  ++ m.openingEvents enemyId ++ m.turnEvents enemyId ++ m.countEvents enemyId ++ m.hpEvents enemyId

end Simulation

/-! ## The events of a batch -/

/-- The event of a record that has been decoded into a node, if there is one. -/
def SkillRecord.decodeEvent? (r : SkillRecord) (node : Node) : Option Event :=
  if r.logicRule?.isSome then some (.nodeDecoded r.skillId r.skillType node)
  else
    match r.kind? with
    | .ok none => some (.typeUnrecognized r.skillId r.skillType)
    | _ => none

/-- The events of decoding records, up to the first that fails. -/
def decodeEvents : List SkillRecord → List Event
  | [] => []
  | r :: rs =>
    match r.decode with
    | .ok node => (r.decodeEvent? node).toList ++ decodeEvents rs
    | .error _ => []

/-- The events of one enemy. -/
def EnemyOutcome.events (o : EnemyOutcome) : List Event :=
  decodeEvents o.enemy.records ++ o.simulations.flatMap (·.events o.enemy.enemyId)

/-- The event of a tally that has counted something. -/
def Tally.event? (t : Tally) (event : Tally → Event) : List Event :=
  if t.units = 0 then [] else [event t]

/-- The events at the end of a batch. -/
def BatchReport.events (r : BatchReport) : List Event :=
  .batchFinished r.summaries.length r.failures.length
    :: (r.failures.take maxExamples).map .enemyFailed
    ++ r.diagnostics.unknownTypes.event? .unknownTypesTallied
    ++ r.diagnostics.stepCap.event? .stepCapTallied
    ++ r.diagnostics.faults.event? .faultsTallied
    ++ r.diagnostics.cardBranches.event? .cardBranchesTallied

/-- The events of a batch. -/
def batchEvents (outcomes : List EnemyOutcome) : List Event :=
  let report := BatchReport.ofOutcomes outcomes
  .batchStarted outcomes.length :: outcomes.flatMap EnemyOutcome.events
    -- failures are told once all enemies have been simulated
    ++ report.failures.map .enemySkipped
    ++ report.events

end EnemyBehavior
