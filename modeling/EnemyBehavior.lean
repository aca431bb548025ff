import EnemyBehavior.Words
import EnemyBehavior.Decimal
import EnemyBehavior.Ascending
import EnemyBehavior.Distinct
import EnemyBehavior.Action
import EnemyBehavior.Node
import EnemyBehavior.BattleState
import EnemyBehavior.Program
import EnemyBehavior.Node.Execute
import EnemyBehavior.Walk
import EnemyBehavior.TurnMap
import EnemyBehavior.Skillset
import EnemyBehavior.Skillset.Clean
import EnemyBehavior.Cycle
import EnemyBehavior.Sweep.Turns
import EnemyBehavior.Sweep.EnemyCounts
import EnemyBehavior.Sweep.Hp
import EnemyBehavior.Simulation
import EnemyBehavior.Record
import EnemyBehavior.Record.Rules
import EnemyBehavior.Record.Decode
import EnemyBehavior.Enemy
import EnemyBehavior.Batch
import EnemyBehavior.Json
import EnemyBehavior.Json.Token
import EnemyBehavior.Json.Text
import EnemyBehavior.Json.Reading
import EnemyBehavior.Shape
import EnemyBehavior.Action.Json
import EnemyBehavior.Node.Json
import EnemyBehavior.Skillset.Json
import EnemyBehavior.Record.Json
import EnemyBehavior.Enemy.Json
import EnemyBehavior.Batch.Json
import EnemyBehavior.Log.Spelling
import EnemyBehavior.Event
import EnemyBehavior.Log
import EnemyBehavior.CommandLine
import EnemyBehavior.CommandLine.Run
import EnemyBehavior.Main
import EnemyBehavior.Proofs.Step
import EnemyBehavior.Proofs.Run
import EnemyBehavior.Proofs.HpCheckpoints
import EnemyBehavior.Proofs.TurnMaps
import EnemyBehavior.Proofs.TurnSweep
import EnemyBehavior.Proofs.TurnSampling
import EnemyBehavior.Proofs.HpSweep
import EnemyBehavior.Proofs.Movesets
import EnemyBehavior.Proofs.Cleaning
import EnemyBehavior.Proofs.Phases
import EnemyBehavior.Proofs.GatedActions
import EnemyBehavior.Proofs.SteadyState
import EnemyBehavior.Proofs.CountSweep
import EnemyBehavior.Proofs.View
import EnemyBehavior.Proofs.Periodic
import EnemyBehavior.Proofs.InStep
import EnemyBehavior.Proofs.Levels
import EnemyBehavior.Proofs.Recurrence
import EnemyBehavior.Proofs.Stateless
import EnemyBehavior.Proofs.WalkBounds
import EnemyBehavior.Proofs.MarkedLoop
import EnemyBehavior.Proofs.OneTime
import EnemyBehavior.Proofs.Play
import EnemyBehavior.Proofs.Provenance
import EnemyBehavior.Proofs.Invariant
import EnemyBehavior.Proofs.OneTimePhases
import EnemyBehavior.Proofs.IdleCountSweep
import EnemyBehavior.Proofs.Blanking
import EnemyBehavior.Proofs.UntakenBranches
import EnemyBehavior.Proofs.OpeningMarkers
import EnemyBehavior.Proofs.Diagnostics
import EnemyBehavior.Proofs.Batches
import EnemyBehavior.Proofs.Decimals
import EnemyBehavior.Proofs.JsonTokens
import EnemyBehavior.Proofs.JsonTexts
import EnemyBehavior.Proofs.JsonReading
import EnemyBehavior.Proofs.JsonShapes
import EnemyBehavior.Proofs.JsonActions
import EnemyBehavior.Proofs.JsonRoundTrip
import EnemyBehavior.Proofs.TidySkillsets
import EnemyBehavior.Proofs.UnknownTypes
import EnemyBehavior.Proofs.LeftoverTurns
import EnemyBehavior.Proofs.CycleGroups
import EnemyBehavior.Proofs.CountGroups
import EnemyBehavior.Proofs.SummaryShape
import EnemyBehavior.Proofs.DecodeFailures
import EnemyBehavior.Proofs.Reports
import EnemyBehavior.Proofs.Conditions
import EnemyBehavior.Proofs.Countdowns
import EnemyBehavior.Proofs.ExactArithmetic
import EnemyBehavior.Proofs.HpGroups
