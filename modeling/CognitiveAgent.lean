import CognitiveAgent.Configuration.Assignments
import CognitiveAgent.Configuration.Basic
import CognitiveAgent.Configuration.Layers
import CognitiveAgent.Configuration.Load
import CognitiveAgent.Json.Basic
import CognitiveAgent.Json.Decoding
import CognitiveAgent.Json.Reader
import CognitiveAgent.Json.Writer
import CognitiveAgent.Number.Arithmetic
import CognitiveAgent.Number.Basic
import CognitiveAgent.Number.Decimal
import CognitiveAgent.Number.Rounding
import CognitiveAgent.Number.Text
import CognitiveAgent.Program.Condition
import CognitiveAgent.Program.Construction
import CognitiveAgent.Program.Definition
import CognitiveAgent.Program.JsonForm
import CognitiveAgent.Program.Module
import CognitiveAgent.Program.Policy
import CognitiveAgent.Proofs.Exec
import CognitiveAgent.Proofs.Pops
import CognitiveAgent.Proofs.Waiting
import CognitiveAgent.Random.Stream
import CognitiveAgent.Run.Acting
import CognitiveAgent.Run.Activation
import CognitiveAgent.Run.Agent
import CognitiveAgent.Run.Attempt
import CognitiveAgent.Run.CallStack
import CognitiveAgent.Run.Event
import CognitiveAgent.Run.Execution
import CognitiveAgent.Run.Failure
import CognitiveAgent.Run.Firing
import CognitiveAgent.Run.Frame
import CognitiveAgent.Run.Parameters
import CognitiveAgent.Run.Request
import CognitiveAgent.Run.Result
import CognitiveAgent.Run.Setting
import CognitiveAgent.Run.Strategy.Choices
import CognitiveAgent.Run.Strategy.Passes
import CognitiveAgent.Run.Strategy.Plans
import CognitiveAgent.Simulation.Mind
import CognitiveAgent.Simulation.Trace
import CognitiveAgent.Simulation.World
import CognitiveAgent.Term.Basic
import CognitiveAgent.Term.JsonForm
import CognitiveAgent.Term.Substitution
import CognitiveAgent.Term.Unification
import CognitiveAgent.Text.Alphanumeric
import CognitiveAgent.Text.CodeRanges
import CognitiveAgent.Text.Digits
import CognitiveAgent.Text.Quoted
import CognitiveAgent.Text.Template
import CognitiveAgent.Text.Unprintable
import CognitiveAgent.Toml.Basic
import CognitiveAgent.Toml.Reader
import CognitiveAgent.Toml.Scalar
import CognitiveAgent.Proofs.Routing
import CognitiveAgent.Proofs.Independence
import CognitiveAgent.Proofs.Unwinding
import CognitiveAgent.Proofs.ExitScope
import CognitiveAgent.Proofs.Mirroring
import CognitiveAgent.Proofs.Occurrences
import CognitiveAgent.Proofs.Conduct
import CognitiveAgent.Proofs.FinalStatus
import CognitiveAgent.Proofs.Records
import CognitiveAgent.Proofs.Termination
import CognitiveAgent.Proofs.PassStructure
import CognitiveAgent.Proofs.StackShape
import CognitiveAgent.Proofs.EnteredModules
import CognitiveAgent.Proofs.PlanLedger
import CognitiveAgent.Proofs.PlanDiscipline
import CognitiveAgent.Proofs.ChoiceTurns
import CognitiveAgent.Proofs.LearnerCalls
import CognitiveAgent.Proofs.LearnerProtocol
import CognitiveAgent.Proofs.Phases
import CognitiveAgent.Proofs.RuleOrders
import CognitiveAgent.Proofs.Alterations
import CognitiveAgent.Proofs.FocusBrackets
import CognitiveAgent.Proofs.ClosedTerms
import CognitiveAgent.Proofs.GroundTurns
import CognitiveAgent.Proofs.GroundRuns
import CognitiveAgent.Proofs.ClosedUpdates
import CognitiveAgent.Proofs.Transparency
import CognitiveAgent.Proofs.InnerModules
import CognitiveAgent.Proofs.ModuleTurns
import CognitiveAgent.Proofs.Exhaustion
import CognitiveAgent.Proofs.PlanSources
import CognitiveAgent.Proofs.LayeredPrograms
import CognitiveAgent.Proofs.CodeOrigins
import CognitiveAgent.Proofs.SeedIndependence
import CognitiveAgent.Proofs.EventCycles
import CognitiveAgent.Proofs.Acyclicity
import CognitiveAgent.Proofs.Likeness
import CognitiveAgent.Proofs.Readings
import CognitiveAgent.Proofs.Unifiers
import CognitiveAgent.Proofs.RecordForms
import CognitiveAgent.Proofs.ProgramForms
import CognitiveAgent.Proofs.LifeCycle
import CognitiveAgent.Proofs.Resolution
import CognitiveAgent.Proofs.Merging
import CognitiveAgent.Proofs.ParameterMatching
import CognitiveAgent.Proofs.Rounds
import CognitiveAgent.Proofs.RuleFiring
import CognitiveAgent.Proofs.ComboExecution
import CognitiveAgent.Proofs.UserActions
import CognitiveAgent.Proofs.ListallFirings
import CognitiveAgent.Proofs.ProgramValidation
import CognitiveAgent.Proofs.ListallChains
import CognitiveAgent.Proofs.TemplateGaps
import CognitiveAgent.Proofs.Attempts
import CognitiveAgent.Proofs.Returns
import CognitiveAgent.Proofs.StopSignal
