import RowPolicy.Action
import RowPolicy.Actor
import RowPolicy.Audit
import RowPolicy.CommandLine
import RowPolicy.Compilation
import RowPolicy.Decision
import RowPolicy.Declarations
import RowPolicy.Digits
import RowPolicy.Double
import RowPolicy.Duration
import RowPolicy.Error
import RowPolicy.Fault
import RowPolicy.Filter
import RowPolicy.FilterJson
import RowPolicy.FilterReader
import RowPolicy.Form
import RowPolicy.Guard
import RowPolicy.Json
import RowPolicy.JsonReader
import RowPolicy.JsonText
import RowPolicy.Main
import RowPolicy.Operator
import RowPolicy.Outcome
import RowPolicy.Policies
import RowPolicy.Query
import RowPolicy.QueryJson
import RowPolicy.QueryReader
import RowPolicy.Run
import RowPolicy.Scalar
import RowPolicy.Schedule
import RowPolicy.Schema
import RowPolicy.SchemaJson
import RowPolicy.Settings
import RowPolicy.SettingsJson
import RowPolicy.Table
import RowPolicy.Template
import RowPolicy.Text
import RowPolicy.Timestamp
import RowPolicy.Toml
import RowPolicy.TomlReader
import RowPolicy.Proofs.Refusal
import RowPolicy.Proofs.Valuation
import RowPolicy.Proofs.Arrival
import RowPolicy.Proofs.Composition
import RowPolicy.Proofs.CanonicalForm
import RowPolicy.Proofs.FilterValidity
import RowPolicy.Proofs.QueryParts
import RowPolicy.Proofs.RoundTrip
import RowPolicy.Proofs.Enforcement
import RowPolicy.Proofs.JsonTree
import RowPolicy.Proofs.ConditionMap
import RowPolicy.Proofs.TypedConditions
import RowPolicy.Proofs.FilterGrammar
import RowPolicy.Proofs.TemplateFilters
import RowPolicy.Proofs.TemplateShape
import RowPolicy.Proofs.SealedPolicies
import RowPolicy.Proofs.WrittenValue
import RowPolicy.Proofs.Conformance
import RowPolicy.Proofs.Registration
import RowPolicy.Proofs.Concurrency
import RowPolicy.Proofs.Intersection
import RowPolicy.Proofs.BuilderHistory
import RowPolicy.Proofs.Faults
import RowPolicy.Proofs.RegisteredModels
import RowPolicy.Proofs.AuditTrail
import RowPolicy.Proofs.CompiledFilters
import RowPolicy.Proofs.FailedSeal
import RowPolicy.Proofs.PolicyHistory
import RowPolicy.Proofs.ActorViews
import RowPolicy.Proofs.Interruption
import RowPolicy.Proofs.Cancellation
import RowPolicy.Proofs.TypedCheck
import RowPolicy.Proofs.NormalForm
import RowPolicy.Proofs.QueryGrammar
import RowPolicy.Proofs.FaultPlaces
import RowPolicy.Proofs.Substitution
import RowPolicy.Proofs.DeclaredPolicies
import RowPolicy.Proofs.RegistrationOrder
import RowPolicy.Proofs.LongForm
import RowPolicy.Proofs.Spelling
