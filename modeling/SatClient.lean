import SatClient.Text.Blank
import SatClient.Text.Integer
import SatClient.Text.Lossy
import SatClient.Text.Graphic
import SatClient.Text.Quoted
import SatClient.Text.Concealed
import SatClient.Payload
import SatClient.TriState
import SatClient.EntryPoint
import SatClient.Code
import SatClient.Failure
import SatClient.Redundancy
import SatClient.Literal
import SatClient.Sequence
import SatClient.Setting
import SatClient.Call
import SatClient.Notice
import SatClient.Bridge
import SatClient.Keyed
import SatClient.World
import SatClient.Solver.Basic
import SatClient.Solver.Solve
import SatClient.Solver.Callbacks
import SatClient.Solver.Options
import SatClient.Library
import SatClient.Shelf
import SatClient.Scripted
import SatClient.Constant
import SatClient.Mock.Expectation
import SatClient.Mock.Basic
import SatClient.Mock.Respond
import SatClient.Session.Trace
import SatClient.Session.Answer
import SatClient.Session.Step
import SatClient.Session.Basic
import SatClient.Session.Run
import SatClient.Session.Scripted
import SatClient.Session.Mock
import SatClient.Session.Tour
import SatClient.Proofs.Operation
import SatClient.Proofs.Visit
import SatClient.Proofs.Move
import SatClient.Proofs.Stage
import SatClient.Proofs.Roster
import SatClient.Proofs.Panic
import SatClient.Proofs.Resumption
import SatClient.Proofs.Slot
import SatClient.Proofs.Registration
import SatClient.Proofs.CallBack
import SatClient.Proofs.SolveOutcome
import SatClient.Proofs.MockAnswer
import SatClient.Proofs.MockRegistration
import SatClient.Proofs.Custody
import SatClient.Proofs.Lifetime
import SatClient.Proofs.Scratch
import SatClient.Proofs.Handover
import SatClient.Proofs.Access
import SatClient.Proofs.Discovery
import SatClient.Proofs.Placement
import SatClient.Proofs.Provenance
import SatClient.Proofs.Apart
import SatClient.Proofs.Abreast
import SatClient.Proofs.Interleaving
import SatClient.Proofs.MockInstance
import SatClient.Proofs.MockApart
import SatClient.Proofs.Settled
import SatClient.Proofs.Strays
import SatClient.Proofs.Ownership
import SatClient.Proofs.Portfolio
import SatClient.Proofs.Chronicle
import SatClient.Proofs.MockExact
import SatClient.Proofs.MockVerdict
import SatClient.Proofs.Account
import SatClient.Proofs.Verify
import SatClient.Proofs.Grammar
import SatClient.Proofs.Codes
import SatClient.Proofs.Failing
import SatClient.Proofs.KeepAlive
import SatClient.Proofs.Legible
import SatClient.Proofs.NullHandle
import SatClient.Proofs.Layout
import SatClient.Proofs.Rejection
import SatClient.Proofs.ByName
import SatClient.Proofs.Reach
import SatClient.Proofs.Configuration
import SatClient.Proofs.Loading
import SatClient.Proofs.Linking
import SatClient.Proofs.Delivery
import SatClient.Proofs.RoundTrip
import SatClient.Proofs.Valuation
import SatClient.Proofs.MockCourse
import SatClient.Proofs.Encoding
import SatClient.Proofs.Described
import SatClient.Proofs.Inits
