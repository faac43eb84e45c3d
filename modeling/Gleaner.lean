import Gleaner.Browser.Pages
import Gleaner.Browser.Session
import Gleaner.Catalog.Catalog
import Gleaner.Catalog.Execute
import Gleaner.Catalog.Record
import Gleaner.Command.Arguments
import Gleaner.Command.ExecuteScraper
import Gleaner.Command.Outcome
import Gleaner.Command.PrintFilter
import Gleaner.Document
import Gleaner.Failure
import Gleaner.Iteration.Context
import Gleaner.Iteration.Iterator
import Gleaner.Iteration.Plan
import Gleaner.Json.Dates
import Gleaner.Json.Reader
import Gleaner.Json.Writer
import Gleaner.Log
import Gleaner.Main
import Gleaner.Number.Binary64
import Gleaner.Number.Integer
import Gleaner.Number.Literal
import Gleaner.Number.Shortest
import Gleaner.Pattern.Match
import Gleaner.Pattern.Node
import Gleaner.Pattern.Reader
import Gleaner.Proofs.Browser.Apart
import Gleaner.Proofs.Browser.Isolation
import Gleaner.Proofs.Browser.Leaves
import Gleaner.Proofs.Browser.Openings
import Gleaner.Proofs.Browser.Registry
import Gleaner.Proofs.Browser.Serving
import Gleaner.Proofs.Browser.Sessions
import Gleaner.Proofs.Browser.Standing
import Gleaner.Proofs.Catalog.Execute
import Gleaner.Proofs.Catalog.Moves
import Gleaner.Proofs.Catalog.Polling
import Gleaner.Proofs.Catalog.Records
import Gleaner.Proofs.Catalog.Restoring
import Gleaner.Proofs.Iteration.Contexts
import Gleaner.Proofs.Json.Dates
import Gleaner.Proofs.Json.Documents
import Gleaner.Proofs.Json.Moments
import Gleaner.Proofs.Json.RoundTrip
import Gleaner.Proofs.Json.Scalars
import Gleaner.Proofs.Number.Decimal
import Gleaner.Proofs.Number.Numeral
import Gleaner.Proofs.Number.Order
import Gleaner.Proofs.Number.Rounding
import Gleaner.Proofs.Number.Shortest
import Gleaner.Proofs.Pattern.Match
import Gleaner.Proofs.Rehearsal.Standing
import Gleaner.Proofs.Rehearsal.Tables
import Gleaner.Proofs.Routine.Listable
import Gleaner.Proofs.Routine.NextRun
import Gleaner.Proofs.Routine.Stored
import Gleaner.Proofs.Run.Addresses
import Gleaner.Proofs.Run.Alike
import Gleaner.Proofs.Run.Budget
import Gleaner.Proofs.Run.Calls
import Gleaner.Proofs.Run.Cancellation
import Gleaner.Proofs.Run.Chronicle
import Gleaner.Proofs.Run.Closings
import Gleaner.Proofs.Run.Confined
import Gleaner.Proofs.Run.Deeds
import Gleaner.Proofs.Run.Effects
import Gleaner.Proofs.Run.Failing
import Gleaner.Proofs.Run.Forward
import Gleaner.Proofs.Run.Iterations
import Gleaner.Proofs.Run.Keeps
import Gleaner.Proofs.Run.Lasting
import Gleaner.Proofs.Run.Leaves
import Gleaner.Proofs.Run.Nesting
import Gleaner.Proofs.Run.Performances
import Gleaner.Proofs.Run.Position
import Gleaner.Proofs.Run.Reachable
import Gleaner.Proofs.Run.Readings
import Gleaner.Proofs.Run.Record
import Gleaner.Proofs.Run.Scopes
import Gleaner.Proofs.Run.Simulation
import Gleaner.Proofs.Run.Tolerance
import Gleaner.Proofs.Run.Turn
import Gleaner.Proofs.Script.Kept
import Gleaner.Proofs.Script.Numbering
import Gleaner.Proofs.Script.Parts
import Gleaner.Proofs.Script.Wire
import Gleaner.Proofs.Service.Counts
import Gleaner.Proofs.Service.Handling
import Gleaner.Proofs.Service.Moves
import Gleaner.Proofs.Service.Names
import Gleaner.Proofs.Service.Overlap
import Gleaner.Proofs.Service.Paging
import Gleaner.Proofs.Service.Schedules
import Gleaner.Proofs.Service.Scrapers
import Gleaner.Proofs.Service.Turns
import Gleaner.Proofs.Sql.Confinement
import Gleaner.Proofs.Sql.Effects
import Gleaner.Proofs.Sql.Grammar
import Gleaner.Proofs.Sql.Identity
import Gleaner.Proofs.Sql.Markup
import Gleaner.Proofs.Sql.Naming
import Gleaner.Proofs.Sql.Numerals
import Gleaner.Proofs.Sql.Reading.Operand
import Gleaner.Proofs.Sql.Reading.Relation
import Gleaner.Proofs.Sql.Reading.Theorems
import Gleaner.Proofs.Sql.Rows
import Gleaner.Proofs.Sql.Scanning
import Gleaner.Proofs.Store.Confinement
import Gleaner.Proofs.Store.Keys
import Gleaner.Proofs.Store.Listing
import Gleaner.Proofs.Store.Snapshot
import Gleaner.Proofs.Store.Theorems
import Gleaner.Proofs.Template.Endings
import Gleaner.Proofs.Template.Pattern
import Gleaner.Proofs.Template.SinglePass
import Gleaner.Proofs.Template.Tokens
import Gleaner.Proofs.Template.Traced
import Gleaner.Proofs.Text.Cut
import Gleaner.Proofs.Time.Order
import Gleaner.Proofs.Time.Theorems
import Gleaner.Proofs.Trace.Wire
import Gleaner.Proofs.Url.Address
import Gleaner.Proofs.Url.Characters
import Gleaner.Proofs.Url.Recomposed
import Gleaner.Proofs.Validation.Found
import Gleaner.Proofs.Validation.Kept
import Gleaner.Proofs.Validation.Valid
import Gleaner.Proofs.Where.Fetched
import Gleaner.Proofs.Where.Literal
import Gleaner.Proofs.Where.MomentOrder
import Gleaner.Proofs.Where.Scanned
import Gleaner.Proofs.Where.Theorems
import Gleaner.Proofs.Where.Tree
import Gleaner.Proofs.Where.Truth
import Gleaner.Proofs.Where.Unchecked
import Gleaner.Rehearsal.Browser
import Gleaner.Rehearsal.Keeper
import Gleaner.Rehearsal.KeyedStore
import Gleaner.Rehearsal.Script
import Gleaner.Rehearsal.ScriptedPages
import Gleaner.Rehearsal.Service
import Gleaner.Rehearsal.Tables
import Gleaner.Rehearsal.World
import Gleaner.Routine.Definition
import Gleaner.Routine.NextRun
import Gleaner.Routine.Schedule
import Gleaner.Run.Environment
import Gleaner.Run.Execution
import Gleaner.Run.Interpreter
import Gleaner.Run.Resolve
import Gleaner.Run.Session
import Gleaner.Script.Action
import Gleaner.Script.Instruction
import Gleaner.Script.Jumps
import Gleaner.Script.Matcher
import Gleaner.Script.Scraper
import Gleaner.Script.Selector
import Gleaner.Script.Source
import Gleaner.Service.Endpoints
import Gleaner.Service.Request
import Gleaner.Service.Route
import Gleaner.Settings
import Gleaner.Sql.Cell
import Gleaner.Sql.Error
import Gleaner.Sql.Evaluate
import Gleaner.Sql.Expression
import Gleaner.Sql.Name
import Gleaner.Sql.Phrase
import Gleaner.Sql.Statement
import Gleaner.Sql.Table
import Gleaner.Sql.Token
import Gleaner.Store.Key
import Gleaner.Store.Tables
import Gleaner.Template.Error
import Gleaner.Template.Expand
import Gleaner.Template.Token
import Gleaner.Text.Alphanumeric
import Gleaner.Text.Basic
import Gleaner.Text.Lowercase
import Gleaner.Text.Printable
import Gleaner.Text.Quoted
import Gleaner.Time.Calendar
import Gleaner.Time.Reader
import Gleaner.Time.Stamp
import Gleaner.Time.Written
import Gleaner.Trace.Entry
import Gleaner.Trace.Iteration
import Gleaner.Trace.Log
import Gleaner.Url.Property
import Gleaner.Url.Split
import Gleaner.Validation.Checked
import Gleaner.Validation.Issue
import Gleaner.Validation.Record
import Gleaner.Validation.Scalar
import Gleaner.Value
import Gleaner.Value.Display
import Gleaner.Where.Compile
import Gleaner.Where.Filter
import Gleaner.Where.Literal
