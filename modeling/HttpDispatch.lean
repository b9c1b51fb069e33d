import HttpDispatch.Attempt
import HttpDispatch.Category
import HttpDispatch.Coding.Coder
import HttpDispatch.Coding.Deflate.Block
import HttpDispatch.Coding.Deflate.Decoder
import HttpDispatch.Coding.Deflate.Encoder
import HttpDispatch.Coding.Deflate.PrefixCode
import HttpDispatch.Coding.Deflate.Token
import HttpDispatch.Coding.Deflate.Window
import HttpDispatch.Coding.Gzip
import HttpDispatch.Coding.Negotiation
import HttpDispatch.Config.Environment
import HttpDispatch.Config.File
import HttpDispatch.Config.Settings
import HttpDispatch.Config.Workers
import HttpDispatch.Connection.Line
import HttpDispatch.Connection.Source
import HttpDispatch.Connection.Writer
import HttpDispatch.Context.Basic
import HttpDispatch.Context.Commit
import HttpDispatch.Context.Events
import HttpDispatch.Context.Range
import HttpDispatch.Context.View
import HttpDispatch.Decimal.Read
import HttpDispatch.Decimal.Shortest
import HttpDispatch.Dispatcher.Basic
import HttpDispatch.Dispatcher.Dispatch
import HttpDispatch.Dispatcher.Passage
import HttpDispatch.Dispatcher.Setup
import HttpDispatch.Error
import HttpDispatch.ErrorHandlers
import HttpDispatch.EventStream.Emitter
import HttpDispatch.EventStream.Event
import HttpDispatch.EventStream.Session
import HttpDispatch.Exchange.Basic
import HttpDispatch.Exchange.Head
import HttpDispatch.Exchange.Operation
import HttpDispatch.Exchange.Received
import HttpDispatch.Exchange.Request
import HttpDispatch.Exchange.Target
import HttpDispatch.Http.Address
import HttpDispatch.Http.Field
import HttpDispatch.Http.Headers
import HttpDispatch.Http.Method
import HttpDispatch.Http.Status
import HttpDispatch.Json.Codec
import HttpDispatch.Json.Parser
import HttpDispatch.Json.Printer
import HttpDispatch.Json.Shape
import HttpDispatch.Json.Value
import HttpDispatch.Log
import HttpDispatch.Log.Filter
import HttpDispatch.Log.Sampling
import HttpDispatch.Log.Settings
import HttpDispatch.Metrics
import HttpDispatch.Middleware
import HttpDispatch.Program.Basic
import HttpDispatch.Program.Run
import HttpDispatch.Proofs.Agreement
import HttpDispatch.Proofs.Attempt
import HttpDispatch.Proofs.Coding.Bits
import HttpDispatch.Proofs.Coding.Stored
import HttpDispatch.Proofs.Context.Commit
import HttpDispatch.Proofs.Context.Moves
import HttpDispatch.Proofs.Context.Report
import HttpDispatch.Proofs.Dispatcher.HeadOnly
import HttpDispatch.Proofs.Dispatcher.Hidden
import HttpDispatch.Proofs.Dispatcher.Journal
import HttpDispatch.Proofs.Dispatcher.Outcome
import HttpDispatch.Proofs.Dispatcher.Unwritten
import HttpDispatch.Proofs.EventStream.Moves
import HttpDispatch.Proofs.EventStream.Report
import HttpDispatch.Proofs.Exchange.Fragments
import HttpDispatch.Proofs.Exchange.Accepted
import HttpDispatch.Proofs.Exchange.DeclaredLength
import HttpDispatch.Proofs.Program.Metrics
import HttpDispatch.Proofs.Dispatcher.Concurrent
import HttpDispatch.Proofs.Exchange.Head
import HttpDispatch.Proofs.Exchange.Moves
import HttpDispatch.Proofs.Exchange.Report
import HttpDispatch.Proofs.Http.Headers
import HttpDispatch.Proofs.Program.Alike
import HttpDispatch.Proofs.Program.Moves
import HttpDispatch.Proofs.Program.Report
import HttpDispatch.Proofs.Program.Spent
import HttpDispatch.Proofs.Program.Unwritten
import HttpDispatch.Proofs.Route.Scan
import HttpDispatch.Proofs.Stream.Buffered
import HttpDispatch.Proofs.Stream.Moves
import HttpDispatch.Proofs.Stream.Report
import HttpDispatch.Proofs.Stream.Sent
import HttpDispatch.RequestId
import HttpDispatch.Response
import HttpDispatch.Route.Index
import HttpDispatch.Route.Path
import HttpDispatch.Route.Pattern
import HttpDispatch.Route.Registration
import HttpDispatch.Route.Table
import HttpDispatch.Server
import HttpDispatch.Stream.Buffered
import HttpDispatch.Stream.Range
import HttpDispatch.Stream.ResponseStream
import HttpDispatch.Text.Basic
import HttpDispatch.Text.Numeral
import HttpDispatch.Text.Printable
import HttpDispatch.Text.Quoted
import HttpDispatch.Text.Utf8
import HttpDispatch.Url.Percent
import HttpDispatch.Url.Query
import HttpDispatch.Yaml.Cursor
import HttpDispatch.Yaml.Lexer
import HttpDispatch.Yaml.Node
import HttpDispatch.Yaml.Scalar
import HttpDispatch.Yaml.Token
import HttpDispatch.Proofs.EventStream.Listener
import HttpDispatch.Proofs.EventStream.Heard
import HttpDispatch.Proofs.Connection.Cut
import HttpDispatch.Proofs.Connection.Line
import HttpDispatch.Proofs.Http.Token
import HttpDispatch.Proofs.Http.Value
import HttpDispatch.Proofs.Exchange.Body
import HttpDispatch.Proofs.Exchange.RequestHead
import HttpDispatch.Proofs.Stream.Whole
import HttpDispatch.Proofs.Stream.Begun
import HttpDispatch.Proofs.Stream.Range
import HttpDispatch.Proofs.Context.Range
import HttpDispatch.Proofs.Dispatcher.Range
import HttpDispatch.Proofs.Connection.Writer
import HttpDispatch.Proofs.Exchange.History
import HttpDispatch.Proofs.Exchange.Mirror
import HttpDispatch.Proofs.Exchange.Received
import HttpDispatch.Proofs.Exchange.Wire
import HttpDispatch.Proofs.Route.Scope
import HttpDispatch.Proofs.Stream.Failure
import HttpDispatch.Proofs.Program.Failure
import HttpDispatch.Proofs.Dispatcher.Failure
import HttpDispatch.Proofs.Stream.Variants
import HttpDispatch.Proofs.Context.Opened
import HttpDispatch.Proofs.EventStream.Interleaving
import HttpDispatch.Proofs.EventStream.Orderly
import HttpDispatch.Proofs.Dispatcher.Identified
import HttpDispatch.Proofs.Dispatcher.Gauge
import HttpDispatch.Proofs.Dispatcher.Paired
import HttpDispatch.Proofs.Dispatcher.Counters
import HttpDispatch.Proofs.ErrorHandlers
import HttpDispatch.Proofs.Url.Percent
import HttpDispatch.Proofs.Route.Template
import HttpDispatch.Proofs.Route.TrailingSlash
import HttpDispatch.Proofs.Route.Builder
import HttpDispatch.Proofs.Route.Grammar
import HttpDispatch.Proofs.Route.Params
import HttpDispatch.Proofs.Stream.RangeSpec
import HttpDispatch.Proofs.Stream.RangeWords
import HttpDispatch.Proofs.Stream.Pieces
import HttpDispatch.Proofs.EventStream.Record
import HttpDispatch.Proofs.Stream.Steady
import HttpDispatch.Proofs.Exchange.Target
import HttpDispatch.Proofs.Dispatcher.Kept
import HttpDispatch.Proofs.Stream.Filled
import HttpDispatch.Proofs.Program.Filled
import HttpDispatch.Proofs.Dispatcher.Bare
import HttpDispatch.Proofs.Metrics.Exposition
import HttpDispatch.Proofs.Metrics.Rendered
import HttpDispatch.Proofs.Text.Items
import HttpDispatch.Proofs.Http.Merge
import HttpDispatch.Proofs.Http.Joined
import HttpDispatch.Proofs.Connection.FirstLine
import HttpDispatch.Proofs.Decimal.Value
import HttpDispatch.Proofs.Decimal.Quotient
import HttpDispatch.Proofs.Log.Sampling
