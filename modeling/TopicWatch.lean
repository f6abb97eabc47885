import TopicWatch.Bridge.Chunks
import TopicWatch.Bridge.Client
import TopicWatch.Bridge.Connection
import TopicWatch.Bridge.Error
import TopicWatch.Bridge.Forwarder
import TopicWatch.Bridge.Frame
import TopicWatch.Bridge.Outbox
import TopicWatch.Bridge.Port
import TopicWatch.Bridge.Request
import TopicWatch.Bridge.Traffic
import TopicWatch.CommandLine
import TopicWatch.Config.File
import TopicWatch.Config.Observer
import TopicWatch.Config.Section
import TopicWatch.Config.Server
import TopicWatch.Config.Source
import TopicWatch.Harness
import TopicWatch.Inspection.Response
import TopicWatch.Inspection.Route
import TopicWatch.Intercept.Broker
import TopicWatch.Intercept.Callback
import TopicWatch.Intercept.View
import TopicWatch.Json.Form
import TopicWatch.Json.Pointer
import TopicWatch.Json.Reader
import TopicWatch.Json.Record
import TopicWatch.Json.Skip
import TopicWatch.Json.Token
import TopicWatch.Json.Value
import TopicWatch.Json.Writer
import TopicWatch.Keyed
import TopicWatch.Main
import TopicWatch.Network
import TopicWatch.Number.Binary64
import TopicWatch.Number.Shortest
import TopicWatch.Proofs.Bridge.Buffered
import TopicWatch.Proofs.Bridge.Chunks
import TopicWatch.Proofs.Bridge.Client
import TopicWatch.Proofs.Bridge.Connection
import TopicWatch.Proofs.Bridge.Frame
import TopicWatch.Proofs.Bridge.Order
import TopicWatch.Proofs.Bridge.Outbox
import TopicWatch.Proofs.Bridge.Port
import TopicWatch.Proofs.Bridge.Presentation
import TopicWatch.Proofs.Bridge.Refusal
import TopicWatch.Proofs.Bridge.Request
import TopicWatch.Proofs.Bridge.Room
import TopicWatch.Proofs.Bridge.Server
import TopicWatch.Proofs.Bridge.Stream
import TopicWatch.Proofs.Bridge.Traffic
import TopicWatch.Proofs.Bridge.Transparency
import TopicWatch.Proofs.Config.Buffered
import TopicWatch.Proofs.Config.Changes
import TopicWatch.Proofs.Config.Loading
import TopicWatch.Proofs.Config.Sections
import TopicWatch.Proofs.Harness
import TopicWatch.Proofs.Inspection.Log
import TopicWatch.Proofs.Inspection.Route
import TopicWatch.Proofs.Intercept.Commits
import TopicWatch.Proofs.Intercept.Sends
import TopicWatch.Proofs.Json.Agreement
import TopicWatch.Proofs.Json.Behind
import TopicWatch.Proofs.Json.Buffer
import TopicWatch.Proofs.Json.Consumption
import TopicWatch.Proofs.Json.Cut
import TopicWatch.Proofs.Json.End
import TopicWatch.Proofs.Json.Form
import TopicWatch.Proofs.Json.Layout
import TopicWatch.Proofs.Json.Number
import TopicWatch.Proofs.Json.Object
import TopicWatch.Proofs.Json.Presentation
import TopicWatch.Proofs.Json.Refusal
import TopicWatch.Proofs.Json.Skip
import TopicWatch.Proofs.Json.SkipScalar
import TopicWatch.Proofs.Json.Spelling
import TopicWatch.Proofs.Json.Text
import TopicWatch.Proofs.Json.Weight
import TopicWatch.Proofs.Json.Wellformed
import TopicWatch.Proofs.Keyed
import TopicWatch.Proofs.Publish.Recorder
import TopicWatch.Proofs.Record.Buffered
import TopicWatch.Proofs.Record.Message
import TopicWatch.Proofs.Record.Observation
import TopicWatch.Proofs.Record.Payload
import TopicWatch.Proofs.Record.Presentation
import TopicWatch.Proofs.Sink.Log
import TopicWatch.Proofs.Sink.Redelivery
import TopicWatch.Proofs.Sink.Renaming
import TopicWatch.Proofs.Sink.Retention
import TopicWatch.Proofs.Sink.Routing
import TopicWatch.Proofs.Store.Commits
import TopicWatch.Proofs.Store.Contents
import TopicWatch.Proofs.Store.Log
import TopicWatch.Proofs.Store.Records
import TopicWatch.Proofs.Text.Ascii
import TopicWatch.Proofs.Text.Base64
import TopicWatch.Proofs.Text.Blank
import TopicWatch.Proofs.Text.Damage
import TopicWatch.Proofs.Text.Utf8
import TopicWatch.Proofs.Topic.Classification
import TopicWatch.Proofs.Wait.Arrival
import TopicWatch.Proofs.Wait.Calls
import TopicWatch.Proofs.Wait.Matching
import TopicWatch.Proofs.Wait.Pacing
import TopicWatch.Proofs.Wait.Passes
import TopicWatch.Proofs.Wait.Race
import TopicWatch.Proofs.Wait.Reasons
import TopicWatch.Proofs.Wait.Renaming
import TopicWatch.Proofs.Wait.Settling
import TopicWatch.Proofs.Wait.Timeline
import TopicWatch.Proofs.Wait.Verdict
import TopicWatch.Publish.Cluster
import TopicWatch.Publish.Outgoing
import TopicWatch.Publish.Recorder
import TopicWatch.Record.Failure
import TopicWatch.Record.Kind
import TopicWatch.Record.Message
import TopicWatch.Record.Metadata
import TopicWatch.Record.Observation
import TopicWatch.Service
import TopicWatch.Sink
import TopicWatch.Store.Basic
import TopicWatch.Store.Messages
import TopicWatch.Store.Report
import TopicWatch.Store.Watermark
import TopicWatch.Text.Ascii
import TopicWatch.Text.Base64
import TopicWatch.Text.Blank
import TopicWatch.Text.Percent
import TopicWatch.Text.Quoted
import TopicWatch.Text.Unprintable
import TopicWatch.Text.Utf8
import TopicWatch.Time.Duration
import TopicWatch.Toml.Document
import TopicWatch.Toml.Number
import TopicWatch.Toml.Reader
import TopicWatch.Toml.Token
import TopicWatch.Toml.Value
import TopicWatch.Topic.Suffixes
import TopicWatch.Wait.Assertions
import TopicWatch.Wait.Commit
import TopicWatch.Wait.Condition
import TopicWatch.Wait.Expectation
import TopicWatch.Wait.Failure
import TopicWatch.Wait.FailureExpectation
import TopicWatch.Wait.Pace
import TopicWatch.Wait.Timeline
