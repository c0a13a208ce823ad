import Relay.Bytes
import Relay.Cli.Arguments
import Relay.Cli.Finish
import Relay.Cli.Help
import Relay.Cli.Play
import Relay.Cli.Tool
import Relay.Console
import Relay.Controller
import Relay.Credential.Basic
import Relay.Credential.Store
import Relay.Decimal.Binary64
import Relay.Decimal.Shortest
import Relay.Duration
import Relay.Entries
import Relay.Files.Disk
import Relay.Files.Failure
import Relay.Files.Tree
import Relay.Json.Decode
import Relay.Json.Reader
import Relay.Json.Writer
import Relay.Locate
import Relay.Main
import Relay.Operation
import Relay.Outcome.Basic
import Relay.Outcome.Classify
import Relay.Path
import Relay.Playground.Body
import Relay.Playground.Invoke
import Relay.Playground.Post
import Relay.Report
import Relay.Request
import Relay.Samples
import Relay.Session.Basic
import Relay.Session.History
import Relay.Session.Input
import Relay.Settings.Basic
import Relay.Settings.Document
import Relay.Settings.EnvFile
import Relay.Settings.Environment
import Relay.Settings.Layers
import Relay.Settings.Load
import Relay.Shell.Arithmetic
import Relay.Shell.Execute
import Relay.Shell.Machine
import Relay.Shell.Parse
import Relay.Shell.Pattern
import Relay.Shell.Script
import Relay.Shell.Utility
import Relay.Source
import Relay.Text.Alphanumeric
import Relay.Text.Blank
import Relay.Text.Lowercase
import Relay.Text.Numeral
import Relay.Text.Utf8
import Relay.Toml.Document
import Relay.Toml.Scalar
import Relay.Toml.Text
import Relay.Toml.Value
import Relay.Tool.Capture
import Relay.Tool.Command
import Relay.Tool.Errand
import Relay.Tool.Invoke
import Relay.Url.Host
import Relay.Url.Parse
import Relay.Url.Percent
import Relay.Url.Punycode
import Relay.Variables
import Relay.View
import Relay.Proofs.Controller.Ledger
import Relay.Proofs.Controller.Tracking
import Relay.Proofs.Controller.Flight
import Relay.Proofs.Controller.Exclusion
import Relay.Proofs.Controller.Output
import Relay.Proofs.Tool.Capture
import Relay.Proofs.Controller.Places
import Relay.Proofs.Session.Chronicle
import Relay.Proofs.Session.Program
import Relay.Proofs.Session.Sending
import Relay.Proofs.Credential.FileStore
import Relay.Proofs.Tool.Exit
import Relay.Proofs.Settings.Supply
import Relay.Proofs.Outcome.Captured
import Relay.Proofs.Json.Value
import Relay.Proofs.Json.Reply
import Relay.Proofs.Json.RunBody
import Relay.Proofs.Controller.Keys
import Relay.Proofs.Credential.History
import Relay.Proofs.Controller.Clearing
import Relay.Proofs.Outcome.Judgement
import Relay.Proofs.Locate.Search
import Relay.Proofs.Playground.Limit
import Relay.Proofs.Tool.Cut
import Relay.Proofs.Credential.Unreadable
import Relay.Proofs.Locate.Source
import Relay.Proofs.Locate.Configured
import Relay.Proofs.Tool.Command
import Relay.Proofs.Settings.Count
import Relay.Proofs.Settings.Folders
import Relay.Proofs.Session.Words
import Relay.Proofs.Path.Text
import Relay.Proofs.Tool.Quoting
import Relay.Proofs.Tool.CommandLine
import Relay.Proofs.Tool.Reads
import Relay.Proofs.Playground.Address
import Relay.Proofs.Session.Lines
import Relay.Proofs.Session.Transcript
