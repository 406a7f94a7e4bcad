import Telemetry.Binary64.Basic
import Telemetry.Binary64.Decimal
import Telemetry.Binary64.Shortest
import Telemetry.Bytes
import Telemetry.Checksum
import Telemetry.CommandLine.Arguments
import Telemetry.CommandLine.Report
import Telemetry.Compose
import Telemetry.Document.Basic
import Telemetry.Document.Reader
import Telemetry.Error
import Telemetry.Event
import Telemetry.Files.Error
import Telemetry.Files.Path
import Telemetry.Files.Replacement
import Telemetry.Files.Tree
import Telemetry.Header.Basic
import Telemetry.Header.Text
import Telemetry.Json.Brackets
import Telemetry.Json.Fault
import Telemetry.Json.Numerals
import Telemetry.Json.Reader
import Telemetry.Json.Strings
import Telemetry.Json.Value
import Telemetry.Json.Words
import Telemetry.Main
import Telemetry.Program
import Telemetry.Proofs.Basic
import Telemetry.Proofs.C.Declaration
import Telemetry.Proofs.C.Numeral
import Telemetry.Proofs.C.Scope
import Telemetry.Proofs.C.Token
import Telemetry.Proofs.Compose
import Telemetry.Proofs.Files.Calls
import Telemetry.Proofs.Files.Place
import Telemetry.Proofs.Files.Replacement
import Telemetry.Proofs.Header.Checksum
import Telemetry.Proofs.Header.Injective
import Telemetry.Proofs.Header.Items
import Telemetry.Proofs.Header.Names
import Telemetry.Proofs.Header.Reading
import Telemetry.Proofs.Header.Scope
import Telemetry.Proofs.Header.Sections
import Telemetry.Proofs.Json.Brackets
import Telemetry.Proofs.Json.Numerals
import Telemetry.Proofs.Json.Spelling
import Telemetry.Proofs.Json.Strings
import Telemetry.Proofs.Schema.Consistent
import Telemetry.Proofs.Schema.Names
import Telemetry.Proofs.Schema.WellFormed
import Telemetry.Proofs.Sessions
import Telemetry.Schema.Basic
import Telemetry.Schema.Error
import Telemetry.Schema.Reader
import Telemetry.Schema.Validation
import Telemetry.Stage
import Telemetry.Text.GraphemeExtend
import Telemetry.Text.Lines
import Telemetry.Text.Quoted
import Telemetry.Text.Unprintable
import Telemetry.Text.Utf8
import Telemetry.WireType
import Telemetry.Proofs.Json.Values
import Telemetry.Proofs.Document.Spelling
import Telemetry.Proofs.Schema.Refusal
import Telemetry.Proofs.CommandLine.ExitCode
import Telemetry.Proofs.Document.Shape
import Telemetry.Proofs.Files.Concurrent
import Telemetry.Proofs.Checksum.Detection
import Telemetry.Proofs.Checksum.Remainder
import Telemetry.Proofs.Json.Integers
import Telemetry.Proofs.Schema.TypeCodes
import Telemetry.Proofs.Binary64.Rounding
import Telemetry.Proofs.Binary64.Decimal
import Telemetry.Proofs.Json.Literals
import Telemetry.Proofs.Document.Ids
import Telemetry.Proofs.Schema.Ids
import Telemetry.Proofs.Json.Extension
import Telemetry.Proofs.Document.Ending
import Telemetry.Proofs.Log
import Telemetry.Proofs.Log.Lines
import Telemetry.Proofs.CommandLine.Spelling
import Telemetry.Proofs.Json.Text
import Telemetry.Proofs.Schema.ShownValues
import Telemetry.Proofs.Header.Members
