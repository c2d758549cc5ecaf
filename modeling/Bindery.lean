import Bindery.Binary.Format
import Bindery.Binary.Word
import Bindery.Binder
import Bindery.Catalogue.Codecs
import Bindery.Catalogue.Model
import Bindery.Classification
import Bindery.Codec
import Bindery.Codec.Address
import Bindery.Codec.Duration
import Bindery.Codec.FilePath
import Bindery.Codec.Instant
import Bindery.Config
import Bindery.Context
import Bindery.Decimal.Layout
import Bindery.Decimal.Shortest
import Bindery.Decode.Assembly
import Bindery.Decode.Dynamic
import Bindery.Decode.Typed
import Bindery.Describe
import Bindery.Emission
import Bindery.Encode
import Bindery.Entries
import Bindery.Entries.Hashed
import Bindery.Error
import Bindery.Event
import Bindery.IntType
import Bindery.Json.Grammar
import Bindery.Json.Library
import Bindery.Json.Parser
import Bindery.Json.Problem
import Bindery.Json.Standard
import Bindery.Json.Writer
import Bindery.KeyTable
import Bindery.Making
import Bindery.Node
import Bindery.Node.Builder
import Bindery.Node.Cursor
import Bindery.Node.Visit
import Bindery.Number
import Bindery.Path
import Bindery.Record
import Bindery.Registry
import Bindery.Source
import Bindery.Standard
import Bindery.Tape
import Bindery.Text.Alphanumeric
import Bindery.Text.Diagnostic
import Bindery.Text.Hex
import Bindery.Text.Quoted
import Bindery.Text.Rolling
import Bindery.Text.Unprintable
import Bindery.Token
import Bindery.Ty
import Bindery.TypeMap
import Bindery.Value
import Bindery.Proofs.Abreast
import Bindery.Proofs.Accord
import Bindery.Proofs.Alike
import Bindery.Proofs.Alongside
import Bindery.Proofs.Assembling
import Bindery.Proofs.Building
import Bindery.Proofs.Closure
import Bindery.Proofs.Construction
import Bindery.Proofs.Consulting
import Bindery.Proofs.Consumption
import Bindery.Proofs.Deeds
import Bindery.Proofs.Documents
import Bindery.Proofs.DurationGrammar
import Bindery.Proofs.DurationText
import Bindery.Proofs.Faults
import Bindery.Proofs.Following
import Bindery.Proofs.Grammar
import Bindery.Proofs.Hashing
import Bindery.Proofs.History
import Bindery.Proofs.Hybrid
import Bindery.Proofs.Indistinct
import Bindery.Proofs.Instants
import Bindery.Proofs.Invisible
import Bindery.Proofs.JsonNumbers
import Bindery.Proofs.JsonRoundTrip
import Bindery.Proofs.JsonText
import Bindery.Proofs.Keys
import Bindery.Proofs.Laid
import Bindery.Proofs.LastWrite
import Bindery.Proofs.MadeOnce
import Bindery.Proofs.Narrowing
import Bindery.Proofs.Numbers
import Bindery.Proofs.Objects
import Bindery.Proofs.Offsets
import Bindery.Proofs.Outcomes
import Bindery.Proofs.Paths
import Bindery.Proofs.Progress
import Bindery.Proofs.Readers
import Bindery.Proofs.Reads
import Bindery.Proofs.Rebuild
import Bindery.Proofs.Recording
import Bindery.Proofs.Records
import Bindery.Proofs.Registration
import Bindery.Proofs.Repeated
import Bindery.Proofs.Resolution
import Bindery.Proofs.Restored
import Bindery.Proofs.RoundTrip
import Bindery.Proofs.Rounding
import Bindery.Proofs.Runs
import Bindery.Proofs.Safety
import Bindery.Proofs.Sentence
import Bindery.Proofs.Shortest
import Bindery.Proofs.Skipping
import Bindery.Proofs.Steady
import Bindery.Proofs.Strict
import Bindery.Proofs.TrackedReading
import Bindery.Proofs.TrackedWriting
import Bindery.Proofs.Transparency
import Bindery.Proofs.Tree
import Bindery.Proofs.Walk
import Bindery.Proofs.WordValues
import Bindery.Proofs.Writers
import Bindery.Proofs.Written
