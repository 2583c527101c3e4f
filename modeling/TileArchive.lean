import TileArchive.Build.Builder
import TileArchive.Build.Layout
import TileArchive.ByteRange
import TileArchive.Bytes
import TileArchive.Cache.Basic
import TileArchive.Cache.Config
import TileArchive.Cache.Session
import TileArchive.Cache.Stats
import TileArchive.Compression
import TileArchive.Decimal.Shortest
import TileArchive.Dialogue
import TileArchive.Dictionary
import TileArchive.Directory.Codec
import TileArchive.Directory.Entry
import TileArchive.Directory.Search
import TileArchive.Gzip.Bits
import TileArchive.Gzip.Code
import TileArchive.Gzip.Inflate
import TileArchive.Gzip.Member
import TileArchive.Header
import TileArchive.Json.Node
import TileArchive.Json.Number
import TileArchive.Json.Quoted
import TileArchive.Json.Record
import TileArchive.Json.Value
import TileArchive.Metadata.Document
import TileArchive.Metadata.Layer
import TileArchive.Metadata.Summary
import TileArchive.Proofs.Build.Archive
import TileArchive.Proofs.Build.Compact
import TileArchive.Proofs.Build.Described
import TileArchive.Proofs.Build.Draft
import TileArchive.Proofs.Build.Layout
import TileArchive.Proofs.Build.Leaves
import TileArchive.Proofs.Build.ReadBack
import TileArchive.Proofs.Build.Tiles
import TileArchive.Proofs.Build.Tree
import TileArchive.Proofs.Bytes
import TileArchive.Proofs.Cache.Abandonment
import TileArchive.Proofs.Cache.Accounting
import TileArchive.Proofs.Cache.Dropping
import TileArchive.Proofs.Cache.Failure
import TileArchive.Proofs.Cache.FirstLooks
import TileArchive.Proofs.Cache.Flights
import TileArchive.Proofs.Cache.Holds
import TileArchive.Proofs.Cache.Latest
import TileArchive.Proofs.Cache.Looks
import TileArchive.Proofs.Cache.Recency
import TileArchive.Proofs.Cache.Retention
import TileArchive.Proofs.Cache.Room
import TileArchive.Proofs.Cache.Run
import TileArchive.Proofs.Cache.SingleFlight
import TileArchive.Proofs.Cache.Sound
import TileArchive.Proofs.Cache.Trace
import TileArchive.Proofs.Cache.Undisturbed
import TileArchive.Proofs.Cache.Values
import TileArchive.Proofs.Cache.Waiters
import TileArchive.Proofs.Cache.Weight
import TileArchive.Proofs.Cache.Writes
import TileArchive.Proofs.Checked
import TileArchive.Proofs.Dialogue
import TileArchive.Proofs.Dictionary
import TileArchive.Proofs.Digits
import TileArchive.Proofs.Directory.Anew
import TileArchive.Proofs.Directory.Codec
import TileArchive.Proofs.Directory.Columns
import TileArchive.Proofs.Directory.Format
import TileArchive.Proofs.Directory.Halving
import TileArchive.Proofs.Directory.Search
import TileArchive.Proofs.Directory.Writable
import TileArchive.Proofs.Gzip
import TileArchive.Proofs.Header
import TileArchive.Proofs.Header.Canonical
import TileArchive.Proofs.Json.Number
import TileArchive.Proofs.Json.Quoted
import TileArchive.Proofs.Json.Record
import TileArchive.Proofs.Json.Value
import TileArchive.Proofs.Keyed
import TileArchive.Proofs.Metadata.Document
import TileArchive.Proofs.Metadata.Layer
import TileArchive.Proofs.Metadata.Summary
import TileArchive.Proofs.Reader.Agreement
import TileArchive.Proofs.Reader.Bounds
import TileArchive.Proofs.Reader.Calls
import TileArchive.Proofs.Reader.ChunkReads
import TileArchive.Proofs.Reader.Chunks
import TileArchive.Proofs.Reader.Coalescing
import TileArchive.Proofs.Reader.Contained
import TileArchive.Proofs.Reader.Counting
import TileArchive.Proofs.Reader.Direct
import TileArchive.Proofs.Reader.Events
import TileArchive.Proofs.Reader.Exchanges
import TileArchive.Proofs.Reader.FirstError
import TileArchive.Proofs.Reader.Flattening
import TileArchive.Proofs.Reader.Idle
import TileArchive.Proofs.Reader.Itinerary
import TileArchive.Proofs.Reader.Listed
import TileArchive.Proofs.Reader.Log
import TileArchive.Proofs.Reader.MetadataOnce
import TileArchive.Proofs.Reader.Once
import TileArchive.Proofs.Reader.Onward
import TileArchive.Proofs.Reader.Opening
import TileArchive.Proofs.Reader.Order
import TileArchive.Proofs.Reader.Placement
import TileArchive.Proofs.Reader.Relocation
import TileArchive.Proofs.Reader.Remembered
import TileArchive.Proofs.Reader.Scan
import TileArchive.Proofs.Reader.Sections
import TileArchive.Proofs.Reader.Strides
import TileArchive.Proofs.Reader.Tour
import TileArchive.Proofs.Reader.Transparency
import TileArchive.Proofs.Reader.Turns
import TileArchive.Proofs.Source.ContentRange
import TileArchive.Proofs.Source.RangeServer
import TileArchive.Proofs.Source.Retries
import TileArchive.Proofs.Steps
import TileArchive.Proofs.TileCoord
import TileArchive.Proofs.TileCoord.Adjacent
import TileArchive.Proofs.TileCoord.Bijection
import TileArchive.Proofs.TileCoord.Blocks
import TileArchive.Proofs.TileCoord.Words
import TileArchive.Proofs.Trail
import TileArchive.Proofs.Varint
import TileArchive.Proofs.Varint.Forms
import TileArchive.Proofs.Varint.Reads
import TileArchive.Proofs.Varint.Shortest
import TileArchive.Reader.Basic
import TileArchive.Reader.Config
import TileArchive.Reader.Display
import TileArchive.Reader.Error
import TileArchive.Reader.Listing
import TileArchive.Reader.Lookup
import TileArchive.Reader.Pool
import TileArchive.Reader.Sections
import TileArchive.Reader.Session
import TileArchive.Reader.Turnstile
import TileArchive.Reader.Visit
import TileArchive.Reader.Walker
import TileArchive.Source.Basic
import TileArchive.Source.Duration
import TileArchive.Source.Error
import TileArchive.Source.Http
import TileArchive.Source.RangeServer
import TileArchive.TileCoord
import TileArchive.Varint
