import XChainDecoder.Lib.Process
import XChainDecoder.Db.Chain
import XChainDecoder.Reorg.Fork
import XChainDecoder.Ingest.Refine
import XChainDecoder.Ingest.Pass
import XChainDecoder.Loop.Park
import XChainDecoder.Loop.Turn
import XChainDecoder.Ingest.Chained
import XChainDecoder.Loop.Rollback
import XChainDecoder.Loop.Still
import XChainDecoder.Loop.Cursor
import XChainDecoder.Ingest.ProtocolTime
import XChainDecoder.Ingest.Lifetime
import XChainDecoder.Ingest.Purge
import XChainDecoder.Lib.Bytes
import XChainDecoder.Lib.Codec
import XChainDecoder.Wire.Reader
import XChainDecoder.Wire.Walk
import XChainDecoder.Wire.Flagged
import XChainDecoder.Wire.Block
import XChainDecoder.Wire.Plain
import XChainDecoder.Wire.Mweb
import XChainDecoder.Db.Lease
import XChainDecoder.Clear.Command
import XChainDecoder.Clear.Race
import XChainDecoder.Ingest.Interning
import XChainDecoder.Ingest.Collapse
import XChainDecoder.Lib.Script
import XChainDecoder.Parse.Base
import XChainDecoder.Parse.Envelope
import XChainDecoder.Parse.Payload
import XChainDecoder.Parse.Source
import XChainDecoder.Parse.Carriers
import XChainDecoder.Parse.Transaction
import XChainDecoder.Parse.Outputs
import XChainDecoder.Parse.Arbitration
import XChainDecoder.Ingest.ContentFaults
import XChainDecoder.Ingest.Expiration
import XChainDecoder.Wire.AuxPow
import XChainDecoder.Wire.Strip
import XChainDecoder.Parse.Pubkeys
import XChainDecoder.Loop.Iterate
import XChainDecoder.Loop.Life
import XChainDecoder.Lib.Sql
import XChainDecoder.Migrate.Statements
import XChainDecoder.Lib.Tally
import XChainDecoder.Capture.Batch
import XChainDecoder.Lib.Utf8
import XChainDecoder.Parse.Lanes
import XChainDecoder.Capture.Action
import XChainDecoder.Capture.Probe
import XChainDecoder.Lib.Merkle
import XChainDecoder.Wire.Root
import XChainDecoder.Lib.Slices
import XChainDecoder.Mempool.Refresh
import XChainDecoder.Mempool.Cycle
import XChainDecoder.Lib.Column
import XChainDecoder.Migrate.LiveSchema
import XChainDecoder.Migrate.Reading
import XChainDecoder.Migrate.Definition
import XChainDecoder.Migrate.Guard
import XChainDecoder.Ingest.Named
import XChainDecoder.Lib.InStep
import XChainDecoder.Ingest.Resolve
import XChainDecoder.Ingest.Converge
import XChainDecoder.Lib.Threads
import XChainDecoder.Migrate.Server
import XChainDecoder.Migrate.Runner
import XChainDecoder.Migrate.History
import XChainDecoder.Migrate.Protocol
import XChainDecoder.Migrate.Turns
import XChainDecoder.Migrate.Migrators
import XChainDecoder.Lib.Traces
import XChainDecoder.Rpc.Connector
import XChainDecoder.Rpc.Calls
