import Dalvik.Assembler.Program
import Dalvik.Disassembly.Sweep
import Dalvik.Json.Codec
import Dalvik.Listing
import Dalvik.Pool.Tables
import Dalvik.Proofs.Fields
import Dalvik.Proofs.OperandAssembly
import Dalvik.Proofs.PayloadScan
import Dalvik.Proofs.Items
import Dalvik.Proofs.Walk
import Dalvik.Proofs.PayloadMap
import Dalvik.Proofs.ItemOrder
import Dalvik.Proofs.Tiling
import Dalvik.Proofs.FirstFault
import Dalvik.Proofs.Composition
import Dalvik.Proofs.RoundTrip
import Dalvik.Proofs.IntervalInsertion
import Dalvik.Proofs.Coverage
import Dalvik.Proofs.OperandLegality
import Dalvik.Proofs.Truncation
import Dalvik.Proofs.TwoRuns
import Dalvik.Proofs.Relocation
import Dalvik.Proofs.PoolNames
import Dalvik.Proofs.PayloadBodies
import Dalvik.Proofs.ListingMerge
import Dalvik.Proofs.DecodingLog
import Dalvik.Proofs.InstructionText
import Dalvik.Proofs.HexColumns
import Dalvik.Proofs.ListingDump
import Dalvik.Proofs.TableGrowth
import Dalvik.Proofs.Surrogates
import Dalvik.Proofs.Utf8Encoding
import Dalvik.Proofs.StringData
import Dalvik.Proofs.JsonLexing
import Dalvik.Proofs.JsonReading
import Dalvik.Proofs.JsonRoundTrip
import Dalvik.Proofs.FieldLayout
import Dalvik.Proofs.ErrorKinds
import Dalvik.Proofs.Reassembly
import Dalvik.Proofs.CheckedDecoding
import Dalvik.Proofs.CheckedSweep
import Dalvik.Proofs.PayloadSizing
import Dalvik.Proofs.OperandShape
import Dalvik.Proofs.ReferencedNames
import Dalvik.Proofs.ColumnAlignment
import Dalvik.Proofs.OperandText
import Dalvik.Proofs.Renderings
