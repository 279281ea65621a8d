import RowQuery.Proofs.Arithmetic
import RowQuery.Proofs.Cancellation
import RowQuery.Proofs.Chains
import RowQuery.Proofs.Columns
import RowQuery.Proofs.CommandLog
import RowQuery.Proofs.Comparison
import RowQuery.Proofs.Compilation
import RowQuery.Proofs.Conjunction
import RowQuery.Proofs.Decoding
import RowQuery.Proofs.Dispatch
import RowQuery.Proofs.Ending
import RowQuery.Proofs.Independence
import RowQuery.Proofs.Information
import RowQuery.Proofs.Joins
import RowQuery.Proofs.Pipeline
import RowQuery.Proofs.Positions
import RowQuery.Proofs.Records
import RowQuery.Proofs.Refusal
import RowQuery.Proofs.Release
import RowQuery.Proofs.Selection
import RowQuery.Proofs.Sharing
import RowQuery.Proofs.Storage
import RowQuery.Proofs.Taking
import RowQuery.Proofs.Wrapping
import RowQuery.Session.Run
import RowQuery.Value.Convert
import RowQuery.Verbosity
